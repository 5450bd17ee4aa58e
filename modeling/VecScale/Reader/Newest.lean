import VecScale.Reader.Eviction
import VecScale.Reader.SnapshotRead

/-!
# The newest segments

A cache of a limited size keeps the youngest segments listed to it, so what it evicts is
older than what it serves.

* `SegmentCache.mem_retrieved_iff_library`: what a reader retrieves, in terms of the
  segments that its names stand for;
* `ReaderReach.few`: a cache is within its limit;
* `keeps_newest`: what a refresh that returned leaves, and what is served from it.
-/

namespace VecScale

variable {dim : ℕ} {library : Library dim} {cache : SegmentCache dim} {st : SharedStorage dim}
  {allSegments : List SegmentMeta}

/-! ## What is retrieved -/

section Retrieved

variable {D : Type} [LinearOrder D] (faiss : Faiss dim D)

/-- A hit is of a cached segment that does not hide it. -/
theorem SegmentCache.exists_of_retrieved (cached : library.Cached cache.segments) {q : Vec dim}
    {topK nprobe s : ℕ} {hit : ℤ × D} (retrieved : hit ∈ cache.retrieved faiss q topK nprobe s) :
    ∃ name ∈ cache.segments.keys, (library name).snapshotId ≤ s ∧
      hit ∈ (library name).search faiss q topK nprobe ∧ hit.1 ∉ cache.hiddenIds name := by
  rcases mem_undeleted.mp retrieved with ⟨⟨hits, listed, inHits⟩, -⟩
  rcases List.mem_map.mp listed with ⟨⟨name, seg⟩, visible, rfl⟩
  rcases List.mem_filter.mp visible with ⟨entry, old⟩
  have here := Dict.mem_entries_iff.mp entry
  obtain ⟨-, copies⟩ := cached name seg here
  rcases List.mem_filter.mp inHits with ⟨inSeg, shown⟩
  refine ⟨name, Dict.mem_keys_iff.mpr ⟨seg, here⟩, ?_, ?_, of_decide_eq_true shown⟩
  · rw [Segment.snapshotId, ← copies.segMeta]
    exact of_decide_eq_true old
  · rwa [Segment.search, ← copies.index]

theorem mem_batchIds_of_search {seg : Segment dim} {q : Vec dim} {topK nprobe : ℕ} {hit : ℤ × D}
    (found : hit ∈ seg.search faiss q topK nprobe) : hit.1 ∈ batchIds seg.rows := by
  obtain ⟨v, row, -⟩ := (Faiss.mem_measure faiss).mp (IVFFlatIndex.mem_of_search faiss found).2
  exact List.mem_map_of_mem row

/-- A hit of a cached segment that is neither tombstoned nor outdated. -/
theorem SegmentCache.mem_retrieved_iff_library (sound : library.Sound cache)
    (current : cache.Current) {q : Vec dim} {topK nprobe s : ℕ} {hit : ℤ × D} :
    hit ∈ cache.retrieved faiss q topK nprobe s ↔ hit.1 ∉ cache.tombstones ∧
      ∃ name ∈ cache.segments.keys, (library name).snapshotId ≤ s ∧
        hit ∈ (library name).search faiss q topK nprobe ∧
        ∀ other ∈ cache.segments.keys, hit.1 ∈ batchIds (library other).rows →
          (library other).snapshotId ≤ (library name).snapshotId := by
  have hidden : ∀ {name : String}, name ∈ cache.segments.keys →
      hit ∈ (library name).search faiss q topK nprobe →
      (hit.1 ∉ cache.hiddenIds name ↔ hit.1 ∉ cache.tombstones ∧
        ∀ other ∈ cache.segments.keys, hit.1 ∈ batchIds (library other).rows →
          (library other).snapshotId ≤ (library name).snapshotId) := by
    intro name cached found
    rw [hiddenIds, Finset.mem_union, not_or, sound.indexes name hit.1]
    refine and_congr_right fun _ => ?_
    constructor
    · intro shown other listed inOther
      by_contra younger
      exact shown ⟨(current name).mpr cached, mem_batchIds_of_search faiss found, other,
        (current other).mpr listed, inOther, not_le.mp younger⟩
    · intro youngest indexed
      rcases indexed with ⟨-, -, other, listed, inOther, younger⟩
      exact absurd (youngest other ((current other).mp listed) inOther) (not_le.mpr younger)
  constructor
  · intro found
    obtain ⟨name, cached, old, inLibrary, shown⟩ :=
      SegmentCache.exists_of_retrieved faiss sound.cached found
    exact ⟨(mem_undeleted.mp found).2, name, cached, old, inLibrary,
      ((hidden cached inLibrary).mp shown).2⟩
  · intro found
    rcases found with ⟨live, name, cached, old, inLibrary, youngest⟩
    rcases Dict.mem_keys_iff.mp cached with ⟨seg, here⟩
    obtain ⟨-, copies⟩ := sound.cached name seg here
    refine mem_undeleted.mpr ⟨⟨_, List.mem_map_of_mem (a := (name, seg)) ?_, ?_⟩, live⟩
    · refine List.mem_filter.mpr ⟨Dict.mem_entries_iff.mpr here, decide_eq_true ?_⟩
      rw [Segment.snapshotId, copies.segMeta]
      exact old
    · refine List.mem_filter.mpr ⟨?_, decide_eq_true ?_⟩
      · rwa [Segment.search, copies.index]
      · exact (hidden cached inLibrary).mpr ⟨live, youngest⟩

end Retrieved

/-! ## The limit -/

/-- The loading loop leaves the end of a queue, whether it returns or raises. -/
theorem SegmentCache.exists_queue
    (few : (cache.namesKept allSegments).length ≤ cache.maxSegmentsInMemory) :
    ∃ queue : List String, (cache.loadListed st allSegments).2.segments.keys =
      queue.rtake cache.maxSegmentsInMemory := by
  have held := keys_kept.trans (rtake_of_length_le few).symm
  by_cases returned : (cache.loadListed st allSegments).1 = .ok ()
  · exact ⟨_, keys_of_admitAll nodup_namesKept held returned⟩
  · obtain ⟨i, item, -, passed, -, -, same⟩ := admitAll_stops returned
    refine ⟨_, (congrArg Dict.keys same).trans (keys_of_admitAll nodup_namesKept held passed)⟩

theorem SegmentCache.namesKept_le (few : cache.segments.keys.length ≤ cache.maxSegmentsInMemory) :
    (cache.namesKept allSegments).length ≤ cache.maxSegmentsInMemory :=
  (List.length_filter_le _ _).trans few

theorem SegmentCache.perm_keys_touch (s : ℕ) :
    (cache.touch s).segments.keys.Perm cache.segments.keys := by
  rw [List.perm_ext_iff_of_nodup (Dict.keys_nodup _) (Dict.keys_nodup _)]
  intro name
  rw [Dict.mem_keys_iff, Dict.mem_keys_iff]
  simp only [touch, Dict.get?_foldl_moveToEnd]

theorem ReaderStep.few {cache' : SegmentCache dim} (step : ReaderStep library cache cache')
    (few : cache.segments.keys.length ≤ cache.maxSegmentsInMemory) :
    cache'.segments.keys.length ≤ cache'.maxSegmentsInMemory := by
  cases step with
  | @refresh st allSegments _ _ _ =>
      have room : (cache.namesKept allSegments).length ≤ cache.maxSegmentsInMemory :=
        SegmentCache.namesKept_le few
      obtain ⟨queue, keys⟩ := @SegmentCache.exists_queue _ _ st _ room
      have loaded : (cache.loadListed st allSegments).2.segments.keys.length ≤
          cache.maxSegmentsInMemory := by
        rw [keys, length_rtake]
        exact min_le_right _ _
      rw [SegmentCache.max_refresh]
      unfold SegmentCache.refresh
      dsimp only
      split
      · exact loaded
      · rw [SegmentCache.keys_refreshVisibilityIndex]
        exact loaded
  | search s => exact (SegmentCache.perm_keys_touch s).length_eq.trans_le few
  | health _ =>
      change (SegmentCache.readIds _ cache.segments cache.segments.keys).2.keys.length ≤ _
      rw [SegmentCache.keys_readIds]
      exact few

theorem ReaderReach.few (reach : ReaderReach library cache) :
    cache.segments.keys.length ≤ cache.maxSegmentsInMemory := by
  rcases reach with ⟨shardId, limit, loadAllShards, new, made, steps⟩
  induction steps with
  | refl =>
      unfold SegmentCache.new at made
      split at made
      · cases made
        exact Nat.zero_le _
      · cases made
  | tail _ step ih => exact step.few ih

/-! ## The order of age -/

/-- The order `(snapshot_id, segment_id)`. -/
def Library.Older (library : Library dim) (name other : String) : Prop :=
  toLex ((library name).snapshotId, name) < toLex ((library other).snapshotId, other)

/-- Listed names come in the order of age. -/
theorem pairwise_namesByAge (lists : library.Lists allSegments) :
    (cache.namesByAge allSegments).Pairwise library.Older := by
  have sorted : (SegmentCache.byAge (cache.listed allSegments)).Pairwise fun a b =>
      toLex (a.2.snapshotId, a.1) ≤ toLex (b.2.snapshotId, b.1) :=
    pairwise_sorted_key _ fun item : String × SegmentMeta => toLex (item.2.snapshotId, item.1)
  have distinct : (cache.namesByAge allSegments).Nodup := SegmentCache.nodup_namesByAge
  rw [SegmentCache.namesByAge, List.Nodup, List.pairwise_map] at distinct
  rw [SegmentCache.namesByAge, List.pairwise_map]
  have age : ∀ item ∈ SegmentCache.byAge (cache.listed allSegments),
      item.2.snapshotId = (library item.1).snapshotId := by
    intro item member
    obtain ⟨named, listed, -⟩ := mem_listed member
    rw [named, Segment.snapshotId, (lists item.2 listed).1]
  refine (sorted.and distinct).imp_of_mem fun here there both => ?_
  rw [Library.Older, ← age _ here, ← age _ there]
  refine lt_of_le_of_ne both.1 fun same => both.2 ?_
  exact congrArg Prod.snd (toLex.injective same)

/-- The cache has as many of the visible segments as it may, the youngest ones, in order of
age. -/
structure SegmentCache.HoldsNewest (library : Library dim) (cache : SegmentCache dim)
    (visible : Dict String SegmentMeta) : Prop where
  length : cache.segments.length = min visible.length cache.maxSegmentsInMemory
  listed : ∀ name ∈ cache.segments.keys, name ∈ visible.keys
  ascending : cache.segments.keys.Pairwise library.Older
  newest : ∀ name ∈ visible.keys, name ∉ cache.segments.keys →
    ∀ cached ∈ cache.segments.keys, library.Older name cached

theorem SegmentCache.holdsNewest_of_refresh (lists : library.Lists allSegments)
    (few : cache.segments.keys.length ≤ cache.maxSegmentsInMemory)
    (returned : (cache.refresh st allSegments).1 = .ok ()) :
    (cache.refresh st allSegments).2.HoldsNewest library (cache.listed allSegments) := by
  have keys := keys_of_refresh (namesKept_le few) returned
  obtain ⟨front, parted, -⟩ := exists_front (cache.namesByAge allSegments) cache.maxSegmentsInMemory
  have ordered : (cache.namesByAge allSegments).Pairwise library.Older := pairwise_namesByAge lists
  have inVisible : ∀ name, name ∈ (cache.listed allSegments).keys ↔
      name ∈ front ∨ name ∈ (cache.refresh st allSegments).2.segments.keys := by
    intro name
    rw [keys, ← List.mem_append, ← parted]
    exact perm_namesByAge.mem_iff.symm
  rw [parted, ← keys, List.pairwise_append] at ordered
  refine ⟨?_, fun name member => (inVisible name).mpr (Or.inr member), ordered.2.1, ?_⟩
  · have sizes : (cache.namesByAge allSegments).length = (cache.listed allSegments).length := by
      rw [perm_namesByAge.length_eq, Dict.keys, List.length_map]
      rfl
    rw [max_refresh, ← sizes, ← length_rtake, ← keys, Dict.keys, List.length_map]
    rfl
  · intro name listed evicted cached member
    exact ordered.2.2 name (((inVisible name).mp listed).resolve_right evicted) cached member

variable {D : Type} [LinearOrder D] (faiss : Faiss dim D)

/-- **A refresh that returns keeps the newest segments**, whatever the cache was, and no
search of it returns a row of an id that a younger segment listed has, cached or not. -/
theorem keeps_newest (reach : ReaderReach library cache) (intact : library.Intact st)
    (lists : library.Lists allSegments) {refreshed : SegmentCache dim}
    (returned : cache.refresh st allSegments = (.ok (), refreshed)) :
    refreshed.HoldsNewest library (cache.listed allSegments) ∧
      ∀ q topK nprobe s, ∀ hit ∈ (refreshed.searchAll faiss q topK nprobe s).1,
        ∃ name ∈ refreshed.segments.keys, hit ∈ (library name).search faiss q topK nprobe ∧
          ∀ segMeta ∈ allSegments, cache.Serves segMeta.shardId →
            hit.1 ∈ batchIds (library segMeta.segmentId).rows →
              segMeta.snapshotId ≤ (library name).snapshotId := by
  have passed : (cache.refresh st allSegments).1 = .ok () := by rw [returned]
  have newest := SegmentCache.holdsNewest_of_refresh lists reach.few passed
  obtain ⟨sound, current⟩ := sound_of_refresh intact lists reach.sound passed
  rw [returned] at newest sound current
  refine ⟨newest, fun q topK nprobe s hit found => ?_⟩
  have near := nearestById_mergeResults (refreshed.searchResults faiss q topK nprobe s) topK
    refreshed.tombstones
  obtain ⟨-, name, cached, -, inLibrary, youngest⟩ :=
    (SegmentCache.mem_retrieved_iff_library faiss sound current).mp (near.least _ found).1
  refine ⟨name, cached, inLibrary, fun segMeta listed serves holds => ?_⟩
  have age : (library segMeta.segmentId).snapshotId = segMeta.snapshotId :=
    congrArg SegmentMeta.snapshotId (lists segMeta listed).1
  rw [← age]
  by_cases kept : segMeta.segmentId ∈ refreshed.segments.keys
  · exact youngest _ kept holds
  · have visible : segMeta.segmentId ∈ (cache.listed allSegments).keys :=
      mem_keys_listed.mpr ⟨segMeta, listed, serves, rfl⟩
    have older := newest.newest _ visible kept name cached
    rcases Prod.Lex.toLex_lt_toLex.mp older with less | ⟨same, -⟩
    · exact less.le
    · exact same.le

/-- A reader with room for one segment that has loaded the older of two versions. -/
def smallCache : SegmentCache 1 :=
  (SegmentCache.refresh newerVersion.2 [olderVersion.1.segMeta]
    ⟨0, 1, false, ∅, ∅, ∅, [], by decide⟩).2

theorem keeps_newest_twoVersions :
    smallCache.segments.values.map Segment.snapshotId = [1] ∧
      (smallCache.refresh newerVersion.2 twoVersions).2.segments.values.map
        Segment.snapshotId = [2] ∧
      (smallCache.refresh newerVersion.2 twoVersions).2.HoldsNewest versionLibrary
        (smallCache.listed twoVersions) := by
  have reach : ReaderReach versionLibrary smallCache := by
    refine ⟨0, 1, false, _, rfl, .tail .refl (.refresh intact_twoVersions ?_ (Or.inl ?_))⟩
    · exact fun segMeta listed =>
        lists_twoVersions segMeta (List.mem_singleton.mp listed ▸ List.mem_cons_self)
    · decide +kernel
  exact ⟨by decide +kernel, by decide +kernel, (keeps_newest (bruteForce 1) reach intact_twoVersions
    lists_twoVersions (Prod.ext (by decide +kernel) rfl)).1⟩

end VecScale
