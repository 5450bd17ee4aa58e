import VecScale.Reader.FilteredSearch
import VecScale.Reader.VisibilityIndex

/-!
# Reading at a snapshot

The index that hides old versions knows nothing of snapshots: a version younger
than the snapshot of a search hides the versions that the search should show.

* `mem_survivors_iff_leaves`: the rows a search at `s` lets through are those of a
  segment at most `s` old that the index does not hide;
* `leavesAt_iff`: a renewed index hides those that some cached segment outdates;
* `snapshot_read_iff`: a reader serves the newest version of an id at a snapshot
  exactly when its index leaves one; a renewed index does exactly when no cached
  segment above the snapshot holds the id.
-/

namespace VecScale

variable {dim : ℕ} {D : Type} [LinearOrder D]

namespace SegmentCache

/-- A cached segment at or below `s` holds `x`. -/
def HoldsAt (cache : SegmentCache dim) (s : ℕ) (x : ℤ) (seg : Segment dim) : Prop :=
  seg ∈ cache.segments.values ∧ seg.snapshotId ≤ s ∧ x ∈ batchIds seg.rows

/-- The rows of all cached segments. -/
def cachedRows (cache : SegmentCache dim) : List (Row dim) :=
  cache.segments.values.flatMap Segment.rows

/-- What a snapshot read of `x` should find: one hit, at the distance of its row in
a newest segment at or below `s`, or none if there is no such segment. -/
def ServesNewest (faiss : Faiss dim D) (cache : SegmentCache dim) (q : Vec dim) (s : ℕ) (x : ℤ)
    (hits : List (ℤ × D)) : Prop :=
  ((∃ seg, cache.HoldsAt s x seg) → ∃ d, hits.filter (fun hit => hit.1 = x) = [(x, d)] ∧
    ∃ seg v, cache.HoldsAt s x seg ∧ (x, v) ∈ seg.rows ∧ d = faiss.l2 q v ∧
      ∀ other, cache.HoldsAt s x other → other.snapshotId ≤ seg.snapshotId) ∧
  ((¬ ∃ seg, cache.HoldsAt s x seg) → ∀ d, (x, d) ∉ hits)

/-- A row of `x` in a newest cached segment at or below `s`. -/
def NewestAt (cache : SegmentCache dim) (s : ℕ) (x : ℤ) (v : Vec dim) : Prop :=
  ∃ seg, cache.HoldsAt s x seg ∧ (x, v) ∈ seg.rows ∧
    ∀ other, cache.HoldsAt s x other → other.snapshotId ≤ seg.snapshotId

end SegmentCache

/-- Of the segments named, one younger than `name` holds `x`. -/
def Library.Outdates (library : Library dim) (names : List String) (name : String) (x : ℤ) : Prop :=
  name ∈ names ∧ ∃ other ∈ names, x ∈ batchIds (library other).rows ∧
    (library name).snapshotId < (library other).snapshotId

namespace SegmentCache

/-- A row of `x` at or below `s` that an index built for `names` does not hide. -/
def LeavesAt (library : Library dim) (names : List String) (cache : SegmentCache dim) (s : ℕ)
    (x : ℤ) (v : Vec dim) : Prop :=
  ∃ name seg, cache.segments.get? name = some seg ∧ seg.snapshotId ≤ s ∧ (x, v) ∈ seg.rows ∧
    ¬ library.Outdates names name x

/-- The nearest row of `x` that the index leaves is as far as a row of a newest segment. -/
def LeavesNewest (faiss : Faiss dim D) (library : Library dim) (names : List String)
    (cache : SegmentCache dim) (q : Vec dim) (s : ℕ) (x : ℤ) : Prop :=
  ∃ v, cache.NewestAt s x v ∧
    (∃ w, cache.LeavesAt library names s x w ∧ faiss.l2 q w = faiss.l2 q v) ∧
    ∀ w, cache.LeavesAt library names s x w → faiss.l2 q v ≤ faiss.l2 q w

end SegmentCache

variable {library : Library dim} {cache : SegmentCache dim}

/-- The rows that a search at `s` lets through, whatever its index was built for. -/
theorem SegmentCache.mem_survivors_iff_leaves {names : List String}
    (cached : library.Cached cache.segments) (indexes : library.Indexes names cache.segmentHiddenIds)
    {s : ℕ} {x : ℤ} {v : Vec dim} : (x, v) ∈ cache.survivors s ↔
      x ∉ cache.tombstones ∧ cache.LeavesAt library names s x v := by
  have hidden : ∀ {name : String} {seg : Segment dim}, cache.segments.get? name = some seg →
      (x, v) ∈ seg.rows → (x ∈ (cache.segmentHiddenIds.get? name).getD ∅ ↔
        library.Outdates names name x) := by
    intro name seg found row
    obtain ⟨-, copies⟩ := cached name seg found
    have rows : (library name).rows = seg.rows := congrArg IVFFlatIndex.rows copies.index.symm
    have listed : x ∈ batchIds (library name).rows := rows ▸ List.mem_map_of_mem row
    rw [indexes name x, and_iff_right listed]
    rfl
  simp only [SegmentCache.survivors, SegmentCache.visibleSegments, List.mem_flatMap,
    List.mem_filter, decide_eq_true_eq, SegmentCache.hiddenIds, Finset.mem_union, not_or,
    Prod.exists, Dict.mem_entries_iff, SegmentCache.LeavesAt]
  constructor
  · rintro ⟨name, seg, ⟨found, old⟩, row, live, shown⟩
    exact ⟨live, name, seg, found, old, row, (hidden found row).not.mp shown⟩
  · rintro ⟨live, name, seg, found, old, row, shown⟩
    exact ⟨name, seg, ⟨found, old⟩, row, live, (hidden found row).not.mpr shown⟩

/-- An index of the cached segments leaves the rows that none of these outdates. -/
theorem SegmentCache.leavesAt_iff (sound : library.Sound cache) (current : cache.Current)
    {s : ℕ} {x : ℤ} {v : Vec dim} :
    cache.LeavesAt library (cache.visibilitySignature.map Prod.fst) s x v ↔
      ∃ seg ∈ cache.segments.values, seg.snapshotId ≤ s ∧ (x, v) ∈ seg.rows ∧
        ∀ other ∈ cache.segments.values, x ∈ batchIds other.rows →
          other.snapshotId ≤ seg.snapshotId := by
  have entry : ∀ {name : String} {seg : Segment dim}, cache.segments.get? name = some seg →
      (library name).rows = seg.rows ∧ (library name).snapshotId = seg.snapshotId := by
    intro name seg found
    obtain ⟨-, copies⟩ := sound.cached name seg found
    exact ⟨congrArg IVFFlatIndex.rows copies.index.symm,
      congrArg SegmentMeta.snapshotId copies.segMeta.symm⟩
  have outdated : ∀ {name : String} {seg : Segment dim}, cache.segments.get? name = some seg →
      (library.Outdates (cache.visibilitySignature.map Prod.fst) name x ↔
        ∃ other ∈ cache.segments.values, x ∈ batchIds other.rows ∧
          seg.snapshotId < other.snapshotId) := by
    intro name seg found
    obtain ⟨-, age⟩ := entry found
    have named : name ∈ cache.segments.keys := Dict.mem_keys_iff.mpr ⟨seg, found⟩
    rw [Library.Outdates, age, current name, and_iff_right named]
    constructor
    · rintro ⟨other, known, holds, younger⟩
      obtain ⟨seg', found'⟩ := Dict.mem_keys_iff.mp ((current other).mp known)
      obtain ⟨rows', age'⟩ := entry found'
      rw [rows'] at holds
      rw [age'] at younger
      exact ⟨seg', Dict.mem_values_iff.mpr ⟨other, found'⟩, holds, younger⟩
    · rintro ⟨seg', value, holds, younger⟩
      rcases Dict.mem_values_iff.mp value with ⟨other, found'⟩
      obtain ⟨rows', age'⟩ := entry found'
      refine ⟨other, (current other).mpr (Dict.mem_keys_iff.mpr ⟨seg', found'⟩), ?_⟩
      rw [rows', age']
      exact ⟨holds, younger⟩
  constructor
  · rintro ⟨name, seg, found, old, row, newest⟩
    refine ⟨seg, Dict.mem_values_iff.mpr ⟨name, found⟩, old, row, fun other value holds => ?_⟩
    by_contra younger
    exact newest ((outdated found).mpr ⟨other, value, holds, not_le.mp younger⟩)
  · rintro ⟨seg, value, old, row, younger⟩
    rcases Dict.mem_values_iff.mp value with ⟨name, found⟩
    refine ⟨name, seg, found, old, row, fun hides => ?_⟩
    obtain ⟨other, value', holds, younger'⟩ := (outdated found).mp hides
    exact absurd (younger other value' holds) (not_le.mpr younger')

/-- The rows that a search at `s` lets through when the index is renewed. -/
theorem SegmentCache.mem_survivors_iff (sound : library.Sound cache) (current : cache.Current)
    {s : ℕ} {x : ℤ} {v : Vec dim} : (x, v) ∈ cache.survivors s ↔
      x ∉ cache.tombstones ∧ ∃ seg ∈ cache.segments.values, seg.snapshotId ≤ s ∧ (x, v) ∈ seg.rows ∧
        ∀ other ∈ cache.segments.values, x ∈ batchIds other.rows →
          other.snapshotId ≤ seg.snapshotId := by
  rw [SegmentCache.mem_survivors_iff_leaves sound.cached sound.indexes,
    cache.leavesAt_iff sound current]

/-- With room for every row, a search lists the least distance of every retrieved id. -/
theorem SegmentCache.mem_searchAll_iff (faiss : Faiss dim D) {q : Vec dim} {topK nprobe : ℕ}
    (room : cache.cachedRows.length ≤ topK) {s : ℕ} {x : ℤ} {d : D} :
    (x, d) ∈ (cache.searchAll faiss q topK nprobe s).1 ↔
      Least (cache.retrieved faiss q topK nprobe s) x d := by
  have near := nearestById_mergeResults (cache.searchResults faiss q topK nprobe s) topK
    cache.tombstones
  apply near.mem_iff
  refine le_trans ?_ room
  have inside : rowIds (cache.retrieved faiss q topK nprobe s) ⊆
      (batchIds cache.cachedRows).toFinset := by
    intro y member
    rcases mem_rowIds.mp member with ⟨e, retrieved⟩
    have survives := cache.mem_survivors_of_retrieved faiss q topK nprobe s _ retrieved
    obtain ⟨v, row, -⟩ := (Faiss.mem_measure faiss).mp survives
    rcases List.mem_flatMap.mp row with ⟨entry, visible, kept⟩
    rw [List.mem_toFinset]
    refine List.mem_map_of_mem (List.mem_flatMap.mpr ⟨entry.2, ?_, (List.mem_filter.mp kept).1⟩)
    exact List.mem_map_of_mem (List.mem_filter.mp visible).1
  refine (Finset.card_le_card inside).trans ((List.toFinset_card_le _).trans ?_)
  rw [batchIds, List.length_map]

/-- With room for every row, an exact search retrieves the surviving rows of
non-negative id. -/
theorem SegmentCache.mem_retrieved_iff (faiss : Faiss dim D) {q : Vec dim} {topK nprobe : ℕ}
    (exact : ∀ seg ∈ cache.segments.values, seg.index.ExactAt faiss q nprobe)
    (room : cache.cachedRows.length ≤ topK) {s : ℕ} {x : ℤ} {d : D} :
    (x, d) ∈ cache.retrieved faiss q topK nprobe s ↔
      0 ≤ x ∧ (x, d) ∈ faiss.measure q (cache.survivors s) := by
  have whole : ∀ entry ∈ cache.visibleSegments s, ∀ hit : ℤ × D,
      hit ∈ entry.2.search faiss q topK nprobe ↔ 0 ≤ hit.1 ∧ hit ∈ faiss.measure q entry.2.rows := by
    intro entry visible hit
    have value : entry.2 ∈ cache.segments.values := List.mem_map_of_mem (List.mem_filter.mp visible).1
    have inside : entry.2.rows.Sublist cache.cachedRows :=
      List.sublist_flatten_of_mem (List.mem_map_of_mem value)
    exact IVFFlatIndex.mem_search_iff faiss (exact _ value) (inside.length_le.trans room)
  constructor
  · intro retrieved
    refine ⟨?_, cache.mem_survivors_of_retrieved faiss q topK nprobe s _ retrieved⟩
    rcases mem_undeleted.mp retrieved with ⟨⟨hits, listed, found⟩, -⟩
    rcases List.mem_map.mp listed with ⟨entry, visible, rfl⟩
    exact ((whole entry visible _).mp (List.mem_filter.mp found).1).1
  · intro survives
    rcases survives with ⟨natural, survives⟩
    obtain ⟨v, row, same⟩ := (Faiss.mem_measure faiss).mp survives
    rcases List.mem_flatMap.mp row with ⟨entry, visible, kept⟩
    rw [List.mem_filter, decide_eq_true_eq] at kept
    have live : x ∉ cache.tombstones := fun tombstoned =>
      kept.2 (Finset.mem_union_left _ tombstoned)
    refine mem_undeleted.mpr ⟨⟨_, List.mem_map_of_mem visible, ?_⟩, live⟩
    refine List.mem_filter.mpr ⟨?_, decide_eq_true kept.2⟩
    exact (whole entry visible _).mpr ⟨natural, (Faiss.mem_measure faiss).mpr ⟨v, kept.1, same⟩⟩

omit [LinearOrder D] in
/-- One hit of an id is all of its hits. -/
theorem filter_eq_singleton {hits : List (ℤ × D)} (nodup : (hits.map Prod.fst).Nodup) {x : ℤ} {d : D}
    (member : (x, d) ∈ hits) : hits.filter (fun hit => hit.1 = x) = [(x, d)] := by
  have distinct : (hits.filter fun hit => hit.1 = x).Nodup := (List.Nodup.of_map _ nodup).filter _
  apply List.perm_singleton.mp
  refine (List.perm_ext_iff_of_nodup distinct (List.nodup_singleton _)).mpr fun hit => ?_
  rw [List.mem_filter, decide_eq_true_eq, List.mem_singleton]
  constructor
  · intro kept
    exact List.inj_on_of_nodup_map nodup kept.1 member kept.2
  · intro same
    rw [same]
    exact ⟨member, rfl⟩

/-- If some cached segment holds an id, one of them is the youngest that does. -/
theorem SegmentCache.exists_youngest {seg : Segment dim} {x : ℤ}
    (value : seg ∈ cache.segments.values) (holds : x ∈ batchIds seg.rows) :
    ∃ youngest ∈ cache.segments.values, x ∈ batchIds youngest.rows ∧
      ∀ other ∈ cache.segments.values, x ∈ batchIds other.rows →
        other.snapshotId ≤ youngest.snapshotId := by
  let holders := cache.segments.values.filter fun seg => x ∈ batchIds seg.rows
  have listed : ∀ {other : Segment dim}, other ∈ holders ↔
      other ∈ cache.segments.values ∧ x ∈ batchIds other.rows := by
    intro other
    rw [List.mem_filter, decide_eq_true_eq]
  have nonempty : holders ≠ [] := List.ne_nil_of_mem (listed.mpr ⟨value, holds⟩)
  obtain ⟨youngest, member, age⟩ := exists_maxSnapshot nonempty
  refine ⟨youngest, (listed.mp member).1, (listed.mp member).2, fun other value' holds' => ?_⟩
  rw [age]
  exact le_maxSnapshot (listed.mpr ⟨value', holds'⟩)

/-- An exact search with room for every row serves the newest version of a live id exactly
when there is none, or the index leaves it. -/
theorem SegmentCache.servesNewest_iff (faiss : Faiss dim D) {names : List String}
    (cached : library.Cached cache.segments) (indexes : library.Indexes names cache.segmentHiddenIds)
    {q : Vec dim} {topK nprobe : ℕ}
    (exact : ∀ seg ∈ cache.segments.values, seg.index.ExactAt faiss q nprobe)
    (room : cache.cachedRows.length ≤ topK) {x : ℤ} (live : x ∉ cache.tombstones) (s : ℕ) :
    cache.ServesNewest faiss q s x (cache.searchAll faiss q topK nprobe s).1 ↔
      (∀ seg ∈ cache.segments.values, x ∈ batchIds seg.rows → s < seg.snapshotId) ∨
        0 ≤ x ∧ cache.LeavesNewest faiss library names q s x := by
  have retrieved : ∀ d, (x, d) ∈ cache.retrieved faiss q topK nprobe s ↔
      0 ≤ x ∧ ∃ w, cache.LeavesAt library names s x w ∧ d = faiss.l2 q w := by
    intro d
    rw [cache.mem_retrieved_iff faiss exact room, Faiss.mem_measure]
    simp only [SegmentCache.mem_survivors_iff_leaves cached indexes, and_iff_right live]
  have hit : ∀ d, (x, d) ∈ (cache.searchAll faiss q topK nprobe s).1 ↔
      Least (cache.retrieved faiss q topK nprobe s) x d :=
    fun d => cache.mem_searchAll_iff faiss room
  have absent : (¬ ∃ seg, cache.HoldsAt s x seg) →
      ∀ d, (x, d) ∉ (cache.searchAll faiss q topK nprobe s).1 := by
    intro none d found
    obtain ⟨-, w, ⟨name, seg, here, old, row, -⟩, -⟩ := (retrieved d).mp ((hit d).mp found).1
    exact none ⟨seg, Dict.mem_values_iff.mpr ⟨name, here⟩, old, List.mem_map_of_mem row⟩
  constructor
  · intro serves
    by_cases held : ∃ seg, cache.HoldsAt s x seg
    · obtain ⟨d, only, seg, v, holds, row, same, youngest⟩ := serves.1 held
      have found : (x, d) ∈ (cache.searchAll faiss q topK nprobe s).1 := by
        have inside : (x, d) ∈ [(x, d)] := List.mem_singleton_self _
        rw [← only] at inside
        exact (List.mem_filter.mp inside).1
      have least := (hit d).mp found
      obtain ⟨natural, w, leaves, near⟩ := (retrieved d).mp least.1
      refine Or.inr ⟨natural, v, ⟨seg, holds, row, youngest⟩, ⟨w, leaves, ?_⟩, fun w' other => ?_⟩
      · rw [← near, same]
      · rw [← same]
        exact least.2 _ ((retrieved _).mpr ⟨natural, w', other, rfl⟩)
    · left
      intro seg value holds
      by_contra old
      exact held ⟨seg, value, not_lt.mp old, holds⟩
  · intro condition
    refine ⟨fun held => ?_, absent⟩
    rcases held with ⟨seg, value, old, holds⟩
    rcases condition with younger | ⟨natural, v, ⟨newest, held, row, youngest⟩, ⟨w, leaves, near⟩, nearest⟩
    · exact absurd (younger seg value holds) (not_lt.mpr old)
    · have least : Least (cache.retrieved faiss q topK nprobe s) x (faiss.l2 q v) := by
        refine ⟨(retrieved _).mpr ⟨natural, w, leaves, near.symm⟩, fun d' other => ?_⟩
        obtain ⟨-, w', leaves', rfl⟩ := (retrieved d').mp other
        exact nearest w' leaves'
      have near := nearestById_mergeResults (cache.searchResults faiss q topK nprobe s) topK
        cache.tombstones
      exact ⟨_, filter_eq_singleton near.nodup ((hit _).mpr least), newest, v, held, row, rfl,
        youngest⟩

/-- A renewed index leaves a newest version exactly when no younger one is cached. -/
theorem SegmentCache.leavesNewest_iff (faiss : Faiss dim D) (sound : library.Sound cache)
    (current : cache.Current) (q : Vec dim) {s : ℕ} {x : ℤ} (live : x ∉ cache.tombstones)
    {seg : Segment dim} (holds : cache.HoldsAt s x seg) :
    cache.LeavesNewest faiss library (cache.visibilitySignature.map Prod.fst) q s x ↔
      ∀ seg ∈ cache.segments.values, x ∈ batchIds seg.rows → seg.snapshotId ≤ s := by
  have leaves : ∀ w, (x, w) ∈ cache.survivors s ↔
      cache.LeavesAt library (cache.visibilitySignature.map Prod.fst) s x w := by
    intro w
    rw [SegmentCache.mem_survivors_iff_leaves sound.cached sound.indexes, and_iff_right live]
  constructor
  · rintro ⟨v, -, ⟨w, left, -⟩, -⟩ other value held
    obtain ⟨seg, -, old, -, youngest⟩ := (cache.leavesAt_iff sound current).mp left
    exact (youngest other value held).trans old
  · intro older
    obtain ⟨youngest, value, held, newest⟩ := cache.exists_youngest holds.1 holds.2.2
    rcases List.mem_map.mp held with ⟨⟨y, v⟩, row, rfl⟩
    have left := (cache.leavesAt_iff sound current).mpr
      ⟨youngest, value, older youngest value held, row, newest⟩
    rcases leastRows_cases (faiss.measure q (cache.survivors s)) y with ⟨d, -, least⟩ | ⟨-, none⟩
    · obtain ⟨w, inside, rfl⟩ := (Faiss.mem_measure faiss).mp least.1
      have left' := (leaves w).mp inside
      obtain ⟨seg', value', old', row', newest'⟩ := (cache.leavesAt_iff sound current).mp left'
      have held' : y ∈ batchIds seg'.rows := List.mem_map.mpr ⟨(y, w), row', rfl⟩
      refine ⟨w, ⟨seg', ⟨value', old', held'⟩, row', fun other held' =>
        newest' other held'.1 held'.2.2⟩, ⟨w, left', rfl⟩, fun w' other => ?_⟩
      exact least.2 _ ((Faiss.mem_measure faiss).mpr ⟨w', (leaves w').mpr other, rfl⟩)
    · exact absurd ((Faiss.mem_measure faiss).mpr ⟨v, (leaves v).mpr left, rfl⟩) (none _)

/-- **Reading at a snapshot.**  At any time of a history of refreshes, which may raise
anywhere, searches and health checks, an exact search at `s` with room for every row serves
the newest version of a live id exactly when no cached segment at or below `s` holds the id,
or the id is not negative and the nearest of its rows that the index leaves is that of a
newest such segment.  After a refresh that returned, with no index left unbuilt before,
that is to say that no cached segment above `s` holds the id. -/
theorem snapshot_read_iff (faiss : Faiss dim D) {q : Vec dim} {topK nprobe : ℕ}
    (exact : ∀ seg ∈ cache.segments.values, seg.index.ExactAt faiss q nprobe)
    (room : cache.cachedRows.length ≤ topK) {x : ℤ} (live : x ∉ cache.tombstones) (s : ℕ) :
    (∀ names, IndexedFor library cache names →
      (cache.ServesNewest faiss q s x (cache.searchAll faiss q topK nprobe s).1 ↔
        (∀ seg ∈ cache.segments.values, x ∈ batchIds seg.rows → s < seg.snapshotId) ∨
          0 ≤ x ∧ cache.LeavesNewest faiss library names q s x)) ∧
    ∀ (before : SegmentCache dim) (st : SharedStorage dim) (allSegments : List SegmentMeta),
      ReaderReach library before → library.Intact st → library.Lists allSegments →
      before.refresh st allSegments = (.ok (), cache) →
      (cache.ServesNewest faiss q s x (cache.searchAll faiss q topK nprobe s).1 ↔
        (∀ seg ∈ cache.segments.values, x ∈ batchIds seg.rows → s < seg.snapshotId) ∨
          0 ≤ x ∧ ∀ seg ∈ cache.segments.values, x ∈ batchIds seg.rows → seg.snapshotId ≤ s) := by
  constructor
  · intro names history
    obtain ⟨cached, indexes⟩ := history.indexes
    exact cache.servesNewest_iff faiss cached indexes exact room live s
  · intro before st allSegments reach intact lists returned
    have outcome : (before.refresh st allSegments).2 = cache := by rw [returned]
    obtain ⟨sound, current⟩ := sound_of_refresh intact lists reach.sound (by rw [returned])
    rw [outcome] at sound current
    rw [cache.servesNewest_iff faiss sound.cached sound.indexes exact room live s]
    by_cases held : ∃ seg, cache.HoldsAt s x seg
    · obtain ⟨seg, holds⟩ := held
      rw [cache.leavesNewest_iff faiss sound current q live holds]
    · have none : ∀ seg ∈ cache.segments.values, x ∈ batchIds seg.rows → s < seg.snapshotId := by
        intro seg value holds
        by_contra old
        exact held ⟨seg, value, not_lt.mp old, holds⟩
      exact iff_of_true (Or.inl none) (Or.inl none)

/-! ## Two versions of one id -/

def olderVersion : Segment 1 × SharedStorage 1 :=
  Segment.create Uuid4.counted 0 1 [(7, zeroVec 1)] 1 SharedStorage.empty

def newerVersion : Segment 1 × SharedStorage 1 :=
  Segment.create Uuid4.counted 0 2 [(7, unitVec)] 1 olderVersion.2

def twoVersions : List SegmentMeta := [olderVersion.1.segMeta, newerVersion.1.segMeta]

/-- What the two names stand for. -/
def versionLibrary : Library 1 := fun name =>
  if name = newerVersion.1.segmentId then newerVersion.1 else olderVersion.1

theorem intact_twoVersions : versionLibrary.Intact newerVersion.2 := by
  apply Library.intact_of_stored
  intro name
  by_cases newer : name = newerVersion.1.segmentId
  · simp only [versionLibrary, if_pos newer]
    exact Segment.create_stored _ _ _ _ _ _
  · simp only [versionLibrary, if_neg newer]
    exact ⟨by decide +kernel, rfl, rfl, rfl⟩

theorem lists_twoVersions : versionLibrary.Lists twoVersions := by
  unfold Library.Lists
  decide +kernel

/-- A cache as `__init__` leaves it. -/
def freshCache : SegmentCache 1 := ⟨0, 20, false, ∅, ∅, ∅, [], by decide⟩

/-- A segment of snapshot 1 holds id 7, and a search at snapshot 1 does not return it. -/
theorem newer_version_hides_older :
    SegmentCache.new 0 20 false = .ok freshCache ∧
      (freshCache.refresh newerVersion.2 twoVersions).1 = .ok () ∧
      (freshCache.refresh newerVersion.2 twoVersions).2.segments.values.map
        (fun seg => (seg.snapshotId, seg.rows)) = [(1, [(7, zeroVec 1)]), (2, [(7, unitVec)])] ∧
      (freshCache.refresh newerVersion.2 twoVersions).2.tombstones = ∅ ∧
      ((freshCache.refresh newerVersion.2 twoVersions).2.searchAll (bruteForce 1) (zeroVec 1)
        10 1 1).1 = [] := by
  decide +kernel

theorem snapshot_read_iff_twoVersions :
    ((freshCache.refresh newerVersion.2 twoVersions).2.ServesNewest (bruteForce 1) (zeroVec 1) 1 7
        ((freshCache.refresh newerVersion.2 twoVersions).2.searchAll (bruteForce 1) (zeroVec 1)
          10 1 1).1 ↔
      (∀ seg ∈ (freshCache.refresh newerVersion.2 twoVersions).2.segments.values,
        7 ∈ batchIds seg.rows → 1 < seg.snapshotId) ∨
      (0 : ℤ) ≤ 7 ∧ (freshCache.refresh newerVersion.2 twoVersions).2.LeavesNewest (bruteForce 1)
        versionLibrary (freshCache.indexedAfter newerVersion.2 twoVersions []) (zeroVec 1) 1 7) ∧
    ((freshCache.refresh newerVersion.2 twoVersions).2.ServesNewest (bruteForce 1) (zeroVec 1) 1 7
        ((freshCache.refresh newerVersion.2 twoVersions).2.searchAll (bruteForce 1) (zeroVec 1)
          10 1 1).1 ↔
      (∀ seg ∈ (freshCache.refresh newerVersion.2 twoVersions).2.segments.values,
        7 ∈ batchIds seg.rows → 1 < seg.snapshotId) ∨
      (0 : ℤ) ≤ 7 ∧ ∀ seg ∈ (freshCache.refresh newerVersion.2 twoVersions).2.segments.values,
        7 ∈ batchIds seg.rows → seg.snapshotId ≤ 1) := by
  have flat : ∀ seg ∈ (freshCache.refresh newerVersion.2 twoVersions).2.segments.values,
      seg.index.ivf = none := by
    decide +kernel
  have made : SegmentCache.new 0 20 false = .ok freshCache := rfl
  have fits : (freshCache.refresh newerVersion.2 twoVersions).2.cachedRows.length ≤ 10 := by
    decide +kernel
  have live : (7 : ℤ) ∉ (freshCache.refresh newerVersion.2 twoVersions).2.tombstones := by
    decide +kernel
  obtain ⟨anyHistory, noneUnbuilt⟩ := snapshot_read_iff (bruteForce 1)
    (fun seg value => IVFFlatIndex.exactAt_flat (bruteForce 1) (flat seg value) (zeroVec 1) 1)
    fits live 1
  exact ⟨anyHistory _ ((IndexedFor.new made).refresh intact_twoVersions lists_twoVersions),
    noneUnbuilt freshCache newerVersion.2 twoVersions ⟨0, 20, false, freshCache, made, .refl⟩
      intact_twoVersions lists_twoVersions (Prod.ext (by decide +kernel) rfl)⟩

end VecScale
