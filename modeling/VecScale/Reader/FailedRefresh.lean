import VecScale.Lib.Runs
import VecScale.Reader.FullCache
import VecScale.Reader.Newest

/-!
# Refreshes that raise

A refresh that raises is logged and the reader goes on with what the refresh has left:
new tombstones, some of the listed segments, and maybe the signature of an index that was
not built.

* `SegmentCache.loadListed_cases`: how far the loading loop gets;
* `Steady.step`: what every event keeps that meets the condition;
* `failed_refreshes_safe`: what is served in between, and what the next refresh restores;
* `half_loaded_serves_outdated`, `unbuilt_index_looks_built`: the two ways to fail.
-/

namespace VecScale

variable {dim : ℕ}

/-- What happens to a cache. -/
inductive CacheEvent (dim : ℕ)
  | refresh (st : SharedStorage dim) (allSegments : List SegmentMeta)
  | search (snapshotId : ℕ)

/-- Segments are immutable, though any of their files may fail to be read, and what is
registered of them is what is stored. -/
def CacheEvent.Told (library : Library dim) : CacheEvent dim → Prop
  | .refresh st allSegments => library.Intact st ∧ library.Lists allSegments
  | .search _ => True

/-! ## How far the loading loop gets -/

namespace SegmentCache

/-- `_refresh_loop` logs what a refresh raises. -/
def step (cache : SegmentCache dim) : CacheEvent dim → Except PyError (SegmentCache dim)
  | .refresh st allSegments => .ok (cache.refresh st allSegments).2
  | .search snapshotId => .ok (cache.touch snapshotId)

/-- The names in the cache when the loading loop comes to its turn `i`. -/
def cachedAt (cache : SegmentCache dim) (allSegments : List SegmentMeta) (i : ℕ) : List String :=
  (((cache.namesByAge allSegments).take i).foldl requeue (cache.namesKept allSegments)).rtake
    cache.maxSegmentsInMemory

/-- At its turn the segment is cached, or can be loaded. -/
def Admits (st : SharedStorage dim) (cache : SegmentCache dim) (allSegments : List SegmentMeta)
    (i : ℕ) : Prop :=
  ∀ item ∈ (byAge (cache.listed allSegments))[i]?, item.1 ∈ cache.cachedAt allSegments i ∨
    (st.files item.2.path).metaJson.isSome ∧ (st.files item.2.path).indexFaiss.isSome

instance (st : SharedStorage dim) (cache : SegmentCache dim) (allSegments : List SegmentMeta)
    (i : ℕ) : Decidable (cache.Admits st allSegments i) :=
  inferInstanceAs (Decidable (∀ _ ∈ _, _ ∨ _ ∧ _))

/-- Turn `i` is the first one that fails. -/
def StopsAt (st : SharedStorage dim) (cache : SegmentCache dim) (allSegments : List SegmentMeta)
    (i : ℕ) : Prop :=
  (∀ j < i, cache.Admits st allSegments j) ∧ ¬ cache.Admits st allSegments i

instance (st : SharedStorage dim) (cache : SegmentCache dim) (allSegments : List SegmentMeta)
    (i : ℕ) : Decidable (cache.StopsAt st allSegments i) :=
  inferInstanceAs (Decidable (_ ∧ _))

variable {cache : SegmentCache dim} {st : SharedStorage dim} {allSegments : List SegmentMeta}

/-- The cache at turn `i`, when the loop has come so far. -/
theorem keys_at (few : cache.segments.keys.length ≤ cache.maxSegmentsInMemory) {i : ℕ}
    {segments : Dict String (Segment dim)} (kept : segments.keys = cache.namesKept allSegments)
    (returned : (admitAll st cache.maxSegmentsInMemory segments
      ((byAge (cache.listed allSegments)).take i)).1 = .ok ()) :
    (admitAll st cache.maxSegmentsInMemory segments
      ((byAge (cache.listed allSegments)).take i)).2.keys = cache.cachedAt allSegments i := by
  have held := kept.trans (rtake_of_length_le (namesKept_le few)).symm
  rw [keys_of_admitAll nodup_namesKept held returned, List.map_take]
  rfl

theorem admits_of_returned (few : cache.segments.keys.length ≤ cache.maxSegmentsInMemory) {k : ℕ}
    {segments : Dict String (Segment dim)} (kept : segments.keys = cache.namesKept allSegments)
    (returned : (admitAll st cache.maxSegmentsInMemory segments
      ((byAge (cache.listed allSegments)).take k)).1 = .ok ()) {i : ℕ} (before : i < k) :
    cache.Admits st allSegments i := by
  intro item here
  have turn : ((byAge (cache.listed allSegments)).take k)[i]? = some item := by
    rw [List.getElem?_take_of_lt before]
    exact here
  obtain ⟨passed, either⟩ := admitAll_turn returned turn
  rw [List.take_take, min_eq_left before.le] at passed either
  rcases either with known | ⟨seg, loaded⟩
  · left
    rwa [← keys_at few kept passed]
  · right
    unfold Segment.load at loaded
    split at loaded
    · cases loaded
    · next segMeta metaHere =>
        split at loaded
        · cases loaded
        · next index indexHere => simp [metaHere, indexHere]

/-- **How far the loading loop gets.** -/
theorem loadListed_cases (few : cache.segments.keys.length ≤ cache.maxSegmentsInMemory) :
    ((cache.loadListed st allSegments).1 = .ok () ∧
        (∀ i < (cache.namesByAge allSegments).length, cache.Admits st allSegments i) ∧
        (cache.loadListed st allSegments).2.segments.keys =
          cache.cachedAt allSegments (cache.namesByAge allSegments).length) ∨
      ((cache.loadListed st allSegments).1 ≠ .ok () ∧
        ∃ i < (cache.namesByAge allSegments).length, cache.StopsAt st allSegments i ∧
          (cache.loadListed st allSegments).2.segments.keys = cache.cachedAt allSegments i) := by
  have size : (cache.namesByAge allSegments).length = (byAge (cache.listed allSegments)).length :=
    List.length_map _
  by_cases returned : (cache.loadListed st allSegments).1 = .ok ()
  · left
    have whole := List.take_length (l := byAge (cache.listed allSegments))
    have passed : (admitAll st cache.maxSegmentsInMemory (cache.segments.eraseAll
        (cache.segments.keys.filter fun name => name ∉ (cache.listed allSegments).keys))
        ((byAge (cache.listed allSegments)).take (byAge (cache.listed allSegments)).length)).1 =
          .ok () := by
      rw [whole]
      exact returned
    refine ⟨returned, fun i before => admits_of_returned few keys_kept passed (size ▸ before), ?_⟩
    have keys := keys_at few keys_kept passed
    rw [whole, ← size] at keys
    exact keys
  · right
    obtain ⟨i, item, here, passed, unknown, failed, same⟩ := admitAll_stops returned
    have keys := keys_at few keys_kept passed
    rcases List.getElem?_eq_some_iff.mp here with ⟨before, -⟩
    refine ⟨returned, i, size ▸ before, ⟨fun j earlier =>
      admits_of_returned few keys_kept passed earlier, fun admits => ?_⟩,
      (congrArg Dict.keys same).trans keys⟩
    rcases admits item here with known | ⟨hasMeta, hasIndex⟩
    · exact unknown (keys ▸ known)
    · rcases Option.isSome_iff_exists.mp hasMeta with ⟨segMeta, metaHere⟩
      rcases Option.isSome_iff_exists.mp hasIndex with ⟨index, indexHere⟩
      apply failed ⟨segMeta, item.2.path, index, none⟩
      simp only [Segment.load, metaHere, indexHere]

end SegmentCache

/-! ## The condition -/

/-- Segments of different age have no id in common, unless both are known. -/
def Library.KeepsApart (library : Library dim) (known names : List String) : Prop :=
  ∀ name ∈ names, ∀ other ∈ names, (library name).snapshotId < (library other).snapshotId →
    (∃ x ∈ batchIds (library name).rows, x ∈ batchIds (library other).rows) →
      name ∈ known ∧ other ∈ known

instance (library : Library dim) (known names : List String) :
    Decidable (library.KeepsApart known names) :=
  inferInstanceAs (Decidable (∀ _ ∈ _, ∀ _ ∈ _, _ → (∃ _ ∈ _, _) → _ ∧ _))

/-- The signature of a cache of these names. -/
def Library.signature (library : Library dim) (names : List String) : List (String × ℕ) :=
  (names.map fun name => (name, (library name).snapshotId)).insertionSort
    fun a b => toLex a ≤ toLex b

namespace SegmentCache

/-- The ids of the segments that will be cached can be read, or are remembered by a segment
that stays cached until its turn. -/
def CanIndex (library : Library dim) (st : SharedStorage dim) (cache : SegmentCache dim)
    (allSegments : List SegmentMeta) : Prop :=
  ∀ name ∈ cache.cachedAt allSegments (cache.namesByAge allSegments).length,
    (st.files (library name).path).idsNpy.isSome ∨
      (∃ seg ∈ cache.segments.get? name, seg.idsCache.isSome) ∧
        ∀ i < (cache.namesByAge allSegments).length,
          (cache.namesByAge allSegments)[i]? = some name → name ∈ cache.cachedAt allSegments i

instance (library : Library dim) (st : SharedStorage dim) (cache : SegmentCache dim)
    (allSegments : List SegmentMeta) : Decidable (cache.CanIndex library st allSegments) :=
  inferInstanceAs (Decidable (∀ _ ∈ _, _ ∨ (∃ _ ∈ _, _) ∧ ∀ _ < _, _ → _))

/-- The condition: when a segment cannot be loaded, the segments cached at that moment have
no id in common, unless the index knows them both; and when all can be loaded and the
index has to be built, all ids can be read. -/
def Spared (library : Library dim) (cache : SegmentCache dim) : CacheEvent dim → Prop
  | .refresh st allSegments =>
      (∀ i < (cache.namesByAge allSegments).length, cache.StopsAt st allSegments i →
        library.KeepsApart (cache.visibilitySignature.map Prod.fst) (cache.cachedAt allSegments i)) ∧
      ((∀ i < (cache.namesByAge allSegments).length, cache.Admits st allSegments i) →
        library.signature (cache.cachedAt allSegments (cache.namesByAge allSegments).length) ≠
          cache.visibilitySignature → cache.CanIndex library st allSegments)
  | .search _ => True

instance (library : Library dim) (cache : SegmentCache dim) :
    (event : CacheEvent dim) → Decidable (cache.Spared library event)
  | .refresh _ _ => inferInstanceAs (Decidable ((∀ _ < _, _ → _) ∧ ((∀ _ < _, _) → _ → _)))
  | .search _ => inferInstanceAs (Decidable True)

variable {cache : SegmentCache dim} {st : SharedStorage dim} {allSegments : List SegmentMeta}
  {library : Library dim}

theorem signature_of_cached {segments : Dict String (Segment dim)}
    (cached : library.Cached segments) : signature segments = library.signature segments.keys := by
  have pairs : segments.values.map (fun seg => (seg.segmentId, seg.snapshotId)) =
      segments.keys.map fun name => (name, (library name).snapshotId) := by
    rw [Dict.values, Dict.keys, List.map_map, List.map_map]
    apply List.map_congr_left
    intro entry member
    obtain ⟨named, copies⟩ := cached entry.1 entry.2 (Dict.mem_entries_iff.mp member)
    have name : entry.2.segmentId = entry.1 :=
      (congrArg SegmentMeta.segmentId copies.segMeta).trans named
    have age : entry.2.snapshotId = (library entry.1).snapshotId :=
      congrArg SegmentMeta.snapshotId copies.segMeta
    exact Prod.ext name age
  rw [signature, Library.signature, pairs]

/-- What is loaded can be read. -/
theorem CanIndex.readable (canIndex : cache.CanIndex library st allSegments)
    (few : cache.segments.keys.length ≤ cache.maxSegmentsInMemory)
    (cached : library.Cached (cache.loadListed st allSegments).2.segments)
    (returned : (cache.loadListed st allSegments).1 = .ok ())
    (keys : (cache.loadListed st allSegments).2.segments.keys =
      cache.cachedAt allSegments (cache.namesByAge allSegments).length) :
    Readable st (cache.loadListed st allSegments).2.segments := by
  intro name seg found
  have member := Dict.mem_keys_iff.mpr ⟨seg, found⟩
  rw [keys] at member
  apply loadIds_of_canRead
  rcases canIndex name member with inFile | ⟨⟨earlier, before, remembered⟩, stays⟩
  · right
    rwa [(cached name seg found).2.path]
  · left
    have same : (cache.segments.eraseAll (cache.segments.keys.filter
        fun name => name ∉ (cache.listed allSegments).keys)).get? name = some seg := by
      apply get?_of_admitAll _ found
      intro i item here named
      rw [keys_at few keys_kept (admitAll_turn returned here).1]
      rcases List.getElem?_eq_some_iff.mp here with ⟨bound, -⟩
      apply stays i (by rwa [namesByAge, List.length_map])
      rw [namesByAge, List.getElem?_map, here]
      exact congrArg some named
    rw [Dict.get?_eraseAll] at same
    split at same
    · cases same
    · rw [Option.mem_def.mp before, Option.some.injEq] at same
      rwa [← same]

/-! ## What every event keeps -/

/-- The index is built for the names of the signature. -/
def Keyed (cache : SegmentCache dim) : Prop :=
  ∀ name, name ∈ cache.segmentHiddenIds.keys ↔ name ∈ cache.visibilitySignature.map Prod.fst

theorem Keyed.refreshVisibilityIndex (keyed : cache.Keyed)
    (intact : library.Intact st) (cached : library.Cached cache.segments)
    (returned : (cache.refreshVisibilityIndex st).1 = .ok ()) :
    (cache.refreshVisibilityIndex st).2.Keyed := by
  unfold SegmentCache.refreshVisibilityIndex at returned ⊢
  dsimp only at returned ⊢
  split
  · exact keyed
  · next other =>
      rw [if_neg other] at returned
      obtain ⟨-, -, read⟩ := readIds_spec intact cached fun _ member => member
      dsimp only [buildSegmentHiddenIds] at returned ⊢
      cases ran : (readIds st cache.segments cache.segments.keys).1 with
      | error e =>
          rw [ran] at returned
          cases returned
      | ok lists =>
          intro name
          change name ∈ (hiddenBySegment lists).keys ↔
            name ∈ (signature cache.segments).map Prod.fst
          rw [mem_keys_hiddenBySegment, read lists ran, mem_signature cached]
          simp [Library.idList]

end SegmentCache

/-- What holds of a cache after every event. -/
structure Steady (library : Library dim) (cache : SegmentCache dim) : Prop where
  sound : library.Sound cache
  keyed : cache.Keyed
  few : cache.segments.keys.length ≤ cache.maxSegmentsInMemory
  apart : library.KeepsApart (cache.visibilitySignature.map Prod.fst) cache.segments.keys

variable {library : Library dim} {cache : SegmentCache dim} {st : SharedStorage dim}
  {allSegments : List SegmentMeta}

theorem SegmentCache.Current.apart (current : cache.Current) :
    library.KeepsApart (cache.visibilitySignature.map Prod.fst) cache.segments.keys :=
  fun name member other member' _ _ => ⟨(current name).mpr member, (current other).mpr member'⟩

/-- A refresh that returns leaves an index of what is cached. -/
theorem Steady.returned (steady : Steady library cache) (intact : library.Intact st)
    (lists : library.Lists allSegments) (returned : (cache.refresh st allSegments).1 = .ok ()) :
    Steady library (cache.refresh st allSegments).2 ∧
      (cache.refresh st allSegments).2.Current := by
  obtain ⟨sound, current⟩ := sound_of_refresh intact lists steady.sound returned
  have few := (ReaderStep.refresh intact lists (Or.inl returned)).few steady.few
  obtain ⟨loaded, refreshed⟩ := SegmentCache.loadListed_of_refresh returned
  have built : ((cache.loadListed st allSegments).2.refreshVisibilityIndex st).1 = .ok () := by
    unfold SegmentCache.refresh at returned
    simp only [loaded] at returned
    exact returned
  have keyedLoaded : (cache.loadListed st allSegments).2.Keyed := steady.keyed
  have keyed := keyedLoaded.refreshVisibilityIndex intact
    (cached_of_loadListed intact lists steady.sound.cached) built
  rw [← refreshed] at keyed
  exact ⟨⟨sound, keyed, few, current.apart⟩, current⟩

/-- A refresh that could load everything returns, when the condition holds. -/
theorem Steady.returns (steady : Steady library cache) (intact : library.Intact st)
    (lists : library.Lists allSegments) (spared : cache.Spared library (.refresh st allSegments))
    (loaded : (cache.loadListed st allSegments).1 = .ok ())
    (admits : ∀ i < (cache.namesByAge allSegments).length, cache.Admits st allSegments i)
    (keys : (cache.loadListed st allSegments).2.segments.keys =
      cache.cachedAt allSegments (cache.namesByAge allSegments).length) :
    (cache.refresh st allSegments).1 = .ok () := by
  have cached := cached_of_loadListed intact lists steady.sound.cached
  by_cases same : library.signature
      (cache.cachedAt allSegments (cache.namesByAge allSegments).length) = cache.visibilitySignature
  · have found : SegmentCache.signature (cache.loadListed st allSegments).2.segments =
        (cache.loadListed st allSegments).2.visibilitySignature := by
      rw [SegmentCache.signature_of_cached cached, keys, same]
      rfl
    unfold SegmentCache.refresh
    simp only [loaded]
    rw [SegmentCache.refreshVisibilityIndex]
    simp only [found, ↓reduceIte]
  · exact refresh_of_loaded loaded
      ((spared.2 admits same).readable steady.few cached loaded keys)

/-- **The step lemma.** -/
theorem Steady.step (steady : Steady library cache) {event : CacheEvent dim}
    (told : event.Told library) (spared : cache.Spared library event) {cache' : SegmentCache dim}
    (ran : cache.step event = .ok cache') : Steady library cache' := by
  cases event with
  | search s =>
      cases ran
      have keys : (cache.touch s).segments.keys.Perm cache.segments.keys :=
        SegmentCache.perm_keys_touch s
      refine ⟨steady.sound.touch s, steady.keyed, keys.length_eq.trans_le steady.few, ?_⟩
      intro name member other member'
      exact steady.apart name (keys.mem_iff.mp member) other (keys.mem_iff.mp member')
  | refresh st allSegments =>
      cases ran
      rcases told with ⟨intact, lists⟩
      rcases @SegmentCache.loadListed_cases _ cache st allSegments steady.few with
        ⟨loaded, admits, keys⟩ | ⟨stopped, i, bound, stopsAt, keys⟩
      · have returned := steady.returns intact lists spared loaded admits keys
        exact (steady.returned intact lists returned).1
      · have left : (cache.refresh st allSegments).2 = (cache.loadListed st allSegments).2 := by
          unfold SegmentCache.refresh
          cases loaded : (cache.loadListed st allSegments).1 with
          | error e => simp only [loaded]
          | ok done => exact absurd loaded stopped
        have few := (ReaderStep.refresh intact lists (Or.inr stopped)).few steady.few
        rw [left] at few ⊢
        refine ⟨sound_of_loadListed intact lists steady.sound, steady.keyed, few, ?_⟩
        rw [keys]
        exact spared.1 i bound stopsAt

theorem Steady.new {shardId limit : ℕ} {loadAllShards : Bool}
    (made : SegmentCache.new shardId limit loadAllShards = .ok cache) : Steady library cache := by
  have sound : library.Sound cache :=
    ReaderReach.sound ⟨shardId, limit, loadAllShards, cache, made, .refl⟩
  unfold SegmentCache.new at made
  split at made
  · cases made
    refine ⟨sound, fun name => Iff.rfl, Nat.zero_le _, fun name member => ?_⟩
    cases member
  · cases made

/-! ## What is served, and what is restored -/

/-- No search returns a row of a cached segment when a younger cached one has its id. -/
def SegmentCache.ServesNoOutdated {D : Type} [LinearOrder D] (faiss : Faiss dim D)
    (cache : SegmentCache dim) : Prop :=
  ∀ q topK nprobe s, ∀ hit ∈ (cache.searchAll faiss q topK nprobe s).1,
    ∃ seg ∈ cache.segments.values, hit ∈ seg.search faiss q topK nprobe ∧
      ∀ other ∈ cache.segments.values, hit.1 ∈ batchIds other.rows →
        other.snapshotId ≤ seg.snapshotId

theorem Steady.servesNoOutdated {D : Type} [LinearOrder D] (steady : Steady library cache)
    (faiss : Faiss dim D) : cache.ServesNoOutdated faiss := by
  intro q topK nprobe s hit found
  have near := nearestById_mergeResults (cache.searchResults faiss q topK nprobe s) topK
    cache.tombstones
  obtain ⟨name, cached, -, inLibrary, shown⟩ :=
    SegmentCache.exists_of_retrieved faiss steady.sound.cached (near.least _ found).1
  rcases Dict.mem_keys_iff.mp cached with ⟨seg, here⟩
  obtain ⟨-, copies⟩ := steady.sound.cached name seg here
  have age : seg.snapshotId = (library name).snapshotId :=
    congrArg SegmentMeta.snapshotId copies.segMeta
  refine ⟨seg, Dict.mem_values_iff.mpr ⟨name, here⟩, ?_, fun other value holds => ?_⟩
  · rwa [Segment.search, copies.index]
  · rcases Dict.mem_values_iff.mp value with ⟨otherName, here'⟩
    obtain ⟨-, copies'⟩ := steady.sound.cached otherName other here'
    have age' : other.snapshotId = (library otherName).snapshotId :=
      congrArg SegmentMeta.snapshotId copies'.segMeta
    have rows : (library otherName).rows = other.rows := congrArg IVFFlatIndex.rows copies'.index.symm
    rw [age, age']
    by_contra younger
    have holdsName := mem_batchIds_of_search faiss inLibrary
    have holdsOther : hit.1 ∈ batchIds (library otherName).rows := rows ▸ holds
    obtain ⟨known, known'⟩ := steady.apart name cached otherName
      (Dict.mem_keys_iff.mpr ⟨other, here'⟩) (not_le.mp younger) ⟨hit.1, holdsName, holdsOther⟩
    apply shown
    rw [SegmentCache.hiddenIds, Finset.mem_union]
    right
    rw [steady.sound.indexes]
    exact ⟨known, holdsName, otherName, known', holdsOther, not_le.mp younger⟩

/-- The index is the one that `_build_segment_hidden_ids` gives. -/
def SegmentCache.IndexBuilt (library : Library dim) (cache : SegmentCache dim) : Prop :=
  ∀ st hidden, library.Intact st → (buildSegmentHiddenIds st cache.segments).1 = .ok hidden →
    ∀ name, cache.segmentHiddenIds.get? name = hidden.get? name

/-- Two indexes of the same names are one index. -/
theorem Library.Indexes.get?_eq {names : List String} {hidden hidden' : Dict String (Finset ℤ)}
    (indexes : library.Indexes names hidden) (indexes' : library.Indexes names hidden')
    (keys : ∀ name, name ∈ hidden.keys ↔ name ∈ hidden'.keys) (name : String) :
    hidden.get? name = hidden'.get? name := by
  have same : (hidden.get? name).getD ∅ = (hidden'.get? name).getD ∅ := by
    ext x
    rw [indexes, indexes']
  have here := keys name
  rw [Dict.mem_keys_iff, Dict.mem_keys_iff] at here
  cases found : hidden.get? name with
  | none =>
      cases found' : hidden'.get? name with
      | none => rfl
      | some ids =>
          obtain ⟨ids', listed⟩ := here.mpr ⟨ids, found'⟩
          rw [found] at listed
          cases listed
  | some ids =>
      obtain ⟨ids', found'⟩ := here.mp ⟨ids, found⟩
      rw [found, found'] at same
      rw [found']
      exact congrArg some same

theorem Steady.indexBuilt (steady : Steady library cache) (current : cache.Current) :
    cache.IndexBuilt library := by
  intro st hidden intact built name
  obtain ⟨-, -, read⟩ := readIds_spec intact steady.sound.cached fun _ member => member
  obtain ⟨lists, ran, rfl⟩ := ok_of_map built
  have indexes := indexes_hiddenBySegment library (Dict.keys_nodup cache.segments)
  rw [← read lists ran] at indexes
  refine Library.Indexes.get?_eq steady.sound.indexes (indexes.congr current) (fun other => ?_) name
  rw [steady.keyed, current, mem_keys_hiddenBySegment, read lists ran]
  simp [Library.idList]

/-- **Refreshes that raise are safe** when the condition is met: in every state reached no
search returns an outdated row, and the next refresh that returns restores the index. -/
theorem failed_refreshes_safe {D : Type} [LinearOrder D] (faiss : Faiss dim D)
    {shardId limit : ℕ} {loadAllShards : Bool} {new : SegmentCache dim}
    (made : SegmentCache.new shardId limit loadAllShards = .ok new) {events : List (CacheEvent dim)}
    (told : ∀ event ∈ events, event.Told library)
    (spared : StepsMeet SegmentCache.step (SegmentCache.Spared library) new events)
    (ran : runAll SegmentCache.step new events = .ok cache) :
    cache.ServesNoOutdated faiss ∧ ∀ st allSegments refreshed, library.Intact st →
      library.Lists allSegments → cache.refresh st allSegments = (.ok (), refreshed) →
        refreshed.IndexBuilt library := by
  have steady : Steady library cache := runAll_preserves
    (fun _ _ _ steady both ran => steady.step both.2 both.1 ran) (.new made) (spared.and told) ran
  refine ⟨steady.servesNoOutdated faiss, fun st allSegments refreshed intact lists completed => ?_⟩
  have outcome : (cache.refresh st allSegments).2 = refreshed := by rw [completed]
  obtain ⟨steady', current⟩ := steady.returned intact lists (by rw [completed])
  rw [outcome] at steady' current
  exact steady'.indexBuilt current

/-! ## Refreshes that raise half way -/

/-- A third segment, of another id, whose directory cannot be read. -/
def unreadable : Segment 1 := (Segment.create Uuid4.counted 0 3 [(8, unitVec)] 1 newerVersion.2).1

def threeLibrary : Library 1 := fun name =>
  if name = unreadable.segmentId then unreadable else versionLibrary name

theorem intact_three {st : SharedStorage 1}
    (explained : ∀ seg ∈ [unreadable, newerVersion.1, olderVersion.1],
      (∀ segMeta ∈ (st.files seg.path).metaJson, segMeta = seg.segMeta) ∧
        (∀ index ∈ (st.files seg.path).indexFaiss, index = seg.index) ∧
        ∀ ids ∈ (st.files seg.path).idsNpy, ids = batchIds seg.rows) :
    threeLibrary.Intact st := by
  have among : ∀ name, threeLibrary name ∈ [unreadable, newerVersion.1, olderVersion.1] := by
    intro name
    unfold threeLibrary versionLibrary
    split
    · simp
    · split <;> simp
  exact ⟨fun name => (explained _ (among name)).1, fun name => (explained _ (among name)).2.1,
    fun name => (explained _ (among name)).2.2⟩

/-- The three segments are registered. -/
def threeListed : List SegmentMeta := twoVersions ++ [unreadable.segMeta]

theorem lists_three : threeLibrary.Lists threeListed := by
  unfold Library.Lists
  decide +kernel

theorem told_three {st : SharedStorage 1} {allSegments : List SegmentMeta}
    (intact : threeLibrary.Intact st) (listed : allSegments ⊆ threeListed) :
    CacheEvent.Told threeLibrary (.refresh st allSegments) :=
  ⟨intact, fun segMeta member => lists_three segMeta (listed member)⟩

/-- The older version is loaded.  Then the newer one is, and the third one cannot be. -/
def halfLoaded : List (CacheEvent 1) :=
  [.refresh newerVersion.2 [olderVersion.1.segMeta], .refresh newerVersion.2 threeListed]

/-- The newer version of the id is cached, and a search returns the older one. -/
theorem half_loaded_serves_outdated :
    SegmentCache.new 0 20 false = .ok freshCache ∧
      (∀ event ∈ halfLoaded, event.Told threeLibrary) ∧
      ∃ cache, runAll SegmentCache.step freshCache halfLoaded = .ok cache ∧
        ¬ cache.ServesNoOutdated (bruteForce 1) := by
  have intact : threeLibrary.Intact newerVersion.2 := intact_three (by decide +kernel)
  refine ⟨rfl, ?_, ?_⟩
  · intro event member
    rcases List.mem_cons.mp member with rfl | later
    · exact told_three intact (by decide +kernel)
    · rw [List.mem_singleton.mp later]
      exact told_three intact (List.Subset.refl _)
  · have evaluated : (do
        let cache ← runAll SegmentCache.step freshCache halfLoaded
        .ok (decide ((7, 0) ∈ (cache.searchAll (bruteForce 1) (zeroVec 1) 10 1 3).1 ∧
          ∀ seg ∈ cache.segments.values, (7, 0) ∈ seg.search (bruteForce 1) (zeroVec 1) 10 1 →
            ∃ other ∈ cache.segments.values, 7 ∈ batchIds other.rows ∧
              seg.snapshotId < other.snapshotId))) = (.ok true : Except PyError Bool) := by
      decide +kernel
    obtain ⟨cache, ran, rest⟩ := ok_of_bind evaluated
    rw [Except.ok.injEq, decide_eq_true_eq] at rest
    rcases rest with ⟨returned, outdated⟩
    refine ⟨cache, ran, fun serves => ?_⟩
    obtain ⟨seg, value, found, youngest⟩ := serves (zeroVec 1) 10 1 3 (7, 0) returned
    obtain ⟨other, value', holds, younger⟩ := outdated seg value found
    exact absurd (youngest other value' holds) (not_le.mpr younger)

/-- The storage when the ids of the newer version cannot be read. -/
def withoutIds : SharedStorage 1 :=
  let files := newerVersion.2.files newerVersion.1.path
  { newerVersion.2 with
    segmentDirs := newerVersion.2.segmentDirs.set newerVersion.1.path { files with idsNpy := none } }

/-- Both versions are loaded, and the ids of one cannot be read. -/
def halfIndexed : List (CacheEvent 1) :=
  [.refresh newerVersion.2 [olderVersion.1.segMeta], .refresh withoutIds twoVersions]

/-- The next refresh returns, and does not build the index. -/
theorem unbuilt_index_looks_built :
    (∀ event ∈ halfIndexed, event.Told threeLibrary) ∧
      ∃ cache refreshed, runAll SegmentCache.step freshCache halfIndexed = .ok cache ∧
        cache.refresh newerVersion.2 twoVersions = (.ok (), refreshed) ∧
        ¬ refreshed.IndexBuilt threeLibrary := by
  have intact : threeLibrary.Intact newerVersion.2 := intact_three (by decide +kernel)
  constructor
  · intro event member
    rcases List.mem_cons.mp member with rfl | later
    · exact told_three intact (by decide +kernel)
    · rw [List.mem_singleton.mp later]
      exact told_three (intact_three (by decide +kernel)) (by decide +kernel)
  · have evaluated : (do
        let cache ← runAll SegmentCache.step freshCache halfIndexed
        let refreshed := cache.refresh newerVersion.2 twoVersions
        let hidden ← (SegmentCache.buildSegmentHiddenIds newerVersion.2 refreshed.2.segments).1
        .ok (decide (refreshed.1 = .ok () ∧
          refreshed.2.segmentHiddenIds.get? olderVersion.1.segmentId ≠
            hidden.get? olderVersion.1.segmentId))) = (.ok true : Except PyError Bool) := by
      decide +kernel
    obtain ⟨cache, ran, rest⟩ := ok_of_bind evaluated
    obtain ⟨hidden, built, rest⟩ := ok_of_bind rest
    rw [Except.ok.injEq, decide_eq_true_eq] at rest
    rcases rest with ⟨returned, different⟩
    refine ⟨cache, _, ran, Prod.ext returned rfl, fun indexBuilt => ?_⟩
    exact different (indexBuilt newerVersion.2 hidden intact built olderVersion.1.segmentId)

/-- The refresh that raises has loaded nothing by then. -/
def notLoaded : List (CacheEvent 1) :=
  [.refresh newerVersion.2 [olderVersion.1.segMeta],
    .refresh newerVersion.2 [olderVersion.1.segMeta, unreadable.segMeta], .search 3]

theorem failed_refreshes_safe_notLoaded :
    ∃ cache, runAll SegmentCache.step freshCache notLoaded = .ok cache ∧
      cache.ServesNoOutdated (bruteForce 1) := by
  have intact : threeLibrary.Intact newerVersion.2 := intact_three (by decide +kernel)
  have told : ∀ event ∈ notLoaded, event.Told threeLibrary := by
    intro event member
    rcases List.mem_cons.mp member with rfl | later
    · exact told_three intact (by decide +kernel)
    · rcases List.mem_cons.mp later with rfl | last
      · exact told_three intact (by decide +kernel)
      · rw [List.mem_singleton.mp last]
        trivial
  have spared : StepsMeet SegmentCache.step (SegmentCache.Spared threeLibrary) freshCache notLoaded := by
    decide +kernel
  have completed : (runAll SegmentCache.step freshCache notLoaded).isOk = true := by decide +kernel
  have made : SegmentCache.new 0 20 false = .ok freshCache := rfl
  obtain ⟨cache, ran⟩ := exists_of_isOk completed
  exact ⟨cache, ran, (failed_refreshes_safe (bruteForce 1) made told spared ran).1⟩

end VecScale
