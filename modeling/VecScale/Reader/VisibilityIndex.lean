import VecScale.Reader.Cache
import VecScale.Storage.Visible

/-!
# The reader's visibility index

Segments are immutable, so a name stands for one segment wherever a reader meets
it.  A `Library` says which one; a storage may have lost any of its files, and the
coordinator lists some of its metadata.

* `Cached`: the cached segments are copies of the library's;
* `Indexes`: the index hides an id of a segment exactly when a younger segment of
  the indexed names holds the id;
* `ReaderStep.sound`: refreshes, searches and health checks keep both, unless a
  refresh raises while it builds the index.
-/

namespace VecScale

variable {dim : ℕ}

/-- The segment that every name stands for. -/
abbrev Library (dim : ℕ) := String → Segment dim

/-- The copy of a segment in a cache. -/
structure Segment.Copies (published seg : Segment dim) : Prop where
  segMeta : seg.segMeta = published.segMeta
  path : seg.path = published.path
  index : seg.index = published.index
  ids : ∀ ids, seg.idsCache = some ids → ids = batchIds published.rows

namespace Library

variable (library : Library dim)

/-- The files that a storage still holds are as they were written. -/
structure Intact (st : SharedStorage dim) : Prop where
  metaJson : ∀ name, ∀ segMeta ∈ (st.files (library name).path).metaJson,
    segMeta = (library name).segMeta
  indexFaiss : ∀ name, ∀ index ∈ (st.files (library name).path).indexFaiss,
    index = (library name).index
  idsNpy : ∀ name, ∀ ids ∈ (st.files (library name).path).idsNpy,
    ids = batchIds (library name).rows

/-- The metadata is that of the segments it names. -/
def Lists (metas : List SegmentMeta) : Prop :=
  ∀ segMeta ∈ metas, (library segMeta.segmentId).segMeta = segMeta ∧
    (library segMeta.segmentId).path = segMeta.path

/-- Every cached segment is a copy of the one its name stands for. -/
def Cached (segments : Dict String (Segment dim)) : Prop :=
  ∀ name seg, segments.get? name = some seg →
    (library name).segmentId = name ∧ (library name).Copies seg

/-- The index is that of some names. -/
def Indexes (names : List String) (hidden : Dict String (Finset ℤ)) : Prop :=
  ∀ name x, x ∈ (hidden.get? name).getD ∅ ↔
    name ∈ names ∧ x ∈ batchIds (library name).rows ∧
      ∃ other ∈ names, x ∈ batchIds (library other).rows ∧
        (library name).snapshotId < (library other).snapshotId

/-- What every refresh that returns leaves of a cache. -/
structure Sound (cache : SegmentCache dim) : Prop where
  cached : library.Cached cache.segments
  indexes : library.Indexes (cache.visibilitySignature.map Prod.fst) cache.segmentHiddenIds

end Library

variable {library : Library dim} {st : SharedStorage dim} {cache : SegmentCache dim}

theorem Library.intact_of_stored (stored : ∀ name, (library name).Stored st) :
    library.Intact st := by
  refine ⟨?_, ?_, ?_⟩ <;> intro name found member <;>
    rw [Segment.files_of_stored (stored name)] at member <;>
    exact (Option.mem_some_iff.mp member).symm

/-! ## Loading -/

theorem copies_of_load (intact : library.Intact st) {segMeta : SegmentMeta}
    (path : (library segMeta.segmentId).path = segMeta.path) {seg : Segment dim}
    (loaded : Segment.load st segMeta.path = .ok seg) :
    (library segMeta.segmentId).Copies seg := by
  unfold Segment.load at loaded
  rw [← path] at loaded
  split at loaded
  · cases loaded
  · next found metaHere =>
      split at loaded
      · cases loaded
      · next index indexHere =>
          cases loaded
          refine ⟨intact.metaJson _ _ metaHere, rfl, intact.indexFaiss _ _ indexHere, ?_⟩
          intro ids remembered
          cases remembered

theorem get?_of_evictOldest {limit : ℕ} {segments : Dict String (Segment dim)} {name : String}
    {seg : Segment dim} (found : (SegmentCache.evictOldest limit segments).get? name = some seg) :
    segments.get? name = some seg := by
  unfold SegmentCache.evictOldest at found
  generalize segments.length - limit = times at found
  induction times generalizing segments with
  | zero => exact found
  | succ times ih =>
      rw [Function.iterate_succ_apply] at found
      exact Dict.get?_of_popFirst (ih found)

theorem cached_of_admitItem (intact : library.Intact st) {limit : ℕ}
    {segments admitted : Dict String (Segment dim)} (cached : library.Cached segments)
    {segMeta : SegmentMeta} (published : (library segMeta.segmentId).segMeta = segMeta ∧
      (library segMeta.segmentId).path = segMeta.path)
    (ran : SegmentCache.admitItem st limit segments (segMeta.segmentId, segMeta) = .ok admitted) :
    library.Cached admitted := by
  unfold SegmentCache.admitItem at ran
  split at ran
  · cases ran
    intro name seg found
    rw [Dict.get?_moveToEnd] at found
    exact cached name seg found
  · obtain ⟨new, loaded, rest⟩ := ok_of_bind ran
    cases rest
    intro name seg found
    have inside := get?_of_evictOldest found
    rw [Dict.get?_moveToEnd, Dict.get?_set] at inside
    split at inside
    · next same =>
        cases inside
        subst same
        refine ⟨congrArg SegmentMeta.segmentId published.1, ?_⟩
        exact copies_of_load intact published.2 loaded
    · exact cached name seg inside

theorem cached_of_admitAll (intact : library.Intact st) {limit : ℕ}
    {segments : Dict String (Segment dim)} (cached : library.Cached segments)
    {items : List (String × SegmentMeta)} (published : ∀ item ∈ items,
      item.1 = item.2.segmentId ∧ (library item.2.segmentId).segMeta = item.2 ∧
        (library item.2.segmentId).path = item.2.path) :
    library.Cached (SegmentCache.admitAll st limit segments items).2 := by
  induction items generalizing segments with
  | nil => exact cached
  | cons item items ih =>
      rcases item with ⟨name, segMeta⟩
      have here := published _ List.mem_cons_self
      dsimp only at here
      rcases here with ⟨rfl, here⟩
      unfold SegmentCache.admitAll
      split
      · exact cached
      · next admitted ran =>
          apply ih (cached_of_admitItem intact cached here ran)
          exact fun item member => published item (List.mem_cons_of_mem _ member)

/-- The segments a refresh asks for are among those listed. -/
theorem mem_listed {allSegments : List SegmentMeta} {item : String × SegmentMeta}
    (member : item ∈ SegmentCache.byAge (cache.listed allSegments)) :
    item.1 = item.2.segmentId ∧ item.2 ∈ allSegments ∧ cache.Serves item.2.shardId := by
  rcases item with ⟨name, segMeta⟩
  rw [SegmentCache.byAge, List.mem_insertionSort, Dict.mem_entries_iff, SegmentCache.listed,
    Dict.get?_setAll, Dict.get?_empty, Option.or_none] at member
  obtain ⟨found, kept, same⟩ := List.mem_map.mp (Dict.mem_of_lastWrite member)
  cases same
  rw [List.mem_filter, Bool.or_eq_true, decide_eq_true_eq] at kept
  exact ⟨rfl, kept⟩

theorem cached_of_loadListed (intact : library.Intact st) {allSegments : List SegmentMeta}
    (lists : library.Lists allSegments) (cached : library.Cached cache.segments) :
    library.Cached (cache.loadListed st allSegments).2.segments := by
  apply cached_of_admitAll intact
  · intro name seg found
    rw [Dict.get?_eraseAll] at found
    split at found
    · cases found
    · exact cached name seg found
  · intro item member
    obtain ⟨named, listed, -⟩ := mem_listed member
    exact ⟨named, lists item.2 listed⟩

/-! ## The signature -/

theorem mem_signature (cached : library.Cached cache.segments) {name : String} :
    name ∈ (SegmentCache.signature cache.segments).map Prod.fst ↔ name ∈ cache.segments.keys := by
  simp only [SegmentCache.signature, List.mem_map, List.mem_insertionSort, Dict.mem_values_iff,
    Dict.mem_keys_iff]
  constructor
  · rintro ⟨e, ⟨seg, ⟨key, found⟩, rfl⟩, rfl⟩
    obtain ⟨named, copies⟩ := cached key seg found
    have same : seg.segmentId = key := (congrArg SegmentMeta.segmentId copies.segMeta).trans named
    exact ⟨seg, same.symm ▸ found⟩
  · rintro ⟨seg, found⟩
    obtain ⟨named, copies⟩ := cached name seg found
    have same : seg.segmentId = name := (congrArg SegmentMeta.segmentId copies.segMeta).trans named
    exact ⟨_, ⟨seg, ⟨name, found⟩, rfl⟩, same⟩

/-! ## Building the index -/

theorem loadIds_of_copies (intact : library.Intact st) {name : String} {seg : Segment dim}
    (copies : (library name).Copies seg) {ids : List ℤ} {remembering : Segment dim}
    (ran : seg.loadIds st = .ok (ids, remembering)) :
    ids = batchIds (library name).rows ∧ (library name).Copies remembering := by
  unfold Segment.loadIds at ran
  split at ran
  · next remembered cache =>
      cases ran
      exact ⟨copies.ids _ cache, copies⟩
  · split at ran
    · cases ran
    · next stored here =>
        cases ran
        rw [copies.path] at here
        have same := intact.idsNpy name _ here
        refine ⟨same, copies.segMeta, copies.path, copies.index, ?_⟩
        intro ids remembered
        cases remembered
        exact same

/-- What the library says of a name. -/
def Library.idList (library : Library dim) (name : String) : SegmentCache.IdList :=
  ⟨name, (library name).snapshotId, batchIds (library name).rows⟩

theorem readIds_spec (intact : library.Intact st) {segments : Dict String (Segment dim)}
    (cached : library.Cached segments) {names : List String}
    (present : ∀ name ∈ names, name ∈ segments.keys) :
    library.Cached (SegmentCache.readIds st segments names).2 ∧
      (∀ name, name ∈ (SegmentCache.readIds st segments names).2.keys ↔ name ∈ segments.keys) ∧
      ∀ lists, (SegmentCache.readIds st segments names).1 = .ok lists →
        lists = names.map library.idList := by
  induction names generalizing segments with
  | nil =>
      refine ⟨cached, fun _ => Iff.rfl, fun lists ran => ?_⟩
      cases ran
      rfl
  | cons name names ih =>
      obtain ⟨seg, found⟩ := Dict.mem_keys_iff.mp (present name List.mem_cons_self)
      have later : ∀ other ∈ names, other ∈ segments.keys := fun other member =>
        present other (List.mem_cons_of_mem _ member)
      obtain ⟨named, copies⟩ := cached name seg found
      simp only [SegmentCache.readIds, found]
      cases ran : seg.loadIds st with
      | error e => exact ⟨cached, fun _ => Iff.rfl, fun lists failed => by cases failed⟩
      | ok loaded =>
          rcases loaded with ⟨ids, remembering⟩
          obtain ⟨sameIds, kept⟩ := loadIds_of_copies intact copies ran
          have keys : ∀ other, other ∈ (segments.set name remembering).keys ↔
              other ∈ segments.keys := by
            intro other
            simp only [Dict.mem_keys_iff, Dict.get?_set]
            by_cases same : name = other
            · subst same
              simp [found]
            · simp [same]
          have setCached : library.Cached (segments.set name remembering) := by
            intro other seg' here
            rw [Dict.get?_set] at here
            split at here
            · next same =>
                cases here
                subst same
                exact ⟨named, kept⟩
            · exact cached other seg' here
          obtain ⟨restCached, restKeys, restLists⟩ := ih setCached fun other member =>
            (keys other).mpr (later other member)
          refine ⟨restCached, fun other => (restKeys other).trans (keys other), ?_⟩
          intro lists whole
          dsimp only at whole
          cases rest : (SegmentCache.readIds st (segments.set name remembering) names).1 with
          | error e =>
              rw [rest] at whole
              cases whole
          | ok lists' =>
              rw [rest] at whole
              cases whole
              have age : seg.snapshotId = (library name).snapshotId :=
                congrArg SegmentMeta.snapshotId copies.segMeta
              rw [restLists lists' rest, sameIds, age]
              rfl

theorem ages_latestSnapshotById (library : Library dim) (names : List String) :
    Ages (names.map library) (SegmentCache.latestSnapshotById (names.map library.idList)) := by
  induction names using List.reverseRecOn with
  | nil => exact fun x s => by simp [SegmentCache.latestSnapshotById]
  | append_singleton names name ih =>
      rw [List.map_append, List.map_append, SegmentCache.latestSnapshotById, List.foldl_append]
      exact ih.concat (library name)

theorem indexes_hiddenBySegment (library : Library dim) {names : List String} (nodup : names.Nodup) :
    library.Indexes names (SegmentCache.hiddenBySegment (names.map library.idList)) := by
  intro name x
  let latest := SegmentCache.latestSnapshotById (names.map library.idList)
  let hides : String → Finset ℤ := fun other => ((batchIds (library other).rows).filter fun y =>
    (library other).snapshotId < (latest.get? y).getD 0).toFinset
  have writes : (names.map library.idList).map (fun list => (list.name,
      (list.ids.filter fun y => list.snapshotId < (latest.get? y).getD 0).toFinset)) =
      names.map fun other => (other, hides other) := by
    rw [List.map_map]
    rfl
  have younger : (library name).snapshotId < (latest.get? x).getD 0 ↔
      ∃ other ∈ names, x ∈ batchIds (library other).rows ∧
        (library name).snapshotId < (library other).snapshotId := by
    have ages := ages_latestSnapshotById library names x (library name).snapshotId
    simp only [List.mem_map, exists_exists_and_eq_and] at ages
    rw [← ages]
    change (library name).snapshotId < (latest.get? x).getD 0 ↔
      ∃ m, latest.get? x = some m ∧ (library name).snapshotId < m
    cases latest.get? x with
    | none => simp
    | some m => simp
  have got : (SegmentCache.hiddenBySegment (names.map library.idList)).get? name =
      if name ∈ names then some (hides name) else none := by
    have ids : ((names.map fun other => (other, hides other)).map Prod.fst).Nodup := by
      rwa [List.map_map, show Prod.fst ∘ (fun other => (other, hides other)) = id from rfl,
        List.map_id]
    dsimp only [SegmentCache.hiddenBySegment]
    rw [writes, Dict.get?_setAll, Dict.get?_empty, Option.or_none]
    apply Option.ext
    intro found
    rw [Dict.lastWrite_eq_some_iff ids]
    by_cases listed : name ∈ names <;> simp [listed]
  rw [got]
  by_cases listed : name ∈ names
  · simp [listed, hides, younger]
  · simp [listed]

theorem mem_keys_hiddenBySegment {lists : List SegmentCache.IdList} {name : String} :
    name ∈ (SegmentCache.hiddenBySegment lists).keys ↔ ∃ list ∈ lists, list.name = name := by
  rw [Dict.mem_keys_iff, SegmentCache.hiddenBySegment]
  simp only [Dict.get?_setAll, Dict.get?_empty, Option.or_none, ← Option.isSome_iff_exists,
    Dict.lastWrite_isSome_iff, List.map_map, List.mem_map, Function.comp]

/-! ## Every step of a reader -/

/-- The signature is that of the cached segments. -/
def SegmentCache.Current (cache : SegmentCache dim) : Prop :=
  ∀ name, name ∈ cache.visibilitySignature.map Prod.fst ↔ name ∈ cache.segments.keys

theorem Library.Indexes.congr {names names' : List String} {hidden : Dict String (Finset ℤ)}
    (indexes : library.Indexes names hidden) (same : ∀ name, name ∈ names' ↔ name ∈ names) :
    library.Indexes names' hidden := by
  intro name x
  simp only [same]
  exact indexes name x

theorem sound_of_refreshVisibilityIndex (intact : library.Intact st) (sound : library.Sound cache)
    (built : (cache.refreshVisibilityIndex st).1 = .ok ()) :
    library.Sound (cache.refreshVisibilityIndex st).2 ∧
      (cache.refreshVisibilityIndex st).2.Current := by
  have names : ∀ name, name ∈ (SegmentCache.signature cache.segments).map Prod.fst ↔
      name ∈ cache.segments.keys := fun _ => mem_signature sound.cached
  unfold SegmentCache.refreshVisibilityIndex at built ⊢
  dsimp only at built ⊢
  split
  · next same =>
      refine ⟨sound, fun name => ?_⟩
      rw [← same]
      exact names name
  · next other =>
      rw [if_neg other] at built
      have present : ∀ name ∈ cache.segments.keys, name ∈ cache.segments.keys := fun _ member => member
      obtain ⟨cached, keys, read⟩ := readIds_spec intact sound.cached present
      dsimp only [SegmentCache.buildSegmentHiddenIds] at built ⊢
      cases ran : (SegmentCache.readIds st cache.segments cache.segments.keys).1 with
      | error e =>
          rw [ran] at built
          cases built
      | ok lists =>
          have index := indexes_hiddenBySegment library (Dict.keys_nodup cache.segments)
          rw [← read lists ran] at index
          exact ⟨⟨cached, index.congr names⟩, fun name => (names name).trans (keys name).symm⟩

/-- A refresh that got as far as its segments. -/
theorem sound_of_loadListed (intact : library.Intact st) {allSegments : List SegmentMeta}
    (lists : library.Lists allSegments) (sound : library.Sound cache) :
    library.Sound (cache.loadListed st allSegments).2 :=
  ⟨cached_of_loadListed intact lists sound.cached, sound.indexes⟩

theorem sound_of_refresh (intact : library.Intact st) {allSegments : List SegmentMeta}
    (lists : library.Lists allSegments) (sound : library.Sound cache)
    (returned : (cache.refresh st allSegments).1 = .ok ()) :
    library.Sound (cache.refresh st allSegments).2 ∧ (cache.refresh st allSegments).2.Current := by
  have loadedSound := sound_of_loadListed intact lists sound
  unfold SegmentCache.refresh at returned ⊢
  cases loaded : (cache.loadListed st allSegments).1 with
  | error e =>
      simp only [loaded] at returned
      cases returned
  | ok done =>
      simp only [loaded] at returned ⊢
      exact sound_of_refreshVisibilityIndex intact loadedSound returned

/-- Looking segments up in the same places finds them sound. -/
theorem Library.Sound.touch (sound : library.Sound cache) (s : ℕ) :
    library.Sound (cache.touch s) := by
  refine ⟨fun name seg found => ?_, sound.indexes⟩
  rw [SegmentCache.touch, Dict.get?_foldl_moveToEnd] at found
  exact sound.cached name seg found

theorem SegmentCache.Current.touch (current : cache.Current) (s : ℕ) :
    (cache.touch s).Current := by
  intro name
  refine (current name).trans ?_
  rw [Dict.mem_keys_iff, Dict.mem_keys_iff]
  simp only [SegmentCache.touch, Dict.get?_foldl_moveToEnd]

theorem Library.Sound.ntotal (intact : library.Intact st) (sound : library.Sound cache) :
    library.Sound (cache.ntotal st).2 :=
  ⟨(readIds_spec intact sound.cached fun _ member => member).1, sound.indexes⟩

/-- What a reader does with its cache.  The files of a segment may be gone, and a
refresh may raise while it loads the segments, but not while it builds the index. -/
inductive ReaderStep (library : Library dim) : SegmentCache dim → SegmentCache dim → Prop
  | refresh {cache : SegmentCache dim} {st : SharedStorage dim} {allSegments : List SegmentMeta}
      (intact : library.Intact st) (lists : library.Lists allSegments)
      (built : (cache.refresh st allSegments).1 = .ok () ∨
        (cache.loadListed st allSegments).1 ≠ .ok ()) :
      ReaderStep library cache (cache.refresh st allSegments).2
  | search {cache : SegmentCache dim} (snapshotId : ℕ) :
      ReaderStep library cache (cache.touch snapshotId)
  | health {cache : SegmentCache dim} {st : SharedStorage dim} (intact : library.Intact st) :
      ReaderStep library cache (cache.ntotal st).2

theorem ReaderStep.sound {cache' : SegmentCache dim} (step : ReaderStep library cache cache')
    (sound : library.Sound cache) : library.Sound cache' := by
  cases step with
  | @refresh st allSegments intact lists built =>
      cases built with
      | inl returned => exact (sound_of_refresh intact lists sound returned).1
      | inr stopped =>
          have loadedSound := sound_of_loadListed intact lists sound
          unfold SegmentCache.refresh
          cases loaded : (cache.loadListed st allSegments).1 with
          | error e =>
              simp only [loaded]
              exact loadedSound
          | ok done => exact absurd loaded stopped
  | search s => exact sound.touch s
  | health intact => exact sound.ntotal intact

/-- The caches that a reader can come to hold. -/
def ReaderReach (library : Library dim) (cache : SegmentCache dim) : Prop :=
  ∃ shardId limit loadAllShards new, SegmentCache.new shardId limit loadAllShards = .ok new ∧
    Relation.ReflTransGen (ReaderStep library) new cache

theorem ReaderReach.sound (reach : ReaderReach library cache) : library.Sound cache := by
  rcases reach with ⟨shardId, limit, loadAllShards, new, made, steps⟩
  induction steps with
  | refl =>
      unfold SegmentCache.new at made
      split at made
      · cases made
        refine ⟨fun name seg found => ?_, fun name x => ?_⟩
        · cases found
        · simp
      · cases made
  | tail _ step ih => exact step.sound ih

/-! ## Whatever the refreshes raise -/

/-- The names that the index stands for after a refresh: those of the cached segments when
it was built anew, else those it stood for. -/
def SegmentCache.indexedAfter (st : SharedStorage dim) (allSegments : List SegmentMeta)
    (cache : SegmentCache dim) (names : List String) : List String :=
  let loaded := cache.loadListed st allSegments
  match loaded.1 with
  | .error _ => names
  | .ok () =>
      if signature loaded.2.segments = loaded.2.visibilitySignature then names
      else
        match (buildSegmentHiddenIds st loaded.2.segments).1 with
        | .error _ => names
        | .ok _ => loaded.2.segments.keys

/-- A cache after any refreshes, which may raise anywhere, searches and health checks, with
the names its index was built for. -/
inductive IndexedFor (library : Library dim) : SegmentCache dim → List String → Prop
  | new {shardId limit : ℕ} {loadAllShards : Bool} {cache : SegmentCache dim}
      (made : SegmentCache.new shardId limit loadAllShards = .ok cache) :
      IndexedFor library cache []
  | refresh {cache : SegmentCache dim} {names : List String} {st : SharedStorage dim}
      {allSegments : List SegmentMeta} (before : IndexedFor library cache names)
      (intact : library.Intact st) (lists : library.Lists allSegments) :
      IndexedFor library (cache.refresh st allSegments).2 (cache.indexedAfter st allSegments names)
  | search {cache : SegmentCache dim} {names : List String}
      (before : IndexedFor library cache names) (snapshotId : ℕ) :
      IndexedFor library (cache.touch snapshotId) names
  | health {cache : SegmentCache dim} {names : List String} {st : SharedStorage dim}
      (before : IndexedFor library cache names) (intact : library.Intact st) :
      IndexedFor library (cache.ntotal st).2 names

/-- The index hides what is outdated among the names it was built for. -/
theorem IndexedFor.indexes {names : List String} (history : IndexedFor library cache names) :
    library.Cached cache.segments ∧ library.Indexes names cache.segmentHiddenIds := by
  induction history with
  | new made =>
      unfold SegmentCache.new at made
      split at made
      · cases made
        refine ⟨fun name seg found => ?_, fun name x => ?_⟩
        · cases found
        · simp
      · cases made
  | @refresh cache names st allSegments _ intact lists ih =>
      have cached := cached_of_loadListed intact lists ih.1
      have kept : library.Indexes names (cache.loadListed st allSegments).2.segmentHiddenIds := ih.2
      unfold SegmentCache.refresh SegmentCache.indexedAfter SegmentCache.refreshVisibilityIndex
      generalize cache.loadListed st allSegments = loaded at cached kept
      rcases loaded with ⟨outcome, loaded⟩
      cases outcome with
      | error e => exact ⟨cached, kept⟩
      | ok done =>
          dsimp only at cached kept ⊢
          by_cases same : SegmentCache.signature loaded.segments = loaded.visibilitySignature
          · rw [if_pos same, if_pos same]
            exact ⟨cached, kept⟩
          · obtain ⟨remembering, -, read⟩ := readIds_spec intact cached fun _ member => member
            rw [if_neg same, if_neg same]
            dsimp only [SegmentCache.buildSegmentHiddenIds]
            cases ran : (SegmentCache.readIds st loaded.segments loaded.segments.keys).1 with
            | error e => exact ⟨remembering, kept⟩
            | ok idLists =>
                refine ⟨remembering, ?_⟩
                rw [read idLists ran]
                exact indexes_hiddenBySegment library (Dict.keys_nodup _)
  | search _ s ih =>
      refine ⟨fun name seg found => ?_, ih.2⟩
      rw [SegmentCache.touch, Dict.get?_foldl_moveToEnd] at found
      exact ih.1 name seg found
  | health _ intact ih => exact ⟨(readIds_spec intact ih.1 fun _ member => member).1, ih.2⟩

end VecScale
