import VecScale.Storage.Search

/-!
# The reader's segment cache

A reader keeps segments in an ordered dictionary, least recently used first, with
the tombstones of its last refresh and an index of the ids that each segment must
not show.  A refresh that raises leaves the cache as far as it got, so it returns
its outcome beside the cache.

* `refresh`: `loadListed`, then `refreshVisibilityIndex`;
* `searchAll`: the segments at or below a snapshot, filtered by the index.
-/

namespace VecScale

variable {dim : ℕ}

structure SegmentCache (dim : ℕ) where
  shardId : ℕ
  maxSegmentsInMemory : ℕ
  loadAllShards : Bool
  segments : Dict String (Segment dim)
  tombstones : Finset ℤ
  segmentHiddenIds : Dict String (Finset ℤ)
  visibilitySignature : List (String × ℕ)
  positive : 0 < maxSegmentsInMemory
  deriving DecidableEq

namespace SegmentCache

/-- `SegmentCache.__init__`. -/
def new (shardId maxSegmentsInMemory : ℕ) (loadAllShards : Bool) :
    Except PyError (SegmentCache dim) :=
  if positive : 0 < maxSegmentsInMemory then
    .ok ⟨shardId, maxSegmentsInMemory, loadAllShards, ∅, ∅, ∅, [], positive⟩
  else .error (.valueError "max_segments_in_memory must be positive.")

/-! ## Loading -/

/-- The reader serves the segments of a shard. -/
def Serves (cache : SegmentCache dim) (shardId : ℕ) : Prop :=
  cache.loadAllShards = true ∨ shardId = cache.shardId

instance (cache : SegmentCache dim) (shardId : ℕ) : Decidable (cache.Serves shardId) :=
  inferInstanceAs (Decidable (_ ∨ _))

/-- `visible` of `refresh`: the listed segments the reader serves. -/
def listed (cache : SegmentCache dim) (allSegments : List SegmentMeta) : Dict String SegmentMeta :=
  Dict.setAll ∅ ((allSegments.filter fun segMeta =>
    cache.loadAllShards || segMeta.shardId = cache.shardId).map fun segMeta =>
      (segMeta.segmentId, segMeta))

/-- `sorted(visible.items(), key=lambda item: (item[1].snapshot_id, item[0]))`. -/
def byAge (visible : Dict String SegmentMeta) : List (String × SegmentMeta) :=
  visible.entries.insertionSort fun a b =>
    toLex (a.2.snapshotId, a.1) ≤ toLex (b.2.snapshotId, b.1)

/-- Drop the least recently used segments above the limit. -/
def evictOldest (limit : ℕ) (segments : Dict String (Segment dim)) : Dict String (Segment dim) :=
  Dict.popFirst^[segments.length - limit] segments

/-- One turn of the loading loop. -/
def admitItem (st : SharedStorage dim) (limit : ℕ) (segments : Dict String (Segment dim))
    (item : String × SegmentMeta) : Except PyError (Dict String (Segment dim)) :=
  if item.1 ∈ segments.keys then .ok (segments.moveToEnd item.1)
  else do
    let seg ← Segment.load st item.2.path
    .ok (evictOldest limit ((segments.set item.1 seg).moveToEnd item.1))

def admitAll (st : SharedStorage dim) (limit : ℕ) :
    Dict String (Segment dim) → List (String × SegmentMeta) →
      Except PyError Unit × Dict String (Segment dim)
  | segments, [] => (.ok (), segments)
  | segments, item :: items =>
      match admitItem st limit segments item with
      | .error e => (.error e, segments)
      | .ok admitted => admitAll st limit admitted items

/-- `refresh` up to the visibility index. -/
def loadListed (st : SharedStorage dim) (allSegments : List SegmentMeta)
    (cache : SegmentCache dim) : Except PyError Unit × SegmentCache dim :=
  let visible := cache.listed allSegments
  let kept := cache.segments.eraseAll (cache.segments.keys.filter fun name => name ∉ visible.keys)
  let admitted := admitAll st cache.maxSegmentsInMemory kept (byAge visible)
  (admitted.1, { cache with tombstones := st.tombstonesJson.load, segments := admitted.2 })

/-! ## The visibility index -/

/-- The sorted names and ages of the cached segments. -/
def signature (segments : Dict String (Segment dim)) : List (String × ℕ) :=
  (segments.values.map fun seg => (seg.segmentId, seg.snapshotId)).insertionSort
    fun a b => toLex a ≤ toLex b

/-- The ids of a cached segment, with its name and age. -/
structure IdList where
  name : String
  snapshotId : ℕ
  ids : List ℤ

/-- The first loop of `_build_segment_hidden_ids`; the segments remember their ids. -/
def readIds (st : SharedStorage dim) :
    Dict String (Segment dim) → List String →
      Except PyError (List IdList) × Dict String (Segment dim)
  | segments, [] => (.ok [], segments)
  | segments, name :: names =>
      match segments.get? name with
      | none => readIds st segments names
      | some seg =>
          match seg.loadIds st with
          | .error e => (.error e, segments)
          | .ok (ids, remembering) =>
              let rest := readIds st (segments.set name remembering) names
              (rest.1.map (⟨name, seg.snapshotId, ids⟩ :: ·), rest.2)

/-- `latest_snapshot_by_id`. -/
def latestSnapshotById (lists : List IdList) : Dict ℤ ℕ :=
  lists.foldl (fun latest list => noteAge latest list.ids list.snapshotId) ∅

/-- `hidden_by_segment`. -/
def hiddenBySegment (lists : List IdList) : Dict String (Finset ℤ) :=
  let latest := latestSnapshotById lists
  Dict.setAll ∅ (lists.map fun list => (list.name,
    (list.ids.filter fun x => list.snapshotId < (latest.get? x).getD 0).toFinset))

/-- `_build_segment_hidden_ids`. -/
def buildSegmentHiddenIds (st : SharedStorage dim) (segments : Dict String (Segment dim)) :
    Except PyError (Dict String (Finset ℤ)) × Dict String (Segment dim) :=
  let read := readIds st segments segments.keys
  (read.1.map hiddenBySegment, read.2)

/-- `_refresh_visibility_index_if_needed`; the signature is recorded first. -/
def refreshVisibilityIndex (st : SharedStorage dim) (cache : SegmentCache dim) :
    Except PyError Unit × SegmentCache dim :=
  let found := signature cache.segments
  if found = cache.visibilitySignature then (.ok (), cache)
  else
    let built := buildSegmentHiddenIds st cache.segments
    let signed := { cache with visibilitySignature := found, segments := built.2 }
    match built.1 with
    | .error e => (.error e, signed)
    | .ok hidden => (.ok (), { signed with segmentHiddenIds := hidden })

def refresh (st : SharedStorage dim) (allSegments : List SegmentMeta) (cache : SegmentCache dim) :
    Except PyError Unit × SegmentCache dim :=
  let loaded := cache.loadListed st allSegments
  match loaded.1 with
  | .error e => (.error e, loaded.2)
  | .ok () => loaded.2.refreshVisibilityIndex st

/-! ## Search -/

/-- `visible_segments` of `search_all`. -/
def visibleSegments (cache : SegmentCache dim) (snapshotId : ℕ) : List (String × Segment dim) :=
  cache.segments.entries.filter fun e => e.2.snapshotId ≤ snapshotId

/-- `hidden_ids` of one segment. -/
def hiddenIds (cache : SegmentCache dim) (name : String) : Finset ℤ :=
  cache.tombstones ∪ (cache.segmentHiddenIds.get? name).getD ∅

/-- The rows that survive the filters. -/
def survivors (cache : SegmentCache dim) (snapshotId : ℕ) : List (Row dim) :=
  (cache.visibleSegments snapshotId).flatMap fun e =>
    e.2.rows.filter fun row => row.1 ∉ cache.hiddenIds e.1

variable {D : Type} [LinearOrder D]

/-- The results that `searchAll` merges. -/
def searchResults (faiss : Faiss dim D) (cache : SegmentCache dim) (q : Vec dim)
    (topK nprobe snapshotId : ℕ) : List (List (ℤ × D)) :=
  (cache.visibleSegments snapshotId).map fun e =>
    filterResultIds (e.2.search faiss q topK nprobe) (cache.hiddenIds e.1)

/-- The cache after a search, which makes the segments it reads the newest. -/
def touch (cache : SegmentCache dim) (snapshotId : ℕ) : SegmentCache dim :=
  { cache with segments :=
      ((cache.visibleSegments snapshotId).map Prod.fst).foldl Dict.moveToEnd cache.segments }

/-- `search_all`. -/
def searchAll (faiss : Faiss dim D) (q : Vec dim) (topK nprobe snapshotId : ℕ)
    (cache : SegmentCache dim) : List (ℤ × D) × SegmentCache dim :=
  (mergeResults (cache.searchResults faiss q topK nprobe snapshotId) topK cache.tombstones,
    cache.touch snapshotId)

/-- `ntotal`; the segments remember their ids. -/
def ntotal (st : SharedStorage dim) (cache : SegmentCache dim) :
    Except PyError ℕ × SegmentCache dim :=
  let read := readIds st cache.segments cache.segments.keys
  (read.1.map fun lists => ((lists.flatMap IdList.ids).toFinset \ cache.tombstones).card,
    { cache with segments := read.2 })

/-! ## Refreshing -/

variable {st : SharedStorage dim} {cache : SegmentCache dim} {allSegments : List SegmentMeta}

/-- A refresh, returning or not, reads the tombstones and leaves the settings. -/
theorem frame_refresh :
    (∀ shardId, (cache.refresh st allSegments).2.Serves shardId ↔ cache.Serves shardId) ∧
      (cache.refresh st allSegments).2.maxSegmentsInMemory = cache.maxSegmentsInMemory ∧
      (cache.refresh st allSegments).2.tombstones = st.tombstonesJson.load := by
  unfold refresh refreshVisibilityIndex
  dsimp only
  split
  · exact ⟨fun _ => Iff.rfl, rfl, rfl⟩
  · split
    · exact ⟨fun _ => Iff.rfl, rfl, rfl⟩
    · split <;> exact ⟨fun _ => Iff.rfl, rfl, rfl⟩

theorem serves_refresh {shardId : ℕ} :
    (cache.refresh st allSegments).2.Serves shardId ↔ cache.Serves shardId :=
  frame_refresh.1 shardId

theorem max_refresh : (cache.refresh st allSegments).2.maxSegmentsInMemory =
    cache.maxSegmentsInMemory := frame_refresh.2.1

theorem tombstones_refresh :
    (cache.refresh st allSegments).2.tombstones = st.tombstonesJson.load := frame_refresh.2.2

end SegmentCache

end VecScale
