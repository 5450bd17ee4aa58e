import VecScale.Storage.Lsm
import VecScale.Storage.Results

/-!
# The storage engine: search and health

A search fixes its view under the lock: the visible segments, the memtable rows,
and the ids that hide rows.  `SearchPlan` is that view and `survivors` the rows
it leaves.  The segments are then searched one by one, each cut to `topK` before
hidden ids are taken out.

The ids a segment remembers after its first `load_ids` are those of an immutable
file, so the engine's own segments are left without them.

* `searchPlan` and `searchResults`: what the view lets through;
* `search` merges it, `health` counts the ids.
-/

namespace VecScale

variable {dim : ℕ}

/-- Raise the snapshot of every id to `snapshotId`: the inner loop of
`_latest_segment_snapshot_by_id` and of `_build_segment_hidden_ids`. -/
def noteAge (latest : Dict ℤ ℕ) (ids : List ℤ) (snapshotId : ℕ) : Dict ℤ ℕ :=
  ids.foldl (fun latest x => latest.set x (max ((latest.get? x).getD 0) snapshotId)) latest

/-- The view of one search. -/
structure SearchPlan (dim : ℕ) where
  segments : List (Segment dim)
  memRows : List (Row dim)
  deletedIds : Finset ℤ
  latest : Dict ℤ ℕ

namespace SearchPlan

/-- `hidden_ids` of one segment. -/
def hiddenIds (plan : SearchPlan dim) (seg : Segment dim) : Finset ℤ :=
  plan.deletedIds ∪ (batchIds plan.memRows).toFinset ∪
    ((plan.latest.entries.filter fun e => seg.snapshotId < e.2).map Prod.fst).toFinset

/-- The rows that survive the filters. -/
def survivors (plan : SearchPlan dim) : List (Row dim) :=
  (plan.segments.flatMap fun seg => seg.rows.filter fun row => row.1 ∉ plan.hiddenIds seg) ++
    plan.memRows.filter fun row => row.1 ∉ plan.deletedIds

end SearchPlan

namespace LSMEngine

/-- `_latest_segment_snapshot_by_id`. -/
def latestSegmentSnapshotById (st : SharedStorage dim) (segments : List (Segment dim)) :
    Except PyError (Dict ℤ ℕ) :=
  segments.foldlM (fun latest seg => do
    let loaded ← seg.loadIds st
    .ok (noteAge latest loaded.1 seg.snapshotId)) ∅

/-- The locked section of `search`, the memtable's own search aside. -/
def searchPlan (n : Node dim) (snapshotId : ℕ) : Except PyError (SearchPlan dim) := do
  let segments := SnapshotManager.visibleSegments snapshotId n.engine.segments
  let memRows := n.engine.memtable.toArrays (some snapshotId)
  let deletedIds := n.engine.memtable.visibleDeletedIds (some snapshotId) ∪ n.engine.tombstones
  let latest ← latestSegmentSnapshotById n.storage segments
  .ok ⟨segments, memRows, deletedIds, latest⟩

variable {D : Type} [LinearOrder D]

/-- The results that `search` merges. -/
def searchResults (faiss : Faiss dim D) (plan : SearchPlan dim) (mem : MemTable dim) (q : Vec dim)
    (topK nprobe snapshotId : ℕ) : List (List (ℤ × D)) :=
  let results := plan.segments.map fun seg =>
    filterResultIds (seg.search faiss q topK nprobe) (plan.hiddenIds seg)
  let memResult := mem.search faiss q topK (some snapshotId)
  if memResult.length = 0 then results else results ++ [memResult]

def search (faiss : Faiss dim D) (query : List UInt32) (topK nprobe : ℕ) (snapshotId : Option ℕ)
    (n : Node dim) : Except PyError (List (ℤ × D) × Node dim) := do
  ensureStarted n
  if shape : query.length = dim then
    let taken := match snapshotId with
      | none => n.engine.snapshots.createSnapshot n.engine.wal.lastLsn
      | some s => (s, n.engine.snapshots)
    let plan ← searchPlan n taken.1
    let results := searchResults faiss plan n.engine.memtable ⟨query, shape⟩ topK nprobe taken.1
    let snapshots := if snapshotId.isNone then taken.2.releaseSnapshot taken.1 else taken.2
    .ok (mergeResults results topK plan.deletedIds,
      { n with engine := { n.engine with snapshots } })
  else .error (.valueError s!"Expected query with shape [{dim}].")

/-! ## Health -/

/-- The ids of every segment, read from `ids.npy`. -/
def storedIds (st : SharedStorage dim) (segments : List (Segment dim)) :
    Except PyError (Finset ℤ) :=
  segments.foldlM (fun found seg =>
    match (st.files seg.path).idsNpy with
    | none => .error (.fileNotFoundError (seg.path ++ "/ids.npy"))
    | some ids => .ok (found ∪ ids.toFinset)) ∅

def ntotal (n : Node dim) : Except PyError ℕ := do
  let segmentIds ← storedIds n.storage n.engine.segments
  let memIds := (batchIds (n.engine.memtable.toArrays none)).toFinset
  let deletedIds := n.engine.memtable.visibleDeletedIds none ∪ n.engine.tombstones
  .ok ((segmentIds ∪ memIds) \ deletedIds).card

structure Health where
  ntotal : ℕ
  segments : ℕ
  memtableSize : ℕ
  walLsn : ℕ
  activeSnapshots : ℕ
  deriving DecidableEq

def health (n : Node dim) : Except PyError Health := do
  let total ← ntotal n
  .ok ⟨total, n.engine.segments.length, n.engine.memtable.ntotal, n.engine.wal.lastLsn,
    n.engine.snapshots.activeCount⟩

/-- The rows a default-snapshot search exposes. -/
def exposed (n : Node dim) : Except PyError (List (Row dim)) := do
  let plan ← searchPlan n n.engine.wal.lastLsn
  .ok plan.survivors

end LSMEngine

end VecScale
