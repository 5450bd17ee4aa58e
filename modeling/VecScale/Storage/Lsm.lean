import Mathlib.Data.Prod.Lex
import VecScale.Storage.MemTable
import VecScale.Storage.Snapshot
import VecScale.Storage.Wal

/-!
# The storage engine: writes, flush, merge and start

`LSMEngine` is the engine's memory with its log; a `Node` is an engine on its
shared storage.  A call returns its result with the node after it, or raises.

`flush` and `merge` are cut where the code gives up its lock, so that the pieces
can be used on their own: `captureDeletes`, `clearMemtable`, `sealMemtable`;
`gatherLatest`, `keptRows`, `commitMerge`, `removeMerged`.
-/

namespace VecScale

/-- What the engine takes from libraries: the checksum and the uuid draws. -/
structure Env where
  crc32 : Bytes → ℕ
  uuid : Uuid4

/-- The checksum of `zlib`, and draws told apart by their length. -/
def Env.counted : Env := ⟨zlibCrc32, Uuid4.counted⟩

/-- The constructor arguments of an engine, its paths aside. -/
structure EngineConfig where
  shardId : ℕ
  nlist : ℕ
  flushThreshold : ℕ
  mergeThreshold : ℕ
  deriving DecidableEq

structure LSMEngine (dim : ℕ) where
  shardId : ℕ
  nlist : ℕ
  mergeThreshold : ℕ
  wal : WAL
  memtable : MemTable dim
  snapshots : SnapshotManager
  segments : List (Segment dim)
  tombstones : Finset ℤ
  started : Bool
  deriving DecidableEq

/-- An engine and the storage it works on. -/
structure Node (dim : ℕ) where
  engine : LSMEngine dim
  storage : SharedStorage dim
  deriving DecidableEq

variable {dim : ℕ}

/-- `(seg.snapshot_id, seg.segment_id)`. -/
def Segment.sortKey (seg : Segment dim) : ℕ ×ₗ String := toLex (seg.snapshotId, seg.segmentId)

/-- `segments.sort(key=lambda seg: (seg.snapshot_id, seg.segment_id))`. -/
def sortSegments (segments : List (Segment dim)) : List (Segment dim) :=
  segments.insertionSort fun a b => a.sortKey ≤ b.sortKey

/-- `max((seg.snapshot_id for seg in segments), default=0)`. -/
def maxSnapshot (segments : List (Segment dim)) : ℕ :=
  (segments.map Segment.snapshotId).max?.getD 0

namespace LSMEngine

/-- `LSMEngine.__init__` over existing log files. -/
def new (config : EngineConfig) (files : WalFiles) : LSMEngine dim where
  shardId := config.shardId
  nlist := config.nlist
  mergeThreshold := config.mergeThreshold
  wal := WAL.init files
  memtable := MemTable.init config.flushThreshold
  snapshots := SnapshotManager.init
  segments := []
  tombstones := ∅
  started := false

def ensureStarted (n : Node dim) : Except PyError Unit :=
  if n.engine.started then .ok () else .error (.runtimeError "LSMEngine is not started.")

/-- `_persist_tombstones`. -/
def persistTombstones (n : Node dim) : Node dim :=
  { n with storage := n.storage.persist n.engine.tombstones }

/-! ## Start -/

def loadExistingSegments (shardId : ℕ) (st : SharedStorage dim) :
    Except PyError (List (Segment dim)) := do
  let entries := st.segmentDirs.keys.insertionSort (· ≤ ·)
  let segments ← (entries.filter fun path => (st.files path).metaJson.isSome).mapM (Segment.load st)
  .ok (sortSegments (segments.filter fun seg => seg.shardId = shardId))

/-- What `start` does with one record. -/
def replayRecord (state : MemTable dim × Finset ℤ) (record : WALRecord dim) :
    MemTable dim × Finset ℤ :=
  if record.opType = OP_INSERT then (state.1.insert record.rows record.lsn, state.2)
  else if record.opType = OP_DELETE then
    (state.1.delete (batchIds record.rows) record.lsn, state.2 ∪ (batchIds record.rows).toFinset)
  else state

/-- The engine that `start` leaves, given the segments it found. -/
def startedOn (env : Env) (n : Node dim) (segments : List (Segment dim)) : Node dim :=
  let wal := n.engine.wal.openFiles env.crc32 dim
  let records := (wal.recover env.crc32 dim).filter fun record => maxSnapshot segments < record.lsn
  let replayed := records.foldl replayRecord
    (n.engine.memtable.clear, n.storage.tombstonesJson.load)
  { n with engine := { n.engine with
    wal, segments, memtable := replayed.1, tombstones := replayed.2, started := true } }

def start (env : Env) (n : Node dim) : Except PyError (Node dim) := do
  let segments ← loadExistingSegments n.engine.shardId n.storage
  .ok (startedOn env n segments)

/-! ## Merge -/

/-- The segments a merge takes. -/
def toMerge (engine : LSMEngine dim) : List (Segment dim) :=
  engine.segments.take engine.mergeThreshold

/-- The segments a merge leaves alone. -/
def remaining (engine : LSMEngine dim) : List (Segment dim) :=
  engine.segments.drop engine.mergeThreshold

/-- The newest version of every id, segments from oldest to newest. -/
def gatherLatest (st : SharedStorage dim) (toMerge : List (Segment dim)) :
    Except PyError (Dict ℤ (ℕ × Vec dim)) :=
  toMerge.foldlM (fun latest seg => do
    let rows ← seg.loadArrays st
    .ok (latest.setAll (rows.map fun row => (row.1, (seg.snapshotId, row.2))))) ∅

/-- The rows a merge keeps, in ascending id. -/
def keptRows (latest : Dict ℤ (ℕ × Vec dim)) (tombstones : Finset ℤ) : List (Row dim) :=
  ((latest.keys.insertionSort (· ≤ ·)).filter fun x => x ∉ tombstones).filterMap fun x =>
    (latest.get? x).map fun version => (x, version.2)

/-- The tombstones a merge drops. -/
def cleanedTombstones (latest : Dict ℤ (ℕ × Vec dim)) (tombstones : Finset ℤ) : Finset ℤ :=
  tombstones.filter fun x => x ∈ latest.keys

/-- The last locked section of `merge`. -/
def commitMerge (n : Node dim) (segments : List (Segment dim)) (cleaned : Finset ℤ) : Node dim :=
  persistTombstones { n with engine := { n.engine with
    segments, tombstones := n.engine.tombstones \ cleaned } }

def removeMerged (n : Node dim) (toMerge : List (Segment dim)) : Node dim :=
  { n with storage := n.storage.rmtreeAll (toMerge.map Segment.path) }

def merge (env : Env) (n : Node dim) : Except PyError (Option (Segment dim) × Node dim) := do
  ensureStarted n
  if n.engine.segments.length < n.engine.mergeThreshold then .ok (none, n)
  else
    let latest ← gatherLatest n.storage n.engine.toMerge
    let rows := keptRows latest n.engine.tombstones
    let cleaned := cleanedTombstones latest n.engine.tombstones
    if rows = [] then
      .ok (none, removeMerged (commitMerge n n.engine.remaining cleaned) n.engine.toMerge)
    else
      let created := Segment.create env.uuid n.engine.shardId (maxSnapshot n.engine.toMerge) rows
        n.engine.nlist n.storage
      let committed := commitMerge { n with storage := created.2 }
        (sortSegments (created.1 :: n.engine.remaining)) cleaned
      .ok (some created.1, removeMerged committed n.engine.toMerge)

/-! ## Flush -/

/-- Delete markers become tombstones. -/
def captureDeletes (n : Node dim) : Node dim :=
  let memDeletes := n.engine.memtable.visibleDeletedIds none
  if memDeletes = ∅ then n
  else persistTombstones { n with engine := { n.engine with
    tombstones := n.engine.tombstones ∪ memDeletes } }

def clearMemtable (n : Node dim) : Node dim :=
  { n with engine := { n.engine with memtable := n.engine.memtable.clear } }

/-- The second locked section of `flush`. -/
def installSegment (env : Env) (n : Node dim) (seg : Segment dim) (snapshotId : ℕ) : Node dim :=
  { n with engine := { n.engine with
    segments := sortSegments (n.engine.segments ++ [seg])
    wal := n.engine.wal.truncateBefore env.crc32 dim (snapshotId + 1) } }

/-- A segment of the memtable's rows, from the end of the first locked section to
the end of the second. -/
def sealMemtable (env : Env) (n : Node dim) : Segment dim × Node dim :=
  let rows := n.engine.memtable.toArrays none
  let snapshotId := n.engine.memtable.maxLsn
  let cleared := clearMemtable n
  let created := Segment.create env.uuid cleared.engine.shardId snapshotId rows
    cleared.engine.nlist cleared.storage
  (created.1, installSegment env { cleared with storage := created.2 } created.1 snapshotId)

def flush (env : Env) (n : Node dim) : Except PyError (Option (Segment dim) × Node dim) := do
  ensureStarted n
  let captured := captureDeletes n
  if captured.engine.memtable.toArrays none = [] ∨ captured.engine.memtable.maxLsn = 0 then
    .ok (none, clearMemtable captured)
  else
    let sealedMem := sealMemtable env captured
    if sealedMem.2.engine.mergeThreshold ≤ sealedMem.2.engine.segments.length then
      let merged ← merge env sealedMem.2
      .ok (some sealedMem.1, merged.2)
    else .ok (some sealedMem.1, sealedMem.2)

def stop (env : Env) (n : Node dim) : Except PyError (Node dim) := do
  let flushed ← flush env n
  let engine := flushed.2.engine
  .ok { flushed.2 with engine := { engine with wal := engine.wal.close, started := false } }

/-! ## Insert and delete -/

/-- What `insert` returns. -/
structure InsertResult where
  lsn : ℕ
  segmentFlushed : Bool
  deriving DecidableEq

/-- The locked section of `insert`, behind the log. -/
def applyInsert (n : Node dim) (wal : WAL) (lsn : ℕ) (rows : List (Row dim)) : Node dim :=
  let written := { n with engine := { n.engine with wal, memtable := n.engine.memtable.insert rows lsn } }
  let removed := n.engine.tombstones ∩ (batchIds rows).toFinset
  if removed = ∅ then written
  else persistTombstones { written with engine := { written.engine with
    tombstones := n.engine.tombstones \ removed } }

def insert (env : Env) (ids : List ℤ) (vectors : List (List UInt32)) (n : Node dim) :
    Except PyError (InsertResult × Node dim) := do
  ensureStarted n
  let rows ← prepareRows dim ids vectors
  let appended := n.engine.wal.append env.crc32 dim OP_INSERT ids vectors
  let lsn ← appended.1
  let written := applyInsert n appended.2 lsn rows
  if written.engine.memtable.shouldFlush then
    let flushed ← flush env written
    .ok (⟨lsn, flushed.1.isSome⟩, flushed.2)
  else .ok (⟨lsn, false⟩, written)

def applyDelete (n : Node dim) (wal : WAL) (lsn : ℕ) (ids : List ℤ) : Node dim :=
  persistTombstones { n with engine := { n.engine with
    wal, memtable := n.engine.memtable.delete ids lsn,
    tombstones := n.engine.tombstones ∪ ids.toFinset } }

/-- What the log records of a delete: the ids with `np.zeros` vectors. -/
def deleteRows (dim : ℕ) (ids : List ℤ) : List (Row dim) := ids.map fun x => (x, zeroVec dim)

def delete (env : Env) (ids : List ℤ) (n : Node dim) : Except PyError (ℕ × Node dim) := do
  ensureStarted n
  let vectors := batchVectors (deleteRows dim ids)
  let appended := n.engine.wal.append env.crc32 dim OP_DELETE ids vectors
  let lsn ← appended.1
  .ok (lsn, applyDelete n appended.2 lsn ids)

end LSMEngine

/-! ## Calls -/

/-- One call on an engine; a restart stops it and starts a new one, with its own
merge threshold, on the same files. -/
inductive Op (dim : ℕ)
  | insert (rows : List (Row dim))
  | delete (ids : List ℤ)
  | flush
  | merge
  | restart (mergeThreshold : ℕ)

/-- Another process on the files that this one left. -/
def Node.reborn (n : Node dim) (mergeThreshold : ℕ) : Node dim :=
  ⟨LSMEngine.new ⟨n.engine.shardId, n.engine.nlist, n.engine.memtable.flushThreshold,
    mergeThreshold⟩ n.engine.wal.files, n.storage⟩

/-- A new engine on empty directories. -/
def Node.boot (env : Env) (config : EngineConfig) : Except PyError (Node dim) :=
  LSMEngine.start env ⟨LSMEngine.new config ⟨none, .absent⟩, SharedStorage.empty⟩

def Node.run (env : Env) (n : Node dim) : Op dim → Except PyError (Node dim)
  | .insert rows => (LSMEngine.insert env (batchIds rows) (batchVectors rows) n).map Prod.snd
  | .delete ids => (LSMEngine.delete env ids n).map Prod.snd
  | .flush => (LSMEngine.flush env n).map Prod.snd
  | .merge => (LSMEngine.merge env n).map Prod.snd
  | .restart mergeThreshold => do
      let stopped ← LSMEngine.stop env n
      LSMEngine.start env (stopped.reborn mergeThreshold)

end VecScale
