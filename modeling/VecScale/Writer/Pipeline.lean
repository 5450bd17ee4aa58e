import VecScale.Coordinator.Registry
import VecScale.Storage.Search

/-!
# The writer pipeline

A `WriterPipeline` has one engine for each shard.  The engines share the storage,
`tombstones.json` included; each has its own log.  A `Cluster` is the pipeline
with that storage and with the registry of the coordinator.

A call is cut into the calls it makes on single shards (`onShard`), in the order
in which the shards first occur among the ids, and into the messages of
`registerUnregisteredSegments`.
-/

namespace VecScale

/-- What the writer reads from its settings for every engine. -/
structure Settings where
  nlist : ℕ
  segmentFlushThreshold : ℕ
  segmentMergeThreshold : ℕ
  deriving DecidableEq

/-- The constructor arguments of the engine of a shard. -/
def Settings.engine (settings : Settings) (shardId : ℕ) : EngineConfig :=
  ⟨shardId, settings.nlist, settings.segmentFlushThreshold, settings.segmentMergeThreshold⟩

structure WriterPipeline (dim numShards : ℕ) where
  engines : Fin numShards → LSMEngine dim
  registeredSegments : Finset String

/-- The writer, the storage its engines share, and the coordinator. -/
structure Cluster (dim numShards : ℕ) where
  writer : WriterPipeline dim numShards
  storage : SharedStorage dim
  registry : Registry

variable {dim numShards : ℕ}

/-- `segments`: the segments of every shard. -/
def WriterPipeline.segments (writer : WriterPipeline dim numShards) : List (Segment dim) :=
  (List.finRange numShards).flatMap fun shard => (writer.engines shard).segments

/-- A writer of one shard. -/
instance oneShard : NeZero 1 := ⟨one_ne_zero⟩

/-- `int(vec_id) % num_shards`. -/
def shardOf (numShards : ℕ) [NeZero numShards] (x : ℤ) : Fin numShards :=
  Fin.ofNat numShards (x % numShards).toNat

namespace Cluster

/-- The engine of a shard on the shared storage. -/
def node (c : Cluster dim numShards) (shard : Fin numShards) : Node dim :=
  ⟨c.writer.engines shard, c.storage⟩

def setNode (c : Cluster dim numShards) (shard : Fin numShards) (n : Node dim) :
    Cluster dim numShards :=
  { c with
    writer := { c.writer with engines := Function.update c.writer.engines shard n.engine }
    storage := n.storage }

/-- A call on the engine of one shard. -/
def onShard {α : Type} (shard : Fin numShards) (call : Node dim → Except PyError (α × Node dim))
    (c : Cluster dim numShards) : Except PyError (α × Cluster dim numShards) := do
  let done ← call (c.node shard)
  .ok (done.1, c.setNode shard done.2)

/-! ## Registration -/

/-- `delete_segment`, with the name forgotten. -/
def withdraw (c : Cluster dim numShards) (segmentId : String) : Cluster dim numShards :=
  { c with
    writer := { c.writer with registeredSegments := c.writer.registeredSegments.erase segmentId }
    registry := c.registry.deleteSegment segmentId }

/-- `register_segment`, unless the writer remembers that it did. -/
def announce (c : Cluster dim numShards) (segMeta : SegmentMeta) : Cluster dim numShards :=
  if segMeta.segmentId ∈ c.writer.registeredSegments then c
  else { c with
    writer := { c.writer with
      registeredSegments := insert segMeta.segmentId c.writer.registeredSegments }
    registry := c.registry.registerSegment segMeta }

/-- The remote segments that no engine has any more. -/
def stale (numShards : ℕ) (localIds : List String) (remote : List SegmentMeta) :
    List SegmentMeta :=
  remote.filter fun segMeta => segMeta.shardId < numShards ∧ segMeta.segmentId ∉ localIds

/-- `register_unregistered_segments`. -/
def registerUnregisteredSegments (c : Cluster dim numShards) : Cluster dim numShards :=
  let localIds := c.writer.segments.map Segment.segmentId
  let gone := stale numShards localIds c.registry.listSegments
  let withdrawn := (gone.map SegmentMeta.segmentId).foldl withdraw c
  (c.writer.segments.map Segment.segMeta).foldl announce withdrawn

/-- `_load_registered_segments`. -/
def loadRegisteredSegments (c : Cluster dim numShards) : Cluster dim numShards :=
  { c with writer := { c.writer with
    registeredSegments := (c.registry.listSegments.map SegmentMeta.segmentId).toFinset } }

/-! ## Start -/

/-- `WriterPipeline.__init__` over empty log directories. -/
def new (settings : Settings) (storage : SharedStorage dim) (registry : Registry) :
    Cluster dim numShards where
  writer := ⟨fun shard => LSMEngine.new (settings.engine shard) ⟨none, .absent⟩, ∅⟩
  storage := storage
  registry := registry

def startEngine (env : Env) (c : Cluster dim numShards) (shard : Fin numShards) :
    Except PyError (Cluster dim numShards) := do
  let started ← LSMEngine.start env (c.node shard)
  .ok (c.setNode shard started)

def start (env : Env) (c : Cluster dim numShards) : Except PyError (Cluster dim numShards) := do
  let started ← (List.finRange numShards).foldlM (startEngine env) c
  .ok started.loadRegisteredSegments.registerUnregisteredSegments

/-- A writer that starts on empty directories and an empty registry. -/
def boot (env : Env) (settings : Settings) : Except PyError (Cluster dim numShards) :=
  start env (new settings SharedStorage.empty Registry.empty)

/-! ## Health -/

/-- What one engine adds to `combined`. -/
def combine (combined h : LSMEngine.Health) : LSMEngine.Health where
  ntotal := combined.ntotal + h.ntotal
  segments := combined.segments + h.segments
  memtableSize := combined.memtableSize + h.memtableSize
  walLsn := max combined.walLsn h.walLsn
  activeSnapshots := combined.activeSnapshots + h.activeSnapshots

def health (c : Cluster dim numShards) : Except PyError LSMEngine.Health :=
  (List.finRange numShards).foldlM (fun combined shard => do
    let h ← LSMEngine.health (c.node shard)
    .ok (combine combined h)) ⟨0, 0, 0, 0, 0⟩

/-! ## Insert and delete -/

/-- What `insert` returns. -/
structure InsertReply where
  lsn : ℕ
  inserted : ℕ
  segmentFlushed : Bool
  ntotal : ℕ
  segments : ℕ
  walLsn : ℕ
  deriving DecidableEq

/-- What `delete` returns. -/
structure DeleteReply where
  deleted : ℕ
  lsn : ℕ
  ntotal : ℕ
  walLsn : ℕ
  deriving DecidableEq

variable [NeZero numShards]

/-- `shard_groups` of `insert`. -/
def rowGroups (rows : List (Row dim)) : List (Fin numShards × List (Row dim)) :=
  (Dict.groupBy (fun row => shardOf numShards row.1) rows).entries

/-- `shard_groups` of `delete`. -/
def idGroups (ids : List ℤ) : List (Fin numShards × List ℤ) :=
  (Dict.groupBy (shardOf numShards) ids).entries

/-- What one shard adds to `result`. -/
def addResult (result shard : LSMEngine.InsertResult) : LSMEngine.InsertResult :=
  ⟨max result.lsn shard.lsn, result.segmentFlushed || shard.segmentFlushed⟩

/-- One turn of the loop over the shards of `insert`. -/
def insertGroup (env : Env) (state : LSMEngine.InsertResult × Cluster dim numShards)
    (group : Fin numShards × List (Row dim)) :
    Except PyError (LSMEngine.InsertResult × Cluster dim numShards) := do
  let done ← state.2.onShard group.1
    (LSMEngine.insert env (batchIds group.2) (batchVectors group.2))
  .ok (addResult state.1 done.1, done.2)

/-- One turn of the loop over the shards of `delete`. -/
def deleteGroup (env : Env) (state : ℕ × Cluster dim numShards)
    (group : Fin numShards × List ℤ) : Except PyError (ℕ × Cluster dim numShards) := do
  let done ← state.2.onShard group.1 (LSMEngine.delete env group.2)
  .ok (max state.1 done.1, done.2)

/-- The part of `insert` between the check and the registration. -/
def insertOnShards (env : Env) (rows : List (Row dim)) (c : Cluster dim numShards) :
    Except PyError (LSMEngine.InsertResult × Cluster dim numShards) :=
  if numShards = 1 then c.onShard 0 (LSMEngine.insert env (batchIds rows) (batchVectors rows))
  else (rowGroups rows).foldlM (insertGroup env) (⟨0, false⟩, c)

def insert (env : Env) (ids : List ℤ) (vectors : List (List UInt32)) (c : Cluster dim numShards) :
    Except PyError (InsertReply × Cluster dim numShards) := do
  let rows ← prepareRows dim ids vectors
  let written ← c.insertOnShards env rows
  let registered := written.2.registerUnregisteredSegments
  let h ← registered.health
  .ok (⟨written.1.lsn, ids.length, written.1.segmentFlushed, h.ntotal, h.segments, h.walLsn⟩,
    registered)

/-- The part of `delete` before the health check. -/
def deleteOnShards (env : Env) (ids : List ℤ) (c : Cluster dim numShards) :
    Except PyError (ℕ × Cluster dim numShards) :=
  if numShards = 1 then c.onShard 0 (LSMEngine.delete env ids)
  else (idGroups ids).foldlM (deleteGroup env) (0, c)

def delete (env : Env) (ids : List ℤ) (c : Cluster dim numShards) :
    Except PyError (DeleteReply × Cluster dim numShards) := do
  let written ← c.deleteOnShards env ids
  let h ← written.2.health
  .ok (⟨ids.length, written.1, h.ntotal, h.walLsn⟩, written.2)

end Cluster

/-! ## Calls -/

/-- One call on the writer. -/
inductive Call (dim : ℕ)
  | insert (rows : List (Row dim))
  | delete (ids : List ℤ)

def Cluster.call (env : Env) [NeZero numShards] (c : Cluster dim numShards) :
    Call dim → Except PyError (Cluster dim numShards)
  | .insert rows => (Cluster.insert env (batchIds rows) (batchVectors rows) c).map Prod.snd
  | .delete ids => (Cluster.delete env ids c).map Prod.snd

end VecScale
