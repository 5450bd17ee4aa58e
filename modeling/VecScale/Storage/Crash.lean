import VecScale.Storage.Calls
import VecScale.Storage.Search
import VecScale.Storage.WalEffects

/-!
# Histories with crashes

A step of such a history is a call that returns, or a crash that cuts the engine
behind any number of the durable effects of `append` or of `truncate_before`; a new
engine then starts on the files.

* `Node.cut`: what a crash leaves of the node;
* `cutFlush_ok`: a flush that is cut in its truncation has stored its segment;
* `mem_loadExistingSegments`: what a start loads.
-/

namespace VecScale

/-- Why a step was not taken: the call raised, or it is over before the cut. -/
inductive Halt
  | raised (e : PyError)
  | notReached
  deriving DecidableEq

/-- Where a crash cuts the engine: between two calls, or behind so many effects of the
append or of the truncation in a call.  A restart flushes as `flush` does. -/
inductive Cut (dim : ℕ)
  | idle
  | insert (rows : List (Row dim)) (effects : ℕ)
  | delete (ids : List ℤ) (effects : ℕ)
  | flush (effects : ℕ)
  | insertFlush (rows : List (Row dim)) (effects : ℕ)

/-- One step of a history with crashes. -/
inductive CrashOp (dim : ℕ)
  | call (op : Op dim)
  | crash (cut : Cut dim) (mergeThreshold : ℕ)

variable {dim : ℕ}

namespace LSMEngine

/-- The node over other log files. -/
def onFiles (n : Node dim) (files : WalFiles) : Node dim :=
  { n with engine := { n.engine with wal := { n.engine.wal with files } } }

/-- A flush that is cut inside its truncation. -/
def cutFlush (env : Env) (n : Node dim) (effects : ℕ) : Except Halt (Node dim) := do
  (ensureStarted n).mapError Halt.raised
  let captured := captureDeletes n
  let rows := captured.engine.memtable.toArrays none
  let snapshotId := captured.engine.memtable.maxLsn
  if rows = [] ∨ snapshotId = 0 then .error .notReached
  else
    let created := Segment.create env.uuid captured.engine.shardId snapshotId rows
      captured.engine.nlist captured.storage
    .ok (onFiles { captured with storage := created.2 }
      (captured.engine.wal.cutTruncate env.crc32 dim (snapshotId + 1) effects))

/-- An insert or a delete that is cut inside its append. -/
def cutWrite (env : Env) (n : Node dim) (opType : ℕ) (rows : List (Row dim)) (effects : ℕ) :
    Except Halt (Node dim) := do
  (ensureStarted n).mapError Halt.raised
  let left ← (n.engine.wal.cutAppend env.crc32 dim opType (batchIds rows) (batchVectors rows)
    effects).mapError Halt.raised
  .ok (onFiles n left)

end LSMEngine

/-- What a crash leaves of the node. -/
def Node.cut (env : Env) (n : Node dim) : Cut dim → Except Halt (Node dim)
  | .idle => .ok n
  | .insert rows effects => LSMEngine.cutWrite env n OP_INSERT rows effects
  | .delete ids effects => LSMEngine.cutWrite env n OP_DELETE (LSMEngine.deleteRows dim ids) effects
  | .flush effects => LSMEngine.cutFlush env n effects
  | .insertFlush rows effects => do
      (LSMEngine.ensureStarted n).mapError Halt.raised
      let appended := n.engine.wal.append env.crc32 dim OP_INSERT (batchIds rows) (batchVectors rows)
      let lsn ← appended.1.mapError Halt.raised
      let written := LSMEngine.applyInsert n appended.2 lsn rows
      if written.engine.memtable.shouldFlush then LSMEngine.cutFlush env written effects
      else .error .notReached

/-- A step: a call that returns, or a crash and the start that follows it. -/
def Node.crashStep (env : Env) (n : Node dim) : CrashOp dim → Except Halt (Node dim)
  | .call op => (n.run env op).mapError Halt.raised
  | .crash cut mergeThreshold => do
      let left ← n.cut env cut
      (LSMEngine.start env (left.reborn mergeThreshold)).mapError Halt.raised

/-- The ids of a step are int64. -/
def CrashOp.Int64 : CrashOp dim → Prop
  | .call op => op.Int64
  | .crash (.insert rows _) _ => ∀ row ∈ rows, IsInt64 row.1
  | .crash (.insertFlush rows _) _ => ∀ row ∈ rows, IsInt64 row.1
  | .crash (.delete ids _) _ => ∀ x ∈ ids, IsInt64 x
  | .crash _ _ => True

instance CrashOp.decidableInt64 : (op : CrashOp dim) → Decidable op.Int64
  | .call op => inferInstanceAs (Decidable op.Int64)
  | .crash (.insert _ _) _ | .crash (.insertFlush _ _) _ | .crash (.delete _ _) _ =>
      inferInstanceAs (Decidable (∀ _ ∈ _, _))
  | .crash .idle _ | .crash (.flush _) _ => inferInstanceAs (Decidable True)

variable {env : Env} {n n' : Node dim}

/-- What a flush that is cut has done: the new segment is stored. -/
theorem cutFlush_ok {effects : ℕ} {left : Node dim}
    (ran : LSMEngine.cutFlush env n effects = .ok left) :
    n.engine.memtable.maxLsn ≠ 0 ∧ left.engine.shardId = n.engine.shardId ∧
      left.engine.wal.files =
        n.engine.wal.cutTruncate env.crc32 dim (n.engine.memtable.maxLsn + 1) effects ∧
      left.storage = (Segment.create env.uuid n.engine.shardId n.engine.memtable.maxLsn
        (n.engine.memtable.toArrays none) n.engine.nlist (LSMEngine.captureDeletes n).storage).2 := by
  unfold LSMEngine.cutFlush at ran
  obtain ⟨-, -, ran⟩ := ok_of_bind ran
  simp only [LSMEngine.captureDeletes_engine] at ran
  split at ran
  · cases ran
  · next filled =>
      cases ran
      exact ⟨fun zero => filled (Or.inr zero), rfl, rfl, rfl⟩

/-! ## What a start loads -/

/-- The segments that a start loads are those of its shard that can be loaded. -/
theorem mem_loadExistingSegments {shardId : ℕ} {st : SharedStorage dim}
    {segments : List (Segment dim)}
    (loaded : LSMEngine.loadExistingSegments shardId st = .ok segments) (seg : Segment dim) :
    seg ∈ segments ↔ seg.shardId = shardId ∧ ∃ path ∈ st.segmentDirs.keys,
      (st.files path).metaJson.isSome = true ∧ Segment.load st path = .ok seg := by
  obtain ⟨all, traversed, done⟩ := ok_of_bind loaded
  rw [Except.ok.injEq] at done
  rw [← done, sortSegments, (List.perm_insertionSort _ _).mem_iff, List.mem_filter,
    mem_of_mapM traversed, decide_eq_true_eq, and_comm]
  simp only [List.mem_filter, (List.perm_insertionSort _ _).mem_iff, and_assoc]

/-- A start loads its segments iff every directory that has its metadata can be loaded. -/
theorem exists_loadExistingSegments_iff {shardId : ℕ} {st : SharedStorage dim} :
    (∃ segments, LSMEngine.loadExistingSegments shardId st = .ok segments) ↔
      ∀ path, (st.files path).metaJson.isSome = true → ∃ seg, Segment.load st path = .ok seg := by
  have listed : ∀ path, (st.files path).metaJson.isSome = true → path ∈ st.segmentDirs.keys := by
    intro path described
    by_contra missing
    rw [SharedStorage.files, Dict.get?_eq_none_iff.mpr missing] at described
    cases described
  let described := (st.segmentDirs.keys.insertionSort (· ≤ ·)).filter
    fun path => (st.files path).metaJson.isSome
  have traversal : (∃ all, described.mapM (Segment.load st) = .ok all) ↔
      ∀ path ∈ described, ∃ seg, Segment.load st path = .ok seg := exists_mapM_iff
  constructor
  · rintro ⟨segments, loaded⟩ path described
    obtain ⟨all, traversed, -⟩ := ok_of_bind loaded
    refine traversal.mp ⟨all, traversed⟩ path (List.mem_filter.mpr ⟨?_, described⟩)
    exact (List.perm_insertionSort _ _).mem_iff.mpr (listed path described)
  · intro loads
    obtain ⟨all, traversed⟩ := traversal.mpr fun path member =>
      loads path (List.mem_filter.mp member).2
    refine ⟨sortSegments (all.filter fun seg => seg.shardId = shardId), ?_⟩
    rw [LSMEngine.loadExistingSegments, traversed]
    rfl

/-- A loaded segment has the metadata of its directory. -/
theorem Segment.meta_of_load {st : SharedStorage dim} {path : String} {seg : Segment dim}
    (loaded : Segment.load st path = .ok seg) : (st.files path).metaJson = some seg.segMeta := by
  unfold Segment.load at loaded
  split at loaded
  · cases loaded
  next segMeta described =>
  split at loaded
  · cases loaded
  · cases loaded
    exact described

theorem loaded_of_start {left : Node dim} {mergeThreshold : ℕ}
    (ran : LSMEngine.start env (left.reborn mergeThreshold) = .ok n') :
    LSMEngine.loadExistingSegments left.engine.shardId left.storage = .ok n'.engine.segments := by
  obtain ⟨segments, loaded, done⟩ := ok_of_bind ran
  rw [Except.ok.injEq] at done
  rw [← done]
  exact loaded

/-- A start loads the segment that was written last. -/
theorem mem_loaded_of_create {uuid : Uuid4} {shardId snapshotId nlist : ℕ} {rows : List (Row dim)}
    {st : SharedStorage dim} {segments : List (Segment dim)}
    (loaded : LSMEngine.loadExistingSegments shardId
      (Segment.create uuid shardId snapshotId rows nlist st).2 = .ok segments) :
    ∃ seg ∈ segments, seg.snapshotId = snapshotId := by
  let created := Segment.create uuid shardId snapshotId rows nlist st
  have stored : created.1.Stored created.2 :=
    Segment.create_stored uuid shardId snapshotId rows nlist st
  refine ⟨created.1, (mem_loadExistingSegments loaded created.1).mpr ⟨rfl, created.1.path, ?_, ?_,
    Segment.load_of_stored stored⟩, rfl⟩
  · exact Dict.mem_keys_iff.mpr ⟨_, stored.files⟩
  · rw [Segment.files_of_stored stored]
    rfl

end VecScale
