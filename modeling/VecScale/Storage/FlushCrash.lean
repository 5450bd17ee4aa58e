import VecScale.Storage.Crash
import VecScale.Storage.EngineMap

/-!
# A crash in a flush

Once a flush has stored its segment, the rows are on disk twice until the log is
truncated.  A start replays only what is newer than its newest segment, and so none of
them, wherever the truncation was cut.

* `recover_cutTruncate`: what a cut truncation leaves above the segment is what a
  completed one leaves;
* `start_after_cutFlush`: the start on the files of a flush that was cut;
* `flush_crash_recovers`: nothing is lost and nothing comes twice.
-/

namespace VecScale

variable {dim : ℕ} {env : Env} {config : EngineConfig} {n n' : Node dim}
  {old recent log : List (WALRecord dim)}

/-- Wherever a truncation is cut, the same records are left above its LSN.  The side file
is rewritten in one step. -/
theorem WAL.recover_cutTruncate {crc32 : Bytes → ℕ} {w : WAL} (holds : w.Holds crc32 log)
    (lsn : ℕ) {count : ℕ} (whole : count ≠ 3) :
    (WAL.recover crc32 dim (WAL.init (WAL.cutTruncate crc32 dim w lsn count))).filter
        (fun r => lsn ≤ r.lsn) = log.filter (fun r => lsn ≤ r.lsn) ∧
      (WAL.cutTruncate crc32 dim w lsn count).lsnMeta = .holds w.lastLsn := by
  have recovered := WAL.recover_of_holds holds
  have done := WAL.truncateBefore_of_holds holds lsn
  have truncated : (WAL.recover crc32 dim (WAL.init (WAL.truncateBefore crc32 dim w lsn).files)).filter
        (fun r => lsn ≤ r.lsn) = log.filter (fun r => lsn ≤ r.lsn) ∧
      (WAL.truncateBefore crc32 dim w lsn).files.lsnMeta = .holds w.lastLsn := by
    refine ⟨?_, rfl⟩
    rw [show WAL.recover crc32 dim (WAL.init (WAL.truncateBefore crc32 dim w lsn).files) =
      WAL.recover crc32 dim (WAL.truncateBefore crc32 dim w lsn) from rfl,
      WAL.recover_of_holds done, List.filter_filter]
    simp only [Bool.and_self]
  match count, whole with
  | 0, _ => exact ⟨congrArg (List.filter _) recovered, holds.lsnMeta⟩
  | 1, _ => exact ⟨congrArg (List.filter _) recovered, holds.lsnMeta⟩
  | 2, _ =>
      have files : WAL.cutTruncate crc32 dim w lsn 2 = (WAL.truncateBefore crc32 dim w lsn).files :=
        congrArg (WalFiles.mk _) holds.lsnMeta
      rw [files]
      exact truncated
  | count + 4, _ =>
      have files : WAL.cutTruncate crc32 dim w lsn (count + 4) =
          (WAL.truncateBefore crc32 dim w lsn).files := by
        rw [WAL.cutTruncate, List.take_of_length_le (by simp [WAL.truncateEffects])]
        rfl
      rw [files]
      exact truncated

/-- The newest of some segments in order of age is the last one. -/
theorem maxSnapshot_concat {segments : List (Segment dim)} {last : Segment dim}
    (sorted : (segments ++ [last]).Pairwise fun a b => a.snapshotId < b.snapshotId) :
    maxSnapshot (segments ++ [last]) = last.snapshotId := by
  rcases List.pairwise_append.mp sorted with ⟨-, -, older⟩
  apply le_antisymm
  · refine maxSnapshot_le fun seg member => ?_
    rcases List.mem_append.mp member with before | same
    · exact (older seg before last (List.mem_singleton_self _)).le
    · rw [List.mem_singleton.mp same]
  · exact le_maxSnapshot (List.mem_append_right _ (List.mem_singleton_self _))

/-- The node whose files a flush that was cut has all but truncated. -/
structure Sealed (env : Env) (n left sealedNode : Node dim) (tail : List (WALRecord dim)) :
    Prop where
  layout : Layout env sealedNode tail []
  silent : ∀ x, replayEntry tail x = none
  storage : left.storage = sealedNode.storage
  shardId : left.engine.shardId = sealedNode.engine.shardId
  lastLsn : sealedNode.engine.wal.lastLsn = n.engine.wal.lastLsn
  newest : maxSnapshot sealedNode.engine.segments = n.engine.memtable.maxLsn
  tombstones : sealedNode.engine.tombstones = (LSMEngine.captureDeletes n).engine.tombstones
  tombstonesJson : sealedNode.storage.tombstonesJson =
    (LSMEngine.captureDeletes n).storage.tombstonesJson
  shown : ∀ x, sealedNode.engine.lookup x = n.engine.lookup x

theorem sealed_of_cutFlush (layout : Layout env n old recent) {effects : ℕ} {left : Node dim}
    (ran : LSMEngine.cutFlush env n effects = .ok left) :
    ∃ sealedNode, Sealed env n left sealedNode
      ((old ++ recent).filter fun r => n.engine.memtable.maxLsn + 1 ≤ r.lsn) := by
  obtain ⟨positive, shardId, files, storage⟩ := cutFlush_ok ran
  have engine := LSMEngine.captureDeletes_engine n
  have memtable : (LSMEngine.captureDeletes n).engine.memtable = n.engine.memtable := by rw [engine]
  have wal : (LSMEngine.captureDeletes n).engine.wal = n.engine.wal := by rw [engine]
  obtain ⟨x, e, entry, -⟩ := MemTable.exists_of_maxLsn (Nat.pos_of_ne_zero positive)
  rw [← memtable] at entry
  obtain ⟨segments, tail, after, silent⟩ := layout.captureDeletes.sealMemtable entry
  -- the tail is what the truncation keeps
  have tailEq : tail = (old ++ recent).filter fun r => n.engine.memtable.maxLsn + 1 ≤ r.lsn := by
    have read := WAL.recover_of_holds after.wal
    rw [List.append_nil] at read
    rw [← read, ← memtable]
    apply WAL.recover_of_holds
    exact WAL.truncateBefore_of_holds layout.captureDeletes.wal _
  rw [← tailEq]
  refine ⟨_, after, silent, ?_, ?_, ?_, ?_, rfl, rfl, fun y => ?_⟩
  · rw [storage]
    simp only [LSMEngine.sealMemtable, LSMEngine.installSegment, LSMEngine.clearMemtable, engine]
  · rw [shardId, LSMEngine.sealMemtable_shardId, engine]
  · have same := congrArg WAL.lastLsn wal
    exact same
  · have ages := after.segments.sorted
    rw [segments] at ages
    rw [segments, maxSnapshot_concat ages, ← memtable]
    rfl
  · rw [lookup_sealMemtable (fun _ _ => captured_of_marker) segments, lookup_captureDeletes]

/-- **The start after a flush that was cut.**  Its memtable is empty, and it shows what the
engine showed when the flush began. -/
theorem start_after_cutFlush (layout : Layout env n old recent)
    (consistent : Consistent n (old ++ recent)) {effects : ℕ} {left : Node dim}
    (ran : LSMEngine.cutFlush env n effects = .ok left) (whole : effects ≠ 3)
    (mergeThreshold : ℕ) :
    ∃ n', LSMEngine.start env (left.reborn mergeThreshold) = .ok n' ∧
      (∀ x, n'.engine.memtable.entries.get? x = none) ∧
      SegmentsWf env n'.engine n'.storage ∧
      ∀ x, n'.engine.lookup x = n.engine.lookup x := by
  obtain ⟨sealedNode, done⟩ := sealed_of_cutFlush layout ran
  obtain ⟨-, -, files, -⟩ := cutFlush_ok ran
  obtain ⟨kept, lsnMeta⟩ := WAL.recover_cutTruncate layout.wal (n.engine.memtable.maxLsn + 1) whole
  have loaded : LSMEngine.loadExistingSegments left.engine.shardId left.storage =
      .ok sealedNode.engine.segments := by
    rw [done.shardId, done.storage]
    exact loadExistingSegments_of_wf done.layout.segments
  have newer : (WAL.recover env.crc32 dim (WAL.init left.engine.wal.files)).filter
      (fun r => maxSnapshot sealedNode.engine.segments < r.lsn) =
        (old ++ recent).filter (fun r => n.engine.memtable.maxLsn + 1 ≤ r.lsn) := by
    rw [done.newest, files]
    exact kept
  obtain ⟨n', started, found, entries, -, tombstones⟩ :=
    start_of_segments loaded newer mergeThreshold
  have memtable : ∀ x, n'.engine.memtable.entries.get? x = none :=
    fun x => (entries x).trans (done.silent x)
  have segments : n'.engine.segments = sealedNode.engine.segments := by rw [found]; rfl
  refine ⟨n', started, memtable, ?_, fun x => ?_⟩
  · have storage : n'.storage = sealedNode.storage := by
      rw [found]
      exact done.storage
    have clock : left.engine.wal.files.lsnMeta.read ≤ n'.engine.wal.lastLsn := by
      rw [found]
      exact le_max_left _ _
    rw [files, lsnMeta] at clock
    rw [storage]
    refine done.layout.segments.frame segments ?_ (done.lastLsn.trans_le clock) rfl rfl
    rw [found]
    exact done.shardId
  · have buried : n'.engine.tombstones = sealedNode.engine.tombstones := by
      rw [tombstones, done.storage, done.tombstonesJson, done.tombstones,
        deletedIn_eq_empty done.silent, Finset.union_empty]
      exact consistent.captureDeletes.persisted
    have empty : sealedNode.engine.memtable.entries.get? x = none := done.layout.memtable x
    rw [← done.shown]
    simp only [LSMEngine.lookup, buried, segments, memtable, empty]

/-! ## Runs -/

/-- The flush in a cut: the node on which it begins, and the effects that are done. -/
def Node.flushIn (env : Env) (n : Node dim) : Cut dim → Except Halt (Node dim × ℕ)
  | .flush effects => .ok (n, effects)
  | .insertFlush rows effects => do
      (LSMEngine.ensureStarted n).mapError Halt.raised
      let appended := n.engine.wal.append env.crc32 dim OP_INSERT (batchIds rows) (batchVectors rows)
      let lsn ← appended.1.mapError Halt.raised
      let written := LSMEngine.applyInsert n appended.2 lsn rows
      if written.engine.memtable.shouldFlush then .ok (written, effects) else .error .notReached
  | .idle | .insert _ _ | .delete _ _ => .error .notReached

theorem cut_of_flushIn {cut : Cut dim} {begun : Node dim} {effects : ℕ}
    (flushes : n.flushIn env cut = .ok (begun, effects)) :
    n.cut env cut = LSMEngine.cutFlush env begun effects := by
  cases cut with
  | flush =>
      cases flushes
      rfl
  | insertFlush rows count =>
      obtain ⟨started, ensured, flushes⟩ := ok_of_bind flushes
      obtain ⟨lsn, appended, flushes⟩ := ok_of_bind flushes
      dsimp only at flushes
      split at flushes
      · next full =>
          cases flushes
          simp only [Node.cut, ensured, appended, bind, Except.bind, if_pos full]
      · cases flushes
  | idle => cases flushes
  | insert => cases flushes
  | delete => cases flushes

/-- The flush of a cut begins on a node in good order. -/
theorem layout_of_flushIn (layout : Layout env n old recent)
    (consistent : Consistent n (old ++ recent)) {cut : Cut dim} {mergeThreshold : ℕ}
    (int64 : (CrashOp.crash cut mergeThreshold).Int64) {begun : Node dim} {effects : ℕ}
    (flushes : n.flushIn env cut = .ok (begun, effects)) :
    ∃ recent', Layout env begun old recent' ∧ Consistent begun (old ++ recent') := by
  cases cut with
  | flush =>
      cases flushes
      exact ⟨recent, layout, consistent⟩
  | insertFlush rows count =>
      obtain ⟨-, -, flushes⟩ := ok_of_bind flushes
      obtain ⟨lsn, returned, flushes⟩ := ok_of_bind flushes
      obtain ⟨rfl, appended⟩ := appended_of_ok layout int64 (ok_of_mapError returned)
      dsimp only at flushes
      split at flushes
      · cases flushes
        refine ⟨_, layout.applyInsert appended.holds appended.opened appended.lastLsn, ?_⟩
        rw [← List.append_assoc]
        exact consistent.applyInsert _ rows
      · cases flushes
  | idle => cases flushes
  | insert => cases flushes
  | delete => cases flushes

/-- **A crash in a flush loses nothing and repeats nothing.**  Whatever calls a new engine
has completed: if a flush is cut after its segment is stored, a new engine starts with an
empty memtable and shows what the old one showed when the flush began. -/
theorem flush_crash_recovers {ops : List (Op dim)} (atLeastTwo : 2 ≤ config.mergeThreshold)
    (int64 : ∀ op ∈ ops, op.Int64) (keeps : ∀ op ∈ ops, op.Keeps config.mergeThreshold)
    (ran : Node.history env config ops = .ok n) {cut : Cut dim} {mergeThreshold : ℕ}
    (cutInt64 : (CrashOp.crash cut mergeThreshold).Int64) {begun left : Node dim} {effects : ℕ}
    (flushes : n.flushIn env cut = .ok (begun, effects)) (whole : effects ≠ 3)
    (crashed : n.cut env cut = .ok left) :
    ∃ n' before after, LSMEngine.start env (left.reborn mergeThreshold) = .ok n' ∧
      (∀ x, n'.engine.memtable.entries.get? x = none) ∧
      LSMEngine.exposed begun = .ok before ∧ LSMEngine.exposed n' = .ok after ∧
      ∀ row, row ∈ before ↔ row ∈ after := by
  obtain ⟨old, recent, layout, mirrors⟩ := lookup_of_history atLeastTwo int64 keeps ran
  obtain ⟨recent', begunLayout, consistent⟩ :=
    layout_of_flushIn layout mirrors.consistent cutInt64 flushes
  rw [cut_of_flushIn flushes] at crashed
  obtain ⟨n', started, memtable, wf, shown⟩ :=
    start_after_cutFlush begunLayout consistent crashed whole mergeThreshold
  have settled : n'.engine.Settled := by
    intro x e entry
    rw [memtable x] at entry
    cases entry
  obtain ⟨before, ranBefore, -, shownBefore⟩ :=
    exposed_of_settled begunLayout.segments begunLayout.settled
  obtain ⟨after, ranAfter, -, shownAfter⟩ := exposed_of_settled wf settled
  refine ⟨n', before, after, started, memtable, ranBefore, ranAfter, fun row => ?_⟩
  rw [shownBefore, shownAfter, shown]

/-- A delete-only flush, an overwrite and another delete stand in the log of the flush. -/
def deletesAndOverwrites : List (Op 1) :=
  [.insert [(7, zeroVec 1), (8, zeroVec 1)], .flush, .delete [7], .flush,
    .insert [(8, unitVec), (9, zeroVec 1)], .delete [9]]

theorem flush_crash_recovers_deletesAndOverwrites :
    ∃ n left n' before after,
      Node.history Env.counted ⟨0, 1, 10, 2⟩ deletesAndOverwrites = .ok n ∧
      n.cut Env.counted (.flush 1) = .ok left ∧
      LSMEngine.start Env.counted (left.reborn 2) = .ok n' ∧
      (∀ x, n'.engine.memtable.entries.get? x = none) ∧
      LSMEngine.exposed n = .ok before ∧ LSMEngine.exposed n' = .ok after ∧
      ∀ row, row ∈ before ↔ row ∈ after := by
  have evaluated : ((Node.history Env.counted ⟨0, 1, 10, 2⟩ deletesAndOverwrites).mapError
      Halt.raised >>= fun n => n.cut Env.counted (.flush 1)).isOk = true := by
    decide +kernel
  obtain ⟨left, crashed⟩ := exists_of_isOk evaluated
  obtain ⟨n, ran, crashed⟩ := ok_of_bind crashed
  have ran := ok_of_mapError ran
  have cutInt64 : (CrashOp.crash (.flush 1 : Cut 1) 2).Int64 := trivial
  obtain ⟨n', before, after, recovers⟩ := flush_crash_recovers (by decide) (by decide) (by decide)
    ran cutInt64 rfl (by decide) crashed
  exact ⟨n, left, n', before, after, ran, crashed, recovers⟩

end VecScale
