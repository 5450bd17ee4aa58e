import VecScale.Storage.Crash

/-!
# The clock of an engine that crashes

The clock is the last LSN of the log.  Between the opening and the writing of the
side file, the log itself is all that remembers it.

* `Clocked`: the clock is ahead of every stored segment and of every memtable entry;
* `Clocked.run`, `Clocked.cut`: what a call and what a crash leave of it;
* `clock_ahead_iff`: the clock is ahead of the segments throughout a run exactly when
  every truncation that is cut while the side file is empty leaves a record behind.
-/

namespace VecScale

variable {dim : ℕ}

/-- A truncation that is cut between the opening and the writing of the side file
leaves a record in the log: one above the memtable, such as that of an empty batch. -/
def Node.KeepsRecord (env : Env) (n : Node dim) : CrashOp dim → Prop
  | .crash (.flush effects) _ => effects = 3 →
      ∃ record ∈ n.engine.wal.recover env.crc32 dim, n.engine.memtable.maxLsn < record.lsn
  | .crash (.insertFlush rows effects) _ => effects = 3 → rows = []
  | _ => True

instance Node.decidableKeepsRecord (env : Env) (n : Node dim) :
    (op : CrashOp dim) → Decidable (n.KeepsRecord env op)
  | .crash (.flush _) _ | .crash (.insertFlush _ _) _ => inferInstanceAs (Decidable (_ → _))
  | .call _ | .crash .idle _ | .crash (.insert _ _) _ | .crash (.delete _ _) _ =>
      inferInstanceAs (Decidable True)

/-- The clock is ahead of the segments: it covers every loaded one, a search at the
default snapshot plans on all of them, and what an append acknowledges is among the
records that the next start replays. -/
structure ClockAhead (env : Env) (n : Node dim) : Prop where
  covers : ∀ seg ∈ n.engine.segments, seg.snapshotId ≤ n.engine.wal.lastLsn
  visible : ∀ plan, LSMEngine.searchPlan n n.engine.wal.lastLsn = .ok plan →
    plan.segments = n.engine.segments
  replayed : ∀ opType ids vectors lsn wal, (∀ x ∈ ids, IsInt64 x) →
    n.engine.wal.append env.crc32 dim opType ids vectors = (.ok lsn, wal) →
    ∀ mergeThreshold n', LSMEngine.start env
      ((LSMEngine.onFiles n wal.files).reborn mergeThreshold) = .ok n' →
      ∃ record ∈ n'.replayed env, record.lsn = lsn

/-! ## Segments below a bound -/

/-- Every segment of a shard that has its metadata is at most `bound`. -/
def SharedStorage.AtMost (shardId bound : ℕ) (st : SharedStorage dim) : Prop :=
  ∀ path files segMeta, st.segmentDirs.get? path = some files → files.metaJson = some segMeta →
    segMeta.shardId = shardId → segMeta.snapshotId ≤ bound

namespace SharedStorage.AtMost

variable {shardId bound : ℕ} {st : SharedStorage dim}

theorem mono (atMost : st.AtMost shardId bound) {bound' : ℕ} (le : bound ≤ bound') :
    st.AtMost shardId bound' :=
  fun path files segMeta found described own => (atMost path files segMeta found described own).trans le

theorem frame (atMost : st.AtMost shardId bound) {st' : SharedStorage dim}
    (dirs : st'.segmentDirs = st.segmentDirs) : st'.AtMost shardId bound := by
  unfold SharedStorage.AtMost
  rw [dirs]
  exact atMost

theorem create (atMost : st.AtMost shardId bound) {snapshotId : ℕ} (le : snapshotId ≤ bound)
    (uuid : Uuid4) (rows : List (Row dim)) (nlist : ℕ) :
    (Segment.create uuid shardId snapshotId rows nlist st).2.AtMost shardId bound := by
  intro path files segMeta found described own
  simp only [Segment.create, Dict.get?_set] at found
  split at found
  · rw [Option.some.injEq] at found
    rw [← found, Option.some.injEq] at described
    rw [← described]
    exact le
  · exact atMost path files segMeta found described own

theorem rmtreeAll (atMost : st.AtMost shardId bound) (paths : List String) :
    (st.rmtreeAll paths).AtMost shardId bound := by
  intro path files segMeta found described own
  rw [SharedStorage.get?_rmtreeAll] at found
  split at found
  · cases found
  · exact atMost path files segMeta found described own

end SharedStorage.AtMost

theorem le_of_loaded {shardId bound : ℕ} {st : SharedStorage dim} {segments : List (Segment dim)}
    (atMost : st.AtMost shardId bound)
    (loaded : LSMEngine.loadExistingSegments shardId st = .ok segments) :
    ∀ seg ∈ segments, seg.snapshotId ≤ bound := by
  intro seg member
  obtain ⟨own, path, present, -, load⟩ := (mem_loadExistingSegments loaded seg).mp member
  rcases Dict.mem_keys_iff.mp present with ⟨files, here⟩
  have described := Segment.meta_of_load load
  rw [SharedStorage.files, here, Option.getD_some] at described
  exact atMost path files seg.segMeta here described own

/-! ## The invariant -/

/-- The clock is ahead of the stored segments and of the memtable, and in the files. -/
structure Clocked (env : Env) (n : Node dim) (records : List (WALRecord dim)) : Prop where
  log : WAL.LogAt env.crc32 n.engine.wal.files records n.engine.wal.lastLsn
  upToDate : n.engine.wal.files.lsnMeta = .holds n.engine.wal.lastLsn
  memtable : ∀ x e, n.engine.memtable.entries.get? x = some e → e.lsn ≤ n.engine.wal.lastLsn
  segments : ∀ seg ∈ n.engine.segments, seg.snapshotId ≤ n.engine.wal.lastLsn
  stored : n.storage.AtMost n.engine.shardId n.engine.wal.lastLsn

variable {env : Env} {n n' : Node dim} {records : List (WALRecord dim)}

theorem MemTable.maxLsn_le {mem : MemTable dim} {bound : ℕ}
    (all : ∀ x e, mem.entries.get? x = some e → e.lsn ≤ bound) : mem.maxLsn ≤ bound := by
  rcases Nat.eq_zero_or_pos mem.maxLsn with zero | positive
  · rw [zero]
    exact Nat.zero_le _
  · obtain ⟨x, e, found, lsn⟩ := MemTable.exists_of_maxLsn positive
    rw [← lsn]
    exact all x e found

/-- A start on files with a clock. -/
theorem Clocked.of_start (left : Node dim) {clock mergeThreshold : ℕ}
    (logAt : WAL.LogAt env.crc32 left.engine.wal.files records clock)
    (stored : left.storage.AtMost left.engine.shardId clock)
    (ran : LSMEngine.start env (left.reborn mergeThreshold) = .ok n') :
    Clocked env n' records ∧ n'.engine.wal.lastLsn = clock := by
  rcases logAt.openFiles with ⟨lastLsn, opened⟩
  obtain ⟨segments, loaded, done⟩ := ok_of_bind ran
  rw [Except.ok.injEq] at done
  subst done
  have clockEq : (LSMEngine.startedOn env (left.reborn mergeThreshold) segments).engine.wal.lastLsn =
      clock := lastLsn
  have entries := (foldl_replayRecord
    ((((WAL.init left.engine.wal.files).openFiles env.crc32 dim).recover env.crc32 dim).filter
      fun record => maxSnapshot segments < record.lsn)
    (MemTable.init left.engine.memtable.flushThreshold).clear left.storage.tombstonesJson.load).1
  have recovered : ((WAL.init left.engine.wal.files).openFiles env.crc32 dim).recover env.crc32 dim =
      records := opened.recover
  rw [recovered] at entries
  refine ⟨⟨?_, rfl, ?_, ?_, ?_⟩, clockEq⟩
  · rw [clockEq]
    exact opened
  · intro x e found
    rw [clockEq]
    have entry : replayEntry (records.filter fun r => maxSnapshot segments < r.lsn) x = some e := by
      have same := entries x
      rw [MemTable.get?_clear, Option.or_none] at same
      rw [← same, ← found, ← recovered]
      rfl
    obtain ⟨record, member, written⟩ := exists_of_replayEntry entry
    rw [lsn_of_recordEntry written]
    exact logAt.bounded record (List.mem_of_mem_filter member)
  · rw [clockEq]
    exact le_of_loaded stored loaded
  · rw [clockEq]
    exact stored

/-! ## Calls -/

namespace Clocked

/-- A node that has changed nothing that the clock is compared with. -/
theorem frame (clocked : Clocked env n records) (wal : n'.engine.wal = n.engine.wal)
    (memtable : n'.engine.memtable = n.engine.memtable)
    (segments : n'.engine.segments = n.engine.segments)
    (shardId : n'.engine.shardId = n.engine.shardId)
    (dirs : n'.storage.segmentDirs = n.storage.segmentDirs) : Clocked env n' records := by
  refine ⟨?_, ?_, ?_, ?_, ?_⟩
  · rw [wal]
    exact clocked.log
  · rw [wal]
    exact clocked.upToDate
  · rw [wal, memtable]
    exact clocked.memtable
  · rw [wal, segments]
    exact clocked.segments
  · rw [wal, shardId]
    exact clocked.stored.frame dirs

theorem captureDeletes (clocked : Clocked env n records) :
    Clocked env (LSMEngine.captureDeletes n) records := by
  have engine := LSMEngine.captureDeletes_engine n
  refine clocked.frame ?_ ?_ ?_ ?_ (LSMEngine.captureDeletes_dirs n).1 <;> rw [engine]

theorem clearMemtable (clocked : Clocked env n records) :
    Clocked env (LSMEngine.clearMemtable n) records := by
  refine ⟨clocked.log, clocked.upToDate, ?_, clocked.segments, clocked.stored⟩
  intro x e found
  cases found

theorem maxLsn_le (clocked : Clocked env n records) :
    n.engine.memtable.maxLsn ≤ n.engine.wal.lastLsn :=
  MemTable.maxLsn_le clocked.memtable

/-- The segments a merge makes of some of the segments are no younger than those. -/
theorem merge (clocked : Clocked env n records) {out : Option (Segment dim)}
    (ran : LSMEngine.merge env n = .ok (out, n')) : Clocked env n' records := by
  have left : ∀ seg ∈ n.engine.remaining, seg.snapshotId ≤ n.engine.wal.lastLsn :=
    fun seg member => clocked.segments seg (List.mem_of_mem_drop member)
  have age : maxSnapshot n.engine.toMerge ≤ n.engine.wal.lastLsn :=
    maxSnapshot_le fun seg member => clocked.segments seg (List.mem_of_mem_take member)
  unfold LSMEngine.merge at ran
  obtain ⟨-, -, ran⟩ := ok_of_bind ran
  split at ran
  · cases ran
    exact clocked
  obtain ⟨latest, -, ran⟩ := ok_of_bind ran
  dsimp only at ran
  split at ran
  · cases ran
    refine ⟨clocked.log, clocked.upToDate, clocked.memtable, left, ?_⟩
    apply SharedStorage.AtMost.rmtreeAll
    exact clocked.stored.frame rfl
  · cases ran
    refine ⟨clocked.log, clocked.upToDate, clocked.memtable, fun seg member => ?_, ?_⟩
    · rcases List.mem_cons.mp ((List.perm_insertionSort _ _).mem_iff.mp member) with rfl | old
      · exact age
      · exact left seg old
    · apply SharedStorage.AtMost.rmtreeAll
      exact (clocked.stored.create age env.uuid _ _).frame rfl

/-- The memtable becomes a segment of its own age. -/
theorem sealMemtable (clocked : Clocked env n records) :
    ∃ kept, Clocked env (LSMEngine.sealMemtable env n).2 kept := by
  have cut : ∃ kept, WAL.LogAt env.crc32 (n.engine.wal.cutTruncate env.crc32 dim
      (n.engine.memtable.maxLsn + 1) 4) (kept : List (WALRecord dim)) n.engine.wal.lastLsn :=
    clocked.log.cutTruncate clocked.upToDate fun impossible => by omega
  rcases cut with ⟨kept, logAt⟩
  refine ⟨kept, logAt, rfl, ?_, fun seg member => ?_, ?_⟩
  · intro x e found
    cases found
  · rcases List.mem_append.mp ((List.perm_insertionSort _ _).mem_iff.mp member) with old | new
    · exact clocked.segments seg old
    · rw [List.mem_singleton.mp new]
      exact clocked.maxLsn_le
  · exact (clocked.stored.create clocked.maxLsn_le env.uuid _ _).frame rfl

theorem flush (clocked : Clocked env n records) {out : Option (Segment dim)}
    (ran : LSMEngine.flush env n = .ok (out, n')) : ∃ kept, Clocked env n' kept := by
  have captured := clocked.captureDeletes
  unfold LSMEngine.flush at ran
  obtain ⟨-, -, ran⟩ := ok_of_bind ran
  dsimp only at ran
  split at ran
  · cases ran
    exact ⟨records, captured.clearMemtable⟩
  rcases captured.sealMemtable with ⟨kept, sealedMem⟩
  split at ran
  · obtain ⟨⟨merged, final⟩, mergeRan, ran⟩ := ok_of_bind ran
    cases ran
    exact ⟨kept, sealedMem.merge mergeRan⟩
  · cases ran
    exact ⟨kept, sealedMem⟩

/-- A write appends one record and gives its LSN to the entries it makes. -/
theorem write (clocked : Clocked env n records) {opType lsn : ℕ} {ids : List ℤ}
    {vectors : List (List UInt32)} {wal : WAL} (int64 : ∀ x ∈ ids, IsInt64 x)
    (returned : n.engine.wal.append env.crc32 dim opType ids vectors = (.ok lsn, wal))
    (walEq : n'.engine.wal = wal)
    (memtable : ∀ x e, n'.engine.memtable.entries.get? x = some e →
      e.lsn = lsn ∨ n.engine.memtable.entries.get? x = some e)
    (segments : n'.engine.segments = n.engine.segments)
    (shardId : n'.engine.shardId = n.engine.shardId)
    (dirs : n'.storage.segmentDirs = n.storage.segmentDirs) :
    ∃ rows, Clocked env n' (records ++ [⟨n.engine.wal.lastLsn + 1, opType, rows⟩]) := by
  obtain ⟨-, rfl, rows, prepared, packs, rfl⟩ := WAL.append_ok returned
  have valid : (⟨n.engine.wal.lastLsn + 1, opType, rows⟩ : WALRecord dim).Valid :=
    ⟨packs, prepareRows_int64 int64 prepared⟩
  have lastLsn : n'.engine.wal.lastLsn = n.engine.wal.lastLsn + 1 := by rw [walEq]
  refine ⟨rows, ?_, ?_, ?_, ?_, ?_⟩
  · rw [lastLsn, walEq]
    exact clocked.log.write valid rfl le_rfl
  · rw [walEq]
  · intro x e found
    rw [lastLsn]
    rcases memtable x e found with new | old
    · exact new.le
    · exact Nat.le_succ_of_le (clocked.memtable x e old)
  · rw [lastLsn, segments]
    exact fun seg member => Nat.le_succ_of_le (clocked.segments seg member)
  · rw [lastLsn, shardId]
    exact (clocked.stored.frame dirs).mono (Nat.le_succ _)

/-- The rows of an insert get the LSN of its record. -/
theorem applyInsert (clocked : Clocked env n records) {lsn : ℕ} {rows : List (Row dim)} {wal : WAL}
    (int64 : ∀ row ∈ rows, IsInt64 row.1)
    (returned : n.engine.wal.append env.crc32 dim OP_INSERT (batchIds rows) (batchVectors rows) =
      (.ok lsn, wal)) :
    ∃ rows', Clocked env (LSMEngine.applyInsert n wal lsn rows)
      (records ++ [⟨n.engine.wal.lastLsn + 1, OP_INSERT, rows'⟩]) := by
  have engine := LSMEngine.applyInsert_engine n wal lsn rows
  refine clocked.write (fun x member => ?_) returned ?_ ?_ ?_ ?_
    (LSMEngine.applyInsert_dirs n wal lsn rows).1
  · rcases List.mem_map.mp member with ⟨row, listed, rfl⟩
    exact int64 row listed
  · rw [engine]
  · intro x e found
    rw [engine] at found
    rw [MemTable.get?_insert] at found
    rcases Option.or_eq_some_iff.mp found with new | ⟨-, old⟩
    · rcases Option.map_eq_some_iff.mp new with ⟨v, -, rfl⟩
      exact Or.inl rfl
    · exact Or.inr old
  · rw [engine]
  · rw [engine]

theorem applyDelete (clocked : Clocked env n records) {lsn : ℕ} {ids : List ℤ} {wal : WAL}
    (int64 : ∀ x ∈ ids, IsInt64 x)
    (returned : n.engine.wal.append env.crc32 dim OP_DELETE ids
      (batchVectors (LSMEngine.deleteRows dim ids)) = (.ok lsn, wal)) :
    ∃ rows, Clocked env (LSMEngine.applyDelete n wal lsn ids)
      (records ++ [⟨n.engine.wal.lastLsn + 1, OP_DELETE, rows⟩]) := by
  refine clocked.write int64 returned rfl (fun x e found => ?_) rfl rfl rfl
  have entry : (n.engine.memtable.delete ids lsn).entries.get? x = some e := found
  rw [MemTable.get?_delete] at entry
  split at entry
  · cases entry
    exact Or.inl rfl
  · exact Or.inr entry

/-- **A call keeps the clock ahead.** -/
theorem run (clocked : Clocked env n records) {op : Op dim} (int64 : op.Int64)
    (ran : n.run env op = .ok n') : ∃ kept, Clocked env n' kept := by
  cases op with
  | insert rows =>
      obtain ⟨⟨result, final⟩, called, rfl⟩ := ok_of_map ran
      unfold LSMEngine.insert at called
      obtain ⟨-, -, called⟩ := ok_of_bind called
      obtain ⟨rows', prepared, called⟩ := ok_of_bind called
      rw [prepareRows_batch, Except.ok.injEq] at prepared
      subst prepared
      obtain ⟨lsn, acknowledged, called⟩ := ok_of_bind called
      obtain ⟨rows', written⟩ := clocked.applyInsert int64 (Prod.ext acknowledged rfl)
      dsimp only at called
      split at called
      · obtain ⟨flushed, flushRan, called⟩ := ok_of_bind called
        cases called
        exact written.flush flushRan
      · cases called
        exact ⟨_, written⟩
  | delete ids =>
      obtain ⟨⟨lsn, final⟩, called, rfl⟩ := ok_of_map ran
      unfold LSMEngine.delete at called
      obtain ⟨-, -, called⟩ := ok_of_bind called
      obtain ⟨lsn', acknowledged, called⟩ := ok_of_bind called
      cases called
      obtain ⟨rows, written⟩ := clocked.applyDelete int64 (Prod.ext acknowledged rfl)
      exact ⟨_, written⟩
  | flush =>
      obtain ⟨⟨out, final⟩, called, rfl⟩ := ok_of_map ran
      exact clocked.flush called
  | merge =>
      obtain ⟨⟨out, final⟩, called, rfl⟩ := ok_of_map ran
      exact ⟨records, clocked.merge called⟩
  | restart mergeThreshold =>
      obtain ⟨stopped, stopRan, startRan⟩ := ok_of_bind ran
      obtain ⟨⟨out, flushed⟩, flushRan, closed⟩ := ok_of_bind stopRan
      cases closed
      obtain ⟨kept, left⟩ := clocked.flush flushRan
      exact ⟨kept, (of_start _ left.log left.stored startRan).1⟩

/-! ## Crashes -/

/-- What a truncation that is cut leaves, if it leaves a record where it must. -/
theorem cutFlush (clocked : Clocked env n records) {effects : ℕ} {left : Node dim}
    (keeps : effects = 3 → ∃ record ∈ records, n.engine.memtable.maxLsn < record.lsn)
    (ran : LSMEngine.cutFlush env n effects = .ok left) :
    ∃ kept, WAL.LogAt env.crc32 left.engine.wal.files (kept : List (WALRecord dim))
        n.engine.wal.lastLsn ∧
      left.storage.AtMost left.engine.shardId n.engine.wal.lastLsn := by
  obtain ⟨-, shardId, files, storage⟩ := cutFlush_ok ran
  obtain ⟨kept, logAt⟩ := clocked.log.cutTruncate clocked.upToDate keeps
  refine ⟨kept, ?_, ?_⟩
  · rw [files]
    exact logAt
  · rw [shardId, storage]
    have captured : (LSMEngine.captureDeletes n).storage.AtMost n.engine.shardId
        n.engine.wal.lastLsn := clocked.stored.frame (LSMEngine.captureDeletes_dirs n).1
    exact captured.create clocked.maxLsn_le env.uuid _ _

/-- A batch is the newest entry of the memtable that it is written to, unless it is
empty. -/
theorem above_written_iff (clocked : Clocked env n records) {rows rows' : List (Row dim)} :
    (∃ record ∈ records ++ [⟨n.engine.wal.lastLsn + 1, OP_INSERT, rows'⟩],
        (n.engine.memtable.insert rows (n.engine.wal.lastLsn + 1)).maxLsn < record.lsn) ↔
      rows = [] := by
  constructor
  · rintro ⟨record, member, above⟩
    have bound : record.lsn ≤ n.engine.wal.lastLsn + 1 := by
      rcases List.mem_append.mp member with old | new
      · exact Nat.le_succ_of_le (clocked.log.bounded record old)
      · rw [List.mem_singleton.mp new]
    cases rows with
    | nil => rfl
    | cons row rows =>
        have listed : row.1 ∈ batchIds (row :: rows) := List.mem_cons_self
        cases written : Dict.lastWrite (row :: rows) row.1 with
        | none => exact absurd listed (Dict.lastWrite_eq_none_iff.mp written)
        | some v =>
            have entry : (n.engine.memtable.insert (row :: rows)
                (n.engine.wal.lastLsn + 1)).entries.get? row.1 =
                  some (.live v (n.engine.wal.lastLsn + 1)) := by
              rw [MemTable.get?_insert, written]
              rfl
            have newest := MemTable.lsn_le_maxLsn entry
            simp only [MemTableEntry.live] at newest
            omega
  · rintro rfl
    exact ⟨_, List.mem_append_right _ List.mem_cons_self, Nat.lt_succ_of_le clocked.maxLsn_le⟩

/-- An insert that is cut in its flush has been written before. -/
theorem insertFlush_ok (clocked : Clocked env n records) {rows : List (Row dim)} {effects : ℕ}
    {left : Node dim} (int64 : ∀ row ∈ rows, IsInt64 row.1)
    (ran : n.cut env (.insertFlush rows effects) = .ok left) :
    ∃ rows' written, Clocked env written
        (records ++ [⟨n.engine.wal.lastLsn + 1, OP_INSERT, rows'⟩]) ∧
      written.engine.memtable = n.engine.memtable.insert rows (n.engine.wal.lastLsn + 1) ∧
      LSMEngine.cutFlush env written effects = .ok left := by
  obtain ⟨-, -, ran⟩ := ok_of_bind ran
  obtain ⟨lsn, acknowledged, ran⟩ := ok_of_bind ran
  have returned : n.engine.wal.append env.crc32 dim OP_INSERT (batchIds rows) (batchVectors rows) =
      (.ok lsn, (n.engine.wal.append env.crc32 dim OP_INSERT (batchIds rows)
        (batchVectors rows)).2) := Prod.ext (ok_of_mapError acknowledged) rfl
  obtain ⟨rows', written⟩ := clocked.applyInsert int64 returned
  obtain ⟨-, rfl, -⟩ := WAL.append_ok returned
  dsimp only at ran
  split at ran
  · refine ⟨rows', _, written, ?_, ran⟩
    rw [LSMEngine.applyInsert_engine]
  · cases ran

/-- **A crash leaves the clock ahead**, if it leaves a record where it must. -/
theorem cut (clocked : Clocked env n records) {cut : Cut dim} {mergeThreshold : ℕ} {left : Node dim}
    (int64 : (CrashOp.crash cut mergeThreshold).Int64)
    (keeps : n.KeepsRecord env (.crash cut mergeThreshold)) (ran : n.cut env cut = .ok left) :
    ∃ kept clock, WAL.LogAt env.crc32 left.engine.wal.files (kept : List (WALRecord dim)) clock ∧
      left.storage.AtMost left.engine.shardId clock := by
  have cutWrite : ∀ {opType : ℕ} {rows : List (Row dim)} {effects : ℕ},
      (∀ row ∈ rows, IsInt64 row.1) → LSMEngine.cutWrite env n opType rows effects = .ok left →
      ∃ kept clock, WAL.LogAt env.crc32 left.engine.wal.files (kept : List (WALRecord dim)) clock ∧
        left.storage.AtMost left.engine.shardId clock := by
    intro opType rows effects int64 ran
    obtain ⟨-, -, ran⟩ := ok_of_bind ran
    obtain ⟨files, appended, ran⟩ := ok_of_bind ran
    cases ran
    have ids : ∀ x ∈ batchIds rows, IsInt64 x := by
      intro x member
      rcases List.mem_map.mp member with ⟨row, listed, rfl⟩
      exact int64 row listed
    obtain ⟨kept, clock, logAt, le⟩ := clocked.log.cutAppend ids (ok_of_mapError appended)
    exact ⟨kept, clock, logAt, clocked.stored.mono le⟩
  cases cut with
  | idle =>
      cases ran
      exact ⟨records, _, clocked.log, clocked.stored⟩
  | insert rows effects => exact cutWrite int64 ran
  | delete ids effects =>
      refine cutWrite (fun row member => ?_) ran
      rcases List.mem_map.mp member with ⟨x, listed, rfl⟩
      exact int64 x listed
  | flush effects =>
      have keeps' : effects = 3 → ∃ record ∈ records, n.engine.memtable.maxLsn < record.lsn := by
        intro here
        rw [← clocked.log.recover]
        exact keeps here
      obtain ⟨kept, logAt, stored⟩ := clocked.cutFlush keeps' ran
      exact ⟨kept, _, logAt, stored⟩
  | insertFlush rows effects =>
      obtain ⟨rows', written, clocked', memtable, cutRan⟩ := clocked.insertFlush_ok int64 ran
      have keeps' : effects = 3 → ∃ record ∈ records ++
          [⟨n.engine.wal.lastLsn + 1, OP_INSERT, rows'⟩],
          written.engine.memtable.maxLsn < record.lsn := by
        rw [memtable]
        exact fun here => clocked.above_written_iff.mpr (keeps here)
      obtain ⟨kept, logAt, stored⟩ := clocked'.cutFlush keeps' cutRan
      exact ⟨kept, _, logAt, stored⟩

/-- A truncation that is cut while the side file is empty, and leaves no record, sets
the clock back behind the segment that was just written. -/
theorem behind_of_cutFlush (clocked : Clocked env n records) {left : Node dim} {mergeThreshold : ℕ}
    (older : ∀ record ∈ records, record.lsn ≤ n.engine.memtable.maxLsn)
    (ran : LSMEngine.cutFlush env n 3 = .ok left)
    (started : LSMEngine.start env (left.reborn mergeThreshold) = .ok n') : ¬ ClockAhead env n' := by
  obtain ⟨positive, shardId, files, storage⟩ := cutFlush_ok ran
  have zero : n'.engine.wal.lastLsn = 0 := by
    obtain ⟨segments, -, done⟩ := ok_of_bind started
    rw [Except.ok.injEq] at done
    have back := clocked.log.starts_over fun record member => Nat.lt_succ_of_le (older record member)
    rw [← files] at back
    rw [← done]
    exact back
  have loaded := loaded_of_start started
  rw [storage, shardId] at loaded
  obtain ⟨seg, member, age⟩ := mem_loaded_of_create loaded
  intro ahead
  have bound := ahead.covers seg member
  rw [zero, age] at bound
  omega

end Clocked

/-! ## Runs -/

/-- An engine that is ahead has a clock that is. -/
theorem Clocked.ahead (clocked : Clocked env n records) : ClockAhead env n := by
  refine ⟨clocked.segments, ?_, ?_⟩
  · intro plan planned
    obtain ⟨latest, -, done⟩ := ok_of_bind planned
    cases done
    exact List.filter_eq_self.mpr fun seg member => decide_eq_true (clocked.segments seg member)
  · intro opType ids vectors lsn wal int64 returned mergeThreshold n' started
    obtain ⟨-, rfl, rows, prepared, packs, rfl⟩ := WAL.append_ok returned
    have valid : (⟨n.engine.wal.lastLsn + 1, opType, rows⟩ : WALRecord dim).Valid :=
      ⟨packs, prepareRows_int64 int64 prepared⟩
    have logAt : WAL.LogAt env.crc32 ⟨some (n.engine.wal.files.log.getD [] ++
        recordBytes env.crc32 ⟨n.engine.wal.lastLsn + 1, opType, rows⟩),
        .holds (n.engine.wal.lastLsn + 1)⟩ (records ++ [⟨n.engine.wal.lastLsn + 1, opType, rows⟩])
        (n.engine.wal.lastLsn + 1) := clocked.log.write valid rfl le_rfl
    obtain ⟨clocked', -⟩ := Clocked.of_start (LSMEngine.onFiles n _) logAt
      (clocked.stored.mono (Nat.le_succ _)) started
    have loaded := loaded_of_start started
    have older := le_of_loaded clocked.stored loaded
    refine ⟨⟨n.engine.wal.lastLsn + 1, opType, rows⟩, ?_, rfl⟩
    rw [Node.replayed, clocked'.log.recover, List.mem_filter, decide_eq_true_eq]
    exact ⟨List.mem_append_right _ List.mem_cons_self, Nat.lt_succ_of_le (maxSnapshot_le older)⟩

/-- One step, which keeps the clock ahead exactly if it leaves a record where it must. -/
theorem Clocked.crashStep (clocked : Clocked env n records) {op : CrashOp dim} (int64 : op.Int64)
    (ran : n.crashStep env op = .ok n') :
    (ClockAhead env n' ↔ n.KeepsRecord env op) ∧
      (n.KeepsRecord env op → ∃ kept, Clocked env n' kept) := by
  have exact_of : (n.KeepsRecord env op → ∃ kept, Clocked env n' kept) →
      (¬ n.KeepsRecord env op → ¬ ClockAhead env n') →
      (ClockAhead env n' ↔ n.KeepsRecord env op) ∧
        (n.KeepsRecord env op → ∃ kept, Clocked env n' kept) := by
    intro keeps loses
    refine ⟨⟨not_imp_not.mp loses, fun kept => ?_⟩, keeps⟩
    obtain ⟨records', clocked'⟩ := keeps kept
    exact clocked'.ahead
  cases op with
  | call op =>
      have kept := clocked.run int64 (ok_of_mapError ran)
      exact exact_of (fun _ => kept) fun lost => absurd trivial lost
  | crash cut mergeThreshold =>
      obtain ⟨left, cutRan, started⟩ := ok_of_bind ran
      have started := ok_of_mapError started
      refine exact_of (fun keeps => ?_) fun lost => ?_
      · obtain ⟨kept, clock, logAt, stored⟩ := clocked.cut int64 keeps cutRan
        exact ⟨kept, (of_start left logAt stored started).1⟩
      · cases cut with
        | idle | insert | delete => exact absurd trivial lost
        | flush effects =>
            rcases Classical.not_imp.mp lost with ⟨rfl, older⟩
            refine clocked.behind_of_cutFlush (fun record member => ?_) cutRan started
            rw [← clocked.log.recover] at member
            exact Nat.le_of_not_lt fun above => older ⟨record, member, above⟩
        | insertFlush rows effects =>
            rcases Classical.not_imp.mp lost with ⟨rfl, nonempty⟩
            obtain ⟨rows', written, clocked', memtable, flushRan⟩ :=
              clocked.insertFlush_ok int64 cutRan
            refine clocked'.behind_of_cutFlush (fun record member => ?_) flushRan started
            rw [memtable]
            refine Nat.le_of_not_lt fun above => nonempty ?_
            exact clocked.above_written_iff.mp ⟨record, member, above⟩

theorem Clocked.boot {config : EngineConfig} (booted : Node.boot env config = .ok n) :
    Clocked env n [] := by
  have empty : (SharedStorage.empty : SharedStorage dim).AtMost config.shardId 0 := by
    intro path files segMeta found
    cases found
  exact (of_start ⟨LSMEngine.new config ⟨none, .absent⟩, SharedStorage.empty⟩
    (WAL.LogAt.empty env.crc32 dim) empty booted).1

/-- **When the clock stays ahead of the segments.**  It does throughout a run exactly
when every truncation that a crash cuts while the side file is empty leaves a record
in the log. -/
theorem clock_ahead_iff {config : EngineConfig} {ops : List (CrashOp dim)} {first final : Node dim}
    (booted : Node.boot env config = .ok first) (int64 : ∀ op ∈ ops, op.Int64)
    (ran : runAll (Node.crashStep env) first ops = .ok final) :
    Throughout (Node.crashStep env) (ClockAhead env) first ops ↔
      StepsMeet (Node.crashStep env) (Node.KeepsRecord env) first ops := by
  rw [throughout_iff_eachStep]
  apply eachStep_iff_stepsMeet (I := fun n => ∃ records, Clocked env n records)
    (Q := CrashOp.Int64) _ ⟨[], Clocked.boot booted⟩ int64 ran
  rintro n op n' ⟨records, clocked⟩ int64 ran
  exact clocked.crashStep int64 ran

/-! ## A flush that is cut -/

/-- A row is flushed, and the flush is cut when it has opened the side file. -/
def cutSideFile : List (CrashOp 1) :=
  [.call (.insert [(7, zeroVec 1)]), .crash (.flush 3) 2]

/-- Another row is then inserted, and the process dies. -/
def afterCutSideFile : List (CrashOp 1) := [.call (.insert [(8, zeroVec 1)]), .crash .idle 2]

/-- The engine that starts after the cut is at 0: a search does not see the segment,
and the row that is inserted next is lost. -/
theorem cut_side_file_sets_clock_back :
    ∃ first crashed final, Node.boot Env.counted ⟨0, 1, 10, 2⟩ = .ok first ∧
      runAll (Node.crashStep Env.counted) first cutSideFile = .ok crashed ∧
      ¬ ClockAhead Env.counted crashed ∧
      crashed.engine.wal.lastLsn = 0 ∧ crashed.engine.segments.map Segment.snapshotId = [1] ∧
      LSMEngine.exposed crashed = .ok [] ∧
      runAll (Node.crashStep Env.counted) crashed afterCutSideFile = .ok final ∧
      LSMEngine.exposed final = .ok [(7, zeroVec 1)] := by
  have evaluated : (do
      let first ← (Node.boot Env.counted ⟨0, 1, 10, 2⟩).mapError Halt.raised
      let crashed ← runAll (Node.crashStep Env.counted) first cutSideFile
      let final ← runAll (Node.crashStep Env.counted) crashed afterCutSideFile
      .ok (decide (crashed.engine.wal.lastLsn = 0 ∧
        crashed.engine.segments.map Segment.snapshotId = [1] ∧
        LSMEngine.exposed crashed = .ok [] ∧ LSMEngine.exposed final = .ok [(7, zeroVec 1)]))) =
      Except.ok true := by
    decide +kernel
  obtain ⟨first, booted, evaluated⟩ := ok_of_bind evaluated
  obtain ⟨crashed, crash, evaluated⟩ := ok_of_bind evaluated
  obtain ⟨final, later, evaluated⟩ := ok_of_bind evaluated
  rw [Except.ok.injEq, decide_eq_true_eq] at evaluated
  rcases evaluated with ⟨zero, ages, unseen, lost⟩
  refine ⟨first, crashed, final, ok_of_mapError booted, crash, fun ahead => ?_, zero, ages, unseen,
    later, lost⟩
  have listed : 1 ∈ crashed.engine.segments.map Segment.snapshotId := by simp [ages]
  rcases List.mem_map.mp listed with ⟨seg, member, age⟩
  have bound := ahead.covers seg member
  omega

/-- The same flush behind an empty batch, whose record stays in the log. -/
def cutBehindEmptyBatch : List (CrashOp 1) :=
  [.call (.insert [(7, zeroVec 1)]), .call (.insert []), .crash (.flush 3) 2]

theorem clock_ahead_iff_empty_batch :
    ∃ first : Node 1, Node.boot Env.counted ⟨0, 1, 10, 2⟩ = .ok first ∧
      Throughout (Node.crashStep Env.counted) (ClockAhead Env.counted) first cutBehindEmptyBatch := by
  have evaluated : (do
      let first ← (Node.boot Env.counted ⟨0, 1, 10, 2⟩).mapError Halt.raised
      let _ ← runAll (Node.crashStep Env.counted) first cutBehindEmptyBatch
      .ok (decide (StepsMeet (Node.crashStep Env.counted) (Node.KeepsRecord Env.counted) first
        cutBehindEmptyBatch))) = Except.ok true := by
    decide +kernel
  obtain ⟨first, booted, evaluated⟩ := ok_of_bind evaluated
  obtain ⟨final, ran, evaluated⟩ := ok_of_bind evaluated
  rw [Except.ok.injEq, decide_eq_true_eq] at evaluated
  have int64 : ∀ op ∈ cutBehindEmptyBatch, op.Int64 := by decide
  exact ⟨first, ok_of_mapError booted,
    (clock_ahead_iff (ok_of_mapError booted) int64 ran).mpr evaluated⟩

end VecScale
