import VecScale.Lib.Runs
import VecScale.Storage.Wal

/-!
# The log as a list of records

An `AbstractLog` is what a log is for: it numbers the records that are appended to it,
and forgets those below a bound.  `append`, `truncate_before` and a reopening, over the
bytes of the log file and of its side file, do to the records that `recover` reads what
it does.

* `AbstractLog.foldl_step`: which records an abstract log has after some calls;
* `LogRun.refines_step`: each call does what the abstract log does;
* `log_refines`: so does every sequence of calls from an empty directory;
* `count_field_overflows`: a batch that is too long for the header of its record.
-/

namespace VecScale

variable {dim : ℕ}

/-- A call on an open log; a reopening closes it and opens a new one on its files. -/
inductive LogOp (dim : ℕ)
  | append (opType : ℕ) (rows : List (Row dim))
  | truncateBefore (lsn : ℕ)
  | reopen

namespace LogOp

/-- The fields of a record have room for the batch. -/
def Fits : LogOp dim → Prop
  | .append opType rows => opType < 2 ^ 8 ∧ rows.length < 2 ^ 32 ∧ ∀ row ∈ rows, IsInt64 row.1
  | _ => True

instance : (op : LogOp dim) → Decidable op.Fits
  | .append _ _ => inferInstanceAs (Decidable (_ ∧ _ ∧ _))
  | .truncateBefore _ | .reopen => inferInstanceAs (Decidable True)

/-- How many records a call appends. -/
def appends : LogOp dim → ℕ
  | .append _ _ => 1
  | _ => 0

end LogOp

/-- How many records some calls append. -/
def appendCount (ops : List (LogOp dim)) : ℕ := (ops.map LogOp.appends).sum

/-- The truncation bounds of some calls. -/
def bounds : List (LogOp dim) → List ℕ
  | [] => []
  | .truncateBefore lsn :: ops => lsn :: bounds ops
  | _ :: ops => bounds ops

/-- No truncation among the calls drops the LSN. -/
def Above (ops : List (LogOp dim)) (lsn : ℕ) : Prop := ∀ bound ∈ bounds ops, bound ≤ lsn

instance (ops : List (LogOp dim)) (lsn : ℕ) : Decidable (Above ops lsn) :=
  inferInstanceAs (Decidable (∀ bound ∈ bounds ops, bound ≤ lsn))

/-- The records that calls append to a log at `lsn`, each at or above every bound that is
applied after its append. -/
def kept : ℕ → List (LogOp dim) → List (WALRecord dim)
  | _, [] => []
  | lsn, .append opType rows :: ops =>
      if Above ops (lsn + 1) then ⟨lsn + 1, opType, rows⟩ :: kept (lsn + 1) ops
      else kept (lsn + 1) ops
  | lsn, .truncateBefore _ :: ops => kept lsn ops
  | lsn, .reopen :: ops => kept lsn ops

theorem above_nil (lsn : ℕ) : Above ([] : List (LogOp dim)) lsn := by
  intro bound member
  cases member

theorem above_truncateBefore {bound lsn : ℕ} {ops : List (LogOp dim)} :
    Above (.truncateBefore bound :: ops) lsn ↔ bound ≤ lsn ∧ Above ops lsn := by
  simp only [Above, bounds, List.mem_cons, forall_eq_or_imp]

/-! ## The abstract log -/

structure AbstractLog (dim : ℕ) where
  count : ℕ
  records : List (WALRecord dim)

namespace AbstractLog

def step (log : AbstractLog dim) : LogOp dim → AbstractLog dim
  | .append opType rows =>
      ⟨log.count + 1, log.records ++ [⟨log.count + 1, opType, rows⟩]⟩
  | .truncateBefore lsn => { log with records := log.records.filter fun record => lsn ≤ record.lsn }
  | .reopen => log

/-- **What an abstract log has** after some calls: of its own records and of the appended
ones, those at or above every later bound. -/
theorem foldl_step (ops : List (LogOp dim)) (log : AbstractLog dim) :
    ops.foldl step log = ⟨log.count + appendCount ops,
      log.records.filter (fun record => Above ops record.lsn) ++ kept log.count ops⟩ := by
  induction ops generalizing log with
  | nil =>
      have all : log.records.filter (fun record => Above ([] : List (LogOp dim)) record.lsn) =
          log.records :=
        List.filter_eq_self.mpr fun record _ => decide_eq_true (above_nil record.lsn)
      rw [all, kept, List.append_nil]
      rfl
  | cons op ops ih =>
      have counted : log.count + appendCount (op :: ops) =
          (log.step op).count + appendCount ops := by
        have split : appendCount (op :: ops) = op.appends + appendCount ops := rfl
        rw [split]
        cases op with
        | append opType rows => exact (Nat.add_assoc log.count 1 _).symm
        | truncateBefore bound => exact congrArg (log.count + ·) (Nat.zero_add _)
        | reopen => exact congrArg (log.count + ·) (Nat.zero_add _)
      rw [List.foldl_cons, ih, counted]
      congr 1
      cases op with
      | append opType rows =>
          rw [kept, step, List.filter_append, List.append_assoc]
          congr 1
          by_cases above : Above ops (log.count + 1)
          · simp only [List.filter_singleton, above, decide_true, cond_true, if_true,
              List.singleton_append]
          · simp only [List.filter_singleton, above, decide_false, cond_false, if_false,
              List.nil_append]
      | truncateBefore bound =>
          rw [kept, step, List.filter_filter]
          congr 1
          apply List.filter_congr
          intro record _
          rw [← Bool.decide_and, decide_eq_decide, above_truncateBefore, and_comm]
      | reopen => rfl

end AbstractLog

/-! ## The log in its files -/

/-- A log, and the LSNs that its appends returned. -/
structure LogRun where
  returned : List ℕ
  wal : WAL

namespace LogRun

section Checksum

variable (crc32 : Bytes → ℕ) (dim : ℕ)

/-- A log opened on an empty directory. -/
def start : LogRun := ⟨[], WAL.openFiles crc32 dim (WAL.init ⟨none, .absent⟩)⟩

def step (run : LogRun) : LogOp dim → Except PyError LogRun
  | .append opType rows => do
      let appended := run.wal.append crc32 dim opType (batchIds rows) (batchVectors rows)
      let lsn ← appended.1
      .ok ⟨run.returned ++ [lsn], appended.2⟩
  | .truncateBefore lsn => .ok { run with wal := run.wal.truncateBefore crc32 dim lsn }
  | .reopen => .ok { run with wal := WAL.openFiles crc32 dim (WAL.init run.wal.close.files) }

end Checksum

variable {crc32 : Bytes → ℕ}

/-- The files hold the records of the abstract log, and its clock is at their number. -/
structure Refines (crc32 : Bytes → ℕ) (run : LogRun) (log : AbstractLog dim) : Prop where
  holds : run.wal.Holds crc32 log.records
  opened : run.wal.isOpen = true
  lastLsn : run.wal.lastLsn = log.count
  returned : run.returned = List.range' 1 log.count

theorem refines_start (crc32 : Bytes → ℕ) (dim : ℕ) :
    Refines crc32 (start crc32 dim) (⟨0, []⟩ : AbstractLog dim) := by
  obtain ⟨holds, lastLsn⟩ := WAL.openFiles_empty crc32 dim
  exact ⟨holds, rfl, lastLsn, rfl⟩

/-- **The step lemma.**  A call does what the abstract log does. -/
theorem refines_step {run : LogRun} {log : AbstractLog dim} {op : LogOp dim}
    (refines : Refines crc32 run log) (fits : op.Fits) (room : log.count + op.appends < 2 ^ 64) :
    ∃ run', run.step crc32 dim op = .ok run' ∧ Refines crc32 run' (log.step op) := by
  rcases refines with ⟨holds, opened, lastLsn, returned⟩
  cases op with
  | append opType rows =>
      rcases fits with ⟨small, count, ids⟩
      have valid : (⟨run.wal.lastLsn + 1, opType, rows⟩ : WALRecord dim).Valid :=
        ⟨⟨lastLsn ▸ room, small, count⟩, ids⟩
      obtain ⟨wal, appended, holds', lastLsn', opened'⟩ :=
        WAL.append_of_holds holds opened (prepareRows_batch rows) valid
      refine ⟨⟨run.returned ++ [run.wal.lastLsn + 1], wal⟩, ?_, ?_, opened', ?_, ?_⟩
      · rw [step, appended]
        rfl
      · rw [lastLsn] at holds'
        exact holds'
      · rw [lastLsn', lastLsn]
        rfl
      · rw [returned, lastLsn, AbstractLog.step, List.range'_concat, Nat.one_mul, Nat.add_comm 1]
  | truncateBefore lsn =>
      exact ⟨_, rfl, WAL.truncateBefore_of_holds holds lsn, rfl, lastLsn, returned⟩
  | reopen =>
      obtain ⟨holds', lastLsn'⟩ := WAL.openFiles_of_holds holds
      exact ⟨_, rfl, holds', rfl, lastLsn'.trans lastLsn, returned⟩

/-- The run lemma. -/
theorem refines_run {ops : List (LogOp dim)} {run : LogRun} {log : AbstractLog dim}
    (refines : Refines crc32 run log) (fits : ∀ op ∈ ops, op.Fits)
    (room : log.count + appendCount ops < 2 ^ 64) :
    ∃ final, runAll (step crc32 dim) run ops = .ok final ∧
      Refines crc32 final (ops.foldl AbstractLog.step log) := by
  induction ops generalizing run log with
  | nil => exact ⟨run, rfl, refines⟩
  | cons op ops ih =>
      have split : appendCount (op :: ops) = op.appends + appendCount ops := rfl
      have counted : (log.step op).count = log.count + op.appends := by
        cases op <;> rfl
      obtain ⟨run', ran, refines'⟩ := refines_step refines (fits op List.mem_cons_self) (by omega)
      obtain ⟨final, rest, outcome⟩ := ih refines'
        (fun later member => fits later (List.mem_cons_of_mem _ member)) (by omega)
      exact ⟨final, (runAll_cons ran ops).trans rest, outcome⟩

end LogRun

/-- **The log refines an abstract one.**  From an empty directory, appends whose batches
fit into a record return 1, 2, 3 and so on, and `recover` reads the records they appended,
without those below a later truncation bound. -/
theorem log_refines {crc32 : Bytes → ℕ} {ops : List (LogOp dim)} (fits : ∀ op ∈ ops, op.Fits)
    (room : appendCount ops < 2 ^ 64) :
    ∃ final, runAll (LogRun.step crc32 dim) (LogRun.start crc32 dim) ops = .ok final ∧
      final.returned = List.range' 1 (appendCount ops) ∧
      final.wal.lastLsn = appendCount ops ∧
      final.wal.recover crc32 dim = kept 0 ops ∧
      ∀ lsn, final.wal.readFrom crc32 dim lsn = (kept 0 ops).filter fun record => lsn ≤ record.lsn := by
  obtain ⟨final, ran, refines⟩ :=
    LogRun.refines_run (LogRun.refines_start crc32 dim) fits (by rwa [Nat.zero_add])
  rw [AbstractLog.foldl_step, Nat.zero_add, List.filter_nil, List.nil_append] at refines
  have recovered := WAL.recover_of_holds refines.holds
  refine ⟨final, ran, refines.returned, refines.lastLsn, recovered, fun lsn => ?_⟩
  rw [WAL.readFrom, recovered]

/-- The whole log is truncated, and a log opened on its files goes on. -/
def truncatedAndReopened : List (LogOp 1) :=
  [.append OP_INSERT [(-3, zeroVec 1), (4, unitVec)], .append OP_DELETE [(4, zeroVec 1)],
    .truncateBefore 3, .reopen, .append 255 [(-1, unitVec)], .reopen]

theorem log_refines_truncatedAndReopened : ∃ final,
    runAll (LogRun.step zlibCrc32 1) (LogRun.start zlibCrc32 1) truncatedAndReopened = .ok final ∧
      final.returned = [1, 2, 3] ∧ final.wal.lastLsn = 3 ∧
      final.wal.recover zlibCrc32 1 = [⟨3, 255, [(-1, unitVec)]⟩] := by
  obtain ⟨final, ran, returned, lastLsn, recovered, -⟩ :=
    @log_refines 1 zlibCrc32 truncatedAndReopened (by decide) (by decide)
  exact ⟨final, ran, returned, lastLsn, recovered⟩

/-! ## Batches that do not fit -/

/-- An append whose record does not fit into its fields raises. -/
theorem LogRun.step_overflows {crc32 : Bytes → ℕ} {run : LogRun} (opened : run.wal.isOpen = true)
    {opType : ℕ} {rows : List (Row dim)}
    (overflows : ¬ (⟨run.wal.lastLsn + 1, opType, rows⟩ : WALRecord dim).Packs) :
    run.step crc32 dim (.append opType rows) = .error .structError := by
  have raised : (run.wal.append crc32 dim opType (batchIds rows) (batchVectors rows)).1 =
      .error .structError := by
    simp only [WAL.append, opened, if_true, prepareRows_batch, serializeRecord, if_neg overflows]
  rw [step, raised]
  rfl

/-- A batch of 2^32 ids does not fit into the count of a record, and the 2^64th record
does not fit into its LSN. -/
theorem count_field_overflows :
    runAll (LogRun.step zlibCrc32 1) (LogRun.start zlibCrc32 1)
        [.append OP_INSERT (List.replicate (2 ^ 32) (0, zeroVec 1))] = .error .structError ∧
      runAll (LogRun.step zlibCrc32 1) (LogRun.start zlibCrc32 1)
        (List.replicate (2 ^ 64) (.append OP_INSERT [])) = .error .structError := by
  constructor
  · have raised : (LogRun.start zlibCrc32 1).step zlibCrc32 1
        (.append OP_INSERT (List.replicate (2 ^ 32) (0, zeroVec 1))) = .error .structError := by
      apply LogRun.step_overflows rfl
      intro packs
      have small := packs.count
      rw [List.length_replicate] at small
      exact Nat.lt_irrefl _ small
    rw [runAll, List.foldlM_cons, raised]
    rfl
  · let append : LogOp 1 := .append OP_INSERT []
    have fits : append.Fits := by decide
    have count : appendCount (List.replicate (2 ^ 64 - 1) append) = 2 ^ 64 - 1 := by
      rw [appendCount, List.map_replicate, List.sum_replicate_nat]
      exact Nat.mul_one _
    obtain ⟨full, ran, refines⟩ := LogRun.refines_run (LogRun.refines_start zlibCrc32 1)
      (fun op member => (List.eq_of_mem_replicate member).symm ▸ fits)
      (by rw [count]; decide)
    have lastLsn : full.wal.lastLsn = 2 ^ 64 - 1 := by
      rw [refines.lastLsn, AbstractLog.foldl_step, count]
      exact Nat.zero_add _
    have raised : full.step zlibCrc32 1 append = .error .structError := by
      apply LogRun.step_overflows refines.opened
      intro packs
      have small := packs.lsn
      rw [lastLsn] at small
      exact Nat.lt_irrefl _ small
    have all : List.replicate (2 ^ 64) append = List.replicate (2 ^ 64 - 1) append ++ [append] :=
      List.replicate_succ'
    rw [all, runAll_append ran, runAll, List.foldlM_cons, raised]
    rfl

end VecScale
