import VecScale.Storage.WalRecord

/-!
# The write-ahead log object

`WAL` over its two files, `wal.log` and `wal.log.meta`.  A mutating call returns
its result with the log after it, also when it raises: `append` counts its LSN
up before it serializes.

* `recover_openFiles`: opening a log changes nothing that recovery reads;
* `recoverWithin_eq_ok_iff`: recovery raises where a header announces too much;
* `appendAll_ok`: calls that all return have appended one record each,
  numbered from the LSN the log was at.
-/

namespace VecScale

/-- `wal.log.meta`; it is empty between its truncating open and its write. -/
inductive MetaFile
  | absent
  | empty
  | holds (lsn : ℕ)
  deriving DecidableEq

/-- `WAL._read_meta_lsn`. -/
def MetaFile.read : MetaFile → ℕ
  | .absent => 0
  | .empty => 0
  | .holds lsn => lsn

/-- The files of one log. -/
structure WalFiles where
  log : Option Bytes
  lsnMeta : MetaFile
  deriving DecidableEq

structure WAL where
  files : WalFiles
  lastLsn : ℕ
  isOpen : Bool
  deriving DecidableEq

namespace WAL

/-- A new `WAL` object over existing files. -/
def init (files : WalFiles) : WAL := ⟨files, 0, false⟩

/-- `_write_meta_lsn`. -/
def writeMetaLsn (w : WAL) : WAL :=
  { w with files := { w.files with lsnMeta := .holds w.lastLsn } }

def close (w : WAL) : WAL := { w with isOpen := false }

section Checksum

variable (crc32 : Bytes → ℕ) (dim : ℕ)

/-- What `recover` returns when all its reads do. -/
def recover (w : WAL) : List (WALRecord dim) :=
  match w.files.log with
  | none => []
  | some bytes => (recordCodec crc32 dim).scan bytes

/-- `recover`, where one read is given at most `memory` bytes. -/
def recoverWithin (memory : ℕ) (w : WAL) : Except PyError (List (WALRecord dim)) :=
  match w.files.log with
  | none => .ok []
  | some bytes => (recordCodec crc32 dim).scanRaising (readError dim memory) bytes

/-- Whatever whole records stand before a header, the bytes that it announces can be read. -/
def ReadsWithin (memory : ℕ) (bytes : Bytes) : Prop :=
  ∀ (records : List (WALRecord dim)) (rest : Bytes), (∀ record ∈ records, record.Valid) →
    bytes = records.flatMap (recordBytes crc32) ++ rest → 13 ≤ rest.length →
      announced dim rest < 2 ^ 63 ∧ announced dim rest ≤ memory

/-- `records[-1].lsn if records else 0`. -/
def recoveredLsn {dim : ℕ} (records : List (WALRecord dim)) : ℕ :=
  match records.getLast? with
  | none => 0
  | some record => record.lsn

/-- `WAL.open`: the log file is created when it is missing. -/
def openFiles (w : WAL) : WAL :=
  writeMetaLsn
    { files := { w.files with log := some (w.files.log.getD []) }
      lastLsn := max w.files.lsnMeta.read (recoveredLsn (recover crc32 dim w))
      isOpen := true }

def append (w : WAL) (opType : ℕ) (ids : List ℤ) (vectors : List (List UInt32)) :
    Except PyError ℕ × WAL :=
  if w.isOpen then
    match prepareRows dim ids vectors with
    | .error e => (.error e, w)
    | .ok rows =>
        let counted := { w with lastLsn := w.lastLsn + 1 }
        match serializeRecord crc32 (⟨counted.lastLsn, opType, rows⟩ : WALRecord dim) with
        | .error e => (.error e, counted)
        | .ok payload =>
            (.ok counted.lastLsn,
              writeMetaLsn { counted with
                files := { counted.files with
                  log := some (counted.files.log.getD [] ++ payload) } })
  else (.error (.runtimeError "WAL is not open."), w)

def readFrom (w : WAL) (lsn : ℕ) : List (WALRecord dim) :=
  (recover crc32 dim w).filter fun record => lsn ≤ record.lsn

/-- `truncate_before`: the kept records are written to a new file that replaces
the log, and the log is left open. -/
def truncateBefore (w : WAL) (lsn : ℕ) : WAL :=
  let records := (recover crc32 dim w).filter fun record => lsn ≤ record.lsn
  { writeMetaLsn { w with
      files := { w.files with log := some ((recordCodec crc32 dim).encodeAll records) } } with
    isOpen := true }

/-! ## Runs of appends -/

/-- The arguments of one `append`. -/
structure AppendCall where
  opType : ℕ
  ids : List ℤ
  vectors : List (List UInt32)

/-- Append call after call, up to the first one that raises. -/
def appendAll : WAL → List AppendCall → Except PyError (List ℕ × WAL)
  | w, [] => .ok ([], w)
  | w, call :: calls =>
      match append crc32 dim w call.opType call.ids call.vectors with
      | (.error e, _) => .error e
      | (.ok lsn, w') => (appendAll w' calls).map fun done => (lsn :: done.1, done.2)

/-- The record an append with a returned LSN stands for. -/
def AppendCall.record (call : AppendCall) (lsn : ℕ) : Except PyError (WALRecord dim) :=
  (prepareRows dim call.ids call.vectors).map fun rows => ⟨lsn, call.opType, rows⟩

/-- The records of the calls that returned `lsns`. -/
def acknowledged : List ℕ → List AppendCall → List (WALRecord dim)
  | lsn :: lsns, call :: calls =>
      match call.record dim lsn with
      | .error _ => acknowledged lsns calls
      | .ok record => record :: acknowledged lsns calls
  | _, _ => []

end Checksum

variable {crc32 : Bytes → ℕ} {dim : ℕ}

theorem recover_eq_scan (w : WAL) :
    recover crc32 dim w = (recordCodec crc32 dim).scan (w.files.log.getD []) := by
  unfold recover
  cases w.files.log with
  | none => exact ((recordCodec crc32 dim).scan_eq []).symm
  | some bytes => rfl

/-- What can be read is read: recovery returns all that it would find, or raises. -/
theorem recoverWithin_eq_ok_iff {memory : ℕ} {w : WAL} {records : List (WALRecord dim)} :
    recoverWithin crc32 dim memory w = .ok records ↔
      recover crc32 dim w = records ∧ ReadsWithin crc32 dim memory (w.files.log.getD []) := by
  have clear : ∀ bytes, (recordCodec crc32 dim).Clear (readError dim memory) bytes ↔
      ReadsWithin crc32 dim memory bytes := by
    intro bytes
    simp only [FrameCodec.Clear, readError_eq_none_iff]
    rfl
  cases log : w.files.log with
  | none =>
      have within : ReadsWithin crc32 dim memory [] := by
        intro whole rest _ written header
        have none := congrArg List.length written
        rw [List.length_append, List.length_nil] at none
        omega
      rw [recoverWithin, recover, log, Except.ok.injEq, Option.getD_none, and_iff_left within]
  | some bytes =>
      rw [← clear, Option.getD_some, recoverWithin, recover, log]
      exact (recordCodec crc32 dim).scanRaising_eq_ok_iff

/-- Opening changes nothing that recovery reads. -/
theorem recover_openFiles (w : WAL) :
    recover crc32 dim (openFiles crc32 dim w) = recover crc32 dim w := by
  rw [recover_eq_scan, recover_eq_scan]
  rfl

/-- What an append that returns did. -/
theorem append_ok {w w' : WAL} {opType : ℕ} {ids : List ℤ} {vectors : List (List UInt32)} {lsn : ℕ}
    (returned : append crc32 dim w opType ids vectors = (.ok lsn, w')) :
    w.isOpen = true ∧ lsn = w.lastLsn + 1 ∧ ∃ rows, prepareRows dim ids vectors = .ok rows ∧
      (⟨lsn, opType, rows⟩ : WALRecord dim).Packs ∧
      w' = { files := ⟨some (w.files.log.getD [] ++ recordBytes crc32 ⟨lsn, opType, rows⟩),
               .holds lsn⟩, lastLsn := lsn, isOpen := true } := by
  unfold append at returned
  split at returned
  case isFalse => cases returned
  next opened =>
  split at returned
  case h_1 => cases returned
  next rows prepared =>
  dsimp only [serializeRecord] at returned
  by_cases packs : (⟨w.lastLsn + 1, opType, rows⟩ : WALRecord dim).Packs
  · simp only [if_pos packs, Prod.mk.injEq, Except.ok.injEq] at returned
    rcases returned with ⟨rfl, rfl⟩
    exact ⟨opened, rfl, rows, prepared, packs, by rw [writeMetaLsn, opened]⟩
  · simp only [if_neg packs] at returned
    cases returned

/-- Calls that all return append one record each, numbered consecutively. -/
theorem appendAll_ok {calls : List AppendCall} {w w' : WAL} {lsns : List ℕ}
    (int64 : ∀ call ∈ calls, ∀ id ∈ call.ids, IsInt64 id)
    (returned : appendAll crc32 dim w calls = .ok (lsns, w')) :
    lsns = List.range' (w.lastLsn + 1) calls.length ∧
      (∀ record ∈ acknowledged dim lsns calls, record.Valid) ∧
      (acknowledged dim lsns calls).length = calls.length ∧
      w'.files.log.getD [] =
        w.files.log.getD [] ++ (recordCodec crc32 dim).encodeAll (acknowledged dim lsns calls) := by
  induction calls generalizing w lsns with
  | nil =>
      cases returned
      simp [acknowledged, FrameCodec.encodeAll]
  | cons call calls ih =>
      simp only [appendAll] at returned
      split at returned
      case h_1 => cases returned
      next lsn middle appended =>
      obtain ⟨-, rfl, rows, prepared, packs, rfl⟩ := append_ok appended
      cases later : appendAll crc32 dim _ calls with
      | error e => rw [later] at returned; cases returned
      | ok done =>
          rcases done with ⟨rest, final⟩
          rw [later] at returned
          cases returned
          obtain ⟨restLsns, restValid, restLength, restLog⟩ :=
            ih (fun call member => int64 call (List.mem_cons_of_mem _ member)) later
          have here : acknowledged dim ((w.lastLsn + 1) :: rest) (call :: calls) =
              ⟨w.lastLsn + 1, call.opType, rows⟩ :: acknowledged dim rest calls := by
            rw [acknowledged, AppendCall.record, prepared]
            rfl
          have ids := prepareRows_int64 (int64 call List.mem_cons_self) prepared
          refine ⟨?_, ?_, ?_, ?_⟩
          · rw [restLsns]
            rfl
          · rw [here]
            rintro record (_ | ⟨_, member⟩)
            · exact ⟨packs, ids⟩
            · exact restValid record member
          · rw [here, List.length_cons, restLength, List.length_cons]
          · rw [restLog, here]
            simp [FrameCodec.encodeAll, recordCodec]

/-! ## A log in good order -/

/-- The log file is the encoding of `records`, and the meta file is up to date. -/
structure Holds (crc32 : Bytes → ℕ) (w : WAL) (records : List (WALRecord dim)) : Prop where
  log : w.files.log = some ((recordCodec crc32 dim).encodeAll records)
  valid : ∀ record ∈ records, record.Valid
  lsnMeta : w.files.lsnMeta = .holds w.lastLsn
  bounded : ∀ record ∈ records, record.lsn ≤ w.lastLsn

section Holds

variable {w : WAL} {records : List (WALRecord dim)}

theorem recover_of_holds (holds : w.Holds crc32 records) : recover crc32 dim w = records := by
  rw [recover_eq_scan, holds.log, Option.getD_some]
  exact ((recordCodec crc32 dim).scan_eq_iff holds.valid).mpr
    ⟨[], by simp, (recordCodec crc32 dim).next_nil⟩

/-- An append to an open log adds its record and returns the next LSN. -/
theorem append_of_holds (holds : w.Holds crc32 records) (opened : w.isOpen = true) {opType : ℕ}
    {ids : List ℤ} {vectors : List (List UInt32)} {rows : List (Row dim)}
    (prepared : prepareRows dim ids vectors = .ok rows)
    (valid : (⟨w.lastLsn + 1, opType, rows⟩ : WALRecord dim).Valid) :
    ∃ w', append crc32 dim w opType ids vectors = (.ok (w.lastLsn + 1), w') ∧
      w'.Holds crc32 (records ++ [⟨w.lastLsn + 1, opType, rows⟩]) ∧
      w'.lastLsn = w.lastLsn + 1 ∧ w'.isOpen = true := by
  let bytes := w.files.log.getD [] ++ recordBytes crc32 ⟨w.lastLsn + 1, opType, rows⟩
  refine ⟨⟨⟨some bytes, .holds (w.lastLsn + 1)⟩, w.lastLsn + 1, true⟩, ?_, ⟨?_, ?_, rfl, ?_⟩, rfl, rfl⟩
  · simp only [append, opened, if_true, prepared, serializeRecord, if_pos valid.toPacks]
    rfl
  · simp [bytes, holds.log, FrameCodec.encodeAll, recordCodec]
  · intro record member
    rcases List.mem_append.mp member with old | new
    · exact holds.valid record old
    · rw [List.mem_singleton.mp new]
      exact valid
  · intro record member
    rcases List.mem_append.mp member with old | new
    · exact Nat.le_succ_of_le (holds.bounded record old)
    · rw [List.mem_singleton.mp new]

theorem truncateBefore_of_holds (holds : w.Holds crc32 records) (lsn : ℕ) :
    (truncateBefore crc32 dim w lsn).Holds crc32 (records.filter fun r => lsn ≤ r.lsn) := by
  refine ⟨?_, ?_, rfl, ?_⟩
  · rw [truncateBefore, recover_of_holds holds]
    rfl
  · exact fun record member => holds.valid record (List.mem_of_mem_filter member)
  · exact fun record member => holds.bounded record (List.mem_of_mem_filter member)

/-- A new log object on the files continues where the old one was. -/
theorem openFiles_of_holds (holds : w.Holds crc32 records) :
    (openFiles crc32 dim (init w.files)).Holds crc32 records ∧
      (openFiles crc32 dim (init w.files)).lastLsn = w.lastLsn := by
  have same : recover crc32 dim (init w.files) = recover crc32 dim w := rfl
  have recovered : recoveredLsn records ≤ w.lastLsn := by
    unfold recoveredLsn
    cases last : records.getLast? with
    | none => exact Nat.zero_le _
    | some record => exact holds.bounded record (List.mem_of_getLast? last)
  have lastLsn : (openFiles crc32 dim (init w.files)).lastLsn = w.lastLsn := by
    have read : w.files.lsnMeta.read = w.lastLsn := by rw [holds.lsnMeta, MetaFile.read]
    simp only [openFiles, writeMetaLsn, same, recover_of_holds holds]
    exact (congrArg (max · _) read).trans (max_eq_left recovered)
  refine ⟨⟨?_, holds.valid, rfl, ?_⟩, lastLsn⟩
  · change some (w.files.log.getD []) = _
    rw [holds.log, Option.getD_some]
  · rw [lastLsn]
    exact holds.bounded

variable (crc32 dim) in
/-- The log of an empty directory. -/
theorem openFiles_empty :
    (openFiles crc32 dim (init ⟨none, .absent⟩)).Holds crc32 ([] : List (WALRecord dim)) ∧
      (openFiles crc32 dim (init ⟨none, .absent⟩)).lastLsn = 0 :=
  ⟨⟨rfl, by simp, rfl, by simp⟩, rfl⟩

end Holds

end WAL

end VecScale
