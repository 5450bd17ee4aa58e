import VecScale.Storage.Wal

/-!
# Appending behind a torn record

A crash in the middle of `append` leaves a proper prefix of one record at the
end of the log.  `open` stops reading there but reopens the file for appending
behind it, so the records appended next stand where the reading loop no longer
gets to.

* `recover_after_torn_iff`: the appended records are recovered exactly when
  nothing was torn, or when the torn bytes happen to run into the appended ones
  so that the log reads as those records after all.
-/

namespace VecScale.WAL

/-- The LSN a log opened over the records `rs` is at. -/
def openedLsn {dim : ℕ} (rs : List (WALRecord dim)) (lsnMeta : MetaFile) : ℕ :=
  max lsnMeta.read (recoveredLsn rs)

/-- The records of calls numbered from `lsn` on. -/
def numbered (dim lsn : ℕ) (calls : List AppendCall) : List (WALRecord dim) :=
  acknowledged dim (List.range' (lsn + 1) calls.length) calls

/-- The log a crash left: whole records, and the front of one more. -/
def tornLog {dim : ℕ} (crc32 : Bytes → ℕ) (rs : List (WALRecord dim)) (torn : Bytes) : Bytes :=
  (recordCodec crc32 dim).encodeAll rs ++ torn

/-- The torn bytes and `written` read as `written` and bytes that start with no record. -/
def RunsInto (crc32 : Bytes → ℕ) (dim : ℕ) (torn written : Bytes) : Prop :=
  ∃ rest, torn ++ written = written ++ rest ∧ readRecord crc32 dim rest = none

variable {crc32 : Bytes → ℕ} {dim : ℕ}

/-- Recovery stops at the torn record. -/
theorem recover_tornLog {rs : List (WALRecord dim)} {record : WALRecord dim} {torn : Bytes}
    (rsValid : ∀ r ∈ rs, r.Valid) (recordValid : record.Valid)
    (pref : torn <+: recordBytes crc32 record) (proper : torn ≠ recordBytes crc32 record)
    (lsnMeta : MetaFile) :
    recover crc32 dim (init ⟨some (tornLog crc32 rs torn), lsnMeta⟩) = rs := by
  have stops := (recordCodec crc32 dim).next_eq_none_of_torn recordValid pref proper
  rw [recover_eq_scan]
  exact ((recordCodec crc32 dim).scan_eq_iff rsValid).mpr ⟨torn, rfl, stops⟩

/-- **When appends behind a torn record survive.** -/
theorem recover_after_torn_iff {rs : List (WALRecord dim)} (rsValid : ∀ r ∈ rs, r.Valid)
    {record : WALRecord dim} (recordValid : record.Valid) {torn : Bytes}
    (pref : torn <+: recordBytes crc32 record) (proper : torn ≠ recordBytes crc32 record)
    (lsnMeta : MetaFile) {calls : List AppendCall}
    (int64 : ∀ call ∈ calls, ∀ id ∈ call.ids, IsInt64 id) {lsns : List ℕ} {w : WAL}
    (returned : appendAll crc32 dim
      (openFiles crc32 dim (init ⟨some (tornLog crc32 rs torn), lsnMeta⟩)) calls = .ok (lsns, w)) :
    recover crc32 dim (openFiles crc32 dim (init w.close.files)) =
        rs ++ acknowledged dim lsns calls ↔
      torn = [] ∨ RunsInto crc32 dim torn
        ((recordCodec crc32 dim).encodeAll (numbered dim (openedLsn rs lsnMeta) calls)) := by
  obtain ⟨lsnsEq, valid, -, log⟩ := appendAll_ok int64 returned
  have startLsn : (openFiles crc32 dim
      (init ⟨some (tornLog crc32 rs torn), lsnMeta⟩)).lastLsn = openedLsn rs lsnMeta := by
    have recovered := recover_tornLog rsValid recordValid pref proper lsnMeta
    simp only [openFiles, writeMetaLsn, recovered]
    rfl
  rw [startLsn] at lsnsEq
  have written : acknowledged dim lsns calls = numbered dim (openedLsn rs lsnMeta) calls := by
    rw [numbered, ← lsnsEq]
  rw [written] at log valid ⊢
  have reread : recover crc32 dim (openFiles crc32 dim (init w.close.files)) =
      rs ++ (recordCodec crc32 dim).scan
        (torn ++ (recordCodec crc32 dim).encodeAll (numbered dim (openedLsn rs lsnMeta) calls)) := by
    rw [recover_openFiles, recover_eq_scan, init, close, log,
      ← (recordCodec crc32 dim).scan_encodeAll_append rsValid, ← List.append_assoc]
    rfl
  rw [reread, List.append_cancel_left_eq, (recordCodec crc32 dim).scan_eq_iff valid]
  constructor
  · rintro ⟨rest, runs, stops⟩
    exact Or.inr ⟨rest, runs, stops⟩
  · rintro (rfl | ⟨rest, runs, stops⟩)
    · exact ⟨[], by simp, (recordCodec crc32 dim).next_nil⟩
    · exact ⟨rest, runs, stops⟩

/-! ## One torn byte -/

/-- The record a crash cut down to its first byte. -/
def cutRecord : WALRecord 1 := ⟨1, OP_INSERT, [(5, zeroVec 1)]⟩

def noRecords : List (WALRecord 1) := []

/-- The log opened after that crash. -/
def crashedLog : WAL :=
  openFiles zlibCrc32 1 (init ⟨some (tornLog zlibCrc32 noRecords [1]), .holds 0⟩)

def insertSeven : AppendCall := ⟨OP_INSERT, [7], [[0]]⟩

/-- The log after the insert. -/
def appendedLog : WAL := (append zlibCrc32 1 crashedLog OP_INSERT [7] [[0]]).2

/-- An acknowledged append behind the torn byte is not recovered. -/
theorem append_behind_torn_byte_lost :
    [1] <+: recordBytes zlibCrc32 cutRecord ∧ [1] ≠ recordBytes zlibCrc32 cutRecord ∧
      appendAll zlibCrc32 1 crashedLog [insertSeven] = .ok ([1], appendedLog) ∧
      recover zlibCrc32 1 (openFiles zlibCrc32 1 (init appendedLog.close.files)) ≠
        noRecords ++ acknowledged 1 [1] [insertSeven] := by
  decide +kernel

theorem recover_after_torn_iff_one_byte :
    recover zlibCrc32 1 (openFiles zlibCrc32 1 (init appendedLog.close.files)) =
        noRecords ++ acknowledged 1 [1] [insertSeven] ↔
      ([1] : Bytes) = [] ∨ RunsInto zlibCrc32 1 [1] ((recordCodec zlibCrc32 1).encodeAll
        (numbered 1 (openedLsn noRecords (.holds 0)) [insertSeven])) := by
  have cutValid : cutRecord.Valid := ⟨by decide, by decide⟩
  have int64 : ∀ call ∈ [insertSeven], ∀ id ∈ call.ids, IsInt64 id := by decide
  have returned : appendAll zlibCrc32 1 crashedLog [insertSeven] = .ok ([1], appendedLog) := by
    decide +kernel
  exact recover_after_torn_iff (by simp [noRecords]) cutValid (by decide +kernel)
    (by decide +kernel) (.holds 0) int64 returned

end VecScale.WAL
