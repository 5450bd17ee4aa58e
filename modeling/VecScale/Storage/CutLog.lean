import VecScale.Storage.Wal

/-!
# Recovery of a cut log

A log file that is cut off anywhere, in a header, among the ids, the vectors or the
checksum of a record, is recovered up to the last record that is whole.  But the loop asks
for all that a header announces before it checks the header, and an announced count can be
anything up to 2^32 - 1.

* `recover_cut`, `recover_before_tail`: what recovery finds in front of a cut or of a
  corrupt tail;
* `readsWithin_cut`: a cut log announces no more than was written to it;
* `recover_cut_log_iff`: recovery returns these records exactly when all that is announced can be
  read.
-/

namespace VecScale.WAL

variable {crc32 : Bytes → ℕ} {dim : ℕ}

/-- Of a cut log, recovery finds the records that lie wholly before the cut. -/
theorem recover_cut {records : List (WALRecord dim)} (valid : ∀ record ∈ records, record.Valid)
    (lsnMeta : MetaFile) {bytes : Bytes} (cut : bytes <+: records.flatMap (recordBytes crc32)) :
    ∃ count ≤ records.length,
      recover crc32 dim (init ⟨some bytes, lsnMeta⟩) = records.take count ∧
        ∀ j ≤ records.length, (records.take j).flatMap (recordBytes crc32) <+: bytes ↔ j ≤ count := by
  rw [recover_eq_scan]
  exact (recordCodec crc32 dim).scan_cut valid cut

/-- Whatever stands behind whole records, recovery finds these first. -/
theorem recover_before_tail {records : List (WALRecord dim)}
    (valid : ∀ record ∈ records, record.Valid) (lsnMeta : MetaFile) (tail : Bytes) :
    records <+: recover crc32 dim
      (init ⟨some (records.flatMap (recordBytes crc32) ++ tail), lsnMeta⟩) := by
  have read := (recordCodec crc32 dim).scan_encodeAll_append valid tail
  rw [recover_eq_scan]
  exact ⟨_, read.symm⟩

/-- The rows of a record fill this many bytes. -/
def bodySize (record : WALRecord dim) : ℕ :=
  record.rows.length * 8 + record.rows.length * (4 * dim)

/-- A header that was written announces the rows that were written behind it. -/
theorem announced_of_cut {record : WALRecord dim} (valid : record.Valid) {rest more : Bytes}
    (front : rest <+: recordBytes crc32 record ++ more) (header : 13 ≤ rest.length) :
    announced dim rest = bodySize record := by
  rcases front with ⟨missing, whole⟩
  have taken : rest.take 13 = headerBytes record := by
    have same : (rest ++ missing).take 13 = rest.take 13 := List.take_append_of_le_length header
    rw [← same, whole, recordBytes, List.append_assoc, List.take_left' (length_headerBytes record)]
  obtain ⟨-, -, count⟩ := headerBytes_fields record valid
  rw [announced, taken, count, bodySize]

/-- In a log that was written and then cut, only the lengths of its records are announced. -/
theorem readsWithin_cut {records : List (WALRecord dim)} (valid : ∀ record ∈ records, record.Valid)
    {memory : ℕ} (fit : ∀ record ∈ records, bodySize record < 2 ^ 63 ∧ bodySize record ≤ memory)
    {bytes : Bytes} (cut : bytes <+: records.flatMap (recordBytes crc32)) :
    ReadsWithin crc32 dim memory bytes := by
  intro whole rest wholeValid written header
  induction whole generalizing records bytes with
  | nil =>
      rw [List.flatMap_nil, List.nil_append] at written
      subst written
      cases records with
      | nil =>
          rw [List.prefix_nil.mp cut] at header
          exact absurd header (by decide)
      | cons record records =>
          rw [announced_of_cut (valid record List.mem_cons_self) cut header]
          exact fit record List.mem_cons_self
  | cons first whole ih =>
      have firstValid := wholeValid first List.mem_cons_self
      rw [List.flatMap_cons, List.append_assoc] at written
      rcases cut with ⟨missing, joined⟩
      rw [written, List.append_assoc] at joined
      have read := readRecord_recordBytes crc32 first
        (whole.flatMap (recordBytes crc32) ++ rest ++ missing) firstValid
      cases records with
      | nil =>
          have empty := (List.append_eq_nil_iff.mp joined).1
          exact absurd empty ((recordCodec crc32 dim).encode_ne_nil first)
      | cons record records =>
          -- both readings start with one record
          have here := readRecord_recordBytes crc32 record (records.flatMap (recordBytes crc32))
            (valid record List.mem_cons_self)
          rw [joined, List.flatMap_cons, here, Option.some.injEq, Prod.mk.injEq] at read
          exact ih (fun r member => valid r (List.mem_cons_of_mem _ member))
            (fun r member => fit r (List.mem_cons_of_mem _ member)) ⟨missing, read.2.symm⟩
            (fun r member => wholeValid r (List.mem_cons_of_mem _ member)) rfl

/-- **Recovery of a cut log.**  Of a cut log it returns exactly the records that lie wholly
before the cut, and of whole records with anything behind them a list that starts with
these, if and only if every length that it meets can be read; otherwise it raises. -/
theorem recover_cut_log_iff {records : List (WALRecord dim)}
    (valid : ∀ record ∈ records, record.Valid) (lsnMeta : MetaFile) (memory : ℕ) :
    (∀ bytes, bytes <+: records.flatMap (recordBytes crc32) →
      ((∃ count ≤ records.length,
          recoverWithin crc32 dim memory (init ⟨some bytes, lsnMeta⟩) =
            .ok (records.take count) ∧
          ∀ j ≤ records.length,
            (records.take j).flatMap (recordBytes crc32) <+: bytes ↔ j ≤ count) ↔
        ReadsWithin crc32 dim memory bytes)) ∧
    ∀ tail,
      ((∃ found, recoverWithin crc32 dim memory
          (init ⟨some (records.flatMap (recordBytes crc32) ++ tail), lsnMeta⟩) = .ok found ∧
          records <+: found) ↔
        ReadsWithin crc32 dim memory (records.flatMap (recordBytes crc32) ++ tail)) := by
  refine ⟨fun bytes cut => ?_, fun tail => ?_⟩
  · constructor
    · rintro ⟨count, -, returned, -⟩
      exact (recoverWithin_eq_ok_iff.mp returned).2
    · intro within
      obtain ⟨count, bound, found, inside⟩ := recover_cut valid lsnMeta cut
      exact ⟨count, bound, recoverWithin_eq_ok_iff.mpr ⟨found, within⟩, inside⟩
  · constructor
    · rintro ⟨found, returned, -⟩
      exact (recoverWithin_eq_ok_iff.mp returned).2
    · intro within
      exact ⟨_, recoverWithin_eq_ok_iff.mpr ⟨rfl, within⟩, recover_before_tail valid lsnMeta tail⟩

/-- An insert of a negative id and a delete. -/
def twoRecords : List (WALRecord 1) :=
  [⟨1, OP_INSERT, [(-5, zeroVec 1)]⟩, ⟨2, OP_DELETE, [(-5, zeroVec 1)]⟩]

/-- A header that announces 2^32 - 1 rows. -/
def hugeHeader : Bytes := packLe 8 3 ++ (packLe 1 OP_INSERT ++ packLe 4 (2 ^ 32 - 1))

/-- One whole record and a corrupt header, recovered where a read is given 32 GiB. -/
theorem announced_length_raises :
    recoverWithin zlibCrc32 1 (2 ^ 35)
        (init ⟨some ((twoRecords.take 1).flatMap (recordBytes zlibCrc32) ++ hugeHeader), .absent⟩) =
      .error .memoryError := by
  decide +kernel

/-- The cut is among the ids of the second record. -/
theorem recover_cut_log_iff_twoRecords :
    recoverWithin zlibCrc32 1 (2 ^ 35)
        (init ⟨some ((twoRecords.flatMap (recordBytes zlibCrc32)).take 45), .absent⟩) =
      .ok (twoRecords.take 1) := by
  have valid : ∀ record ∈ twoRecords, record.Valid := by
    intro record member
    rcases List.mem_pair.mp member with first | second
    · rw [first]
      exact ⟨by decide, by decide⟩
    · rw [second]
      exact ⟨by decide, by decide⟩
  have cut : (twoRecords.flatMap (recordBytes zlibCrc32)).take 45 <+:
      twoRecords.flatMap (recordBytes zlibCrc32) := List.take_prefix 45 _
  obtain ⟨count, bound, recovered, inside⟩ :=
    ((recover_cut_log_iff valid .absent (2 ^ 35)).1 _ cut).mpr
      (readsWithin_cut valid (by decide) cut)
  have first : 1 ≤ count := (inside 1 (by decide)).mp (by decide +kernel)
  have second : ¬ 2 ≤ count := (inside 2 (by decide)).not.mp (by decide +kernel)
  have one : count = 1 := by omega
  rw [recovered, one]

end VecScale.WAL
