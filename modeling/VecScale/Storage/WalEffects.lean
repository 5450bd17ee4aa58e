import VecScale.Lib.Runs
import VecScale.Storage.Wal

/-!
# The durable effects of the log

`append` and `truncate_before` leave the files as a list of effects does that reach
the disk one by one.  A crash cuts such a list short: the files are then as the
effects before the cut left them.  The side file is rewritten in place, so it is
empty between its opening and its write.

* `files_of_append`, `files_of_truncateBefore`: the completed calls;
* `LogAt`: log files from which a new engine takes its clock;
* `LogAt.cutAppend`: the files of an append that is cut anywhere;
* `LogAt.cutTruncate`: the files of a truncation that is cut, unless the side file
  is empty and the log as well.
-/

namespace VecScale

/-- One durable effect. -/
inductive WalEffect
  | writeRecord (payload : Bytes)
  | writeTemp (bytes : Bytes)
  | replaceLog
  | openMeta
  | writeMeta (lsn : ℕ)

/-- The files of a log, and the temporary file beside them. -/
structure WalDisk where
  files : WalFiles
  temp : Option Bytes

namespace WalDisk

def apply (disk : WalDisk) : WalEffect → WalDisk
  | .writeRecord payload =>
      { disk with files := { disk.files with log := some (disk.files.log.getD [] ++ payload) } }
  | .writeTemp bytes => { disk with temp := some bytes }
  | .replaceLog =>
      match disk.temp with
      | none => disk
      | some bytes => ⟨{ disk.files with log := some bytes }, none⟩
  | .openMeta => { disk with files := { disk.files with lsnMeta := .empty } }
  | .writeMeta lsn => { disk with files := { disk.files with lsnMeta := .holds lsn } }

end WalDisk

/-- The files that the effects leave; nothing ever reads a temporary file that a
crash left behind. -/
def WalFiles.after (files : WalFiles) (effects : List WalEffect) : WalFiles :=
  (effects.foldl WalDisk.apply ⟨files, none⟩).files

namespace WAL

/-- The effects of `append`, for a record of these bytes. -/
def appendEffects (w : WAL) (payload : Bytes) : List WalEffect :=
  [.writeRecord payload, .openMeta, .writeMeta (w.lastLsn + 1)]

section Checksum

variable (crc32 : Bytes → ℕ) (dim : ℕ)

/-- The effects of `truncate_before`. -/
def truncateEffects (w : WAL) (lsn : ℕ) : List WalEffect :=
  [.writeTemp ((recordCodec crc32 dim).encodeAll
      ((recover crc32 dim w).filter fun record => lsn ≤ record.lsn)),
    .replaceLog, .openMeta, .writeMeta w.lastLsn]

/-- The files of an append that is cut behind its first `count` effects. -/
def cutAppend (w : WAL) (opType : ℕ) (ids : List ℤ) (vectors : List (List UInt32)) (count : ℕ) :
    Except PyError WalFiles :=
  if w.isOpen then do
    let rows ← prepareRows dim ids vectors
    let payload ← serializeRecord crc32 (⟨w.lastLsn + 1, opType, rows⟩ : WALRecord dim)
    .ok (w.files.after ((w.appendEffects payload).take count))
  else .error (.runtimeError "WAL is not open.")

/-- The files of a truncation that is cut behind its first `count` effects. -/
def cutTruncate (w : WAL) (lsn count : ℕ) : WalFiles :=
  w.files.after ((truncateEffects crc32 dim w lsn).take count)

end Checksum

variable {crc32 : Bytes → ℕ} {dim : ℕ} {w : WAL}

/-- An append that returns leaves what its effects do. -/
theorem files_of_append {w' : WAL} {opType : ℕ} {ids : List ℤ} {vectors : List (List UInt32)}
    {lsn : ℕ} (returned : append crc32 dim w opType ids vectors = (.ok lsn, w')) :
    cutAppend crc32 dim w opType ids vectors 3 = .ok w'.files := by
  obtain ⟨opened, rfl, rows, prepared, packs, rfl⟩ := append_ok returned
  simp only [cutAppend, opened, if_true, prepared, bind, Except.bind, serializeRecord, if_pos packs]
  rfl

theorem files_of_truncateBefore (lsn : ℕ) :
    cutTruncate crc32 dim w lsn 4 = (truncateBefore crc32 dim w lsn).files := rfl

/-! ## The clock in the files -/

/-- The log holds `records`, in order, and the clock of a log opened on the files is
at `clock`, the LSN of the last record if there is one. -/
structure LogAt (crc32 : Bytes → ℕ) (files : WalFiles) (records : List (WALRecord dim))
    (clock : ℕ) : Prop where
  log : files.log.getD [] = (recordCodec crc32 dim).encodeAll records
  valid : ∀ record ∈ records, record.Valid
  ordered : records.Pairwise fun a b => a.lsn < b.lsn
  bounded : ∀ record ∈ records, record.lsn ≤ clock
  newest : ∀ record ∈ records.getLast?, record.lsn = clock
  opens : max files.lsnMeta.read (recoveredLsn records) = clock

section LogAt

variable {files : WalFiles} {records : List (WALRecord dim)} {clock : ℕ}

theorem LogAt.recover (logAt : LogAt crc32 w.files records clock) :
    recover crc32 dim w = records := by
  rw [recover_eq_scan, logAt.log]
  exact ((recordCodec crc32 dim).scan_eq_iff logAt.valid).mpr
    ⟨[], by simp, (recordCodec crc32 dim).next_nil⟩

theorem LogAt.read_le (logAt : LogAt crc32 files records clock) : files.lsnMeta.read ≤ clock := by
  rw [← logAt.opens]
  exact le_max_left _ _

/-- The files of an empty directory are at 0. -/
theorem LogAt.empty (crc32 : Bytes → ℕ) (dim : ℕ) :
    LogAt crc32 ⟨none, .absent⟩ ([] : List (WALRecord dim)) 0 :=
  ⟨rfl, by simp, List.Pairwise.nil, by simp, by simp, rfl⟩

/-- A log opened on the files is at their clock. -/
theorem LogAt.openFiles (logAt : LogAt crc32 files records clock) :
    (openFiles crc32 dim (init files)).lastLsn = clock ∧
      LogAt crc32 (WAL.openFiles crc32 dim (init files)).files records clock := by
  have recovered : WAL.recover crc32 dim (init files) = records := LogAt.recover logAt
  have lastLsn : (WAL.openFiles crc32 dim (init files)).lastLsn = clock := by
    rw [← logAt.opens, WAL.openFiles, recovered]
    rfl
  refine ⟨lastLsn, logAt.log, logAt.valid, logAt.ordered, logAt.bounded, logAt.newest, ?_⟩
  · change max (WAL.openFiles crc32 dim (init files)).lastLsn _ = _
    rw [lastLsn, ← logAt.opens, max_assoc, max_self]

/-- A record with the next LSN carries the clock on, whatever the side file holds. -/
theorem LogAt.write (logAt : LogAt crc32 files records clock) {record : WALRecord dim}
    (valid : record.Valid) (follows : record.lsn = clock + 1) {lsnMeta : MetaFile}
    (behind : lsnMeta.read ≤ clock + 1) :
    LogAt crc32 ⟨some (files.log.getD [] ++ recordBytes crc32 record), lsnMeta⟩
      (records ++ [record]) (clock + 1) := by
  refine ⟨?_, ?_, ?_, ?_, ?_, ?_⟩
  · simp [logAt.log, FrameCodec.encodeAll, recordCodec]
  · intro r member
    rcases List.mem_append.mp member with old | new
    · exact logAt.valid r old
    · rw [List.mem_singleton.mp new]
      exact valid
  · rw [List.pairwise_append]
    refine ⟨logAt.ordered, List.pairwise_singleton _ _, fun r member new single => ?_⟩
    rw [List.mem_singleton.mp single, follows]
    exact Nat.lt_succ_of_le (logAt.bounded r member)
  · intro r member
    rcases List.mem_append.mp member with old | new
    · exact Nat.le_succ_of_le (logAt.bounded r old)
    · rw [List.mem_singleton.mp new, follows]
  · intro r last
    rw [List.getLast?_concat, Option.mem_some_iff] at last
    rw [← last, follows]
  · have recovered : recoveredLsn (records ++ [record]) = clock + 1 := by
      rw [recoveredLsn, List.getLast?_concat]
      exact follows
    rw [recovered]
    exact max_eq_right behind

/-- Wherever an append is cut, the clock in the files has not gone back. -/
theorem LogAt.cutAppend (logAt : LogAt crc32 w.files records w.lastLsn) {opType : ℕ} {ids : List ℤ}
    {vectors : List (List UInt32)} {count : ℕ} {left : WalFiles} (int64 : ∀ x ∈ ids, IsInt64 x)
    (cut : cutAppend crc32 dim w opType ids vectors count = .ok left) :
    ∃ records' clock, LogAt crc32 left (records' : List (WALRecord dim)) clock ∧
      w.lastLsn ≤ clock := by
  unfold WAL.cutAppend at cut
  split at cut
  case isFalse => cases cut
  next opened =>
  obtain ⟨rows, prepared, cut⟩ := ok_of_bind cut
  obtain ⟨payload, serialized, cut⟩ := ok_of_bind cut
  cases cut
  unfold serializeRecord at serialized
  split at serialized
  case isFalse => cases serialized
  next packs =>
  cases serialized
  let record : WALRecord dim := ⟨w.lastLsn + 1, opType, rows⟩
  have valid : record.Valid := ⟨packs, prepareRows_int64 int64 prepared⟩
  have written : ∀ lsnMeta : MetaFile, lsnMeta.read ≤ w.lastLsn + 1 →
      LogAt crc32 ⟨some (w.files.log.getD [] ++ recordBytes crc32 record), lsnMeta⟩
        (records ++ [record]) (w.lastLsn + 1) := fun _ behind => logAt.write valid rfl behind
  -- the record is on disk before the side file is touched
  match count with
  | 0 => exact ⟨records, w.lastLsn, logAt, le_rfl⟩
  | 1 => exact ⟨_, _, written w.files.lsnMeta (Nat.le_succ_of_le logAt.read_le), Nat.le_succ _⟩
  | 2 => exact ⟨_, _, written .empty (Nat.zero_le _), Nat.le_succ _⟩
  | count + 3 =>
      rw [List.take_of_length_le (by simp [appendEffects])]
      exact ⟨_, _, written (.holds (w.lastLsn + 1)) le_rfl, Nat.le_succ _⟩

/-- What a truncation keeps ends with the newest record, or is empty. -/
theorem LogAt.kept (logAt : LogAt crc32 files records clock) (lsn : ℕ) :
    ∀ record ∈ (records.filter fun r => lsn ≤ r.lsn).getLast?, record.lsn = clock := by
  rcases List.eq_nil_or_concat records with rfl | ⟨front, last, rfl⟩
  · intro record found
    cases found
  · have newest : last.lsn = clock := logAt.newest last (by simp)
    rw [List.concat_eq_append, List.filter_append]
    by_cases stays : lsn ≤ last.lsn
    · intro record found
      rw [List.filter_cons_of_pos (by simpa using stays), List.filter_nil, List.getLast?_concat,
        Option.mem_some_iff] at found
      rw [← found, newest]
    · -- the newest record goes, and with it every other
      have gone : front.filter (fun r => lsn ≤ r.lsn) = [] := by
        refine List.filter_eq_nil_iff.mpr fun record member => ?_
        have bound := logAt.bounded record (by simp [member])
        simp only [decide_eq_true_eq]
        omega
      intro record found
      rw [gone, List.filter_cons_of_neg (by simpa using stays)] at found
      cases found

theorem LogAt.truncate (logAt : LogAt crc32 files records clock) (lsn : ℕ) {lsnMeta : MetaFile}
    (opens : max lsnMeta.read (recoveredLsn (records.filter fun r => lsn ≤ r.lsn)) = clock) :
    LogAt crc32 ⟨some ((recordCodec crc32 dim).encodeAll (records.filter fun r => lsn ≤ r.lsn)),
      lsnMeta⟩ (records.filter fun r => lsn ≤ r.lsn) clock :=
  ⟨rfl, fun r member => logAt.valid r (List.mem_of_mem_filter member),
    logAt.ordered.filter _, fun r member => logAt.bounded r (List.mem_of_mem_filter member),
    logAt.kept lsn, opens⟩

/-- Wherever a truncation is cut, the clock in the files stays, unless the log is left
without a record while the side file is empty. -/
theorem LogAt.cutTruncate (logAt : LogAt crc32 w.files records w.lastLsn)
    (upToDate : w.files.lsnMeta = .holds w.lastLsn) {lsn count : ℕ}
    (keeps : count = 3 → ∃ record ∈ records, lsn ≤ record.lsn) :
    ∃ records', LogAt crc32 (WAL.cutTruncate crc32 dim w lsn count)
      (records' : List (WALRecord dim)) w.lastLsn := by
  let kept := records.filter fun r => lsn ≤ r.lsn
  have bounded : recoveredLsn kept ≤ w.lastLsn := by
    unfold recoveredLsn
    cases last : kept.getLast? with
    | none => exact Nat.zero_le _
    | some record => exact (logAt.kept lsn record last).le
  have replaced : ∀ lsnMeta : MetaFile, max lsnMeta.read (recoveredLsn kept) = w.lastLsn →
      LogAt crc32 ⟨some ((recordCodec crc32 dim).encodeAll ((WAL.recover crc32 dim w).filter
        fun r => lsn ≤ r.lsn)), lsnMeta⟩ kept w.lastLsn := by
    intro lsnMeta opens
    rw [logAt.recover]
    exact logAt.truncate lsn opens
  match count with
  | 0 => exact ⟨records, logAt⟩
  | 1 => exact ⟨records, logAt⟩
  | 2 =>
      refine ⟨kept, replaced w.files.lsnMeta ?_⟩
      rw [upToDate]
      exact max_eq_left bounded
  | 3 =>
      obtain ⟨record, member, later⟩ := keeps rfl
      have inKept : record ∈ kept := List.mem_filter.mpr ⟨member, decide_eq_true later⟩
      refine ⟨kept, replaced .empty ?_⟩
      have newest : recoveredLsn kept = w.lastLsn := by
        unfold recoveredLsn
        cases last : kept.getLast? with
        | none =>
            rw [List.getLast?_eq_none_iff.mp last] at inKept
            cases inKept
        | some found => exact logAt.kept lsn found last
      rw [newest]
      exact max_eq_right (Nat.zero_le _)
  | count + 4 =>
      have whole : (truncateEffects crc32 dim w lsn).take (count + 4) =
          truncateEffects crc32 dim w lsn := List.take_of_length_le (by simp [truncateEffects])
      rw [WAL.cutTruncate, whole]
      exact ⟨kept, replaced (.holds w.lastLsn) (max_eq_left bounded)⟩

/-- A log that loses its last record while the side file is empty starts over. -/
theorem LogAt.starts_over (logAt : LogAt crc32 w.files records w.lastLsn) {lsn : ℕ}
    (older : ∀ record ∈ records, record.lsn < lsn) :
    (WAL.openFiles crc32 dim (init (WAL.cutTruncate crc32 dim w lsn 3))).lastLsn = 0 := by
  have gone : (WAL.recover crc32 dim w).filter (fun r => lsn ≤ r.lsn) = [] := by
    rw [logAt.recover]
    refine List.filter_eq_nil_iff.mpr fun record member => ?_
    have bound := older record member
    simp only [decide_eq_true_eq]
    omega
  have files : WAL.cutTruncate crc32 dim w lsn 3 = ⟨some [], .empty⟩ := by
    simp only [WAL.cutTruncate, truncateEffects, gone]
    rfl
  have empty : WAL.recover crc32 dim (init ⟨some [], .empty⟩) = [] := by
    rw [recover_eq_scan]
    exact ((recordCodec crc32 dim).scan_eq_iff (by simp)).mpr
      ⟨[], by simp [init, FrameCodec.encodeAll], (recordCodec crc32 dim).next_nil⟩
  rw [files, WAL.openFiles, empty]
  rfl

end LogAt

end WAL

end VecScale
