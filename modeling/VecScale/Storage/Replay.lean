import VecScale.Lib.Runs
import VecScale.Storage.Lsm

/-!
# Replaying the log

`replayEntry records x` is the memtable entry that a list of log records leaves
for `x`: the entry of the last record that names it.

* `foldl_replayRecord`: what `start` computes from the log;
* `replayEntry_append`: later records win;
* `tombstones_of_start`: the tombstones of a started engine;
* `le_lsn_of_recordEntry`: in an ordered log the entry of `x` is at least as new
  as any record that names `x`.
-/

namespace VecScale

variable {dim : ℕ}

/-- The entry one record writes for `x`. -/
def recordEntry (record : WALRecord dim) (x : ℤ) : Option (MemTableEntry dim) :=
  if record.opType = OP_INSERT then
    (Dict.lastWrite record.rows x).map fun v => .live v record.lsn
  else if record.opType = OP_DELETE then
    if x ∈ batchIds record.rows then some (.tombstone record.lsn) else none
  else none

theorem recordEntry_insert (lsn : ℕ) (rows : List (Row dim)) (x : ℤ) :
    recordEntry ⟨lsn, OP_INSERT, rows⟩ x =
      (Dict.lastWrite rows x).map fun v => .live v lsn := rfl

@[simp] theorem batchIds_deleteRows (ids : List ℤ) :
    batchIds (LSMEngine.deleteRows dim ids) = ids := by
  rw [batchIds, LSMEngine.deleteRows, List.map_map]
  exact List.map_id ids

theorem recordEntry_delete (lsn : ℕ) (ids : List ℤ) (x : ℤ) :
    recordEntry ⟨lsn, OP_DELETE, LSMEngine.deleteRows dim ids⟩ x =
      if x ∈ ids then some (.tombstone lsn) else none := by
  have other : OP_DELETE ≠ OP_INSERT := by decide
  rw [recordEntry, if_neg other, if_pos rfl, batchIds_deleteRows]

/-- The entry a list of records leaves for `x`. -/
def replayEntry (records : List (WALRecord dim)) (x : ℤ) : Option (MemTableEntry dim) :=
  records.foldl (fun found record => (recordEntry record x).or found) none

/-- The ids of the delete records. -/
def deletedIn (records : List (WALRecord dim)) : Finset ℤ :=
  ((records.filter fun record => record.opType = OP_DELETE).flatMap fun record =>
    batchIds record.rows).toFinset

@[simp] theorem replayEntry_nil (x : ℤ) : replayEntry ([] : List (WALRecord dim)) x = none := rfl

theorem replayEntry_concat (records : List (WALRecord dim)) (record : WALRecord dim) (x : ℤ) :
    replayEntry (records ++ [record]) x = (recordEntry record x).or (replayEntry records x) := by
  simp [replayEntry, List.foldl_append]

theorem replayEntry_append (before after : List (WALRecord dim)) (x : ℤ) :
    replayEntry (before ++ after) x = (replayEntry after x).or (replayEntry before x) := by
  induction after using List.reverseRecOn with
  | nil => simp
  | append_singleton after record ih =>
      rw [← List.append_assoc, replayEntry_concat, replayEntry_concat, ih, Option.or_assoc]

theorem lsn_of_recordEntry {record : WALRecord dim} {x : ℤ} {e : MemTableEntry dim}
    (entry : recordEntry record x = some e) : e.lsn = record.lsn := by
  unfold recordEntry at entry
  split at entry
  · rcases Option.map_eq_some_iff.mp entry with ⟨v, -, rfl⟩
    rfl
  · split at entry
    · split at entry
      · cases entry
        rfl
      · cases entry
    · cases entry

theorem listed_of_recordEntry {record : WALRecord dim} {x : ℤ} {e : MemTableEntry dim}
    (entry : recordEntry record x = some e) : x ∈ batchIds record.rows := by
  unfold recordEntry at entry
  split at entry
  · rcases Option.map_eq_some_iff.mp entry with ⟨v, written, -⟩
    exact List.mem_map_of_mem (Dict.mem_of_lastWrite written)
  · split at entry
    · split at entry
      · assumption
      · cases entry
    · cases entry

/-- An entry comes from one of the records. -/
theorem exists_of_replayEntry {records : List (WALRecord dim)} {x : ℤ} {e : MemTableEntry dim}
    (entry : replayEntry records x = some e) : ∃ record ∈ records, recordEntry record x = some e := by
  induction records using List.reverseRecOn with
  | nil => cases entry
  | append_singleton records record ih =>
      rw [replayEntry_concat] at entry
      rcases Option.or_eq_some_iff.mp entry with here | ⟨-, earlier⟩
      · exact ⟨record, by simp, here⟩
      · obtain ⟨found, member, written⟩ := ih earlier
        exact ⟨found, List.mem_append_left _ member, written⟩

theorem le_lsn_of_recordEntry {records : List (WALRecord dim)}
    (ordered : records.Pairwise fun a b => a.lsn < b.lsn) {record : WALRecord dim}
    (member : record ∈ records) {x : ℤ} {e : MemTableEntry dim}
    (written : recordEntry record x = some e) :
    ∃ e', replayEntry records x = some e' ∧ record.lsn ≤ e'.lsn := by
  induction records using List.reverseRecOn with
  | nil => cases member
  | append_singleton records last ih =>
      rw [List.pairwise_append] at ordered
      rcases ordered with ⟨front, -, newer⟩
      rw [replayEntry_concat]
      cases here : recordEntry last x with
      | some e' =>
          refine ⟨e', rfl, ?_⟩
          rw [lsn_of_recordEntry here]
          rcases List.mem_append.mp member with earlier | same
          · exact (newer record earlier last (List.mem_singleton_self _)).le
          · rw [List.mem_singleton.mp same]
      | none =>
          rw [Option.none_or]
          rcases List.mem_append.mp member with earlier | same
          · exact ih front earlier
          · rw [List.mem_singleton.mp same, here] at written
            cases written

theorem mem_deletedIn {records : List (WALRecord dim)} {x : ℤ} :
    x ∈ deletedIn records ↔
      ∃ record ∈ records, record.opType = OP_DELETE ∧ x ∈ batchIds record.rows := by
  simp [deletedIn, and_assoc]

theorem deletedIn_append (before after : List (WALRecord dim)) :
    deletedIn (before ++ after) = deletedIn before ∪ deletedIn after := by
  simp [deletedIn]

/-- A deleted id has an entry. -/
theorem replayEntry_of_deleted {records : List (WALRecord dim)} {x : ℤ}
    (deleted : x ∈ deletedIn records) : ∃ e, replayEntry records x = some e := by
  induction records using List.reverseRecOn with
  | nil => simp [deletedIn] at deleted
  | append_singleton records last ih =>
      rw [replayEntry_concat]
      cases here : recordEntry last x with
      | some e => exact ⟨e, rfl⟩
      | none =>
          rw [deletedIn_append, Finset.mem_union] at deleted
          rcases deleted with earlier | now
          · exact ih earlier
          · rcases mem_deletedIn.mp now with ⟨record, member, deletes, listed⟩
            rw [List.mem_singleton.mp member] at deletes listed
            have inserts : ¬ last.opType = OP_INSERT := by rw [deletes]; decide
            rw [recordEntry, if_neg inserts, if_pos deletes, if_pos listed] at here
            cases here

/-- Records that name no id delete none. -/
theorem deletedIn_eq_empty {records : List (WALRecord dim)}
    (silent : ∀ x, replayEntry records x = none) : deletedIn records = ∅ := by
  refine Finset.eq_empty_iff_forall_notMem.mpr fun x deleted => ?_
  obtain ⟨e, entry⟩ := replayEntry_of_deleted deleted
  rw [silent x] at entry
  cases entry

/-- What the loop of `start` leaves: the entries of the log over those before,
and every deleted id among the tombstones. -/
theorem foldl_replayRecord (records : List (WALRecord dim)) (mem : MemTable dim) (T : Finset ℤ) :
    (∀ x, (records.foldl LSMEngine.replayRecord (mem, T)).1.entries.get? x =
        (replayEntry records x).or (mem.entries.get? x)) ∧
      (records.foldl LSMEngine.replayRecord (mem, T)).1.flushThreshold = mem.flushThreshold ∧
      (records.foldl LSMEngine.replayRecord (mem, T)).2 = T ∪ deletedIn records := by
  induction records using List.reverseRecOn with
  | nil => simp [deletedIn]
  | append_singleton records last ih =>
      rcases ih with ⟨entries, threshold, tombstones⟩
      simp only [List.foldl_append, List.foldl_cons, List.foldl_nil, LSMEngine.replayRecord,
        replayEntry_concat, recordEntry, deletedIn_append]
      by_cases inserts : last.opType = OP_INSERT
      · have kept : ¬ last.opType = OP_DELETE := by rw [inserts]; decide
        simp only [if_pos inserts]
        refine ⟨fun x => ?_, threshold, ?_⟩
        · rw [MemTable.get?_insert, entries, Option.or_assoc]
        · rw [tombstones]
          simp [deletedIn, kept]
      · by_cases deletes : last.opType = OP_DELETE
        · simp only [if_neg inserts, if_pos deletes]
          refine ⟨fun x => ?_, threshold, ?_⟩
          · rw [MemTable.get?_delete, entries]
            split <;> rfl
          · rw [tombstones]
            simp [deletedIn, deletes]
        · simp only [if_neg inserts, if_neg deletes, Option.none_or]
          refine ⟨entries, threshold, ?_⟩
          rw [tombstones]
          simp [deletedIn, deletes]

/-- The records that the start of an engine replayed. -/
def Node.replayed (env : Env) (n : Node dim) : List (WALRecord dim) :=
  (n.engine.wal.recover env.crc32 dim).filter fun record => maxSnapshot n.engine.segments < record.lsn

/-- A start takes its tombstones from the file and from its log. -/
theorem tombstones_of_start {env : Env} {n n' : Node dim}
    (ran : LSMEngine.start env n = .ok n') :
    n'.engine.tombstones = n.storage.tombstonesJson.load ∪ deletedIn (n'.replayed env) := by
  obtain ⟨segments, -, done⟩ := ok_of_bind ran
  rw [Except.ok.injEq] at done
  subst done
  have recovered : (LSMEngine.startedOn env n segments).replayed env =
      (((n.engine.wal.openFiles env.crc32 dim).recover env.crc32 dim).filter
        fun record => maxSnapshot segments < record.lsn) := rfl
  rw [recovered]
  exact (foldl_replayRecord _ n.engine.memtable.clear n.storage.tombstonesJson.load).2.2

end VecScale
