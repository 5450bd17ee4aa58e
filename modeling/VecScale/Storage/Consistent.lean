import VecScale.Storage.Backed
import VecScale.Storage.Visible

/-!
# Runs at one merge threshold

`Consistent n log` holds of an engine that is restarted with one merge threshold
only: `tombstones.json` holds its tombstones, it has fewer segments than the
threshold, and every delete marker that the log replays to is a tombstone.

* `Ran.shown`: with fewer segments than the threshold, a call other than a restart
  updates `lookup` as `Op.update` says;
* `Flushed.consistent`: a flush keeps this, and shows what it showed;
* `Ran.consistent`: every completed call keeps it, and updates `lookup` as
  `Op.update` says.
-/

namespace VecScale

variable {dim : ℕ} {env : Env} {n n' : Node dim} {old recent log : List (WALRecord dim)}

structure Consistent (n : Node dim) (log : List (WALRecord dim)) : Prop where
  persisted : n.storage.tombstonesJson.load = n.engine.tombstones
  few : n.engine.segments.length < n.engine.mergeThreshold
  buried : ∀ x e, replayEntry log x = some e → e.vector = none → x ∈ n.engine.tombstones

/-- A restart keeps the merge threshold. -/
def Op.Keeps (mergeThreshold : ℕ) : Op dim → Prop
  | .restart chosen => chosen = mergeThreshold
  | _ => True

instance (mergeThreshold : ℕ) : (op : Op dim) → Decidable (op.Keeps mergeThreshold)
  | .restart chosen => inferInstanceAs (Decidable (chosen = mergeThreshold))
  | .insert _ | .delete _ | .flush | .merge => inferInstanceAs (Decidable True)

/-- What a call does to the vector shown for `x`. -/
def Op.update (op : Op dim) (x : ℤ) (shown : Option (Vec dim)) : Option (Vec dim) :=
  match op with
  | .insert rows => (Dict.lastWrite rows x).or shown
  | .delete ids => if x ∈ ids then none else shown
  | _ => shown

/-! ## Writes -/

theorem tombstonesJson_applyInsert (persisted : n.storage.tombstonesJson.load = n.engine.tombstones)
    (wal : WAL) (lsn : ℕ) (rows : List (Row dim)) :
    (LSMEngine.applyInsert n wal lsn rows).storage.tombstonesJson.load =
      (LSMEngine.applyInsert n wal lsn rows).engine.tombstones := by
  dsimp only [LSMEngine.applyInsert]
  split
  · exact persisted
  · rfl

theorem Consistent.applyInsert (consistent : Consistent n log) (wal : WAL) (rows : List (Row dim)) :
    Consistent (LSMEngine.applyInsert n wal (n.engine.wal.lastLsn + 1) rows)
      (log ++ [⟨n.engine.wal.lastLsn + 1, OP_INSERT, rows⟩]) := by
  have engine := LSMEngine.applyInsert_engine n wal (n.engine.wal.lastLsn + 1) rows
  refine ⟨tombstonesJson_applyInsert consistent.persisted _ _ _, ?_, ?_⟩
  · rw [engine]
    exact consistent.few
  · intro x e entry marker
    rw [replayEntry_concat, recordEntry_insert] at entry
    rw [engine, Finset.mem_sdiff, List.mem_toFinset]
    rcases Option.or_eq_some_iff.mp entry with here | ⟨unwritten, before⟩
    · rcases Option.map_eq_some_iff.mp here with ⟨v, -, rfl⟩
      cases marker
    · rw [Option.map_eq_none_iff, Dict.lastWrite_eq_none_iff] at unwritten
      exact ⟨consistent.buried x e before marker, unwritten⟩

theorem Consistent.applyDelete (consistent : Consistent n log) (wal : WAL) (ids : List ℤ) :
    Consistent (LSMEngine.applyDelete n wal (n.engine.wal.lastLsn + 1) ids)
      (log ++ [⟨n.engine.wal.lastLsn + 1, OP_DELETE, LSMEngine.deleteRows dim ids⟩]) := by
  refine ⟨rfl, consistent.few, ?_⟩
  intro x e entry marker
  change x ∈ n.engine.tombstones ∪ ids.toFinset
  rw [replayEntry_concat, recordEntry_delete] at entry
  rw [Finset.mem_union, List.mem_toFinset]
  by_cases listed : x ∈ ids
  · exact Or.inr listed
  · rw [if_neg listed, Option.none_or] at entry
    exact Or.inl (consistent.buried x e entry marker)

/-! ## Fewer segments than the threshold -/

theorem LSMEngine.length_sealMemtable (env : Env) (n : Node dim) :
    (LSMEngine.sealMemtable env n).2.engine.segments.length = n.engine.segments.length + 1 :=
  (List.length_insertionSort _ _).trans List.length_append

/-- With fewer segments than the threshold, a flush shows what the engine showed. -/
theorem Flushed.shown {out : Option (Segment dim)} (flushed : Flushed env n out n')
    (layout : Layout env n old recent)
    (few : n.engine.segments.length < n.engine.mergeThreshold)
    (atLeastTwo : 2 ≤ n.engine.mergeThreshold) :
    n'.engine.mergeThreshold = n.engine.mergeThreshold ∧
      n'.engine.segments.length < n'.engine.mergeThreshold ∧
      ∀ x, n'.engine.lookup x = n.engine.lookup x := by
  let sealedNode := (LSMEngine.sealMemtable env (LSMEngine.captureDeletes n)).2
  have engine := LSMEngine.captureDeletes_engine n
  have threshold : sealedNode.engine.mergeThreshold = n.engine.mergeThreshold := by
    rw [LSMEngine.sealMemtable_mergeThreshold, engine]
  have length : sealedNode.engine.segments.length = n.engine.segments.length + 1 := by
    rw [LSMEngine.length_sealMemtable, engine]
  -- a merge takes all segments there are
  have nothingLeft : sealedNode.engine.remaining = [] :=
    List.drop_eq_nil_of_le (by rw [threshold, length]; exact few)
  have lookup : ∀ x, n'.engine.lookup x = n.engine.lookup x := fun x =>
    flushed.lookup_eq layout fun _ => by rw [nothingLeft]; rfl
  cases flushed with
  | nothing dead =>
      have cleared : (LSMEngine.clearMemtable (LSMEngine.captureDeletes n)).engine.mergeThreshold =
            n.engine.mergeThreshold ∧
          (LSMEngine.clearMemtable (LSMEngine.captureDeletes n)).engine.segments =
            n.engine.segments := by
        rw [LSMEngine.clearMemtable, engine]
        exact ⟨rfl, rfl⟩
      refine ⟨cleared.1, ?_, lookup⟩
      rw [cleared.1, cleared.2]
      exact few
  | sealedOnly live room =>
      refine ⟨threshold, ?_, lookup⟩
      rw [threshold, length]
      exact room
  | merged live enough merged =>
      have kept := merged.mergeThreshold.trans threshold
      refine ⟨kept, ?_, lookup⟩
      rw [kept, merged.engine, nothingLeft, List.append_nil]
      exact lt_of_le_of_lt merged.size atLeastTwo

/-- The calls of one process. -/
def Op.Running : Op dim → Prop
  | .restart _ => False
  | _ => True

/-- A call of one process updates what the engine shows. -/
theorem Ran.shown {op : Op dim} (ran : Ran env n (old ++ recent) op n')
    (layout : Layout env n old recent)
    (few : n.engine.segments.length < n.engine.mergeThreshold)
    (atLeastTwo : 2 ≤ n.engine.mergeThreshold) (running : op.Running) :
    n'.engine.mergeThreshold = n.engine.mergeThreshold ∧
      n'.engine.segments.length < n'.engine.mergeThreshold ∧
      ∀ x, n'.engine.lookup x = op.update x (n.engine.lookup x) := by
  cases ran with
  | @insert rows wal appended room =>
      have engine := LSMEngine.applyInsert_engine n wal (n.engine.wal.lastLsn + 1) rows
      refine ⟨by rw [engine], ?_, lookup_applyInsert n _ _ _⟩
      rw [engine]
      exact few
  | @insertFlush rows wal out _ appended full flushed =>
      have engine := LSMEngine.applyInsert_engine n wal (n.engine.wal.lastLsn + 1) rows
      obtain ⟨threshold, fewer, shown⟩ := flushed.shown
        (layout.applyInsert appended.holds appended.opened appended.lastLsn)
        (by rw [engine]; exact few) (by rw [engine]; exact atLeastTwo)
      refine ⟨threshold.trans (by rw [engine]), fewer, fun x => ?_⟩
      rw [shown, lookup_applyInsert]
      rfl
  | delete appended => exact ⟨rfl, few, lookup_applyDelete n _ _ _⟩
  | flush flushed => exact flushed.shown layout few atLeastTwo
  | mergeFew _ => exact ⟨rfl, few, fun _ => rfl⟩
  | merge enough merged => exact absurd few (not_lt.mpr enough)
  | restart flushed stopped restarted => exact running.elim

/-! ## Flush -/

theorem Consistent.captureDeletes (consistent : Consistent n log) :
    Consistent (LSMEngine.captureDeletes n) log := by
  have engine := LSMEngine.captureDeletes_engine n
  refine ⟨(backed_of_persisted consistent.persisted).captureDeletes, ?_, ?_⟩
  · rw [engine]
    exact consistent.few
  · rw [engine]
    exact fun x e entry marker => Finset.mem_union_left _ (consistent.buried x e entry marker)

/-- A flush keeps the engine consistent and shows what it showed. -/
theorem Flushed.consistent {out : Option (Segment dim)} (flushed : Flushed env n out n')
    (layout : Layout env n old recent) (consistent : Consistent n (old ++ recent))
    (atLeastTwo : 2 ≤ n.engine.mergeThreshold) :
    ∃ left, Layout env n' left [] ∧ Consistent n' left ∧
      n'.engine.mergeThreshold = n.engine.mergeThreshold ∧
      ∀ x, n'.engine.lookup x = n.engine.lookup x := by
  obtain ⟨threshold, few, shown⟩ := flushed.shown layout consistent.few atLeastTwo
  have persisted := flushed.persisted (backed_of_persisted consistent.persisted)
  have captured := layout.captureDeletes
  -- What is left in the log is silent, or was there before.
  obtain ⟨left, after, buried⟩ : ∃ left, Layout env n' left [] ∧
      ∀ x e, replayEntry left x = some e → e.vector = none → x ∈ n'.engine.tombstones := by
    cases flushed with
    | nothing dead =>
        exact ⟨_, captured.clearMemtable dead, consistent.captureDeletes.buried⟩
    | sealedOnly live room =>
        obtain ⟨x, e, entry⟩ := MemTable.exists_of_live live
        obtain ⟨-, tail, after, silent⟩ := captured.sealMemtable entry
        refine ⟨tail, after, fun y e' found => ?_⟩
        rw [silent y] at found
        cases found
    | merged live enough merged =>
        obtain ⟨x, e, entry⟩ := MemTable.exists_of_live live
        obtain ⟨-, tail, after, silent⟩ := captured.sealMemtable entry
        refine ⟨tail, after.merged merged, fun y e' found => ?_⟩
        rw [silent y] at found
        cases found
  exact ⟨left, after, ⟨persisted, few, buried⟩, threshold, shown⟩

/-! ## Start -/

/-- An id the log leaves to delete markers is a tombstone. -/
theorem Consistent.deletedIn_subset (consistent : Consistent n log)
    (markers : ∀ x e, replayEntry log x = some e → e.vector = none) :
    deletedIn log ⊆ n.engine.tombstones := by
  intro x deleted
  obtain ⟨e, entry⟩ := replayEntry_of_deleted deleted
  exact consistent.buried x e entry (markers x e entry)

theorem Restarted.consistent {mergeThreshold : ℕ}
    (restarted : Restarted env n log mergeThreshold n') (layout : Layout env n log [])
    (consistent : Consistent n log) (kept : mergeThreshold = n.engine.mergeThreshold) :
    Consistent n' log ∧ ∀ x, n'.engine.lookup x = n.engine.lookup x := by
  have tombstones : n'.engine.tombstones = n.engine.tombstones := by
    rw [restarted.tombstones, consistent.persisted]
    exact Finset.union_eq_left.mpr (consistent.deletedIn_subset layout.markers)
  have empty : ∀ x, n.engine.memtable.entries.get? x = none := fun x => layout.memtable x
  refine ⟨⟨?_, ?_, ?_⟩, fun x => ?_⟩
  · rw [restarted.storage, tombstones]
    exact consistent.persisted
  · rw [restarted.segments, restarted.mergeThreshold, kept]
    exact consistent.few
  · rw [tombstones]
    exact consistent.buried
  · simp only [LSMEngine.lookup, tombstones, restarted.segments, restarted.memtable, empty]
    by_cases tombstoned : x ∈ n.engine.tombstones
    · rw [if_pos tombstoned, if_pos tombstoned]
    · cases entry : replayEntry log x with
      | none => rfl
      | some e =>
          exact absurd (consistent.buried x e entry (layout.markers x e entry)) tombstoned

/-- The log is what `recover` reads. -/
theorem Layout.log_unique {log' : List (WALRecord dim)} (layout : Layout env n log [])
    (layout' : Layout env n log' []) : log = log' := by
  have read := WAL.recover_of_holds layout.wal
  rw [WAL.recover_of_holds layout'.wal] at read
  simpa using read.symm

/-! ## Every call -/

/-- **The step lemma.**  A completed call keeps the engine consistent and updates
what it shows. -/
theorem Ran.consistent {op : Op dim} (ran : Ran env n (old ++ recent) op n')
    (layout : Layout env n old recent) (consistent : Consistent n (old ++ recent))
    (atLeastTwo : 2 ≤ n.engine.mergeThreshold) (keeps : op.Keeps n.engine.mergeThreshold) :
    ∃ old' recent', Layout env n' old' recent' ∧ Consistent n' (old' ++ recent') ∧
      n'.engine.mergeThreshold = n.engine.mergeThreshold ∧
      ∀ x, n'.engine.lookup x = op.update x (n.engine.lookup x) := by
  cases ran with
  | @insert rows wal appended room =>
      have after := layout.applyInsert appended.holds appended.opened appended.lastLsn
      have kept := consistent.applyInsert wal rows
      rw [List.append_assoc] at kept
      refine ⟨_, _, after, kept, ?_, lookup_applyInsert n _ _ _⟩
      rw [LSMEngine.applyInsert_engine]
  | @insertFlush rows wal out _ appended full flushed =>
      have after := layout.applyInsert appended.holds appended.opened appended.lastLsn
      have kept := consistent.applyInsert wal rows
      rw [List.append_assoc] at kept
      have threshold : (LSMEngine.applyInsert n wal (n.engine.wal.lastLsn + 1)
          rows).engine.mergeThreshold = n.engine.mergeThreshold := by
        rw [LSMEngine.applyInsert_engine]
      obtain ⟨left, flushedLayout, flushedKept, same, shown⟩ :=
        flushed.consistent after kept (threshold ▸ atLeastTwo)
      refine ⟨left, [], flushedLayout, ?_, same.trans threshold, fun x => ?_⟩
      · rw [List.append_nil]
        exact flushedKept
      · rw [shown, lookup_applyInsert]
        rfl
  | @delete ids wal appended =>
      have after := layout.applyDelete appended.holds appended.opened appended.lastLsn
      have kept := consistent.applyDelete wal ids
      rw [List.append_assoc] at kept
      exact ⟨_, _, after, kept, rfl, lookup_applyDelete n _ _ _⟩
  | flush flushed =>
      obtain ⟨left, after, kept, same, shown⟩ := flushed.consistent layout consistent atLeastTwo
      refine ⟨left, [], after, ?_, same, shown⟩
      rw [List.append_nil]
      exact kept
  | mergeFew few => exact ⟨old, recent, layout, consistent, rfl, fun _ => rfl⟩
  | merge enough merged => exact absurd consistent.few (not_lt.mpr enough)
  | @restart _ _ stopped _ left flushed stoppedLayout restarted =>
      obtain ⟨left', after, kept, same, shown⟩ := flushed.consistent layout consistent atLeastTwo
      cases stoppedLayout.log_unique after
      obtain ⟨reborn, same'⟩ := restarted.consistent after kept (keeps.trans same.symm)
      refine ⟨[], left, restarted.layout after, reborn, ?_, fun x => ?_⟩
      · rw [restarted.mergeThreshold]
        exact keeps
      · rw [same', shown]
        rfl

end VecScale
