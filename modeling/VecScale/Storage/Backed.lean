import VecScale.Storage.Calls

/-!
# The tombstone file of one engine

An engine writes its tombstones to `tombstones.json` whenever a call changes them.
A start adds those that it replays from the log without writing them; they have a
delete marker in the memtable until the next write or flush.

* `Ran.backed`: every completed call keeps this;
* `Backed.persisted`: with nothing in the memtable the file holds the tombstones.
-/

namespace VecScale

variable {dim : ℕ} {env : Env} {n n' : Node dim} {old recent log : List (WALRecord dim)}

/-- The file holds no other ids than the tombstones, and those it lacks have a delete
marker. -/
structure Backed (n : Node dim) : Prop where
  subset : n.storage.tombstonesJson.load ⊆ n.engine.tombstones
  marked : ∀ x ∈ n.engine.tombstones, x ∉ n.storage.tombstonesJson.load →
    ∃ e, n.engine.memtable.entries.get? x = some e ∧ e.vector = none

theorem backed_of_persisted (persisted : n.storage.tombstonesJson.load = n.engine.tombstones) :
    Backed n :=
  ⟨persisted.subset, fun _ tombstoned absent => absurd (persisted ▸ tombstoned) absent⟩

/-- Without delete markers the file lacks nothing. -/
theorem Backed.persisted (backed : Backed n) (unmarked : ∀ x e,
    n.engine.memtable.entries.get? x = some e → e.vector ≠ none) :
    n.storage.tombstonesJson.load = n.engine.tombstones := by
  refine Finset.Subset.antisymm backed.subset fun x tombstoned => ?_
  by_contra absent
  obtain ⟨e, entry, marker⟩ := backed.marked x tombstoned absent
  exact unmarked x e entry marker

theorem Backed.applyInsert (backed : Backed n) (wal : WAL) (lsn : ℕ) (rows : List (Row dim)) :
    Backed (LSMEngine.applyInsert n wal lsn rows) := by
  dsimp only [LSMEngine.applyInsert]
  split
  · next untouched =>
      refine ⟨backed.subset, fun x tombstoned absent => ?_⟩
      obtain ⟨e, entry, marker⟩ := backed.marked x tombstoned absent
      have unwritten : x ∉ batchIds rows := by
        intro written
        have both := Finset.mem_inter.mpr ⟨tombstoned, List.mem_toFinset.mpr written⟩
        rw [untouched] at both
        exact Finset.notMem_empty x both
      refine ⟨e, ?_, marker⟩
      rw [MemTable.get?_insert, Dict.lastWrite_eq_none_iff.mpr unwritten]
      exact entry
  · exact backed_of_persisted rfl

/-- A flush first writes the markers it finds. -/
theorem Backed.captureDeletes (backed : Backed n) :
    (LSMEngine.captureDeletes n).storage.tombstonesJson.load =
      (LSMEngine.captureDeletes n).engine.tombstones := by
  dsimp only [LSMEngine.captureDeletes]
  split
  · next unmarked =>
      apply backed.persisted
      intro x e entry marker
      have member : x ∈ n.engine.memtable.visibleDeletedIds none :=
        MemTable.mem_visibleDeletedIds.mpr ⟨e, entry, rfl, marker⟩
      rw [unmarked] at member
      exact Finset.notMem_empty x member
  · rfl

theorem Flushed.persisted {out : Option (Segment dim)} (flushed : Flushed env n out n')
    (backed : Backed n) : n'.storage.tombstonesJson.load = n'.engine.tombstones := by
  cases flushed with
  | nothing dead => exact backed.captureDeletes
  | sealedOnly live few =>
      rw [LSMEngine.sealMemtable_tombstonesJson, LSMEngine.sealMemtable_tombstones]
      exact backed.captureDeletes
  | merged live enough merged =>
      rw [merged.tombstonesJson]
      rfl

/-- What a start adds to the tombstones of the file has a delete marker. -/
theorem Restarted.backed {mergeThreshold : ℕ} (restarted : Restarted env n log mergeThreshold n')
    (layout : Layout env n log []) : Backed n' := by
  constructor
  · rw [restarted.storage, restarted.tombstones]
    exact Finset.subset_union_left
  · intro x tombstoned absent
    rw [restarted.storage] at absent
    rw [restarted.tombstones, Finset.mem_union] at tombstoned
    rcases tombstoned with inFile | deleted
    · exact absurd inFile absent
    · obtain ⟨e, entry⟩ := replayEntry_of_deleted deleted
      exact ⟨e, (restarted.memtable x).trans entry, layout.markers x e entry⟩

/-- **The step lemma.** -/
theorem Ran.backed {op : Op dim} (ran : Ran env n log op n') (backed : Backed n) : Backed n' := by
  cases ran with
  | insert appended room => exact backed.applyInsert _ _ _
  | insertFlush appended full flushed =>
      exact backed_of_persisted (flushed.persisted (backed.applyInsert _ _ _))
  | delete appended => exact backed_of_persisted rfl
  | flush flushed => exact backed_of_persisted (flushed.persisted backed)
  | mergeFew few => exact backed
  | merge enough merged =>
      apply backed_of_persisted
      rw [merged.tombstonesJson]
      rfl
  | restart flushed stopped restarted => exact restarted.backed stopped

theorem Fresh.backed {config : EngineConfig} (fresh : Fresh env config n) : Backed n := by
  apply backed_of_persisted
  rw [fresh.storage, fresh.tombstones]
  rfl

end VecScale
