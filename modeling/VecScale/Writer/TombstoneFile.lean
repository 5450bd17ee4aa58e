import VecScale.Writer.Shards

/-!
# What a call does with `tombstones.json`

Whether an insert or a delete makes an engine write the file, and which tombstones
it leaves, can be read off the engine before the call.

* `Call.Rewrites`, `Call.tombstonesLeft`: the two readings;
* `Flushed.leaves`: the tombstones and the file after a flush;
* `leaves_of_run`: that a completed call does what they say.
-/

namespace VecScale

variable {dim : ℕ} {env : Env} {n n' : Node dim} {old recent : List (WALRecord dim)}

/-! ## What a call will do -/

namespace LSMEngine

/-- Every delete marker of the memtable is a tombstone. -/
def Marked (engine : LSMEngine dim) : Prop :=
  ∀ x e, engine.memtable.entries.get? x = some e → e.vector = none → x ∈ engine.tombstones

/-- The memtable with a batch written. -/
def written (engine : LSMEngine dim) (rows : List (Row dim)) : MemTable dim :=
  engine.memtable.insert rows (engine.wal.lastLsn + 1)

/-- The batch fills the memtable. -/
def Fills (engine : LSMEngine dim) (rows : List (Row dim)) : Prop :=
  (engine.written rows).shouldFlush = true

/-- The memtable, if it were flushed, would make a segment that starts a merge. -/
def FlushMerges (engine : LSMEngine dim) (mem : MemTable dim) : Prop :=
  mem.toArrays none ≠ [] ∧ engine.mergeThreshold ≤ engine.segments.length + 1

instance (engine : LSMEngine dim) (rows : List (Row dim)) : Decidable (engine.Fills rows) :=
  inferInstanceAs (Decidable (_ = _))

instance (engine : LSMEngine dim) (mem : MemTable dim) : Decidable (engine.FlushMerges mem) :=
  inferInstanceAs (Decidable (_ ∧ _))

end LSMEngine

/-- The call makes the engine write `tombstones.json`. -/
def Call.Rewrites (engine : LSMEngine dim) : Call dim → Prop
  | .insert rows => engine.tombstones ∩ (batchIds rows).toFinset ≠ ∅ ∨
      engine.Fills rows ∧ ((engine.written rows).visibleDeletedIds none ≠ ∅ ∨
        engine.FlushMerges (engine.written rows))
  | .delete _ => True

instance (engine : LSMEngine dim) : (request : Call dim) → Decidable (request.Rewrites engine)
  | .insert _ => inferInstanceAs (Decidable (_ ∨ _))
  | .delete _ => inferInstanceAs (Decidable True)

/-- The tombstones that the call leaves: an insert takes out the ids it names, and
those of the segments that it merges. -/
def Call.tombstonesLeft (engine : LSMEngine dim) : Call dim → Finset ℤ
  | .insert rows =>
      let untouched := engine.tombstones \ (batchIds rows).toFinset
      if engine.Fills rows ∧ engine.FlushMerges (engine.written rows) then
        untouched \ (segmentIds engine.toMerge).toFinset
      else untouched
  | .delete ids => engine.tombstones ∪ ids.toFinset

/-! ## What a call does -/

/-- The file after a call that did or did not write it. -/
def rewritten (wrote : Prop) [Decidable wrote] (before : TombstonesJson) (T : Finset ℤ) :
    TombstonesJson :=
  if wrote then .holds T else before

namespace LSMEngine

theorem captureDeletes_of_marked (marked : n.engine.Marked) :
    (captureDeletes n).engine = n.engine ∧ (captureDeletes n).storage.tombstonesJson =
      rewritten (n.engine.memtable.visibleDeletedIds none ≠ ∅) n.storage.tombstonesJson
        n.engine.tombstones := by
  have known : n.engine.memtable.visibleDeletedIds none ⊆ n.engine.tombstones := by
    intro x visible
    rcases MemTable.mem_visibleDeletedIds.mp visible with ⟨e, entry, -, marker⟩
    exact marked x e entry marker
  have same := Finset.union_eq_left.mpr known
  constructor
  · rw [captureDeletes_engine, same]
  · unfold captureDeletes rewritten
    dsimp only
    split
    · next nothing => rw [if_neg (not_not.mpr nothing)]
    · next something => exact congrArg TombstonesJson.holds same

/-- A sealed memtable holds no row of a tombstoned id. -/
theorem notMem_sealed (layout : Layout env n old recent) {x : ℤ}
    (tombstoned : x ∈ n.engine.tombstones) : x ∉ batchIds (sealMemtable env n).1.rows := by
  rw [sealMemtable_rows]
  intro named
  rcases List.mem_map.mp named with ⟨⟨y, v⟩, member, rfl⟩
  rcases MemTable.mem_toArrays.mp member with ⟨e, entry, -, vector⟩
  rw [layout.buried y tombstoned e entry] at vector
  cases vector

/-- The group that the merge behind a flush takes, and the tombstones in it. -/
theorem mem_cleaned_of_sealed (layout : Layout env n old recent) {x : ℤ}
    (tombstoned : x ∈ n.engine.tombstones)
    (segments : (sealMemtable env n).2.engine.segments =
      n.engine.segments ++ [(sealMemtable env n).1]) :
    newestRow (sealMemtable env n).2.engine.toMerge x ≠ none ↔
      x ∈ segmentIds n.engine.toMerge := by
  have taken : (sealMemtable env n).2.engine.toMerge = n.engine.toMerge ++
      [(sealMemtable env n).1].take (n.engine.mergeThreshold - n.engine.segments.length) := by
    rw [toMerge, segments, List.take_append]
    rfl
  rw [mem_segmentIds, taken, newestRow_append]
  have nothing : newestRow ([(sealMemtable env n).1].take
      (n.engine.mergeThreshold - n.engine.segments.length)) x = none := by
    rw [newestRow_eq_none_iff]
    intro seg member
    rw [List.mem_singleton.mp (List.mem_of_mem_take member)]
    exact notMem_sealed layout tombstoned
  rw [nothing, Option.none_or]

end LSMEngine

/-- The tombstones and the file after a flush. -/
theorem Flushed.leaves {out : Option (Segment dim)} (flushed : Flushed env n out n')
    (layout : Layout env n old recent) (marked : n.engine.Marked) :
    n'.engine.tombstones = (if n.engine.FlushMerges n.engine.memtable then
        n.engine.tombstones \ (segmentIds n.engine.toMerge).toFinset else n.engine.tombstones) ∧
      n'.storage.tombstonesJson = rewritten (n.engine.memtable.visibleDeletedIds none ≠ ∅ ∨
        n.engine.FlushMerges n.engine.memtable) n.storage.tombstonesJson n'.engine.tombstones ∧
      n'.engine.Marked := by
  obtain ⟨engine, file⟩ := LSMEngine.captureDeletes_of_marked marked
  have captured := layout.captureDeletes
  have kept : (LSMEngine.captureDeletes n).engine.tombstones = n.engine.tombstones := by
    rw [engine]
  cases flushed with
  | nothing dead =>
      rw [engine] at dead
      have quiet : ¬ n.engine.FlushMerges n.engine.memtable := fun merges =>
        merges.1 (MemTable.toArrays_eq_nil_iff.mpr dead)
      refine ⟨?_, ?_, fun x e entry => by cases entry⟩
      · rw [if_neg quiet]
        exact kept
      · change (LSMEngine.captureDeletes n).storage.tombstonesJson =
          rewritten _ _ (LSMEngine.captureDeletes n).engine.tombstones
        rw [file, engine]
        simp only [rewritten, quiet, or_false]
  | sealedOnly live few =>
      have quiet : ¬ n.engine.FlushMerges n.engine.memtable := fun merges =>
        absurd merges.2 (not_le.mpr few)
      refine ⟨?_, ?_, fun x e entry => by cases entry⟩
      · rw [if_neg quiet, LSMEngine.sealMemtable_tombstones, kept]
      · rw [LSMEngine.sealMemtable_tombstonesJson, LSMEngine.sealMemtable_tombstones, file, engine]
        simp only [rewritten, quiet, or_false]
  | merged live enough merged =>
      obtain ⟨x, e, entry⟩ := MemTable.exists_of_live live
      obtain ⟨segments, -⟩ := captured.sealMemtable entry
      rw [engine] at live
      have merges : n.engine.FlushMerges n.engine.memtable :=
        ⟨fun none => live (MemTable.toArrays_eq_nil_iff.mp none), enough⟩
      have sealedKept : (LSMEngine.sealMemtable env (LSMEngine.captureDeletes n)).2.engine.tombstones =
          n.engine.tombstones := (LSMEngine.sealMemtable_tombstones env _).trans kept
      refine ⟨?_, ?_, fun y e' found => ?_⟩
      · rw [if_pos merges, merged.engine]
        ext y
        simp only [sealedKept, Finset.mem_sdiff, mem_cleanedTombstones, List.mem_toFinset]
        refine and_congr_right fun tombstoned => ?_
        rw [← engine] at tombstoned
        rw [LSMEngine.mem_cleaned_of_sealed captured tombstoned segments, engine]
        rw [engine] at tombstoned
        simp [tombstoned]
      · rw [merged.tombstonesJson, rewritten, if_pos (Or.inr merges)]
      · rw [merged.engine] at found
        cases found

/-- What a call on an engine leaves. -/
structure Leaves (n : Node dim) (request : Call dim) (n' : Node dim) : Prop where
  tombstones : n'.engine.tombstones = request.tombstonesLeft n.engine
  file : n'.storage.tombstonesJson = rewritten (request.Rewrites n.engine)
    n.storage.tombstonesJson n'.engine.tombstones
  marked : n'.engine.Marked

theorem applyInsert_leaves (marked : n.engine.Marked) (wal : WAL) (rows : List (Row dim)) (lsn : ℕ) :
    (LSMEngine.applyInsert n wal lsn rows).storage.tombstonesJson =
        rewritten (n.engine.tombstones ∩ (batchIds rows).toFinset ≠ ∅) n.storage.tombstonesJson
          (n.engine.tombstones \ (batchIds rows).toFinset) ∧
      (LSMEngine.applyInsert n wal lsn rows).engine.Marked := by
  constructor
  · unfold LSMEngine.applyInsert rewritten
    dsimp only
    split
    · next untouched => rw [if_neg (not_not.mpr untouched)]
    · exact congrArg TombstonesJson.holds (Finset.sdiff_inter_self_left _ _)
  · rw [LSMEngine.applyInsert_engine]
    intro x e entry marker
    rw [MemTable.get?_insert] at entry
    rw [Finset.mem_sdiff, List.mem_toFinset]
    rcases Option.or_eq_some_iff.mp entry with here | ⟨unwritten, before⟩
    · rcases Option.map_eq_some_iff.mp here with ⟨v, -, rfl⟩
      cases marker
    · rw [Option.map_eq_none_iff, Dict.lastWrite_eq_none_iff] at unwritten
      exact ⟨marked x e before marker, unwritten⟩

/-- **The step lemma.**  What a completed call does with the tombstones. -/
theorem leaves_of_run {request : Call dim} (ran : Ran env n (old ++ recent) request.op n')
    (layout : Layout env n old recent) (marked : n.engine.Marked) : Leaves n request n' := by
  cases request with
  | insert rows =>
      cases ran with
      | @insert _ wal appended room =>
          obtain ⟨file, marked'⟩ := applyInsert_leaves marked wal rows (n.engine.wal.lastLsn + 1)
          have roomy : ¬ n.engine.Fills rows := Bool.eq_false_iff.mp room
          refine ⟨?_, ?_, marked'⟩
          · rw [LSMEngine.applyInsert_engine]
            exact (if_neg fun both => roomy both.1).symm
          · rw [file, LSMEngine.applyInsert_engine]
            simp only [rewritten, Call.Rewrites, roomy, false_and, or_false]
      | @insertFlush _ wal out _ appended full flushed =>
          obtain ⟨file, marked'⟩ := applyInsert_leaves marked wal rows (n.engine.wal.lastLsn + 1)
          have written := layout.applyInsert appended.holds appended.opened appended.lastLsn
          obtain ⟨tombstones, flushedFile, marked''⟩ := flushed.leaves written marked'
          have fills : n.engine.Fills rows := full
          rw [LSMEngine.applyInsert_engine] at tombstones flushedFile
          rw [file] at flushedFile
          change _ = if n.engine.FlushMerges (n.engine.written rows) then _ else _ at tombstones
          change _ = rewritten (((n.engine.written rows).visibleDeletedIds none ≠ ∅) ∨
            n.engine.FlushMerges (n.engine.written rows)) _ _ at flushedFile
          refine ⟨?_, ?_, marked''⟩
          · rw [tombstones]
            simp only [Call.tombstonesLeft, fills, true_and]
            rfl
          · rw [flushedFile]
            simp only [rewritten, Call.Rewrites, fills, true_and]
            split
            · next wrote => rw [if_pos (Or.inr wrote)]
            · next kept =>
                rw [if_neg (fun merges => kept (Or.inr merges))] at tombstones
                rw [tombstones]
                simp only [kept, or_false]
  | delete ids =>
      cases ran with
      | delete appended =>
          refine ⟨rfl, (if_pos trivial).symm, ?_⟩
          intro x e entry marker
          change x ∈ n.engine.tombstones ∪ ids.toFinset
          change (n.engine.memtable.delete ids _).entries.get? x = some e at entry
          rw [MemTable.get?_delete] at entry
          rw [Finset.mem_union, List.mem_toFinset]
          split at entry
          · next named => exact Or.inr named
          · exact Or.inl (marked x e entry marker)

end VecScale
