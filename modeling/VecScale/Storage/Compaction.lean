import VecScale.Storage.EngineMap

/-!
# What compaction keeps

A merge takes the oldest `mergeThreshold` segments and drops every tombstone whose
id they hold.  After a restart with a smaller threshold younger segments can be
left over, and the tombstone of an id they hold as well is dropped with the rest.

* `merge_preserves_iff`: a merge shows what was shown before exactly when it
  strands no tombstone.
-/

namespace VecScale

variable {dim : ℕ} {env : Env} {config : EngineConfig} {n n' : Node dim}
  {old recent : List (WALRecord dim)}

/-- What a search exposes before a merge and after it. -/
def Node.mergeViews (env : Env) (n : Node dim) :
    Except PyError (List (Row dim) × List (Row dim)) := do
  let before ← LSMEngine.exposed n
  let merged ← LSMEngine.merge env n
  let after ← LSMEngine.exposed merged.2
  .ok (before, after)

/-- The tombstones that a merge drops although a segment it leaves alone holds the
id and no memtable entry stands before it. -/
def LSMEngine.stranded (engine : LSMEngine dim) : Finset ℤ :=
  engine.tombstones.filter fun x => x ∈ segmentIds engine.toMerge ∧
    x ∈ segmentIds engine.remaining ∧ engine.memtable.entries.get? x = none

/-- With too few segments to merge none is left over. -/
theorem stranded_of_few {engine : LSMEngine dim}
    (few : engine.segments.length < engine.mergeThreshold) : engine.stranded = ∅ := by
  have nothing : engine.remaining = [] := List.drop_eq_nil_of_le few.le
  refine Finset.filter_eq_empty_iff.mpr ?_
  rintro x - ⟨-, left, -⟩
  rw [nothing] at left
  cases left

theorem Merged.lookup_eq_iff_stranded {front : List (Segment dim)} (merged : Merged env n n' front)
    (layout : Layout env n old recent) (x : ℤ) :
    n'.engine.lookup x = n.engine.lookup x ↔ x ∉ n.engine.stranded := by
  rw [merged.lookup_eq_iff layout.buried, LSMEngine.stranded, Finset.mem_filter, mem_segmentIds,
    mem_segmentIds]
  tauto

/-- **When a merge keeps the meaning.**  In every state that calls and restarts of
any merge threshold lead to, a merge leaves the rows of a default-snapshot search
as they are exactly when it strands no tombstone. -/
theorem merge_preserves_iff {ops : List (Op dim)} (int64 : ∀ op ∈ ops, op.Int64)
    {final : Node dim} (ran : Node.history env config ops = .ok final) :
    ∃ before after, final.mergeViews env = .ok (before, after) ∧
      ((∀ row, row ∈ before ↔ row ∈ after) ↔ final.engine.stranded = ∅) := by
  obtain ⟨old, recent, layout⟩ := layout_of_history int64 ran
  obtain ⟨before, ranBefore, -, shownBefore⟩ := exposed_of_settled layout.segments layout.settled
  rcases merge_cases layout.started layout.segments with
    ⟨few, ranMerge⟩ | ⟨-, out, n', front, ranMerge, merged⟩
  · refine ⟨before, before, ?_, ?_⟩
    · simp only [Node.mergeViews, ranBefore, ranMerge, bind, Except.bind]
    · simp only [stranded_of_few few, implies_true]
  · have after := layout.merged merged
    obtain ⟨rows, ranAfter, -, shownAfter⟩ := exposed_of_settled after.segments after.settled
    refine ⟨before, rows, ?_, ?_⟩
    · simp only [Node.mergeViews, ranBefore, ranMerge, ranAfter, bind, Except.bind]
    · rw [Finset.eq_empty_iff_forall_notMem]
      simp only [← merged.lookup_eq_iff_stranded layout, Prod.forall, shownBefore, shownAfter]
      constructor
      · exact fun rows x => Option.ext fun v => (rows x v).symm
      · exact fun shown x v => by rw [shown x]

/-- Id 1 in two segments, then deleted, and a restart whose merges take two segments. -/
def smallerMerges : List (Op 1) :=
  [.insert [(1, zeroVec 1)], .flush, .insert [(2, zeroVec 1)], .flush, .insert [(1, zeroVec 1)],
    .flush, .delete [1], .insert [(3, zeroVec 1)], .flush, .restart 2]

theorem smallerMerges_views :
    ∃ final, Node.history Env.counted ⟨0, 1, 10, 5⟩ smallerMerges = .ok final ∧
      final.mergeViews Env.counted = .ok ([(2, zeroVec 1), (3, zeroVec 1)],
        [(2, zeroVec 1), (1, zeroVec 1), (3, zeroVec 1)]) := by
  have evaluated : (do
      let final ← Node.history Env.counted ⟨0, 1, 10, 5⟩ smallerMerges
      final.mergeViews Env.counted) = .ok ([(2, zeroVec 1), (3, zeroVec 1)],
        [(2, zeroVec 1), (1, zeroVec 1), (3, zeroVec 1)]) := by
    decide +kernel
  exact ok_of_bind evaluated

/-- A deleted id is shown again after a merge. -/
theorem stranded_id_resurrected :
    (do
      let final ← Node.history Env.counted ⟨0, 1, 10, 5⟩ smallerMerges
      final.mergeViews Env.counted) =
        .ok ([(2, zeroVec 1), (3, zeroVec 1)],
          [(2, zeroVec 1), (1, zeroVec 1), (3, zeroVec 1)]) := by
  obtain ⟨final, ran, views⟩ := smallerMerges_views
  rw [ran]
  exact views

theorem merge_preserves_iff_smallerMerges :
    ∃ final before after, Node.history Env.counted ⟨0, 1, 10, 5⟩ smallerMerges = .ok final ∧
      final.mergeViews Env.counted = .ok (before, after) ∧
      ((∀ row, row ∈ before ↔ row ∈ after) ↔ final.engine.stranded = ∅) := by
  obtain ⟨final, ran, -⟩ := smallerMerges_views
  obtain ⟨before, after, views, iff⟩ := merge_preserves_iff (by decide) ran
  exact ⟨final, before, after, ran, views, iff⟩

end VecScale
