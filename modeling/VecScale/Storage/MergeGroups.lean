import VecScale.Lib.NearestParts
import VecScale.Storage.Results

/-!
# Merging in groups

A segment list, a reader and the coordinator each merge the results of the level
below.  Here results are merged group by group, and then the answers of the groups.

* `mergeResults_groups`: the distances are those of one merge of all results, and
  so are the ids, ties included, when no id is in two groups.
-/

namespace VecScale

variable {D : Type}

/-- The ids in the results of one group. -/
def resultIds (group : List (List (ℤ × D))) : List ℤ := group.flatten.map Prod.fst

/-- No id is in the results of two groups. -/
def GroupsApart (groups : List (List (List (ℤ × D)))) : Prop :=
  groups.Pairwise fun group group' => List.Disjoint (resultIds group) (resultIds group')

theorem undeleted_flatten (groups : List (List (List (ℤ × D)))) (deletedIds : Finset ℤ) :
    undeleted groups.flatten deletedIds =
      (groups.map fun group => undeleted group deletedIds).flatten := by
  induction groups with
  | nil => rfl
  | cons group groups ih =>
      rw [List.flatten_cons, List.map_cons, List.flatten_cons, ← ih, undeleted, List.flatten_append,
        List.filter_append]
      rfl

theorem mem_resultIds_of_undeleted {group : List (List (ℤ × D))} {deletedIds : Finset ℤ}
    {hit : ℤ × D} (counted : hit ∈ undeleted group deletedIds) : hit.1 ∈ resultIds group :=
  List.mem_map_of_mem (List.mem_filter.mp counted).1

variable [LinearOrder D]

/-- `merge_results` of the answers to every group. -/
def mergeGroups (groups : List (List (List (ℤ × D)))) (topK : ℕ)
    (deletedIds deletedAgain : Finset ℤ) : List (ℤ × D) :=
  mergeResults (groups.map fun group => mergeResults group topK deletedIds) topK deletedAgain

variable {groups : List (List (List (ℤ × D)))} {topK : ℕ} {deletedIds deletedAgain : Finset ℤ}

/-- No answer lists a deleted id, so nothing is deleted from the answers. -/
theorem undeleted_answers (within : deletedAgain ⊆ deletedIds) :
    undeleted (groups.map fun group => mergeResults group topK deletedIds) deletedAgain =
      (groups.map fun group => mergeResults group topK deletedIds).flatten := by
  rw [undeleted, List.filter_eq_self]
  intro hit listed
  rcases List.mem_flatten.mp listed with ⟨answer, isAnswer, selected⟩
  rcases List.mem_map.mp isAnswer with ⟨group, -, rfl⟩
  have counted := ((nearestById_mergeResults group topK deletedIds).least hit selected).1
  exact decide_eq_true fun again => (mem_undeleted.mp counted).2 (within again)

theorem nearestById_mergeGroups (within : deletedAgain ⊆ deletedIds) :
    NearestById topK (undeleted groups.flatten deletedIds)
      (mergeGroups groups topK deletedIds deletedAgain) := by
  have near := nearestById_mergeResults
    (groups.map fun group => mergeResults group topK deletedIds) topK deletedAgain
  rw [undeleted_answers within, ← List.flatMap_def] at near
  apply near.of_parts fun group => undeleted group deletedIds
  · intro hit
    rw [undeleted_flatten, ← List.flatMap_def, List.mem_flatMap]
  · intro group _
    exact nearestById_mergeResults group topK deletedIds

/-- Groups without a common id keep their ids and places. -/
theorem mergeGroups_of_apart (within : deletedAgain ⊆ deletedIds) (apart : GroupsApart groups) :
    mergeGroups groups topK deletedIds deletedAgain =
      mergeResults groups.flatten topK deletedIds := by
  let parts := groups.map fun group => (leastRows (undeleted group deletedIds)).entries
  have whole : (leastRows (undeleted groups.flatten deletedIds)).entries = parts.flatten := by
    have noCommon : (groups.map fun group => undeleted group deletedIds).Pairwise
        fun rows rows' => ∀ p ∈ rows, ∀ q ∈ rows', p.1 ≠ q.1 := by
      rw [List.pairwise_map]
      apply apart.imp
      intro group group' disjoint p counted q counted' same
      exact disjoint (mem_resultIds_of_undeleted counted)
        (same ▸ mem_resultIds_of_undeleted counted')
    rw [undeleted_flatten, entries_leastRows_flatten noCommon, List.map_map]
    rfl
  have distinct : (parts.flatten.map Prod.fst).Nodup := by
    rw [← whole]
    exact (leastRows _).nodup
  have answers : (groups.map fun group => mergeResults group topK deletedIds) =
      parts.map fun rows => nsmallest topK rows Prod.snd := by
    rw [List.map_map]
    exact List.map_congr_left fun group _ => mergeResults_eq group topK deletedIds
  rw [mergeGroups, mergeResults_eq, undeleted_answers within, answers,
    leastRows_of_nodup (nodup_cuts distinct topK), nsmallest_flatten distinct, mergeResults_eq,
    whole]

/-- **Top-k merging is hierarchical.**  The ids deleted from the answers may be those
deleted in the groups, or none, or any of them. -/
theorem mergeResults_groups (groups : List (List (List (ℤ × D)))) (topK : ℕ)
    {deletedIds deletedAgain : Finset ℤ} (within : deletedAgain ⊆ deletedIds) :
    (mergeGroups groups topK deletedIds deletedAgain).map Prod.snd =
        (mergeResults groups.flatten topK deletedIds).map Prod.snd ∧
      (GroupsApart groups → mergeGroups groups topK deletedIds deletedAgain =
        mergeResults groups.flatten topK deletedIds) :=
  ⟨(nearestById_mergeGroups within).distances_unique (nearestById_mergeResults _ topK _),
    mergeGroups_of_apart within⟩

/-- Two groups with a tie between them, and a deleted id. -/
theorem mergeResults_groups_tied :
    mergeGroups [[[(5, 1), (6, 0)], [(5, 0)]], [[(7, 0), (8, 0)]]] 2 {6} {6} = [(5, (0 : ℕ)), (7, 0)] ∧
      mergeGroups [[[(5, 1), (6, 0)], [(5, 0)]], [[(7, 0), (8, 0)]]] 2 {6} {6} =
        mergeResults [[(5, (1 : ℕ)), (6, 0)], [(5, 0)], [(7, 0), (8, 0)]] 2 {6} := by
  have apart : GroupsApart [[[(5, (1 : ℕ)), (6, 0)], [(5, 0)]], [[(7, 0), (8, 0)]]] := by
    simp [GroupsApart, resultIds]
  exact ⟨by decide +kernel, (mergeResults_groups _ 2 (Finset.Subset.refl {6})).2 apart⟩

end VecScale
