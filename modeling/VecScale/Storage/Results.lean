import VecScale.Lib.NearestTies
import VecScale.Models

/-!
# Merging search results

`mergeResults` keeps, over several result lists, the least distance of every id
that is not deleted, and lists the `topK` nearest ids.  Results are lists of
hits, an id with its distance.

* `nearestById_mergeResults`: that is a nearest selection by id;
* `mergeResults_contract`: what the callers rely on, in terms of the results.
-/

namespace VecScale

variable {D : Type} [LinearOrder D]

/-- `filter_result_ids`. -/
def filterResultIds (hits : List (ℤ × D)) (hiddenIds : Finset ℤ) : List (ℤ × D) :=
  hits.filter fun hit => hit.1 ∉ hiddenIds

omit [LinearOrder D] in
theorem filterResultIds_congr {hits : List (ℤ × D)} {hiddenIds hiddenIds' : Finset ℤ}
    (same : ∀ hit ∈ hits, hit.1 ∈ hiddenIds ↔ hit.1 ∈ hiddenIds') :
    filterResultIds hits hiddenIds = filterResultIds hits hiddenIds' :=
  List.filter_congr fun hit member => by rw [decide_eq_decide, not_iff_not, same hit member]

/-- One turn of the inner loop of `merge_results`. -/
def mergeHit (deletedIds : Finset ℤ) (seen : Dict ℤ D) (hit : ℤ × D) : Dict ℤ D :=
  if hit.1 ∈ deletedIds then seen else keepLeast seen hit

/-- `merge_results`. -/
def mergeResults (results : List (List (ℤ × D))) (topK : ℕ) (deletedIds : Finset ℤ) :
    List (ℤ × D) :=
  let seen := results.foldl (fun seen hits => hits.foldl (mergeHit deletedIds) seen) ∅
  nsmallest topK seen.entries Prod.snd

/-- The hits that `mergeResults` counts. -/
def undeleted (results : List (List (ℤ × D))) (deletedIds : Finset ℤ) : List (ℤ × D) :=
  results.flatten.filter fun hit => hit.1 ∉ deletedIds

omit [LinearOrder D] in
theorem undeleted_empty (results : List (List (ℤ × D))) : undeleted results ∅ = results.flatten :=
  List.filter_eq_self.mpr fun _ _ => by simp

theorem mergeResults_eq (results : List (List (ℤ × D))) (topK : ℕ) (deletedIds : Finset ℤ) :
    mergeResults results topK deletedIds =
      nsmallest topK (leastRows (undeleted results deletedIds)).entries Prod.snd := by
  have loop : ∀ seen : Dict ℤ D,
      results.foldl (fun seen hits => hits.foldl (mergeHit deletedIds) seen) seen =
        (undeleted results deletedIds).foldl keepLeast seen := by
    intro seen
    rw [undeleted, List.foldl_filter, List.foldl_flatten]
    congr 1
    funext seen hits
    congr 1
    funext seen hit
    by_cases deleted : hit.1 ∈ deletedIds <;> simp [mergeHit, deleted]
  rw [mergeResults, loop, leastRows]

theorem nearestById_mergeResults (results : List (List (ℤ × D))) (topK : ℕ)
    (deletedIds : Finset ℤ) :
    NearestById topK (undeleted results deletedIds) (mergeResults results topK deletedIds) := by
  rw [mergeResults_eq]
  exact nearestById_nsmallest topK _

omit [LinearOrder D] in
theorem mem_undeleted_flatten {results : List (List (ℤ × D))} {deletedIds : Finset ℤ} {hit : ℤ × D} :
    hit ∈ undeleted results deletedIds ↔ hit ∈ results.flatten ∧ hit.1 ∉ deletedIds := by
  rw [undeleted, List.mem_filter, decide_eq_true_eq]

omit [LinearOrder D] in
theorem mem_undeleted {results : List (List (ℤ × D))} {deletedIds : Finset ℤ} {hit : ℤ × D} :
    hit ∈ undeleted results deletedIds ↔
      (∃ hits ∈ results, hit ∈ hits) ∧ hit.1 ∉ deletedIds := by
  rw [mem_undeleted_flatten, List.mem_flatten]

/-! ## The contract -/

/-- An id that is not deleted keeps all its hits. -/
theorem least_undeleted {results : List (List (ℤ × D))} {deletedIds : Finset ℤ} {x : ℤ} {d : D} :
    Least (undeleted results deletedIds) x d ↔ Least results.flatten x d ∧ x ∉ deletedIds := by
  simp only [Least, mem_undeleted_flatten]
  constructor
  · rintro ⟨⟨listed, kept⟩, least⟩
    exact ⟨⟨listed, fun d' other => least d' ⟨other, kept⟩⟩, kept⟩
  · rintro ⟨⟨listed, least⟩, kept⟩
    exact ⟨⟨listed, kept⟩, fun d' other => least d' other.1⟩

omit [LinearOrder D] in
theorem rowIds_undeleted (results : List (List (ℤ × D))) (deletedIds : Finset ℤ) :
    rowIds (undeleted results deletedIds) = rowIds results.flatten \ deletedIds := by
  ext x
  simp only [mem_rowIds, mem_undeleted_flatten, Finset.mem_sdiff, exists_and_right]

/-- What a list merged from `results` without `deletedIds` must be.  Ids stand in order
of distance, ids of one distance in order of first occurrence. -/
structure MergeContract (results : List (List (ℤ × D))) (topK : ℕ) (deletedIds : Finset ℤ)
    (out : List (ℤ × D)) : Prop where
  nodup : (out.map Prod.fst).Nodup
  undeleted : ∀ hit ∈ out, hit.1 ∉ deletedIds
  length : out.length = min topK (rowIds results.flatten \ deletedIds).card
  least : ∀ hit ∈ out, Least results.flatten hit.1 hit.2
  ascending : out.Pairwise fun a b => a.2 ≤ b.2
  tied : out.Pairwise fun a b =>
    a.2 = b.2 → placeIn results.flatten a.1 < placeIn results.flatten b.1
  best : ∀ x d, Least results.flatten x d → x ∉ deletedIds → x ∉ out.map Prod.fst →
    ∀ hit ∈ out, hit.2 ≤ d
  cut : ∀ x d, Least results.flatten x d → x ∉ deletedIds → x ∉ out.map Prod.fst →
    ∀ hit ∈ out, hit.2 = d → placeIn results.flatten hit.1 < placeIn results.flatten x

/-- **The contract of `merge_results`.** -/
theorem mergeResults_contract (results : List (List (ℤ × D))) (topK : ℕ) (deletedIds : Finset ℤ) :
    MergeContract results topK deletedIds (mergeResults results topK deletedIds) := by
  have stable : StableById topK (undeleted results deletedIds)
      (mergeResults results topK deletedIds) := by
    rw [mergeResults_eq]
    exact stableById_nsmallest topK _
  have kept : ∀ hit ∈ mergeResults results topK deletedIds,
      Least results.flatten hit.1 hit.2 ∧ hit.1 ∉ deletedIds := fun hit selected =>
    least_undeleted.mp (stable.least hit selected)
  -- the order among all hits is the order among those that count
  have place : ∀ {x y : ℤ}, x ∉ deletedIds → y ∉ deletedIds →
      placeIn (undeleted results deletedIds) x < placeIn (undeleted results deletedIds) y →
      placeIn results.flatten x < placeIn results.flatten y := by
    intro x y keptX keptY before
    exact placeIn_lt_of_filter (fun x => decide (x ∉ deletedIds)) (decide_eq_true keptX)
      (decide_eq_true keptY) before
  refine ⟨stable.nodup, fun hit selected => (kept hit selected).2, ?_,
    fun hit selected => (kept hit selected).1, stable.ascending, ?_, ?_, ?_⟩
  · rw [stable.length, rowIds_undeleted]
  · refine stable.tied.imp_of_mem fun {a b} left right before tie => ?_
    exact place (kept a left).2 (kept b right).2 (before tie)
  · intro x d least keptX omitted hit selected
    exact stable.best (x, d) (least_undeleted.mpr ⟨least, keptX⟩).1 omitted hit selected
  · intro x d least keptX omitted hit selected tie
    exact place (kept hit selected).2 keptX
      (stable.cut x d (least_undeleted.mpr ⟨least, keptX⟩) omitted hit selected tie)

end VecScale
