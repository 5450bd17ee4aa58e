import VecScale.Lib.NearestParts

/-!
# Ties in a selection by key

A selection that reads its rows in order settles ties by it: of two keys at one least
distance, the one that occurs first is listed first, and it is the last ones that are cut.

* `StableById`: a selection by key with its ties in order of first occurrence;
* `stableById_nsmallest`: the stable cut of the least rows is one;
* `placeIn_lt_of_filter`: rows taken out leave the order of the other keys.

How a selection settles ties is open: `Nearest.notMem_of_nearer` tells the rows that no
selection lists, and `exists_key_eq_of_countP_lt` is there to find a selection that lists
one of the others.
-/

variable {κ δ : Type} [DecidableEq κ]

/-! ## Places -/

theorem placeIn_append_of_mem {rows : List (κ × δ)} {x : κ} (listed : x ∈ rows.map Prod.fst)
    (later : List (κ × δ)) : placeIn (rows ++ later) x = placeIn rows x := by
  rw [placeIn, List.map_append]
  exact List.idxOf_append_of_mem listed

theorem placeIn_lt_length {rows : List (κ × δ)} {x : κ} (listed : x ∈ rows.map Prod.fst) :
    placeIn rows x < rows.length := by
  rw [← List.length_map (f := Prod.fst)]
  exact List.idxOf_lt_length_of_mem listed

theorem le_placeIn_of_absent {rows : List (κ × δ)} {x : κ} (absent : x ∉ rows.map Prod.fst)
    (later : List (κ × δ)) : rows.length ≤ placeIn (rows ++ later) x := by
  rw [placeIn, List.map_append, List.idxOf_append_of_notMem absent, List.length_map]
  exact Nat.le_add_right _ _

theorem placeIn_cons (p : κ × δ) (rows : List (κ × δ)) (x : κ) :
    placeIn (p :: rows) x = if p.1 = x then 0 else placeIn rows x + 1 := by
  simp only [placeIn, List.map_cons, List.idxOf_cons, cond_eq_ite, beq_iff_eq]

/-- Keys in the order of what is left of some rows are in the order of all of them. -/
theorem placeIn_lt_of_filter (keep : κ → Bool) {rows : List (κ × δ)} {x y : κ}
    (keptX : keep x = true) (keptY : keep y = true)
    (before : placeIn (rows.filter fun p => keep p.1) x < placeIn (rows.filter fun p => keep p.1) y) :
    placeIn rows x < placeIn rows y := by
  induction rows with
  | nil => exact absurd before (Nat.lt_irrefl 0)
  | cons p rows ih =>
      rw [placeIn_cons, placeIn_cons]
      cases kept : keep p.1 with
      | false =>
          have skipX : p.1 ≠ x := fun same => absurd keptX (by rw [← same, kept]; decide)
          have skipY : p.1 ≠ y := fun same => absurd keptY (by rw [← same, kept]; decide)
          rw [List.filter_cons, kept, if_neg Bool.false_ne_true] at before
          rw [if_neg skipX, if_neg skipY]
          exact Nat.succ_lt_succ (ih before)
      | true =>
          rw [List.filter_cons, if_pos kept, placeIn_cons, placeIn_cons] at before
          by_cases second : p.1 = y
          · rw [if_pos second] at before
            exact absurd before (Nat.not_lt_zero _)
          · rw [if_neg second] at before ⊢
            by_cases first : p.1 = x
            · rw [if_pos first]
              exact Nat.succ_pos _
            · rw [if_neg first] at before ⊢
              exact Nat.succ_lt_succ (ih (Nat.lt_of_succ_lt_succ before))

/-! ## The order of the least rows -/

variable [LinearOrder δ]

theorem keys_keepLeast (seen : Dict κ δ) (p : κ × δ) :
    (keepLeast seen p).keys = if p.1 ∈ seen.keys then seen.keys else seen.keys ++ [p.1] := by
  unfold keepLeast
  cases found : seen.get? p.1 with
  | none =>
      change (seen.set p.1 p.2).keys = _
      rw [Dict.keys_set]
  | some d =>
      have present : p.1 ∈ seen.keys := Dict.mem_keys_iff.mpr ⟨d, found⟩
      rw [if_pos present]
      change (if p.2 < d then seen.set p.1 p.2 else seen).keys = _
      split
      · rw [Dict.keys_set, if_pos present]
      · rfl

/-- A smaller distance is written over the greater one, so keys stay where they came first. -/
theorem pairwise_keys_leastRows (rows : List (κ × δ)) :
    (leastRows rows).keys.Pairwise fun x y => placeIn rows x < placeIn rows y := by
  induction rows using List.reverseRecOn with
  | nil => exact List.Pairwise.nil
  | append_singleton rows p ih =>
      have step : leastRows (rows ++ [p]) = keepLeast (leastRows rows) p := by
        rw [leastRows, List.foldl_append]
        rfl
      have listed : ∀ x ∈ (leastRows rows).keys, x ∈ rows.map Prod.fst := fun x =>
        (mem_keys_leastRows rows x).mp
      have kept : (leastRows rows).keys.Pairwise fun x y =>
          placeIn (rows ++ [p]) x < placeIn (rows ++ [p]) y := by
        refine ih.imp_of_mem fun {x y} left right before => ?_
        rw [placeIn_append_of_mem (listed x left), placeIn_append_of_mem (listed y right)]
        exact before
      rw [step, keys_keepLeast]
      by_cases present : p.1 ∈ (leastRows rows).keys
      · rw [if_pos present]
        exact kept
      · rw [if_neg present, List.pairwise_append]
        refine ⟨kept, List.pairwise_singleton _ _, ?_⟩
        intro x left y right
        rw [List.mem_singleton.mp right, placeIn_append_of_mem (listed x left)]
        have absent : p.1 ∉ rows.map Prod.fst := fun here =>
          present ((mem_keys_leastRows rows p.1).mpr here)
        exact (placeIn_lt_length (listed x left)).trans_le (le_placeIn_of_absent absent [p])

/-! ## Stable selections -/

/-- A selection by key with ties in order of first occurrence, the omitted keys last. -/
structure StableById (k : ℕ) (rows out : List (κ × δ)) : Prop extends NearestById k rows out where
  tied : out.Pairwise fun a b => a.2 = b.2 → placeIn rows a.1 < placeIn rows b.1
  cut : ∀ x d, Least rows x d → x ∉ out.map Prod.fst →
    ∀ q ∈ out, q.2 = d → placeIn rows q.1 < placeIn rows x

/-- At one distance, the rank is the place. -/
theorem placeIn_lt_of_rankIn {rows : List (κ × δ)} {a b : κ × δ} (listed : a.1 ∈ rows.map Prod.fst)
    (other : a.1 ≠ b.1) (within : rankIn rows a ≤ rankIn rows b) (tie : a.2 = b.2) :
    placeIn rows a.1 < placeIn rows b.1 := by
  rw [rankIn, rankIn, Prod.Lex.toLex_le_toLex] at within
  rcases within with closer | ⟨-, place⟩
  · exact absurd tie (ne_of_lt closer)
  · refine lt_of_le_of_ne place fun same => other ?_
    exact (List.idxOf_inj listed).mp same

/-- **The stable cut.**  Cutting the sorted least rows settles ties by first occurrence. -/
theorem stableById_nsmallest (k : ℕ) (rows : List (κ × δ)) :
    StableById k rows (nsmallest k (leastRows rows).entries Prod.snd) := by
  have near := nearestById_nsmallest k rows
  have ordered : (leastRows rows).entries.Pairwise fun a b =>
      placeIn rows a.1 < placeIn rows b.1 := by
    have keys := pairwise_keys_leastRows rows
    rwa [Dict.keys, List.pairwise_map] at keys
  have listed : ∀ q ∈ nsmallest k (leastRows rows).entries Prod.snd, q.1 ∈ rows.map Prod.fst :=
    fun q selected => List.mem_map_of_mem (near.least q selected).1
  have byRank := nsmallest_rankIn ordered k
  refine ⟨near, ?_, ?_⟩
  · have rising := pairwise_nsmallest k (leastRows rows).entries (rankIn rows)
    rw [← byRank] at rising
    refine (rising.and (List.pairwise_map.mp near.nodup)).imp_of_mem ?_
    intro a b left _ both tie
    exact placeIn_lt_of_rankIn (listed a left) both.2 both.1 tie
  · intro x d least omitted q selected tie
    obtain ⟨rest, perm, closer⟩ := nsmallest_split k (leastRows rows).entries (rankIn rows)
    rw [← byRank] at perm closer
    have entry : (x, d) ∈ (leastRows rows).entries :=
      Dict.mem_entries_iff.mpr ((get?_leastRows rows x d).mpr least)
    have left : (x, d) ∈ rest := by
      rcases List.mem_append.mp (perm.mem_iff.mp entry) with inside | outside
      · exact absurd (List.mem_map_of_mem inside) omitted
      · exact outside
    have other : q.1 ≠ x := fun same => omitted (same ▸ List.mem_map_of_mem selected)
    exact placeIn_lt_of_rankIn (listed q selected) other (closer q selected (x, d) left) tie

/-! ## Ties left open -/

section Open

omit [DecidableEq κ]

/-- A row with `k` rows before it is in no selection. -/
theorem Nearest.notMem_of_nearer {k : ℕ} {rows out : List (κ × δ)} (near : Nearest k rows out)
    {p : κ × δ} (many : k ≤ rows.countP fun r => r.2 < p.2) : p ∉ out := by
  intro selected
  rcases near.split with ⟨rest, perm, closer⟩
  -- `p` takes one of the places, so one of the nearer rows has none
  have inside : out.countP (fun r => r.2 < p.2) < out.length := by
    rw [List.countP_lt_length_iff]
    exact ⟨p, selected, by simp⟩
  have counted := perm.countP_eq fun r => decide (r.2 < p.2)
  rw [List.countP_append] at counted
  have length := near.length
  have outside : 0 < rest.countP fun r => r.2 < p.2 := by omega
  rcases List.countP_pos_iff.mp outside with ⟨r, left, nearer⟩
  rw [decide_eq_true_eq] at nearer
  exact absurd (closer p selected r left) (not_le.mpr nearer)

/-- A cut settles ties in whatever order it is made to. -/
theorem nearest_nsmallest_lex {τ : Type} [LinearOrder τ] (k : ℕ) (rows : List (κ × δ))
    (tie : κ × δ → τ) : Nearest k rows (nsmallest k rows fun p => toLex (p.2, tie p)) := by
  have first : ∀ {a b : κ × δ}, toLex (a.2, tie a) ≤ toLex (b.2, tie b) → a.2 ≤ b.2 := by
    intro a b within
    rcases Prod.Lex.toLex_le_toLex.mp within with closer | ⟨same, -⟩
    · exact closer.le
    · exact same.le
  obtain ⟨rest, perm, closer⟩ := nsmallest_split k rows fun p => toLex (p.2, tie p)
  have sorted := pairwise_nsmallest k rows fun p => toLex (p.2, tie p)
  refine ⟨sorted.imp fun within => first within, ⟨rest, perm, ?_⟩, length_nsmallest k rows _⟩
  exact fun a selected b left => first (closer a selected b left)

/-- With fewer than `k` items before it, an item is in the cut, or one that ties with it is. -/
theorem exists_key_eq_of_countP_lt {α : Type} {k : ℕ} {items : List α} {key : α → δ} {a : α}
    (member : a ∈ items) (few : items.countP (fun b => key b < key a) < k) :
    ∃ b ∈ nsmallest k items key, key b = key a := by
  obtain ⟨rest, perm, closer⟩ := nsmallest_split k items key
  rcases List.mem_append.mp (perm.mem_iff.mp member) with selected | left
  · exact ⟨a, selected, rfl⟩
  · have counted := perm.countP_eq fun b => decide (key b < key a)
    rw [List.countP_append] at counted
    have length := length_nsmallest k items key
    have total := perm.length_eq
    rw [List.length_append] at total
    have more := List.length_pos_of_mem left
    have some : (nsmallest k items key).countP (fun b => key b < key a) <
        (nsmallest k items key).length := by omega
    rcases List.countP_lt_length_iff.mp some with ⟨b, selected, notBefore⟩
    refine ⟨b, selected, le_antisymm (closer b selected a left) ?_⟩
    rwa [decide_eq_false_iff_not, not_lt] at notBefore

end Open
