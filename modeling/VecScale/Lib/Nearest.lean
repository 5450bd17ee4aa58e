import Mathlib.Data.Finset.Card
import Mathlib.Data.Finset.Lattice.Lemmas
import Mathlib.Data.List.Sort
import VecScale.Lib.Dict

/-!
# Selecting the nearest rows

A row is a key with a distance from a linear order.  Two selections matter:

* `Nearest k rows out`: `out` lists `k` rows (all of them when there are fewer)
  in ascending distance, and no row left out is closer than one listed;
* `NearestById k rows out`: the same for keys, a key counting once with the
  least distance any of its rows has.

`nsmallest` over `leastRows` computes a `NearestById` selection
(`nearestById_nsmallest`).  `NearestById.iff_covered` is the fact used wherever
a selection is made after some rows were already thrown away: selecting from
the retained rows is selecting from all of them exactly when every row is
`Covered` by the retained ones.
-/

variable {κ δ : Type} [LinearOrder δ]

/-- `heapq.nsmallest(k, items, key)`: a stable sort, cut to `k`. -/
def nsmallest {α : Type} (k : ℕ) (items : List α) (key : α → δ) : List α :=
  (items.insertionSort fun a b => key a ≤ key b).take k

/-- `out` is a choice of `k` nearest rows, in ascending distance. -/
structure Nearest (k : ℕ) (rows out : List (κ × δ)) : Prop where
  ascending : out.Pairwise fun a b => a.2 ≤ b.2
  split : ∃ rest, rows.Perm (out ++ rest) ∧ ∀ a ∈ out, ∀ b ∈ rest, a.2 ≤ b.2
  length : out.length = min k rows.length

/-- `d` is the least distance among the rows of `x`. -/
def Least (rows : List (κ × δ)) (x : κ) (d : δ) : Prop :=
  (x, d) ∈ rows ∧ ∀ d', (x, d') ∈ rows → d ≤ d'

/-! ## The sorted cut -/

theorem pairwise_sorted_key {α : Type} (items : List α) (key : α → δ) :
    (items.insertionSort fun a b => key a ≤ key b).Pairwise fun a b => key a ≤ key b := by
  have total : Std.Total fun a b : α => key a ≤ key b := ⟨fun a b => le_total (key a) (key b)⟩
  have trans : IsTrans α fun a b => key a ≤ key b := ⟨fun _ _ _ => le_trans⟩
  exact List.pairwise_insertionSort _ items

theorem nsmallest_split {α : Type} (k : ℕ) (items : List α) (key : α → δ) :
    ∃ rest, items.Perm (nsmallest k items key ++ rest) ∧
      ∀ a ∈ nsmallest k items key, ∀ b ∈ rest, key a ≤ key b := by
  have sorted := pairwise_sorted_key items key
  rw [← List.take_append_drop k (items.insertionSort _), List.pairwise_append] at sorted
  refine ⟨(items.insertionSort _).drop k, ?_, sorted.2.2⟩
  rw [nsmallest, List.take_append_drop]
  exact (List.perm_insertionSort _ items).symm

/-- Cutting an ascending list to at least its length leaves it as it is. -/
theorem nsmallest_of_pairwise {α : Type} {k : ℕ} {items : List α} {key : α → δ}
    (ascending : items.Pairwise fun a b => key a ≤ key b) (large : items.length ≤ k) :
    nsmallest k items key = items := by
  rw [nsmallest, List.Pairwise.insertionSort_eq ascending, List.take_of_length_le large]

theorem length_nsmallest {α : Type} (k : ℕ) (items : List α) (key : α → δ) :
    (nsmallest k items key).length = min k items.length := by
  rw [nsmallest, List.length_take, List.length_insertionSort]

theorem pairwise_nsmallest {α : Type} (k : ℕ) (items : List α) (key : α → δ) :
    (nsmallest k items key).Pairwise fun a b => key a ≤ key b :=
  (pairwise_sorted_key items key).sublist (List.take_sublist _ _)

/-- The sorted cut is a nearest selection. -/
theorem nearest_nsmallest (k : ℕ) (rows : List (κ × δ)) :
    Nearest k rows (nsmallest k rows Prod.snd) :=
  ⟨pairwise_nsmallest k rows _, nsmallest_split k rows _, length_nsmallest k rows _⟩

namespace Nearest

variable {k : ℕ} {rows out : List (κ × δ)}

theorem mem (nearest : Nearest k rows out) {p : κ × δ} (member : p ∈ out) : p ∈ rows := by
  rcases nearest.split with ⟨rest, perm, -⟩
  exact perm.mem_iff.mpr (List.mem_append_left _ member)

/-- A selection at least as large as the input permutes it. -/
theorem perm_of_length_le (nearest : Nearest k rows out) (large : rows.length ≤ k) :
    rows.Perm out := by
  rcases nearest.split with ⟨rest, perm, -⟩
  have none_left : rest.length = 0 := by
    have lengths := perm.length_eq
    have selected := nearest.length
    rw [List.length_append] at lengths
    omega
  rw [List.length_eq_zero_iff] at none_left
  simpa [none_left] using perm

theorem mem_iff (nearest : Nearest k rows out) (large : rows.length ≤ k) {p : κ × δ} :
    p ∈ out ↔ p ∈ rows :=
  (nearest.perm_of_length_le large).mem_iff.symm

/-- There is no need to ask for more rows than there are. -/
theorem min_iff : Nearest (min k rows.length) rows out ↔ Nearest k rows out := by
  have same : min (min k rows.length) rows.length = min k rows.length :=
    min_eq_left (min_le_right _ _)
  constructor
  · intro near
    exact ⟨near.ascending, near.split, near.length.trans same⟩
  · intro near
    exact ⟨near.ascending, near.split, near.length.trans same.symm⟩

end Nearest

/-! ## One distance per key -/

theorem Least.unique {rows : List (κ × δ)} {x : κ} {d d' : δ}
    (left : Least rows x d) (right : Least rows x d') : d = d' :=
  le_antisymm (left.2 d' right.1) (right.2 d left.1)

section LeastRows

variable [DecidableEq κ]

/-- Keep the smaller of the distance seen so far and the one of `p`; a new key
is appended. -/
def keepLeast (seen : Dict κ δ) (p : κ × δ) : Dict κ δ :=
  match seen.get? p.1 with
  | none => seen.set p.1 p.2
  | some d => if p.2 < d then seen.set p.1 p.2 else seen

/-- The least distance of every key, keys in order of first occurrence. -/
def leastRows (rows : List (κ × δ)) : Dict κ δ := rows.foldl keepLeast ∅

theorem get?_keepLeast (seen : Dict κ δ) (p : κ × δ) (x : κ) :
    (keepLeast seen p).get? x =
      if p.1 = x then some (match seen.get? x with | none => p.2 | some d => min d p.2)
      else seen.get? x := by
  unfold keepLeast
  by_cases same : p.1 = x
  · subst same
    cases found : seen.get? p.1 with
    | none => simp
    | some d =>
        by_cases closer : p.2 < d
        · simp [closer, min_eq_right closer.le]
        · simp [closer, found, min_eq_left (not_lt.mp closer)]
  · cases found : seen.get? p.1 with
    | none => simp [same]
    | some d => by_cases closer : p.2 < d <;> simp [closer, same]

/-- The loop invariant of `leastRows`, one row at a time. -/
theorem leastRows_cases (rows : List (κ × δ)) (x : κ) :
    (∃ d, (leastRows rows).get? x = some d ∧ Least rows x d) ∨
      ((leastRows rows).get? x = none ∧ ∀ d, (x, d) ∉ rows) := by
  induction rows using List.reverseRecOn with
  | nil => exact Or.inr ⟨rfl, by simp⟩
  | append_singleton rows p ih =>
      rcases p with ⟨y, e⟩
      have step : leastRows (rows ++ [(y, e)]) = keepLeast (leastRows rows) (y, e) := by
        simp [leastRows, List.foldl_append]
      simp only [step, get?_keepLeast, Least, List.mem_append, List.mem_singleton, Prod.mk.injEq]
      by_cases same : y = x
      · subst same
        left
        rcases ih with ⟨d, found, least⟩ | ⟨missing, absent⟩
        · refine ⟨min d e, by simp [found], ?_, ?_⟩
          · rcases min_choice d e with h | h
            · rw [h]
              exact Or.inl least.1
            · exact Or.inr ⟨rfl, h⟩
          · rintro d' (member | ⟨-, rfl⟩)
            · exact (min_le_left d e).trans (least.2 d' member)
            · exact min_le_right d d'
        · refine ⟨e, by simp [missing], Or.inr ⟨rfl, rfl⟩, ?_⟩
          rintro d' (member | ⟨-, rfl⟩)
          · exact absurd member (absent d')
          · exact le_rfl
      · simp only [if_neg same, Ne.symm same, false_and, or_false]
        exact ih

theorem get?_leastRows (rows : List (κ × δ)) (x : κ) (d : δ) :
    (leastRows rows).get? x = some d ↔ Least rows x d := by
  rcases leastRows_cases rows x with ⟨e, found, least⟩ | ⟨missing, absent⟩
  · rw [found, Option.some.injEq]
    exact ⟨fun same => same ▸ least, fun other => least.unique other⟩
  · rw [missing]
    exact ⟨fun h => (Option.some_ne_none _ h.symm).elim, fun h => absurd h.1 (absent d)⟩

theorem mem_keys_leastRows (rows : List (κ × δ)) (x : κ) :
    x ∈ (leastRows rows).keys ↔ x ∈ rows.map Prod.fst := by
  rw [Dict.mem_keys_iff]
  rcases leastRows_cases rows x with ⟨d, found, least⟩ | ⟨missing, absent⟩
  · exact ⟨fun _ => List.mem_map.mpr ⟨(x, d), least.1, rfl⟩, fun _ => ⟨d, found⟩⟩
  · simp only [missing, reduceCtorEq, exists_false, false_iff, List.mem_map, Prod.exists,
      exists_and_right, exists_eq_right, not_exists]
    exact absent

/-- Rows of distinct keys are their own least rows. -/
theorem leastRows_of_nodup {rows : List (κ × δ)} (nodup : (rows.map Prod.fst).Nodup) :
    (leastRows rows).entries = rows := by
  induction rows using List.reverseRecOn with
  | nil => rfl
  | append_singleton rows p ih =>
      rw [List.map_append, List.nodup_append] at nodup
      have absent : p.1 ∉ (leastRows rows).keys := by
        rw [mem_keys_leastRows]
        exact fun listed => nodup.2.2 p.1 listed p.1 List.mem_cons_self rfl
      have step : leastRows (rows ++ [p]) = (leastRows rows).set p.1 p.2 := by
        rw [leastRows, List.foldl_append, ← leastRows, List.foldl_cons, List.foldl_nil, keepLeast,
          Dict.get?_eq_none_iff.mpr absent]
      rw [step, Dict.entries_set_of_absent absent, ih nodup.1]

end LeastRows

/-! ## Ascending lists -/

/-- An ascending list is told by how many of its members lie within every bound. -/
theorem eq_of_countP {l l' : List δ} (ascending : l.Pairwise (· ≤ ·))
    (ascending' : l'.Pairwise (· ≤ ·))
    (same : ∀ d, l.countP (· ≤ d) = l'.countP (· ≤ d)) : l = l' := by
  induction l generalizing l' with
  | nil =>
      cases l' with
      | nil => rfl
      | cons b l' =>
          have count := same b
          rw [List.countP_nil, List.countP_cons_of_pos (by simp)] at count
          omega
  | cons a l ih =>
      cases l' with
      | nil =>
          have count := same a
          rw [List.countP_nil, List.countP_cons_of_pos (by simp)] at count
          omega
      | cons b l' =>
          rw [List.pairwise_cons] at ascending ascending'
          -- a head bounds its list, so each head is within the other
          have within : ∀ {c e : δ} {m m' : List δ}, (∀ x ∈ m', e ≤ x) →
              (c :: m).countP (· ≤ c) = (e :: m').countP (· ≤ c) → e ≤ c := by
            intro c e m m' bound count
            by_contra above
            have none : (e :: m').countP (· ≤ c) = 0 := by
              rw [List.countP_eq_zero]
              intro x member
              rw [decide_eq_true_eq, not_le]
              rcases List.mem_cons.mp member with rfl | later
              · exact not_le.mp above
              · exact (not_le.mp above).trans_le (bound x later)
            rw [none, List.countP_cons_of_pos (by simp)] at count
            omega
          have heads : a = b :=
            le_antisymm (within ascending.1 (same b).symm) (within ascending'.1 (same a))
          subst heads
          rw [ih ascending.2 ascending'.2 fun d => ?_]
          have count := same d
          rw [List.countP_cons, List.countP_cons] at count
          omega

/-! ## Selections that count a key once -/

section NearestById

variable [DecidableEq κ]

/-- The keys of a list of rows. -/
def rowIds (rows : List (κ × δ)) : Finset κ := (rows.map Prod.fst).toFinset

/-- `out` is a choice of `k` keys of least distance, each with its least
distance, in ascending order. -/
structure NearestById (k : ℕ) (rows out : List (κ × δ)) : Prop where
  nodup : (out.map Prod.fst).Nodup
  least : ∀ p ∈ out, Least rows p.1 p.2
  ascending : out.Pairwise fun a b => a.2 ≤ b.2
  length : out.length = min k (rowIds rows).card
  best : ∀ p ∈ rows, p.1 ∉ out.map Prod.fst → ∀ q ∈ out, q.2 ≤ p.2

/-- The keys that have a row within distance `d`. -/
def idsWithin (rows : List (κ × δ)) (d : δ) : Finset κ :=
  rowIds (rows.filter fun p => p.2 ≤ d)

omit [LinearOrder δ] in
theorem mem_rowIds {rows : List (κ × δ)} {x : κ} : x ∈ rowIds rows ↔ ∃ d, (x, d) ∈ rows := by
  simp [rowIds]

theorem mem_idsWithin {rows : List (κ × δ)} {x : κ} {d : δ} :
    x ∈ idsWithin rows d ↔ ∃ e, (x, e) ∈ rows ∧ e ≤ d := by
  simp [idsWithin, mem_rowIds]

/-- Every row is matched by a retained row of its own key that is no farther,
or by `k` retained keys that are no farther. -/
def Covered (k : ℕ) (rows retained : List (κ × δ)) : Prop :=
  ∀ p ∈ rows, (∃ d, (p.1, d) ∈ retained ∧ d ≤ p.2) ∨ k ≤ (idsWithin retained p.2).card

instance (k : ℕ) (rows retained : List (κ × δ)) : Decidable (Covered k rows retained) :=
  decidable_of_iff
    (∀ p ∈ rows, p.1 ∈ idsWithin retained p.2 ∨ k ≤ (idsWithin retained p.2).card)
    (by simp only [Covered, mem_idsWithin])

/-- The stable cut of the least rows is a selection by key. -/
theorem nearestById_nsmallest (k : ℕ) (rows : List (κ × δ)) :
    NearestById k rows (nsmallest k (leastRows rows).entries Prod.snd) := by
  have entries_least : ∀ p, p ∈ (leastRows rows).entries ↔ Least rows p.1 p.2 := by
    rintro ⟨x, d⟩
    rw [Dict.mem_entries_iff, get?_leastRows]
  obtain ⟨rest, perm, closer⟩ :=
    nsmallest_split k (leastRows rows).entries (Prod.snd : κ × δ → δ)
  refine ⟨?_, ?_, pairwise_nsmallest k _ _, ?_, ?_⟩
  · have nodup := (perm.map Prod.fst).nodup_iff.mp (leastRows rows).nodup
    rw [List.map_append] at nodup
    exact (List.nodup_append.mp nodup).1
  · intro p member
    exact (entries_least p).mp (perm.mem_iff.mpr (List.mem_append_left _ member))
  · rw [length_nsmallest]
    congr 1
    have same : rowIds rows = (leastRows rows).keys.toFinset := by
      ext x
      rw [List.mem_toFinset, mem_keys_leastRows, rowIds, List.mem_toFinset]
    rw [same, List.toFinset_card_of_nodup (Dict.keys_nodup _), Dict.keys, List.length_map]
  · rintro ⟨x, d⟩ member omitted q selected
    obtain ⟨e, least⟩ : ∃ e, Least rows x e := by
      rcases leastRows_cases rows x with ⟨e, -, least⟩ | ⟨-, absent⟩
      · exact ⟨e, least⟩
      · exact absurd member (absent d)
    have inRest : (x, e) ∈ rest := by
      rcases List.mem_append.mp (perm.mem_iff.mp ((entries_least (x, e)).mpr least)) with h | h
      · exact absurd (List.mem_map.mpr ⟨(x, e), h, rfl⟩) omitted
      · exact h
    exact (closer q selected (x, e) inRest).trans (least.2 d member)

namespace NearestById

variable {k : ℕ} {rows retained out : List (κ × δ)}

omit [LinearOrder δ] [DecidableEq κ] in
theorem mem_ids_iff {x : κ} : x ∈ out.map Prod.fst ↔ ∃ d, (x, d) ∈ out := by
  simp

theorem card_ids (near : NearestById k rows out) : (rowIds out).card = out.length := by
  rw [rowIds, List.toFinset_card_of_nodup near.nodup, List.length_map]

theorem ids_subset (near : NearestById k rows out) : rowIds out ⊆ rowIds rows := by
  intro x member
  rcases mem_rowIds.mp member with ⟨d, selected⟩
  exact mem_rowIds.mpr ⟨d, (near.least _ selected).1⟩

/-- Only which rows there are matters. -/
theorem congr {rows' : List (κ × δ)} (same : ∀ p, p ∈ rows ↔ p ∈ rows') :
    NearestById k rows out ↔ NearestById k rows' out := by
  have least : ∀ x d, Least rows x d ↔ Least rows' x d := fun x d => by
    simp only [Least, same]
  have ids : rowIds rows = rowIds rows' := by
    ext x
    simp only [mem_rowIds, same]
  constructor
  · intro near
    exact ⟨near.nodup, fun p selected => (least _ _).mp (near.least p selected), near.ascending,
      ids ▸ near.length, fun p row => near.best p ((same p).mpr row)⟩
  · intro near
    exact ⟨near.nodup, fun p selected => (least _ _).mpr (near.least p selected), near.ascending,
      ids ▸ near.length, fun p row => near.best p ((same p).mp row)⟩

/-- When everything fits, the selection lists the least row of every key. -/
theorem mem_iff (near : NearestById k rows out) (large : (rowIds rows).card ≤ k) {x : κ} {d : δ} :
    (x, d) ∈ out ↔ Least rows x d := by
  refine ⟨near.least _, fun least => ?_⟩
  have all : rowIds out = rowIds rows := by
    refine Finset.eq_of_subset_of_card_le near.ids_subset ?_
    rw [near.card_ids, near.length, min_eq_right large]
  have listed : x ∈ rowIds out := all ▸ mem_rowIds.mpr ⟨d, least.1⟩
  rcases mem_rowIds.mp listed with ⟨e, selected⟩
  rwa [← (near.least _ selected).unique least]

/-- Two exhaustive selections from the same keys and distances permute each other. -/
theorem perm_of_least_iff {rows' out' : List (κ × δ)} (near : NearestById k rows out)
    {k' : ℕ} (near' : NearestById k' rows' out') (large : (rowIds rows).card ≤ k)
    (large' : (rowIds rows').card ≤ k')
    (same : ∀ x d, Least rows x d ↔ Least rows' x d) : out.Perm out' := by
  refine (List.perm_ext_iff_of_nodup (List.Nodup.of_map _ near.nodup)
    (List.Nodup.of_map _ near'.nodup)).mpr ?_
  rintro ⟨x, d⟩
  rw [near.mem_iff large, near'.mem_iff large', same]

/-- Permuted ascending selections carry one list of distances. -/
theorem distances_eq_of_perm {rows' out' : List (κ × δ)} {k' : ℕ} (near : NearestById k rows out)
    (near' : NearestById k' rows' out') (perm : out.Perm out') :
    out.map Prod.snd = out'.map Prod.snd := by
  refine List.Perm.eq_of_pairwise' (r := (· ≤ ·)) ?_ ?_ (perm.map Prod.snd)
  · exact List.pairwise_map.mpr near.ascending
  · exact List.pairwise_map.mpr near'.ascending

/-- Permuted ascending selections are one list when all distances differ. -/
theorem eq_of_perm {rows' out' : List (κ × δ)} {k' : ℕ} (near : NearestById k rows out)
    (near' : NearestById k' rows' out') (perm : out.Perm out')
    (apart : (out.map Prod.snd).Nodup) : out = out' := by
  refine List.Perm.eq_of_pairwise ?_ near.ascending near'.ascending perm
  intro a b selected selected' before after
  exact List.inj_on_of_nodup_map apart selected (perm.mem_iff.mpr selected')
    (le_antisymm before after)

/-- When `k` retained keys lie within `d`, nothing selected is farther. -/
theorem le_of_within (near : NearestById k retained out) {d : δ}
    (within : k ≤ (idsWithin retained d).card) {q : κ × δ} (selected : q ∈ out) : q.2 ≤ d := by
  by_contra farther
  rw [not_le] at farther
  -- `q` itself is not within `d`, so some key within `d` was not selected
  have outside : q.1 ∉ idsWithin retained d := by
    intro member
    rcases mem_idsWithin.mp member with ⟨e, row, near_d⟩
    exact absurd ((near.least q selected).2 e row) (not_le.mpr (near_d.trans_lt farther))
  have fewer : (rowIds out \ {q.1}).card < k := by
    have inside : q.1 ∈ rowIds out := mem_rowIds.mpr ⟨q.2, selected⟩
    have bound : (rowIds out).card ≤ k := by
      rw [near.card_ids, near.length]
      exact min_le_left _ _
    rw [Finset.card_sdiff_of_subset (Finset.singleton_subset_iff.mpr inside),
      Finset.card_singleton]
    have positive := Finset.card_pos.mpr ⟨q.1, inside⟩
    omega
  obtain ⟨z, zWithin, zOutside⟩ := Finset.exists_mem_notMem_of_card_lt_card
    (lt_of_lt_of_le fewer within)
  rcases mem_idsWithin.mp zWithin with ⟨e, row, near_d⟩
  have omitted : z ∉ out.map Prod.fst := by
    intro listed
    refine zOutside (Finset.mem_sdiff.mpr ⟨by simpa [rowIds] using listed, ?_⟩)
    rw [Finset.mem_singleton]
    rintro rfl
    exact outside zWithin
  exact absurd (near.best (z, e) row omitted q selected) (not_le.mpr (near_d.trans_lt farther))

/-- A selection that leaves a key out is full. -/
theorem length_eq_of_omitted (near : NearestById k rows out) {p : κ × δ} (row : p ∈ rows)
    (omitted : p.1 ∉ out.map Prod.fst) : out.length = k := by
  have short : (rowIds out).card < (rowIds rows).card := by
    refine Finset.card_lt_card (Finset.ssubset_iff_subset_ne.mpr ⟨near.ids_subset, ?_⟩)
    intro same
    have listed : p.1 ∈ rowIds out := same ▸ mem_rowIds.mpr ⟨p.2, row⟩
    exact omitted (by rwa [rowIds, List.mem_toFinset] at listed)
  rw [near.card_ids] at short
  have length := near.length
  omega

/-- **Selecting late.**  A selection among the retained rows is a selection
among all rows exactly when the retained rows cover all of them. -/
theorem iff_covered (near : NearestById k retained out) (sub : ∀ p ∈ retained, p ∈ rows) :
    NearestById k rows out ↔ Covered k rows retained := by
  have ids_sub : rowIds retained ⊆ rowIds rows := by
    intro x member
    rcases mem_rowIds.mp member with ⟨d, row⟩
    exact mem_rowIds.mpr ⟨d, sub _ row⟩
  constructor
  · rintro whole ⟨x, d⟩ row
    by_cases listed : x ∈ out.map Prod.fst
    · rcases mem_ids_iff.mp listed with ⟨e, selected⟩
      exact Or.inl ⟨e, (near.least _ selected).1, (whole.least _ selected).2 d row⟩
    · right
      rw [← whole.length_eq_of_omitted row listed, ← whole.card_ids]
      refine Finset.card_le_card fun y member => ?_
      rcases mem_rowIds.mp member with ⟨e, selected⟩
      exact mem_idsWithin.mpr
        ⟨e, (near.least _ selected).1, whole.best (x, d) row listed _ selected⟩
  · intro covered
    refine ⟨near.nodup, ?_, near.ascending, ?_, ?_⟩
    · rintro ⟨y, e⟩ selected
      refine ⟨sub _ (near.least _ selected).1, fun d row => ?_⟩
      rcases covered (y, d) row with ⟨d', kept, closer⟩ | within
      · exact ((near.least _ selected).2 d' kept).trans closer
      · exact near.le_of_within within selected
    · rw [near.length]
      by_cases enough : k ≤ (rowIds retained).card
      · rw [min_eq_left enough, min_eq_left (enough.trans (Finset.card_le_card ids_sub))]
      · have same : rowIds retained = rowIds rows := by
          refine Finset.Subset.antisymm ids_sub fun x member => ?_
          rcases mem_rowIds.mp member with ⟨d, row⟩
          rcases covered (x, d) row with ⟨d', kept, -⟩ | within
          · exact mem_rowIds.mpr ⟨d', kept⟩
          · refine absurd (within.trans (Finset.card_le_card fun y h => ?_)) enough
            rcases mem_idsWithin.mp h with ⟨e, kept, -⟩
            exact mem_rowIds.mpr ⟨e, kept⟩
        rw [same]
    · rintro ⟨x, d⟩ row omitted q selected
      rcases covered (x, d) row with ⟨d', kept, closer⟩ | within
      · exact (near.best (x, d') kept omitted q selected).trans closer
      · exact near.le_of_within within selected

/-- A selection lists, within every distance, all keys there are or `k` of them. -/
theorem countP_eq (near : NearestById k rows out) (d : δ) :
    out.countP (fun p => p.2 ≤ d) = min k (idsWithin rows d).card := by
  have count : out.countP (fun p => p.2 ≤ d) = (idsWithin out d).card := by
    rw [idsWithin, rowIds, List.toFinset_card_of_nodup, List.length_map, List.countP_eq_length_filter]
    exact near.nodup.sublist (List.filter_sublist.map _)
  have inside : idsWithin out d ⊆ idsWithin rows d := by
    intro x member
    rcases mem_idsWithin.mp member with ⟨e, selected, close⟩
    exact mem_idsWithin.mpr ⟨e, (near.least _ selected).1, close⟩
  by_cases all : idsWithin rows d ⊆ rowIds out
  · have same : idsWithin out d = idsWithin rows d := by
      refine Finset.Subset.antisymm inside fun x member => ?_
      obtain ⟨e, selected⟩ := mem_rowIds.mp (all member)
      rcases mem_idsWithin.mp member with ⟨e', row, close⟩
      exact mem_idsWithin.mpr ⟨e, selected, ((near.least _ selected).2 e' row).trans close⟩
    have bound := List.countP_le_length (p := fun p : κ × δ => decide (p.2 ≤ d)) (l := out)
    rw [near.length] at bound
    rw [count, same] at bound ⊢
    exact (min_eq_right (bound.trans (min_le_left _ _))).symm
  · -- a key within `d` was left out, so all `k` selected keys are within `d`
    rcases Finset.not_subset.mp all with ⟨x, member, omitted⟩
    rcases mem_idsWithin.mp member with ⟨e, row, close⟩
    have unlisted : x ∉ out.map Prod.fst := fun listed => omitted (by rwa [rowIds, List.mem_toFinset])
    have whole : out.countP (fun p => p.2 ≤ d) = out.length := by
      rw [List.countP_eq_length]
      intro q selected
      rw [decide_eq_true_eq]
      exact (near.best (x, e) row unlisted q selected).trans close
    have full := near.length_eq_of_omitted row unlisted
    have many := Finset.card_le_card inside
    rw [← count, whole, full] at many
    rw [whole, full, min_eq_left many]

/-- Two selections of one size from the same rows carry one list of distances. -/
theorem distances_unique {out' : List (κ × δ)} (near : NearestById k rows out)
    (near' : NearestById k rows out') : out.map Prod.snd = out'.map Prod.snd := by
  apply eq_of_countP (List.pairwise_map.mpr near.ascending) (List.pairwise_map.mpr near'.ascending)
  intro d
  rw [List.countP_map, List.countP_map]
  exact (near.countP_eq d).trans (near'.countP_eq d).symm

/-- Short of the greatest distance, two selections list the same keys. -/
theorem mem_of_mem {out' : List (κ × δ)} (near : NearestById k rows out)
    (near' : NearestById k rows out') {x : κ} {d : δ} (selected : (x, d) ∈ out)
    (farther : ∃ q ∈ out', d < q.2) : (x, d) ∈ out' := by
  have least := near.least _ selected
  rcases farther with ⟨q, selected', far⟩
  by_cases listed : x ∈ out'.map Prod.fst
  · rcases mem_ids_iff.mp listed with ⟨e, here⟩
    have same : e = d := (near'.least _ here).unique least
    rwa [same] at here
  · exact absurd far (not_lt.mpr (near'.best (x, d) least.1 listed q selected'))

/-- **Selecting in parts.**  A selection from the selections of all parts is a selection
from all rows. -/
theorem of_parts {ι : Type} {order : List ι} {selections : ι → List (κ × δ)}
    (parts : ι → List (κ × δ))
    (near : NearestById k (order.flatMap selections) out)
    (split : ∀ p, p ∈ rows ↔ ∃ i ∈ order, p ∈ parts i)
    (selected : ∀ i ∈ order, NearestById k (parts i) (selections i)) : NearestById k rows out := by
  have sub : ∀ p ∈ order.flatMap selections, p ∈ rows := by
    intro p member
    rcases List.mem_flatMap.mp member with ⟨i, listed, here⟩
    exact (split p).mpr ⟨i, listed, ((selected i listed).least p here).1⟩
  refine (near.iff_covered sub).mpr fun p row => ?_
  obtain ⟨i, listed, here⟩ := (split p).mp row
  have partNear := selected i listed
  have inside : ∀ q ∈ selections i, q ∈ order.flatMap selections := fun q member =>
    List.mem_flatMap.mpr ⟨i, listed, member⟩
  by_cases kept : p.1 ∈ (selections i).map Prod.fst
  · rcases mem_ids_iff.mp kept with ⟨d, hit⟩
    exact Or.inl ⟨d, inside _ hit, (partNear.least _ hit).2 p.2 here⟩
  · right
    rw [← partNear.length_eq_of_omitted here kept, ← partNear.card_ids]
    refine Finset.card_le_card fun y member => ?_
    rcases mem_rowIds.mp member with ⟨e, hit⟩
    exact mem_idsWithin.mpr ⟨e, inside _ hit, partNear.best p here kept _ hit⟩

end NearestById

/-- The same distances, and the same keys but for the choice among those at the greatest
distance. -/
structure AgreeUpToTies (out out' : List (κ × δ)) : Prop where
  distances : out.map Prod.snd = out'.map Prod.snd
  ids : ∀ x d, (∃ q ∈ out, d < q.2) → ((x, d) ∈ out ↔ (x, d) ∈ out')

/-- Two selections of one size from the same rows agree. -/
theorem NearestById.agree {k : ℕ} {rows out out' : List (κ × δ)} (near : NearestById k rows out)
    (near' : NearestById k rows out') : AgreeUpToTies out out' := by
  have distances := near.distances_unique near'
  refine ⟨distances, fun x d farther => ?_⟩
  have farther' : ∃ q ∈ out', d < q.2 := by
    rcases farther with ⟨q, selected, far⟩
    have listed : q.2 ∈ out'.map Prod.snd := by
      rw [← distances]
      exact List.mem_map_of_mem selected
    rcases List.mem_map.mp listed with ⟨q', selected', same⟩
    exact ⟨q', selected', by rwa [same]⟩
  exact ⟨fun selected => near.mem_of_mem near' selected farther',
    fun selected => near'.mem_of_mem near selected farther⟩

end NearestById
