import Mathlib.Data.List.Flatten
import VecScale.Lib.NearestTies

/-!
# Filtering after the cut

Rows stand in parts.  Every part is cut to its `k` nearest rows first, and only then loses
the keys it must not show and the keys that are no answers at all.  Hidden rows take places
in the cut, so a part can lose rows that a filter before the cut would have kept.

* `CutsCover`: whatever rows of equal distance the cuts prefer, what is left covers every
  row that the filters keep;
* `cutsCover_of_shown`: parts that hide nothing lose nothing;
* `CutsCleanly`, `inReach`: when no cut falls between rows of equal distance, a row comes
  through exactly when fewer than `k` rows of its part are nearer;
* `covered_cuts_iff`: so the cuts are told by counting.
-/

/-- A part of the rows: where they are, and the keys it must not show. -/
structure FilteredPart (ι κ : Type) where
  source : ι
  hidden : Finset κ

section LateFilter

variable {ι κ δ : Type} [LinearOrder δ] [DecidableEq κ]

/-- What the parts show of some rows. -/
def partsKept (rows : ι → List (κ × δ)) (parts : List (FilteredPart ι κ)) : List (κ × δ) :=
  parts.flatMap fun part => (rows part.source).filter fun p => p.1 ∉ part.hidden

/-- What the parts show of some cuts; only an answer is shown. -/
def cutsShown (answer : κ → Bool) (cut : ι → List (κ × δ)) (parts : List (FilteredPart ι κ)) :
    List (κ × δ) :=
  partsKept (fun i => (cut i).filter fun p => answer p.1) parts

/-- Whichever nearest rows the parts are cut to, what they show covers the kept rows. -/
def CutsCover (k : ℕ) (answer : κ → Bool) (rows : ι → List (κ × δ))
    (parts : List (FilteredPart ι κ)) : Prop :=
  ∀ cut : ι → List (κ × δ), (∀ part ∈ parts, Nearest k (rows part.source) (cut part.source)) →
    Covered k (partsKept rows parts) (cutsShown answer cut parts)

/-- The rows with fewer than `k` rows nearer. -/
def inReach (k : ℕ) (rows : List (κ × δ)) : List (κ × δ) :=
  rows.filter fun p => rows.countP (fun r => r.2 < p.2) < k

/-- The cut to `k` rows does not fall between rows of equal distance. -/
def CutsCleanly (k : ℕ) (rows : List (κ × δ)) : Prop :=
  ∀ p ∈ rows, rows.countP (fun r => r.2 < p.2) < k → rows.countP (fun r => r.2 ≤ p.2) ≤ k

omit [DecidableEq κ] in
instance (k : ℕ) (rows : List (κ × δ)) : Decidable (CutsCleanly k rows) :=
  inferInstanceAs (Decidable (∀ p ∈ rows, _ → _))

omit [LinearOrder δ] in
theorem mem_partsKept {rows : ι → List (κ × δ)} {parts : List (FilteredPart ι κ)} {p : κ × δ} :
    p ∈ partsKept rows parts ↔ ∃ part ∈ parts, p ∈ rows part.source ∧ p.1 ∉ part.hidden := by
  simp [partsKept]

omit [LinearOrder δ] in
theorem mem_cutsShown {answer : κ → Bool} {cut : ι → List (κ × δ)}
    {parts : List (FilteredPart ι κ)} {p : κ × δ} :
    p ∈ cutsShown answer cut parts ↔
      ∃ part ∈ parts, (p ∈ cut part.source ∧ answer p.1 = true) ∧ p.1 ∉ part.hidden := by
  simp only [cutsShown, mem_partsKept, List.mem_filter]

/-- Only which rows are retained matters. -/
theorem Covered.congr {k : ℕ} {rows retained retained' : List (κ × δ)}
    (same : ∀ p, p ∈ retained ↔ p ∈ retained') :
    Covered k rows retained ↔ Covered k rows retained' := by
  have within : ∀ d, idsWithin retained d = idsWithin retained' d := by
    intro d
    ext x
    simp only [mem_idsWithin, same]
  simp only [Covered, within, same]

/-! ## Nothing to hide -/

/-- A row that is cut off leaves `k` nearer ones behind, so where every row is shown the cuts
cover them all. -/
theorem cutsCover_of_shown {k : ℕ} {answer : κ → Bool} {rows : ι → List (κ × δ)}
    {parts : List (FilteredPart ι κ)}
    (nodup : ∀ part ∈ parts, ((rows part.source).map Prod.fst).Nodup)
    (shown : ∀ part ∈ parts, ∀ p ∈ rows part.source, answer p.1 = true ∧ p.1 ∉ part.hidden) :
    CutsCover k answer rows parts := by
  intro cut near p kept
  obtain ⟨part, listed, inside, -⟩ := mem_partsKept.mp kept
  have through : ∀ r ∈ cut part.source, r ∈ cutsShown answer cut parts := by
    intro r selected
    obtain ⟨valid, visible⟩ := shown part listed r ((near part listed).mem selected)
    exact mem_cutsShown.mpr ⟨part, listed, ⟨selected, valid⟩, visible⟩
  obtain ⟨rest, perm, closer⟩ := (near part listed).split
  rcases List.mem_append.mp (perm.mem_iff.mp inside) with selected | left
  · exact Or.inl ⟨p.2, through p selected, le_rfl⟩
  · right
    have full : (cut part.source).length = k := by
      have length := (near part listed).length
      have lengths := perm.length_eq
      have more := List.length_pos_of_mem left
      rw [List.length_append] at lengths
      omega
    have distinct : ((cut part.source).map Prod.fst).Nodup := by
      have all := (perm.map Prod.fst).nodup_iff.mp (nodup part listed)
      rw [List.map_append] at all
      exact (List.nodup_append.mp all).1
    have count : (rowIds (cut part.source)).card = k := by
      rw [rowIds, List.toFinset_card_of_nodup distinct, List.length_map, full]
    rw [← count]
    refine Finset.card_le_card fun x selected => ?_
    obtain ⟨d, selected⟩ := mem_rowIds.mp selected
    exact mem_idsWithin.mpr ⟨d, through _ selected, closer _ selected p left⟩

omit [LinearOrder δ] in
/-- Parts that keep as many rows as they have hide none of them. -/
theorem shown_of_length_le {rows : ι → List (κ × δ)} {parts : List (FilteredPart ι κ)}
    (kept : (parts.flatMap fun part => rows part.source).length ≤ (partsKept rows parts).length) :
    ∀ part ∈ parts, ∀ p ∈ rows part.source, p.1 ∉ part.hidden := by
  induction parts with
  | nil => exact nofun
  | cons first parts ih =>
      have rest : (partsKept rows parts).length ≤
          (parts.flatMap fun part => rows part.source).length :=
        (List.Sublist.flatMap_right parts fun part _ => List.filter_sublist).length_le
      have here := List.length_filter_le (fun p => p.1 ∉ first.hidden) (rows first.source)
      have split : (partsKept rows (first :: parts)).length =
          ((rows first.source).filter fun p => p.1 ∉ first.hidden).length +
            (partsKept rows parts).length := by
        rw [partsKept, List.flatMap_cons, List.length_append]
        rfl
      rw [split, List.flatMap_cons, List.length_append] at kept
      intro part listed p inside
      rcases List.mem_cons.mp listed with rfl | later
      · have all := List.length_filter_eq_length_iff.mp (le_antisymm here (by omega)) p inside
        exact of_decide_eq_true all
      · exact ih (by omega) part later p inside

/-! ## Clean cuts -/

section Clean

omit [DecidableEq κ]

variable {k : ℕ} {rows out : List (κ × δ)}

/-- A row is selected when at most `k` rows, itself among them, are no farther. -/
theorem Nearest.mem_of_within (near : Nearest k rows out) {p : κ × δ} (member : p ∈ rows)
    (few : rows.countP (fun r => r.2 ≤ p.2) ≤ k) : p ∈ out := by
  rcases near.split with ⟨rest, perm, closer⟩
  rcases List.mem_append.mp (perm.mem_iff.mp member) with selected | left
  · exact selected
  · -- with `p` left out, all that was selected is no farther than `p`, and the cut is full
    have whole : out.countP (fun r => r.2 ≤ p.2) = out.length := by
      rw [List.countP_eq_length]
      intro q selected
      exact decide_eq_true (closer q selected p left)
    have counted := perm.countP_eq fun r => decide (r.2 ≤ p.2)
    have own : 0 < rest.countP fun r => r.2 ≤ p.2 :=
      List.countP_pos_iff.mpr ⟨p, left, decide_eq_true le_rfl⟩
    have lengths := perm.length_eq
    have more := List.length_pos_of_mem left
    have length := near.length
    rw [List.countP_append] at counted
    rw [List.length_append] at lengths
    omega

theorem mem_inReach {p : κ × δ} :
    p ∈ inReach k rows ↔ p ∈ rows ∧ rows.countP (fun r => r.2 < p.2) < k := by
  simp only [inReach, List.mem_filter, decide_eq_true_eq]

/-- A clean cut takes the rows in reach. -/
theorem Nearest.mem_iff_inReach (near : Nearest k rows out) (clean : CutsCleanly k rows)
    {p : κ × δ} : p ∈ out ↔ p ∈ inReach k rows := by
  rw [mem_inReach]
  constructor
  · intro selected
    refine ⟨near.mem selected, ?_⟩
    by_contra many
    exact near.notMem_of_nearer (not_lt.mp many) selected
  · intro reach
    exact near.mem_of_within reach.1 (clean p reach.1 reach.2)

end Clean

/-- **Counting.**  Clean cuts cover the kept rows exactly when the rows in reach do. -/
theorem covered_cuts_iff {k : ℕ} {answer : κ → Bool} {rows cut : ι → List (κ × δ)}
    {parts : List (FilteredPart ι κ)}
    (near : ∀ part ∈ parts, Nearest k (rows part.source) (cut part.source))
    (clean : ∀ part ∈ parts, CutsCleanly k (rows part.source)) :
    Covered k (partsKept rows parts) (cutsShown answer cut parts) ↔
      Covered k (partsKept rows parts) (cutsShown answer (fun i => inReach k (rows i)) parts) := by
  apply Covered.congr
  intro p
  simp only [mem_cutsShown]
  constructor
  · rintro ⟨part, listed, ⟨selected, valid⟩, shown⟩
    have reach := ((near part listed).mem_iff_inReach (clean part listed)).mp selected
    exact ⟨part, listed, ⟨reach, valid⟩, shown⟩
  · rintro ⟨part, listed, ⟨reach, valid⟩, shown⟩
    have selected := ((near part listed).mem_iff_inReach (clean part listed)).mpr reach
    exact ⟨part, listed, ⟨selected, valid⟩, shown⟩

end LateFilter
