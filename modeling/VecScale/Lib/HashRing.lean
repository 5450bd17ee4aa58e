import Mathlib.Data.List.Basic
import Mathlib.Data.Prod.Lex
import Mathlib.Data.Set.Basic

/-!
# Rings on sorted lists

A list that binary insertion keeps in order, read as a ring: past its last item comes the
first one again.  The points of the ring are pairs of a token and a node.

* `exists_bisect`: a binary search finds where a sorted list stops being `before`;
* `insort_pairwise`, `insort_perm`: binary insertion keeps a list in order;
* `firstFrom_roundIndex`: the point that a search with wrap-around finds;
* `Owns.without`: a node that leaves a ring takes away only what it owned.
-/

section Bisect

variable {α : Type}

/-- The loop of a binary search in `items[lo:hi]`. -/
def bisectFrom (before : α → Bool) (items : List α) (lo hi : ℕ) (inside : hi ≤ items.length) : ℕ :=
  if room : lo < hi then
    if before items[(lo + hi) / 2] then bisectFrom before items ((lo + hi) / 2 + 1) hi inside
    else bisectFrom before items lo ((lo + hi) / 2) (by omega)
  else lo
termination_by hi - lo

variable {before : α → Bool}

theorem bisectFrom_le {items : List α} {lo hi : ℕ} (inside : hi ≤ items.length) (le : lo ≤ hi) :
    bisectFrom before items lo hi inside ≤ hi := by
  fun_induction bisectFrom before items lo hi inside with
  | case1 lo hi inside room here ih => exact ih (by omega)
  | case2 lo hi inside room here ih => exact (ih (by omega)).trans (by omega)
  | case3 lo hi inside room => exact le

/-- The search ends where the items stop being `before`. -/
theorem bisectFrom_append {front back : List α} (low : ∀ a ∈ front, before a = true)
    (high : ∀ a ∈ back, before a = false) {lo hi : ℕ} (inside : hi ≤ (front ++ back).length)
    (le : lo ≤ front.length) (ge : front.length ≤ hi) :
    bisectFrom before (front ++ back) lo hi inside = front.length := by
  fun_induction bisectFrom before (front ++ back) lo hi inside with
  | case1 lo hi inside room here ih =>
      apply ih _ ge
      by_contra past
      rw [List.getElem_append_right (by omega), high _ (List.getElem_mem _)] at here
      cases here
  | case2 lo hi inside room here ih =>
      apply ih le
      by_contra early
      rw [List.getElem_append_left (by omega), low _ (List.getElem_mem _)] at here
      exact here rfl
  | case3 lo hi inside room => omega

/-- A list in order is first `before` and then not. -/
theorem exists_partition {r : α → α → Prop} (closed : ∀ a b, r a b → before b → before a)
    {items : List α} (sorted : items.Pairwise r) : ∃ front back, items = front ++ back ∧
      (∀ a ∈ front, before a = true) ∧ ∀ a ∈ back, before a = false := by
  induction items with
  | nil => exact ⟨[], [], rfl, by simp, by simp⟩
  | cons a items ih =>
      rw [List.pairwise_cons] at sorted
      cases here : before a with
      | true =>
          obtain ⟨front, back, split, low, high⟩ := ih sorted.2
          exact ⟨a :: front, back, by rw [split, List.cons_append],
            List.forall_mem_cons.mpr ⟨here, low⟩, high⟩
      | false =>
          refine ⟨[], a :: items, rfl, by simp, List.forall_mem_cons.mpr ⟨here, fun b member => ?_⟩⟩
          by_contra later
          have := closed a b (sorted.1 b member) (by simpa using later)
          rw [here] at this
          cases this

theorem exists_bisect {r : α → α → Prop} (closed : ∀ a b, r a b → before b → before a)
    {items : List α} (sorted : items.Pairwise r) : ∃ front back, items = front ++ back ∧
      (∀ a ∈ front, before a = true) ∧ (∀ a ∈ back, before a = false) ∧
      bisectFrom before items 0 items.length le_rfl = front.length := by
  obtain ⟨front, back, rfl, low, high⟩ := exists_partition closed sorted
  exact ⟨front, back, rfl, low, high, bisectFrom_append low high le_rfl (by omega) (by simp)⟩

theorem insertIdx_append {front : List α} (back : List α) (x : α) :
    (front ++ back).insertIdx front.length x = front ++ x :: back := by
  induction front with
  | nil => rfl
  | cons a front ih =>
      rw [List.cons_append, List.length_cons, List.insertIdx_succ_cons, ih, List.cons_append]

variable [LinearOrder α]

/-- `bisect.bisect_left(items, x)`. -/
def bisectLeft (items : List α) (x : α) : ℕ :=
  bisectFrom (fun a => decide (a < x)) items 0 items.length le_rfl

/-- `bisect.bisect_right(items, x)`. -/
def bisectRight (items : List α) (x : α) : ℕ :=
  bisectFrom (fun a => !decide (x < a)) items 0 items.length le_rfl

/-- `bisect.insort(items, x)`. -/
def insort (items : List α) (x : α) : List α := items.insertIdx (bisectRight items x) x

theorem exists_bisectLeft {items : List α} (sorted : items.Pairwise (· ≤ ·)) (x : α) :
    ∃ front back, items = front ++ back ∧ (∀ a ∈ front, a < x) ∧ (∀ a ∈ back, x ≤ a) ∧
      bisectLeft items x = front.length := by
  have closed : ∀ a b, a ≤ b → decide (b < x) = true → decide (a < x) = true := by
    intro a b le later
    rw [decide_eq_true_eq] at *
    exact le.trans_lt later
  obtain ⟨front, back, split, low, high, found⟩ := exists_bisect closed sorted
  simp only [decide_eq_true_eq, decide_eq_false_iff_not, not_lt] at low high
  exact ⟨front, back, split, low, high, found⟩

theorem exists_insort {items : List α} (sorted : items.Pairwise (· ≤ ·)) (x : α) :
    ∃ front back, items = front ++ back ∧ (∀ a ∈ front, a ≤ x) ∧ (∀ a ∈ back, x < a) ∧
      insort items x = front ++ x :: back := by
  have closed : ∀ a b, a ≤ b → (!decide (x < b)) = true → (!decide (x < a)) = true := by
    intro a b le later
    rw [Bool.not_eq_true', decide_eq_false_iff_not, not_lt] at *
    exact le.trans later
  obtain ⟨front, back, split, low, high, found⟩ := exists_bisect closed sorted
  simp only [Bool.not_eq_true', Bool.not_eq_false', decide_eq_false_iff_not, decide_eq_true_eq,
    not_lt] at low high
  refine ⟨front, back, split, low, high, ?_⟩
  rw [insort, bisectRight, found, split, insertIdx_append]

theorem insort_perm {items : List α} (sorted : items.Pairwise (· ≤ ·)) (x : α) :
    (insort items x).Perm (x :: items) := by
  obtain ⟨front, back, split, -, -, inserted⟩ := exists_insort sorted x
  rw [inserted, split]
  exact List.perm_middle

theorem insort_pairwise {items : List α} (sorted : items.Pairwise (· ≤ ·)) (x : α) :
    (insort items x).Pairwise (· ≤ ·) := by
  obtain ⟨front, back, rfl, low, high, inserted⟩ := exists_insort sorted x
  rw [List.pairwise_append] at sorted
  rw [inserted, List.pairwise_append, List.pairwise_cons]
  refine ⟨sorted.1, ⟨fun b member => (high b member).le, sorted.2.1⟩, fun a member b later => ?_⟩
  rcases List.mem_cons.mp later with rfl | later
  · exact low a member
  · exact sorted.2.2 a member b later

/-- Inserting one item after the other. -/
theorem foldl_insort {items : List α} (sorted : items.Pairwise (· ≤ ·)) (xs : List α) :
    (xs.foldl insort items).Pairwise (· ≤ ·) ∧ (xs.foldl insort items).Perm (xs ++ items) := by
  induction xs generalizing items with
  | nil => exact ⟨sorted, List.Perm.refl items⟩
  | cons x xs ih =>
      obtain ⟨sorted', placed⟩ := ih (insort_pairwise sorted x)
      refine ⟨sorted', placed.trans ?_⟩
      exact ((insort_perm sorted x).append_left xs).trans List.perm_middle

/-- The position that a search finds on the ring: past the end it is the first one. -/
def roundIndex (items : List α) (x : α) : ℕ :=
  if bisectLeft items x = items.length then 0 else bisectLeft items x

theorem roundIndex_lt {items : List α} (filled : items ≠ []) (x : α) :
    roundIndex items x < items.length := by
  have le : bisectLeft items x ≤ items.length := bisectFrom_le le_rfl (Nat.zero_le _)
  have pos := List.length_pos_iff.mpr filled
  unfold roundIndex
  split <;> omega

/-! ## Going round -/

/-- Where a point comes on the way round from `key`. -/
def turn (key p : α) : Bool ×ₗ α := toLex (decide (p < key), p)

/-- `p` is the first point of `S` on the way round from `key`. -/
def FirstFrom (key : α) (S : Set α) (p : α) : Prop := p ∈ S ∧ ∀ q ∈ S, turn key p ≤ turn key q

theorem FirstFrom.unique {key p q : α} {S : Set α} (first : FirstFrom key S p)
    (first' : FirstFrom key S q) : p = q := by
  have same : turn key p = turn key q :=
    le_antisymm (first.2 q first'.1) (first'.2 p first.1)
  exact (Prod.mk.inj (toLex_inj.mp same)).2

theorem FirstFrom.of_subset {key p : α} {S T : Set α} (first : FirstFrom key T p)
    (subset : S ⊆ T) (member : p ∈ S) : FirstFrom key S p :=
  ⟨member, fun q member' => first.2 q (subset member')⟩

theorem turn_le_of_before {key p q : α} (ahead : key ≤ p) (wrapped : q < key) :
    turn key p ≤ turn key q := by
  rw [turn, turn, Prod.Lex.toLex_le_toLex]
  left
  rw [decide_eq_false ahead.not_gt, decide_eq_true wrapped]
  exact Bool.false_lt_true

theorem turn_le_of_le {key p q : α} (same : p < key ↔ q < key) (le : p ≤ q) :
    turn key p ≤ turn key q := by
  rw [turn, turn, Prod.Lex.toLex_le_toLex]
  right
  exact ⟨by rw [decide_eq_decide]; exact same, le⟩

/-- A search with wrap-around finds the first point from `key` on. -/
theorem firstFrom_roundIndex {items : List α} (sorted : items.Pairwise (· ≤ ·)) (key : α)
    (inside : roundIndex items key < items.length) :
    FirstFrom key {p | p ∈ items} items[roundIndex items key] := by
  refine ⟨List.getElem_mem _, fun q member => ?_⟩
  obtain ⟨front, back, rfl, low, high, found⟩ := exists_bisectLeft sorted key
  rw [List.pairwise_append] at sorted
  cases back with
  | nil =>
      -- every point lies before `key`: the first one comes next
      rw [List.append_nil] at member
      have here : roundIndex (front ++ []) key = 0 := by
        rw [roundIndex, found, if_pos]
        simp
      cases front with
      | nil => exact absurd inside (Nat.not_lt_zero _)
      | cons a front =>
          rw [getElem_congr_idx here]
          simp only [List.cons_append, List.getElem_cons_zero]
          have le : a ≤ q := by
            rcases List.mem_cons.mp member with rfl | later
            · exact le_rfl
            · exact (List.pairwise_cons.mp sorted.1).1 q later
          exact turn_le_of_le (iff_of_true (low a List.mem_cons_self) (low q member)) le
  | cons b back =>
      have here : roundIndex (front ++ b :: back) key = front.length := by
        rw [roundIndex, found, if_neg]
        simp
      rw [getElem_congr_idx here, List.getElem_append_right le_rfl]
      simp only [Nat.sub_self, List.getElem_cons_zero]
      have ahead := high b List.mem_cons_self
      rcases List.mem_append.mp member with wrapped | later
      · exact turn_le_of_before ahead (low q wrapped)
      · have le : b ≤ q := by
          rcases List.mem_cons.mp later with rfl | later
          · exact le_rfl
          · exact (List.pairwise_cons.mp sorted.2.1).1 q later
        exact turn_le_of_le (iff_of_false ahead.not_gt (high q later).not_gt) le

end Bisect

/-! ## Nodes -/

variable {τ ν : Type} [LinearOrder τ] [LinearOrder ν]

/-- `key` falls to the node of the first point from it on. -/
def Owns (key : τ ×ₗ ν) (S : Set (τ ×ₗ ν)) (node : ν) : Prop :=
  ∃ p, FirstFrom key S p ∧ (ofLex p).2 = node

/-- The points of the other nodes. -/
def without (node : ν) (S : Set (τ ×ₗ ν)) : Set (τ ×ₗ ν) := {p ∈ S | (ofLex p).2 ≠ node}

theorem Owns.unique {key : τ ×ₗ ν} {S : Set (τ ×ₗ ν)} {a b : ν} (owns : Owns key S a)
    (owns' : Owns key S b) : a = b := by
  rcases owns with ⟨p, first, rfl⟩
  rcases owns' with ⟨q, first', rfl⟩
  rw [first.unique first']

/-- What another node owns stays with it. -/
theorem Owns.without {key : τ ×ₗ ν} {S : Set (τ ×ₗ ν)} {owner node : ν} (owns : Owns key S owner)
    (other : owner ≠ node) : Owns key (without node S) owner := by
  rcases owns with ⟨p, first, rfl⟩
  exact ⟨p, first.of_subset (fun q member => member.1) ⟨first.1, other⟩, rfl⟩
