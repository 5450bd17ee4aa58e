import Mathlib.Data.Int.CardIntervalMod

/-!
# Taking turns

A counter that goes on by one with every turn, modulo the number of items, gives every item
its turn.

* `turns_succ`: one turn after the other;
* `count_turns`: no item has more than one turn more than another.
-/

variable {α : Type}

/-- The items whose turn it is, in `n` turns from a counter at `start` on. -/
def turns (items : List α) (start n : ℕ) : List α :=
  (List.range n).filterMap fun m => items[(start + m) % items.length]?

theorem turns_zero (items : List α) (start : ℕ) : turns items start 0 = [] := rfl

theorem turns_succ (items : List α) (start n : ℕ) :
    turns items start (n + 1) =
      items[start % items.length]?.toList ++ turns items (start + 1) n := by
  have later : ((List.range n).filterMap fun m => items[(start + (m + 1)) % items.length]?) =
      turns items (start + 1) n :=
    List.filterMap_congr fun m _ => by rw [Nat.add_left_comm, Nat.add_comm m, Nat.add_assoc]
  rw [turns, List.range_succ_eq_map, List.filterMap_cons, List.filterMap_map, add_zero, ← later]
  cases items[start % items.length]? <;> rfl

/-- Whole rounds do not change whose turn it is. -/
theorem turns_of_modEq {items : List α} {start start' : ℕ} (same : start ≡ start' [MOD items.length])
    (n : ℕ) : turns items start n = turns items start' n :=
  List.filterMap_congr fun m _ => by rw [same.add_right m]

theorem length_turns {items : List α} (filled : items ≠ []) (start n : ℕ) :
    (turns items start n).length = n := by
  induction n generalizing start with
  | zero => rfl
  | succ n ih =>
      have inside : start % items.length < items.length :=
        Nat.mod_lt _ (List.length_pos_iff.mpr filled)
      rw [turns_succ, List.getElem?_eq_getElem inside, List.length_append, ih]
      exact Nat.add_comm 1 n

variable [DecidableEq α]

/-- **Everybody gets a fair share.** -/
theorem count_turns {items : List α} (nodup : items.Nodup) {a : α} (member : a ∈ items)
    (start n : ℕ) : n / items.length ≤ (turns items start n).count a ∧
      (turns items start n).count a ≤ n / items.length + 1 := by
  obtain ⟨i, inside, rfl⟩ := List.getElem_of_mem member
  have positive : 0 < items.length := by omega
  have turn : ∀ m, items[(start + m) % items.length]? = some items[i] ↔
      m ≡ i + (items.length - start % items.length) [MOD items.length] := by
    intro m
    have bound := Nat.mod_lt (start + m) positive
    have whole : items.length - start % items.length + start ≡ 0 [MOD items.length] := by
      have split := Nat.div_add_mod start items.length
      have below := Nat.mod_lt start positive
      have sum : items.length - start % items.length + start =
          items.length * (start / items.length + 1) := by
        rw [Nat.mul_add]
        omega
      rw [sum]
      exact (Nat.modEq_zero_iff_dvd).mpr (Nat.dvd_mul_right _ _)
    have shifted : i + (items.length - start % items.length) + start ≡ i [MOD items.length] := by
      rw [Nat.add_assoc]
      exact whole.add_left i
    rw [List.getElem?_eq_getElem bound, Option.some.injEq, nodup.getElem_inj_iff]
    constructor
    · intro same
      have here : m + start ≡ i [MOD items.length] := by
        rw [Nat.add_comm, Nat.ModEq, same, Nat.mod_eq_of_lt inside]
      exact Nat.ModEq.add_right_cancel' start (here.trans shifted.symm)
    · intro same
      have here : m + start ≡ i [MOD items.length] := (same.add_right start).trans shifted
      rw [Nat.add_comm, here, Nat.mod_eq_of_lt inside]
  have count : (turns items start n).count items[i] =
      Nat.count (· ≡ i + (items.length - start % items.length) [MOD items.length]) n := by
    rw [turns, List.count_filterMap, Nat.count]
    refine List.countP_congr fun m _ => ?_
    rw [beq_iff_eq, turn, decide_eq_true_eq]
  rw [count, Nat.count_modEq_card n positive]
  split <;> omega
