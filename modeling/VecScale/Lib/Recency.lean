import Mathlib.Data.List.DropRight
import Mathlib.Data.List.Nodup

/-!
# Keeping the most recent keys

A queue lists distinct keys, least recent first, and `requeue` makes a key its most recent
one.

* `foldl_requeue`: the queue after some keys were used in turn;
* `rtake_requeue`: a holder of `limit` keys that drops the least recent ones after every
  use holds the last `limit` keys of the queue.
-/

section Recency

variable {α : Type} [DecidableEq α] {queue keys : List α} {x : α} {limit : ℕ}

/-- Make `x` the most recent key. -/
def requeue (queue : List α) (x : α) : List α := queue.filter (· ≠ x) ++ [x]

theorem filter_ne_of_not_mem (absent : x ∉ queue) : queue.filter (· ≠ x) = queue :=
  List.filter_eq_self.mpr fun _ member => decide_eq_true fun same => absent (same ▸ member)

theorem mem_requeue {y : α} : y ∈ requeue queue x ↔ y = x ∨ y ∈ queue := by
  rw [requeue, List.mem_append, List.mem_filter, List.mem_singleton, decide_eq_true_eq]
  tauto

theorem nodup_requeue (nodup : queue.Nodup) : (requeue queue x).Nodup := by
  rw [requeue, List.nodup_append]
  refine ⟨nodup.filter _, List.nodup_singleton x, ?_⟩
  intro y kept z last
  rw [List.mem_singleton.mp last]
  exact of_decide_eq_true (List.mem_filter.mp kept).2

/-- Distinct keys used in turn are the most recent ones. -/
theorem foldl_requeue (nodup : keys.Nodup) :
    keys.foldl requeue queue = queue.filter (· ∉ keys) ++ keys := by
  induction keys generalizing queue with
  | nil => simp
  | cons x keys ih =>
      rw [List.nodup_cons] at nodup
      rw [List.foldl_cons, ih nodup.2, requeue, List.filter_append, List.filter_filter,
        List.append_assoc]
      congr 1
      · apply List.filter_congr
        intro y _
        simp only [List.mem_cons, not_or, Bool.decide_and]
        exact Bool.and_comm _ _
      · simp [nodup.1]

omit [DecidableEq α] in
theorem rtake_of_length_le (few : queue.length ≤ limit) : queue.rtake limit = queue := by
  rw [List.rtake, Nat.sub_eq_zero_of_le few, List.drop_zero]

omit [DecidableEq α] in
theorem rtake_append (front : List α) (enough : limit ≤ queue.length) :
    (front ++ queue).rtake limit = queue.rtake limit := by
  have longer : (front ++ queue).length - limit = front.length + (queue.length - limit) := by
    rw [List.length_append]
    omega
  rw [List.rtake, List.rtake, longer, List.drop_length_add_append]

omit [DecidableEq α] in
theorem length_rtake : (queue.rtake limit).length = min queue.length limit := by
  rw [List.rtake, List.length_drop]
  omega

omit [DecidableEq α] in
/-- What is held is the end of the queue, and is full unless it is all of it. -/
theorem exists_front (queue : List α) (limit : ℕ) :
    ∃ front, queue = front ++ queue.rtake limit ∧
      (front = [] ∨ (queue.rtake limit).length = limit) := by
  refine ⟨queue.take (queue.length - limit), (List.take_append_drop _ _).symm, ?_⟩
  by_cases few : queue.length ≤ limit
  · left
    rw [Nat.sub_eq_zero_of_le few, List.take_zero]
  · right
    rw [length_rtake]
    omega

/-- **A use of a held key** reorders what is held. -/
theorem rtake_requeue_of_held (nodup : queue.Nodup) (held : x ∈ queue.rtake limit) :
    (requeue queue x).rtake limit = requeue (queue.rtake limit) x := by
  obtain ⟨front, parted, full⟩ := exists_front queue limit
  generalize kept : queue.rtake limit = back at held parted full
  subst parted
  have distinct := List.nodup_append.mp nodup
  have apart : front.filter (· ≠ x) = front :=
    filter_ne_of_not_mem fun member => distinct.2.2 x member x held rfl
  have moved : (requeue back x).length = back.length := by
    apply List.Perm.length_eq
    rw [List.perm_ext_iff_of_nodup (nodup_requeue distinct.2.1) distinct.2.1]
    intro y
    rw [mem_requeue, or_iff_right_of_imp]
    intro same
    exact same ▸ held
  have whole : requeue (front ++ back) x = front ++ requeue back x := by
    rw [requeue, List.filter_append, apart, List.append_assoc]
    rfl
  rcases full with rfl | full
  · have few : (requeue back x).length ≤ limit := by
      rw [moved, ← kept, length_rtake]
      exact min_le_right _ _
    rw [List.nil_append, rtake_of_length_le few]
  · rw [whole, rtake_append front (moved.trans full).ge, rtake_of_length_le (moved.trans full).le]

/-- **A new key** joins what is held, which is then cut again. -/
theorem rtake_requeue_of_new (new : x ∉ queue.rtake limit) :
    (requeue queue x).rtake limit = (queue.rtake limit ++ [x]).rtake limit := by
  obtain ⟨front, parted, full⟩ := exists_front queue limit
  generalize kept : queue.rtake limit = back at new parted full
  have apart : back.filter (· ≠ x) = back := filter_ne_of_not_mem new
  rw [parted, requeue, List.filter_append, apart]
  rcases full with rfl | full
  · rfl
  · have enough : limit ≤ (back ++ [x]).length := by
      rw [List.length_append, full]
      exact Nat.le_add_right _ _
    rw [List.append_assoc, rtake_append _ enough]

end Recency
