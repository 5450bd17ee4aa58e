import VecScale.Lib.Dict

/-!
# Change feeds

A poller reads a map again and again and sends what has changed since it last looked: a key
with its new value, or a key with a mark that says it is gone.  Who applies what was sent
has the map, except that it cannot tell the mark from a value.

* `get?_notice`, `mem_notice_iff`: what one look at the map remembers and sends;
* `mem_turn_iff`, `nodup_turn`: a turn sends the keys that have changed, each once;
* `get?_replay_turn`: the map of who applies what was sent.
-/

namespace ChangeFeed

variable {κ β : Type} [DecidableEq κ] [DecidableEq β]

/-- Send the items that are new or changed, and remember them. -/
def notice (seen : Dict κ β) : List (κ × β) → List (κ × β) × Dict κ β
  | [] => ([], seen)
  | item :: items =>
      if seen.get? item.1 = some item.2 then notice seen items
      else
        let rest := notice (seen.set item.1 item.2) items
        (item :: rest.1, rest.2)

omit [DecidableEq β] in
/-- The remembered keys that are not there any more. -/
def missing (seen : Dict κ β) (current : List (κ × β)) : List κ :=
  seen.keys.filter fun k => k ∉ current.map Prod.fst

/-- One turn; `arrange` is the order in which a set of keys is gone through. -/
def turn (mark : β) (arrange : List κ → List κ) (current : List (κ × β)) (seen : Dict κ β) :
    List (κ × β) × Dict κ β :=
  let noticed := notice seen current
  let gone := arrange (missing noticed.2 current)
  (noticed.1 ++ gone.map fun k => (k, mark), noticed.2.eraseAll gone)

/-- What the receiver does with one item. -/
def apply (mark : β) (held : Dict κ β) (item : κ × β) : Dict κ β :=
  if item.2 = mark then held.erase item.1 else held.set item.1 item.2

def replay (mark : β) (items : List (κ × β)) : Dict κ β := items.foldl (apply mark) ∅

/-! ## What is sent -/

theorem get?_notice (seen : Dict κ β) (items : List (κ × β)) (k : κ) :
    (notice seen items).2.get? k = (Dict.lastWrite items k).or (seen.get? k) := by
  induction items generalizing seen with
  | nil => rfl
  | cons item items ih =>
      rw [Dict.lastWrite_cons]
      unfold notice
      split
      · next known =>
          rw [ih]
          by_cases same : item.1 = k
          · subst same
            rw [if_pos rfl, known]
            cases Dict.lastWrite items item.1 <;> rfl
          · rw [if_neg same, Option.or_none]
      · rw [ih, Dict.get?_set]
        by_cases same : item.1 = k
        · rw [if_pos same, if_pos same]
          cases Dict.lastWrite items k <;> rfl
        · rw [if_neg same, if_neg same, Option.or_none]

theorem notice_sublist (seen : Dict κ β) (items : List (κ × β)) :
    (notice seen items).1.Sublist items := by
  induction items generalizing seen with
  | nil => exact List.Sublist.refl []
  | cons item items ih =>
      unfold notice
      split
      · exact (ih seen).cons item
      · exact (ih _).cons_cons item

/-- A key is sent if its value is not the one remembered. -/
theorem mem_notice_iff {items : List (κ × β)} (nodup : (items.map Prod.fst).Nodup)
    (seen : Dict κ β) {item : κ × β} :
    item ∈ (notice seen items).1 ↔ item ∈ items ∧ seen.get? item.1 ≠ some item.2 := by
  induction items generalizing seen with
  | nil => simp [notice]
  | cons first items ih =>
      rw [List.map_cons, List.nodup_cons] at nodup
      have apart : item ∈ items → first.1 ≠ item.1 := fun member same =>
        nodup.1 (same ▸ List.mem_map_of_mem member)
      unfold notice
      split
      · next known =>
          rw [ih nodup.2, List.mem_cons]
          constructor
          · exact fun both => ⟨Or.inr both.1, both.2⟩
          · rintro ⟨rfl | member, changed⟩
            · exact absurd known changed
            · exact ⟨member, changed⟩
      · next changed =>
          rw [List.mem_cons, ih nodup.2, List.mem_cons, Dict.get?_set]
          constructor
          · rintro (rfl | ⟨member, later⟩)
            · exact ⟨Or.inl rfl, changed⟩
            · rw [if_neg (apart member)] at later
              exact ⟨Or.inr member, later⟩
          · rintro ⟨rfl | member, later⟩
            · exact Or.inl rfl
            · right
              rw [if_neg (apart member)]
              exact ⟨member, later⟩

variable {mark : β} {arrange : List κ → List κ} {current : List (κ × β)} {seen : Dict κ β}

omit [DecidableEq β] in
theorem mem_missing_iff {k : κ} :
    k ∈ missing seen current ↔ seen.get? k ≠ none ∧ Dict.lastWrite current k = none := by
  rw [missing, List.mem_filter, Dict.mem_keys_iff, decide_eq_true_eq,
    ← Dict.lastWrite_eq_none_iff, Option.ne_none_iff_exists']

/-- After a turn what is remembered is what was read. -/
theorem get?_turn (complete : ∀ keys, (arrange keys).Perm keys) (k : κ) :
    (turn mark arrange current seen).2.get? k = Dict.lastWrite current k := by
  rw [turn, Dict.get?_eraseAll]
  split
  · next gone => exact (mem_missing_iff.mp ((complete _).mem_iff.mp gone)).2.symm
  · next kept =>
      rw [(complete _).mem_iff, mem_missing_iff, get?_notice] at kept
      rw [get?_notice]
      cases read : Dict.lastWrite current k with
      | some v => rfl
      | none =>
          rw [read, Option.none_or] at kept
          rw [Option.none_or]
          by_contra known
          exact kept ⟨known, rfl⟩

/-- **What a turn sends**: the keys that have changed, each once. -/
theorem mem_turn_iff (complete : ∀ keys, (arrange keys).Perm keys)
    (nodup : (current.map Prod.fst).Nodup) {k : κ} {v : β} :
    (k, v) ∈ (turn mark arrange current seen).1 ↔
      seen.get? k ≠ Dict.lastWrite current k ∧ v = (Dict.lastWrite current k).getD mark := by
  have gone : k ∈ missing (notice seen current).2 current ↔
      seen.get? k ≠ none ∧ Dict.lastWrite current k = none := by
    rw [mem_missing_iff, get?_notice]
    refine and_congr_left fun none => ?_
    rw [none, Option.none_or]
  rw [turn, List.mem_append, mem_notice_iff nodup, List.mem_map]
  simp only [Prod.mk.injEq, (complete _).mem_iff]
  have listed : (k, v) ∈ current ↔ Dict.lastWrite current k = some v :=
    (Dict.lastWrite_eq_some_iff nodup).symm
  rw [listed]
  cases found : Dict.lastWrite current k with
  | none =>
      simp only [reduceCtorEq, false_and, false_or, Option.getD_none]
      constructor
      · rintro ⟨k, inside, rfl, rfl⟩
        exact ⟨(gone.mp inside).1, rfl⟩
      · rintro ⟨known, rfl⟩
        exact ⟨k, gone.mpr ⟨known, found⟩, rfl, rfl⟩
  | some w =>
      have still : k ∉ missing (notice seen current).2 current := by
        rw [gone, found]
        exact fun both => Option.some_ne_none w both.2
      simp only [Option.some.injEq, Option.getD_some]
      constructor
      · rintro (⟨rfl, changed⟩ | ⟨x, inside, rfl, -⟩)
        · exact ⟨changed, rfl⟩
        · exact absurd inside still
      · rintro ⟨changed, rfl⟩
        exact Or.inl ⟨rfl, changed⟩

theorem nodup_turn (complete : ∀ keys, (arrange keys).Perm keys)
    (nodup : (current.map Prod.fst).Nodup) :
    ((turn mark arrange current seen).1.map Prod.fst).Nodup := by
  rw [turn, List.map_append, List.map_map, List.nodup_append]
  refine ⟨nodup.sublist ((notice_sublist seen current).map _), ?_, ?_⟩
  · have keys : (arrange (missing (notice seen current).2 current)).Nodup :=
      (complete _).nodup_iff.mpr ((Dict.keys_nodup _).filter _)
    exact keys.map fun a b same => same
  · intro a sent b removed same
    subst same
    rw [List.mem_map] at removed
    rcases removed with ⟨k, inside, rfl⟩
    rw [(complete _).mem_iff, missing, List.mem_filter, decide_eq_true_eq] at inside
    exact inside.2 (((notice_sublist seen current).map _).subset sent)

/-! ## What the receiver has -/

theorem get?_foldl_apply (mark : β) (items : List (κ × β)) (held : Dict κ β) (k : κ) :
    (items.foldl (apply mark) held).get? k = match Dict.lastWrite items k with
      | none => held.get? k
      | some v => if v = mark then none else some v := by
  induction items using List.reverseRecOn with
  | nil => rfl
  | append_singleton items item ih =>
      have last : Dict.lastWrite [item] k = if item.1 = k then some item.2 else none := rfl
      rw [List.foldl_append, List.foldl_cons, List.foldl_nil, Dict.lastWrite_append, last, apply]
      by_cases same : item.1 = k
      · rw [if_pos same, Option.some_or]
        split
        · next marked => rw [Dict.get?_erase, if_pos same]; exact (if_pos marked).symm
        · next value => rw [Dict.get?_set, if_pos same]; exact (if_neg value).symm
      · rw [if_neg same, Option.none_or, ← ih]
        split
        · rw [Dict.get?_erase, if_neg same]
        · rw [Dict.get?_set, if_neg same]

/-- A turn brings the receiver from what was remembered to what was read, wherever the two
are not the mark. -/
theorem get?_replay_turn (complete : ∀ keys, (arrange keys).Perm keys)
    (nodup : (current.map Prod.fst).Nodup) {sent : List (κ × β)}
    (held : ∀ k, (replay mark sent).get? k = (seen.get? k).filter (· ≠ mark)) (k : κ) :
    (replay mark (sent ++ (turn mark arrange current seen).1)).get? k =
      (Dict.lastWrite current k).filter (· ≠ mark) := by
  rw [replay, List.foldl_append, get?_foldl_apply]
  cases changed : Dict.lastWrite (turn mark arrange current seen).1 k with
  | none =>
      have same : seen.get? k = Dict.lastWrite current k := by
        by_contra different
        have absent := Dict.lastWrite_eq_none_iff.mp changed
        exact absent (List.mem_map_of_mem ((mem_turn_iff complete nodup).mpr ⟨different, rfl⟩))
      rw [← same]
      exact held k
  | some v =>
      have sent := (Dict.lastWrite_eq_some_iff (nodup_turn complete nodup)).mp changed
      rw [((mem_turn_iff complete nodup).mp sent).2]
      cases Dict.lastWrite current k with
      | none => exact if_pos rfl
      | some w =>
          rw [Option.filter_some, Option.getD_some]
          by_cases marked : w = mark
          · exact (if_pos marked).trans (if_neg (by simp [marked])).symm
          · exact (if_neg marked).trans (if_pos (by simp [marked])).symm

end ChangeFeed
