import Mathlib.Data.List.Basic
import Mathlib.Data.List.Induction
import Mathlib.Data.List.Nodup
import Mathlib.Data.Prod.Basic

/-!
# Insertion-ordered dictionaries

`Dict κ β` is a finite map that remembers the order in which its keys were
first written: an association list whose keys are distinct, the distinctness
being a field.  Overwriting a key keeps its position, `moveToEnd` makes it the
newest, `popFirst` drops the oldest.

* `get?_set`, `get?_erase`, `get?_moveToEnd` compute a lookup after an update;
* `get?_setAll` reads a batch of writes back through `lastWrite`, the value the
  last write of a key carried;
* `mem_entries_iff` and `mem_keys_iff` turn membership into lookups;
* `get?_groupBy`: the groups of a list by a key, in order of first occurrence.
-/

/-! ## Association lists -/

section AssocList

variable {κ β : Type} [DecidableEq κ]

/-- The value of the first entry with key `k`. -/
def assocGet : List (κ × β) → κ → Option β
  | [], _ => none
  | (k', v) :: rest, k => if k' = k then some v else assocGet rest k

/-- Overwrite `k` in place, or append it. -/
def assocSet : List (κ × β) → κ → β → List (κ × β)
  | [], k, v => [(k, v)]
  | (k', v') :: rest, k, v =>
      if k' = k then (k, v) :: rest else (k', v') :: assocSet rest k v

@[simp] theorem assocGet_nil (k : κ) : assocGet ([] : List (κ × β)) k = none := rfl

theorem assocGet_isSome_iff {entries : List (κ × β)} {k : κ} :
    (assocGet entries k).isSome ↔ k ∈ entries.map Prod.fst := by
  induction entries with
  | nil => simp
  | cons head rest ih =>
      rcases head with ⟨k', v⟩
      by_cases same : k' = k
      · simp [assocGet, same]
      · simp [assocGet, same, ih, Ne.symm same]

theorem assocGet_eq_none_iff {entries : List (κ × β)} {k : κ} :
    assocGet entries k = none ↔ k ∉ entries.map Prod.fst := by
  rw [← assocGet_isSome_iff, Option.not_isSome_iff_eq_none]

theorem mem_of_assocGet {entries : List (κ × β)} {k : κ} {v : β}
    (found : assocGet entries k = some v) : (k, v) ∈ entries := by
  induction entries with
  | nil => cases found
  | cons head rest ih =>
      rcases head with ⟨k', v'⟩
      by_cases same : k' = k
      · simp only [assocGet, if_pos same, Option.some.injEq] at found
        simp [same, found]
      · simp only [assocGet, if_neg same] at found
        exact List.mem_cons_of_mem _ (ih found)

/-- With distinct keys a lookup is membership. -/
theorem assocGet_eq_some_iff {entries : List (κ × β)} (nodup : (entries.map Prod.fst).Nodup)
    {k : κ} {v : β} : assocGet entries k = some v ↔ (k, v) ∈ entries := by
  refine ⟨mem_of_assocGet, fun member => ?_⟩
  induction entries with
  | nil => cases member
  | cons head rest ih =>
      rcases head with ⟨k', v'⟩
      simp only [List.map_cons, List.nodup_cons] at nodup
      rcases List.mem_cons.mp member with here | later
      · cases here
        simp [assocGet]
      · have different : k' ≠ k := by
          rintro rfl
          exact nodup.1 (List.mem_map.mpr ⟨(k', v), later, rfl⟩)
        simp only [assocGet, if_neg different]
        exact ih nodup.2 later

theorem assocGet_set (entries : List (κ × β)) (k : κ) (v : β) (x : κ) :
    assocGet (assocSet entries k v) x = if k = x then some v else assocGet entries x := by
  induction entries with
  | nil => simp [assocSet, assocGet]
  | cons head rest ih =>
      rcases head with ⟨k', v'⟩
      by_cases same : k' = k
      · subst same
        by_cases target : k' = x <;> simp [assocSet, assocGet, target]
      · simp only [assocSet, if_neg same, assocGet, ih]
        by_cases target : k' = x
        · subst target
          simp [Ne.symm same]
        · simp [target]

theorem keys_assocSet (entries : List (κ × β)) (k : κ) (v : β) :
    (assocSet entries k v).map Prod.fst =
      if k ∈ entries.map Prod.fst then entries.map Prod.fst
      else entries.map Prod.fst ++ [k] := by
  induction entries with
  | nil => simp [assocSet]
  | cons head rest ih =>
      rcases head with ⟨k', v'⟩
      by_cases same : k' = k
      · simp [assocSet, same]
      · simp only [assocSet, if_neg same, List.map_cons, ih, List.mem_cons,
          Ne.symm same, false_or]
        split <;> rfl

theorem assocSet_of_absent {entries : List (κ × β)} {k : κ}
    (absent : k ∉ entries.map Prod.fst) (v : β) : assocSet entries k v = entries ++ [(k, v)] := by
  induction entries with
  | nil => rfl
  | cons head rest ih =>
      rw [List.map_cons, List.mem_cons, not_or] at absent
      rw [assocSet, if_neg (Ne.symm absent.1), ih absent.2, List.cons_append]

/-- Entries in front that do not have the key are passed over. -/
theorem assocGet_append_of_absent {front : List (κ × β)} {k : κ} (absent : k ∉ front.map Prod.fst)
    (entries : List (κ × β)) : assocGet (front ++ entries) k = assocGet entries k := by
  induction front with
  | nil => rfl
  | cons head rest ih =>
      rw [List.map_cons, List.mem_cons, not_or] at absent
      rw [List.cons_append, assocGet, if_neg (Ne.symm absent.1), ih absent.2]

/-- To write the same again changes nothing. -/
theorem assocSet_idem (entries : List (κ × β)) (k : κ) (v : β) :
    assocSet (assocSet entries k v) k v = assocSet entries k v := by
  induction entries with
  | nil => simp [assocSet]
  | cons head rest ih =>
      rcases head with ⟨k', v'⟩
      by_cases same : k' = k
      · simp [assocSet, same]
      · simp [assocSet, same, ih]

theorem assocSet_append_of_absent {front : List (κ × β)} {k : κ} (absent : k ∉ front.map Prod.fst)
    (entries : List (κ × β)) (v : β) :
    assocSet (front ++ entries) k v = front ++ assocSet entries k v := by
  induction front with
  | nil => rfl
  | cons head rest ih =>
      rw [List.map_cons, List.mem_cons, not_or] at absent
      rw [List.cons_append, assocSet, if_neg (Ne.symm absent.1), ih absent.2, List.cons_append]

end AssocList

/-! ## Dictionaries -/

/-- A map in insertion order; no key occurs twice. -/
structure Dict (κ β : Type) where
  entries : List (κ × β)
  nodup : (entries.map Prod.fst).Nodup

namespace Dict

variable {κ β : Type} [DecidableEq κ]

instance [DecidableEq β] : DecidableEq (Dict κ β) := fun d d' =>
  decidable_of_iff (d.entries = d'.entries) (by cases d; cases d'; simp)

def empty : Dict κ β := ⟨[], List.nodup_nil⟩

instance : EmptyCollection (Dict κ β) := ⟨empty⟩

def get? (d : Dict κ β) (k : κ) : Option β := assocGet d.entries k

def keys (d : Dict κ β) : List κ := d.entries.map Prod.fst

def values (d : Dict κ β) : List β := d.entries.map Prod.snd

def length (d : Dict κ β) : ℕ := d.entries.length

/-- `d[k] = v`. -/
def set (d : Dict κ β) (k : κ) (v : β) : Dict κ β :=
  ⟨assocSet d.entries k v, by
    rw [keys_assocSet]
    split
    · exact d.nodup
    · next absent =>
        refine List.nodup_append.mpr ⟨d.nodup, by simp, ?_⟩
        intro a member b last same
        rw [List.mem_singleton] at last
        exact absent (last ▸ same ▸ member)⟩

/-- `d.pop(k, None)`. -/
def erase (d : Dict κ β) (k : κ) : Dict κ β :=
  ⟨d.entries.filter (fun e => e.1 ≠ k), by
    exact d.nodup.sublist (List.filter_sublist.map _)⟩

/-- Make `k` the newest key; an absent key changes nothing. -/
def moveToEnd (d : Dict κ β) (k : κ) : Dict κ β :=
  match d.get? k with
  | none => d
  | some v => (d.erase k).set k v

/-- Drop the oldest entry. -/
def popFirst (d : Dict κ β) : Dict κ β :=
  ⟨d.entries.tail, by
    rw [List.map_tail]
    exact d.nodup.sublist (List.tail_sublist _)⟩

/-- Drop every key of a list. -/
def eraseAll (d : Dict κ β) (ks : List κ) : Dict κ β := ks.foldl erase d

/-- Write a batch, left to right. -/
def setAll (d : Dict κ β) (writes : List (κ × β)) : Dict κ β :=
  writes.foldl (fun d e => d.set e.1 e.2) d

@[simp] theorem get?_empty (k : κ) : (∅ : Dict κ β).get? k = none := rfl

theorem mem_entries_iff {d : Dict κ β} {k : κ} {v : β} :
    (k, v) ∈ d.entries ↔ d.get? k = some v :=
  (assocGet_eq_some_iff d.nodup).symm

theorem mem_keys_iff {d : Dict κ β} {k : κ} : k ∈ d.keys ↔ ∃ v, d.get? k = some v := by
  rw [keys, ← assocGet_isSome_iff, Option.isSome_iff_exists]
  rfl

theorem get?_eq_none_iff {d : Dict κ β} {k : κ} : d.get? k = none ↔ k ∉ d.keys :=
  assocGet_eq_none_iff

theorem mem_values_iff {d : Dict κ β} {v : β} : v ∈ d.values ↔ ∃ k, d.get? k = some v := by
  simp only [values, List.mem_map, Prod.exists, exists_eq_right, mem_entries_iff]

omit [DecidableEq κ] in
theorem keys_nodup (d : Dict κ β) : d.keys.Nodup := d.nodup

@[simp] theorem get?_set (d : Dict κ β) (k : κ) (v : β) (x : κ) :
    (d.set k v).get? x = if k = x then some v else d.get? x :=
  assocGet_set d.entries k v x

theorem entries_set_of_absent {d : Dict κ β} {k : κ} (absent : k ∉ d.keys) (v : β) :
    (d.set k v).entries = d.entries ++ [(k, v)] := assocSet_of_absent absent v

theorem erase_set_of_absent {d : Dict κ β} {k : κ} (absent : k ∉ d.keys) (v : β) :
    (d.set k v).erase k = d := by
  have kept : d.entries.filter (fun e => e.1 ≠ k) = d.entries := by
    refine List.filter_eq_self.mpr fun e member => decide_eq_true ?_
    rintro rfl
    exact absent (List.mem_map_of_mem member)
  simp only [erase, entries_set_of_absent absent, List.filter_append, kept]
  simp

theorem keys_set (d : Dict κ β) (k : κ) (v : β) :
    (d.set k v).keys = if k ∈ d.keys then d.keys else d.keys ++ [k] := keys_assocSet d.entries k v

theorem set_set (d : Dict κ β) (k : κ) (v : β) : (d.set k v).set k v = d.set k v := by
  simp only [set, assocSet_idem]

theorem erase_erase (d : Dict κ β) (k : κ) : (d.erase k).erase k = d.erase k := by
  simp [erase, List.filter_filter]

theorem keys_erase (d : Dict κ β) (k : κ) : (d.erase k).keys = d.keys.filter (· ≠ k) := by
  rw [keys, keys, erase, List.filter_map]
  rfl

theorem get?_erase (d : Dict κ β) (k x : κ) :
    (d.erase k).get? x = if k = x then none else d.get? x := by
  by_cases same : k = x
  · subst same
    rw [if_pos rfl, get?_eq_none_iff]
    simp [keys, erase]
  · rw [if_neg same]
    apply Option.ext
    intro v
    rw [← mem_entries_iff, ← mem_entries_iff]
    simp [erase, Ne.symm same]

theorem get?_eraseAll (d : Dict κ β) (ks : List κ) (x : κ) :
    (d.eraseAll ks).get? x = if x ∈ ks then none else d.get? x := by
  unfold eraseAll
  induction ks generalizing d with
  | nil => rfl
  | cons k ks ih =>
      rw [List.foldl_cons, ih, get?_erase]
      by_cases same : k = x
      · subst same
        simp
      · simp [same, Ne.symm same]

theorem get?_moveToEnd (d : Dict κ β) (k x : κ) : (d.moveToEnd k).get? x = d.get? x := by
  unfold moveToEnd
  cases found : d.get? k with
  | none => rfl
  | some v =>
      rw [get?_set, get?_erase]
      by_cases same : k = x
      · subst same
        simp [found]
      · simp [same]

theorem keys_moveToEnd {d : Dict κ β} {k : κ} (present : k ∈ d.keys) :
    (d.moveToEnd k).keys = d.keys.filter (· ≠ k) ++ [k] := by
  rcases mem_keys_iff.mp present with ⟨v, found⟩
  have erased : k ∉ (d.erase k).keys := by
    rw [keys_erase]
    simp
  unfold moveToEnd
  rw [found]
  dsimp only
  rw [keys_set, if_neg erased, keys_erase]

theorem get?_of_popFirst {d : Dict κ β} {k : κ} {v : β} (found : d.popFirst.get? k = some v) :
    d.get? k = some v :=
  mem_entries_iff.mp (List.mem_of_mem_tail (mem_entries_iff.mpr found))

omit [DecidableEq κ] in
theorem keys_iterate_popFirst (times : ℕ) (d : Dict κ β) :
    (popFirst^[times] d).keys = d.keys.drop times := by
  induction times generalizing d with
  | zero => rfl
  | succ times ih =>
      have popped : d.popFirst.keys = d.keys.tail := List.map_tail
      rw [Function.iterate_succ_apply, ih, popped, List.drop_tail]

theorem keys_eraseAll (d : Dict κ β) (ks : List κ) :
    (d.eraseAll ks).keys = d.keys.filter (· ∉ ks) := by
  unfold eraseAll
  induction ks generalizing d with
  | nil => simp
  | cons k ks ih =>
      rw [List.foldl_cons, ih, keys_erase, List.filter_filter]
      apply List.filter_congr
      intro x _
      simp only [List.mem_cons, not_or, Bool.decide_and]
      exact Bool.and_comm _ _

theorem get?_foldl_moveToEnd (d : Dict κ β) (ks : List κ) (x : κ) :
    (ks.foldl moveToEnd d).get? x = d.get? x := by
  induction ks generalizing d with
  | nil => rfl
  | cons k ks ih => rw [List.foldl_cons, ih, get?_moveToEnd]

/-! ## Batches of writes -/

/-- The value carried by the last write of `k` in a batch. -/
def lastWrite (writes : List (κ × β)) (k : κ) : Option β :=
  writes.foldl (fun found e => if e.1 = k then some e.2 else found) none

@[simp] theorem lastWrite_nil (k : κ) : lastWrite ([] : List (κ × β)) k = none := rfl

private theorem lastWrite_from (writes : List (κ × β)) (k : κ) (found : Option β) :
    writes.foldl (fun found e => if e.1 = k then some e.2 else found) found =
      (lastWrite writes k).or found := by
  unfold lastWrite
  induction writes generalizing found with
  | nil => rfl
  | cons head rest ih =>
      simp only [List.foldl_cons]
      rw [ih, ih (if head.1 = k then some head.2 else none)]
      by_cases same : head.1 = k <;> simp [same]

theorem lastWrite_cons (head : κ × β) (rest : List (κ × β)) (k : κ) :
    lastWrite (head :: rest) k =
      (lastWrite rest k).or (if head.1 = k then some head.2 else none) := by
  conv_lhs => rw [lastWrite, List.foldl_cons, lastWrite_from]

theorem lastWrite_append (left right : List (κ × β)) (k : κ) :
    lastWrite (left ++ right) k = (lastWrite right k).or (lastWrite left k) := by
  conv_lhs => rw [lastWrite, List.foldl_append, lastWrite_from]
  rfl

theorem lastWrite_isSome_iff {writes : List (κ × β)} {k : κ} :
    (lastWrite writes k).isSome ↔ k ∈ writes.map Prod.fst := by
  induction writes with
  | nil => simp
  | cons head rest ih =>
      rw [lastWrite_cons]
      by_cases same : head.1 = k
      · simp [same]
      · simp [same, ih, Ne.symm same]

theorem lastWrite_eq_none_iff {writes : List (κ × β)} {k : κ} :
    lastWrite writes k = none ↔ k ∉ writes.map Prod.fst := by
  rw [← lastWrite_isSome_iff, Option.not_isSome_iff_eq_none]

theorem mem_of_lastWrite {writes : List (κ × β)} {k : κ} {v : β}
    (found : lastWrite writes k = some v) : (k, v) ∈ writes := by
  induction writes with
  | nil => cases found
  | cons head rest ih =>
      rw [lastWrite_cons] at found
      cases later : lastWrite rest k with
      | some w =>
          rw [later, Option.some_or] at found
          exact List.mem_cons_of_mem _ (ih (later.trans found))
      | none =>
          rw [later, Option.none_or] at found
          split at found
          · next same =>
              cases found
              simp [← same]
          · cases found

/-- In a batch that writes no key twice, the last write is the only one. -/
theorem lastWrite_eq_some_iff {writes : List (κ × β)} (nodup : (writes.map Prod.fst).Nodup)
    {k : κ} {v : β} : lastWrite writes k = some v ↔ (k, v) ∈ writes := by
  refine ⟨mem_of_lastWrite, fun member => ?_⟩
  have written : (lastWrite writes k).isSome :=
    lastWrite_isSome_iff.mpr (List.mem_map_of_mem (f := Prod.fst) member)
  rcases Option.isSome_iff_exists.mp written with ⟨w, found⟩
  have same := List.inj_on_of_nodup_map nodup (mem_of_lastWrite found) member rfl
  rw [found, (Prod.mk.inj same).2]

/-- Renaming the values of a batch renames its last writes. -/
theorem lastWrite_map {γ : Type} (f : β → γ) (writes : List (κ × β)) (k : κ) :
    lastWrite (writes.map fun e => (e.1, f e.2)) k = (lastWrite writes k).map f := by
  induction writes with
  | nil => rfl
  | cons head rest ih =>
      rw [List.map_cons, lastWrite_cons, lastWrite_cons, ih]
      cases lastWrite rest k <;> by_cases same : head.1 = k <;> simp [same]

/-- A filter that keeps every write of a key keeps its last one. -/
theorem lastWrite_filter {writes : List (κ × β)} {keep : κ × β → Bool} {k : κ}
    (kept : ∀ e ∈ writes, e.1 = k → keep e) : lastWrite (writes.filter keep) k = lastWrite writes k := by
  induction writes with
  | nil => rfl
  | cons head rest ih =>
      have later := ih fun e member => kept e (List.mem_cons_of_mem _ member)
      rw [List.filter_cons, lastWrite_cons head rest]
      split
      · rw [lastWrite_cons, later]
      · next dropped =>
          have different : head.1 ≠ k := fun same => dropped (kept head List.mem_cons_self same)
          rw [later, if_neg different, Option.or_none]

/-- A batch that writes one value everywhere. -/
theorem lastWrite_const (ks : List κ) (v : β) (k : κ) :
    lastWrite (ks.map fun k => (k, v)) k = if k ∈ ks then some v else none := by
  induction ks with
  | nil => rfl
  | cons head rest ih =>
      rw [List.map_cons, lastWrite_cons, ih]
      by_cases later : k ∈ rest
      · simp [later]
      · simp [later, eq_comm]

theorem get?_setAll (d : Dict κ β) (writes : List (κ × β)) (k : κ) :
    (d.setAll writes).get? k = (lastWrite writes k).or (d.get? k) := by
  unfold setAll
  induction writes generalizing d with
  | nil => rfl
  | cons head rest ih =>
      rw [List.foldl_cons, ih, get?_set, lastWrite_cons]
      by_cases same : head.1 = k <;> cases lastWrite rest k <;> simp [same]

/-- A batch of distinct keys, written to an empty dict, is its entries. -/
theorem entries_setAll_of_nodup {writes : List (κ × β)} (nodup : (writes.map Prod.fst).Nodup) :
    ((∅ : Dict κ β).setAll writes).entries = writes := by
  induction writes using List.reverseRecOn with
  | nil => rfl
  | append_singleton writes last ih =>
      rw [List.map_append, List.nodup_append] at nodup
      have before := ih nodup.1
      have absent : last.1 ∉ ((∅ : Dict κ β).setAll writes).keys := by
        rw [keys, before]
        exact fun listed => nodup.2.2 last.1 listed last.1 List.mem_cons_self rfl
      have step : (∅ : Dict κ β).setAll (writes ++ [last]) =
          ((∅ : Dict κ β).setAll writes).set last.1 last.2 := by
        simp only [setAll, List.foldl_append, List.foldl_cons, List.foldl_nil]
      rw [step, entries_set_of_absent absent, before]

/-! ### Groups -/

/-- `groups[key(item)].append(item)` over a `defaultdict(list)`. -/
def groupBy {α : Type} (key : α → κ) (items : List α) : Dict κ (List α) :=
  items.foldl (fun groups item =>
    groups.set (key item) ((groups.get? (key item)).getD [] ++ [item])) ∅

/-- A group is the items of its key, in their order; no group is empty. -/
theorem get?_groupBy {α : Type} (key : α → κ) (items : List α) (k : κ) :
    (groupBy key items).get? k = if items.filter (fun item => key item = k) = [] then none
      else some (items.filter fun item => key item = k) := by
  induction items using List.reverseRecOn with
  | nil => rfl
  | append_singleton items item ih =>
      have last : groupBy key (items ++ [item]) = (groupBy key items).set (key item)
          (((groupBy key items).get? (key item)).getD [] ++ [item]) := by
        simp only [groupBy, List.foldl_append, List.foldl_cons, List.foldl_nil]
      rw [last, get?_set, List.filter_append]
      by_cases same : key item = k
      · subst same
        rw [if_pos rfl, ih]
        split
        · next none => simp [none]
        · simp
      · simp [same, ih]

theorem group_of_mem {α : Type} {key : α → κ} {items group : List α} {k : κ}
    (member : (k, group) ∈ (groupBy key items).entries) :
    group = items.filter fun item => key item = k := by
  have found := mem_entries_iff.mp member
  rw [get?_groupBy] at found
  split at found
  · cases found
  · exact (Option.some.inj found).symm

/-- A key without a group is the key of no item. -/
theorem key_ne_of_notMem {α : Type} (key : α → κ) {items : List α} {k : κ}
    (absent : k ∉ (groupBy key items).keys) {item : α} (member : item ∈ items) : key item ≠ k := by
  intro same
  have kept : item ∈ items.filter fun item => key item = k :=
    List.mem_filter.mpr ⟨member, decide_eq_true same⟩
  rw [← get?_eq_none_iff, get?_groupBy] at absent
  split at absent
  · next none =>
      rw [none] at kept
      cases kept
  · cases absent

/-! ### Counts -/

/-- `counts[k] += 1` on a `defaultdict(int)`. -/
def tally (counts : Dict κ ℕ) (k : κ) : Dict κ ℕ := counts.set k ((counts.get? k).getD 0 + 1)

/-- A key is counted as often as it occurs; no key is counted 0 times. -/
theorem get?_foldl_tally (ks : List κ) (k : κ) :
    (ks.foldl tally ∅).get? k =
      if ks.countP (· = k) = 0 then none else some (ks.countP (· = k)) := by
  induction ks using List.reverseRecOn with
  | nil => rfl
  | append_singleton ks last ih =>
      rw [List.foldl_append, List.foldl_cons, List.foldl_nil, tally, get?_set, List.countP_append]
      by_cases same : last = k
      · subst same
        have here : [last].countP (· = last) = 1 := by simp
        rw [if_pos rfl, ih, here, if_neg (Nat.succ_ne_zero _)]
        split
        · next none => rw [none]; rfl
        · rfl
      · have other : [last].countP (· = k) = 0 := by simp [same]
        rw [if_neg same, ih, other, Nat.add_zero]

end Dict
