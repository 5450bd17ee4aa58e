import Mathlib.Data.List.Infix
import Mathlib.Data.Int.Basic

/-!
# Arrays of integers in JSON

`dump` writes a list of integers the way a JSON encoder does, and `load` reads
such an array, with blanks wherever the grammar allows them; it reads no other
value.  Nothing but the closing bracket completes an array.

* `load_dump`: what was written is read back;
* `load_eq_none_of_torn`: the front of an array is not an array.
-/

namespace JsonInts

/-! ## Writing -/

def dumpInt (i : ℤ) : List Char :=
  if i < 0 then '-' :: Nat.toDigits 10 i.natAbs else Nat.toDigits 10 i.natAbs

theorem toList_toString (i : ℤ) : (toString i).toList = dumpInt i := by
  cases i <;> simp [Int.repr, dumpInt]

theorem toList_toString_nat (n : ℕ) : (toString n).toList = dumpInt n := by
  simp [dumpInt]

/-- The items behind the first, each behind its separator. -/
def dumpMore (items : List ℤ) : List Char := items.flatMap fun i => ',' :: ' ' :: dumpInt i

/-- An array up to its closing bracket. -/
def dumpOpen : List ℤ → List Char
  | [] => ['[']
  | item :: items => '[' :: (dumpInt item ++ dumpMore items)

def dump (items : List ℤ) : List Char := dumpOpen items ++ [']']

/-! ## Reading -/

def isBlank (c : Char) : Bool := c = ' ' || c = '\t' || c = '\n' || c = '\r'

def skipBlanks (text : List Char) : List Char := text.dropWhile isBlank

/-- `0`, or digits that do not start with `0`. -/
def readNat : List Char → Option (ℕ × List Char)
  | [] => none
  | c :: rest =>
      if c = '0' then some (0, rest)
      else if c.isDigit then
        some (Nat.ofDigitChars 10 (c :: rest.takeWhile Char.isDigit) 0, rest.dropWhile Char.isDigit)
      else none

def readInt : List Char → Option (ℤ × List Char)
  | '-' :: rest => (readNat rest).map fun found => (-(found.1 : ℤ), found.2)
  | text => (readNat text).map fun found => ((found.1 : ℤ), found.2)

/-- Items up to the closing bracket; every item uses up one unit of fuel. -/
def readItems : ℕ → List Char → Option (List ℤ × List Char)
  | 0, _ => none
  | fuel + 1, text =>
      match readInt text with
      | none => none
      | some (item, behind) =>
          match skipBlanks behind with
          | ']' :: rest => some ([item], rest)
          | ',' :: rest =>
              (readItems fuel (skipBlanks rest)).map fun found => (item :: found.1, found.2)
          | _ => none

/-- One array at the front of a text. -/
def readArray (text : List Char) : Option (List ℤ × List Char) :=
  match skipBlanks text with
  | '[' :: inside =>
      match skipBlanks inside with
      | ']' :: rest => some ([], rest)
      | items => readItems items.length items
  | _ => none

/-- One array, and nothing but blanks behind it. -/
def load (text : List Char) : Option (List ℤ) :=
  match readArray text with
  | none => none
  | some (items, rest) => if skipBlanks rest = [] then some items else none

example : load "[ 10,-7 , 0]\n".toList = some [10, -7, 0] := by decide +kernel

/-! ## The closing bracket -/

theorem mem_of_mem_skipBlanks {c : Char} {text : List Char} (member : c ∈ skipBlanks text) :
    c ∈ text :=
  (List.dropWhile_suffix isBlank).mem member

theorem mem_of_mem_readNat {c : Char} {text rest : List Char} {n : ℕ}
    (read : readNat text = some (n, rest)) (member : c ∈ rest) : c ∈ text := by
  cases text with
  | nil => cases read
  | cons head behind =>
      simp only [readNat] at read
      split at read
      · cases read
        exact List.mem_cons_of_mem _ member
      · split at read
        · cases read
          exact List.mem_cons_of_mem _ ((List.dropWhile_suffix _).mem member)
        · cases read

theorem mem_of_mem_readInt {c : Char} {text rest : List Char} {i : ℤ}
    (read : readInt text = some (i, rest)) (member : c ∈ rest) : c ∈ text := by
  unfold readInt at read
  split at read
  · rcases Option.map_eq_some_iff.mp read with ⟨⟨n, behind⟩, readDigits, same⟩
    cases same
    exact List.mem_cons_of_mem _ (mem_of_mem_readNat readDigits member)
  · rcases Option.map_eq_some_iff.mp read with ⟨⟨n, behind⟩, readDigits, same⟩
    cases same
    exact mem_of_mem_readNat readDigits member

theorem closed_of_readItems {fuel : ℕ} {text rest : List Char} {items : List ℤ}
    (read : readItems fuel text = some (items, rest)) : ']' ∈ text := by
  induction fuel generalizing text rest items with
  | zero => cases read
  | succ fuel ih =>
      simp only [readItems] at read
      split at read
      · cases read
      next item behind readItem =>
      have inText : ∀ {c : Char}, c ∈ skipBlanks behind → c ∈ text := fun member =>
        mem_of_mem_readInt readItem (mem_of_mem_skipBlanks member)
      split at read
      · next rest' found =>
          apply inText
          rw [found]
          exact List.mem_cons_self
      · next rest' found =>
          rcases Option.map_eq_some_iff.mp read with ⟨⟨items', rest''⟩, readMore, -⟩
          apply inText
          rw [found]
          exact List.mem_cons_of_mem _ (mem_of_mem_skipBlanks (ih readMore))
      · cases read

/-- A text that holds an array holds a closing bracket. -/
theorem closed_of_load {text : List Char} {items : List ℤ} (read : load text = some items) :
    ']' ∈ text := by
  unfold load readArray at read
  split at read
  · cases read
  next found rest readItems =>
  split at readItems
  · next inside opened =>
      have inText : ∀ {c : Char}, c ∈ skipBlanks inside → c ∈ text := by
        intro c member
        apply mem_of_mem_skipBlanks
        rw [opened]
        exact List.mem_cons_of_mem _ (mem_of_mem_skipBlanks member)
      split at readItems
      · next rest' closed =>
          apply inText
          rw [closed]
          exact List.mem_cons_self
      · exact inText (closed_of_readItems readItems)
  · cases readItems

theorem isDigit_of_mem_digits {c : Char} {n : ℕ} (member : c ∈ Nat.toDigits 10 n) :
    c.isDigit = true :=
  Nat.isDigit_of_mem_toDigits (by omega) (by omega) member

theorem open_dumpInt (i : ℤ) : ']' ∉ dumpInt i := by
  have digits : ']' ∉ Nat.toDigits 10 i.natAbs := fun member =>
    absurd (isDigit_of_mem_digits member) (by decide)
  unfold dumpInt
  split
  · rw [List.mem_cons, not_or]
    exact ⟨by decide, digits⟩
  · exact digits

/-- The bracket that closes an array is the only one in it. -/
theorem open_dumpOpen (items : List ℤ) : ']' ∉ dumpOpen items := by
  have more : ∀ items, ']' ∉ dumpMore items := by
    intro items member
    rcases List.mem_flatMap.mp member with ⟨i, -, inside⟩
    simp only [List.mem_cons, open_dumpInt, or_false] at inside
    rcases inside with comma | space
    · exact absurd comma (by decide)
    · exact absurd space (by decide)
  cases items with
  | nil => decide
  | cons item items =>
      rw [dumpOpen, List.mem_cons, List.mem_append, not_or, not_or]
      exact ⟨by decide, open_dumpInt item, more items⟩

/-- **A torn array is no array.** -/
theorem load_eq_none_of_torn {items : List ℤ} {torn : List Char} (pref : torn <+: dump items)
    (proper : torn ≠ dump items) : load torn = none := by
  cases read : load torn with
  | none => rfl
  | some found =>
      have front : torn <+: dumpOpen items :=
        (List.prefix_concat_iff.mp pref).resolve_left proper
      exact absurd (front.mem (closed_of_load read)) (open_dumpOpen items)

/-! ## Reading back -/

/-- What stands behind a number does not go on with it. -/
def Ends (rest : List Char) : Prop := ∀ c ∈ rest.head?, c.isDigit = false

/-- A positive number is not written with a leading zero. -/
theorem head_digits {n : ℕ} (positive : 0 < n) : (Nat.toDigits 10 n).head? ≠ some '0' := by
  induction n using Nat.strong_induction_on with
  | _ n ih =>
      rw [Nat.toDigits_eq_if (by omega)]
      split
      · next small =>
          have all : ∀ m < 10, 0 < m → [Nat.digitChar m].head? ≠ some '0' := by decide
          exact all n small positive
      · next large =>
          rw [List.head?_append_of_ne_nil _ Nat.toDigits_ne_nil]
          exact ih (n / 10) (by omega) (by omega)

theorem readNat_digits (n : ℕ) {rest : List Char} (ends : Ends rest) :
    readNat (Nat.toDigits 10 n ++ rest) = some (n, rest) := by
  rcases Nat.eq_zero_or_pos n with rfl | positive
  · rw [Nat.toDigits_zero]
    rfl
  · have lead := head_digits positive
    have value : Nat.ofDigitChars 10 (Nat.toDigits 10 n) 0 = n := Nat.ofDigitChars_ten_toDigits
    have all : ∀ c ∈ Nat.toDigits 10 n, c.isDigit = true := fun _ => isDigit_of_mem_digits
    cases digits : Nat.toDigits 10 n with
    | nil => exact absurd digits Nat.toDigits_ne_nil
    | cons c more =>
        rw [digits] at lead value all
        have notZero : c ≠ '0' := fun zero => lead (by rw [zero, List.head?_cons])
        have stops : rest.takeWhile Char.isDigit = [] ∧ rest.dropWhile Char.isDigit = rest := by
          cases rest with
          | nil => exact ⟨rfl, rfl⟩
          | cons d rest =>
              have ended : d.isDigit = false := ends d rfl
              constructor
              · rw [List.takeWhile_cons_of_neg (by rw [ended]; decide)]
              · rw [List.dropWhile_cons_of_neg (by rw [ended]; decide)]
        have more' : ∀ d ∈ more, d.isDigit = true := fun d member => all d (List.mem_cons_of_mem _ member)
        rw [List.cons_append, readNat, if_neg notZero, if_pos (all c List.mem_cons_self),
          List.takeWhile_append_of_pos more', List.dropWhile_append_of_pos more', stops.1, stops.2,
          List.append_nil, value]

theorem readInt_dumpInt (i : ℤ) {rest : List Char} (ends : Ends rest) :
    readInt (dumpInt i ++ rest) = some (i, rest) := by
  have digits := readNat_digits i.natAbs ends
  unfold dumpInt
  split
  · next negative =>
      rw [List.cons_append, readInt, digits, Option.map_some]
      have whole : -(i.natAbs : ℤ) = i := by omega
      rw [whole]
  · next natural =>
      have whole : (i.natAbs : ℤ) = i := by omega
      have noSign : ∀ more, Nat.toDigits 10 i.natAbs ++ rest ≠ '-' :: more := by
        intro more same
        cases found : Nat.toDigits 10 i.natAbs with
        | nil => exact Nat.toDigits_ne_nil found
        | cons c behind =>
            rw [found, List.cons_append, List.cons.injEq] at same
            have digit : c.isDigit = true :=
              isDigit_of_mem_digits (found ▸ List.mem_cons_self)
            rw [same.1] at digit
            exact absurd digit (by decide)
      unfold readInt
      split
      · next more same => exact absurd same (noSign more)
      · rw [digits, Option.map_some, whole]

/-- A number starts with its sign or with a digit. -/
theorem dumpInt_eq_cons (i : ℤ) :
    ∃ c behind, dumpInt i = c :: behind ∧ (c = '-' ∨ c.isDigit = true) := by
  unfold dumpInt
  split
  · exact ⟨'-', _, rfl, Or.inl rfl⟩
  · cases found : Nat.toDigits 10 i.natAbs with
    | nil => exact absurd found Nat.toDigits_ne_nil
    | cons c behind =>
        exact ⟨c, behind, rfl, Or.inr (isDigit_of_mem_digits (found ▸ List.mem_cons_self))⟩

/-- Nothing is skipped in front of a number. -/
theorem skipBlanks_dumpInt (i : ℤ) (rest : List Char) :
    skipBlanks (dumpInt i ++ rest) = dumpInt i ++ rest := by
  obtain ⟨c, behind, front, starts⟩ := dumpInt_eq_cons i
  have solid : isBlank c = false := by
    rw [← Bool.not_eq_true]
    intro blank
    simp only [isBlank, Bool.or_eq_true, decide_eq_true_eq] at blank
    rcases blank with ((rfl | rfl) | rfl) | rfl <;> rcases starts with sign | digit <;> contradiction
  rw [front, List.cons_append, skipBlanks, List.dropWhile_cons_of_neg (by rw [solid]; decide)]

/-- The items that were written, up to the bracket behind them. -/
theorem readItems_dumpMore {fuel : ℕ} (item : ℤ) {items : List ℤ} (enough : items.length < fuel)
    (rest : List Char) :
    readItems fuel (dumpInt item ++ (dumpMore items ++ ']' :: rest)) = some (item :: items, rest) := by
  induction fuel generalizing item items with
  | zero => exact absurd enough (Nat.not_lt_zero _)
  | succ fuel ih =>
      cases items with
      | nil =>
          have read : readInt (dumpInt item ++ ']' :: rest) = some (item, ']' :: rest) :=
            readInt_dumpInt item (by rintro c ⟨⟩; decide)
          simp only [readItems, dumpMore, List.flatMap_nil, List.nil_append, read]
          rfl
      | cons next items =>
          have read : readInt (dumpInt item ++ (dumpMore (next :: items) ++ ']' :: rest)) =
              some (item, dumpMore (next :: items) ++ ']' :: rest) :=
            readInt_dumpInt item (by rintro c ⟨⟩; decide)
          have later : readItems fuel (dumpInt next ++ (dumpMore items ++ ']' :: rest)) =
              some (next :: items, rest) := ih next (by simpa using enough)
          have comma : skipBlanks (dumpMore (next :: items) ++ ']' :: rest) =
              ',' :: ' ' :: (dumpInt next ++ (dumpMore items ++ ']' :: rest)) := by
            simp [dumpMore, skipBlanks, isBlank]
          have space : skipBlanks (' ' :: (dumpInt next ++ (dumpMore items ++ ']' :: rest))) =
              dumpInt next ++ (dumpMore items ++ ']' :: rest) := by
            rw [skipBlanks, List.dropWhile_cons_of_pos (by decide), ← skipBlanks, skipBlanks_dumpInt]
          simp only [readItems, read, comma, space, later, Option.map_some]

theorem length_dumpMore (items : List ℤ) : items.length ≤ (dumpMore items).length := by
  induction items with
  | nil => exact Nat.le_refl _
  | cons item items ih =>
      rw [dumpMore, List.flatMap_cons, ← dumpMore, List.length_append, List.length_cons]
      simp only [List.length_cons]
      omega

/-- An array that does not close at once is read item by item. -/
theorem readArray_of_items {inside : List Char} (solid : skipBlanks inside = inside)
    (nonempty : ∀ rest, inside ≠ ']' :: rest) :
    readArray ('[' :: inside) = readItems inside.length inside := by
  have opened : skipBlanks ('[' :: inside) = '[' :: inside := rfl
  simp only [readArray, opened, solid]

/-- **Writing and reading back.** -/
theorem load_dump (items : List ℤ) : load (dump items) = some items := by
  cases items with
  | nil => rfl
  | cons item items =>
      have nonempty : ∀ rest, dumpInt item ++ (dumpMore items ++ [']']) ≠ ']' :: rest := by
        intro rest closed
        obtain ⟨c, behind, front, starts⟩ := dumpInt_eq_cons item
        rw [front, List.cons_append, List.cons.injEq] at closed
        rw [closed.1] at starts
        exact absurd starts (by decide)
      have enough : items.length < (dumpInt item ++ (dumpMore items ++ [']'])).length := by
        have more := length_dumpMore items
        simp only [List.length_append, List.length_singleton]
        omega
      have text : dump (item :: items) = '[' :: (dumpInt item ++ (dumpMore items ++ [']'])) := by
        simp [dump, dumpOpen]
      rw [text, load, readArray_of_items (skipBlanks_dumpInt item _) nonempty,
        readItems_dumpMore item enough []]
      rfl

end JsonInts
