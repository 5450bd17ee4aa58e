import VecScale.Lib.Exposition
import VecScale.Lib.JsonInts

/-!
# JSON of records

A codec writes a value as text and reads it back from the front of a text, whatever stands
behind it; only a number must not be followed by a digit.  Codecs put behind a literal or
one after the other are codecs.

* `text`, `number`, `numbers`: the values of fields;
* `behind`, `closed`, `andThen`, `convert`: a record from its fields.
-/

structure JsonCodec (α : Type) where
  write : α → List Char
  read : List Char → Option (α × List Char)
  read_write : ∀ a rest, JsonInts.Ends rest → read (write a ++ rest) = some (a, rest)

namespace JsonCodec

variable {α β : Type}

/-- What is behind a literal. -/
def strip (literal text : List Char) : Option (List Char) :=
  if literal <+: text then some (text.drop literal.length) else none

theorem strip_append (literal rest : List Char) : strip literal (literal ++ rest) = some rest := by
  rw [strip, if_pos (List.prefix_append literal rest), List.drop_left]

theorem ends_cons {c : Char} (noDigit : c.isDigit = false) (rest : List Char) :
    JsonInts.Ends (c :: rest) := by
  rintro d ⟨⟩
  exact noDigit

/-! ## Values -/

def text : JsonCodec String where
  write s := '"' :: (backslash.escape s.toList ++ ['"'])
  read chars := (strip ['"'] chars).bind fun inside =>
    (backslash.readQuoted inside).map fun found => (String.ofList found.1, found.2)
  read_write s rest _ := by
    have inside : strip ['"'] ('"' :: (backslash.escape s.toList ++ ['"']) ++ rest) =
        some (backslash.escape s.toList ++ '"' :: rest) := by
      rw [List.cons_append, List.append_assoc]
      exact strip_append ['"'] _
    have read : backslash.readQuoted (backslash.escape s.toList ++ '"' :: rest) =
        some (s.toList, rest) := backslash.readQuoted_escape s.toList rest
    rw [inside, Option.bind_some, read, Option.map_some, String.ofList_toList]

def number : JsonCodec ℕ where
  write n := Nat.toDigits 10 n
  read := JsonInts.readNat
  read_write n _ ends := JsonInts.readNat_digits n ends

theorem readArray_dump (items : List ℤ) (rest : List Char) :
    JsonInts.readArray (JsonInts.dump items ++ rest) = some (items, rest) := by
  cases items with
  | nil => rfl
  | cons item items =>
      let inside := JsonInts.dumpInt item ++ (JsonInts.dumpMore items ++ ']' :: rest)
      have nonempty : ∀ more, inside ≠ ']' :: more := by
        intro more closed
        obtain ⟨c, behind, front, starts⟩ := JsonInts.dumpInt_eq_cons item
        simp only [inside, front, List.cons_append, List.cons.injEq] at closed
        rw [closed.1] at starts
        exact absurd starts (by decide)
      have enough : items.length < inside.length := by
        have more := JsonInts.length_dumpMore items
        simp only [inside, List.length_append, List.length_cons]
        omega
      have opened : JsonInts.dump (item :: items) ++ rest = '[' :: inside := by
        simp [JsonInts.dump, JsonInts.dumpOpen, inside]
      rw [opened, JsonInts.readArray_of_items (JsonInts.skipBlanks_dumpInt item _) nonempty]
      exact JsonInts.readItems_dumpMore item enough rest

def numbers : JsonCodec (List ℤ) where
  write := JsonInts.dump
  read := JsonInts.readArray
  read_write items rest _ := readArray_dump items rest

/-! ## Records -/

def behind (literal : List Char) (f : JsonCodec α) : JsonCodec α where
  write a := literal ++ f.write a
  read chars := (strip literal chars).bind f.read
  read_write a rest ends := by
    rw [List.append_assoc, strip_append]
    exact f.read_write a rest ends

/-- With a literal that closes it. -/
def closed (f : JsonCodec α) (literal : List Char) (noDigit : ∀ rest, JsonInts.Ends (literal ++ rest)) :
    JsonCodec α where
  write a := f.write a ++ literal
  read chars := (f.read chars).bind fun found => (strip literal found.2).map fun rest => (found.1, rest)
  read_write a rest _ := by
    rw [List.append_assoc, f.read_write a _ (noDigit rest), Option.bind_some, strip_append]
    rfl

def andThen (f : JsonCodec α) (g : JsonCodec β)
    (noDigit : ∀ b rest, JsonInts.Ends (g.write b ++ rest)) : JsonCodec (α × β) where
  write both := f.write both.1 ++ g.write both.2
  read chars := (f.read chars).bind fun found =>
    (g.read found.2).map fun more => ((found.1, more.1), more.2)
  read_write both rest ends := by
    rw [List.append_assoc, f.read_write both.1 _ (noDigit both.2 rest), Option.bind_some,
      g.read_write both.2 rest ends]
    rfl

def convert (f : JsonCodec α) (make : α → β) (fields : β → α) (inverse : ∀ b, make (fields b) = b) :
    JsonCodec β where
  write b := f.write (fields b)
  read chars := (f.read chars).map fun found => (make found.1, found.2)
  read_write b rest ends := by
    rw [f.read_write (fields b) rest ends, Option.map_some, inverse]

end JsonCodec
