import Mathlib.Data.List.Basic

/-!
# Quoted text

A text stands between two quotes with its special characters escaped: each is a mark
followed by the character that stands for it, and the mark itself and the quote are
special.  What is read back does not depend on the text behind the closing quote.

* `readQuoted_escape`: an escaped text is read up to its own closing quote;
* `notMem_escape`: a character that only occurs escaped;
* `replaceEach_escapeOnly`: one more replacement escapes one more character, so that a
  sequence of replacements escapes them all.
-/

variable {α : Type} [DecidableEq α]

/-- `code` says what stands behind the mark for a special character. -/
structure Escaping (α : Type) where
  mark : α
  quote : α
  code : α → Option α
  decode : α → Option α
  apart : mark ≠ quote
  special_mark : code mark ≠ none
  special_quote : code quote ≠ none
  decode_code : ∀ c d, code c = some d → decode d = some c

namespace Escaping

variable (e : Escaping α)

omit [DecidableEq α] in
/-- One character of an escaped text. -/
def escapeChar (c : α) : List α :=
  match e.code c with
  | none => [c]
  | some d => [e.mark, d]

omit [DecidableEq α] in
def escape (text : List α) : List α := text.flatMap e.escapeChar

/-- The text up to the closing quote, and what is behind the quote. -/
def readQuoted : List α → Option (List α × List α)
  | [] => none
  | c :: rest =>
      if c = e.quote then some ([], rest)
      else if c = e.mark then
        match rest with
        | [] => none
        | d :: behind =>
            match e.decode d with
            | none => none
            | some c => (readQuoted behind).map fun found => (c :: found.1, found.2)
      else (readQuoted rest).map fun found => (c :: found.1, found.2)

omit [DecidableEq α] in
theorem escapeChar_of_plain {c : α} (plain : e.code c = none) : e.escapeChar c = [c] := by
  rw [escapeChar, plain]

omit [DecidableEq α] in
theorem escapeChar_of_special {c d : α} (special : e.code c = some d) :
    e.escapeChar c = [e.mark, d] := by
  rw [escapeChar, special]

omit [DecidableEq α] in
theorem escape_cons (c : α) (text : List α) : e.escape (c :: text) = e.escapeChar c ++ e.escape text :=
  List.flatMap_cons

omit [DecidableEq α] in
theorem escape_of_plain {text : List α} (plain : ∀ c ∈ text, e.code c = none) :
    e.escape text = text := by
  have same : e.escape text = text.flatMap fun c => [c] :=
    List.flatMap_congr fun c member => e.escapeChar_of_plain (plain c member)
  rw [same, List.flatMap_singleton']

theorem readQuoted_quote (rest : List α) : e.readQuoted (e.quote :: rest) = some ([], rest) := by
  rw [readQuoted.eq_def]
  exact if_pos rfl

theorem readQuoted_plain {c : α} (plain : e.code c = none) (rest : List α) :
    e.readQuoted (c :: rest) = (e.readQuoted rest).map fun found => (c :: found.1, found.2) := by
  have notQuote : c ≠ e.quote := fun same => e.special_quote (same ▸ plain)
  have notMark : c ≠ e.mark := fun same => e.special_mark (same ▸ plain)
  rw [readQuoted.eq_def]
  exact (if_neg notQuote).trans (if_neg notMark)

theorem readQuoted_special {c d : α} (special : e.code c = some d) (rest : List α) :
    e.readQuoted (e.mark :: d :: rest) =
      (e.readQuoted rest).map fun found => (c :: found.1, found.2) := by
  rw [readQuoted, if_neg e.apart, if_pos rfl, e.decode_code c d special]

/-- **Reading back.**  An escaped text ends at its own closing quote. -/
theorem readQuoted_escape (text rest : List α) :
    e.readQuoted (e.escape text ++ e.quote :: rest) = some (text, rest) := by
  induction text with
  | nil => exact e.readQuoted_quote rest
  | cons c text ih =>
      rw [escape_cons, List.append_assoc]
      cases coded : e.code c with
      | none =>
          rw [e.escapeChar_of_plain coded, List.singleton_append, e.readQuoted_plain coded, ih]
          rfl
      | some d =>
          rw [e.escapeChar_of_special coded, List.cons_append, List.singleton_append,
            e.readQuoted_special coded, ih]
          rfl

omit [DecidableEq α] in
/-- A special character stands in no escaped text, unless it is written for another. -/
theorem notMem_escape {c : α} (special : e.code c ≠ none) (notMark : c ≠ e.mark)
    (unwritten : ∀ d, e.code d ≠ some c) (text : List α) : c ∉ e.escape text := by
  intro member
  obtain ⟨x, -, inside⟩ := List.mem_flatMap.mp member
  cases coded : e.code x with
  | none =>
      rw [e.escapeChar_of_plain coded, List.mem_singleton] at inside
      exact special (inside ▸ coded)
  | some d =>
      rw [e.escapeChar_of_special coded, List.mem_cons, List.mem_singleton] at inside
      rcases inside with mark | written
      · exact notMark mark
      · exact unwritten x (written ▸ coded)

end Escaping

/-! ## Replacing -/

/-- Every occurrence of one character replaced by a text. -/
def replaceEach (old : α) (new text : List α) : List α :=
  text.flatMap fun c => if c = old then new else [c]

theorem replaceEach_of_notMem {old : α} {text : List α} (absent : old ∉ text) (new : List α) :
    replaceEach old new text = text := by
  have same : replaceEach old new text = text.flatMap fun c => [c] := by
    refine List.flatMap_congr fun c member => if_neg ?_
    rintro rfl
    exact absent member
  rw [same, List.flatMap_singleton']

namespace Escaping

variable (e : Escaping α)

/-- Only the characters of `done` escaped. -/
def escapeOnly (done text : List α) : List α :=
  text.flatMap fun c => if c ∈ done then e.escapeChar c else [c]

theorem escapeOnly_nil (text : List α) : e.escapeOnly [] text = text := by
  simp only [escapeOnly, List.not_mem_nil, if_false, List.flatMap_singleton']

/-- A replacement escapes one more character, unless that character was written before. -/
theorem replaceEach_escapeOnly (done : List α) {c d : α} (special : e.code c = some d)
    (unwritten : ∀ x ∈ done, c ∉ e.escapeChar x) (text : List α) :
    replaceEach c [e.mark, d] (e.escapeOnly done text) = e.escapeOnly (done ++ [c]) text := by
  rw [replaceEach, escapeOnly, List.flatMap_assoc]
  refine List.flatMap_congr fun x _ => ?_
  by_cases before : x ∈ done
  · rw [if_pos before, if_pos (List.mem_append_left _ before)]
    exact replaceEach_of_notMem (unwritten x before) _
  · rw [if_neg before, List.flatMap_singleton]
    by_cases here : x = c
    · rw [if_pos here, here, if_pos (List.mem_append_right _ List.mem_cons_self),
        e.escapeChar_of_special special]
    · have later : x ∉ done ++ [c] := by
        rw [List.mem_append, List.mem_singleton, not_or]
        exact ⟨before, here⟩
      rw [if_neg here, if_neg later]

/-- Every special character escaped is the text escaped. -/
theorem escapeOnly_eq_escape {done : List α} (all : ∀ c, e.code c ≠ none → c ∈ done)
    (text : List α) : e.escapeOnly done text = e.escape text := by
  refine List.flatMap_congr fun c _ => ?_
  by_cases listed : c ∈ done
  · exact if_pos listed
  · rw [if_neg listed, e.escapeChar_of_plain (not_not.mp fun special => listed (all c special))]

end Escaping
