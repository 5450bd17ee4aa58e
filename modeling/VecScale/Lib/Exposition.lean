import VecScale.Lib.JsonInts
import VecScale.Lib.Quoting

/-!
# Labelled samples as text

A sample is a metric with labels and a number: `metric{name="value",name="value"} 7`.
Backslash, double quote and newline are escaped in a value.

* `Sample.read_print`: a sample that was written is read back, whatever its values;
* `Sample.newline_notMem_print`: and it is one line;
* `textLines_append`: lines that were joined are split again.
-/

/-- Backslash escapes. -/
def backslash : Escaping Char where
  mark := '\\'
  quote := '"'
  code c :=
    if c = '\\' then some '\\' else if c = '"' then some '"' else if c = '\n' then some 'n' else none
  decode d :=
    if d = '\\' then some '\\' else if d = '"' then some '"' else if d = 'n' then some '\n' else none
  apart := by decide
  special_mark := by decide
  special_quote := by decide
  decode_code := by
    intro c d coded
    split_ifs at coded with mark quote newline <;> cases coded
    · rw [mark]
      rfl
    · rw [quote]
      rfl
    · rw [newline]
      rfl

structure Sample where
  metric : String
  labels : List (String × String)
  value : ℤ
  deriving DecidableEq

namespace Sample

/-! ## Writing -/

def printLabel (label : String × String) : List Char :=
  label.1.toList ++ '=' :: '"' :: (backslash.escape label.2.toList ++ ['"'])

/-- The labels behind the first, each behind its comma. -/
def printMore (labels : List (String × String)) : List Char :=
  labels.flatMap fun label => ',' :: printLabel label

def printLabels : List (String × String) → List Char
  | [] => []
  | label :: labels => printLabel label ++ printMore labels

def print (sample : Sample) : List Char :=
  sample.metric.toList ++ '{' :: (printLabels sample.labels ++
    '}' :: ' ' :: JsonInts.dumpInt sample.value)

/-! ## Reading -/

/-- The text up to the first `stop`, and what is behind it. -/
def readUntil (stop : Char) (text : List Char) : Option (List Char × List Char) :=
  match text.dropWhile (· ≠ stop) with
  | [] => none
  | _ :: rest => some (text.takeWhile (· ≠ stop), rest)

def readLabel (text : List Char) : Option ((String × String) × List Char) :=
  match readUntil '=' text with
  | some (name, '"' :: body) => (backslash.readQuoted body).map fun found =>
      ((String.ofList name, String.ofList found.1), found.2)
  | _ => none

/-- Labels up to the closing brace; every label uses up one unit of fuel. -/
def readLabels : ℕ → List Char → Option (List (String × String) × List Char)
  | 0, _ => none
  | fuel + 1, text =>
      match readLabel text with
      | some (label, ',' :: rest) =>
          (readLabels fuel rest).map fun found => (label :: found.1, found.2)
      | some (label, '}' :: rest) => some ([label], rest)
      | _ => none

/-- A whole line. -/
def read (line : List Char) : Option Sample :=
  match readUntil '{' line with
  | none => none
  | some (metric, body) =>
      match readLabels body.length body with
      | some (labels, ' ' :: number) =>
          match JsonInts.readInt number with
          | some (value, []) => some ⟨String.ofList metric, labels, value⟩
          | _ => none
      | _ => none

/-! ## Reading back -/

/-- A sample with a label, its names on one line and without what ends a name. -/
structure Named (sample : Sample) : Prop where
  metric : '{' ∉ sample.metric.toList ∧ '\n' ∉ sample.metric.toList
  labels : sample.labels ≠ []
  names : ∀ label ∈ sample.labels, '=' ∉ label.1.toList ∧ '\n' ∉ label.1.toList

theorem readUntil_append {stop : Char} {front : List Char} (absent : stop ∉ front)
    (rest : List Char) : readUntil stop (front ++ stop :: rest) = some (front, rest) := by
  have before : ∀ c ∈ front, decide (c ≠ stop) = true := fun c member =>
    decide_eq_true fun same => absent (same ▸ member)
  rw [readUntil, List.dropWhile_append_of_pos before, List.takeWhile_append_of_pos before]
  simp

theorem readLabel_print {label : String × String} (named : '=' ∉ label.1.toList)
    (rest : List Char) : readLabel (printLabel label ++ rest) = some (label, rest) := by
  have text : printLabel label ++ rest = label.1.toList ++
      '=' :: '"' :: (backslash.escape label.2.toList ++ '"' :: rest) := by
    simp [printLabel]
  have body : backslash.readQuoted (backslash.escape label.2.toList ++ '"' :: rest) =
      some (label.2.toList, rest) := backslash.readQuoted_escape _ _
  simp only [readLabel, text, readUntil_append named, body, Option.map_some, String.ofList_toList]

theorem readLabels_print {fuel : ℕ} (label : String × String) {more : List (String × String)}
    (enough : more.length < fuel) (named : ∀ other ∈ label :: more, '=' ∉ other.1.toList)
    (rest : List Char) :
    readLabels fuel (printLabel label ++ (printMore more ++ '}' :: rest)) =
      some (label :: more, rest) := by
  induction fuel generalizing label more with
  | zero => exact absurd enough (Nat.not_lt_zero _)
  | succ fuel ih =>
      have first := readLabel_print (named label List.mem_cons_self)
      cases more with
      | nil => simp only [readLabels, printMore, List.flatMap_nil, List.nil_append, first]
      | cons next more =>
          have later := ih next (Nat.lt_of_succ_lt_succ enough)
            fun other member => named other (List.mem_cons_of_mem _ member)
          have text : printMore (next :: more) ++ '}' :: rest =
              ',' :: (printLabel next ++ (printMore more ++ '}' :: rest)) := by
            simp [printMore]
          simp only [readLabels, text, first, later, Option.map_some]

theorem length_printMore (labels : List (String × String)) :
    labels.length ≤ (printMore labels).length := by
  induction labels with
  | nil => exact Nat.le_refl _
  | cons label labels ih =>
      rw [printMore, List.flatMap_cons, ← printMore, List.length_append, List.length_cons,
        List.length_cons]
      omega

/-- **Writing and reading back.** -/
theorem read_print {sample : Sample} (named : sample.Named) : read sample.print = some sample := by
  rcases sample with ⟨metric, labels, value⟩
  cases labels with
  | nil => exact absurd rfl named.labels
  | cons label more =>
      let body := printLabel label ++ (printMore more ++ '}' :: ' ' :: JsonInts.dumpInt value)
      have text : (⟨metric, label :: more, value⟩ : Sample).print = metric.toList ++ '{' :: body := by
        simp [Sample.print, printLabels, body]
      have enough : more.length < body.length := by
        have longer := length_printMore more
        simp only [body, List.length_append, List.length_cons]
        omega
      have found : readLabels body.length body =
          some (label :: more, ' ' :: JsonInts.dumpInt value) :=
        readLabels_print label enough (fun other member => (named.names other member).1) _
      have number : JsonInts.readInt (JsonInts.dumpInt value) = some (value, []) := by
        have ends : JsonInts.Ends [] := by rintro c ⟨⟩
        have read := JsonInts.readInt_dumpInt value ends
        rwa [List.append_nil] at read
      simp only [read, text, readUntil_append named.metric.1, found, number, String.ofList_toList]

/-! ## One line -/

theorem newline_notMem_escape (text : List Char) : '\n' ∉ backslash.escape text := by
  refine backslash.notMem_escape (by decide) (by decide) (fun d coded => ?_) text
  simp only [backslash] at coded
  split_ifs at coded <;> cases coded

theorem newline_notMem_dumpInt (i : ℤ) : '\n' ∉ JsonInts.dumpInt i := by
  have digits : '\n' ∉ Nat.toDigits 10 i.natAbs := fun member =>
    absurd (JsonInts.isDigit_of_mem_digits member) (by decide)
  unfold JsonInts.dumpInt
  split
  · rw [List.mem_cons, not_or]
    exact ⟨by decide, digits⟩
  · exact digits

theorem newline_notMem_printLabel {label : String × String} (named : '\n' ∉ label.1.toList) :
    '\n' ∉ printLabel label := by
  have value := newline_notMem_escape label.2.toList
  simp only [printLabel, List.mem_append, List.mem_cons, List.not_mem_nil, named, value, or_false,
    false_or]
  decide

/-- **One line.**  No value breaks the line of its sample. -/
theorem newline_notMem_print {sample : Sample} (named : sample.Named) : '\n' ∉ sample.print := by
  rcases sample with ⟨metric, labels, value⟩
  have labelLines : '\n' ∉ printLabels labels := by
    have each : ∀ label ∈ labels, '\n' ∉ printLabel label := fun label member =>
      newline_notMem_printLabel (named.names label member).2
    cases labels with
    | nil => exact List.not_mem_nil
    | cons label more =>
        have later : '\n' ∉ printMore more := by
          intro member
          rcases List.mem_flatMap.mp member with ⟨other, listed, inside⟩
          rcases List.mem_cons.mp inside with comma | inside
          · exact absurd comma (by decide)
          · exact each other (List.mem_cons_of_mem _ listed) inside
        rw [printLabels, List.mem_append, not_or]
        exact ⟨each label List.mem_cons_self, later⟩
  have number := newline_notMem_dumpInt value
  have name := named.metric.2
  simp only [print, List.mem_append, List.mem_cons, name, labelLines, number, or_false, false_or]
  decide

end Sample

/-! ## Lines -/

/-- A text split at its newlines. -/
def textLines (text : String) : List String := (text.toList.splitOn '\n').map String.ofList

theorem intercalate_newline {lines : List String} (nonempty : lines ≠ []) :
    "\n".intercalate lines ++ "\n" = String.join (lines.map (· ++ "\n")) := by
  induction lines with
  | nil => exact absurd rfl nonempty
  | cons line lines ih =>
      rw [List.map_cons, String.join_cons]
      by_cases last : lines = []
      · rw [last, String.intercalate_singleton, List.map_nil, String.join_nil, String.append_empty]
      · rw [String.intercalate_cons_of_ne_nil last, String.append_assoc, ih last]

/-- Lines in front of a text are its first lines. -/
theorem textLines_append {lines : List String} (each : ∀ line ∈ lines, '\n' ∉ line.toList)
    (rest : String) :
    textLines (String.join (lines.map (· ++ "\n")) ++ rest) = lines ++ textLines rest := by
  induction lines with
  | nil => rw [List.map_nil, String.join_nil, String.empty_append, List.nil_append]
  | cons line lines ih =>
      have text : (String.join ((line :: lines).map (· ++ "\n")) ++ rest).toList =
          line.toList ++ '\n' :: (String.join (lines.map (· ++ "\n")) ++ rest).toList := by
        have newline : "\n".toList = ['\n'] := rfl
        rw [List.map_cons, String.join_cons, String.append_assoc, String.append_assoc,
          String.toList_append, String.toList_append, newline, List.singleton_append]
      rw [textLines, text, List.splitOn_append_cons_self_of_not_mem (each line List.mem_cons_self),
        List.map_cons, String.ofList_toList, List.cons_append,
        ← ih fun other member => each other (List.mem_cons_of_mem _ member), textLines]
