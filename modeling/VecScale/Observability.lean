import Mathlib.Data.List.Sort
import Mathlib.Data.Prod.Lex
import Mathlib.Data.String.Basic
import VecScale.Lib.Dict
import VecScale.Lib.Exposition

/-!
# Metrics

`MetricsRegistry` counts requests and writes what it counted as text.  Float arithmetic
and the formatting of floats are parameters.

The request part of the text is read back by `requestTotalPart`, which only splits at
newlines, and `readRequestTotal`, which only un-escapes the labels of one line.

* `requestTotal_unambiguous`: this gives every triple that was observed, once, and how
  often it was observed.
-/

namespace VecScale

/-- What the metrics take from floats. -/
structure FloatOps (F : Type) where
  zero : F
  add : F → F → F
  /-- `f"{x:.9f}"`. -/
  fixed9 : F → String
  str : F → String

structure MetricsRegistry (F : Type) where
  nodeRole : String
  nodeId : String
  requestTotal : Dict (String × String × ℤ) ℕ
  durationCount : Dict (String × String) ℕ
  durationSum : Dict (String × String) F
  searchCount : ℕ
  searchDurationSum : F

/-- The arguments of one `observe`. -/
structure Observation (F : Type) where
  method : String
  path : String
  statusCode : ℤ
  durationSeconds : F

/-- The value of a gauge. -/
inductive GaugeValue (F : Type)
  | int (value : ℤ)
  | float (value : F)
  | bool (value : Bool)

variable {F : Type}

def Observation.key (o : Observation F) : String × String × ℤ := (o.method, o.path, o.statusCode)

/-- `_esc`. -/
def esc (value : String) : String :=
  String.ofList (replaceEach '\n' ['\\', 'n'] (replaceEach '"' ['\\', '"']
    (replaceEach '\\' ['\\', '\\'] value.toList)))

/-- `_num`. -/
def num (ops : FloatOps F) : GaugeValue F → String
  | .bool value => if value then "1" else "0"
  | .int value => toString value
  | .float value => ops.str value

/-- `sorted(d.items())`, for keys that compare like `key`: keys differ, so no values are
compared. -/
def sortedItems {κ β δ : Type} [DecidableEq κ] [LinearOrder δ] (d : Dict κ β) (key : κ → δ) :
    List (κ × β) := d.entries.insertionSort fun a b => key a.1 ≤ key b.1

theorem toList_esc (value : String) : (esc value).toList = backslash.escape value.toList := by
  -- each replacement escapes its own character; the backslashes it writes are not replaced again
  have mark : replaceEach '\\' ['\\', '\\'] value.toList =
      backslash.escapeOnly ['\\'] value.toList := by
    have step := backslash.replaceEach_escapeOnly [] (c := '\\') rfl (by simp) value.toList
    rwa [Escaping.escapeOnly_nil] at step
  have quote := backslash.replaceEach_escapeOnly ['\\'] (c := '"') rfl
    (by simp [Escaping.escapeChar, backslash]) value.toList
  have newline := backslash.replaceEach_escapeOnly ['\\', '"'] (c := '\n') rfl
    (by simp [Escaping.escapeChar, backslash]) value.toList
  have all : ∀ c, backslash.code c ≠ none → c ∈ ['\\', '"', '\n'] := by
    intro c special
    simp only [backslash] at special
    split_ifs at special with mark quote newline
    · simp [mark]
    · simp [quote]
    · simp [newline]
    · exact absurd rfl special
  rw [esc, String.toList_ofList, mark]
  exact (congrArg _ quote).trans (newline.trans (backslash.escapeOnly_eq_escape all _))

namespace MetricsRegistry

def init (ops : FloatOps F) (nodeRole nodeId : String) : MetricsRegistry F :=
  ⟨nodeRole, nodeId, ∅, ∅, ∅, 0, ops.zero⟩

def observe (ops : FloatOps F) (r : MetricsRegistry F) (o : Observation F) : MetricsRegistry F :=
  let key := (o.method, o.path)
  let counted := { r with
    requestTotal := r.requestTotal.tally (o.method, o.path, o.statusCode)
    durationCount := r.durationCount.tally key
    durationSum := r.durationSum.set key
      (ops.add ((r.durationSum.get? key).getD ops.zero) o.durationSeconds) }
  if o.path = "/search" then { counted with
    searchCount := r.searchCount + 1
    searchDurationSum := ops.add r.searchDurationSum o.durationSeconds }
  else counted

/-! ## Rendering -/

def requestHeader : List String :=
  ["# HELP vecscaledb_request_total Total HTTP requests.",
    "# TYPE vecscaledb_request_total counter"]

def requestLine (r : MetricsRegistry F) (item : (String × String × ℤ) × ℕ) : String :=
  "vecscaledb_request_total" ++
    s!"\x7bnode_role=\"{esc r.nodeRole}\",node_id=\"{esc r.nodeId}\"," ++
    s!"method=\"{esc item.1.1}\",path=\"{esc item.1.2.1}\",status=\"{item.1.2.2}\"\x7d {item.2}"

def durationHelp : String := "# HELP vecscaledb_request_duration_seconds HTTP request duration."

def durationLines (ops : FloatOps F) (r : MetricsRegistry F) (item : (String × String) × ℕ) :
    List String :=
  let label := s!"node_role=\"{esc r.nodeRole}\",node_id=\"{esc r.nodeId}\"," ++
    s!"method=\"{esc item.1.1}\",path=\"{esc item.1.2}\""
  let sum := ops.fixed9 ((r.durationSum.get? item.1).getD ops.zero)
  [s!"vecscaledb_request_duration_seconds_count\x7b{label}\x7d {item.2}",
    s!"vecscaledb_request_duration_seconds_sum\x7b{label}\x7d {sum}"]

/-- The labels that name the node. -/
def nodeLabels (r : MetricsRegistry F) : String :=
  s!"\x7bnode_role=\"{esc r.nodeRole}\",node_id=\"{esc r.nodeId}\"\x7d"

def searchLines (ops : FloatOps F) (r : MetricsRegistry F) : List String :=
  ["# HELP vecscaledb_search_duration_seconds Search request duration.",
    "# TYPE vecscaledb_search_duration_seconds summary",
    s!"vecscaledb_search_duration_seconds_count{r.nodeLabels} {r.searchCount}",
    s!"vecscaledb_search_duration_seconds_sum{r.nodeLabels} {ops.fixed9 r.searchDurationSum}"]

def gaugeLines (ops : FloatOps F) (r : MetricsRegistry F) (item : String × GaugeValue F) :
    List String :=
  let metric := s!"vecscaledb_{item.1}"
  [s!"# TYPE {metric} gauge", s!"{metric}{r.nodeLabels} {num ops item.2}"]

/-- The lines behind the request part. -/
def laterLines (ops : FloatOps F) (r : MetricsRegistry F) (gauges : Dict String (GaugeValue F)) :
    List String :=
  "# TYPE vecscaledb_request_duration_seconds summary" ::
    (sortedItems r.durationCount toLex).flatMap (r.durationLines ops) ++ r.searchLines ops ++
    (sortedItems gauges id).flatMap (r.gaugeLines ops)

def render (ops : FloatOps F) (r : MetricsRegistry F)
    (gauges : Option (Dict String (GaugeValue F))) : String :=
  let items := sortedItems r.requestTotal fun key => toLex (key.1, toLex key.2)
  let lines := requestHeader ++ items.map r.requestLine ++
    durationHelp :: r.laterLines ops (gauges.getD ∅)
  "\n".intercalate lines ++ "\n"

/-! ## Counting -/

theorem requestTotal_observe (ops : FloatOps F) (r : MetricsRegistry F) (o : Observation F) :
    (r.observe ops o).requestTotal = r.requestTotal.tally o.key ∧
      (r.observe ops o).nodeRole = r.nodeRole ∧ (r.observe ops o).nodeId = r.nodeId := by
  unfold observe
  split <;> exact ⟨rfl, rfl, rfl⟩

/-- The triples are tallied one call at a time. -/
theorem requestTotal_foldl_observe (ops : FloatOps F) (r : MetricsRegistry F)
    (calls : List (Observation F)) :
    (calls.foldl (observe ops) r).requestTotal =
        (calls.map Observation.key).foldl Dict.tally r.requestTotal ∧
      (calls.foldl (observe ops) r).nodeRole = r.nodeRole ∧
      (calls.foldl (observe ops) r).nodeId = r.nodeId := by
  induction calls generalizing r with
  | nil => exact ⟨rfl, rfl, rfl⟩
  | cons o calls ih =>
      obtain ⟨total, role, id⟩ := requestTotal_observe ops r o
      obtain ⟨totals, roles, ids⟩ := ih (r.observe ops o)
      rw [total] at totals
      exact ⟨totals, roles.trans role, ids.trans id⟩

/-- The registry holds how often each triple was observed. -/
theorem get?_requestTotal (ops : FloatOps F) (nodeRole nodeId : String)
    (calls : List (Observation F)) (key : String × String × ℤ) (count : ℕ) :
    (calls.foldl (observe ops) (init ops nodeRole nodeId)).requestTotal.get? key = some count ↔
      0 < count ∧ calls.countP (fun o => o.key = key) = count := by
  have counted : (calls.map Observation.key).countP (· = key) =
      calls.countP fun o => o.key = key := List.countP_map
  have found := Dict.get?_foldl_tally (calls.map Observation.key) key
  rw [(requestTotal_foldl_observe ops (init ops nodeRole nodeId) calls).1]
  change ((calls.map Observation.key).foldl Dict.tally ∅).get? key = some count ↔ _
  rw [found, counted]
  split
  · next none =>
      constructor
      · intro absurdity
        cases absurdity
      · omega
  · rw [Option.some.injEq]
    omega

/-! ## Lines -/

/-- One item of `request_total`, as a sample. -/
def requestSample (r : MetricsRegistry F) (item : (String × String × ℤ) × ℕ) : Sample where
  metric := "vecscaledb_request_total"
  labels := [("node_role", r.nodeRole), ("node_id", r.nodeId), ("method", item.1.1),
    ("path", item.1.2.1), ("status", toString item.1.2.2)]
  value := item.2

theorem named_requestSample (r : MetricsRegistry F) (item : (String × String × ℤ) × ℕ) :
    (r.requestSample item).Named := by
  have names : ∀ name ∈ ["node_role", "node_id", "method", "path", "status"],
      '=' ∉ name.toList ∧ '\n' ∉ name.toList := by decide
  have metric : '{' ∉ "vecscaledb_request_total".toList ∧
      '\n' ∉ "vecscaledb_request_total".toList := by decide
  refine ⟨metric, List.cons_ne_nil _ _, fun label listed => names label.1 ?_⟩
  exact List.mem_map_of_mem listed

/-- A number needs no escapes. -/
theorem escape_toString (i : ℤ) :
    backslash.escape (toString i).toList = (toString i).toList := by
  refine backslash.escape_of_plain fun c member => ?_
  rw [JsonInts.toList_toString] at member
  have digits : ∀ c ∈ Nat.toDigits 10 i.natAbs, backslash.code c = none := by
    intro c listed
    have digit := JsonInts.isDigit_of_mem_digits listed
    simp only [backslash]
    split_ifs with mark quote newline
    · rw [mark] at digit
      cases digit
    · rw [quote] at digit
      cases digit
    · rw [newline] at digit
      cases digit
    · rfl
  unfold JsonInts.dumpInt at member
  split at member
  · rcases List.mem_cons.mp member with rfl | later
    · rfl
    · exact digits c later
  · exact digits c member

/-- The line that the code writes is the one that samples are written on. -/
theorem toList_requestLine (r : MetricsRegistry F) (item : (String × String × ℤ) × ℕ) :
    (r.requestLine item).toList = (r.requestSample item).print := by
  rcases item with ⟨⟨method, path, statusCode⟩, value⟩
  have line : r.requestLine ((method, path, statusCode), value) = "vecscaledb_request_total" ++
      ("\x7bnode_role=\"" ++ esc r.nodeRole ++ "\",node_id=\"" ++ esc r.nodeId ++ "\",") ++
      ("method=\"" ++ esc method ++ "\",path=\"" ++ esc path ++ "\",status=\"" ++
        toString statusCode ++ "\"\x7d " ++ toString value) := rfl
  -- where a label begins, where the next one does, and where the last one ends
  have role : "\x7bnode_role=\"".toList = '{' :: ("node_role".toList ++ ['=', '"']) := rfl
  have id : "\",node_id=\"".toList = '"' :: ',' :: ("node_id".toList ++ ['=', '"']) := rfl
  have comma : "\",".toList = ['"', ','] := rfl
  have first : "method=\"".toList = "method".toList ++ ['=', '"'] := rfl
  have second : "\",path=\"".toList = '"' :: ',' :: ("path".toList ++ ['=', '"']) := rfl
  have third : "\",status=\"".toList = '"' :: ',' :: ("status".toList ++ ['=', '"']) := rfl
  have closed : "\"\x7d ".toList = ['"', '}', ' '] := rfl
  rw [line]
  simp only [String.toList_append, toList_esc, requestSample, Sample.print, Sample.printLabels,
    Sample.printMore, Sample.printLabel, List.flatMap_cons, List.flatMap_nil, escape_toString,
    ← JsonInts.toList_toString_nat]
  rw [role, id, comma, first, second, third, closed]
  simp only [List.append_assoc, List.cons_append, List.nil_append]

end MetricsRegistry

/-! ## Reading -/

/-- What a request line says. -/
structure RequestTotal where
  nodeRole : String
  nodeId : String
  key : String × String × ℤ
  count : ℤ
  deriving DecidableEq

/-- One line read back: its labels un-escaped, its status read as a number. -/
def readRequestTotal (line : String) : Option RequestTotal :=
  match Sample.read line.toList with
  | some ⟨metric, [(a, nodeRole), (b, nodeId), (c, method), (d, path), (e, status)], count⟩ =>
      if metric = "vecscaledb_request_total" ∧
          [a, b, c, d, e] = ["node_role", "node_id", "method", "path", "status"] then
        match JsonInts.readInt status.toList with
        | some (statusCode, []) => some ⟨nodeRole, nodeId, (method, path, statusCode), count⟩
        | _ => none
      else none
  | _ => none

/-- The request part: the lines behind its two comments, up to the next comment. -/
def requestTotalPart (text : String) : List String :=
  ((textLines text).drop 2).takeWhile fun line => line.toList.head? ≠ some '#'

namespace MetricsRegistry

theorem readRequestTotal_requestLine (r : MetricsRegistry F)
    (item : (String × String × ℤ) × ℕ) :
    readRequestTotal (r.requestLine item) = some ⟨r.nodeRole, r.nodeId, item.1, item.2⟩ := by
  have sample : Sample.read (r.requestLine item).toList = some (r.requestSample item) := by
    rw [toList_requestLine]
    exact Sample.read_print (r.named_requestSample item)
  have status : JsonInts.readInt (toString item.1.2.2).toList = some (item.1.2.2, []) := by
    have ends : JsonInts.Ends [] := by rintro c ⟨⟩
    have read := JsonInts.readInt_dumpInt item.1.2.2 ends
    rwa [List.append_nil, ← JsonInts.toList_toString] at read
  simp only [readRequestTotal, sample, requestSample, status, and_self, if_true]

/-- What is split off the text are the request lines, whatever is in their labels. -/
theorem requestTotalPart_render (ops : FloatOps F) (r : MetricsRegistry F)
    (gauges : Option (Dict String (GaugeValue F))) :
    requestTotalPart (r.render ops gauges) =
      (sortedItems r.requestTotal fun key => toLex (key.1, toLex key.2)).map r.requestLine := by
  let items := sortedItems r.requestTotal fun key => toLex (key.1, toLex key.2)
  let front := requestHeader ++ items.map r.requestLine ++ [durationHelp]
  have text : r.render ops gauges = String.join (front.map (· ++ "\n")) ++
      String.join ((r.laterLines ops (gauges.getD ∅)).map (· ++ "\n")) := by
    have lines : front ++ r.laterLines ops (gauges.getD ∅) = requestHeader ++
        items.map r.requestLine ++ durationHelp :: r.laterLines ops (gauges.getD ∅) := by
      simp [front]
    rw [← String.join_append, ← List.map_append, lines, render]
    exact intercalate_newline (by simp [requestHeader])
  have whole : ∀ line ∈ front, '\n' ∉ line.toList := by
    simp only [front, List.mem_append, List.mem_map, List.mem_singleton]
    rintro line ((header | ⟨item, -, rfl⟩) | rfl)
    · revert line
      decide
    · rw [toList_requestLine]
      exact Sample.newline_notMem_print (r.named_requestSample item)
    · decide
  have starts : ∀ line ∈ items.map r.requestLine,
      decide (line.toList.head? ≠ some '#') = true := by
    intro line listed
    rcases List.mem_map.mp listed with ⟨item, -, rfl⟩
    have metric : "vecscaledb_request_total".toList = 'v' :: "ecscaledb_request_total".toList := by
      decide
    rw [toList_requestLine]
    simp only [Sample.print, requestSample, metric, List.cons_append, List.head?_cons]
    decide
  rw [requestTotalPart, text, textLines_append whole]
  change (items.map r.requestLine ++ [durationHelp] ++ _).takeWhile _ = _
  rw [List.append_assoc, List.takeWhile_append_of_pos starts, List.singleton_append,
    List.takeWhile_cons_of_neg (by decide), List.append_nil]

theorem mem_sortedItems {κ β δ : Type} [DecidableEq κ] [LinearOrder δ] {d : Dict κ β} {key : κ → δ}
    {item : κ × β} : item ∈ sortedItems d key ↔ d.get? item.1 = some item.2 := by
  rw [sortedItems, List.mem_insertionSort, ← Dict.mem_entries_iff]

/-- **Metrics text is unambiguous.**  Whatever methods, paths and node names are, the
request part has one line for each observed triple, and the line gives back the triple with
the number of its observations. -/
theorem requestTotal_unambiguous (ops : FloatOps F) (nodeRole nodeId : String)
    (calls : List (Observation F)) (gauges : Option (Dict String (GaugeValue F))) :
    ∃ items : List ((String × String × ℤ) × ℕ), (items.map Prod.fst).Nodup ∧
      (∀ key count, (key, count) ∈ items ↔
        0 < count ∧ calls.countP (fun o => o.key = key) = count) ∧
      (requestTotalPart ((calls.foldl (observe ops) (init ops nodeRole nodeId)).render ops
        gauges)).map readRequestTotal =
          items.map fun item => some ⟨nodeRole, nodeId, item.1, item.2⟩ := by
  let r := calls.foldl (observe ops) (init ops nodeRole nodeId)
  obtain ⟨-, role, id⟩ := requestTotal_foldl_observe ops (init ops nodeRole nodeId) calls
  refine ⟨sortedItems r.requestTotal fun key => toLex (key.1, toLex key.2), ?_, ?_, ?_⟩
  · have perm := List.perm_insertionSort (fun a b : (String × String × ℤ) × ℕ =>
      toLex (a.1.1, toLex a.1.2) ≤ toLex (b.1.1, toLex b.1.2)) r.requestTotal.entries
    exact (perm.map Prod.fst).nodup_iff.mpr r.requestTotal.nodup
  · intro key count
    rw [mem_sortedItems]
    exact get?_requestTotal ops nodeRole nodeId calls key count
  · rw [requestTotalPart_render, List.map_map]
    refine List.map_congr_left fun item _ => ?_
    rw [Function.comp_apply, readRequestTotal_requestLine, role, id]
    rfl

end MetricsRegistry

end VecScale
