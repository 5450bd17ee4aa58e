import Mathlib.Data.Finset.Sort
import VecScale.Lib.JsonInts
import VecScale.Reader.FullCache

/-!
# Replacing `tombstones.json`

`_persist_tombstones` opens the file for writing, which empties it, and then
streams the new set as a JSON array.  `fileAt` is what stands in the file at any
moment of this, and whoever loads it then is a reader that refreshes or an engine
that starts: both take a text that is no array for the empty set.

* `ofText_tombstonesText`: the file after the last character holds the new set;
* `findsWhole_iff`: every observer finds the old set or the new one exactly when it
  comes before the opening or after the last character, or one of the sets is empty.
-/

namespace VecScale

/-- The file as `json.load` finds it; `none` is a missing file. -/
def TombstonesJson.ofText : Option (List Char) → TombstonesJson
  | none => .absent
  | some text =>
      match JsonInts.load text with
      | none => .unreadable
      | some ids => .holds ids.toFinset

/-- `json.dump(sorted(tombstones))`. -/
def tombstonesText (ids : Finset ℤ) : List Char := JsonInts.dump ids.sort

/-- A moment of `_persist_tombstones`: before the file is opened, or when so many
characters of the new text have reached it. -/
inductive PersistPoint
  | beforeOpen
  | written (count : ℕ)
  deriving DecidableEq

/-- What stands in the file at that moment. -/
def fileAt (before : Option (List Char)) (new : Finset ℤ) : PersistPoint → Option (List Char)
  | .beforeOpen => before
  | .written count => some ((tombstonesText new).take count)

/-- Every character of the new text has reached the file. -/
def PersistPoint.Complete (new : Finset ℤ) : PersistPoint → Prop
  | .beforeOpen => False
  | .written count => (tombstonesText new).length ≤ count

/-- Whoever loads the file finds one of two sets; the start of an engine adds to it
what its log deletes. -/
structure FindsWhole (dim : ℕ) (old new : Finset ℤ) (file : TombstonesJson) : Prop where
  refreshed : ∀ (cache : SegmentCache dim) (st : SharedStorage dim) (allSegments : List SegmentMeta),
    (cache.refresh { st with tombstonesJson := file } allSegments).2.tombstones = old ∨
      (cache.refresh { st with tombstonesJson := file } allSegments).2.tombstones = new
  started : ∀ (env : Env) (n n' : Node dim),
    LSMEngine.start env { n with storage := { n.storage with tombstonesJson := file } } = .ok n' →
      n'.engine.tombstones = old ∪ deletedIn (n'.replayed env) ∨
        n'.engine.tombstones = new ∪ deletedIn (n'.replayed env)

/-! ## The text -/

/-- The completed call is `persist`. -/
theorem ofText_tombstonesText (ids : Finset ℤ) :
    TombstonesJson.ofText (some (tombstonesText ids)) = .holds ids := by
  simp only [TombstonesJson.ofText, tombstonesText, JsonInts.load_dump, Finset.sort_toFinset]

/-- A part of the text reads as no tombstones. -/
theorem load_of_torn {ids : Finset ℤ} {count : ℕ} (short : count < (tombstonesText ids).length) :
    (TombstonesJson.ofText (some ((tombstonesText ids).take count))).load = ∅ := by
  have proper : (tombstonesText ids).take count ≠ tombstonesText ids := by
    intro same
    have lengths := congrArg List.length same
    rw [List.length_take] at lengths
    omega
  have torn := JsonInts.load_eq_none_of_torn (List.take_prefix count (tombstonesText ids)) proper
  simp only [TombstonesJson.ofText, torn, TombstonesJson.load]

/-! ## The observers -/

variable {dim : ℕ} {old new : Finset ℤ} {file : TombstonesJson}

/-- What all observers find is what the file loads as. -/
theorem findsWhole_iff_load : FindsWhole dim old new file ↔ file.load = old ∨ file.load = new := by
  constructor
  · intro finds
    have cache : SegmentCache dim := ⟨0, 1, false, ∅, ∅, ∅, [], Nat.one_pos⟩
    have found := finds.refreshed cache SharedStorage.empty []
    rwa [SegmentCache.tombstones_refresh] at found
  · intro loads
    refine ⟨fun cache st allSegments => ?_, fun env n n' ran => ?_⟩
    · rw [SegmentCache.tombstones_refresh]
      exact loads
    · rw [tombstones_of_start ran]
      rcases loads with same | same
      · exact Or.inl (by rw [← same])
      · exact Or.inr (by rw [← same])

/-- **When a replacement is atomic for its observers.**  They find the old set or the
new one exactly when they come before the file is opened or after its last character,
or when one of the two sets is empty. -/
theorem findsWhole_iff (dim : ℕ) (before : Option (List Char)) (new : Finset ℤ)
    (point : PersistPoint) :
    FindsWhole dim (TombstonesJson.ofText before).load new
        (TombstonesJson.ofText (fileAt before new point)) ↔
      point = .beforeOpen ∨ point.Complete new ∨
        (TombstonesJson.ofText before).load = ∅ ∨ new = ∅ := by
  rw [findsWhole_iff_load]
  cases point with
  | beforeOpen => simp [fileAt]
  | written count =>
      rcases Nat.lt_or_ge count (tombstonesText new).length with short | whole
      · have incomplete : ¬ (PersistPoint.written count).Complete new := Nat.not_le_of_lt short
        rw [fileAt, load_of_torn short]
        simp only [reduceCtorEq, incomplete, false_or, eq_comm]
      · have complete : (PersistPoint.written count).Complete new := whole
        rw [fileAt, List.take_of_length_le whole, ofText_tombstonesText]
        simp [complete, TombstonesJson.load]

/-- The file is opened to add a second tombstone: whoever loads it then has forgotten
the first, which is in the old set and in the new one. -/
theorem opened_file_forgets :
    ¬ FindsWhole 1 {7} {7, 8}
        (TombstonesJson.ofText (fileAt (some (tombstonesText {7})) {7, 8} (.written 0))) ∧
      (TombstonesJson.ofText (some (tombstonesText {7}))).load = {7} ∧
      (TombstonesJson.ofText (fileAt (some (tombstonesText {7})) {7, 8} (.written 0))).load = ∅ := by
  have forgotten :
      (TombstonesJson.ofText (fileAt (some (tombstonesText {7})) {7, 8} (.written 0))).load = ∅ :=
    rfl
  refine ⟨?_, by rw [ofText_tombstonesText, TombstonesJson.load], forgotten⟩
  rw [findsWhole_iff_load, forgotten]
  decide

end VecScale
