import Mathlib.Data.Vector.Basic
import Mathlib.Algebra.Order.Ring.Int

/-!
# Vectors, rows and errors

A vector is its `dim` float32 bit patterns: nothing below the distance function
looks inside one.  A row pairs an external id with a vector.  `prepareRows` is
the check every write path makes on its arrays; everything behind it works on
rows.
-/

namespace VecScale

/-- A float32 vector of dimension `dim`, as bit patterns. -/
abbrev Vec (dim : ℕ) := List.Vector UInt32 dim

/-- An external id with its vector. -/
abbrev Row (dim : ℕ) := ℤ × Vec dim

/-- `np.zeros(dim, dtype=np.float32)`. -/
def zeroVec (dim : ℕ) : Vec dim := List.Vector.replicate dim 0

/-- `np.array([1.0], dtype=np.float32)`. -/
def unitVec : Vec 1 := ⟨[0x3F800000], rfl⟩

/-- What a call can raise. -/
inductive PyError
  | valueError (message : String)
  | runtimeError (message : String)
  | fileNotFoundError (message : String)
  | structError
  | memoryError
  | overflowError
  deriving DecidableEq, Repr

/-- The rows of a `[N, dim]` array; `none` for any other shape. -/
def shapeVectors (dim : ℕ) : List (List UInt32) → Option (List (Vec dim))
  | [] => some []
  | v :: vs =>
      if h : v.length = dim then (shapeVectors dim vs).map (⟨v, h⟩ :: ·) else none

/-- The check of `MemTable._prepare`, `WAL._prepare_record_arrays`,
`LSMEngine.insert` and `WriterPipeline._validate_vectors`. -/
def prepareRows (dim : ℕ) (ids : List ℤ) (vectors : List (List UInt32)) :
    Except PyError (List (Row dim)) :=
  match shapeVectors dim vectors with
  | none => .error (.valueError s!"Expected vectors with shape [N, {dim}].")
  | some vs =>
      if ids.length ≠ vs.length then .error (.valueError "len(ids) != len(vectors)")
      else .ok (ids.zip vs)

/-- The `ids` array of a batch. -/
def batchIds {dim : ℕ} (rows : List (Row dim)) : List ℤ := rows.map Prod.fst

/-- The `vectors` array of a batch. -/
def batchVectors {dim : ℕ} (rows : List (Row dim)) : List (List UInt32) :=
  rows.map fun r => r.2.toList

theorem shapeVectors_toList {dim : ℕ} (vs : List (Vec dim)) :
    shapeVectors dim (vs.map List.Vector.toList) = some vs := by
  induction vs with
  | nil => rfl
  | cons v vs ih =>
      simp only [List.map_cons, shapeVectors, List.Vector.toList_length, dite_true, ih,
        Option.map_some, Option.some.injEq]
      rfl

/-- The arrays of a batch of rows pass the check. -/
@[simp] theorem prepareRows_batch {dim : ℕ} (rows : List (Row dim)) :
    prepareRows dim (batchIds rows) (batchVectors rows) = .ok rows := by
  have shaped : shapeVectors dim (batchVectors rows) = some (rows.map Prod.snd) := by
    rw [← shapeVectors_toList, batchVectors, List.map_map]
    rfl
  simp only [prepareRows, shaped, batchIds, List.length_map, ne_eq, not_true_eq_false, if_false,
    Except.ok.injEq]
  rw [List.zip_map']
  simp

/-- Only batches pass the check. -/
theorem prepareRows_ok {dim : ℕ} {ids : List ℤ} {vectors : List (List UInt32)}
    {rows : List (Row dim)} (checked : prepareRows dim ids vectors = .ok rows) :
    batchIds rows = ids := by
  unfold prepareRows at checked
  split at checked
  · cases checked
  · next vs _ =>
      split at checked
      · cases checked
      · next same =>
          cases checked
          rw [batchIds, List.map_fst_zip]
          omega

end VecScale
