import Mathlib.Data.Set.List
import VecScale.Storage.WalRecord

/-!
# Request bodies

The schemas of the services and the arrays that their handlers make of a body.  A body holds
floats of any type; `float32` rounds one to its bit pattern.  A request that a handler gets has
passed its schema, so its lists are filled and its numbers are in range.
-/

namespace VecScale

variable {F : Type}

/-- What a service answers. -/
inductive Answer (α : Type)
  | ok (body : α)
  | httpError (status : ℕ) (detail : String)
  /-- The body fails its schema. -/
  | unprocessable
  /-- The handler raised something that it does not catch. -/
  | internalServerError
  deriving DecidableEq

def Answer.Refused {α : Type} : Answer α → Prop
  | .ok _ => False
  | .httpError _ _ | .unprocessable | .internalServerError => True

/-! ## Schemas -/

structure InsertRequest (F : Type) where
  vectors : List (List F)
  ids : List ℤ
  someVectors : vectors ≠ []
  someIds : ids ≠ []

def InsertRequest.validate (vectors : List (List F)) (ids : List ℤ) : Option (InsertRequest F) :=
  if filled : vectors ≠ [] ∧ ids ≠ [] then some ⟨vectors, ids, filled.1, filled.2⟩ else none

structure SearchRequest (F : Type) where
  query : List F
  topK : ℕ
  nprobe : ℕ
  someQuery : query ≠ []
  someHits : 1 ≤ topK
  someProbes : 1 ≤ nprobe

/-- Of the numbers, those that the body leaves out have a default. -/
def SearchRequest.validate (query : List F) (topK nprobe : Option ℤ) : Option (SearchRequest F) :=
  if valid : query ≠ [] ∧ 1 ≤ topK.getD 10 ∧ 1 ≤ nprobe.getD 32 then
    some ⟨query, (topK.getD 10).toNat, (nprobe.getD 32).toNat, valid.1, by omega, by omega⟩
  else none

structure DeleteRequest where
  ids : List ℤ
  someIds : ids ≠ []

def DeleteRequest.validate (ids : List ℤ) : Option DeleteRequest :=
  if filled : ids ≠ [] then some ⟨ids, filled⟩ else none

/-! ## Arrays -/

/-- `vectors.shape[1]`. -/
def width {α : Type} (vectors : List (List α)) : ℕ := (vectors.head?.map List.length).getD 0

/-- `np.array(vectors, dtype=np.float32)`, which raises on lists of different lengths. -/
def float32Array (float32 : F → UInt32) (vectors : List (List F)) : Option (List (List UInt32)) :=
  if ∀ v ∈ vectors, v.length = width vectors then some (vectors.map (List.map float32)) else none

/-- `np.array(ids, dtype=np.int64)`, which raises on larger integers. -/
def int64Array (ids : List ℤ) : Option (List ℤ) :=
  if ∀ x ∈ ids, IsInt64 x then some ids else none

/-- The batch that a body carries, if it can be stored. -/
def storable (dim : ℕ) (float32 : F → UInt32) (vectors : List (List F)) (ids : List ℤ) :
    Option (List (Row dim)) :=
  if vectors ≠ [] ∧ ∀ x ∈ ids, IsInt64 x then
    (prepareRows dim ids (vectors.map (List.map float32))).toOption
  else none

/-- The ids of a body, if they can be deleted. -/
def deletable (ids : List ℤ) : Option (List ℤ) :=
  if ids ≠ [] ∧ ∀ x ∈ ids, IsInt64 x then some ids else none

/-- A query that can be searched, and how many hits of how many lists. -/
def askable (dim : ℕ) (float32 : F → UInt32) (query : List F) (topK nprobe : Option ℤ) :
    Option (Vec dim × ℕ × ℕ) :=
  if shape : (query.map float32).length = dim then
    if query ≠ [] ∧ 1 ≤ topK.getD 10 ∧ 1 ≤ nprobe.getD 32 then
      some (⟨query.map float32, shape⟩, (topK.getD 10).toNat, (nprobe.getD 32).toNat)
    else none
  else none

theorem askable_ok {dim : ℕ} {float32 : F → UInt32} {query : List F} {topK nprobe : Option ℤ}
    {q : Vec dim} {k probes : ℕ}
    (asked : askable dim float32 query topK nprobe = some (q, k, probes)) :
    q.toList = query.map float32 ∧ (query ≠ [] ∧ 1 ≤ topK.getD 10 ∧ 1 ≤ nprobe.getD 32) ∧
      k = (topK.getD 10).toNat ∧ probes = (nprobe.getD 32).toNat := by
  unfold askable at asked
  split at asked
  · split at asked
    · next valid =>
        cases asked
        exact ⟨rfl, valid, rfl, rfl⟩
    · cases asked
  · cases asked

theorem deletable_eq_some_iff {ids named : List ℤ} :
    deletable ids = some named ↔ (ids ≠ [] ∧ ∀ x ∈ ids, IsInt64 x) ∧ ids = named := by
  rw [deletable, Option.ite_none_right_eq_some, Option.some.injEq]

theorem int64Array_of_undeletable {ids : List ℤ} (undeletable : deletable ids = none)
    (filled : ids ≠ []) : int64Array ids = none := by
  refine if_neg fun int64 => ?_
  rw [deletable, if_pos ⟨filled, int64⟩] at undeletable
  cases undeletable

/-! ## Storable batches -/

section Storable

variable {dim : ℕ} {float32 : F → UInt32} {vectors : List (List F)} {ids : List ℤ}

theorem width_map (f : F → UInt32) (vectors : List (List F)) :
    width (vectors.map (List.map f)) = width vectors := by
  cases vectors with
  | nil => rfl
  | cons v vectors => exact List.length_map f

theorem shapeVectors_eq_some_iff {vectors : List (List UInt32)} {vs : List (Vec dim)} :
    shapeVectors dim vectors = some vs ↔ vectors = vs.map List.Vector.toList := by
  constructor
  · intro shaped
    induction vectors generalizing vs with
    | nil =>
        cases shaped
        rfl
    | cons v vectors ih =>
        rw [shapeVectors] at shaped
        split at shaped
        · obtain ⟨ws, tail, rfl⟩ := Option.map_eq_some_iff.mp shaped
          exact congrArg (v :: ·) (ih tail)
        · cases shaped
  · rintro rfl
    exact shapeVectors_toList vs

/-- The check raises a `ValueError`. -/
theorem prepareRows_error {vectors : List (List UInt32)} {e : PyError}
    (raised : prepareRows dim ids vectors = .error e) : ∃ detail, e = .valueError detail := by
  unfold prepareRows at raised
  split at raised
  · exact ⟨_, (Except.error.inj raised).symm⟩
  · split at raised
    · exact ⟨_, (Except.error.inj raised).symm⟩
    · cases raised

/-- What passes the check is a batch of rows. -/
theorem prepareRows_eq_ok_iff {vectors : List (List UInt32)} {rows : List (Row dim)} :
    prepareRows dim ids vectors = .ok rows ↔ ids = batchIds rows ∧ vectors = batchVectors rows := by
  constructor
  · intro checked
    refine ⟨(prepareRows_ok checked).symm, ?_⟩
    unfold prepareRows at checked
    split at checked
    · cases checked
    · next vs shaped =>
        split at checked
        · cases checked
        · next same =>
            cases checked
            have column : (ids.zip vs).map Prod.snd = vs := List.map_snd_zip (not_not.mp same).ge
            rw [shapeVectors_eq_some_iff.mp shaped, batchVectors, ← column, List.map_map]
            rw [column]
            rfl
  · rintro ⟨rfl, rfl⟩
    exact prepareRows_batch rows

theorem storable_eq_some_iff {rows : List (Row dim)} :
    storable dim float32 vectors ids = some rows ↔ rows ≠ [] ∧ (∀ row ∈ rows, IsInt64 row.1) ∧
      ids = batchIds rows ∧ vectors.map (List.map float32) = batchVectors rows := by
  have filled : vectors.map (List.map float32) = batchVectors rows → (vectors ≠ [] ↔ rows ≠ []) := by
    intro same
    have lengths := congrArg List.length same
    simp only [batchVectors, List.length_map] at lengths
    rw [← List.length_pos_iff, ← List.length_pos_iff, lengths]
  have int64 : ids = batchIds rows → ((∀ x ∈ ids, IsInt64 x) ↔ ∀ row ∈ rows, IsInt64 row.1) := by
    rintro rfl
    simp [batchIds]
  unfold storable
  constructor
  · intro stored
    split at stored
    · next body =>
        cases checked : prepareRows dim ids (vectors.map (List.map float32)) with
        | error e =>
            rw [checked] at stored
            cases stored
        | ok rows' =>
            rw [checked] at stored
            cases stored
            obtain ⟨column, arrays⟩ := prepareRows_eq_ok_iff.mp checked
            exact ⟨(filled arrays).mp body.1, (int64 column).mp body.2, column, arrays⟩
    · cases stored
  · rintro ⟨some, fits, column, arrays⟩
    rw [if_pos ⟨(filled arrays).mpr some, (int64 column).mpr fits⟩, column, arrays,
      prepareRows_batch]
    rfl

theorem length_of_storable {rows : List (Row dim)}
    (stored : storable dim float32 vectors ids = some rows) : ids.length = rows.length := by
  obtain ⟨-, -, rfl, -⟩ := storable_eq_some_iff.mp stored
  exact List.length_map _

/-- A storable batch passes its schema. -/
theorem filled_of_storable {rows : List (Row dim)}
    (stored : storable dim float32 vectors ids = some rows) : vectors ≠ [] ∧ ids ≠ [] := by
  obtain ⟨filled, -, column, arrays⟩ := storable_eq_some_iff.mp stored
  constructor
  · rintro rfl
    exact filled (List.map_eq_nil_iff.mp arrays.symm)
  · rintro rfl
    exact filled (List.map_eq_nil_iff.mp column.symm)

/-- A storable batch passes every check of a handler. -/
theorem checks_of_storable {rows : List (Row dim)}
    (stored : storable dim float32 vectors ids = some rows) :
    float32Array float32 vectors = some (batchVectors rows) ∧
      int64Array ids = some (batchIds rows) ∧ width (batchVectors rows) = dim ∧
      (batchIds rows).length = (batchVectors rows).length := by
  obtain ⟨filled, fits, column, arrays⟩ := storable_eq_some_iff.mp stored
  have lengths : ∀ v ∈ batchVectors rows, v.length = dim := by
    intro v member
    obtain ⟨row, -, rfl⟩ := List.mem_map.mp member
    exact row.2.toList_length
  have wide : width (batchVectors rows) = dim := by
    obtain ⟨row, rest, rfl⟩ := List.exists_cons_of_ne_nil filled
    exact lengths _ List.mem_cons_self
  refine ⟨?_, ?_, wide, by simp [batchIds, batchVectors]⟩
  · rw [float32Array, ← width_map float32, arrays, wide, if_pos]
    intro v member
    rw [← lengths (v.map float32) (arrays ▸ List.mem_map_of_mem member), List.length_map]
  · rw [int64Array, column, if_pos]
    intro x member
    obtain ⟨row, inside, rfl⟩ := List.mem_map.mp member
    exact fits row inside

/-- Arrays that make a batch make a storable one. -/
theorem storable_of_prepareRows {arrays : List (List UInt32)} {array : List ℤ}
    {rows : List (Row dim)} (filled : vectors ≠ [])
    (shaped : float32Array float32 vectors = some arrays) (int64 : int64Array ids = some array)
    (checked : prepareRows dim array arrays = .ok rows) :
    storable dim float32 vectors ids = some rows := by
  unfold float32Array at shaped
  unfold int64Array at int64
  split at shaped
  · split at int64
    · next fits =>
        cases shaped
        cases int64
        rw [storable, if_pos ⟨filled, fits⟩, checked]
        rfl
    · cases int64
  · cases shaped

/-- What passes every check of a handler is a storable batch. -/
theorem storable_of_checks {arrays : List (List UInt32)} {array : List ℤ} (filled : vectors ≠ [])
    (shaped : float32Array float32 vectors = some arrays) (int64 : int64Array ids = some array)
    (wide : width arrays = dim) (same : array.length = arrays.length) :
    storable dim float32 vectors ids ≠ none := by
  have lengths : ∀ v ∈ arrays, v.length = dim := by
    unfold float32Array at shaped
    split at shaped
    · next even =>
        cases shaped
        rw [width_map] at wide
        intro v member
        obtain ⟨u, inside, rfl⟩ := List.mem_map.mp member
        rw [List.length_map, even u inside, wide]
    · cases shaped
  have rows : arrays ∈ Set.range (List.map (List.Vector.toList : Vec dim → List UInt32)) := by
    rw [Set.range_list_map]
    exact fun v member => ⟨⟨v, lengths v member⟩, rfl⟩
  obtain ⟨vs, made⟩ := rows
  have shape : shapeVectors dim arrays = some vs := shapeVectors_eq_some_iff.mpr made.symm
  have count : array.length = vs.length := by rw [same, ← made, List.length_map]
  have checked : prepareRows dim array arrays = .ok (array.zip vs) := by
    simp [prepareRows, shape, count]
  rw [storable_of_prepareRows filled shaped int64 checked]
  exact Option.some_ne_none _

end Storable

end VecScale
