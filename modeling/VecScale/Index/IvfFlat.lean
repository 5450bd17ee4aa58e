import VecScale.Lib.Nearest
import VecScale.Models

/-!
# The FAISS index wrapper

FAISS itself is a parameter: `Faiss` holds its distance and its two search
routines with what its documentation promises of them.  A flat index is exact.
An inverted-file index returns stored rows at their distances, and is exact
when every list is probed.

A search request has at least one slot (`top_k ≥ 1` in the request models);
slots that are not filled carry the id -1.
-/

namespace VecScale

/-- The index library, for vectors of dimension `dim` and distances `D`. -/
structure Faiss (dim : ℕ) (D : Type) [LinearOrder D] where
  l2 : Vec dim → Vec dim → D
  /-- The distance in an unfilled slot. -/
  far : D
  /-- `IndexFlatL2.search`, the filled slots. -/
  flatSearch : List (Row dim) → Vec dim → ℕ → List (ℤ × D)
  /-- `IndexIVFFlat.search` with `nlist` lists of which `nprobe` are read. -/
  ivfSearch : ℕ → ℕ → List (Row dim) → Vec dim → ℕ → List (ℤ × D)
  flat_nearest : ∀ rows q k,
    Nearest k (rows.map fun row => (row.1, l2 q row.2)) (flatSearch rows q k)
  ivf_mem : ∀ nlist nprobe rows q k, ∀ hit ∈ ivfSearch nlist nprobe rows q k,
    hit ∈ rows.map fun row => (row.1, l2 q row.2)
  ivf_nearest : ∀ nlist nprobe rows q k, nlist ≤ nprobe →
    Nearest k (rows.map fun row => (row.1, l2 q row.2)) (ivfSearch nlist nprobe rows q k)

section Index

variable {dim : ℕ} {D : Type} [LinearOrder D] (faiss : Faiss dim D)

/-- The rows with their distances from a query. -/
def Faiss.measure (q : Vec dim) (rows : List (Row dim)) : List (ℤ × D) :=
  rows.map fun row => (row.1, faiss.l2 q row.2)

theorem Faiss.mem_measure {q : Vec dim} {rows : List (Row dim)} {x : ℤ} {d : D} :
    (x, d) ∈ faiss.measure q rows ↔ ∃ v, (x, v) ∈ rows ∧ d = faiss.l2 q v := by
  simp [Faiss.measure, eq_comm]

@[simp] theorem Faiss.length_measure (q : Vec dim) (rows : List (Row dim)) :
    (faiss.measure q rows).length = rows.length := List.length_map _

/-- An index over its rows; `ivf` is the number of lists, none for a flat index. -/
structure IVFFlatIndex (dim : ℕ) where
  ivf : Option ℕ
  rows : List (Row dim)
  deriving DecidableEq

namespace IVFFlatIndex

/-- `train`, away from Windows: few vectors get a flat index. -/
def train (nlist : ℕ) (vectors : List (Vec dim)) : IVFFlatIndex dim :=
  if vectors.length < max 1 nlist * 39 then ⟨none, []⟩ else ⟨some nlist, []⟩

def add (index : IVFFlatIndex dim) (rows : List (Row dim)) : IVFFlatIndex dim :=
  { index with rows := index.rows ++ rows }

/-- The filled slots of a search. -/
def filled (index : IVFFlatIndex dim) (q : Vec dim) (topK nprobe : ℕ) : List (ℤ × D) :=
  match index.ivf with
  | none => faiss.flatSearch index.rows q topK
  | some nlist => faiss.ivfSearch nlist nprobe index.rows q topK

/-- `search`: the slots without the negative ids. -/
def search (index : IVFFlatIndex dim) (q : Vec dim) (topK nprobe : ℕ) : List (ℤ × D) :=
  let hits := index.filled faiss q topK nprobe
  (hits ++ List.replicate (topK - hits.length) (-1, faiss.far)).filter fun hit => 0 ≤ hit.1

/-- Every search of this query reads the nearest rows. -/
def ExactAt (index : IVFFlatIndex dim) (q : Vec dim) (nprobe : ℕ) : Prop :=
  ∀ topK, Nearest topK (faiss.measure q index.rows) (index.filled faiss q topK nprobe)

@[simp] theorem rows_train (nlist : ℕ) (vectors : List (Vec dim)) :
    (train nlist vectors : IVFFlatIndex dim).rows = [] := by
  unfold train
  split <;> rfl

/-- An unfilled slot is always masked. -/
theorem search_eq (index : IVFFlatIndex dim) (q : Vec dim) (topK nprobe : ℕ) :
    index.search faiss q topK nprobe =
      (index.filled faiss q topK nprobe).filter fun hit => 0 ≤ hit.1 := by
  simp [search]

theorem exactAt_flat {index : IVFFlatIndex dim} (flat : index.ivf = none) (q : Vec dim)
    (nprobe : ℕ) : index.ExactAt faiss q nprobe := by
  intro topK
  rw [filled, flat]
  exact faiss.flat_nearest index.rows q topK

theorem exactAt_of_probes {index : IVFFlatIndex dim} {nlist : ℕ} (lists : index.ivf = some nlist)
    {nprobe : ℕ} (all : nlist ≤ nprobe) (q : Vec dim) : index.ExactAt faiss q nprobe := by
  intro topK
  rw [filled, lists]
  exact faiss.ivf_nearest nlist nprobe index.rows q topK all

/-- Exact or not, a hit is a stored row at its distance. -/
theorem mem_of_search {index : IVFFlatIndex dim} {q : Vec dim} {topK nprobe : ℕ} {hit : ℤ × D}
    (found : hit ∈ index.search faiss q topK nprobe) :
    0 ≤ hit.1 ∧ hit ∈ faiss.measure q index.rows := by
  rw [search_eq, List.mem_filter, decide_eq_true_eq] at found
  refine ⟨found.2, ?_⟩
  have slot := found.1
  unfold filled at slot
  split at slot
  · exact (faiss.flat_nearest index.rows q topK).mem slot
  · exact faiss.ivf_mem _ nprobe index.rows q topK hit slot

/-- An exact search with room for every row lists all rows of non-negative id. -/
theorem mem_search_iff {index : IVFFlatIndex dim} {q : Vec dim} {topK nprobe : ℕ}
    (exact : index.ExactAt faiss q nprobe) (large : index.rows.length ≤ topK) {hit : ℤ × D} :
    hit ∈ index.search faiss q topK nprobe ↔ 0 ≤ hit.1 ∧ hit ∈ faiss.measure q index.rows := by
  have all := (exact topK).mem_iff (by simpa using large) (p := hit)
  rw [search_eq, List.mem_filter, decide_eq_true_eq, all, and_comm]

end IVFFlatIndex

end Index

/-! ## Brute force -/

/-- The whole part of a float32. -/
def truncFloat (w : UInt32) : ℤ :=
  let exponent := w.toNat / 2 ^ 23 % 2 ^ 8
  let mantissa := w.toNat % 2 ^ 23 + 2 ^ 23
  let size : ℕ := mantissa * 2 ^ exponent / 2 ^ 150
  if w.toNat < 2 ^ 31 then size else -size

/-- The squared distance of vectors of whole numbers. -/
def squaredL2 {dim : ℕ} (q v : Vec dim) : ℤ :=
  ((q.toList.zip v.toList).map fun c => (truncFloat c.1 - truncFloat c.2) ^ 2).sum

/-- An index library that sorts all rows, on vectors of whole numbers. -/
def bruteForce (dim : ℕ) : Faiss dim ℤ where
  l2 := squaredL2
  far := 2 ^ 128
  flatSearch rows q k := nsmallest k (rows.map fun row => (row.1, squaredL2 q row.2)) Prod.snd
  ivfSearch _ _ rows q k := nsmallest k (rows.map fun row => (row.1, squaredL2 q row.2)) Prod.snd
  flat_nearest _ _ k := nearest_nsmallest k _
  ivf_mem _ _ _ _ k _ found := (nearest_nsmallest k _).mem found
  ivf_nearest _ _ _ _ k _ := nearest_nsmallest k _

/-- Brute force reads all rows, whatever the number of lists. -/
theorem IVFFlatIndex.exactAt_bruteForce {dim : ℕ} (index : IVFFlatIndex dim) (q : Vec dim) (nprobe : ℕ) :
    index.ExactAt (bruteForce dim) q nprobe := by
  intro k
  rcases index with ⟨ivf, rows⟩
  cases ivf with
  | none => exact nearest_nsmallest k _
  | some nlist => exact nearest_nsmallest k _

end VecScale
