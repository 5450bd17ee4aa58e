import VecScale.Index.IvfFlat

/-!
# The memtable

One entry per id, carrying the LSN of the write that made it: a vector, or a
delete marker.  A read at a snapshot skips the entries above it; a read without
a snapshot sees every entry.

* `get?_insert` and `get?_delete` look an id up after a write;
* `mem_toArrays` and `mem_visibleDeletedIds` describe what a read sees.
-/

namespace VecScale

/-- A vector or a delete marker. -/
structure MemTableEntry (dim : ℕ) where
  vector : Option (Vec dim)
  lsn : ℕ
  deleted : Bool
  marker : deleted = vector.isNone
  deriving DecidableEq

namespace MemTableEntry

variable {dim : ℕ}

def live (v : Vec dim) (lsn : ℕ) : MemTableEntry dim := ⟨some v, lsn, false, rfl⟩

def tombstone (lsn : ℕ) : MemTableEntry dim := ⟨none, lsn, true, rfl⟩

theorem deleted_iff {e : MemTableEntry dim} : e.deleted = true ↔ e.vector = none := by
  rw [e.marker, Option.isNone_iff_eq_none]

end MemTableEntry

/-- The write buffer. -/
structure MemTable (dim : ℕ) where
  flushThreshold : ℕ
  entries : Dict ℤ (MemTableEntry dim)
  deriving DecidableEq

/-- `not (snapshot_id is not None and lsn > snapshot_id)`. -/
def seenAt : Option ℕ → ℕ → Bool
  | none, _ => true
  | some snapshot, lsn => decide (lsn ≤ snapshot)

namespace MemTable

variable {dim : ℕ}

def init (flushThreshold : ℕ) : MemTable dim := ⟨flushThreshold, ∅⟩

def insert (mem : MemTable dim) (rows : List (Row dim)) (lsn : ℕ) : MemTable dim :=
  { mem with entries := mem.entries.setAll (rows.map fun row => (row.1, .live row.2 lsn)) }

def delete (mem : MemTable dim) (ids : List ℤ) (lsn : ℕ) : MemTable dim :=
  { mem with entries := mem.entries.setAll (ids.map fun x => (x, .tombstone lsn)) }

def clear (mem : MemTable dim) : MemTable dim := { mem with entries := ∅ }

/-- The live rows a snapshot sees. -/
def toArrays (mem : MemTable dim) (snapshot : Option ℕ) : List (Row dim) :=
  mem.entries.entries.filterMap fun e =>
    if seenAt snapshot e.2.lsn then e.2.vector.map fun v => (e.1, v) else none

def visibleDeletedIds (mem : MemTable dim) (snapshot : Option ℕ) : Finset ℤ :=
  ((mem.entries.entries.filter fun e => seenAt snapshot e.2.lsn && e.2.deleted).map
    Prod.fst).toFinset

/-- The number of live entries. -/
def ntotal (mem : MemTable dim) : ℕ :=
  mem.entries.entries.countP fun e => !e.2.deleted

/-- `max_lsn`; 0 for an empty memtable. -/
def maxLsn (mem : MemTable dim) : ℕ :=
  (mem.entries.values.map MemTableEntry.lsn).max?.getD 0

def shouldFlush (mem : MemTable dim) : Bool := decide (mem.flushThreshold ≤ mem.ntotal)

def search {D : Type} [LinearOrder D] (faiss : Faiss dim D) (mem : MemTable dim) (q : Vec dim)
    (topK : ℕ) (snapshot : Option ℕ) : List (ℤ × D) :=
  let rows := mem.toArrays snapshot
  if rows.length = 0 then []
  else (faiss.flatSearch rows q (min topK rows.length)).filter fun hit => 0 ≤ hit.1

@[simp] theorem get?_clear (mem : MemTable dim) (x : ℤ) : mem.clear.entries.get? x = none := rfl

theorem get?_insert (mem : MemTable dim) (rows : List (Row dim)) (lsn : ℕ) (x : ℤ) :
    (mem.insert rows lsn).entries.get? x =
      ((Dict.lastWrite rows x).map fun v => .live v lsn).or (mem.entries.get? x) := by
  rw [insert, Dict.get?_setAll, Dict.lastWrite_map (fun v => MemTableEntry.live v lsn)]

theorem get?_delete (mem : MemTable dim) (ids : List ℤ) (lsn : ℕ) (x : ℤ) :
    (mem.delete ids lsn).entries.get? x =
      if x ∈ ids then some (.tombstone lsn) else mem.entries.get? x := by
  rw [delete, Dict.get?_setAll, Dict.lastWrite_const]
  split <;> rfl

theorem mem_toArrays {mem : MemTable dim} {snapshot : Option ℕ} {x : ℤ} {v : Vec dim} :
    (x, v) ∈ mem.toArrays snapshot ↔
      ∃ e, mem.entries.get? x = some e ∧ seenAt snapshot e.lsn = true ∧ e.vector = some v := by
  simp only [toArrays, List.mem_filterMap, Prod.exists]
  constructor
  · rintro ⟨y, e, member, row⟩
    split at row
    · next seen =>
        rcases Option.map_eq_some_iff.mp row with ⟨w, vector, same⟩
        cases same
        exact ⟨e, Dict.mem_entries_iff.mp member, seen, vector⟩
    · cases row
  · rintro ⟨e, found, seen, vector⟩
    exact ⟨x, e, Dict.mem_entries_iff.mpr found, by rw [if_pos seen, vector]; rfl⟩

theorem mem_visibleDeletedIds {mem : MemTable dim} {snapshot : Option ℕ} {x : ℤ} :
    x ∈ mem.visibleDeletedIds snapshot ↔
      ∃ e, mem.entries.get? x = some e ∧ seenAt snapshot e.lsn = true ∧ e.vector = none := by
  simp only [visibleDeletedIds, List.mem_toFinset, List.mem_map, List.mem_filter, Prod.exists,
    exists_and_right, exists_eq_right, Bool.and_eq_true, MemTableEntry.deleted_iff,
    Dict.mem_entries_iff]

/-- The entry of `x`, if the snapshot sees it. -/
def entryAt (mem : MemTable dim) (snapshot : ℕ) (x : ℤ) : Option (MemTableEntry dim) :=
  (mem.entries.get? x).filter fun e => e.lsn ≤ snapshot

theorem entryAt_eq_some_iff {mem : MemTable dim} {snapshot : ℕ} {x : ℤ} {e : MemTableEntry dim} :
    mem.entryAt snapshot x = some e ↔ mem.entries.get? x = some e ∧ e.lsn ≤ snapshot := by
  rw [entryAt, Option.filter_eq_some_iff, decide_eq_true_eq]

theorem mem_toArrays_some {mem : MemTable dim} {snapshot : ℕ} {x : ℤ} {v : Vec dim} :
    (x, v) ∈ mem.toArrays (some snapshot) ↔
      ∃ e, mem.entryAt snapshot x = some e ∧ e.vector = some v := by
  simp only [mem_toArrays, entryAt_eq_some_iff, seenAt, decide_eq_true_eq, and_assoc]

theorem mem_visibleDeletedIds_some {mem : MemTable dim} {snapshot : ℕ} {x : ℤ} :
    x ∈ mem.visibleDeletedIds (some snapshot) ↔
      ∃ e, mem.entryAt snapshot x = some e ∧ e.vector = none := by
  simp only [mem_visibleDeletedIds, entryAt_eq_some_iff, seenAt, decide_eq_true_eq, and_assoc]

/-- A read lists an id at most once. -/
theorem nodup_toArrays (mem : MemTable dim) (snapshot : Option ℕ) :
    (batchIds (mem.toArrays snapshot)).Nodup := by
  have ids : batchIds (mem.toArrays snapshot) =
      (mem.entries.entries.filter fun e => seenAt snapshot e.2.lsn && e.2.vector.isSome).map
        Prod.fst := by
    rw [batchIds, toArrays, List.map_filterMap, ← List.filterMap_eq_map, List.filterMap_filter]
    refine List.filterMap_congr fun e _ => ?_
    cases seenAt snapshot e.2.lsn <;> cases e.2.vector <;> rfl
  rw [ids]
  exact mem.entries.nodup.sublist (List.filter_sublist.map _)

theorem mem_batchIds_toArrays {mem : MemTable dim} {x : ℤ} :
    x ∈ batchIds (mem.toArrays none) ↔
      ∃ e, mem.entries.get? x = some e ∧ e.vector ≠ none := by
  simp only [batchIds, List.mem_map, Prod.exists, exists_and_right, exists_eq_right, mem_toArrays,
    seenAt, true_and, ne_eq, Option.ne_none_iff_exists']
  constructor
  · rintro ⟨v, e, entry, vector⟩
    exact ⟨e, entry, v, vector⟩
  · rintro ⟨e, entry, v, vector⟩
    exact ⟨v, e, entry, vector⟩

theorem ntotal_eq (mem : MemTable dim) : mem.ntotal = (batchIds (mem.toArrays none)).length := by
  rw [batchIds, List.length_map, toArrays, List.length_filterMap_eq_countP, ntotal]
  refine List.countP_congr fun e _ => ?_
  rw [e.2.marker]
  cases e.2.vector <;> simp [seenAt]

/-- A memtable has no more rows than one in which all its live ids are live. -/
theorem ntotal_le_of_live {mem mem' : MemTable dim}
    (live : ∀ x e, mem'.entries.get? x = some e → e.vector ≠ none →
      ∃ e', mem.entries.get? x = some e' ∧ e'.vector ≠ none) : mem'.ntotal ≤ mem.ntotal := by
  rw [ntotal_eq, ntotal_eq]
  refine ((mem'.nodup_toArrays none).subperm fun x listed => ?_).length_le
  rcases mem_batchIds_toArrays.mp listed with ⟨e, entry, vector⟩
  exact mem_batchIds_toArrays.mpr (live x e entry vector)

theorem ntotal_delete_le (mem : MemTable dim) (ids : List ℤ) (lsn : ℕ) :
    (mem.delete ids lsn).ntotal ≤ mem.ntotal := by
  refine ntotal_le_of_live fun x e entry vector => ?_
  rw [get?_delete] at entry
  split at entry
  · cases entry
    exact absurd rfl vector
  · exact ⟨e, entry, vector⟩

theorem shouldFlush_eq_false_iff {mem : MemTable dim} :
    mem.shouldFlush = false ↔ mem.ntotal < mem.flushThreshold := by
  rw [shouldFlush, decide_eq_false_iff_not, not_le]

theorem lsn_le_maxLsn {mem : MemTable dim} {x : ℤ} {e : MemTableEntry dim}
    (found : mem.entries.get? x = some e) : e.lsn ≤ mem.maxLsn := by
  have listed : e.lsn ∈ mem.entries.values.map MemTableEntry.lsn :=
    List.mem_map_of_mem (Dict.mem_values_iff.mpr ⟨x, found⟩)
  rw [maxLsn]
  cases greatest : (mem.entries.values.map MemTableEntry.lsn).max? with
  | none =>
      rw [List.max?_eq_none_iff] at greatest
      rw [greatest] at listed
      cases listed
  | some n => exact (List.max?_eq_some_iff.mp greatest).2 _ listed

/-- The greatest LSN is the one of some entry. -/
theorem exists_of_maxLsn {mem : MemTable dim} (positive : 0 < mem.maxLsn) :
    ∃ x e, mem.entries.get? x = some e ∧ e.lsn = mem.maxLsn := by
  rw [maxLsn] at positive ⊢
  cases greatest : (mem.entries.values.map MemTableEntry.lsn).max? with
  | none =>
      rw [greatest] at positive
      exact absurd positive (Nat.lt_irrefl 0)
  | some n =>
      obtain ⟨e, listed, lsn⟩ := List.mem_map.mp (List.max?_eq_some_iff.mp greatest).1
      rcases Dict.mem_values_iff.mp listed with ⟨x, found⟩
      exact ⟨x, e, found, lsn⟩

end MemTable

end VecScale
