import VecScale.Storage.Visible

/-!
# What a snapshot sees

Every piece of a call as an update of `lookupAt s`, for a snapshot `s` that was
taken before the call.  The memtable keeps one version of an id, a segment has one
age for all its rows and a tombstone has none, so each piece can disturb an old
snapshot in its own way.

* `lookupAt_applyInsert`, `lookupAt_applyDelete`, `lookupAt_captureDeletes`,
  `lookupAt_sealMemtable`: the view after the piece;
* `Merged.lookupAt_eq_iff`: when a merge keeps the view.
-/

namespace VecScale

variable {dim : ℕ} {env : Env} {n n' : Node dim} {s : ℕ}

/-- The newest row of `x` in the segments at or below `s`. -/
def LSMEngine.segmentRowAt (engine : LSMEngine dim) (s : ℕ) (x : ℤ) : Option (Vec dim) :=
  newestRow (SnapshotManager.visibleSegments s engine.segments) x

theorem LSMEngine.lookupAt_eq (engine : LSMEngine dim) (s : ℕ) (x : ℤ) :
    engine.lookupAt s x = if x ∈ engine.tombstones then none
      else match engine.memtable.entryAt s x with
        | some e => e.vector
        | none => engine.segmentRowAt s x := rfl

/-- An entry above the snapshot is not seen. -/
theorem MemTable.entryAt_eq_none {mem : MemTable dim} {x : ℤ} {e : MemTableEntry dim}
    (entry : mem.entries.get? x = some e) (later : s < e.lsn) : mem.entryAt s x = none := by
  rw [entryAt, entry, Option.filter_some_neg]
  simpa using later

theorem visibleSegments_append (front back : List (Segment dim)) :
    SnapshotManager.visibleSegments s (front ++ back) =
      SnapshotManager.visibleSegments s front ++ SnapshotManager.visibleSegments s back :=
  List.filter_append ..

/-- Segments at or below the snapshot are all visible. -/
theorem visibleSegments_of_le {segments : List (Segment dim)}
    (old : ∀ seg ∈ segments, seg.snapshotId ≤ s) :
    SnapshotManager.visibleSegments s segments = segments :=
  List.filter_eq_self.mpr fun seg member => decide_eq_true (old seg member)

/-- Segments above the snapshot are all invisible. -/
theorem visibleSegments_of_lt {segments : List (Segment dim)}
    (young : ∀ seg ∈ segments, s < seg.snapshotId) :
    SnapshotManager.visibleSegments s segments = [] := by
  apply List.filter_eq_nil_iff.mpr
  intro seg member
  simpa using young seg member

/-! ## Writes -/

theorem lookupAt_applyInsert (n : Node dim) (wal : WAL) {lsn : ℕ} (later : s < lsn)
    (rows : List (Row dim)) (x : ℤ) :
    (LSMEngine.applyInsert n wal lsn rows).engine.lookupAt s x =
      if x ∈ batchIds rows then n.engine.segmentRowAt s x else n.engine.lookupAt s x := by
  rw [LSMEngine.applyInsert_engine]
  simp only [LSMEngine.lookupAt_eq, Finset.mem_sdiff, List.mem_toFinset]
  by_cases listed : x ∈ batchIds rows
  · obtain ⟨v, written⟩ := Option.ne_none_iff_exists'.mp fun none =>
      Dict.lastWrite_eq_none_iff.mp none listed
    have entry : (n.engine.memtable.insert rows lsn).entries.get? x = some (.live v lsn) := by
      rw [MemTable.get?_insert, written]
      rfl
    rw [MemTable.entryAt_eq_none entry later]
    simp [listed, LSMEngine.segmentRowAt]
  · have unwritten : Dict.lastWrite rows x = none := Dict.lastWrite_eq_none_iff.mpr listed
    have entry : (n.engine.memtable.insert rows lsn).entryAt s x = n.engine.memtable.entryAt s x := by
      rw [MemTable.entryAt, MemTable.get?_insert, unwritten]
      rfl
    simp [listed, entry, LSMEngine.segmentRowAt]

theorem lookupAt_applyDelete (n : Node dim) (wal : WAL) (lsn : ℕ) (ids : List ℤ) (x : ℤ) :
    (LSMEngine.applyDelete n wal lsn ids).engine.lookupAt s x =
      if x ∈ ids then none else n.engine.lookupAt s x := by
  simp only [LSMEngine.applyDelete, LSMEngine.persistTombstones, LSMEngine.lookupAt_eq,
    MemTable.entryAt, MemTable.get?_delete, Finset.mem_union, List.mem_toFinset]
  by_cases listed : x ∈ ids <;> simp [listed, LSMEngine.segmentRowAt]

/-! ## Flush -/

theorem lookupAt_captureDeletes (n : Node dim) (x : ℤ) :
    (LSMEngine.captureDeletes n).engine.lookupAt s x =
      if x ∈ n.engine.memtable.visibleDeletedIds none then none else n.engine.lookupAt s x := by
  rw [LSMEngine.captureDeletes_engine]
  simp only [LSMEngine.lookupAt_eq, Finset.mem_union]
  by_cases marked : x ∈ n.engine.memtable.visibleDeletedIds none <;>
    simp [marked, LSMEngine.segmentRowAt]

theorem lookupAt_clearMemtable (covered : ∀ x e, n.engine.memtable.entries.get? x = some e →
    x ∈ n.engine.tombstones) (x : ℤ) :
    (LSMEngine.clearMemtable n).engine.lookupAt s x = n.engine.lookupAt s x := by
  change (if x ∈ n.engine.tombstones then none else n.engine.segmentRowAt s x) = _
  rw [LSMEngine.lookupAt_eq]
  cases entry : n.engine.memtable.entryAt s x with
  | none => rfl
  | some e =>
      have tombstoned := covered x e (MemTable.entryAt_eq_some_iff.mp entry).1
      rw [if_pos tombstoned, if_pos tombstoned]

/-- The rows of a memtable, all of one age as a segment. -/
theorem lookupAt_sealMemtable (covered : ∀ x e, n.engine.memtable.entries.get? x = some e →
    e.vector = none → x ∈ n.engine.tombstones)
    (segments : (LSMEngine.sealMemtable env n).2.engine.segments =
      n.engine.segments ++ [(LSMEngine.sealMemtable env n).1]) (x : ℤ) :
    (LSMEngine.sealMemtable env n).2.engine.lookupAt s x =
      if n.engine.memtable.maxLsn ≤ s then n.engine.lookupAt s x
      else if x ∈ n.engine.tombstones then none else n.engine.segmentRowAt s x := by
  have age : (LSMEngine.sealMemtable env n).1.snapshotId = n.engine.memtable.maxLsn := rfl
  have after : (LSMEngine.sealMemtable env n).2.engine.lookupAt s x =
      if x ∈ n.engine.tombstones then none
      else newestRow (SnapshotManager.visibleSegments s
        (LSMEngine.sealMemtable env n).2.engine.segments) x := rfl
  rw [after, segments, visibleSegments_append, newestRow_append]
  by_cases tombstoned : x ∈ n.engine.tombstones
  · simp [tombstoned, LSMEngine.lookupAt_eq]
  · simp only [tombstoned, if_false]
    by_cases old : n.engine.memtable.maxLsn ≤ s
    · have visible : SnapshotManager.visibleSegments s [(LSMEngine.sealMemtable env n).1] =
          [(LSMEngine.sealMemtable env n).1] := by
        apply visibleSegments_of_le
        intro seg member
        rwa [List.mem_singleton.mp member, age]
      rw [visible, newestRow_singleton, LSMEngine.sealMemtable_rows, lastWrite_toArrays, if_pos old,
        LSMEngine.lookupAt_eq, if_neg tombstoned]
      cases entry : n.engine.memtable.entries.get? x with
      | none =>
          have unseen : n.engine.memtable.entryAt s x = none := by
            rw [MemTable.entryAt, entry, Option.filter_none]
          rw [unseen]
          rfl
      | some e =>
          have seen : n.engine.memtable.entryAt s x = some e :=
            MemTable.entryAt_eq_some_iff.mpr ⟨entry, (MemTable.lsn_le_maxLsn entry).trans old⟩
          rw [seen]
          cases vector : e.vector with
          | none => exact absurd (covered x e entry vector) tombstoned
          | some v => simp [vector]
    · have invisible : SnapshotManager.visibleSegments s [(LSMEngine.sealMemtable env n).1] = [] := by
        apply visibleSegments_of_lt
        intro seg member
        rw [List.mem_singleton.mp member, age]
        exact not_le.mp old
      rw [invisible, newestRow_nil, Option.none_or, if_neg old]
      rfl

/-! ## Merge -/

/-- When a merge takes all it takes from below the snapshot, and when not. -/
def LSMEngine.MergeKeepsId (engine : LSMEngine dim) (s : ℕ) (x : ℤ) : Prop :=
  engine.memtable.entryAt s x = none →
    if maxSnapshot engine.toMerge ≤ s then
      x ∈ engine.tombstones → x ∈ segmentIds engine.toMerge →
        x ∉ segmentIds (SnapshotManager.visibleSegments s engine.remaining)
    else x ∉ engine.tombstones →
      x ∉ segmentIds (SnapshotManager.visibleSegments s engine.toMerge)

theorem Merged.lookupAt_eq_iff {front : List (Segment dim)} (merged : Merged env n n' front)
    (wf : SegmentsWf env n.engine n.storage)
    (buried : ∀ x ∈ n.engine.tombstones, ∀ e, n.engine.memtable.entries.get? x = some e →
      e.vector = none) (x : ℤ) :
    n'.engine.lookupAt s x = n.engine.lookupAt s x ↔ n.engine.MergeKeepsId s x := by
  have engine := merged.engine
  have marker : ∀ e, x ∈ n.engine.tombstones → n.engine.memtable.entryAt s x = some e →
      e.vector = none := fun e tombstoned entry =>
    buried x tombstoned e (MemTable.entryAt_eq_some_iff.mp entry).1
  have memtable : n'.engine.memtable = n.engine.memtable := by rw [engine]
  have tombstones : x ∈ n'.engine.tombstones ↔
      x ∈ n.engine.tombstones ∧ newestRow n.engine.toMerge x = none := by
    rw [engine, Finset.mem_sdiff, mem_cleanedTombstones]
    by_cases listed : newestRow n.engine.toMerge x = none <;> simp [listed]
  have before : n.engine.segmentRowAt s x =
      (newestRow (SnapshotManager.visibleSegments s n.engine.remaining) x).or
        (newestRow (SnapshotManager.visibleSegments s n.engine.toMerge) x) := by
    rw [LSMEngine.segmentRowAt, ← n.engine.toMerge_append_remaining, visibleSegments_append,
      newestRow_append]
  have after : n'.engine.segmentRowAt s x =
      (newestRow (SnapshotManager.visibleSegments s n.engine.remaining) x).or
        (newestRow (SnapshotManager.visibleSegments s front) x) := by
    rw [LSMEngine.segmentRowAt, engine]
    change newestRow (SnapshotManager.visibleSegments s (front ++ n.engine.remaining)) x = _
    rw [visibleSegments_append, newestRow_append]
  rw [LSMEngine.lookupAt_eq, LSMEngine.lookupAt_eq, memtable, LSMEngine.MergeKeepsId]
  by_cases old : maxSnapshot n.engine.toMerge ≤ s
  · have frontRow : newestRow (SnapshotManager.visibleSegments s front) x =
        if x ∈ n.engine.tombstones then none else newestRow n.engine.toMerge x := by
      rw [visibleSegments_of_le fun seg member => (merged.ages seg member).trans_le old]
      have written := congrArg (Dict.lastWrite · x) merged.rows
      exact written.trans (lastWrite_keptRows _ _ _)
    have taken : SnapshotManager.visibleSegments s n.engine.toMerge = n.engine.toMerge :=
      visibleSegments_of_le fun seg member => (le_maxSnapshot member).trans old
    rw [if_pos old, before, after, frontRow, taken, mem_segmentIds, mem_segmentIds]
    simp only [tombstones]
    by_cases tombstoned : x ∈ n.engine.tombstones
    · cases entry : n.engine.memtable.entryAt s x with
      | some e => simp [tombstoned, marker e tombstoned entry]
      | none =>
          by_cases listed : newestRow n.engine.toMerge x = none <;> simp [tombstoned, listed]
    · simp [tombstoned]
  · have young := not_le.mp old
    have frontRow : newestRow (SnapshotManager.visibleSegments s front) x = none := by
      rw [visibleSegments_of_lt fun seg member => (merged.ages seg member).symm ▸ young,
        newestRow_nil]
    have left : SnapshotManager.visibleSegments s n.engine.remaining = [] := by
      have source : n.engine.toMerge ≠ [] := by
        intro none
        rw [none] at young
        exact absurd young (Nat.not_lt_zero s)
      obtain ⟨youngest, member, age⟩ := exists_maxSnapshot source
      apply visibleSegments_of_lt
      intro seg behind
      rw [← age] at young
      exact young.trans (toMerge_older wf.sorted youngest member seg behind)
    rw [if_neg old, before, after, frontRow, left, newestRow_nil, mem_segmentIds]
    simp only [tombstones]
    by_cases tombstoned : x ∈ n.engine.tombstones
    · cases entry : n.engine.memtable.entryAt s x with
      | some e => simp [tombstoned, marker e tombstoned entry]
      | none => simp [tombstoned]
    · cases entry : n.engine.memtable.entryAt s x with
      | some e => simp [tombstoned]
      | none => simp [tombstoned, eq_comm]

end VecScale
