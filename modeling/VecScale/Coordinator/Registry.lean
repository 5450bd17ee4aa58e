import VecScale.Index.Segment

/-!
# The coordinator's segment registry

The coordinator keeps, under one key for each segment, the metadata that writers
register, and the greatest snapshot ever registered.  An entry is filed under the
segment id it carries.

* `mem_listSegments_registerSegment`, `mem_listSegments_deleteSegment`: what a
  reader is told after a message.
-/

namespace VecScale

structure Registry where
  segments : Dict String SegmentMeta
  snapshotCurrent : ℕ
  filed : ∀ name segMeta, segments.get? name = some segMeta → segMeta.segmentId = name
  deriving DecidableEq

namespace Registry

def empty : Registry := ⟨∅, 0, fun _ _ found => by cases found⟩

/-- `list_segments`; a prefix is read in the order of its keys. -/
def listSegments (registry : Registry) : List SegmentMeta :=
  (registry.segments.entries.insertionSort fun a b => a.1 ≤ b.1).map Prod.snd

/-- `register_segment`. -/
def registerSegment (registry : Registry) (segMeta : SegmentMeta) : Registry where
  segments := registry.segments.set segMeta.segmentId segMeta
  snapshotCurrent := max registry.snapshotCurrent segMeta.snapshotId
  filed := by
    intro name found here
    rw [Dict.get?_set] at here
    split at here
    · next same =>
        cases here
        exact same
    · exact registry.filed name found here

/-- `delete_segment`. -/
def deleteSegment (registry : Registry) (segmentId : String) : Registry where
  segments := registry.segments.erase segmentId
  snapshotCurrent := registry.snapshotCurrent
  filed := by
    intro name found here
    rw [Dict.get?_erase] at here
    split at here
    · cases here
    · exact registry.filed name found here

/-- `_current_snapshot_id`. -/
def currentSnapshotId (registry : Registry) : ℕ :=
  if 0 < registry.snapshotCurrent then registry.snapshotCurrent
  else (registry.listSegments.map SegmentMeta.snapshotId).max?.getD 0

theorem mem_listSegments {registry : Registry} {segMeta : SegmentMeta} :
    segMeta ∈ registry.listSegments ↔ registry.segments.get? segMeta.segmentId = some segMeta := by
  simp only [listSegments, List.mem_map, List.mem_insertionSort]
  constructor
  · intro listed
    rcases listed with ⟨⟨name, found⟩, member, rfl⟩
    have here := Dict.mem_entries_iff.mp member
    rwa [registry.filed name found here]
  · intro here
    exact ⟨(segMeta.segmentId, segMeta), Dict.mem_entries_iff.mpr here, rfl⟩

/-- Segments are listed in the order of their names. -/
theorem pairwise_listSegments (registry : Registry) :
    registry.listSegments.Pairwise fun a b => a.segmentId < b.segmentId := by
  have total : Std.Total fun a b : String × SegmentMeta => a.1 ≤ b.1 := ⟨fun a b => le_total a.1 b.1⟩
  have trans : IsTrans (String × SegmentMeta) fun a b => a.1 ≤ b.1 := ⟨fun _ _ _ => le_trans⟩
  let entries := registry.segments.entries
  have sorted := List.pairwise_insertionSort (fun a b : String × SegmentMeta => a.1 ≤ b.1) entries
  have perm := List.perm_insertionSort (fun a b : String × SegmentMeta => a.1 ≤ b.1) entries
  have apart : (entries.insertionSort fun a b => a.1 ≤ b.1).Pairwise fun a b => a.1 ≠ b.1 := by
    rw [← List.pairwise_map]
    exact (perm.map Prod.fst).nodup_iff.mpr registry.segments.nodup
  rw [listSegments, List.pairwise_map]
  refine (sorted.and apart).imp_of_mem fun {a b} inA inB both => ?_
  have name : ∀ entry ∈ entries.insertionSort fun a b => a.1 ≤ b.1, entry.2.segmentId = entry.1 :=
    fun entry inside => registry.filed _ _ (Dict.mem_entries_iff.mp (perm.mem_iff.mp inside))
  rw [name a inA, name b inB]
  exact lt_of_le_of_ne both.1 both.2

/-- What is listed is listed in one order. -/
theorem eq_listSegments {registry : Registry} {found : List SegmentMeta}
    (sorted : found.Pairwise fun a b => a.segmentId < b.segmentId)
    (members : ∀ segMeta, segMeta ∈ found ↔ segMeta ∈ registry.listSegments) :
    found = registry.listSegments := by
  have irrefl : Std.Irrefl fun a b : SegmentMeta => a.segmentId < b.segmentId :=
    ⟨fun a => lt_irrefl a.segmentId⟩
  have antisymm : Std.Antisymm fun a b : SegmentMeta => a.segmentId < b.segmentId :=
    ⟨fun a b below above => absurd above (lt_asymm below)⟩
  exact sorted.eq_of_mem_iff registry.pairwise_listSegments members

/-- A name is listed once. -/
theorem eq_of_segmentId {registry : Registry} {a b : SegmentMeta}
    (left : a ∈ registry.listSegments) (right : b ∈ registry.listSegments)
    (same : a.segmentId = b.segmentId) : a = b := by
  rw [mem_listSegments] at left right
  rw [same, right, Option.some.injEq] at left
  exact left.symm

theorem mem_listSegments_registerSegment {registry : Registry} {segMeta listed : SegmentMeta} :
    listed ∈ (registry.registerSegment segMeta).listSegments ↔
      if segMeta.segmentId = listed.segmentId then listed = segMeta
      else listed ∈ registry.listSegments := by
  rw [mem_listSegments, mem_listSegments, registerSegment, Dict.get?_set]
  split
  · rw [Option.some.injEq, eq_comm]
  · rfl

theorem mem_listSegments_deleteSegment {registry : Registry} {segmentId : String}
    {listed : SegmentMeta} : listed ∈ (registry.deleteSegment segmentId).listSegments ↔
      listed.segmentId ≠ segmentId ∧ listed ∈ registry.listSegments := by
  rw [mem_listSegments, mem_listSegments, deleteSegment, Dict.get?_erase]
  split
  · next same => simp [same]
  · next other => simp [Ne.symm other]

end Registry

end VecScale
