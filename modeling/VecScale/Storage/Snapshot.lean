import VecScale.Index.Segment

/-!
# Snapshots

`SnapshotManager` counts the searches running at each LSN.  A snapshot is its
LSN: which segments it sees depends on nothing else.
-/

namespace VecScale

/-- `_active`, a `Counter`. -/
structure SnapshotManager where
  active : Dict ℕ ℕ
  deriving DecidableEq

namespace SnapshotManager

def init : SnapshotManager := ⟨∅⟩

def createSnapshot (m : SnapshotManager) (currentLsn : ℕ) : ℕ × SnapshotManager :=
  (currentLsn, ⟨m.active.set currentLsn ((m.active.get? currentLsn).getD 0 + 1)⟩)

def releaseSnapshot (m : SnapshotManager) (snapshotId : ℕ) : SnapshotManager :=
  let count := (m.active.get? snapshotId).getD 0
  if count ≤ 1 then ⟨m.active.erase snapshotId⟩ else ⟨m.active.set snapshotId (count - 1)⟩

def visibleSegments {dim : ℕ} (snapshotId : ℕ) (segments : List (Segment dim)) :
    List (Segment dim) :=
  segments.filter fun seg => seg.snapshotId ≤ snapshotId

def activeCount (m : SnapshotManager) : ℕ := m.active.values.sum

/-- Taking a snapshot and releasing it leaves every count as it was. -/
theorem get?_release_create (m : SnapshotManager) (positive : ∀ s, m.active.get? s ≠ some 0)
    (lsn s : ℕ) : (releaseSnapshot (createSnapshot m lsn).2 lsn).active.get? s =
      m.active.get? s := by
  have count : ((createSnapshot m lsn).2.active.get? lsn).getD 0 =
      (m.active.get? lsn).getD 0 + 1 := by
    simp [createSnapshot]
  simp only [releaseSnapshot, count, Nat.add_sub_cancel]
  cases found : m.active.get? lsn with
  | none =>
      rw [if_pos (by simp), Dict.get?_erase]
      split
      · next same => rw [← same, found]
      · next other => simp [createSnapshot, other]
  | some n =>
      have running : n ≠ 0 := fun zero => positive lsn (by rw [found, zero])
      have more : ¬ n + 1 ≤ 1 := by omega
      rw [Option.getD_some, if_neg more, Dict.get?_set]
      split
      · next same => rw [← same, found]
      · next other => simp [createSnapshot, other]

/-- Where no search runs, not even the order of the others changes. -/
theorem release_create {m : SnapshotManager} {lsn : ℕ} (nobody : lsn ∉ m.active.keys) :
    releaseSnapshot (createSnapshot m lsn).2 lsn = m := by
  have count : ((createSnapshot m lsn).2.active.get? lsn).getD 0 = 1 := by
    simp [createSnapshot, Dict.get?_eq_none_iff.mpr nobody]
  rw [releaseSnapshot, count, if_pos (Nat.le_refl 1), createSnapshot,
    Dict.erase_set_of_absent nobody]

end SnapshotManager

end VecScale
