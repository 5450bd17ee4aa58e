import VecScale.Storage.Calls
import VecScale.Storage.Search

/-!
# What a search can see

`lookupAt engine s x` is the vector a search at snapshot `s` can return for `x`:
none for a tombstoned id, else what the memtable says, else the row of the newest
segment.  `mem_survivors_iff` identifies it with the rows that survive the
filters of a search, and `lookup` is its value at the current snapshot.

* `exposed_of_settled`: a default-snapshot search exposes one row for every id
  that `lookup` finds;
* `ntotal_of_layout`: `ntotal` counts the ids that `lookup` finds;
* `lookup_applyInsert`, `lookup_applyDelete`, `lookup_captureDeletes`,
  `lookup_clearMemtable`, `lookup_sealMemtable`, `lookup_merged`: every piece of
  a call as an update of `lookup`.
-/

namespace VecScale

variable {dim : ℕ}

namespace LSMEngine

/-- The vector a search at snapshot `s` can return for `x`. -/
def lookupAt (engine : LSMEngine dim) (s : ℕ) (x : ℤ) : Option (Vec dim) :=
  if x ∈ engine.tombstones then none
  else
    match engine.memtable.entryAt s x with
    | some e => e.vector
    | none => newestRow (SnapshotManager.visibleSegments s engine.segments) x

/-- The vector a default-snapshot search can return for `x`. -/
def lookup (engine : LSMEngine dim) (x : ℤ) : Option (Vec dim) :=
  if x ∈ engine.tombstones then none
  else
    match engine.memtable.entries.get? x with
    | some e => e.vector
    | none => newestRow engine.segments x

end LSMEngine

/-! ## The newest row, by age -/

/-- A segment holds a row, and none that lists its id is younger. -/
def ShownBy (segments : List (Segment dim)) (x : ℤ) (v : Vec dim) : Prop :=
  ∃ seg ∈ segments, (x, v) ∈ seg.rows ∧
    ∀ seg' ∈ segments, x ∈ batchIds seg'.rows → seg'.snapshotId ≤ seg.snapshotId

/-- Segments of one age hold the same vectors. -/
def Agree (segments : List (Segment dim)) : Prop :=
  ∀ a ∈ segments, ∀ b ∈ segments, a.snapshotId = b.snapshotId →
    ∀ x v w, (x, v) ∈ a.rows → (x, w) ∈ b.rows → v = w

theorem newestRow_eq_some_iff_shownBy {segments : List (Segment dim)}
    (ordered : segments.Pairwise fun a b => a.snapshotId ≤ b.snapshotId) (agree : Agree segments)
    (nodup : ∀ seg ∈ segments, (batchIds seg.rows).Nodup) {x : ℤ} {v : Vec dim} :
    newestRow segments x = some v ↔ ShownBy segments x v := by
  induction segments using List.reverseRecOn with
  | nil => simp [ShownBy]
  | append_singleton segments last ih =>
      rcases List.pairwise_append.mp ordered with ⟨front, -, older⟩
      have notYounger : ∀ seg ∈ segments ++ [last], seg.snapshotId ≤ last.snapshotId := by
        intro seg member
        rcases List.mem_append.mp member with before | same
        · exact older seg before last (List.mem_singleton_self _)
        · rw [List.mem_singleton.mp same]
      have lastMember : last ∈ segments ++ [last] := by simp
      have frontIff := ih front
        (fun a left b right => agree a (List.mem_append_left _ left) b (List.mem_append_left _ right))
        fun seg member => nodup seg (List.mem_append_left _ member)
      rw [newestRow_append, newestRow_singleton]
      cases written : Dict.lastWrite last.rows x with
      | some w =>
          have row := (Dict.lastWrite_eq_some_iff (nodup last lastMember)).mp written
          rw [Option.some_or, Option.some.injEq]
          constructor
          · rintro rfl
            exact ⟨last, lastMember, row, fun seg' member _ => notYounger seg' member⟩
          · rintro ⟨seg, member, here, newest⟩
            have notOlder := newest last lastMember (List.mem_map_of_mem row)
            exact agree last lastMember seg member (notOlder.antisymm (notYounger seg member)) x w v
              row here
      | none =>
          have absent : x ∉ batchIds last.rows := Dict.lastWrite_eq_none_iff.mp written
          rw [Option.none_or, frontIff]
          constructor
          · rintro ⟨seg, member, here, newest⟩
            refine ⟨seg, List.mem_append_left _ member, here, fun seg' member' listed => ?_⟩
            rcases List.mem_append.mp member' with before | same
            · exact newest seg' before listed
            · rw [List.mem_singleton.mp same] at listed
              exact absurd listed absent
          · rintro ⟨seg, member, here, newest⟩
            rcases List.mem_append.mp member with before | same
            · exact ⟨seg, before, here, fun seg' member' =>
                newest seg' (List.mem_append_left _ member')⟩
            · rw [List.mem_singleton.mp same] at here
              exact absurd (List.mem_map_of_mem here) absent

/-- Segments in order of age have ages of their own. -/
theorem agree_of_sorted {segments : List (Segment dim)}
    (sorted : segments.Pairwise fun a b => a.snapshotId < b.snapshotId)
    (nodup : ∀ seg ∈ segments, (batchIds seg.rows).Nodup) : Agree segments := by
  intro a left b right same x v w inA inB
  rw [← eq_of_snapshotId sorted left right same] at inB
  exact (Prod.mk.inj (List.inj_on_of_nodup_map (nodup a left) inA inB rfl)).2

theorem newestRow_eq_some_iff {segments : List (Segment dim)}
    (sorted : segments.Pairwise fun a b => a.snapshotId < b.snapshotId)
    (nodup : ∀ seg ∈ segments, (batchIds seg.rows).Nodup) {x : ℤ} {v : Vec dim} :
    newestRow segments x = some v ↔ ∃ seg ∈ segments, (x, v) ∈ seg.rows ∧
      ∀ seg' ∈ segments, x ∈ batchIds seg'.rows → seg'.snapshotId ≤ seg.snapshotId :=
  newestRow_eq_some_iff_shownBy (sorted.imp Nat.le_of_lt) (agree_of_sorted sorted nodup) nodup

/-! ## The ages a search notes -/

theorem get?_noteAge (latest : Dict ℤ ℕ) (ids : List ℤ) (s : ℕ) (x : ℤ) :
    (noteAge latest ids s).get? x =
      if x ∈ ids then some (max ((latest.get? x).getD 0) s) else latest.get? x := by
  unfold noteAge
  induction ids generalizing latest with
  | nil => rfl
  | cons y ids ih =>
      rw [List.foldl_cons, ih, Dict.get?_set]
      by_cases same : y = x
      · subst same
        by_cases later : y ∈ ids <;> simp [later]
      · simp [same, Ne.symm same]

/-- `latest` puts an id above `s` iff a segment above `s` lists it. -/
def Ages (segments : List (Segment dim)) (latest : Dict ℤ ℕ) : Prop :=
  ∀ x s, (∃ m, latest.get? x = some m ∧ s < m) ↔
    ∃ seg ∈ segments, x ∈ batchIds seg.rows ∧ s < seg.snapshotId

theorem Ages.concat {segments : List (Segment dim)} {latest : Dict ℤ ℕ}
    (ages : Ages segments latest) (seg : Segment dim) :
    Ages (segments ++ [seg]) (noteAge latest (batchIds seg.rows) seg.snapshotId) := by
  intro x s
  have before := ages x s
  have split : (∃ seg' ∈ segments ++ [seg], x ∈ batchIds seg'.rows ∧ s < seg'.snapshotId) ↔
      (∃ m, latest.get? x = some m ∧ s < m) ∨ (x ∈ batchIds seg.rows ∧ s < seg.snapshotId) := by
    rw [before]
    simp [or_and_right, exists_or]
  rw [split, get?_noteAge]
  by_cases listed : x ∈ batchIds seg.rows
  · cases found : latest.get? x with
    | none => simp [listed]
    | some m => simp [listed]
  · simp [listed]

/-- The ids of the segment can be read. -/
def Segment.Readable (st : SharedStorage dim) (seg : Segment dim) : Prop :=
  ∃ remembering, seg.loadIds st = .ok (batchIds seg.rows, remembering)

theorem latestSegmentSnapshotById_of_readable {st : SharedStorage dim}
    {segments : List (Segment dim)} (readable : ∀ seg ∈ segments, seg.Readable st) :
    ∃ latest, LSMEngine.latestSegmentSnapshotById st segments = .ok latest ∧
      Ages segments latest := by
  induction segments using List.reverseRecOn with
  | nil => exact ⟨∅, rfl, fun x s => by simp⟩
  | append_singleton segments last ih =>
      obtain ⟨latest, ran, ages⟩ := ih fun seg member => readable seg (List.mem_append_left _ member)
      obtain ⟨remembering, loaded⟩ := readable last (by simp)
      refine ⟨_, ?_, ages.concat last⟩
      rw [LSMEngine.latestSegmentSnapshotById] at ran ⊢
      rw [List.foldlM_append, ran]
      simp only [List.foldlM_cons, List.foldlM_nil, loaded, bind, Except.bind, pure, Except.pure]

/-- A search that knows the ages has read the ids of every segment. -/
theorem ids_of_latestSegmentSnapshotById {st : SharedStorage dim} {segments : List (Segment dim)}
    {latest : Dict ℤ ℕ} (ran : LSMEngine.latestSegmentSnapshotById st segments = .ok latest)
    {seg : Segment dim} (member : seg ∈ segments) : ∃ loaded, seg.loadIds st = .ok loaded := by
  unfold LSMEngine.latestSegmentSnapshotById at ran
  generalize (∅ : Dict ℤ ℕ) = noted at ran
  induction segments generalizing noted with
  | nil => cases member
  | cons head segments ih =>
      rw [List.foldlM_cons] at ran
      obtain ⟨aged, here, later⟩ := ok_of_bind ran
      obtain ⟨loaded, read, -⟩ := ok_of_bind here
      rcases List.mem_cons.mp member with rfl | further
      · exact ⟨loaded, read⟩
      · exact ih further aged later

/-! ## The view of a search -/

section View

variable {env : Env} {n : Node dim}

theorem mem_visibleSegments {s : ℕ} {segments : List (Segment dim)} {seg : Segment dim} :
    seg ∈ SnapshotManager.visibleSegments s segments ↔ seg ∈ segments ∧ seg.snapshotId ≤ s := by
  rw [SnapshotManager.visibleSegments, List.mem_filter, decide_eq_true_eq]

/-- The view of a search at `s`. -/
structure PlanAt (n : Node dim) (s : ℕ) (plan : SearchPlan dim) : Prop where
  segments : plan.segments = SnapshotManager.visibleSegments s n.engine.segments
  memRows : plan.memRows = n.engine.memtable.toArrays (some s)
  deletedIds : plan.deletedIds =
    n.engine.memtable.visibleDeletedIds (some s) ∪ n.engine.tombstones
  ages : Ages plan.segments plan.latest

theorem searchPlan_of_readable {s : ℕ} (readable : ∀ seg ∈
    SnapshotManager.visibleSegments s n.engine.segments, seg.Readable n.storage) :
    ∃ plan, LSMEngine.searchPlan n s = .ok plan ∧ PlanAt n s plan := by
  obtain ⟨latest, ran, ages⟩ := latestSegmentSnapshotById_of_readable readable
  let plan : SearchPlan dim := ⟨SnapshotManager.visibleSegments s n.engine.segments,
    n.engine.memtable.toArrays (some s),
    n.engine.memtable.visibleDeletedIds (some s) ∪ n.engine.tombstones, latest⟩
  refine ⟨plan, ?_, ⟨rfl, rfl, rfl, ages⟩⟩
  simp only [LSMEngine.searchPlan, ran, bind, Except.bind, plan]

theorem searchPlan_of_wf (wf : SegmentsWf env n.engine n.storage) (s : ℕ) :
    ∃ plan, LSMEngine.searchPlan n s = .ok plan ∧ PlanAt n s plan :=
  searchPlan_of_readable fun seg member =>
    ⟨_, Segment.loadIds_of_stored (wf.stored seg (mem_visibleSegments.mp member).1)⟩

variable {s : ℕ} {plan : SearchPlan dim}

/-- A row of a segment is hidden by a delete, by the memtable, or by a newer segment. -/
theorem PlanAt.mem_hiddenIds (at_s : PlanAt n s plan) {seg : Segment dim} {x : ℤ} :
    x ∈ plan.hiddenIds seg ↔ x ∈ plan.deletedIds ∨ x ∈ batchIds plan.memRows ∨
      ∃ seg' ∈ plan.segments, x ∈ batchIds seg'.rows ∧ seg.snapshotId < seg'.snapshotId := by
  have newer : x ∈ ((plan.latest.entries.filter fun e => seg.snapshotId < e.2).map
      Prod.fst).toFinset ↔ ∃ m, plan.latest.get? x = some m ∧ seg.snapshotId < m := by
    simp [Dict.mem_entries_iff]
  rw [SearchPlan.hiddenIds, Finset.mem_union, Finset.mem_union, newer, at_s.ages, List.mem_toFinset,
    or_assoc]

theorem PlanAt.sorted (wf : SegmentsWf env n.engine n.storage) (at_s : PlanAt n s plan) :
    plan.segments.Pairwise fun a b => a.snapshotId < b.snapshotId := by
  rw [at_s.segments]
  exact wf.sorted.filter _

theorem PlanAt.nodup (wf : SegmentsWf env n.engine n.storage) (at_s : PlanAt n s plan) :
    ∀ seg ∈ plan.segments, (batchIds seg.rows).Nodup := by
  rw [at_s.segments]
  exact fun seg member => wf.nodup seg (mem_visibleSegments.mp member).1

/-- **The view, id by id.**  The rows that survive the filters of a search are
those that `lookupAt` finds. -/
theorem PlanAt.mem_survivors_iff (wf : SegmentsWf env n.engine n.storage) (at_s : PlanAt n s plan)
    {x : ℤ} {v : Vec dim} : (x, v) ∈ plan.survivors ↔ n.engine.lookupAt s x = some v := by
  have unfolded : (x, v) ∈ plan.survivors ↔
      (∃ seg ∈ plan.segments, (x, v) ∈ seg.rows ∧ x ∉ plan.hiddenIds seg) ∨
        ((x, v) ∈ plan.memRows ∧ x ∉ plan.deletedIds) := by
    simp only [SearchPlan.survivors, List.mem_append, List.mem_flatMap, List.mem_filter,
      decide_eq_true_eq]
  have memIds : x ∈ batchIds plan.memRows ↔ ∃ w, (x, w) ∈ plan.memRows := by
    simp [batchIds]
  have memRow : ∀ w, (x, w) ∈ plan.memRows ↔
      ∃ e, n.engine.memtable.entryAt s x = some e ∧ e.vector = some w := fun w => by
    rw [at_s.memRows, MemTable.mem_toArrays_some]
  have deleted : x ∈ plan.deletedIds ↔
      (∃ e, n.engine.memtable.entryAt s x = some e ∧ e.vector = none) ∨
        x ∈ n.engine.tombstones := by
    rw [at_s.deletedIds, Finset.mem_union, MemTable.mem_visibleDeletedIds_some]
  rw [unfolded, LSMEngine.lookupAt, ← at_s.segments]
  simp only [at_s.mem_hiddenIds, memIds, memRow, deleted]
  by_cases tombstoned : x ∈ n.engine.tombstones
  · simp [tombstoned]
  · cases entry : n.engine.memtable.entryAt s x with
    | some e => cases vector : e.vector <;> simp [tombstoned, vector]
    | none =>
        have newest := newestRow_eq_some_iff (at_s.sorted wf) (at_s.nodup wf) (x := x) (v := v)
        simp only [tombstoned, if_false, newest]
        simp only [reduceCtorEq, false_and, exists_false, false_or, or_false, not_exists, not_and,
          not_lt]

/-- The filters let one row of an id through. -/
theorem PlanAt.nodup_survivors (wf : SegmentsWf env n.engine n.storage) (at_s : PlanAt n s plan) :
    (batchIds plan.survivors).Nodup := by
  have inPart : ∀ {seg : Segment dim} {x : ℤ},
      x ∈ batchIds (seg.rows.filter fun row => row.1 ∉ plan.hiddenIds seg) →
        x ∈ batchIds seg.rows ∧ x ∉ plan.hiddenIds seg := by
    intro seg x member
    rcases List.mem_map.mp member with ⟨row, kept, rfl⟩
    rw [List.mem_filter, decide_eq_true_eq] at kept
    exact ⟨List.mem_map_of_mem kept.1, kept.2⟩
  have columns : batchIds plan.survivors =
      (plan.segments.flatMap fun seg =>
        batchIds (seg.rows.filter fun row => row.1 ∉ plan.hiddenIds seg)) ++
      batchIds (plan.memRows.filter fun row => row.1 ∉ plan.deletedIds) := by
    rw [SearchPlan.survivors, batchIds, List.map_append, List.map_flatMap]
    rfl
  rw [columns, List.nodup_append, List.nodup_flatMap]
  refine ⟨⟨fun seg member => ?_, ?_⟩, ?_, ?_⟩
  · exact (at_s.nodup wf seg member).sublist (List.filter_sublist.map _)
  · refine List.Pairwise.imp_of_mem ?_ (at_s.sorted wf)
    intro a b left right younger x inA inB
    refine (inPart inA).2 (at_s.mem_hiddenIds.mpr (Or.inr (Or.inr ?_)))
    exact ⟨b, right, (inPart inB).1, younger⟩
  · have memNodup : (batchIds plan.memRows).Nodup := by
      rw [at_s.memRows]
      exact MemTable.nodup_toArrays _ _
    exact memNodup.sublist (List.filter_sublist.map _)
  · intro x inSegments y inMem same
    subst same
    rcases List.mem_flatMap.mp inSegments with ⟨seg, member, here⟩
    refine (inPart here).2 (at_s.mem_hiddenIds.mpr (Or.inr (Or.inl ?_)))
    exact (List.filter_sublist.map Prod.fst).subset inMem

end View

/-! ## The default snapshot -/

section Default

variable {env : Env} {n : Node dim} {old recent : List (WALRecord dim)}

/-- No memtable entry is above the current snapshot. -/
def LSMEngine.Settled (engine : LSMEngine dim) : Prop :=
  ∀ x e, engine.memtable.entries.get? x = some e → e.lsn ≤ engine.wal.lastLsn

theorem lookupAt_lastLsn (wf : SegmentsWf env n.engine n.storage) (settled : n.engine.Settled)
    (x : ℤ) : n.engine.lookupAt n.engine.wal.lastLsn x = n.engine.lookup x := by
  have entries : n.engine.memtable.entryAt n.engine.wal.lastLsn x =
      n.engine.memtable.entries.get? x := by
    cases entry : n.engine.memtable.entries.get? x with
    | none => rw [MemTable.entryAt, entry, Option.filter_none]
    | some e => exact MemTable.entryAt_eq_some_iff.mpr ⟨entry, settled x e entry⟩
  have segments : SnapshotManager.visibleSegments n.engine.wal.lastLsn n.engine.segments =
      n.engine.segments :=
    List.filter_eq_self.mpr fun seg member => decide_eq_true (wf.bounded seg member)
  rw [LSMEngine.lookupAt, LSMEngine.lookup, entries, segments]

/-- A default-snapshot search exposes one row for every id that `lookup` finds. -/
theorem exposed_of_settled (wf : SegmentsWf env n.engine n.storage)
    (settled : n.engine.Settled) :
    ∃ rows, LSMEngine.exposed n = .ok rows ∧ (batchIds rows).Nodup ∧
      ∀ x v, (x, v) ∈ rows ↔ n.engine.lookup x = some v := by
  obtain ⟨plan, ran, at_s⟩ := searchPlan_of_wf wf n.engine.wal.lastLsn
  refine ⟨plan.survivors, ?_, at_s.nodup_survivors wf, fun x v => ?_⟩
  · simp only [LSMEngine.exposed, ran, bind, Except.bind]
  · rw [at_s.mem_survivors_iff wf, lookupAt_lastLsn wf settled]

theorem Layout.settled (layout : Layout env n old recent) : n.engine.Settled := by
  intro x e entry
  rw [layout.memtable] at entry
  obtain ⟨record, member, written⟩ := exists_of_replayEntry entry
  rw [lsn_of_recordEntry written]
  exact layout.wal.bounded record (List.mem_append_right _ member)

theorem storedIds_of_stored {st : SharedStorage dim} {segments : List (Segment dim)}
    (stored : ∀ seg ∈ segments, seg.Stored st) :
    ∃ ids, LSMEngine.storedIds st segments = .ok ids ∧
      ∀ x, x ∈ ids ↔ newestRow segments x ≠ none := by
  induction segments using List.reverseRecOn with
  | nil => exact ⟨∅, rfl, fun x => by simp⟩
  | append_singleton segments last ih =>
      obtain ⟨ids, ran, iff⟩ := ih fun seg member => stored seg (List.mem_append_left _ member)
      have files := Segment.files_of_stored (stored last (by simp))
      refine ⟨ids ∪ (batchIds last.rows).toFinset, ?_, fun x => ?_⟩
      · rw [LSMEngine.storedIds] at ran ⊢
        rw [List.foldlM_append, ran]
        simp only [List.foldlM_cons, List.foldlM_nil, files, Segment.files, bind, Except.bind, pure,
          Except.pure]
      · have here : x ∈ batchIds last.rows ↔ newestRow [last] x ≠ none := by
          rw [newestRow_singleton, ne_eq, Dict.lastWrite_eq_none_iff, not_not]
          rfl
        rw [Finset.mem_union, iff, List.mem_toFinset, here, newestRow_append]
        cases newestRow segments x <;> cases newestRow [last] x <;> simp

/-- `ntotal` counts the ids that `lookup` finds. -/
theorem ntotal_of_layout (layout : Layout env n old recent) :
    ∃ live : Finset ℤ, LSMEngine.ntotal n = .ok live.card ∧
      ∀ x, x ∈ live ↔ n.engine.lookup x ≠ none := by
  obtain ⟨ids, ran, iff⟩ := storedIds_of_stored layout.segments.stored
  refine ⟨(ids ∪ (batchIds (n.engine.memtable.toArrays none)).toFinset) \
    (n.engine.memtable.visibleDeletedIds none ∪ n.engine.tombstones), ?_, fun x => ?_⟩
  · simp only [LSMEngine.ntotal, ran, bind, Except.bind]
  · rw [Finset.mem_sdiff, Finset.mem_union, Finset.mem_union, iff, List.mem_toFinset,
      MemTable.mem_batchIds_toArrays, MemTable.mem_visibleDeletedIds, LSMEngine.lookup]
    by_cases tombstoned : x ∈ n.engine.tombstones
    · simp [tombstoned]
    · cases entry : n.engine.memtable.entries.get? x with
      | none => simp [tombstoned]
      | some e => cases vector : e.vector <;> simp [tombstoned, vector, seenAt]

end Default

/-! ## Every piece of a call -/

section Pieces

variable {env : Env} {n n' : Node dim} {old recent : List (WALRecord dim)}

theorem lookup_applyInsert (n : Node dim) (wal : WAL) (lsn : ℕ) (rows : List (Row dim)) (x : ℤ) :
    (LSMEngine.applyInsert n wal lsn rows).engine.lookup x =
      (Dict.lastWrite rows x).or (n.engine.lookup x) := by
  rw [LSMEngine.applyInsert_engine]
  simp only [LSMEngine.lookup, MemTable.get?_insert, Finset.mem_sdiff, List.mem_toFinset]
  cases written : Dict.lastWrite rows x with
  | some v =>
      have listed : x ∈ batchIds rows := List.mem_map_of_mem (Dict.mem_of_lastWrite written)
      simp [listed, MemTableEntry.live]
  | none =>
      have unlisted : x ∉ batchIds rows := Dict.lastWrite_eq_none_iff.mp written
      simp [unlisted]

theorem lookup_applyDelete (n : Node dim) (wal : WAL) (lsn : ℕ) (ids : List ℤ) (x : ℤ) :
    (LSMEngine.applyDelete n wal lsn ids).engine.lookup x =
      if x ∈ ids then none else n.engine.lookup x := by
  simp only [LSMEngine.applyDelete, LSMEngine.persistTombstones, LSMEngine.lookup,
    MemTable.get?_delete, Finset.mem_union, List.mem_toFinset]
  by_cases listed : x ∈ ids <;> simp [listed]

theorem lookup_captureDeletes (n : Node dim) (x : ℤ) :
    (LSMEngine.captureDeletes n).engine.lookup x = n.engine.lookup x := by
  rw [LSMEngine.captureDeletes_engine]
  simp only [LSMEngine.lookup, Finset.mem_union, MemTable.mem_visibleDeletedIds, seenAt, true_and]
  by_cases tombstoned : x ∈ n.engine.tombstones
  · simp [tombstoned]
  · cases entry : n.engine.memtable.entries.get? x with
    | none => simp [tombstoned]
    | some e => cases vector : e.vector <;> simp [tombstoned, vector]

/-- After the capture every delete marker is a tombstone. -/
theorem captured_of_marker {x : ℤ} {e : MemTableEntry dim}
    (entry : (LSMEngine.captureDeletes n).engine.memtable.entries.get? x = some e)
    (marker : e.vector = none) : x ∈ (LSMEngine.captureDeletes n).engine.tombstones := by
  rw [LSMEngine.captureDeletes_engine] at entry ⊢
  exact Finset.mem_union_right _ (MemTable.mem_visibleDeletedIds.mpr ⟨e, entry, rfl, marker⟩)

theorem lookup_clearMemtable (covered : ∀ x e, n.engine.memtable.entries.get? x = some e →
    x ∈ n.engine.tombstones) (x : ℤ) :
    (LSMEngine.clearMemtable n).engine.lookup x = n.engine.lookup x := by
  have tombstones : (LSMEngine.clearMemtable n).engine.tombstones = n.engine.tombstones := rfl
  have entries : (LSMEngine.clearMemtable n).engine.memtable.entries.get? x = none := rfl
  have segments : (LSMEngine.clearMemtable n).engine.segments = n.engine.segments := rfl
  rw [LSMEngine.lookup, LSMEngine.lookup, tombstones, entries, segments]
  cases entry : n.engine.memtable.entries.get? x with
  | none => rfl
  | some e => rw [if_pos (covered x e entry), if_pos (covered x e entry)]

/-- The rows of the memtable, as a lookup. -/
theorem lastWrite_toArrays (mem : MemTable dim) (x : ℤ) :
    Dict.lastWrite (mem.toArrays none) x = (mem.entries.get? x).bind MemTableEntry.vector := by
  apply Option.ext
  intro v
  rw [Dict.lastWrite_eq_some_iff (mem.nodup_toArrays none), MemTable.mem_toArrays,
    Option.bind_eq_some_iff]
  simp only [seenAt, true_and]

/-- The rows of a sealed memtable stand before those of the older segments. -/
theorem newestRow_sealed (env : Env) (n : Node dim) (segments : List (Segment dim)) (x : ℤ) :
    newestRow (segments ++ [(LSMEngine.sealMemtable env n).1]) x =
      ((n.engine.memtable.entries.get? x).bind MemTableEntry.vector).or (newestRow segments x) := by
  rw [newestRow_append, newestRow_singleton, LSMEngine.sealMemtable_rows, lastWrite_toArrays]

theorem lookup_sealMemtable (covered : ∀ x e, n.engine.memtable.entries.get? x = some e →
    e.vector = none → x ∈ n.engine.tombstones)
    (segments : (LSMEngine.sealMemtable env n).2.engine.segments =
      n.engine.segments ++ [(LSMEngine.sealMemtable env n).1]) (x : ℤ) :
    (LSMEngine.sealMemtable env n).2.engine.lookup x = n.engine.lookup x := by
  have tombstones : (LSMEngine.sealMemtable env n).2.engine.tombstones = n.engine.tombstones := rfl
  have entries : (LSMEngine.sealMemtable env n).2.engine.memtable.entries.get? x = none := rfl
  rw [LSMEngine.lookup, LSMEngine.lookup, tombstones, entries, segments, newestRow_sealed]
  by_cases tombstoned : x ∈ n.engine.tombstones
  · rw [if_pos tombstoned, if_pos tombstoned]
  · rw [if_neg tombstoned, if_neg tombstoned]
    cases entry : n.engine.memtable.entries.get? x with
    | none => rfl
    | some e =>
        cases vector : e.vector with
        | none => exact absurd (covered x e entry vector) tombstoned
        | some v => simp [vector]

/-- What a merge leaves of the segments, as a lookup. -/
theorem Merged.newestRow_segments {front : List (Segment dim)} (merged : Merged env n n' front) (x : ℤ) :
    newestRow n'.engine.segments x = (newestRow n.engine.remaining x).or
      (if x ∈ n.engine.tombstones then none else newestRow n.engine.toMerge x) := by
  have segments : n'.engine.segments = front ++ n.engine.remaining := by rw [merged.engine]
  have new : newestRow front x = _ := congrArg (Dict.lastWrite · x) merged.rows
  rw [segments, newestRow_append, new, lastWrite_keptRows]

/-- **When a merge keeps what an id shows.**  It does unless the id is tombstoned,
lies both in the segments merged and in those left, and has no delete marker in
the memtable. -/
theorem Merged.lookup_eq_iff {front : List (Segment dim)} (merged : Merged env n n' front)
    (buried : ∀ x ∈ n.engine.tombstones, ∀ e, n.engine.memtable.entries.get? x = some e →
      e.vector = none) (x : ℤ) :
    n'.engine.lookup x = n.engine.lookup x ↔
      (x ∈ n.engine.tombstones → newestRow n.engine.toMerge x ≠ none →
        newestRow n.engine.remaining x ≠ none →
          n.engine.memtable.entries.get? x ≠ none) := by
  have memtable : n'.engine.memtable = n.engine.memtable := by rw [merged.engine]
  have tombstones : x ∈ n'.engine.tombstones ↔
      x ∈ n.engine.tombstones ∧ newestRow n.engine.toMerge x = none := by
    rw [merged.engine, Finset.mem_sdiff, mem_cleanedTombstones]
    by_cases listed : newestRow n.engine.toMerge x = none <;> simp [listed]
  have segments := merged.newestRow_segments x
  have before : newestRow n.engine.segments x =
      (newestRow n.engine.remaining x).or (newestRow n.engine.toMerge x) := by
    rw [← newestRow_append, n.engine.toMerge_append_remaining]
  simp only [LSMEngine.lookup, memtable, tombstones, segments, before]
  by_cases tombstoned : x ∈ n.engine.tombstones
  · by_cases listed : newestRow n.engine.toMerge x = none
    · simp [tombstoned, listed]
    · cases entry : n.engine.memtable.entries.get? x with
      | none => simp [tombstoned, listed]
      | some e => simp [tombstoned, listed, buried x tombstoned e entry]
  · simp [tombstoned]

/-- At any thresholds, a flush shows what the engine showed, unless its merge leaves a row of
a tombstoned id. -/
theorem Flushed.lookup_eq {out : Option (Segment dim)} (flushed : Flushed env n out n')
    (layout : Layout env n old recent) {x : ℤ}
    (spared : x ∈ (LSMEngine.captureDeletes n).engine.tombstones →
      newestRow (LSMEngine.sealMemtable env (LSMEngine.captureDeletes n)).2.engine.remaining x =
        none) : n'.engine.lookup x = n.engine.lookup x := by
  have captured := layout.captureDeletes
  rw [← lookup_captureDeletes n]
  cases flushed with
  | nothing dead =>
      exact lookup_clearMemtable (fun y e entry => captured_of_marker entry (dead y e entry)) x
  | sealedOnly live few =>
      obtain ⟨y, e, entry⟩ := MemTable.exists_of_live live
      obtain ⟨segments, -⟩ := captured.sealMemtable entry
      exact lookup_sealMemtable (fun _ _ => captured_of_marker) segments x
  | merged live enough merged =>
      obtain ⟨y, e, entry⟩ := MemTable.exists_of_live live
      obtain ⟨segments, tail, after, -⟩ := captured.sealMemtable entry
      have kept := (merged.lookup_eq_iff after.buried x).mpr fun tombstoned _ left =>
        absurd (spared tombstoned) left
      exact kept.trans (lookup_sealMemtable (fun _ _ => captured_of_marker) segments x)

end Pieces

end VecScale
