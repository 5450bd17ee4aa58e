import VecScale.Storage.Crash
import VecScale.Storage.MergeEffects
import VecScale.Storage.Visible

/-!
# An engine at rest

With an empty memtable and an empty log, all that an engine shows lies in its segments
and its tombstones, and all that a start finds lies in the directories and in
`tombstones.json`.  The segments may share an age, as behind a merge that was cut.

* `exposed_of_readable`: what such an engine shows;
* `resting_of_history`: the engines that calls leave with nothing to flush;
* `exists_shownBy`, `ShownBy.unique`: an id that some segment lists has one vector.
-/

namespace VecScale

variable {dim : ℕ} {env : Env} {n n' : Node dim}

/-- The memtable and the log are empty, and the directories with metadata are those of
the segments. -/
structure Resting (env : Env) (n : Node dim) : Prop where
  started : n.engine.started = true
  wal : n.engine.wal.Holds env.crc32 ([] : List (WALRecord dim))
  memtable : ∀ x, n.engine.memtable.entries.get? x = none
  nodup : ∀ seg ∈ n.engine.segments, (batchIds seg.rows).Nodup
  stored : ∀ seg ∈ n.engine.segments, seg.Stored n.storage
  shard : ∀ seg ∈ n.engine.segments, seg.shardId = n.engine.shardId
  dirs : ∀ path, (n.storage.files path).metaJson.isSome = true →
    ∃ seg : Segment dim, seg.Stored n.storage ∧ seg.path = path ∧
      (seg.shardId = n.engine.shardId → seg ∈ n.engine.segments)
  drawn : n.storage.Drawn env.uuid
  ordered : n.engine.segments.Pairwise fun a b => a.snapshotId ≤ b.snapshotId
  agree : Agree n.engine.segments
  bounded : ∀ seg ∈ n.engine.segments, seg.snapshotId ≤ n.engine.wal.lastLsn

theorem Layout.resting (layout : Layout env n [] []) : Resting env n where
  started := layout.started
  wal := layout.wal
  memtable := layout.memtable
  nodup := layout.segments.nodup
  stored := layout.segments.stored
  shard := layout.segments.shard
  dirs path described := by
    obtain ⟨files, found⟩ := SharedStorage.exists_of_described described
    exact layout.segments.dirs path (Dict.mem_keys_iff.mpr ⟨files, found⟩)
  drawn := layout.segments.drawn
  ordered := layout.segments.sorted.imp Nat.le_of_lt
  agree := agree_of_sorted layout.segments.sorted layout.segments.nodup
  bounded := layout.segments.bounded

/-- **Engines at rest.**  After any calls and restarts, an engine with nothing in its
log is at rest. -/
theorem resting_of_history {config : EngineConfig} {ops : List (Op dim)}
    (int64 : ∀ op ∈ ops, op.Int64) (ran : Node.history env config ops = .ok n)
    (empty : n.engine.wal.recover env.crc32 dim = []) : Resting env n := by
  obtain ⟨old, recent, layout⟩ := layout_of_history int64 ran
  rw [WAL.recover_of_holds layout.wal, List.append_eq_nil_iff] at empty
  rcases empty with ⟨rfl, rfl⟩
  exact layout.resting

/-! ## What it shows -/

/-- An id that is not tombstoned shows its row in the youngest segment that lists it. -/
def Shows (tombstones : Finset ℤ) (segments : List (Segment dim)) (row : Row dim) : Prop :=
  row.1 ∉ tombstones ∧ ShownBy segments row.1 row.2

theorem exposed_of_readable (memtable : ∀ x, n.engine.memtable.entries.get? x = none)
    (bounded : ∀ seg ∈ n.engine.segments, seg.snapshotId ≤ n.engine.wal.lastLsn)
    (readable : ∀ seg ∈ n.engine.segments, seg.Readable n.storage) :
    ∃ rows, LSMEngine.exposed n = .ok rows ∧
      ∀ row, row ∈ rows ↔ Shows n.engine.tombstones n.engine.segments row := by
  have all : SnapshotManager.visibleSegments n.engine.wal.lastLsn n.engine.segments =
      n.engine.segments :=
    List.filter_eq_self.mpr fun seg member => decide_eq_true (bounded seg member)
  obtain ⟨plan, ran, at_last⟩ := searchPlan_of_readable (n := n) (s := n.engine.wal.lastLsn)
    (by rw [all]; exact readable)
  have segments : plan.segments = n.engine.segments := at_last.segments.trans all
  have memRows : plan.memRows = [] := by
    rw [at_last.memRows, List.eq_nil_iff_forall_not_mem]
    rintro ⟨x, v⟩ member
    rcases MemTable.mem_toArrays.mp member with ⟨e, entry, -⟩
    rw [memtable] at entry
    cases entry
  have deleted : ∀ x, x ∈ plan.deletedIds ↔ x ∈ n.engine.tombstones := by
    intro x
    rw [at_last.deletedIds, Finset.mem_union]
    apply or_iff_right
    intro marked
    rcases MemTable.mem_visibleDeletedIds.mp marked with ⟨e, entry, -⟩
    rw [memtable] at entry
    cases entry
  refine ⟨plan.survivors, ?_, fun row => ?_⟩
  · simp only [LSMEngine.exposed, ran, bind, Except.bind]
  · simp only [SearchPlan.survivors, memRows, List.filter_nil, List.append_nil, List.mem_flatMap,
      List.mem_filter, decide_eq_true_eq, at_last.mem_hiddenIds, deleted, segments]
    simp only [batchIds, List.map_nil, List.not_mem_nil, false_or, not_or, not_exists, not_and,
      not_lt, Shows, ShownBy]
    constructor
    · rintro ⟨seg, member, here, live, newest⟩
      exact ⟨live, seg, member, here, newest⟩
    · rintro ⟨live, seg, member, here, newest⟩
      exact ⟨seg, member, here, live, newest⟩

theorem Resting.exposed (resting : Resting env n) :
    ∃ rows, LSMEngine.exposed n = .ok rows ∧
      ∀ row, row ∈ rows ↔ Shows n.engine.tombstones n.engine.segments row :=
  exposed_of_readable resting.memtable resting.bounded fun seg member =>
    ⟨_, Segment.loadIds_of_stored (resting.stored seg member)⟩

/-- A search that returns has read the ids of every segment. -/
theorem ids_of_exposed {rows : List (Row dim)} (ran : LSMEngine.exposed n = .ok rows)
    (bounded : ∀ seg ∈ n.engine.segments, seg.snapshotId ≤ n.engine.wal.lastLsn)
    {seg : Segment dim} (member : seg ∈ n.engine.segments) :
    ∃ loaded, seg.loadIds n.storage = .ok loaded := by
  obtain ⟨plan, planned, -⟩ := ok_of_bind ran
  obtain ⟨latest, aged, -⟩ := ok_of_bind planned
  exact ids_of_latestSegmentSnapshotById aged
    (mem_visibleSegments.mpr ⟨member, bounded seg member⟩)

/-! ## The youngest segment that lists an id -/

theorem ShownBy.congr {segments segments' : List (Segment dim)}
    (same : ∀ seg, seg ∈ segments ↔ seg ∈ segments') {x : ℤ} {v : Vec dim} :
    ShownBy segments x v ↔ ShownBy segments' x v := by
  simp only [ShownBy, same]

theorem ShownBy.listed {segments : List (Segment dim)} {x : ℤ} {v : Vec dim}
    (shown : ShownBy segments x v) : ∃ seg ∈ segments, x ∈ batchIds seg.rows := by
  rcases shown with ⟨seg, member, here, -⟩
  exact ⟨seg, member, List.mem_map_of_mem here⟩

theorem exists_shownBy {segments : List (Segment dim)} {seg : Segment dim}
    (member : seg ∈ segments) {x : ℤ} (listed : x ∈ batchIds seg.rows) :
    ∃ v, ShownBy segments x v := by
  let holders := segments.filter fun seg => x ∈ batchIds seg.rows
  have present : seg ∈ holders := List.mem_filter.mpr ⟨member, decide_eq_true listed⟩
  obtain ⟨youngest, inHolders, age⟩ := exists_maxSnapshot (List.ne_nil_of_mem present)
  rcases List.mem_filter.mp inHolders with ⟨inSegments, lists⟩
  obtain ⟨row, here, rfl⟩ := List.mem_map.mp (decide_eq_true_eq.mp lists)
  refine ⟨row.2, youngest, inSegments, here, fun seg' member' listed' => ?_⟩
  rw [age]
  exact le_maxSnapshot (List.mem_filter.mpr ⟨member', decide_eq_true listed'⟩)

theorem ShownBy.unique {segments : List (Segment dim)} (agree : Agree segments) {x : ℤ}
    {v w : Vec dim} (first : ShownBy segments x v) (second : ShownBy segments x w) : v = w := by
  rcases first with ⟨a, inA, rowA, newestA⟩
  rcases second with ⟨b, inB, rowB, newestB⟩
  have age : a.snapshotId = b.snapshotId :=
    (newestB a inA (List.mem_map_of_mem rowA)).antisymm (newestA b inB (List.mem_map_of_mem rowB))
  exact agree a inA b inB age x v w rowA rowB

end VecScale
