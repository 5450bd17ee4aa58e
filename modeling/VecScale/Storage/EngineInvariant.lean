import VecScale.Storage.EngineMap

/-!
# The invariant of an engine with fixed thresholds

`EngineInvariant env config n` is what a reader of the engine may rely on between two
calls: how the segments, the memtable, the log and the thresholds stand to each other.

* `Ran.room`: every completed call leaves the memtable room for a live row;
* `engineInvariant_of_history`: the invariant of every completed run.
-/

namespace VecScale

variable {dim : ℕ} {env : Env} {config : EngineConfig} {n n' : Node dim}
  {old recent log : List (WALRecord dim)}

structure EngineInvariant (env : Env) (config : EngineConfig) (n : Node dim) : Prop where
  sorted : n.engine.segments.Pairwise fun a b => a.snapshotId < b.snapshotId
  bounded : ∀ seg ∈ n.engine.segments, seg.snapshotId ≤ n.engine.wal.lastLsn
  nodup : ∀ seg ∈ n.engine.segments, (batchIds seg.rows).Nodup
  /-- The log is younger than the segments. -/
  records : ∀ record ∈ n.engine.wal.recover env.crc32 dim, ∀ seg ∈ n.engine.segments,
    seg.snapshotId < record.lsn
  /-- So is the memtable. -/
  entries : ∀ x e, n.engine.memtable.entries.get? x = some e → ∀ seg ∈ n.engine.segments,
    seg.snapshotId < e.lsn
  logged : ∀ x e, n.engine.memtable.entries.get? x = some e →
    ∃ record ∈ n.engine.wal.recover env.crc32 dim, record.lsn = e.lsn ∧ x ∈ batchIds record.rows
  room : n.engine.memtable.ntotal < config.flushThreshold
  few : n.engine.segments.length < config.mergeThreshold

/-! ## Room in the memtable -/

/-- The memtable works at the flush threshold of `config` and is below it. -/
structure HasRoom (config : EngineConfig) (n : Node dim) : Prop where
  flushThreshold : n.engine.memtable.flushThreshold = config.flushThreshold
  room : n.engine.memtable.ntotal < config.flushThreshold

theorem HasRoom.of_ntotal_le (before : HasRoom config n)
    (flushThreshold : n'.engine.memtable.flushThreshold = n.engine.memtable.flushThreshold)
    (fewer : n'.engine.memtable.ntotal ≤ n.engine.memtable.ntotal) : HasRoom config n' :=
  ⟨flushThreshold.trans before.flushThreshold, fewer.trans_lt before.room⟩

/-- A memtable of delete markers has no live row. -/
theorem MemTable.Dead.ntotal_eq {mem : MemTable dim} (dead : mem.Dead) : mem.ntotal = 0 := by
  rw [MemTable.ntotal_eq, MemTable.toArrays_eq_nil_iff.mpr dead]
  rfl

/-- A flush always clears the memtable. -/
theorem Flushed.memtable {out : Option (Segment dim)} (flushed : Flushed env n out n') :
    n'.engine.memtable = n.engine.memtable.clear := by
  have captured : (LSMEngine.captureDeletes n).engine.memtable.clear =
      n.engine.memtable.clear := by
    rw [LSMEngine.captureDeletes_engine]
  cases flushed with
  | nothing dead => exact captured
  | sealedOnly live few => exact captured
  | merged live enough merged =>
      rw [merged.engine]
      exact captured

/-- The step lemma: a completed call leaves room. -/
theorem Ran.room {op : Op dim} (ran : Ran env n log op n') (positive : 1 ≤ config.flushThreshold)
    (before : HasRoom config n) : HasRoom config n' := by
  have cleared : ∀ {n n' : Node dim} {out : Option (Segment dim)},
      n.engine.memtable.flushThreshold = config.flushThreshold → Flushed env n out n' →
      HasRoom config n' := by
    intro n n' out threshold flushed
    have empty := flushed.memtable
    exact ⟨by rw [empty]; exact threshold, by rw [empty]; exact positive⟩
  cases ran with
  | @insert rows wal appended room =>
      have engine := LSMEngine.applyInsert_engine n wal (n.engine.wal.lastLsn + 1) rows
      rw [MemTable.shouldFlush_eq_false_iff] at room
      refine ⟨?_, ?_⟩
      · rw [engine]
        exact before.flushThreshold
      · rw [engine, ← before.flushThreshold]
        exact room
  | @insertFlush rows wal out _ appended full flushed =>
      refine cleared ?_ flushed
      rw [LSMEngine.applyInsert_engine]
      exact before.flushThreshold
  | @delete ids wal appended =>
      exact before.of_ntotal_le rfl (n.engine.memtable.ntotal_delete_le ids _)
  | flush flushed => exact cleared before.flushThreshold flushed
  | mergeFew few => exact before
  | merge enough merged =>
      refine before.of_ntotal_le ?_ ?_ <;> rw [merged.engine]
  | restart flushed layout restarted =>
      -- what the new process replays are delete markers
      have dead : n'.engine.memtable.Dead := fun x e entry =>
        layout.markers x e ((restarted.memtable x).symm.trans entry)
      refine ⟨?_, ?_⟩
      · rw [restarted.flushThreshold]
        exact (cleared before.flushThreshold flushed).flushThreshold
      · rw [dead.ntotal_eq]
        exact positive

theorem room_of_history {ops : List (Op dim)} (positive : 1 ≤ config.flushThreshold)
    (int64 : ∀ op ∈ ops, op.Int64) {final : Node dim}
    (ran : Node.history env config ops = .ok final) : HasRoom config final := by
  have fresh : ∀ n : Node dim, Node.boot env config = .ok n → Fresh env config n →
      HasRoom config n := by
    intro n booted _
    obtain ⟨memtable, -⟩ := boot_replayed booted
    exact ⟨by rw [memtable]; rfl, by rw [memtable]; exact positive⟩
  obtain ⟨-, -, -, room⟩ := history_carries_from_boot (C := Op.Int64)
    (R := fun _ n _ _ => HasRoom config n) (fun _ int64 => int64) fresh
    (fun _ n old recent op n' layout before _ step => by
      obtain ⟨old', recent', after⟩ := step.layout layout
      exact ⟨old', recent', after, step.room positive before⟩) int64 ran
  exact room

/-! ## The invariant -/

/-- A memtable entry was written by a record of the log. -/
theorem Layout.logged (layout : Layout env n old recent) {x : ℤ} {e : MemTableEntry dim}
    (entry : n.engine.memtable.entries.get? x = some e) :
    ∃ record ∈ old ++ recent, record.lsn = e.lsn ∧ x ∈ batchIds record.rows := by
  rw [layout.memtable] at entry
  obtain ⟨record, member, here⟩ := exists_of_replayEntry entry
  exact ⟨record, List.mem_append_right _ member, (lsn_of_recordEntry here).symm,
    listed_of_recordEntry here⟩

/-- **The invariant.**  It holds whenever a call of a run has completed. -/
theorem engineInvariant_of_history {ops : List (Op dim)} (positive : 1 ≤ config.flushThreshold)
    (atLeastTwo : 2 ≤ config.mergeThreshold) (int64 : ∀ op ∈ ops, op.Int64)
    (keeps : ∀ op ∈ ops, op.Keeps config.mergeThreshold) {final : Node dim}
    (ran : Node.history env config ops = .ok final) : EngineInvariant env config final := by
  obtain ⟨old, recent, layout, mirrors⟩ := lookup_of_history atLeastTwo int64 keeps ran
  have recovered := WAL.recover_of_holds layout.wal
  refine ⟨layout.segments.sorted, layout.segments.bounded, layout.segments.nodup, ?_, ?_, ?_,
    (room_of_history positive int64 ran).room, ?_⟩
  · rw [recovered]
    exact layout.above
  · intro x e entry seg listed
    obtain ⟨record, member, lsn, -⟩ := layout.logged entry
    rw [← lsn]
    exact layout.above record member seg listed
  · intro x e entry
    rw [recovered]
    exact layout.logged entry
  · rw [← mirrors.mergeThreshold]
    exact mirrors.consistent.few

/-- Flushes by insert and by call, a merge that drops deleted rows, and a restart on a
log of delete markers. -/
def buriedVersions : List (Op 1) :=
  [.insert [(7, zeroVec 1), (8, zeroVec 1)], .delete [7, 8], .insert [(9, zeroVec 1)], .flush,
    .delete [9], .merge, .restart 2, .insert [(7, zeroVec 1)]]

theorem engineInvariant_buriedVersions :
    ∃ final, Node.history Env.counted ⟨0, 1, 2, 2⟩ buriedVersions = .ok final ∧
      EngineInvariant Env.counted ⟨0, 1, 2, 2⟩ final := by
  obtain ⟨final, ran⟩ : ∃ final,
      Node.history Env.counted ⟨0, 1, 2, 2⟩ buriedVersions = .ok final :=
    exists_of_isOk (by decide +kernel)
  exact ⟨final, ran,
    engineInvariant_of_history (by decide) (by decide) (by decide) (by decide) ran⟩

end VecScale
