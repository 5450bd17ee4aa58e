import VecScale.Storage.EngineInvariant

/-!
# What the engine counts

The log is numbered by the writes, whatever is flushed, merged or restarted between them, and
no call but a search touches the snapshots.

* `Ran.lastLsn`, `lastLsn_of_history`: `last_lsn` is the number of writes;
* `snapshots_of_run`: a call that completes leaves the snapshots, or starts without any;
* `insert_of_packs`: what an insert returns.
-/

namespace VecScale

variable {dim : ℕ} {env : Env} {config : EngineConfig} {n n' : Node dim}
  {old recent log : List (WALRecord dim)}

/-- The records that a call appends. -/
def Op.records : Op dim → ℕ
  | .insert _ | .delete _ => 1
  | .flush | .merge | .restart _ => 0

/-- The writes among some calls. -/
def writes (ops : List (Op dim)) : ℕ := (ops.map Op.records).sum

theorem writes_append (ops more : List (Op dim)) : writes (ops ++ more) = writes ops + writes more := by
  rw [writes, List.map_append, List.sum_append]
  rfl

theorem writes_singleton (op : Op dim) : writes [op] = op.records := List.sum_singleton

theorem writes_le_length (ops : List (Op dim)) : writes ops ≤ ops.length := by
  induction ops with
  | nil => exact Nat.le_refl 0
  | cons op ops ih =>
      have one : op.records ≤ 1 := by cases op <;> simp [Op.records]
      rw [writes] at ih
      rw [writes, List.map_cons, List.sum_cons, List.length_cons]
      omega

/-! ## The log -/

theorem Flushed.lastLsn {out : Option (Segment dim)} (flushed : Flushed env n out n') :
    n'.engine.wal.lastLsn = n.engine.wal.lastLsn := by
  have captured : (LSMEngine.captureDeletes n).engine.wal.lastLsn = n.engine.wal.lastLsn := by
    rw [LSMEngine.captureDeletes_engine]
  cases flushed with
  | nothing dead => exact captured
  | sealedOnly live few => exact captured
  | merged live enough merged =>
      rw [merged.engine]
      exact captured

/-- The step lemma: a completed call counts its records. -/
theorem Ran.lastLsn {op : Op dim} (ran : Ran env n log op n') :
    n'.engine.wal.lastLsn = n.engine.wal.lastLsn + op.records := by
  cases ran with
  | @insert rows wal appended room =>
      rw [LSMEngine.applyInsert_engine]
      exact appended.lastLsn
  | @insertFlush rows wal out _ appended full flushed =>
      rw [flushed.lastLsn, LSMEngine.applyInsert_engine]
      exact appended.lastLsn
  | delete appended => exact appended.lastLsn
  | flush flushed => exact flushed.lastLsn
  | mergeFew few => rfl
  | merge enough merged =>
      rw [merged.engine]
      rfl
  | restart flushed layout restarted => exact restarted.lastLsn.trans flushed.lastLsn

/-- `last_lsn` is the number of writes. -/
theorem lastLsn_of_history {ops : List (Op dim)} (int64 : ∀ op ∈ ops, op.Int64)
    {final : Node dim} (ran : Node.history env config ops = .ok final) :
    final.engine.wal.lastLsn = writes ops := by
  obtain ⟨old, recent, -, counted⟩ := history_carries (C := Op.Int64)
    (R := fun history n _ _ => n.engine.wal.lastLsn = writes history) (fun _ int64 => int64)
    (fun _ fresh => fresh.lastLsn)
    (fun history n old recent op n' layout counted _ step => by
      obtain ⟨old', recent', after⟩ := step.layout layout
      refine ⟨old', recent', after, ?_⟩
      rw [step.lastLsn, counted, writes_append, writes_singleton]) int64 ran
  exact counted

/-! ## The snapshots -/

theorem Flushed.snapshots {out : Option (Segment dim)} (flushed : Flushed env n out n') :
    n'.engine.snapshots = n.engine.snapshots := by
  have captured : (LSMEngine.captureDeletes n).engine.snapshots = n.engine.snapshots := by
    rw [LSMEngine.captureDeletes_engine]
  cases flushed with
  | nothing dead => exact captured
  | sealedOnly live few => exact captured
  | merged live enough merged =>
      rw [merged.engine]
      exact captured

/-- A new engine has no snapshots. -/
theorem snapshots_of_start {left : Node dim} {mergeThreshold : ℕ}
    (ran : LSMEngine.start env (left.reborn mergeThreshold) = .ok n) :
    n.engine.snapshots = SnapshotManager.init := by
  obtain ⟨segments, -, done⟩ := ok_of_bind ran
  cases done
  rfl

/-- An engine without snapshots has none after a call. -/
theorem idle_of_run (layout : Layout env n old recent) {op : Op dim} (int64 : op.Int64)
    (idle : n.engine.snapshots = SnapshotManager.init) (ran : n.run env op = .ok n') :
    n'.engine.snapshots = SnapshotManager.init := by
  cases run_cases layout int64 ran with
  | insert appended room =>
      rw [LSMEngine.applyInsert_engine]
      exact idle
  | insertFlush appended full flushed =>
      rw [flushed.snapshots, LSMEngine.applyInsert_engine]
      exact idle
  | delete appended => exact idle
  | flush flushed => exact flushed.snapshots.trans idle
  | mergeFew few => exact idle
  | merge enough merged =>
      rw [merged.engine]
      exact idle
  | restart flushed stopped restarted =>
      obtain ⟨left, -, started⟩ := ok_of_bind ran
      exact snapshots_of_start started

/-- An engine without snapshots has none after a search, and is otherwise left as it was. -/
theorem LSMEngine.idle_of_search {D : Type} [LinearOrder D] {faiss : Faiss dim D}
    {query : List UInt32} {topK nprobe : ℕ} {hits : List (ℤ × D)}
    (idle : n.engine.snapshots = SnapshotManager.init)
    (ran : LSMEngine.search faiss query topK nprobe none n = .ok (hits, n')) : n' = n := by
  rcases n with ⟨engine, storage⟩
  dsimp only at idle
  obtain ⟨-, -, ran⟩ := ok_of_bind ran
  split at ran
  · obtain ⟨plan, -, ran⟩ := ok_of_bind ran
    cases ran
    simp only [Option.isNone_none, if_true, idle]
    have released : SnapshotManager.releaseSnapshot
        (SnapshotManager.init.createSnapshot engine.wal.lastLsn).2
        (SnapshotManager.init.createSnapshot engine.wal.lastLsn).1 = SnapshotManager.init :=
      SnapshotManager.release_create List.not_mem_nil
    rw [released, ← idle]
  · cases ran

/-! ## What an insert returns -/

/-- A memtable with a new row is not dead. -/
theorem MemTable.not_dead_insert (mem : MemTable dim) {rows : List (Row dim)} (filled : rows ≠ [])
    (lsn : ℕ) : ¬ (mem.insert rows lsn).Dead := by
  intro dead
  obtain ⟨row, member⟩ := List.exists_mem_of_ne_nil rows filled
  have written := Dict.lastWrite_isSome_iff.mpr (List.mem_map_of_mem (f := Prod.fst) member)
  obtain ⟨v, last⟩ := Option.isSome_iff_exists.mp written
  have entry : (mem.insert rows lsn).entries.get? row.1 = some (.live v lsn) := by
    rw [MemTable.get?_insert, last]
    rfl
  cases dead row.1 _ entry

/-- An insert whose record packs completes; it returns the number of its record, and whether it
has emptied the memtable. -/
theorem LSMEngine.insert_of_packs (layout : Layout env n old recent) {rows : List (Row dim)}
    (filled : rows ≠ []) (packs : (Op.insert rows).Packs n) :
    ∃ flushed n', LSMEngine.insert env (batchIds rows) (batchVectors rows) n =
      .ok (⟨n.engine.wal.lastLsn + 1, flushed⟩, n') ∧
      (flushed = true ↔ n'.engine.memtable.ntotal = 0) := by
  obtain ⟨wal, appended, holds, lastLsn, opened⟩ :=
    WAL.append_of_holds layout.wal layout.opened (prepareRows_batch rows) packs
  let written := LSMEngine.applyInsert n wal (n.engine.wal.lastLsn + 1) rows
  have memtable : written.engine.memtable =
      n.engine.memtable.insert rows (n.engine.wal.lastLsn + 1) := by
    simp only [written, LSMEngine.applyInsert_engine]
  have live := n.engine.memtable.not_dead_insert filled (n.engine.wal.lastLsn + 1)
  obtain ⟨out, after, ranFlush, flushed⟩ := flush_cases (layout.applyInsert holds opened lastLsn)
  have ran : LSMEngine.insert env (batchIds rows) (batchVectors rows) n =
      if written.engine.memtable.shouldFlush then
        .ok (⟨n.engine.wal.lastLsn + 1, out.isSome⟩, after)
      else .ok (⟨n.engine.wal.lastLsn + 1, false⟩, written) := by
    simp only [LSMEngine.insert, LSMEngine.ensureStarted_of_started layout.started,
      prepareRows_batch, appended, ranFlush, bind, Except.bind, written]
  by_cases full : written.engine.memtable.shouldFlush
  · refine ⟨out.isSome, after, ran.trans (if_pos full), ?_⟩
    have sealedRows : out.isSome = true := by
      cases flushed with
      | nothing dead =>
          rw [LSMEngine.captureDeletes_engine] at dead
          exact absurd (memtable ▸ dead) live
      | sealedOnly live few => rfl
      | merged live enough merged => rfl
    have empty : after.engine.memtable.ntotal = 0 := by
      rw [flushed.memtable]
      rfl
    exact ⟨fun _ => empty, fun _ => sealedRows⟩
  · refine ⟨false, written, ran.trans (if_neg full),
      fun kept => absurd kept Bool.false_ne_true, fun empty => ?_⟩
    rw [memtable, MemTable.ntotal_eq, batchIds, List.length_map, List.length_eq_zero_iff,
      MemTable.toArrays_eq_nil_iff] at empty
    exact absurd empty live

end VecScale
