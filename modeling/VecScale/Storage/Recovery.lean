import VecScale.Storage.EngineMap

/-!
# Recovery after a kill

A kill between two calls leaves the files as they are, and a new engine starts on
them.  `start` adds every id of a delete record to the tombstones and, unlike
`insert`, takes none out when a later insert record names the id again.

* `lookup_after_kill`: what the new engine shows, id by id;
* `crash_recovers_iff`: the new engine shows what the old one showed exactly when
  no live memtable row has a delete record in the log.
-/

namespace VecScale

variable {dim : ℕ} {env : Env} {config : EngineConfig} {n n' : Node dim}
  {old recent log : List (WALRecord dim)}

/-- What a search exposes before a kill and after the start that follows it. -/
def Node.crashViews (env : Env) (n : Node dim) :
    Except PyError (List (Row dim) × List (Row dim)) := do
  let before ← LSMEngine.exposed n
  let started ← LSMEngine.start env (n.reborn n.engine.mergeThreshold)
  let after ← LSMEngine.exposed started
  .ok (before, after)

/-- The ids of memtable rows that the log also deletes. -/
def LSMEngine.reinserted (env : Env) (engine : LSMEngine dim) : Finset ℤ :=
  (batchIds (engine.memtable.toArrays none)).toFinset ∩
    deletedIn (engine.wal.recover env.crc32 dim)

/-- A memtable row is what the log replays to. -/
theorem mem_reinserted (layout : Layout env n old recent) {x : ℤ} :
    x ∈ n.engine.reinserted env ↔
      (∃ e, replayEntry (old ++ recent) x = some e ∧ e.vector ≠ none) ∧
        x ∈ deletedIn (old ++ recent) := by
  have log := WAL.recover_of_holds layout.wal
  have row : x ∈ batchIds (n.engine.memtable.toArrays none) ↔
      ∃ e, replayEntry (old ++ recent) x = some e ∧ e.vector ≠ none := by
    simp only [batchIds, List.mem_map, Prod.exists, exists_and_right, exists_eq_right,
      MemTable.mem_toArrays, seenAt, true_and, replayEntry_append, ← layout.memtable]
    constructor
    · rintro ⟨v, e, entry, vector⟩
      refine ⟨e, ?_, ?_⟩
      · rw [entry, Option.some_or]
      · rw [vector]
        exact Option.some_ne_none v
    · rintro ⟨e, entry, live⟩
      rcases Option.or_eq_some_iff.mp entry with here | ⟨-, before⟩
      · rcases Option.ne_none_iff_exists'.mp live with ⟨v, vector⟩
        exact ⟨v, e, here, vector⟩
      · exact absurd (layout.markers x e before) live
  rw [LSMEngine.reinserted, Finset.mem_inter, List.mem_toFinset, row, log]

theorem Restarted.wf {mergeThreshold : ℕ} (restarted : Restarted env n log mergeThreshold n')
    (wf : SegmentsWf env n.engine n.storage) : SegmentsWf env n'.engine n'.storage := by
  rw [restarted.storage]
  exact wf.frame restarted.segments restarted.shardId restarted.lastLsn.ge rfl rfl

theorem Restarted.settled {mergeThreshold : ℕ} (restarted : Restarted env n log mergeThreshold n') :
    n'.engine.Settled := by
  intro x e entry
  rw [restarted.memtable] at entry
  obtain ⟨record, member, written⟩ := exists_of_replayEntry entry
  rw [lsn_of_recordEntry written]
  exact restarted.wal.bounded record member

/-- What the new engine shows: what the old one showed, except for an id that the
log deletes and inserts again. -/
theorem lookup_after_kill {mergeThreshold : ℕ} (layout : Layout env n old recent)
    (consistent : Consistent n (old ++ recent))
    (restarted : Restarted env n (old ++ recent) mergeThreshold n') (x : ℤ) :
    n'.engine.lookup x = n.engine.lookup x ↔ x ∉ n.engine.reinserted env := by
  have entry := replayEntry_append old recent x
  rw [← layout.memtable] at entry
  rw [mem_reinserted layout]
  simp only [LSMEngine.lookup, restarted.tombstones, restarted.memtable, restarted.segments,
    consistent.persisted, Finset.mem_union]
  cases replayed : replayEntry (old ++ recent) x with
  | none =>
      have kept : x ∉ deletedIn (old ++ recent) := fun deleted => by
        obtain ⟨e, found⟩ := replayEntry_of_deleted deleted
        rw [replayed] at found
        cases found
      rw [replayed, eq_comm, Option.or_eq_none_iff] at entry
      simp [kept, entry.1]
  | some e =>
      cases vector : e.vector with
      | none =>
          have tombstoned := consistent.buried x e replayed vector
          simp [tombstoned, vector]
      | some v =>
          have here : n.engine.memtable.entries.get? x = some e := by
            rw [replayed, eq_comm] at entry
            rcases Option.or_eq_some_iff.mp entry with found | ⟨-, before⟩
            · exact found
            · rw [layout.markers x e before] at vector
              cases vector
          have live : x ∉ n.engine.tombstones := fun tombstoned => by
            rw [layout.buried x tombstoned e here] at vector
            cases vector
          by_cases deleted : x ∈ deletedIn (old ++ recent) <;> simp [live, here, deleted, vector]

/-- **When a kill loses nothing.**  The engine that starts on the files of a killed
one shows the same rows exactly when no memtable row of the killed engine has a
delete record in its log. -/
theorem crash_recovers_iff {ops : List (Op dim)} (atLeastTwo : 2 ≤ config.mergeThreshold)
    (int64 : ∀ op ∈ ops, op.Int64) (keeps : ∀ op ∈ ops, op.Keeps config.mergeThreshold)
    {final : Node dim} (ran : Node.history env config ops = .ok final) :
    ∃ before after, final.crashViews env = .ok (before, after) ∧
      ((∀ row, row ∈ before ↔ row ∈ after) ↔ final.engine.reinserted env = ∅) := by
  obtain ⟨old, recent, layout, mirrors⟩ := lookup_of_history atLeastTwo int64 keeps ran
  obtain ⟨started, startRan, restarted⟩ := start_reborn layout final.engine.mergeThreshold
  obtain ⟨before, ranBefore, -, shownBefore⟩ := exposed_of_settled layout.segments layout.settled
  obtain ⟨after, ranAfter, -, shownAfter⟩ :=
    exposed_of_settled (restarted.wf layout.segments) restarted.settled
  refine ⟨before, after, ?_, ?_⟩
  · rw [Node.crashViews, ranBefore]
    simp only [startRan, ranAfter, bind, Except.bind]
  · have same := lookup_after_kill layout mirrors.consistent restarted
    rw [Finset.eq_empty_iff_forall_notMem]
    simp only [← same, Prod.forall, shownBefore, shownAfter]
    constructor
    · exact fun rows x => Option.ext fun v => (rows x v).symm
    · exact fun shown x v => by rw [shown x]

/-- Insert, delete and insert again, with nothing flushed. -/
def reinsertion : List (Op 1) := [.insert [(7, zeroVec 1)], .delete [7], .insert [(7, zeroVec 1)]]

def roomyConfig : EngineConfig := ⟨0, 1, 10, 2⟩

theorem reinsertion_views :
    ∃ final, Node.history Env.counted roomyConfig reinsertion = .ok final ∧
      final.crashViews Env.counted = .ok ([(7, zeroVec 1)], []) := by
  have evaluated : (do
      let final ← Node.history Env.counted roomyConfig reinsertion
      final.crashViews Env.counted) = .ok ([(7, zeroVec 1)], []) := by
    decide +kernel
  exact ok_of_bind evaluated

/-- The id inserted last is shown before the kill and lost after it. -/
theorem reinserted_id_lost :
    (do
      let final ← Node.history Env.counted roomyConfig reinsertion
      final.crashViews Env.counted) = .ok ([(7, zeroVec 1)], []) := by
  obtain ⟨final, ran, views⟩ := reinsertion_views
  rw [ran]
  exact views

theorem crash_recovers_iff_reinsertion :
    ∃ final before after, Node.history Env.counted roomyConfig reinsertion = .ok final ∧
      final.crashViews Env.counted = .ok (before, after) ∧
      ((∀ row, row ∈ before ↔ row ∈ after) ↔ final.engine.reinserted Env.counted = ∅) := by
  obtain ⟨final, ran, -⟩ := reinsertion_views
  obtain ⟨before, after, views, iff⟩ :=
    crash_recovers_iff (by decide) (by decide) (by decide) ran
  exact ⟨final, before, after, ran, views, iff⟩

end VecScale
