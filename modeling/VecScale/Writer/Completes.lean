import VecScale.Storage.Counters
import VecScale.Writer.Shards

/-!
# Calls on the writer complete

A call on the writer raises only if one of its records does not fit in the log, which takes
2^32 rows in one batch or 2^64 batches.

* `Sound.foldlM_completes`: a loop over different shards, whatever it does on each;
* `Sound.insertOnShards_completes`, `Sound.deleteOnShards_completes`: both loops of the writer.
-/

namespace VecScale

variable {dim numShards : ℕ} {env : Env}

/-- The clock is all that a record needs of an engine. -/
theorem Op.Packs.congr {n n' : Node dim} {op : Op dim} (packs : op.Packs n)
    (same : n'.engine.wal.lastLsn = n.engine.wal.lastLsn) : op.Packs n' := by
  cases op with
  | insert rows =>
      rw [Op.Packs, same]
      exact packs
  | delete ids =>
      rw [Op.Packs, same]
      exact packs
  | flush => trivial
  | merge => trivial
  | restart mergeThreshold => trivial

namespace Cluster

variable {c : Cluster dim numShards}

/-- The clock of a shard. -/
def clock (c : Cluster dim numShards) (shard : Fin numShards) : ℕ :=
  (c.writer.engines shard).wal.lastLsn

theorem Stepped.clock {c' : Cluster dim numShards} {shard : Fin numShards} {request : Call dim}
    (stepped : Stepped env c shard request c') (other : Fin numShards) :
    c'.clock other = c.clock other + if other = shard then 1 else 0 := by
  split
  · next same =>
      subst same
      obtain ⟨old, recent, -, ran⟩ := stepped.ran
      have counted := ran.lastLsn
      cases request <;> exact counted
  · next different => rw [Cluster.clock, stepped.others other different, Cluster.clock, Nat.add_zero]

/-- A call on one shard whose record packs. -/
theorem Sound.onShard_completes (sound : c.Sound env) {α : Type} {shard : Fin numShards}
    (request : Call dim) (call : Node dim → Except PyError (α × Node dim))
    (same : ∀ n, Node.run env n request.op = (call n).map Prod.snd)
    (packs : request.op.Packs (c.node shard)) :
    ∃ done, c.onShard shard call = .ok done ∧ Stepped env c shard request done.2 := by
  obtain ⟨old, recent, layout⟩ := sound.layout shard
  obtain ⟨n', ran⟩ := run_of_packs layout packs
  rw [same] at ran
  obtain ⟨done, called, -⟩ := ok_of_map ran
  have here : c.onShard shard call = .ok (done.1, c.setNode shard done.2) := by
    rw [onShard, called]
    rfl
  refine ⟨_, here, sound.shardStep ?_ (shardStep_of_onShard same here)⟩
  have int64 := packs.int64
  cases request with
  | insert rows =>
      intro x named
      obtain ⟨row, member, rfl⟩ := List.mem_map.mp named
      exact int64 row member
  | delete ids => exact int64

/-- A loop over different shards completes if all its records pack. -/
theorem Sound.foldlM_completes (sound : c.Sound env) {α β γ : Type} (request : β → Call dim)
    (call : β → Node dim → Except PyError (α × Node dim)) (merge : γ → α → γ)
    (same : ∀ b n, Node.run env n (request b).op = (call b n).map Prod.snd)
    (groups : List (Fin numShards × β)) (nodup : (groups.map Prod.fst).Nodup)
    (packs : ∀ group ∈ groups, (request group.2).op.Packs (c.node group.1)) (result : γ) :
    ∃ final, groups.foldlM (fun (state : γ × Cluster dim numShards) group => do
      let done ← state.2.onShard group.1 (call group.2)
      .ok (merge state.1 done.1, done.2)) (result, c) = .ok final ∧ final.2.Sound env := by
  induction groups generalizing c result with
  | nil => exact ⟨_, rfl, sound⟩
  | cons group groups ih =>
      rw [List.map_cons, List.nodup_cons] at nodup
      obtain ⟨done, here, stepped⟩ := sound.onShard_completes (request group.2) (call group.2)
        (same group.2) (packs group List.mem_cons_self)
      have later : ∀ other ∈ groups, (request other.2).op.Packs (done.2.node other.1) := by
        intro other member
        refine (packs other (List.mem_cons_of_mem _ member)).congr ?_
        have different : other.1 ≠ group.1 := fun equal =>
          nodup.1 (equal ▸ List.mem_map_of_mem member)
        exact congrArg (fun engine => engine.wal.lastLsn) (stepped.others other.1 different)
      obtain ⟨final, ran, after⟩ := ih stepped.sound nodup.2 later (merge result done.1)
      refine ⟨final, ?_, after⟩
      rw [List.foldlM_cons, here]
      exact ran

variable [NeZero numShards]

theorem Sound.insertOnShards_completes (sound : c.Sound env) {rows : List (Row dim)}
    (int64 : ∀ row ∈ rows, IsInt64 row.1) (few : rows.length < 2 ^ 32)
    (room : ∀ shard, c.clock shard + 1 < 2 ^ 64) :
    ∃ written, c.insertOnShards env rows = .ok written ∧ written.2.Sound env := by
  have packs : ∀ (shard : Fin numShards) {part : List (Row dim)}, part.Sublist rows →
      (Call.insert part).op.Packs (c.node shard) := fun shard part inside =>
    ⟨⟨room shard, Nat.lt_of_sub_eq_succ rfl, inside.length_le.trans_lt few⟩,
      fun row member => int64 row (inside.subset member)⟩
  unfold insertOnShards
  split
  · obtain ⟨done, ran, stepped⟩ := sound.onShard_completes (.insert rows)
      (LSMEngine.insert env (batchIds rows) (batchVectors rows)) (fun n => rfl)
      (packs 0 (List.Sublist.refl rows))
    exact ⟨done, ran, stepped.sound⟩
  · refine sound.foldlM_completes Call.insert
      (fun rows => LSMEngine.insert env (batchIds rows) (batchVectors rows)) addResult
      (fun rows n => rfl) (rowGroups rows) (Dict.keys_nodup _) (fun group member => ?_) ⟨0, false⟩
    have part := Dict.group_of_mem member
    exact packs group.1 (part ▸ List.filter_sublist)

theorem Sound.deleteOnShards_completes (sound : c.Sound env) {ids : List ℤ}
    (int64 : ∀ x ∈ ids, IsInt64 x) (few : ids.length < 2 ^ 32)
    (room : ∀ shard, c.clock shard + 1 < 2 ^ 64) :
    ∃ written, c.deleteOnShards env ids = .ok written ∧ written.2.Sound env := by
  have packs : ∀ (shard : Fin numShards) {part : List ℤ}, part.Sublist ids →
      (Call.delete part : Call dim).op.Packs (c.node shard) := by
    intro shard part inside
    refine ⟨⟨room shard, Nat.lt_of_sub_eq_succ rfl, ?_⟩, fun row member => ?_⟩
    · have size : (LSMEngine.deleteRows dim part).length = part.length := List.length_map _
      exact size ▸ inside.length_le.trans_lt few
    · obtain ⟨x, named, rfl⟩ := List.mem_map.mp member
      exact int64 x (inside.subset named)
  unfold deleteOnShards
  split
  · obtain ⟨done, ran, stepped⟩ := sound.onShard_completes (.delete ids) (LSMEngine.delete env ids)
      (fun n => rfl) (packs 0 (List.Sublist.refl ids))
    exact ⟨done, ran, stepped.sound⟩
  · refine sound.foldlM_completes Call.delete (LSMEngine.delete env) max (fun ids n => rfl)
      (idGroups ids) (Dict.keys_nodup _) (fun group member => ?_) 0
    have part := Dict.group_of_mem member
    exact packs group.1 (part ▸ List.filter_sublist)

/-! ## The clocks -/

omit [NeZero numShards] in
/-- Calls on different shards append one record on each. -/
theorem Sound.clock_of_parts {parts : List (Fin numShards × Call dim)}
    (nodup : (parts.map Prod.fst).Nodup) (int64 : ∀ part ∈ parts, part.2.Int64)
    {c c' : Cluster dim numShards} (sound : c.Sound env)
    (ran : runAll (Cluster.shardStep env) c parts = .ok c') (shard : Fin numShards) :
    c'.clock shard = c.clock shard + if shard ∈ parts.map Prod.fst then 1 else 0 := by
  induction parts generalizing c with
  | nil =>
      cases ran
      rfl
  | cons part parts ih =>
      rw [List.map_cons, List.nodup_cons] at nodup
      obtain ⟨middle, here, rest⟩ := runAll_cons_inv ran
      have stepped := sound.shardStep (int64 part List.mem_cons_self) here
      rw [ih nodup.2 (fun later member => int64 later (List.mem_cons_of_mem _ member))
        stepped.sound rest, stepped.clock]
      by_cases first : shard = part.1
      · subst first
        simp [nodup.1]
      · simp only [List.map_cons, List.mem_cons, first, false_or, if_false, Nat.add_zero]

theorem Sound.call {c c' : Cluster dim numShards} (sound : c.Sound env) {request : Call dim}
    (int64 : request.Int64) (ran : c.call env request = .ok c') :
    c'.Sound env ∧ ∀ shard, c'.clock shard ≤ c.clock shard + 1 := by
  obtain ⟨written, ranParts, finished⟩ := parts_of_call ran
  have partsInt64 : ∀ part ∈ request.parts numShards, part.2.Int64 :=
    fun part member x named => int64 x (mem_ids_of_part member named).1
  have same : written.SameEngines c' := finished ▸ written.sameEngines_finish request
  refine ⟨same.sound (sound.runParts partsInt64 ranParts).1, fun shard => ?_⟩
  have counted := sound.clock_of_parts (nodup_parts request) partsInt64 ranParts shard
  rw [clock, same.engines]
  change written.clock shard ≤ _
  rw [counted]
  split <;> omega

/-- No clock is ahead of the calls that were made. -/
theorem clock_of_run {settings : Settings} {boot : Cluster dim numShards}
    (booted : Cluster.boot env settings = .ok boot) {calls : List (Call dim)}
    (int64 : ∀ request ∈ calls, request.Int64) (ran : runAll (Cluster.call env) boot calls = .ok c) :
    ∀ shard, c.clock shard ≤ calls.length := by
  obtain ⟨begun, started, booted'⟩ := boot_ok dim numShards env settings
  rw [booted, Except.ok.injEq] at booted'
  have same : begun.SameEngines boot := booted' ▸ begun.sameEngines_boot
  have zero : ∀ shard, boot.clock shard = 0 := fun shard => by
    rw [clock, same.engines]
    exact (started.fresh shard).lastLsn
  have kept := runAll_carries (C := fun _ request => Call.Int64 request)
    (R := fun history (c : Cluster dim numShards) =>
      c.Sound env ∧ ∀ shard, c.clock shard ≤ history.length)
    (fun history c request c' ⟨sound, clocks⟩ int64 step => by
      obtain ⟨sound', later⟩ := sound.call int64 step
      refine ⟨sound', fun shard => (later shard).trans ?_⟩
      rw [List.length_append, List.length_singleton]
      exact Nat.succ_le_succ (clocks shard)) []
    ⟨same.sound started.sound, fun shard => (zero shard).le⟩ (.of_forall int64 boot) ran
  exact kept.2

end Cluster

end VecScale
