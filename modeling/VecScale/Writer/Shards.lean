import VecScale.Storage.Calls
import VecScale.Writer.Pipeline

/-!
# Shards on one storage

A call on the writer is a run of calls on single shards (`Call.parts`), each
followed by the registration messages, which touch no engine.  `Cluster.Sound`
says that every engine has a layout on the storage they share.

* `boot_ok`: a writer that starts on empty directories;
* `Cluster.Sound.shardStep`: a call on one shard keeps the layout of all;
* `parts_of_call`: what a completed call on the writer ran.
-/

namespace VecScale

variable {dim numShards : ℕ} {env : Env}

/-! ## Registration touches no engine -/

/-- The same engines on the same storage. -/
structure Cluster.SameEngines (c c' : Cluster dim numShards) : Prop where
  engines : c'.writer.engines = c.writer.engines
  storage : c'.storage = c.storage

theorem Cluster.SameEngines.trans {c middle c' : Cluster dim numShards}
    (first : c.SameEngines middle) (second : middle.SameEngines c') : c.SameEngines c' :=
  ⟨second.engines.trans first.engines, second.storage.trans first.storage⟩

theorem Cluster.sameEngines_foldl {α : Type} {f : Cluster dim numShards → α → Cluster dim numShards}
    (same : ∀ c a, SameEngines c (f c a)) (items : List α) (c : Cluster dim numShards) :
    c.SameEngines (items.foldl f c) := by
  induction items generalizing c with
  | nil => exact ⟨rfl, rfl⟩
  | cons a items ih => exact (same c a).trans (ih (f c a))

theorem Cluster.sameEngines_withdraw (c : Cluster dim numShards) (segmentId : String) :
    c.SameEngines (c.withdraw segmentId) := ⟨rfl, rfl⟩

theorem Cluster.sameEngines_announce (c : Cluster dim numShards) (segMeta : SegmentMeta) :
    c.SameEngines (c.announce segMeta) := by
  unfold announce
  split <;> exact ⟨rfl, rfl⟩

theorem Cluster.sameEngines_register (c : Cluster dim numShards) :
    c.SameEngines c.registerUnregisteredSegments :=
  (sameEngines_foldl sameEngines_withdraw _ c).trans (sameEngines_foldl sameEngines_announce _ _)

/-! ## The calls on single shards -/

variable [NeZero numShards]

/-- The call as an engine sees it. -/
def Call.op : Call dim → Op dim
  | .insert rows => .insert rows
  | .delete ids => .delete ids

variable (numShards) in
/-- The calls on single shards that a call on the writer makes, in order. -/
def Call.parts : Call dim → List (Fin numShards × Call dim)
  | .insert rows =>
      if numShards = 1 then [(0, .insert rows)]
      else (Cluster.rowGroups rows).map fun group => (group.1, .insert group.2)
  | .delete ids =>
      if numShards = 1 then [(0, .delete ids)]
      else (Cluster.idGroups ids).map fun group => (group.1, .delete group.2)

omit [NeZero numShards] in
/-- A call on the engine of one shard. -/
def Cluster.shardStep (env : Env) (c : Cluster dim numShards) (part : Fin numShards × Call dim) :
    Except PyError (Cluster dim numShards) := do
  let n ← (c.node part.1).run env part.2.op
  .ok (c.setNode part.1 n)

namespace Cluster

omit [NeZero numShards]

theorem shardStep_of_onShard {α : Type} {c : Cluster dim numShards} {shard : Fin numShards}
    {request : Call dim} {call : Node dim → Except PyError (α × Node dim)}
    (same : ∀ n, Node.run env n request.op = (call n).map Prod.snd)
    {done : α × Cluster dim numShards} (ran : c.onShard shard call = .ok done) :
    c.shardStep env (shard, request) = .ok done.2 := by
  obtain ⟨called, here, rest⟩ := ok_of_bind ran
  cases rest
  simp only [shardStep, same, here]
  rfl

/-- A loop over the shards is the run of its calls. -/
theorem runAll_of_foldlM {α β γ : Type} (request : β → Call dim)
    (call : β → Node dim → Except PyError (α × Node dim)) (merge : γ → α → γ)
    (same : ∀ b n, Node.run env n (request b).op = (call b n).map Prod.snd)
    {groups : List (Fin numShards × β)} {state final : γ × Cluster dim numShards}
    (ran : groups.foldlM (fun (state : γ × Cluster dim numShards) group => do
      let done ← state.2.onShard group.1 (call group.2)
      .ok (merge state.1 done.1, done.2)) state = .ok final) :
    runAll (shardStep env) state.2 (groups.map fun group => (group.1, request group.2)) =
      .ok final.2 := by
  induction groups generalizing state with
  | nil =>
      cases ran
      rfl
  | cons group groups ih =>
      obtain ⟨middle, here, rest⟩ := runAll_cons_inv ran
      obtain ⟨done, called, stored⟩ := ok_of_bind here
      cases stored
      rw [List.map_cons, runAll_cons (shardStep_of_onShard (same group.2) called)]
      exact ih rest

end Cluster

omit [NeZero numShards] in
/-- An insert ends with a registration pass, a delete does not. -/
def Cluster.finish (written : Cluster dim numShards) : Call dim → Cluster dim numShards
  | .insert _ => written.registerUnregisteredSegments
  | .delete _ => written

omit [NeZero numShards] in
theorem Cluster.sameEngines_finish (written : Cluster dim numShards) (request : Call dim) :
    written.SameEngines (written.finish request) := by
  cases request with
  | insert rows => exact sameEngines_register written
  | delete ids => exact ⟨rfl, rfl⟩

/-- A completed call on the writer is a run of its parts. -/
theorem parts_of_call {c c' : Cluster dim numShards} {request : Call dim}
    (ran : c.call env request = .ok c') :
    ∃ written, runAll (Cluster.shardStep env) c (request.parts numShards) = .ok written ∧
      c' = written.finish request := by
  cases request with
  | insert rows =>
      obtain ⟨reply, inserted, rfl⟩ := ok_of_map ran
      obtain ⟨checked, prepared, rest⟩ := ok_of_bind inserted
      rw [prepareRows_batch, Except.ok.injEq] at prepared
      subst prepared
      obtain ⟨written, ranParts, rest⟩ := ok_of_bind rest
      obtain ⟨h, -, rest⟩ := ok_of_bind rest
      cases rest
      refine ⟨written.2, ?_, rfl⟩
      unfold Cluster.insertOnShards at ranParts
      split at ranParts
      · next one =>
          rw [Call.parts, if_pos one, runAll_cons (Cluster.shardStep_of_onShard (fun n => rfl) ranParts)]
          rfl
      · next many =>
          rw [Call.parts, if_neg many]
          exact Cluster.runAll_of_foldlM Call.insert
            (fun rows => LSMEngine.insert env (batchIds rows) (batchVectors rows)) Cluster.addResult
            (fun rows n => rfl) ranParts
  | delete ids =>
      obtain ⟨reply, deleted, rfl⟩ := ok_of_map ran
      obtain ⟨written, ranParts, rest⟩ := ok_of_bind deleted
      obtain ⟨h, -, rest⟩ := ok_of_bind rest
      cases rest
      refine ⟨written.2, ?_, rfl⟩
      unfold Cluster.deleteOnShards at ranParts
      split at ranParts
      · next one =>
          rw [Call.parts, if_pos one, runAll_cons (Cluster.shardStep_of_onShard (fun n => rfl) ranParts)]
          rfl
      · next many =>
          rw [Call.parts, if_neg many]
          exact Cluster.runAll_of_foldlM Call.delete (LSMEngine.delete env) max (fun ids n => rfl)
            ranParts

/-- Different parts are on different shards. -/
theorem nodup_parts (request : Call dim) :
    ((request.parts numShards).map Prod.fst).Nodup := by
  cases request with
  | insert rows =>
      rw [Call.parts]
      split
      · exact List.nodup_singleton _
      · rw [List.map_map]
        exact Dict.keys_nodup _
  | delete ids =>
      rw [Call.parts]
      split
      · exact List.nodup_singleton _
      · rw [List.map_map]
        exact Dict.keys_nodup _

/-- The ids a call names. -/
def Call.ids : Call dim → List ℤ
  | .insert rows => batchIds rows
  | .delete ids => ids

/-- The ids of a call are int64. -/
def Call.Int64 (request : Call dim) : Prop := ∀ x ∈ request.ids, IsInt64 x

instance (request : Call dim) : Decidable request.Int64 :=
  inferInstanceAs (Decidable (∀ x ∈ request.ids, IsInt64 x))

omit [NeZero numShards] in
theorem Call.Int64.op {request : Call dim} (int64 : request.Int64) : request.op.Int64 := by
  cases request with
  | insert rows => exact fun row member => int64 row.1 (List.mem_map_of_mem member)
  | delete ids => exact int64

/-- What a call asks of one shard. -/
def Call.within (shard : Fin numShards) : Call dim → Call dim
  | .insert rows => .insert (rows.filter fun row => shardOf numShards row.1 = shard)
  | .delete ids => .delete (ids.filter fun x => shardOf numShards x = shard)

theorem part_eq_within {request part : Call dim} {shard : Fin numShards}
    (member : (shard, part) ∈ request.parts numShards) : part = request.within shard := by
  have only : numShards = 1 → ∀ x, shardOf numShards x = shard := by
    intro one x
    subst one
    exact Subsingleton.elim _ _
  cases request with
  | insert rows =>
      rw [Call.parts] at member
      split at member
      · next one =>
          have whole := List.filter_eq_self.mpr fun row (_ : row ∈ rows) =>
            decide_eq_true (only one row.1)
          rw [Call.within, whole]
          exact congrArg Prod.snd (List.mem_singleton.mp member)
      · rcases List.mem_map.mp member with ⟨group, grouped, same⟩
        cases same
        rw [Call.within, Dict.group_of_mem grouped]
  | delete ids =>
      rw [Call.parts] at member
      split at member
      · next one =>
          have whole := List.filter_eq_self.mpr fun x (_ : x ∈ ids) =>
            decide_eq_true (only one x)
          rw [Call.within, whole]
          exact congrArg Prod.snd (List.mem_singleton.mp member)
      · rcases List.mem_map.mp member with ⟨group, grouped, same⟩
        cases same
        rw [Call.within, Dict.group_of_mem grouped]

/-- A part names ids of the call, all of them ids of its shard. -/
theorem mem_ids_of_part {request part : Call dim} {shard : Fin numShards}
    (member : (shard, part) ∈ request.parts numShards) {x : ℤ} (named : x ∈ part.ids) :
    x ∈ request.ids ∧ shardOf numShards x = shard := by
  rw [part_eq_within member] at named
  cases request with
  | insert rows =>
      rcases List.mem_map.mp named with ⟨row, inGroup, rfl⟩
      rw [List.mem_filter, decide_eq_true_eq] at inGroup
      exact ⟨List.mem_map_of_mem inGroup.1, inGroup.2⟩
  | delete ids =>
      rw [Call.within, Call.ids, List.mem_filter, decide_eq_true_eq] at named
      exact named

/-! ## Every shard has a layout -/

omit [NeZero numShards]

/-- Every shard has its engine, with a layout on the storage that they share. -/
structure Cluster.Sound (env : Env) (c : Cluster dim numShards) : Prop where
  shardId : ∀ shard, (c.writer.engines shard).shardId = shard
  layout : ∀ shard, ∃ old recent, Layout env (c.node shard) old recent

namespace Cluster

@[simp] theorem node_setNode (c : Cluster dim numShards) (shard : Fin numShards) (n : Node dim) :
    (c.setNode shard n).node shard = n := by
  simp [node, setNode]

theorem engines_setNode (c : Cluster dim numShards) {shard other : Fin numShards}
    (different : other ≠ shard) (n : Node dim) :
    (c.setNode shard n).writer.engines other = c.writer.engines other :=
  Function.update_of_ne different _ _

theorem SameEngines.sound {c c' : Cluster dim numShards} (same : c.SameEngines c')
    (sound : c.Sound env) : c'.Sound env := by
  refine ⟨fun shard => ?_, fun shard => ?_⟩
  · rw [same.engines]
    exact sound.shardId shard
  · have node : c'.node shard = c.node shard := by rw [node, node, same.engines, same.storage]
    rw [node]
    exact sound.layout shard

/-- How a completed call on one shard went. -/
structure Stepped (env : Env) (c : Cluster dim numShards) (shard : Fin numShards)
    (request : Call dim) (c' : Cluster dim numShards) : Prop where
  sound : c'.Sound env
  ran : ∃ old recent, Layout env (c.node shard) old recent ∧
    Ran env (c.node shard) (old ++ recent) request.op (c'.node shard)
  others : ∀ other, other ≠ shard → c'.writer.engines other = c.writer.engines other
  grows : SharedStorage.Grows env.uuid c.storage c'.storage
  registry : c'.registry = c.registry ∧
    c'.writer.registeredSegments = c.writer.registeredSegments

/-- **The step lemma.**  A call on one shard keeps the layout of every shard. -/
theorem Sound.shardStep {c c' : Cluster dim numShards} (sound : c.Sound env)
    {shard : Fin numShards} {request : Call dim} (int64 : request.Int64)
    (ran : c.shardStep env (shard, request) = .ok c') : Stepped env c shard request c' := by
  obtain ⟨n, ranNode, stored⟩ := ok_of_bind ran
  cases stored
  obtain ⟨old, recent, layout⟩ := sound.layout shard
  have step := run_cases layout int64.op ranNode
  have apart := step.apart layout rfl
  obtain ⟨old', recent', after⟩ := step.layout layout
  refine ⟨⟨fun other => ?_, fun other => ?_⟩, ⟨old, recent, layout, ?_⟩,
    fun other different => engines_setNode c different n, apart.grows, rfl, rfl⟩
  · rcases eq_or_ne other shard with rfl | different
    · have engine : (c.setNode other n).writer.engines other = n.engine := Function.update_self _ _ _
      rw [engine, apart.shardId]
      exact sound.shardId other
    · rw [engines_setNode c different]
      exact sound.shardId other
  · rcases eq_or_ne other shard with rfl | different
    · rw [node_setNode]
      exact ⟨old', recent', after⟩
    · obtain ⟨theirs, theirs', theirLayout⟩ := sound.layout other
      have shards : (c.writer.engines other).shardId ≠ (c.node shard).engine.shardId := by
        change _ ≠ (c.writer.engines shard).shardId
        rw [sound.shardId, sound.shardId]
        exact fun same => different (Fin.ext same)
      have kept := Layout.of_apart theirLayout shards apart after
      refine ⟨theirs, theirs', ?_⟩
      rw [node, engines_setNode c different]
      exact kept
  · rw [node_setNode]
    exact step

/-- What calls on some shards keep. -/
theorem Sound.runParts {parts : List (Fin numShards × Call dim)}
    (int64 : ∀ part ∈ parts, part.2.Int64) {c c' : Cluster dim numShards} (sound : c.Sound env)
    (ran : runAll (Cluster.shardStep env) c parts = .ok c') :
    c'.Sound env ∧ SharedStorage.Grows env.uuid c.storage c'.storage ∧ c'.registry = c.registry ∧
      c'.writer.registeredSegments = c.writer.registeredSegments := by
  induction parts generalizing c with
  | nil =>
      cases ran
      exact ⟨sound, .of_dirs env.uuid rfl rfl, rfl, rfl⟩
  | cons part parts ih =>
      obtain ⟨middle, here, rest⟩ := runAll_cons_inv ran
      have stepped := sound.shardStep (int64 part List.mem_cons_self) here
      obtain ⟨sound', grows, registry, remembered⟩ :=
        ih (fun later member => int64 later (List.mem_cons_of_mem _ member)) stepped.sound rest
      exact ⟨sound', stepped.grows.trans grows, registry.trans stepped.registry.1,
        remembered.trans stepped.registry.2⟩

/-! ## Start -/

variable (env) in
/-- The engines of a writer on empty directories start one after the other. -/
theorem startEngines_fresh (settings : Settings) {shards : List (Fin numShards)}
    (nodup : shards.Nodup) {c : Cluster dim numShards} (storage : c.storage = SharedStorage.empty)
    (unstarted : ∀ shard ∈ shards,
      c.writer.engines shard = LSMEngine.new (settings.engine shard) ⟨none, .absent⟩)
    (fresh : ∀ shard : Fin numShards, shard ∉ shards → Fresh env (settings.engine shard) (c.node shard)) :
    ∃ c', shards.foldlM (startEngine env) c = .ok c' ∧ c'.storage = SharedStorage.empty ∧
      c'.registry = c.registry ∧
      ∀ shard : Fin numShards, Fresh env (settings.engine shard) (c'.node shard) := by
  induction shards generalizing c with
  | nil => exact ⟨c, rfl, storage, rfl, fun shard => fresh shard List.not_mem_nil⟩
  | cons first rest ih =>
      rcases List.nodup_cons.mp nodup with ⟨absent, nodupRest⟩
      obtain ⟨n, booted, new⟩ := boot_fresh dim env (settings.engine first)
      have start : LSMEngine.start env (c.node first) = .ok n := by
        rw [node, unstarted first List.mem_cons_self, storage]
        exact booted
      have ran : startEngine env c first = .ok (c.setNode first n) := by
        rw [startEngine, start]
        rfl
      have emptied : (c.setNode first n).storage = SharedStorage.empty := new.storage
      obtain ⟨c', ranRest, storage', registry, fresh'⟩ := ih nodupRest emptied
        (fun shard member => by
          have different : shard ≠ first := fun same => absent (same ▸ member)
          rw [engines_setNode c different]
          exact unstarted shard (List.mem_cons_of_mem _ member))
        (fun shard notLater => by
          rcases eq_or_ne shard first with rfl | different
          · rw [node_setNode]
            exact new
          · have before := fresh shard (by simp [different, notLater])
            rw [node, engines_setNode c different, emptied]
            rwa [node, storage] at before)
      refine ⟨c', ?_, storage', registry, fresh'⟩
      rw [List.foldlM_cons, ran]
      exact ranRest

/-- What a writer is before the registration pass of its start. -/
structure Started (env : Env) (settings : Settings) (c : Cluster dim numShards) : Prop where
  storage : c.storage = SharedStorage.empty
  registry : c.registry = Registry.empty
  fresh : ∀ shard : Fin numShards, Fresh env (settings.engine shard) (c.node shard)

theorem Started.sound {settings : Settings} {c : Cluster dim numShards}
    (started : Started env settings c) : c.Sound env :=
  ⟨fun shard => (started.fresh shard).shardId, fun shard => ⟨[], [], (started.fresh shard).layout⟩⟩

/-- A writer that starts on empty directories. -/
theorem boot_ok (dim numShards : ℕ) (env : Env) (settings : Settings) :
    ∃ c : Cluster dim numShards, Started env settings c ∧
      boot env settings = .ok c.loadRegisteredSegments.registerUnregisteredSegments := by
  let begun : Cluster dim numShards := new settings SharedStorage.empty Registry.empty
  obtain ⟨c, ran, storage, registry, fresh⟩ := startEngines_fresh env settings
    (List.nodup_finRange numShards) (c := begun) rfl (fun shard _ => rfl)
    (fun shard absent => absurd (List.mem_finRange shard) absent)
  refine ⟨c, ⟨storage, registry, fresh⟩, ?_⟩
  rw [boot, start]
  change (List.finRange numShards).foldlM (startEngine env) begun >>= _ = _
  rw [ran]
  rfl

theorem sameEngines_load (c : Cluster dim numShards) :
    c.SameEngines c.loadRegisteredSegments := ⟨rfl, rfl⟩

theorem sameEngines_boot (c : Cluster dim numShards) :
    c.SameEngines c.loadRegisteredSegments.registerUnregisteredSegments :=
  c.sameEngines_load.trans (sameEngines_register _)

end Cluster

end VecScale
