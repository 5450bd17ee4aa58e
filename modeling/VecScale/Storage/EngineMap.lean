import VecScale.Storage.Consistent

/-!
# The engine as a map

`Op.applyTo` is what a call does to the map from ids to vectors that the engine
is for.  An engine restarted with one merge threshold only shows exactly that
map.

* `lookup_of_history`: what a run shows, id by id;
* `engine_refines_map`: the rows of a default-snapshot search and `ntotal`.
-/

namespace VecScale

variable {dim : ℕ} {env : Env} {config : EngineConfig}

/-- A call, on the map from ids to vectors. -/
def Op.applyTo (live : Dict ℤ (Vec dim)) : Op dim → Dict ℤ (Vec dim)
  | .insert rows => live.setAll rows
  | .delete ids => live.eraseAll ids
  | _ => live

/-- The map after some calls. -/
def liveRows (ops : List (Op dim)) : Dict ℤ (Vec dim) := ops.foldl Op.applyTo ∅

theorem Op.get?_applyTo (live : Dict ℤ (Vec dim)) (op : Op dim) (x : ℤ) :
    (op.applyTo live).get? x = op.update x (live.get? x) := by
  cases op with
  | insert rows => exact Dict.get?_setAll live rows x
  | delete ids => exact Dict.get?_eraseAll live ids x
  | flush => rfl
  | merge => rfl
  | restart mergeThreshold => rfl

theorem liveRows_concat (ops : List (Op dim)) (op : Op dim) :
    liveRows (ops ++ [op]) = op.applyTo (liveRows ops) := by
  rw [liveRows, List.foldl_append]
  rfl

/-- An engine after the calls of `history`, restarted with one merge threshold only. -/
structure Mirrors (env : Env) (config : EngineConfig) (history : List (Op dim)) (n : Node dim)
    (log : List (WALRecord dim)) : Prop where
  consistent : Consistent n log
  mergeThreshold : n.engine.mergeThreshold = config.mergeThreshold
  shown : ∀ x, n.engine.lookup x = (liveRows history).get? x

theorem Fresh.mirrors {n : Node dim} (fresh : Fresh env config n)
    (positive : 0 < config.mergeThreshold) : Mirrors env config [] n [] := by
  have entries : ∀ x, n.engine.memtable.entries.get? x = none := fun x => fresh.layout.memtable x
  refine ⟨⟨?_, ?_, fun x e entry => ?_⟩, fresh.mergeThreshold, fun x => ?_⟩
  · rw [fresh.storage, fresh.tombstones]
    rfl
  · rw [fresh.segments, fresh.mergeThreshold]
    exact positive
  · cases entry
  · simp [LSMEngine.lookup, fresh.tombstones, entries, fresh.segments, liveRows]

/-- What a run of a new engine shows, id by id. -/
theorem lookup_of_history {ops : List (Op dim)} (atLeastTwo : 2 ≤ config.mergeThreshold)
    (int64 : ∀ op ∈ ops, op.Int64) (keeps : ∀ op ∈ ops, op.Keeps config.mergeThreshold)
    {final : Node dim} (ran : Node.history env config ops = .ok final) :
    ∃ old recent, Layout env final old recent ∧ Mirrors env config ops final (old ++ recent) := by
  refine history_carries (C := fun op => op.Int64 ∧ op.Keeps config.mergeThreshold)
    (R := fun history n old recent => Mirrors env config history n (old ++ recent))
    (fun op both => both.1) (fun n fresh => fresh.mirrors (by omega)) ?_
    (fun op member => ⟨int64 op member, keeps op member⟩) ran
  intro history n old recent op n' layout mirrors meets step
  have threshold := mirrors.mergeThreshold
  obtain ⟨old', recent', after, consistent, same, shown⟩ := step.consistent layout
    mirrors.consistent (threshold ▸ atLeastTwo) (threshold.symm ▸ meets.2)
  refine ⟨old', recent', after, consistent, same.trans threshold, fun x => ?_⟩
  rw [shown, mirrors.shown, liveRows_concat, Op.get?_applyTo]

/-- **The engine refines a map.**  After any completed calls and graceful restarts,
a default-snapshot search exposes exactly the rows of the map, one for each id,
and `ntotal` is the number of its ids. -/
theorem engine_refines_map {ops : List (Op dim)} (atLeastTwo : 2 ≤ config.mergeThreshold)
    (int64 : ∀ op ∈ ops, op.Int64) (keeps : ∀ op ∈ ops, op.Keeps config.mergeThreshold)
    {final : Node dim} (ran : Node.history env config ops = .ok final) :
    (∃ rows, LSMEngine.exposed final = .ok rows ∧ (batchIds rows).Nodup ∧
      ∀ x v, (x, v) ∈ rows ↔ (liveRows ops).get? x = some v) ∧
    ∃ health, LSMEngine.health final = .ok health ∧ health.ntotal = (liveRows ops).length := by
  obtain ⟨old, recent, layout, mirrors⟩ := lookup_of_history atLeastTwo int64 keeps ran
  constructor
  · obtain ⟨rows, exposed, nodup, iff⟩ := exposed_of_settled layout.segments layout.settled
    refine ⟨rows, exposed, nodup, fun x v => ?_⟩
    rw [iff, mirrors.shown]
  · obtain ⟨live, total, iff⟩ := ntotal_of_layout layout
    have same : live = (liveRows ops).keys.toFinset := by
      ext x
      rw [iff, mirrors.shown, List.mem_toFinset, Dict.mem_keys_iff, Option.ne_none_iff_exists']
    refine ⟨_, by rw [LSMEngine.health, total]; rfl, ?_⟩
    change live.card = _
    rw [same, List.toFinset_card_of_nodup (Dict.keys_nodup _), Dict.keys, List.length_map,
      Dict.length]

/-- A batch that repeats an id, a delete behind a flush, a restart and a new insert. -/
def manyVersions : List (Op 1) :=
  [.insert [(7, zeroVec 1), (8, zeroVec 1), (7, zeroVec 1)], .flush, .delete [7], .restart 2,
    .insert [(7, zeroVec 1)], .flush, .delete [8]]

theorem engine_refines_map_manyVersions :
    ∃ final, Node.history Env.counted ⟨0, 1, 10, 2⟩ manyVersions = .ok final ∧
      (∃ rows, LSMEngine.exposed final = .ok rows ∧ (batchIds rows).Nodup ∧
        ∀ x v, (x, v) ∈ rows ↔ (liveRows manyVersions).get? x = some v) ∧
      ∃ health, LSMEngine.health final = .ok health ∧
        health.ntotal = (liveRows manyVersions).length := by
  obtain ⟨final, ran⟩ : ∃ final, Node.history Env.counted ⟨0, 1, 10, 2⟩ manyVersions = .ok final :=
    exists_of_isOk (by decide +kernel)
  exact ⟨final, ran, engine_refines_map (by decide) (by decide) (by decide) ran⟩

end VecScale
