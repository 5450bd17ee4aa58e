import VecScale.Reader.Cache
import VecScale.Writer.Sections

/-!
# A writer at work and a reader

A `World` is a writer with merges and registration passes under way, and a reader
that may hold a segment list it has fetched but not yet used.  One `Action` is one
piece of a call, one step of a pass, or one thing the reader does; the actions come
in any order.

* `acted_of_step`: what an action can do.
-/

namespace VecScale

variable {dim numShards : ℕ} {env : Env}

structure World (dim numShards : ℕ) where
  cluster : Cluster dim numShards
  merges : Fin numShards → Option (MergeStage dim)
  passes : List RegistrationPass
  reader : SegmentCache dim
  fetched : Option (List SegmentMeta)

inductive Action (dim numShards : ℕ)
  | insert (shard : Fin numShards) (rows : List (Row dim))
  | delete (shard : Fin numShards) (ids : List ℤ)
  | flush (shard : Fin numShards)
  | close (shard : Fin numShards)
  | beginMerge (shard : Fin numShards)
  | merge (shard : Fin numShards)
  | beginPass
  | pass (i : ℕ)
  | fetch
  | refresh
  | search (snapshotId : ℕ)

namespace World

/-- A writer and a reader with nothing under way. -/
def idle (cluster : Cluster dim numShards) (reader : SegmentCache dim) : World dim numShards :=
  ⟨cluster, fun _ => none, [], reader, none⟩

/-- The next section of a merge. -/
def mergeStep (env : Env) (w : World dim numShards) (shard : Fin numShards)
    (stage : MergeStage dim) : Except PyError (World dim numShards) := do
  let done ← LSMEngine.mergeSection env (w.cluster.node shard) stage
  .ok { w with
    cluster := w.cluster.setNode shard done.1
    merges := Function.update w.merges shard done.2 }

/-- The next step of a pass. -/
def passStep (w : World dim numShards) (i : ℕ) (pass : RegistrationPass) : World dim numShards :=
  let done := w.cluster.passStep pass
  { w with
    cluster := done.1
    passes := match done.2 with
      | none => w.passes.eraseIdx i
      | some pass' => w.passes.set i pass' }

/-- `refresh` on a fetched list; the loop of the reader goes on when it raises. -/
def refreshStep (w : World dim numShards) (allSegments : List SegmentMeta) : World dim numShards :=
  { w with reader := (w.reader.refresh w.cluster.storage allSegments).2, fetched := none }

/-- One action; an action with nothing to do leaves everything as it is. -/
def step (env : Env) (w : World dim numShards) :
    Action dim numShards → Except PyError (World dim numShards)
  | .insert shard rows => do
      let done ← w.cluster.onShard shard
        (LSMEngine.logInsert env (batchIds rows) (batchVectors rows))
      .ok { w with cluster := done.2 }
  | .delete shard ids => do
      let done ← w.cluster.onShard shard (LSMEngine.delete env ids)
      .ok { w with cluster := done.2 }
  | .flush shard => do
      let done ← w.cluster.onShard shard (LSMEngine.flushMemtable env)
      .ok { w with cluster := done.2 }
  | .close shard => .ok { w with
      cluster := w.cluster.setNode shard (LSMEngine.close (w.cluster.node shard)) }
  | .beginMerge shard =>
      match w.merges shard with
      | some _ => .ok w
      | none => do
          let stage ← LSMEngine.beginMerge (w.cluster.node shard)
          .ok { w with merges := Function.update w.merges shard stage }
  | .merge shard =>
      match w.merges shard with
      | none => .ok w
      | some stage => w.mergeStep env shard stage
  | .beginPass => .ok { w with passes := w.passes ++ [w.cluster.beginPass] }
  | .pass i =>
      match w.passes[i]? with
      | none => .ok w
      | some pass => .ok (w.passStep i pass)
  | .fetch => .ok { w with fetched := some w.cluster.registry.listSegments }
  | .refresh =>
      match w.fetched with
      | none => .ok w
      | some allSegments => .ok (w.refreshStep allSegments)
  | .search snapshotId => .ok { w with reader := w.reader.touch snapshotId }

end World

/-- What an action does, if it has anything to do. -/
inductive Acted (env : Env) (w : World dim numShards) :
    Action dim numShards → World dim numShards → Prop
  | idle {action : Action dim numShards} : Acted env w action w
  | insert {shard : Fin numShards} {rows : List (Row dim)} {done : ℕ × Node dim}
      (ran : LSMEngine.logInsert env (batchIds rows) (batchVectors rows) (w.cluster.node shard) =
        .ok done) :
      Acted env w (.insert shard rows) { w with cluster := w.cluster.setNode shard done.2 }
  | delete {shard : Fin numShards} {ids : List ℤ} {done : ℕ × Node dim}
      (ran : LSMEngine.delete env ids (w.cluster.node shard) = .ok done) :
      Acted env w (.delete shard ids) { w with cluster := w.cluster.setNode shard done.2 }
  | flush {shard : Fin numShards} {done : Option (Segment dim) × Node dim}
      (ran : LSMEngine.flushMemtable env (w.cluster.node shard) = .ok done) :
      Acted env w (.flush shard) { w with cluster := w.cluster.setNode shard done.2 }
  | close {shard : Fin numShards} : Acted env w (.close shard)
      { w with cluster := w.cluster.setNode shard (LSMEngine.close (w.cluster.node shard)) }
  | beginMerge {shard : Fin numShards} {stage : Option (MergeStage dim)}
      (idle : w.merges shard = none)
      (ran : LSMEngine.beginMerge (w.cluster.node shard) = .ok stage) :
      Acted env w (.beginMerge shard) { w with merges := Function.update w.merges shard stage }
  | merge {shard : Fin numShards} {stage : MergeStage dim}
      {done : Node dim × Option (MergeStage dim)} (underWay : w.merges shard = some stage)
      (ran : LSMEngine.mergeSection env (w.cluster.node shard) stage = .ok done) :
      Acted env w (.merge shard) { w with
        cluster := w.cluster.setNode shard done.1
        merges := Function.update w.merges shard done.2 }
  | beginPass : Acted env w .beginPass { w with passes := w.passes ++ [w.cluster.beginPass] }
  | pass {i : ℕ} {pass : RegistrationPass} (underWay : w.passes[i]? = some pass) :
      Acted env w (.pass i) (w.passStep i pass)
  | fetch : Acted env w .fetch { w with fetched := some w.cluster.registry.listSegments }
  | refresh {allSegments : List SegmentMeta} (fetched : w.fetched = some allSegments) :
      Acted env w .refresh (w.refreshStep allSegments)
  | search (snapshotId : ℕ) :
      Acted env w (.search snapshotId) { w with reader := w.reader.touch snapshotId }

theorem acted_of_onShard {α : Type} {c : Cluster dim numShards} {shard : Fin numShards}
    {call : Node dim → Except PyError (α × Node dim)} {done : α × Cluster dim numShards}
    (ran : c.onShard shard call = .ok done) :
    ∃ called, call (c.node shard) = .ok called ∧ done.2 = c.setNode shard called.2 := by
  obtain ⟨called, here, rest⟩ := ok_of_bind ran
  cases rest
  exact ⟨called, here, rfl⟩

/-- The inversion lemma of `World.step`. -/
theorem acted_of_step {w w' : World dim numShards} {action : Action dim numShards}
    (ran : w.step env action = .ok w') : Acted env w action w' := by
  cases action with
  | insert shard rows =>
      obtain ⟨done, called, rest⟩ := ok_of_bind ran
      obtain ⟨result, here, same⟩ := acted_of_onShard called
      cases rest
      rw [same]
      exact .insert here
  | delete shard ids =>
      obtain ⟨done, called, rest⟩ := ok_of_bind ran
      obtain ⟨result, here, same⟩ := acted_of_onShard called
      cases rest
      rw [same]
      exact .delete here
  | flush shard =>
      obtain ⟨done, called, rest⟩ := ok_of_bind ran
      obtain ⟨result, here, same⟩ := acted_of_onShard called
      cases rest
      rw [same]
      exact .flush here
  | close shard =>
      cases ran
      exact .close
  | beginMerge shard =>
      simp only [World.step] at ran
      split at ran
      · cases ran
        exact .idle
      · next none =>
          obtain ⟨stage, here, rest⟩ := ok_of_bind ran
          cases rest
          exact .beginMerge none here
  | merge shard =>
      simp only [World.step] at ran
      split at ran
      · cases ran
        exact .idle
      · next stage underWay =>
          obtain ⟨done, here, rest⟩ := ok_of_bind ran
          cases rest
          exact .merge underWay here
  | beginPass =>
      cases ran
      exact .beginPass
  | pass i =>
      simp only [World.step] at ran
      split at ran
      · cases ran
        exact .idle
      · next pass underWay =>
          cases ran
          exact .pass underWay
  | fetch =>
      cases ran
      exact .fetch
  | refresh =>
      simp only [World.step] at ran
      split at ran
      · cases ran
        exact .idle
      · next allSegments fetched =>
          cases ran
          exact .refresh fetched
  | search snapshotId =>
      cases ran
      exact .search snapshotId

end VecScale
