import VecScale.Writer.Shards

/-!
# Calls in pieces

A reader works on the same files and asks the same coordinator while a call of the
writer is under way.  Here a call is cut where the reader can see the difference:
`insert` before the flush, `flush` before the merge, `merge` into the sections that
write, commit and remove, and a registration pass into its requests and answers.

* `LSMEngine.insert_eq`, `LSMEngine.flush_eq`: the calls, put together again;
* `LSMEngine.merge_reaches`: a merge is the run of its sections;
* `Cluster.register_reaches`: a registration pass is the run of its steps.
-/

namespace VecScale

variable {dim numShards : ℕ} {env : Env}

/-- Where a merge stands between two sections. -/
inductive MergeStage (dim : ℕ)
  | begun (toMerge remaining : List (Segment dim))
  | written (toMerge segments : List (Segment dim)) (cleaned : Finset ℤ)
  | removing (paths : List String)
  deriving DecidableEq

/-- Where a registration pass stands: before a request is handled by the coordinator,
or before its answer is handled by the writer. -/
inductive RegistrationPass
  | listing (localIds : List String)
  | withdrawing (names : List String)
  | withdrawn (name : String) (names : List String)
  | announcing (metas : List SegmentMeta)
  | registering (segMeta : SegmentMeta) (metas : List SegmentMeta)
  | registered (segMeta : SegmentMeta) (metas : List SegmentMeta)
  deriving DecidableEq

namespace LSMEngine

/-! ## Insert and flush -/

/-- `insert` up to the flush. -/
def logInsert (env : Env) (ids : List ℤ) (vectors : List (List UInt32)) (n : Node dim) :
    Except PyError (ℕ × Node dim) := do
  ensureStarted n
  let rows ← prepareRows dim ids vectors
  let appended := n.engine.wal.append env.crc32 dim OP_INSERT ids vectors
  let lsn ← appended.1
  .ok (lsn, applyInsert n appended.2 lsn rows)

/-- `flush` up to the merge. -/
def flushMemtable (env : Env) (n : Node dim) : Except PyError (Option (Segment dim) × Node dim) := do
  ensureStarted n
  let captured := captureDeletes n
  if captured.engine.memtable.toArrays none = [] ∨ captured.engine.memtable.maxLsn = 0 then
    .ok (none, clearMemtable captured)
  else
    let sealedMem := sealMemtable env captured
    .ok (some sealedMem.1, sealedMem.2)

theorem insert_eq (ids : List ℤ) (vectors : List (List UInt32)) (n : Node dim) :
    insert env ids vectors n = (do
      let written ← logInsert env ids vectors n
      if written.2.engine.memtable.shouldFlush then
        let flushed ← flush env written.2
        .ok (⟨written.1, flushed.1.isSome⟩, flushed.2)
      else .ok (⟨written.1, false⟩, written.2)) := by
  unfold insert logInsert
  cases ensureStarted n with
  | error e => rfl
  | ok started =>
      cases prepareRows dim ids vectors with
      | error e => rfl
      | ok rows =>
          cases appended : (n.engine.wal.append env.crc32 dim OP_INSERT ids vectors).1 with
          | error e => simp only [appended, bind, Except.bind]
          | ok lsn => simp only [appended, bind, Except.bind]

theorem flush_eq (n : Node dim) : flush env n = (do
    let flushed ← flushMemtable env n
    match flushed.1 with
    | none => .ok flushed
    | some _ =>
        if flushed.2.engine.mergeThreshold ≤ flushed.2.engine.segments.length then
          let merged ← merge env flushed.2
          .ok (flushed.1, merged.2)
        else .ok flushed) := by
  unfold flush flushMemtable
  cases ensureStarted n with
  | error e => rfl
  | ok started =>
      simp only [bind, Except.bind]
      split <;> rfl

/-- `stop` behind the flush. -/
def close (n : Node dim) : Node dim :=
  { n with engine := { n.engine with wal := n.engine.wal.close, started := false } }

theorem stop_eq (n : Node dim) : stop env n = (do
    let flushed ← flush env n
    .ok (close flushed.2)) := rfl

/-! ## Merge -/

/-- The first section of `merge`. -/
def beginMerge (n : Node dim) : Except PyError (Option (MergeStage dim)) := do
  ensureStarted n
  if n.engine.segments.length < n.engine.mergeThreshold then .ok none
  else .ok (some (.begun n.engine.toMerge n.engine.remaining))

/-- The next section of a merge: read the segments and write the merged one, then
commit, then remove one directory after the other. -/
def mergeSection (env : Env) (n : Node dim) :
    MergeStage dim → Except PyError (Node dim × Option (MergeStage dim))
  | .begun toMerge remaining => do
      let latest ← gatherLatest n.storage toMerge
      let rows := keptRows latest n.engine.tombstones
      let cleaned := cleanedTombstones latest n.engine.tombstones
      if rows = [] then .ok (n, some (.written toMerge remaining cleaned))
      else
        let created := Segment.create env.uuid n.engine.shardId (maxSnapshot toMerge) rows
          n.engine.nlist n.storage
        .ok ({ n with storage := created.2 },
          some (.written toMerge (sortSegments (created.1 :: remaining)) cleaned))
  | .written toMerge segments cleaned =>
      .ok (commitMerge n segments cleaned, some (.removing (toMerge.map Segment.path)))
  | .removing [] => .ok (n, none)
  | .removing (path :: paths) =>
      .ok ({ n with storage := n.storage.rmtree path }, some (.removing paths))

/-- One section of a merge that is under way. -/
inductive SectionStep (env : Env) : Node dim × Option (MergeStage dim) →
    Node dim × Option (MergeStage dim) → Prop
  | next {n : Node dim} {stage : MergeStage dim} {after : Node dim × Option (MergeStage dim)}
      (ran : mergeSection env n stage = .ok after) : SectionStep env (n, some stage) after

theorem removing_reaches (n : Node dim) (paths : List String) :
    Relation.ReflTransGen (SectionStep env) (n, some (.removing paths))
      ({ n with storage := n.storage.rmtreeAll paths }, none) := by
  induction paths generalizing n with
  | nil => exact .single (.next rfl)
  | cons path paths ih => exact .head (.next rfl) (ih { n with storage := n.storage.rmtree path })

theorem written_reaches (n : Node dim) (toMerge segments : List (Segment dim))
    (cleaned : Finset ℤ) :
    Relation.ReflTransGen (SectionStep env) (n, some (.written toMerge segments cleaned))
      (removeMerged (commitMerge n segments cleaned) toMerge, none) :=
  .head (.next rfl) (removing_reaches _ _)

/-- **A merge is the run of its sections.** -/
theorem merge_reaches {n n' : Node dim} {out : Option (Segment dim)}
    (ran : merge env n = .ok (out, n')) : (beginMerge n = .ok none ∧ n' = n) ∨
      ∃ stage, beginMerge n = .ok (some stage) ∧
        Relation.ReflTransGen (SectionStep env) (n, some stage) (n', none) := by
  obtain ⟨started, here, ran⟩ := ok_of_bind ran
  simp only [beginMerge, here, bind, Except.bind]
  split at ran
  · next few =>
      cases ran
      exact Or.inl ⟨if_pos few, rfl⟩
  · next enough =>
      refine Or.inr ⟨_, if_neg enough, ?_⟩
      obtain ⟨latest, gathered, ran⟩ := ok_of_bind ran
      dsimp only at ran
      split at ran
      · next nothing =>
          cases ran
          refine .head (.next ?_) (written_reaches _ _ _ _)
          simp only [mergeSection, gathered, bind, Except.bind, if_pos nothing]
      · next something =>
          cases ran
          refine .head (.next ?_) (written_reaches _ _ _ _)
          simp only [mergeSection, gathered, bind, Except.bind, if_neg something]

end LSMEngine

/-! ## Registration -/

namespace Cluster

/-- The first lines of `register_unregistered_segments`. -/
def beginPass (c : Cluster dim numShards) : RegistrationPass :=
  .listing (c.writer.segments.map Segment.segmentId)

/-- The next step of a pass: the coordinator handles a request, or the writer an answer. -/
def passStep (c : Cluster dim numShards) :
    RegistrationPass → Cluster dim numShards × Option RegistrationPass
  | .listing localIds =>
      (c, some (.withdrawing
        ((stale numShards localIds c.registry.listSegments).map SegmentMeta.segmentId)))
  | .withdrawing (name :: names) =>
      ({ c with registry := c.registry.deleteSegment name }, some (.withdrawn name names))
  | .withdrawing [] => (c, some (.announcing (c.writer.segments.map Segment.segMeta)))
  | .withdrawn name names =>
      ({ c with writer := { c.writer with
        registeredSegments := c.writer.registeredSegments.erase name } },
        some (.withdrawing names))
  | .announcing (segMeta :: metas) =>
      if segMeta.segmentId ∈ c.writer.registeredSegments then (c, some (.announcing metas))
      else (c, some (.registering segMeta metas))
  | .announcing [] => (c, none)
  | .registering segMeta metas =>
      ({ c with registry := c.registry.registerSegment segMeta },
        some (.registered segMeta metas))
  | .registered segMeta metas =>
      ({ c with writer := { c.writer with
        registeredSegments := Insert.insert segMeta.segmentId c.writer.registeredSegments } },
        some (.announcing metas))

theorem sameEngines_passStep (c : Cluster dim numShards) (pass : RegistrationPass) :
    c.SameEngines (c.passStep pass).1 := by
  cases pass with
  | listing localIds => exact ⟨rfl, rfl⟩
  | withdrawing names => cases names <;> exact ⟨rfl, rfl⟩
  | withdrawn name names => exact ⟨rfl, rfl⟩
  | announcing metas =>
      cases metas with
      | nil => exact ⟨rfl, rfl⟩
      | cons first metas =>
          simp only [passStep]
          split <;> exact ⟨rfl, rfl⟩
  | registering first metas => exact ⟨rfl, rfl⟩
  | registered first metas => exact ⟨rfl, rfl⟩

/-- One step of a pass that is under way. -/
inductive PassStep : Cluster dim numShards × Option RegistrationPass →
    Cluster dim numShards × Option RegistrationPass → Prop
  | next {c : Cluster dim numShards} {pass : RegistrationPass} :
      PassStep (c, some pass) (c.passStep pass)

theorem announce_reaches (c : Cluster dim numShards) (segMeta : SegmentMeta)
    (metas : List SegmentMeta) :
    Relation.ReflTransGen PassStep (c, some (.announcing (segMeta :: metas)))
      (c.announce segMeta, some (.announcing metas)) := by
  have first : PassStep (c, some (.announcing (segMeta :: metas))) _ := .next
  unfold announce
  by_cases known : segMeta.segmentId ∈ c.writer.registeredSegments
  · rw [if_pos known]
    rw [passStep, if_pos known] at first
    exact .single first
  · rw [if_neg known]
    rw [passStep, if_neg known] at first
    exact .head first (.head .next (.single .next))

theorem announcing_reaches (c : Cluster dim numShards) (metas : List SegmentMeta) :
    Relation.ReflTransGen PassStep (c, some (.announcing metas))
      (metas.foldl announce c, none) := by
  induction metas generalizing c with
  | nil => exact .single .next
  | cons segMeta metas ih => exact (announce_reaches c segMeta metas).trans (ih (c.announce segMeta))

theorem withdrawing_reaches (c : Cluster dim numShards) (names : List String) :
    Relation.ReflTransGen PassStep (c, some (.withdrawing names))
      ((c.writer.segments.map Segment.segMeta).foldl announce (names.foldl withdraw c), none) := by
  induction names generalizing c with
  | nil => exact .head .next (announcing_reaches c _)
  | cons name names ih => exact .head .next (.head .next (ih (c.withdraw name)))

/-- **A registration pass is the run of its steps.** -/
theorem register_reaches (c : Cluster dim numShards) :
    Relation.ReflTransGen PassStep (c, some c.beginPass)
      (c.registerUnregisteredSegments, none) :=
  .head .next (withdrawing_reaches c _)

end Cluster

end VecScale
