import VecScale.Reader.Reach
import VecScale.Reader.Resurrection
import VecScale.Reader.Shelves
import VecScale.Storage.Consistent

/-!
# Merge, withdrawal, fetch

A reader is safe when it fetches the list only behind the pass that withdraws what merges
have taken, and when no merge commits between the fetch and the refresh.

* `World.Follows`: the names and paths that the coordinator, the passes and the reader know
  are those of the writer;
* `World.InOrder`: the order of merge, withdrawal and fetch;
* `Follows.inOrder_of_pass`: a pass that nothing interrupts makes the next fetch one in order;
* `refreshes_return_in_order`: in this order every refresh returns;
* `World.Buried`: no piece of a call brings an id back on the shelves;
* `no_resurrection_in_order`: in this order no search returns a deleted id again.
-/

namespace VecScale

variable {dim numShards : ℕ} {env : Env}

/-! ## Names and paths -/

/-- The path is the one that `Segment.create` gives to the name, and the shard is one of the
writer's. -/
structure SegmentMeta.Filed (numShards : ℕ) (segMeta : SegmentMeta) : Prop where
  path : segMeta.path = segmentPath segMeta.segmentId
  shard : segMeta.shardId < numShards

/-- A step of a pass registers what it has read from the engines. -/
theorem filed_passStep {c : Cluster dim numShards} {pass : RegistrationPass}
    (own : ∀ seg ∈ c.writer.segments, seg.segMeta.Filed numShards)
    (listed : ∀ segMeta ∈ c.registry.listSegments, segMeta.Filed numShards)
    (passing : ∀ segMeta ∈ pass.metas, segMeta.Filed numShards) :
    (∀ segMeta ∈ (c.passStep pass).1.registry.listSegments, segMeta.Filed numShards) ∧
      ∀ pass' ∈ (c.passStep pass).2, ∀ segMeta ∈ pass'.metas, segMeta.Filed numShards := by
  cases pass with
  | listing localIds =>
      refine ⟨listed, fun pass' next => ?_⟩
      cases next
      exact nofun
  | withdrawing names =>
      cases names with
      | nil =>
          refine ⟨listed, fun pass' next segMeta announced => ?_⟩
          cases next
          obtain ⟨seg, member, rfl⟩ := List.mem_map.mp announced
          exact own seg member
      | cons name names =>
          refine ⟨fun segMeta left => ?_, fun pass' next => ?_⟩
          · exact listed segMeta (Registry.mem_listSegments_deleteSegment.mp left).2
          · cases next
            exact nofun
  | withdrawn name names =>
      refine ⟨listed, fun pass' next => ?_⟩
      cases next
      exact nofun
  | announcing metas =>
      cases metas with
      | nil => exact ⟨listed, nofun⟩
      | cons first metas =>
          simp only [Cluster.passStep]
          split
          · refine ⟨listed, fun pass' next segMeta later => ?_⟩
            cases next
            exact passing segMeta (List.mem_cons_of_mem _ later)
          · refine ⟨listed, fun pass' next => ?_⟩
            cases next
            exact passing
  | registering first metas =>
      refine ⟨fun segMeta left => ?_, fun pass' next => ?_⟩
      · rw [Cluster.passStep, Registry.mem_listSegments_registerSegment] at left
        split at left
        · exact left ▸ passing first List.mem_cons_self
        · exact listed segMeta left
      · cases next
        exact passing
  | registered first metas =>
      refine ⟨listed, fun pass' next segMeta later => ?_⟩
      cases next
      exact passing segMeta (List.mem_cons_of_mem _ later)

/-! ## The reader and the shelves -/

namespace World

variable {w w' : World dim numShards} {shard : Fin numShards} {action : Action dim numShards}

/-- Every merged segment is withdrawn: the list names only segments that the writer has. -/
def Current (w : World dim numShards) (allSegments : List SegmentMeta) : Prop :=
  ∀ segMeta ∈ allSegments, ∃ seg ∈ w.cluster.writer.segments, seg.segmentId = segMeta.segmentId

instance (w : World dim numShards) (allSegments : List SegmentMeta) :
    Decidable (w.Current allSegments) :=
  inferInstanceAs (Decidable (∀ _ ∈ _, ∃ _ ∈ _, _))

theorem mem_segments {seg : Segment dim} :
    seg ∈ w.cluster.writer.segments ↔ ∃ shard, seg ∈ (w.shelf shard).segments := by
  simp only [WriterPipeline.segments, List.mem_flatMap, List.mem_finRange, true_and]
  rfl

theorem holds_of_mem {seg : Segment dim} (member : seg ∈ w.cluster.writer.segments) :
    w.Holds seg := by
  obtain ⟨shard, listed⟩ := mem_segments.mp member
  exact ⟨shard, List.mem_append_left _ listed⟩

theorem Shelved.filed (shelved : w.Shelved env) {seg : Segment dim} (holds : w.Holds seg) :
    seg.segMeta.Filed numShards := by
  obtain ⟨stored, -⟩ := shelved.stored seg holds
  obtain ⟨shard, held⟩ := holds
  have own := (shelved.sound shard).own seg held
  exact ⟨stored.metaPath.trans stored.path, own.trans_lt shard.isLt⟩

/-- The names and paths in use are the writer's, and what the reader has cached is what the
shelves hold under that name. -/
structure Follows (env : Env) (w : World dim numShards) : Prop extends w.Shelved env where
  listed : ∀ segMeta ∈ w.cluster.registry.listSegments, segMeta.Filed numShards
  passing : ∀ pass ∈ w.passes, ∀ segMeta ∈ pass.metas, segMeta.Filed numShards
  fetched : ∀ allSegments ∈ w.fetched,
    (∀ segMeta ∈ allSegments, segMeta.Filed numShards) ∧ w.Current allSegments
  cached : ∀ name seg, w.reader.segments.get? name = some seg →
    seg.path = segmentPath name ∧ w.cluster.storage.Named env.uuid name ∧
      ∀ held, w.Holds held → held.segmentId = name → seg.index = held.index

/-- The order of merge, withdrawal and fetch: every merged segment is withdrawn before the
reader fetches the list, and no merge commits before the reader has used it. -/
def InOrder (w : World dim numShards) : Action dim numShards → Prop
  | .fetch => w.Current w.cluster.registry.listSegments
  | .merge shard => (∃ stage ∈ w.merges shard, stage.Commits) → w.fetched = none
  | _ => True

instance : (stage : MergeStage dim) → Decidable stage.Commits
  | .written _ _ _ => inferInstanceAs (Decidable True)
  | .begun _ _ | .removing _ => inferInstanceAs (Decidable False)

instance (w : World dim numShards) : (action : Action dim numShards) → Decidable (w.InOrder action)
  | .fetch => inferInstanceAs (Decidable (w.Current _))
  | .merge _ => inferInstanceAs (Decidable ((∃ _ ∈ _, _) → _))
  | .insert _ _ | .delete _ _ | .flush _ | .close _ | .beginMerge _ | .beginPass | .pass _
  | .refresh | .search _ => inferInstanceAs (Decidable True)

/-- A piece of a call brings names that nobody has used. -/
theorem Follows.moved (follows : w.Follows env) (movedAt : MovedAt env w shard w')
    (shelved : w'.Shelved env) (inOrder : (∃ stage ∈ w.merges shard, stage.Commits) ∧
      w'.merges shard ≠ w.merges shard → w.fetched = none) : w'.Follows env := by
  have uuids : w.cluster.storage.uuids ≤ w'.cluster.storage.uuids := movedAt.moved.uuids
  refine ⟨shelved, ?_, ?_, fun allSegments fetched => ?_, fun name seg found => ?_⟩
  · rw [movedAt.registry]
    exact follows.listed
  · rw [movedAt.passes]
    exact follows.passing
  · rw [movedAt.fetched] at fetched
    obtain ⟨filed, current⟩ := follows.fetched allSegments fetched
    refine ⟨filed, fun segMeta member => ?_⟩
    obtain ⟨seg, has, named⟩ := current segMeta member
    obtain ⟨other, listed⟩ := mem_segments.mp has
    refine ⟨seg, mem_segments.mpr ⟨other, ?_⟩, named⟩
    rcases eq_or_ne other shard with rfl | different
    · rcases movedAt.moved.listed with kept | commits
      · exact kept seg listed
      · rw [inOrder commits] at fetched
        cases fetched
    · rw [(movedAt.shelf_of_ne different).1]
      exact listed
  · rw [movedAt.reader] at found
    obtain ⟨path, named, index⟩ := follows.cached name seg found
    refine ⟨path, named.mono_uuids uuids, fun held holds same => ?_⟩
    rcases movedAt.holds (follows.sound shard) holds with before | adds
    · exact index held before same
    · exact absurd (same ▸ named) adds.new

/-- The writer goes on with something else. -/
theorem Follows.same (follows : w.Follows env) (same : SameShelves w w')
    (listed : ∀ segMeta ∈ w'.cluster.registry.listSegments, segMeta.Filed numShards)
    (passing : ∀ pass ∈ w'.passes, ∀ segMeta ∈ pass.metas, segMeta.Filed numShards)
    (fetched : ∀ allSegments ∈ w'.fetched, allSegments ∈ w.fetched ∨
      (∀ segMeta ∈ allSegments, segMeta.Filed numShards) ∧ w.Current allSegments)
    (cached : ∀ name seg, w'.reader.segments.get? name = some seg →
      seg.path = segmentPath name ∧ w.cluster.storage.Named env.uuid name ∧
        ∀ held, w.Holds held → held.segmentId = name → seg.index = held.index) :
    w'.Follows env := by
  refine ⟨follows.toShelved.same same, listed, passing, fun allSegments here => ?_,
    fun name seg found => ?_⟩
  · obtain ⟨filed, current⟩ := (fetched allSegments here).elim (follows.fetched allSegments) id
    refine ⟨filed, fun segMeta member => ?_⟩
    obtain ⟨seg, has, named⟩ := current segMeta member
    obtain ⟨shard, listed⟩ := mem_segments.mp has
    exact ⟨seg, mem_segments.mpr ⟨shard, by rwa [same.shelf]⟩, named⟩
  · rw [same.storage]
    obtain ⟨path, named, index⟩ := cached name seg found
    exact ⟨path, named, fun held holds => index held (same.holds.mp holds)⟩

/-- What a refresh leaves in the cache is the writer's. -/
theorem Follows.cached_refresh (follows : w.Follows env) {allSegments : List SegmentMeta}
    (fetched : w.fetched = some allSegments) {name : String} {seg' : Segment dim}
    (found : (w.reader.refresh w.cluster.storage allSegments).2.segments.get? name = some seg') :
    seg'.path = segmentPath name ∧ w.cluster.storage.Named env.uuid name ∧
      ∀ held, w.Holds held → held.segmentId = name → seg'.index = held.index := by
  obtain ⟨segMeta, listed, -, rfl, seg, ⟨sameIndex, samePath⟩, source⟩ := source_of_refresh found
  rw [sameIndex, samePath]
  rcases source with before | loaded
  · exact follows.cached _ seg before
  · obtain ⟨read, path⟩ := index_of_load loaded
    obtain ⟨filed, current⟩ := follows.fetched allSegments fetched
    obtain ⟨listedSeg, has, same⟩ := current segMeta listed
    obtain ⟨stored, named⟩ := follows.stored listedSeg (holds_of_mem has)
    rw [(filed segMeta listed).path] at path read
    refine ⟨path, same ▸ named, fun held holds sameName => ?_⟩
    rw [(follows.stored held holds).1.unique_name stored (sameName.trans same.symm)]
    rw [← same, ← stored.path, Segment.files_of_stored stored] at read
    exact (Option.some.inj read).symm

/-- **The step lemma.**  In order, the reader follows the writer. -/
theorem Follows.step (follows : w.Follows env) (inOrder : w.InOrder action)
    (acted : Acted env w action w') : w'.Follows env := by
  have shelved := follows.toShelved.step acted
  cases acted with
  | idle => exact follows
  | insert ran =>
      exact follows.moved (movedAt_of_call (moved_of_logInsert ran _)) shelved
        fun both => absurd rfl both.2
  | delete ran =>
      exact follows.moved (movedAt_of_call (moved_of_delete ran _)) shelved
        fun both => absurd rfl both.2
  | @flush shard done ran =>
      exact follows.moved
        (movedAt_of_call (moved_of_flushMemtable (follows.shardId shard) ran _)) shelved
        fun both => absurd rfl both.2
  | close =>
      exact follows.same sameShelves_of_close follows.listed follows.passing
        (fun _ => Or.inl) follows.cached
  | beginMerge idle ran =>
      refine follows.moved (movedAt_of_begin idle ran) shelved fun both => ?_
      obtain ⟨stage, underWay, -⟩ := both.1
      rw [idle] at underWay
      cases underWay
  | merge underWay ran =>
      exact follows.moved (movedAt_of_merge follows.toShelved underWay ran) shelved
        fun both => inOrder both.1
  | beginPass =>
      refine follows.same (sameShelves_of_engines ⟨rfl, rfl⟩ rfl) follows.listed
        (fun pass member => ?_) (fun _ => Or.inl) follows.cached
      rcases List.mem_append.mp member with before | begun
      · exact follows.passing pass before
      · rw [List.mem_singleton.mp begun]
        exact nofun
  | @pass i pass underWay =>
      have own : ∀ seg ∈ w.cluster.writer.segments, seg.segMeta.Filed numShards :=
        fun seg member => follows.filed (holds_of_mem member)
      obtain ⟨listed, passing⟩ := filed_passStep own follows.listed
        (follows.passing pass (List.mem_of_getElem? underWay))
      refine follows.same (sameShelves_of_engines (w.cluster.sameEngines_passStep pass) rfl) listed
        (fun later member => ?_) (fun _ => Or.inl) follows.cached
      rw [passStep] at member
      dsimp only at member
      split at member
      · exact follows.passing later (List.mem_of_mem_eraseIdx member)
      · next next here =>
          rcases List.mem_or_eq_of_mem_set member with before | rfl
          · exact follows.passing later before
          · exact passing later here
  | fetch =>
      refine follows.same (sameShelves_of_engines ⟨rfl, rfl⟩ rfl) follows.listed follows.passing
        (fun allSegments fetched => ?_) follows.cached
      cases fetched
      exact Or.inr ⟨follows.listed, inOrder⟩
  | refresh fetched =>
      exact follows.same (sameShelves_of_engines ⟨rfl, rfl⟩ rfl) follows.listed follows.passing
        nofun fun name seg found => follows.cached_refresh fetched found
  | search snapshotId =>
      refine follows.same (sameShelves_of_engines ⟨rfl, rfl⟩ rfl) follows.listed follows.passing
        (fun _ => Or.inl) fun name seg found => follows.cached name seg ?_
      exact (Dict.get?_foldl_moveToEnd _ _ _).symm.trans found

/-- A pass withdraws every segment that merges have taken. -/
theorem Follows.current_register (follows : w.Follows env) {segMeta : SegmentMeta}
    (listed : segMeta ∈ w.cluster.registerUnregisteredSegments.registry.listSegments) :
    ∃ seg ∈ w.cluster.writer.segments, seg.segmentId = segMeta.segmentId := by
  have unique : ∀ a ∈ w.cluster.metas, ∀ b ∈ w.cluster.metas,
      a.segmentId = b.segmentId → a = b := by
    intro a left b right same
    obtain ⟨seg, here, rfl⟩ := Cluster.mem_metas.mp left
    obtain ⟨seg', here', rfl⟩ := Cluster.mem_metas.mp right
    have stored := (follows.stored seg (holds_of_mem here)).1
    exact congrArg Segment.segMeta
      (stored.unique_name (follows.stored seg' (holds_of_mem here')).1 same)
  apply Cluster.exists_of_local
  by_contra notLocal
  rw [Cluster.registerUnregisteredSegments_eq, Cluster.mem_listSegments_announced unique,
    if_neg fun both => notLocal both.1, Cluster.mem_listSegments_withdrawn] at listed
  have own := (follows.listed segMeta listed.1).shard
  exact listed.2 ((Cluster.mem_gone listed.1).mpr ⟨own, notLocal⟩)

variable (env) in
/-- A pass that nothing interrupts, in the world. -/
theorem pass_runs {c' : Cluster dim numShards} (passes : List RegistrationPass)
    {state : Cluster dim numShards × Option RegistrationPass}
    (reaches : Relation.ReflTransGen Cluster.PassStep state (c', none)) :
    ∃ count, ∀ w : World dim numShards, w.cluster = state.1 → w.passes = passes ++ state.2.toList →
      runAll (World.step env) w (List.replicate count (.pass passes.length)) =
        .ok { w with cluster := c', passes } := by
  induction reaches using Relation.ReflTransGen.head_induction_on with
  | refl =>
      refine ⟨0, fun w cluster same => ?_⟩
      change w.cluster = c' at cluster
      rw [Option.toList_none, List.append_nil] at same
      rw [← cluster, ← same]
      rfl
  | head first rest ih =>
      obtain ⟨count, ih⟩ := ih
      refine ⟨count + 1, fun w cluster same => ?_⟩
      cases first with
      | @next c pass =>
          have underWay : w.passes[passes.length]? = some pass := by
            rw [same]
            simp
          have ran : w.step env (.pass passes.length) = .ok (w.passStep passes.length pass) := by
            simp only [World.step, underWay]
          rw [List.replicate_succ, runAll_cons ran, ih]
          · rfl
          · rw [passStep, cluster]
          · rw [passStep, cluster, same]
            cases (c.passStep pass).2 with
            | none => simp [List.eraseIdx_append_of_length_le]
            | some next => simp

/-- **A fetch behind a pass that nothing interrupts is in order.** -/
theorem Follows.inOrder_of_pass (follows : w.Follows env) : ∃ count w',
    runAll (World.step env) w
        (.beginPass :: List.replicate count (.pass w.passes.length)) = .ok w' ∧
      w'.InOrder .fetch := by
  obtain ⟨count, ran⟩ := pass_runs env w.passes (Cluster.register_reaches w.cluster)
  refine ⟨count, _, (runAll_cons rfl _).trans (ran { w with passes := _ } rfl rfl), ?_⟩
  intro segMeta listed
  have same := (Cluster.sameEngines_register w.cluster).segments
  change ∃ seg ∈ w.cluster.registerUnregisteredSegments.writer.segments, _
  rw [same]
  exact follows.current_register listed

/-- Behind its start a writer has registered what it has, and a new reader knows nothing. -/
theorem follows_of_boot {settings : Settings} {boot : Cluster dim numShards}
    (booted : Cluster.boot env settings = .ok boot) {shardId maxSegments : ℕ} {loadAll : Bool}
    {reader : SegmentCache dim}
    (made : SegmentCache.new shardId maxSegments loadAll = .ok reader) :
    (World.idle boot reader).Follows env := by
  obtain ⟨begun, started, booted'⟩ := Cluster.boot_ok dim numShards env settings
  rw [booted, Except.ok.injEq] at booted'
  have sound : boot.Sound env := (booted' ▸ begun.sameEngines_boot).sound started.sound
  have registered : boot.Registered := booted' ▸ started.registered
  refine ⟨.idle sound reader, fun segMeta listed => ?_, nofun, nofun, fun name seg found => ?_⟩
  · obtain ⟨seg, member, rfl⟩ := (registered.2 segMeta).mp listed
    have stored := (sound.stored member).1
    exact ⟨stored.metaPath.trans stored.path, sound.shard_lt member⟩
  · unfold SegmentCache.new at made
    split at made
    · cases made
      cases found
    · cases made

/-! ## Refreshes return -/

/-- In order, everything in a fetched list is in the reader's reach. -/
theorem Follows.inReach (follows : w.Follows env) {allSegments : List SegmentMeta}
    (fetched : w.fetched = some allSegments) :
    w.reader.InReach w.cluster.storage allSegments := by
  obtain ⟨filed, current⟩ := follows.fetched allSegments fetched
  intro segMeta listed serves
  obtain ⟨seg, has, same⟩ := current segMeta listed
  obtain ⟨stored, -⟩ := follows.stored seg (holds_of_mem has)
  have whole : (w.cluster.storage.files segMeta.path).Whole := by
    rw [(filed segMeta listed).path, ← same, ← stored.path, Segment.files_of_stored stored]
    exact ⟨rfl, rfl, rfl⟩
  refine ⟨fun cachedSeg cached => Or.inr ?_, Or.inl whole⟩
  rw [(follows.cached _ cachedSeg cached).1, ← (filed segMeta listed).path]
  exact whole.2.2

/-- **In order, every refresh returns**: when every merged segment is withdrawn before the
reader fetches the list, and no merge commits before the reader has used it. -/
theorem refreshes_return_in_order {settings : Settings} {boot : Cluster dim numShards}
    (booted : Cluster.boot env settings = .ok boot) {shardId maxSegments : ℕ} {loadAll : Bool}
    {reader : SegmentCache dim}
    (made : SegmentCache.new shardId maxSegments loadAll = .ok reader)
    {actions : List (Action dim numShards)}
    (inOrder : StepsMeet (World.step env) InOrder (.idle boot reader) actions) :
    StepsMeet (World.step env) Returns (.idle boot reader) actions := by
  refine inOrder.of_invariant (I := fun w => w.Follows env)
    (fun w action follows inOrder => ⟨?_, fun w' ran => ?_⟩) (follows_of_boot booted made)
  · cases action with
    | refresh => exact fun allSegments fetched => (follows.inReach fetched).refresh
    | insert | delete | flush | close | beginMerge | merge | beginPass | pass | fetch | search =>
        trivial
  · exact follows.step inOrder (acted_of_step ran)

/-- A reader takes the list before a merge and behind the pass that follows it. -/
def startedInOrder : List (Action 1 1) :=
  registered ++ [.fetch, .refresh] ++ merged ++ wholePass ++ [.fetch, .search 1, .close 0, .refresh]

theorem refreshes_return_in_order_startedInOrder :
    ∃ (boot : Cluster 1 1) (cache : SegmentCache 1) (w : World 1 1),
      Cluster.boot Env.counted ⟨1, 10, 2⟩ = .ok boot ∧ SegmentCache.new 0 20 false = .ok cache ∧
      runAll (World.step Env.counted) (.idle boot cache) startedInOrder = .ok w ∧
      w.reader.segments.values.map Segment.segmentId =
        w.cluster.writer.segments.map Segment.segmentId ∧
      StepsMeet (World.step Env.counted) World.Returns (.idle boot cache) startedInOrder := by
  have evaluated : (do
      let boot ← Cluster.boot Env.counted ⟨1, 10, 2⟩
      let cache ← SegmentCache.new 0 20 false
      let w ← runAll (World.step Env.counted) (.idle boot cache) startedInOrder
      .ok (decide (w.reader.segments.values.map Segment.segmentId =
        w.cluster.writer.segments.map Segment.segmentId ∧
        StepsMeet (World.step Env.counted) InOrder (.idle boot cache) startedInOrder))) =
      .ok true := by
    decide +kernel
  obtain ⟨boot, booted, rest⟩ := ok_of_bind evaluated
  obtain ⟨cache, made, rest⟩ := ok_of_bind rest
  obtain ⟨w, ran, rest⟩ := ok_of_bind rest
  rw [Except.ok.injEq, decide_eq_true_eq] at rest
  exact ⟨boot, cache, w, booted, made, ran, rest.1, refreshes_return_in_order booted made rest.2⟩

end World

/-! ## A buried id -/

/-- `tombstones.json` is what the engine has in memory. -/
def Node.Persisted (n : Node dim) : Prop := n.storage.tombstonesJson.load = n.engine.tombstones

/-- The engine shows no row of the id: not from the memtable, and from a segment, one that a
merge is about to list included, only if the id is no tombstone. -/
structure Node.Buries (x : ℤ) (n : Node dim) (stage : Option (MergeStage dim)) : Prop where
  dead : ∀ e, n.engine.memtable.entries.get? x = some e → e.vector = none
  buried : x ∈ n.engine.tombstones ∨
    ∀ seg ∈ (n.shelf stage).segments ++ (n.shelf stage).merged, x ∉ batchIds seg.rows

section Pieces

variable {n : Node dim} {x : ℤ} {stage : Option (MergeStage dim)}

theorem persisted_logInsert {ids : List ℤ} {vectors : List (List UInt32)} {done : ℕ × Node dim}
    (persisted : n.Persisted) (ran : LSMEngine.logInsert env ids vectors n = .ok done) :
    done.2.Persisted := by
  obtain ⟨-, -, ran⟩ := ok_of_bind ran
  obtain ⟨rows, -, ran⟩ := ok_of_bind ran
  obtain ⟨lsn, -, ran⟩ := ok_of_bind ran
  cases ran
  exact tombstonesJson_applyInsert persisted _ _ _

theorem persisted_delete {ids : List ℤ} {done : ℕ × Node dim}
    (ran : LSMEngine.delete env ids n = .ok done) : done.2.Persisted := by
  obtain ⟨-, -, ran⟩ := ok_of_bind ran
  obtain ⟨lsn, -, ran⟩ := ok_of_bind ran
  cases ran
  rfl

theorem persisted_flushMemtable {done : Option (Segment dim) × Node dim} (persisted : n.Persisted)
    (ran : LSMEngine.flushMemtable env n = .ok done) : done.2.Persisted := by
  have captured : (LSMEngine.captureDeletes n).Persisted := by
    unfold LSMEngine.captureDeletes
    dsimp only
    split
    · exact persisted
    · rfl
  obtain ⟨-, -, ran⟩ := ok_of_bind ran
  dsimp only at ran
  split at ran
  · cases ran
    exact captured
  · cases ran
    exact captured

theorem persisted_mergeSection {stage : MergeStage dim} {done : Node dim × Option (MergeStage dim)}
    (persisted : n.Persisted) (ran : LSMEngine.mergeSection env n stage = .ok done) :
    done.1.Persisted := by
  cases stage with
  | begun toMerge remaining =>
      obtain ⟨latest, -, ran⟩ := ok_of_bind ran
      dsimp only at ran
      split at ran
      · cases ran
        exact persisted
      · cases ran
        exact persisted
  | written toMerge segments cleaned =>
      cases ran
      rfl
  | removing paths =>
      cases paths with
      | nil =>
          cases ran
          exact persisted
      | cons path paths =>
          cases ran
          exact persisted

theorem buries_logInsert {rows : List (Row dim)} {done : ℕ × Node dim}
    (buries : n.Buries x stage) (other : x ∉ batchIds rows)
    (ran : LSMEngine.logInsert env (batchIds rows) (batchVectors rows) n = .ok done) :
    done.2.Buries x stage := by
  obtain ⟨-, -, ran⟩ := ok_of_bind ran
  obtain ⟨prepared, same, ran⟩ := ok_of_bind ran
  obtain ⟨lsn, -, ran⟩ := ok_of_bind ran
  cases ran
  rw [prepareRows_batch, Except.ok.injEq] at same
  subst same
  have absent : Dict.lastWrite rows x = none := Dict.lastWrite_eq_none_iff.mpr other
  refine ⟨fun e found => buries.dead e ?_, ?_⟩
  · rwa [LSMEngine.applyInsert_engine, MemTable.get?_insert, absent] at found
  · simp only [Node.shelf, LSMEngine.applyInsert_engine]
    exact buries.buried.imp_left fun buried =>
      Finset.mem_sdiff.mpr ⟨buried, fun named => other (List.mem_toFinset.mp named)⟩

theorem buries_delete {ids : List ℤ} {done : ℕ × Node dim} (buries : n.Buries x stage)
    (ran : LSMEngine.delete env ids n = .ok done) : done.2.Buries x stage := by
  obtain ⟨-, -, ran⟩ := ok_of_bind ran
  obtain ⟨lsn, -, ran⟩ := ok_of_bind ran
  cases ran
  refine ⟨fun e found => ?_, buries.buried.imp_left fun buried => Finset.mem_union_left _ buried⟩
  change (n.engine.memtable.delete ids lsn).entries.get? x = some e at found
  rw [MemTable.get?_delete] at found
  split at found
  · cases found
    rfl
  · exact buries.dead e found

/-- A delete buries its ids. -/
theorem buries_of_delete {ids : List ℤ} {done : ℕ × Node dim} (named : x ∈ ids)
    (ran : LSMEngine.delete env ids n = .ok done) : done.2.Buries x stage := by
  obtain ⟨-, -, ran⟩ := ok_of_bind ran
  obtain ⟨lsn, -, ran⟩ := ok_of_bind ran
  cases ran
  refine ⟨fun e found => ?_, Or.inl (Finset.mem_union_right _ (List.mem_toFinset.mpr named))⟩
  change (n.engine.memtable.delete ids lsn).entries.get? x = some e at found
  rw [MemTable.get?_delete, if_pos named] at found
  cases found
  rfl

theorem buries_flushMemtable {done : Option (Segment dim) × Node dim} (buries : n.Buries x stage)
    (ran : LSMEngine.flushMemtable env n = .ok done) : done.2.Buries x stage := by
  have captured : (LSMEngine.captureDeletes n).Buries x stage := by
    refine ⟨?_, ?_⟩
    · rw [LSMEngine.captureDeletes_engine]
      exact buries.dead
    · simp only [Node.shelf, LSMEngine.captureDeletes_engine]
      exact buries.buried.imp_left fun buried => Finset.mem_union_left _ buried
  obtain ⟨-, -, ran⟩ := ok_of_bind ran
  dsimp only at ran
  generalize LSMEngine.captureDeletes n = captured' at captured ran
  have cleared : ∀ e, captured'.engine.memtable.clear.entries.get? x = some e →
      e.vector = none := by
    intro e found
    rw [MemTable.get?_clear] at found
    cases found
  split at ran
  · cases ran
    exact ⟨cleared, captured.buried⟩
  · cases ran
    refine ⟨cleared, captured.buried.imp_right fun absent seg held => ?_⟩
    rcases List.mem_append.mp held with listed | merged
    · have members := (List.perm_insertionSort _ _).mem_iff.mp listed
      rcases List.mem_append.mp members with before | new
      · exact absent seg (List.mem_append_left _ before)
      · rw [List.mem_singleton.mp new, (Segment.create_fields _ _ _ _ _ _).1]
        intro live
        obtain ⟨e, found, vector⟩ := MemTable.mem_batchIds_toArrays.mp live
        exact vector (captured.dead e found)
    · exact absent seg (List.mem_append_right _ merged)

/-- A merge that drops the tombstone of the id leaves no segment with it. -/
def MergeStage.TakesAll (x : ℤ) : MergeStage dim → Prop
  | .written _ segments cleaned => x ∈ cleaned → ∀ seg ∈ segments, x ∉ batchIds seg.rows
  | .begun _ _ | .removing _ => True

instance (x : ℤ) : (stage : MergeStage dim) → Decidable (stage.TakesAll x)
  | .written _ _ _ => inferInstanceAs (Decidable (_ → _))
  | .begun _ _ | .removing _ => inferInstanceAs (Decidable True)

/-- A merge writes no id that its segments do not hold. -/
theorem absent_keptRows {segments : List (Segment dim)} (T : Finset ℤ)
    (absent : ∀ seg ∈ segments, x ∉ batchIds seg.rows) :
    x ∉ batchIds (LSMEngine.keptRows (latestOf segments) T) := by
  apply Dict.lastWrite_eq_none_iff.mp
  rw [lastWrite_keptRows, newestRow_eq_none_iff.mpr absent, ite_self]

theorem buries_mergeSection {stage : MergeStage dim} {done : Node dim × Option (MergeStage dim)}
    (buries : n.Buries x (some stage)) (takesAll : stage.TakesAll x)
    (stored : ∀ seg ∈ n.engine.segments, seg.Stored n.storage)
    (begun : ∀ toMerge remaining, stage = .begun toMerge remaining →
      ∀ seg ∈ toMerge ++ remaining, seg ∈ n.engine.segments)
    (ran : LSMEngine.mergeSection env n stage = .ok done) : done.1.Buries x done.2 := by
  cases stage with
  | begun toMerge remaining =>
      have listed := begun toMerge remaining rfl
      have gathered : LSMEngine.gatherLatest n.storage toMerge = .ok (latestOf toMerge) :=
        gatherLatest_of_stored fun seg taken =>
          stored seg (listed seg (List.mem_append_left _ taken))
      obtain ⟨latest, same, ran⟩ := ok_of_bind ran
      rw [gathered, Except.ok.injEq] at same
      subst same
      dsimp only at ran
      split at ran
      · cases ran
        refine ⟨buries.dead, buries.buried.imp_right fun absent seg held => ?_⟩
        rcases List.mem_append.mp held with before | remains
        · exact absent seg (List.mem_append_left _ before)
        · exact absent seg (List.mem_append_left _ (listed seg (List.mem_append_right _ remains)))
      · cases ran
        refine ⟨buries.dead, buries.buried.imp_right fun absent seg held => ?_⟩
        rcases List.mem_append.mp held with before | merged
        · exact absent seg (List.mem_append_left _ before)
        · have members := (List.perm_insertionSort _ _).mem_iff.mp merged
          rcases List.mem_cons.mp members with rfl | remains
          · rw [(Segment.create_fields _ _ _ _ _ _).1]
            exact absent_keptRows _ fun seg taken =>
              absent seg (List.mem_append_left _ (listed seg (List.mem_append_left _ taken)))
          · exact absent seg (List.mem_append_left _ (listed seg (List.mem_append_right _ remains)))
  | written toMerge segments cleaned =>
      cases ran
      refine ⟨buries.dead, ?_⟩
      rcases buries.buried with buried | absent
      · by_cases dropped : x ∈ cleaned
        · refine Or.inr fun seg held => takesAll dropped seg ?_
          exact (List.mem_append.mp held).resolve_right nofun
        · exact Or.inl (Finset.mem_sdiff.mpr ⟨buried, dropped⟩)
      · refine Or.inr fun seg held => absent seg (List.mem_append_right _ ?_)
        exact (List.mem_append.mp held).resolve_right nofun
  | removing paths =>
      cases paths with
      | nil =>
          cases ran
          exact ⟨buries.dead, buries.buried⟩
      | cons path paths =>
          cases ran
          exact ⟨buries.dead, buries.buried⟩

end Pieces

/-! ## One shard -/

namespace World

variable {w w' : World dim 1} {action : Action dim 1} {x : ℤ}

/-- The action inserts the id, or drops its tombstone in a merge that leaves a segment with it. -/
def Disturbs (x : ℤ) (stage : Option (MergeStage dim)) : Action dim 1 → Prop
  | .insert _ rows => x ∈ batchIds rows
  | .merge _ => ∃ next ∈ stage, ¬ next.TakesAll x
  | _ => False

instance (x : ℤ) (stage : Option (MergeStage dim)) :
    (action : Action dim 1) → Decidable (Disturbs x stage action)
  | .insert _ _ => inferInstanceAs (Decidable (_ ∈ _))
  | .merge _ => inferInstanceAs (Decidable (∃ _ ∈ _, _))
  | .delete _ _ | .flush _ | .close _ | .beginMerge _ | .beginPass | .pass _ | .fetch | .refresh
  | .search _ => inferInstanceAs (Decidable False)

/-- The order, for an id that nothing disturbs. -/
def InOrderFor (x : ℤ) (w : World dim 1) (action : Action dim 1) : Prop :=
  w.InOrder action ∧ ¬ Disturbs x (w.merges 0) action

instance (x : ℤ) (w : World dim 1) (action : Action dim 1) : Decidable (w.InOrderFor x action) :=
  inferInstanceAs (Decidable (_ ∧ ¬ _))

/-- What an action does to the only engine and its merge. -/
inductive Worked (env : Env) (n : Node dim) (stage : Option (MergeStage dim)) :
    Action dim 1 → Node dim → Option (MergeStage dim) → Prop
  | idle {action : Action dim 1} : Worked env n stage action n stage
  | insert {shard : Fin 1} {rows : List (Row dim)} {done : ℕ × Node dim}
      (ran : LSMEngine.logInsert env (batchIds rows) (batchVectors rows) n = .ok done) :
      Worked env n stage (.insert shard rows) done.2 stage
  | delete {shard : Fin 1} {ids : List ℤ} {done : ℕ × Node dim}
      (ran : LSMEngine.delete env ids n = .ok done) :
      Worked env n stage (.delete shard ids) done.2 stage
  | flush {shard : Fin 1} {done : Option (Segment dim) × Node dim}
      (ran : LSMEngine.flushMemtable env n = .ok done) :
      Worked env n stage (.flush shard) done.2 stage
  | close {shard : Fin 1} : Worked env n stage (.close shard) (LSMEngine.close n) stage
  | beginMerge {shard : Fin 1} {begun : Option (MergeStage dim)} (idle : stage = none)
      (ran : LSMEngine.beginMerge n = .ok begun) : Worked env n stage (.beginMerge shard) n begun
  | merge {shard : Fin 1} {next : MergeStage dim} {done : Node dim × Option (MergeStage dim)}
      (underWay : stage = some next) (ran : LSMEngine.mergeSection env n next = .ok done) :
      Worked env n stage (.merge shard) done.1 done.2

theorem worked_of_acted (acted : Acted env w action w') :
    Worked env (w.cluster.node 0) (w.merges 0) action (w'.cluster.node 0) (w'.merges 0) := by
  have only : ∀ {shard : Fin 1} {n : Node dim}, (w.cluster.setNode shard n).node 0 = n := by
    intro shard n
    obtain rfl : shard = 0 := Subsingleton.elim _ _
    exact Cluster.node_setNode ..
  have moves : ∀ {shard : Fin 1} {stage : Option (MergeStage dim)},
      Function.update w.merges shard stage 0 = stage := by
    intro shard stage
    obtain rfl : shard = 0 := Subsingleton.elim _ _
    exact Function.update_self ..
  have mine : ∀ shard : Fin 1, shard = 0 := fun shard => Subsingleton.elim _ _
  cases acted with
  | idle => exact .idle
  | @insert shard rows done ran =>
      rw [mine shard] at ran
      simpa only [only] using Worked.insert ran
  | @delete shard ids done ran =>
      rw [mine shard] at ran
      simpa only [only] using Worked.delete ran
  | @flush shard done ran =>
      rw [mine shard] at ran
      simpa only [only] using Worked.flush ran
  | @close shard =>
      rw [mine shard]
      simpa only [only] using Worked.close
  | @beginMerge shard begun idle ran =>
      rw [mine shard] at idle ran
      simpa only [moves] using Worked.beginMerge idle ran
  | @merge shard next done underWay ran =>
      rw [mine shard] at underWay ran
      simpa only [only, moves] using Worked.merge underWay ran
  | @pass i pass underWay =>
      have same := w.cluster.sameEngines_passStep pass
      simp only [passStep, Cluster.node, same.engines, same.storage]
      exact .idle
  | beginPass | fetch | refresh | search => exact .idle

/-- Every call leaves `tombstones.json` as the engine has it. -/
theorem Worked.persisted {n n' : Node dim} {stage stage' : Option (MergeStage dim)}
    (worked : Worked env n stage action n' stage') (persisted : n.Persisted) : n'.Persisted := by
  cases worked with
  | insert ran => exact persisted_logInsert persisted ran
  | delete ran => exact persisted_delete ran
  | flush ran => exact persisted_flushMemtable persisted ran
  | merge underWay ran => exact persisted_mergeSection persisted ran
  | idle | close | beginMerge => exact persisted

theorem persisted_step (persisted : (w.cluster.node 0).Persisted)
    (acted : Acted env w action w') : (w'.cluster.node 0).Persisted :=
  (worked_of_acted acted).persisted persisted

theorem persisted_of_boot {settings : Settings} {boot : Cluster dim 1}
    (booted : Cluster.boot env settings = .ok boot) : (boot.node 0).Persisted := by
  obtain ⟨begun, started, booted'⟩ := Cluster.boot_ok dim 1 env settings
  rw [booted, Except.ok.injEq] at booted'
  have same : begun.SameEngines boot := booted' ▸ begun.sameEngines_boot
  have none : (begun.writer.engines 0).tombstones = ∅ := (started.fresh 0).tombstones
  simp only [Node.Persisted, Cluster.node, same.engines, same.storage, started.storage, none]
  rfl

/-- The id is buried, and the reader follows the writer. -/
structure Buried (env : Env) (x : ℤ) (w : World dim 1) : Prop extends w.Follows env where
  persisted : (w.cluster.node 0).Persisted
  buries : (w.cluster.node 0).Buries x (w.merges 0)

/-- A buried id that nothing disturbs stays buried. -/
theorem Worked.buries {n n' : Node dim} {stage stage' : Option (MergeStage dim)}
    (worked : Worked env n stage action n' stage') (buries : n.Buries x stage)
    (undisturbed : ¬ Disturbs x stage action)
    (stored : ∀ seg ∈ n.engine.segments, seg.Stored n.storage)
    (begun : ∀ toMerge remaining, stage = some (.begun toMerge remaining) →
      ∀ seg ∈ toMerge ++ remaining, seg ∈ n.engine.segments) : n'.Buries x stage' := by
  cases worked with
  | idle => exact buries
  | insert ran => exact buries_logInsert buries undisturbed ran
  | delete ran => exact buries_delete buries ran
  | flush ran => exact buries_flushMemtable buries ran
  | close => exact ⟨buries.dead, buries.buried⟩
  | beginMerge idle ran =>
      subst idle
      refine ⟨buries.dead, buries.buried.imp_right fun absent seg held => ?_⟩
      obtain ⟨-, -, ran⟩ := ok_of_bind ran
      refine absent seg (List.mem_append_left _ ((List.mem_append.mp held).resolve_right ?_))
      split at ran <;> cases ran <;> exact nofun
  | @merge shard next done underWay ran =>
      subst underWay
      have takesAll : next.TakesAll x := by
        by_contra leaves
        exact undisturbed ⟨next, rfl, leaves⟩
      refine buries_mergeSection buries takesAll stored (fun toMerge remaining same => ?_) ran
      exact begun toMerge remaining (congrArg some same)

/-- **The step lemma.**  In order, a buried id stays buried. -/
theorem Buried.step (buried : w.Buried env x) (inOrder : w.InOrderFor x action)
    (acted : Acted env w action w') : w'.Buried env x := by
  refine ⟨buried.toFollows.step inOrder.1 acted, persisted_step buried.persisted acted,
    (worked_of_acted acted).buries buried.buries inOrder.2 (fun seg listed => ?_)
      fun toMerge remaining same => ?_⟩
  · exact (buried.stored seg ⟨0, List.mem_append_left _ listed⟩).1
  · exact ((buried.sound 0).begun toMerge remaining same).2

/-- The reader finds the tombstone of a buried id, or no listed segment with it. -/
theorem Buried.guards (buried : w.Buried env x) {allSegments : List SegmentMeta}
    (fetched : w.fetched = some allSegments) :
    w.reader.GuardedBy w.cluster.storage x allSegments := by
  rcases buried.buries.buried with tombstoned | absent
  · exact Or.inl (buried.persisted.symm ▸ tombstoned)
  · obtain ⟨filed, current⟩ := buried.fetched allSegments fetched
    refine Or.inr fun segMeta listed serves => ?_
    obtain ⟨seg, has, same⟩ := current segMeta listed
    have holds := holds_of_mem has
    have unheld : x ∉ batchIds seg.rows := by
      obtain ⟨shard, held⟩ := holds
      obtain rfl : shard = 0 := Subsingleton.elim _ _
      exact absent seg held
    obtain ⟨stored, -⟩ := buried.stored seg holds
    refine ⟨fun cachedSeg cached => ?_, fun index read => ?_⟩
    · rw [Segment.rows, (buried.cached _ cachedSeg cached).2.2 seg holds same]
      exact unheld
    · rw [(filed segMeta listed).path, ← same, ← stored.path,
        Segment.files_of_stored stored] at read
      cases read
      exact unheld

/-- A delete buries its ids. -/
theorem buried_of_delete (follows : w.Follows env) (persisted : (w.cluster.node 0).Persisted)
    {ids : List ℤ} (named : x ∈ ids) (ran : w.step env (.delete 0 ids) = .ok w') :
    w'.Buried env x := by
  have acted := acted_of_step ran
  have inOrder : w.InOrder (.delete 0 ids) := trivial
  refine ⟨follows.step inOrder acted, persisted_step persisted acted, ?_⟩
  obtain ⟨done, called, rest⟩ := ok_of_bind ran
  obtain ⟨result, here, same⟩ := acted_of_onShard called
  cases rest
  rw [same, Cluster.node_setNode]
  exact buries_of_delete named here

/-- **In order, no resurrection**, on one shard: once the reader has loaded the tombstone of an
id that is deleted and not inserted again, no search returns the id. -/
theorem no_resurrection_in_order {D : Type} [LinearOrder D] (faiss : Faiss dim D)
    {settings : Settings} {boot : Cluster dim 1} (booted : Cluster.boot env settings = .ok boot)
    {shardId maxSegments : ℕ} {loadAll : Bool} {reader : SegmentCache dim}
    (made : SegmentCache.new shardId maxSegments loadAll = .ok reader)
    {earlier later rest : List (Action dim 1)} {learned final : World dim 1} {ids : List ℤ}
    (inOrder : StepsMeet (World.step env) InOrder (.idle boot reader) earlier)
    (before : runAll (World.step env) (.idle boot reader) earlier = .ok w) (named : x ∈ ids)
    (spared : StepsMeet (World.step env) (InOrderFor x) w (.delete 0 ids :: later))
    (learns : runAll (World.step env) w (.delete 0 ids :: later) = .ok learned)
    (loaded : x ∈ learned.reader.tombstones)
    (goesOn : StepsMeet (World.step env) (InOrderFor x) learned rest)
    (ran : runAll (World.step env) learned rest = .ok final) (q : Vec dim) (topK nprobe s : ℕ) :
    ∀ hit ∈ (final.reader.searchAll faiss q topK nprobe s).1, hit.1 ≠ x := by
  have start := And.intro (follows_of_boot booted made) (persisted_of_boot booted)
  obtain ⟨follows, persisted⟩ : w.Follows env ∧ (w.cluster.node 0).Persisted :=
    runAll_preserves (P := fun w => w.Follows env ∧ (w.cluster.node 0).Persisted)
      (fun w action w' both inOrder ran => ⟨both.1.step inOrder (acted_of_step ran),
        persisted_step both.2 (acted_of_step ran)⟩) start inOrder before
  obtain ⟨deleted, here, later⟩ := ok_of_bind learns
  have buried : learned.Buried env x := runAll_preserves (P := fun w => w.Buried env x)
    (fun w action w' buried inOrder ran => buried.step inOrder (acted_of_step ran))
    (buried_of_delete follows persisted named here) (spared.2 deleted here) later
  have hides : learned.reader.Hides x := Or.inl loaded
  refine (hides.run ?_ ran).search faiss q topK nprobe s
  refine goesOn.of_invariant (I := fun w => w.Buried env x)
    (fun w action buried inOrder => ⟨?_, fun w' ran => ?_⟩) buried
  · cases action with
    | refresh => exact fun allSegments fetched => buried.guards fetched
    | insert | delete | flush | close | beginMerge | merge | beginPass | pass | fetch | search =>
        trivial
  · exact buried.step inOrder (acted_of_step ran)

/-- Two ids are flushed and published. -/
def published : List (Action 1 1) :=
  [.insert 0 [(1, zeroVec 1), (2, unitVec)], .flush 0] ++ wholePass

/-- One is deleted and merged away, and the reader asks behind the next pass. -/
theorem no_resurrection_in_order_askedLater :
    ∃ final : World 1 1, final.reader.tombstones = ∅ ∧
      (final.reader.searchAll (bruteForce 1) (zeroVec 1) 10 1 3).1.map Prod.fst = [2, 3] ∧
      ∀ hit ∈ (final.reader.searchAll (bruteForce 1) (zeroVec 1) 10 1 3).1, hit.1 ≠ 1 := by
  have evaluated : (do
      let boot ← Cluster.boot Env.counted ⟨1, 10, 2⟩
      let cache ← SegmentCache.new 0 20 false
      let w ← runAll (World.step Env.counted) (.idle boot cache) published
      let learned ← runAll (World.step Env.counted) w [.delete 0 [1], .fetch, .refresh]
      let final ← runAll (World.step Env.counted) learned askedLater
      .ok (decide ((StepsMeet (World.step Env.counted) InOrder (.idle boot cache) published ∧
        StepsMeet (World.step Env.counted) (InOrderFor 1) w [.delete 0 [1], .fetch, .refresh] ∧
        1 ∈ learned.reader.tombstones ∧
        StepsMeet (World.step Env.counted) (InOrderFor 1) learned askedLater) ∧
        final.reader.tombstones = ∅ ∧
        (final.reader.searchAll (bruteForce 1) (zeroVec 1) 10 1 3).1.map Prod.fst = [2, 3]))) =
      .ok true := by
    decide +kernel
  obtain ⟨boot, booted, rest⟩ := ok_of_bind evaluated
  obtain ⟨cache, made, rest⟩ := ok_of_bind rest
  obtain ⟨w, before, rest⟩ := ok_of_bind rest
  obtain ⟨learned, learns, rest⟩ := ok_of_bind rest
  obtain ⟨final, ran, rest⟩ := ok_of_bind rest
  rw [Except.ok.injEq, decide_eq_true_eq] at rest
  obtain ⟨⟨inOrder, spared, loaded, goesOn⟩, shown⟩ := rest
  exact ⟨final, shown.1, shown.2, no_resurrection_in_order (bruteForce 1) booted made inOrder before
    (by decide) spared learns loaded goesOn ran (zeroVec 1) 10 1 3⟩

end World

end VecScale
