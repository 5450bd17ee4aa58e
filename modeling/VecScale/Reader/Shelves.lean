import VecScale.Reader.World
import VecScale.Writer.Passes

/-!
# Segments and directories between two pieces

While a merge is under way the writer lists segments that are about to go, or has yet to list
the one that replaces them.

* `Shelf.Moved`: what the pieces of the writer's calls move about for one shard;
* `World.Shelved`: every segment on a shelf has its directory under a name of its own, and a
  merge removes only directories of segments that are off the shelves;
* `World.Shelved.step`: the writer and the reader keep it.
-/

namespace VecScale

variable {dim numShards : ℕ} {env : Env}

/-! ## New directories -/

/-- A directory is written under a name that nobody has used. -/
structure SharedStorage.Adds (uuid : Uuid4) (st : SharedStorage dim) (seg : Segment dim)
    (st' : SharedStorage dim) : Prop where
  stored : seg.Stored st'
  new : ¬ st.Named uuid seg.segmentId
  named : st'.Named uuid seg.segmentId
  dirs : ∀ path, path ≠ seg.path → st'.segmentDirs.get? path = st.segmentDirs.get? path
  uuids : st.uuids ≤ st'.uuids

theorem SharedStorage.adds_create (uuid : Uuid4) (shardId snapshotId : ℕ) (rows : List (Row dim))
    (nlist : ℕ) {st before : SharedStorage dim} (dirs : st.segmentDirs = before.segmentDirs)
    (uuids : st.uuids = before.uuids) :
    before.Adds uuid (Segment.create uuid shardId snapshotId rows nlist st).1
      (Segment.create uuid shardId snapshotId rows nlist st).2 := by
  refine ⟨Segment.create_stored .., ?_,
    ⟨shardId, snapshotId, st.uuids, Nat.lt_succ_self _, rfl⟩, ?_, uuids ▸ Nat.le_succ _⟩
  · rintro ⟨shard, snapshot, draw, made, same⟩
    have draws := segmentName_hex uuid same
    omega
  · intro path different
    rw [← dirs]
    exact (Dict.get?_set ..).trans (if_neg (Ne.symm different))

/-! ## Shelves -/

/-- The next section of the merge is the commit. -/
def MergeStage.Commits : MergeStage dim → Prop
  | .written _ _ _ => True
  | .begun _ _ | .removing _ => False

/-- The segments of one shard, its merge, and the directories of all shards. -/
structure Shelf (dim : ℕ) where
  segments : List (Segment dim)
  stage : Option (MergeStage dim)
  storage : SharedStorage dim

namespace Shelf

/-- The segments that a merge is about to list. -/
def merged (shelf : Shelf dim) : List (Segment dim) :=
  match shelf.stage with
  | some (.written _ segments _) => segments
  | some (.begun _ _) | some (.removing _) | none => []

/-- The directories that a merge is about to remove. -/
def doomed (shelf : Shelf dim) : List String :=
  match shelf.stage with
  | some (.removing paths) => paths
  | some (.begun _ _) | some (.written _ _ _) | none => []

/-- What a piece of a call moves. -/
inductive Moved (env : Env) (shard : ℕ) : Shelf dim → Shelf dim → Prop
  | stay {segments : List (Segment dim)} {stage : Option (MergeStage dim)}
      {st st' : SharedStorage dim} (dirs : st'.segmentDirs = st.segmentDirs)
      (uuids : st'.uuids = st.uuids) : Moved env shard ⟨segments, stage, st⟩ ⟨segments, stage, st'⟩
  | flush {segments segments' : List (Segment dim)} {seg : Segment dim}
      {stage : Option (MergeStage dim)} {st st' : SharedStorage dim}
      (adds : st.Adds env.uuid seg st') (own : seg.shardId = shard)
      (perm : segments'.Perm (seg :: segments)) :
      Moved env shard ⟨segments, stage, st⟩ ⟨segments', stage, st'⟩
  | begin {toMerge remaining : List (Segment dim)} {st : SharedStorage dim} :
      Moved env shard ⟨toMerge ++ remaining, none, st⟩
        ⟨toMerge ++ remaining, some (.begun toMerge remaining), st⟩
  | skip {segments toMerge remaining : List (Segment dim)} {cleaned : Finset ℤ}
      {st : SharedStorage dim} : Moved env shard ⟨segments, some (.begun toMerge remaining), st⟩
        ⟨segments, some (.written toMerge remaining cleaned), st⟩
  | write {segments toMerge remaining merged : List (Segment dim)} {seg : Segment dim}
      {cleaned : Finset ℤ} {st st' : SharedStorage dim} (adds : st.Adds env.uuid seg st')
      (own : seg.shardId = shard) (perm : merged.Perm (seg :: remaining)) :
      Moved env shard ⟨segments, some (.begun toMerge remaining), st⟩
        ⟨segments, some (.written toMerge merged cleaned), st'⟩
  | commit {segments toMerge merged : List (Segment dim)} {cleaned : Finset ℤ}
      {st st' : SharedStorage dim} (dirs : st'.segmentDirs = st.segmentDirs)
      (uuids : st'.uuids = st.uuids) :
      Moved env shard ⟨segments, some (.written toMerge merged cleaned), st⟩
        ⟨merged, some (.removing (toMerge.map Segment.path)), st'⟩
  | remove {segments : List (Segment dim)} {path : String} {paths : List String}
      {st : SharedStorage dim} : Moved env shard ⟨segments, some (.removing (path :: paths)), st⟩
        ⟨segments, some (.removing paths), st.rmtree path⟩
  | finish {segments : List (Segment dim)} {st : SharedStorage dim} :
      Moved env shard ⟨segments, some (.removing []), st⟩ ⟨segments, none, st⟩

/-- A shelf of one shard, where a merge lists each segment once and none that it takes.
Flushes may come while a merge is under way. -/
structure Sound (shard : ℕ) (shelf : Shelf dim) : Prop where
  own : ∀ seg ∈ shelf.segments ++ shelf.merged, seg.shardId = shard
  nodup : shelf.segments.Nodup
  begun : ∀ toMerge remaining, shelf.stage = some (.begun toMerge remaining) →
    (toMerge ++ remaining).Nodup ∧ ∀ seg ∈ toMerge ++ remaining, seg ∈ shelf.segments
  written : ∀ toMerge merged cleaned, shelf.stage = some (.written toMerge merged cleaned) →
    merged.Nodup ∧ ∀ seg ∈ toMerge, seg ∈ shelf.segments ∧ seg ∉ merged

variable {shard : ℕ} {shelf shelf' : Shelf dim}

/-- What comes on a shelf is new. -/
theorem Moved.held (moved : Moved env shard shelf shelf') (sound : shelf.Sound shard)
    {seg : Segment dim} (held : seg ∈ shelf'.segments ++ shelf'.merged) :
    seg ∈ shelf.segments ++ shelf.merged ∨
      seg.shardId = shard ∧ shelf.storage.Adds env.uuid seg shelf'.storage := by
  cases moved with
  | stay dirs uuids => exact Or.inl held
  | flush adds own perm =>
      rcases List.mem_append.mp held with listed | merged
      · rcases List.mem_cons.mp (perm.mem_iff.mp listed) with rfl | before
        · exact Or.inr ⟨own, adds⟩
        · exact Or.inl (List.mem_append_left _ before)
      · exact Or.inl (List.mem_append_right _ merged)
  | begin => exact Or.inl held
  | skip =>
      rw [List.mem_append, merged] at held
      refine Or.inl (List.mem_append_left _ (held.elim id fun remains => ?_))
      exact (sound.begun _ _ rfl).2 _ (List.mem_append_right _ remains)
  | write adds own perm =>
      rcases List.mem_append.mp held with before | written
      · exact Or.inl (List.mem_append_left _ before)
      · rcases List.mem_cons.mp (perm.mem_iff.mp written) with rfl | remains
        · exact Or.inr ⟨own, adds⟩
        · refine Or.inl (List.mem_append_left _ ?_)
          exact (sound.begun _ _ rfl).2 _ (List.mem_append_right _ remains)
  | commit dirs uuids =>
      refine Or.inl (List.mem_append_right _ ?_)
      simpa [merged] using held
  | remove => exact Or.inl held
  | finish => exact Or.inl held

theorem Moved.uuids (moved : Moved env shard shelf shelf') :
    shelf.storage.uuids ≤ shelf'.storage.uuids := by
  cases moved with
  | stay dirs uuids | commit dirs uuids => exact uuids.ge
  | flush adds own perm | write adds own perm => exact adds.uuids
  | begin | skip | remove | finish => exact le_rfl

/-- Only a commit takes segments off. -/
theorem Moved.listed (moved : Moved env shard shelf shelf') :
    (∀ seg ∈ shelf.segments, seg ∈ shelf'.segments) ∨
      (∃ stage ∈ shelf.stage, stage.Commits) ∧ shelf'.stage ≠ shelf.stage := by
  cases moved with
  | flush adds own perm =>
      exact Or.inl fun seg listed => perm.mem_iff.mpr (List.mem_cons_of_mem _ listed)
  | commit dirs uuids => exact Or.inr ⟨⟨_, rfl, trivial⟩, nofun⟩
  | stay | begin | skip | write | remove | finish => exact Or.inl fun _ => id

/-- What is not doomed keeps its directory. -/
theorem Moved.stored (moved : Moved env shard shelf shelf') {seg : Segment dim}
    (stored : seg.Stored shelf.storage) (named : shelf.storage.Named env.uuid seg.segmentId)
    (spared : seg.path ∉ shelf.doomed) : seg.Stored shelf'.storage := by
  have apart : ∀ {new : Segment dim} {st' : SharedStorage dim},
      shelf.storage.Adds env.uuid new st' → seg.Stored st' := by
    intro new st' adds
    refine stored.congr (adds.dirs seg.path fun same => adds.new ?_)
    rw [stored.path, adds.stored.path] at same
    rwa [← segmentPath_injective same]
  cases moved with
  | stay dirs uuids | commit dirs uuids => exact stored.congr (by rw [dirs])
  | flush adds own perm | write adds own perm => exact apart adds
  | begin | skip | finish => exact stored
  | remove =>
      refine stored.congr ((Dict.get?_erase ..).trans (if_neg fun same => spared ?_))
      rw [← same]
      exact List.mem_cons_self

/-- What is doomed anew was on the shelf and is taken off. -/
theorem Moved.doomed (moved : Moved env shard shelf shelf') (sound : shelf.Sound shard)
    {path : String} (doomed : path ∈ shelf'.doomed) : path ∈ shelf.doomed ∨
      ∃ seg ∈ shelf.segments, seg ∉ shelf'.segments ++ shelf'.merged ∧ path = seg.path := by
  cases moved with
  | stay dirs uuids => exact Or.inl doomed
  | flush adds own perm => exact Or.inl doomed
  | begin | skip | write adds own perm | finish => cases doomed
  | commit dirs uuids =>
      obtain ⟨seg, taken, rfl⟩ := List.mem_map.mp doomed
      obtain ⟨listed, left⟩ := (sound.written _ _ _ rfl).2 seg taken
      refine Or.inr ⟨seg, listed, fun held => left ?_, rfl⟩
      simpa [merged] using held
  | remove => exact Or.inl (List.mem_cons_of_mem _ doomed)

/-- A shelf stays sound. -/
theorem Moved.sound (moved : Moved env shard shelf shelf') (sound : shelf.Sound shard)
    (named : ∀ seg ∈ shelf.segments ++ shelf.merged,
      shelf.storage.Named env.uuid seg.segmentId) : shelf'.Sound shard := by
  have own : ∀ seg ∈ shelf'.segments ++ shelf'.merged, seg.shardId = shard := by
    intro seg held
    exact (moved.held sound held).elim (sound.own seg) And.left
  have absent : ∀ {seg : Segment dim} {st' : SharedStorage dim},
      shelf.storage.Adds env.uuid seg st' → seg ∉ shelf.segments :=
    fun adds listed => adds.new (named _ (List.mem_append_left _ listed))
  cases moved with
  | stay dirs uuids => exact ⟨own, sound.nodup, sound.begun, sound.written⟩
  | flush adds own' perm =>
      have later : ∀ {seg : Segment dim}, seg ∈ _ → seg ∈ _ :=
        fun listed => perm.mem_iff.mpr (List.mem_cons_of_mem _ listed)
      refine ⟨own, ?_, fun toMerge remaining same => ?_, fun toMerge merged cleaned same => ?_⟩
      · exact perm.nodup_iff.mpr (List.nodup_cons.mpr ⟨absent adds, sound.nodup⟩)
      · obtain ⟨nodup, listed⟩ := sound.begun toMerge remaining same
        exact ⟨nodup, fun seg member => later (listed seg member)⟩
      · obtain ⟨nodup, taken⟩ := sound.written toMerge merged cleaned same
        exact ⟨nodup, fun seg member => ⟨later (taken seg member).1, (taken seg member).2⟩⟩
  | begin =>
      refine ⟨own, sound.nodup, fun toMerge remaining same => ?_, nofun⟩
      cases same
      exact ⟨sound.nodup, fun _ => id⟩
  | skip =>
      obtain ⟨nodup, listed⟩ := sound.begun _ _ rfl
      have apart := List.nodup_append.mp nodup
      refine ⟨own, sound.nodup, nofun, fun toMerge merged cleaned same => ?_⟩
      cases same
      refine ⟨apart.2.1, fun seg taken => ⟨?_, fun remains => apart.2.2 seg taken seg remains rfl⟩⟩
      exact listed seg (List.mem_append_left _ taken)
  | write adds own' perm =>
      obtain ⟨nodup, listed⟩ := sound.begun _ _ rfl
      have apart := List.nodup_append.mp nodup
      have fresh : _ ∉ _ ++ _ := fun member => absent adds (listed _ member)
      rw [List.mem_append, not_or] at fresh
      refine ⟨own, sound.nodup, nofun, fun toMerge merged cleaned same => ?_⟩
      cases same
      refine ⟨perm.nodup_iff.mpr (List.nodup_cons.mpr ⟨fresh.2, apart.2.1⟩), fun seg taken =>
        ⟨listed seg (List.mem_append_left _ taken), fun member => ?_⟩⟩
      rcases List.mem_cons.mp (perm.mem_iff.mp member) with rfl | remains
      · exact fresh.1 taken
      · exact apart.2.2 seg taken seg remains rfl
  | commit dirs uuids => exact ⟨own, (sound.written _ _ _ rfl).1, nofun, nofun⟩
  | remove | finish => exact ⟨own, sound.nodup, nofun, nofun⟩

end Shelf

/-! ## What the pieces of a call move -/

section Pieces

variable {shard : ℕ} {n : Node dim}

/-- The shelf of an engine. -/
def Node.shelf (n : Node dim) (stage : Option (MergeStage dim)) : Shelf dim :=
  ⟨n.engine.segments, stage, n.storage⟩

theorem moved_of_logInsert {ids : List ℤ} {vectors : List (List UInt32)} {done : ℕ × Node dim}
    (ran : LSMEngine.logInsert env ids vectors n = .ok done) (stage : Option (MergeStage dim)) :
    Shelf.Moved env shard (n.shelf stage) (done.2.shelf stage) ∧
      done.2.engine.shardId = n.engine.shardId := by
  obtain ⟨-, -, ran⟩ := ok_of_bind ran
  obtain ⟨rows, -, ran⟩ := ok_of_bind ran
  obtain ⟨lsn, -, ran⟩ := ok_of_bind ran
  cases ran
  obtain ⟨dirs, uuids⟩ := LSMEngine.applyInsert_dirs n
    (n.engine.wal.append env.crc32 dim OP_INSERT ids vectors).2 lsn rows
  rw [Node.shelf, Node.shelf, LSMEngine.applyInsert_engine]
  exact ⟨.stay dirs uuids, rfl⟩

theorem moved_of_delete {ids : List ℤ} {done : ℕ × Node dim}
    (ran : LSMEngine.delete env ids n = .ok done) (stage : Option (MergeStage dim)) :
    Shelf.Moved env shard (n.shelf stage) (done.2.shelf stage) ∧
      done.2.engine.shardId = n.engine.shardId := by
  obtain ⟨-, -, ran⟩ := ok_of_bind ran
  obtain ⟨lsn, -, ran⟩ := ok_of_bind ran
  cases ran
  exact ⟨.stay rfl rfl, rfl⟩

theorem moved_of_flushMemtable (own : n.engine.shardId = shard)
    {done : Option (Segment dim) × Node dim} (ran : LSMEngine.flushMemtable env n = .ok done)
    (stage : Option (MergeStage dim)) : Shelf.Moved env shard (n.shelf stage) (done.2.shelf stage) ∧
      done.2.engine.shardId = n.engine.shardId := by
  obtain ⟨dirs, uuids⟩ := LSMEngine.captureDeletes_dirs n
  have engine := LSMEngine.captureDeletes_engine n
  obtain ⟨-, -, ran⟩ := ok_of_bind ran
  dsimp only at ran
  split at ran
  · cases ran
    refine ⟨?_, by rw [LSMEngine.clearMemtable, engine]⟩
    rw [Node.shelf, Node.shelf, LSMEngine.clearMemtable, engine]
    exact .stay dirs uuids
  · cases ran
    have segments : (LSMEngine.captureDeletes n).engine.segments = n.engine.segments := by
      rw [engine]
    have shardId : (LSMEngine.captureDeletes n).engine.shardId = n.engine.shardId := by rw [engine]
    generalize LSMEngine.captureDeletes n = captured at dirs uuids segments shardId ⊢
    have perm : (LSMEngine.sealMemtable env captured).2.engine.segments.Perm
        ((LSMEngine.sealMemtable env captured).1 :: n.engine.segments) := by
      rw [← segments]
      exact (List.perm_insertionSort _ _).trans (List.perm_append_singleton _ _)
    exact ⟨.flush (SharedStorage.adds_create env.uuid _ _ _ _ dirs uuids) (shardId.trans own) perm,
      shardId⟩

theorem moved_of_beginMerge {stage : Option (MergeStage dim)}
    (ran : LSMEngine.beginMerge n = .ok stage) :
    Shelf.Moved env shard (n.shelf none) (n.shelf stage) := by
  obtain ⟨-, -, ran⟩ := ok_of_bind ran
  split at ran
  · cases ran
    exact .stay rfl rfl
  · cases ran
    have split : n.engine.toMerge ++ n.engine.remaining = n.engine.segments :=
      List.take_append_drop _ _
    rw [Node.shelf, Node.shelf, ← split]
    exact .begin

theorem moved_of_mergeSection (own : n.engine.shardId = shard) {stage : MergeStage dim}
    {done : Node dim × Option (MergeStage dim)}
    (ran : LSMEngine.mergeSection env n stage = .ok done) :
    Shelf.Moved env shard (n.shelf (some stage)) (done.1.shelf done.2) ∧
      done.1.engine.shardId = n.engine.shardId := by
  cases stage with
  | begun toMerge remaining =>
      obtain ⟨latest, -, ran⟩ := ok_of_bind ran
      dsimp only at ran
      split at ran
      · cases ran
        exact ⟨.skip, rfl⟩
      · cases ran
        exact ⟨.write (SharedStorage.adds_create env.uuid _ _ _ _ rfl rfl) own
          (List.perm_insertionSort _ _), rfl⟩
  | written toMerge segments cleaned =>
      cases ran
      exact ⟨.commit rfl rfl, rfl⟩
  | removing paths =>
      cases paths with
      | nil =>
          cases ran
          exact ⟨.finish, rfl⟩
      | cons path paths =>
          cases ran
          exact ⟨.remove, rfl⟩

end Pieces

/-! ## All shelves -/

namespace World

variable {w w' : World dim numShards} {shard : Fin numShards}

def shelf (w : World dim numShards) (shard : Fin numShards) : Shelf dim :=
  (w.cluster.node shard).shelf (w.merges shard)

/-- The writer lists the segment, or is about to list it. -/
def Holds (w : World dim numShards) (seg : Segment dim) : Prop :=
  ∃ shard, seg ∈ (w.shelf shard).segments ++ (w.shelf shard).merged

/-- A piece of a call on one shard. -/
structure MovedAt (env : Env) (w : World dim numShards) (shard : Fin numShards)
    (w' : World dim numShards) : Prop where
  moved : Shelf.Moved env shard (w.shelf shard) (w'.shelf shard)
  shardId : (w'.cluster.writer.engines shard).shardId = (w.cluster.writer.engines shard).shardId
  others : ∀ other, other ≠ shard → w'.cluster.writer.engines other =
    w.cluster.writer.engines other ∧ w'.merges other = w.merges other
  registry : w'.cluster.registry = w.cluster.registry
  passes : w'.passes = w.passes
  reader : w'.reader = w.reader
  fetched : w'.fetched = w.fetched

theorem movedAt_of_section {n : Node dim} {stage : Option (MergeStage dim)}
    (moved : Shelf.Moved env shard (w.shelf shard) (n.shelf stage) ∧
      n.engine.shardId = (w.cluster.node shard).engine.shardId) :
    MovedAt env w shard { w with
      cluster := w.cluster.setNode shard n, merges := Function.update w.merges shard stage } := by
  refine ⟨?_, ?_, fun other different => ⟨Function.update_of_ne different _ _,
    Function.update_of_ne different _ _⟩, rfl, rfl, rfl, rfl⟩
  · have here : (w.cluster.setNode shard n).node shard = n := Cluster.node_setNode ..
    simp only [shelf, here, Function.update_self]
    exact moved.1
  · have here : (w.cluster.setNode shard n).writer.engines shard = n.engine :=
      Function.update_self ..
    simp only [here]
    exact moved.2

theorem movedAt_of_call {n : Node dim}
    (moved : Shelf.Moved env shard (w.shelf shard) (n.shelf (w.merges shard)) ∧
      n.engine.shardId = (w.cluster.node shard).engine.shardId) :
    MovedAt env w shard { w with cluster := w.cluster.setNode shard n } := by
  have piece := movedAt_of_section moved
  rwa [Function.update_eq_self] at piece

/-- Every segment on a shelf has its directory, and no merge is about to remove it. -/
structure Shelved (env : Env) (w : World dim numShards) : Prop where
  shardId : ∀ shard : Fin numShards, (w.cluster.writer.engines shard).shardId = shard
  sound : ∀ shard : Fin numShards, (w.shelf shard).Sound shard
  stored : ∀ seg, w.Holds seg →
    seg.Stored w.cluster.storage ∧ w.cluster.storage.Named env.uuid seg.segmentId
  doomed : ∀ shard, ∀ path ∈ (w.shelf shard).doomed,
    (∃ name, w.cluster.storage.Named env.uuid name ∧ path = segmentPath name) ∧
      ∀ seg, w.Holds seg → seg.path ≠ path

theorem MovedAt.shelf_of_ne (movedAt : MovedAt env w shard w') {other : Fin numShards}
    (different : other ≠ shard) : (w'.shelf other).segments = (w.shelf other).segments ∧
      (w'.shelf other).stage = (w.shelf other).stage := by
  obtain ⟨engine, stage⟩ := movedAt.others other different
  simp only [shelf, Node.shelf, Cluster.node, engine, stage, and_self]

/-- What comes on a shelf is new. -/
theorem MovedAt.holds (movedAt : MovedAt env w shard w') (sound : (w.shelf shard).Sound shard)
    {seg : Segment dim} (holds : w'.Holds seg) :
    w.Holds seg ∨ w.cluster.storage.Adds env.uuid seg w'.cluster.storage := by
  obtain ⟨other, held⟩ := holds
  rcases eq_or_ne other shard with rfl | different
  · exact (movedAt.moved.held sound held).imp (fun before => ⟨other, before⟩) And.right
  · obtain ⟨segments, stage⟩ := movedAt.shelf_of_ne different
    refine Or.inl ⟨other, ?_⟩
    rwa [segments, Shelf.merged, stage] at held

/-- **The step lemma.**  A piece of a call keeps the shelves. -/
theorem Shelved.moved (shelved : w.Shelved env) (movedAt : MovedAt env w shard w') :
    w'.Shelved env := by
  have sound := shelved.sound shard
  have uuids : w.cluster.storage.uuids ≤ w'.cluster.storage.uuids := movedAt.moved.uuids
  have named : ∀ seg ∈ (w.shelf shard).segments ++ (w.shelf shard).merged,
      w.cluster.storage.Named env.uuid seg.segmentId :=
    fun seg held => (shelved.stored seg ⟨shard, held⟩).2
  have new : ∀ {seg : Segment dim} {name : String},
      w.cluster.storage.Adds env.uuid seg w'.cluster.storage →
        w.cluster.storage.Named env.uuid name → seg.path ≠ segmentPath name := by
    intro seg name adds used same
    rw [adds.stored.path] at same
    exact adds.new (segmentPath_injective same ▸ used)
  refine ⟨fun other => ?_, fun other => ?_, fun seg holds => ?_, fun other path doomed => ?_⟩
  · rcases eq_or_ne other shard with rfl | different
    · exact movedAt.shardId.trans (shelved.shardId other)
    · rw [(movedAt.others other different).1]
      exact shelved.shardId other
  · rcases eq_or_ne other shard with rfl | different
    · exact movedAt.moved.sound sound named
    · obtain ⟨segments, stage⟩ := movedAt.shelf_of_ne different
      have theirs := shelved.sound other
      refine ⟨?_, segments ▸ theirs.nodup, ?_, ?_⟩
      · rw [Shelf.merged, segments, stage]
        exact theirs.own
      · rw [segments, stage]
        exact theirs.begun
      · rw [segments, stage]
        exact theirs.written
  · rcases movedAt.holds sound holds with before | adds
    · obtain ⟨stored, used⟩ := shelved.stored seg before
      refine ⟨movedAt.moved.stored stored used fun doomed => ?_, used.mono_uuids uuids⟩
      exact (shelved.doomed shard seg.path doomed).2 seg before rfl
    · exact ⟨adds.stored, adds.named⟩
  · have kept : ∀ {shard path}, path ∈ (w.shelf shard).doomed →
        (∃ name, w'.cluster.storage.Named env.uuid name ∧ path = segmentPath name) ∧
          ∀ seg, w'.Holds seg → seg.path ≠ path := by
      intro shard path doomed
      obtain ⟨⟨name, used, rfl⟩, spared⟩ := shelved.doomed shard path doomed
      refine ⟨⟨name, used.mono_uuids uuids, rfl⟩, fun seg holds => ?_⟩
      exact (movedAt.holds sound holds).elim (spared seg) fun adds => new adds used
    rcases eq_or_ne other shard with rfl | different
    · rcases movedAt.moved.doomed sound doomed with before | ⟨gone, listed, left, rfl⟩
      · exact kept before
      · -- a segment that its merge takes off is on no other shelf
        have held := List.mem_append_left (w.shelf other).merged listed
        obtain ⟨stored, used⟩ := shelved.stored gone ⟨other, held⟩
        refine ⟨⟨gone.segmentId, used.mono_uuids uuids, stored.path⟩, fun seg holds same => ?_⟩
        rcases movedAt.holds sound holds with before | adds
        · obtain rfl := (shelved.stored seg before).1.unique stored same
          obtain ⟨third, holds⟩ := holds
          rcases eq_or_ne third other with rfl | different
          · exact left holds
          · obtain ⟨segments, stage⟩ := movedAt.shelf_of_ne different
            rw [segments, Shelf.merged, stage] at holds
            exact different (Fin.ext
              (((shelved.sound third).own seg holds).symm.trans (sound.own seg held)))
        · exact new adds used (same.trans stored.path)
    · have stage := (movedAt.shelf_of_ne different).2
      rw [Shelf.doomed, stage] at doomed
      exact kept doomed

/-- Nothing on the shelves has moved. -/
structure SameShelves (w w' : World dim numShards) : Prop where
  shelf : ∀ shard, w'.shelf shard = w.shelf shard
  shardId : ∀ shard,
    (w'.cluster.writer.engines shard).shardId = (w.cluster.writer.engines shard).shardId
  storage : w'.cluster.storage = w.cluster.storage

theorem SameShelves.holds (same : SameShelves w w') {seg : Segment dim} :
    w'.Holds seg ↔ w.Holds seg := by
  simp only [Holds, same.shelf]

theorem Shelved.same (shelved : w.Shelved env) (same : SameShelves w w') : w'.Shelved env := by
  refine ⟨fun shard => (same.shardId shard).trans (shelved.shardId shard), fun shard => ?_,
    fun seg holds => ?_, fun shard path doomed => ?_⟩
  · rw [same.shelf]
    exact shelved.sound shard
  · rw [same.storage]
    exact shelved.stored seg (same.holds.mp holds)
  · rw [same.shelf] at doomed
    rw [same.storage]
    obtain ⟨named, spared⟩ := shelved.doomed shard path doomed
    exact ⟨named, fun seg holds => spared seg (same.holds.mp holds)⟩

/-! ## Actions -/

theorem movedAt_of_begin {stage : Option (MergeStage dim)} (idle : w.merges shard = none)
    (ran : LSMEngine.beginMerge (w.cluster.node shard) = .ok stage) :
    MovedAt env w shard { w with merges := Function.update w.merges shard stage } := by
  refine ⟨?_, rfl, fun other different => ⟨rfl, Function.update_of_ne different _ _⟩,
    rfl, rfl, rfl, rfl⟩
  simp only [shelf, idle, Function.update_self]
  exact moved_of_beginMerge ran

theorem movedAt_of_merge (shelved : w.Shelved env) {stage : MergeStage dim}
    {done : Node dim × Option (MergeStage dim)} (underWay : w.merges shard = some stage)
    (ran : LSMEngine.mergeSection env (w.cluster.node shard) stage = .ok done) :
    MovedAt env w shard { w with
      cluster := w.cluster.setNode shard done.1
      merges := Function.update w.merges shard done.2 } := by
  apply movedAt_of_section
  simp only [shelf, underWay]
  exact moved_of_mergeSection (shelved.shardId shard) ran

theorem sameShelves_of_close : SameShelves w { w with
    cluster := w.cluster.setNode shard (LSMEngine.close (w.cluster.node shard)) } := by
  refine ⟨fun other => ?_, fun other => ?_, rfl⟩
  · rcases eq_or_ne other shard with rfl | different
    · simp only [shelf, Cluster.node_setNode]
      rfl
    · simp only [shelf, Cluster.node, Cluster.engines_setNode _ different]
      rfl
  · rcases eq_or_ne other shard with rfl | different
    · simp only [Cluster.setNode, Function.update_self]
      rfl
    · rw [Cluster.engines_setNode _ different]

theorem sameShelves_of_engines (engines : w.cluster.SameEngines w'.cluster)
    (merges : w'.merges = w.merges) : SameShelves w w' := by
  refine ⟨fun shard => ?_, fun shard => by rw [engines.engines], engines.storage⟩
  simp only [shelf, Cluster.node, engines.engines, engines.storage, merges]

/-- **The step lemma.**  The writer and the reader keep the shelves. -/
theorem Shelved.step (shelved : w.Shelved env) {action : Action dim numShards}
    (acted : Acted env w action w') : w'.Shelved env := by
  cases acted with
  | idle => exact shelved
  | insert ran => exact shelved.moved (movedAt_of_call (moved_of_logInsert ran _))
  | delete ran => exact shelved.moved (movedAt_of_call (moved_of_delete ran _))
  | @flush shard done ran =>
      exact shelved.moved (movedAt_of_call (moved_of_flushMemtable (shelved.shardId shard) ran _))
  | close => exact shelved.same sameShelves_of_close
  | beginMerge idle ran => exact shelved.moved (movedAt_of_begin idle ran)
  | merge underWay ran => exact shelved.moved (movedAt_of_merge shelved underWay ran)
  | @pass i pass underWay =>
      exact shelved.same (sameShelves_of_engines (w.cluster.sameEngines_passStep pass) rfl)
  | beginPass | fetch | refresh | search =>
      exact shelved.same (sameShelves_of_engines ⟨rfl, rfl⟩ rfl)

/-- A writer with nothing under way. -/
theorem Shelved.idle {c : Cluster dim numShards} (sound : c.Sound env) (reader : SegmentCache dim) :
    (World.idle c reader).Shelved env := by
  have own : ∀ {shard : Fin numShards} {seg : Segment dim},
      seg ∈ ((World.idle c reader).shelf shard).segments ++
          ((World.idle c reader).shelf shard).merged →
        seg ∈ (c.writer.engines shard).segments :=
    fun held => (List.mem_append.mp held).resolve_right nofun
  have listed : ∀ seg, (World.idle c reader).Holds seg → seg ∈ c.writer.segments := by
    intro seg holds
    obtain ⟨shard, held⟩ := holds
    exact List.mem_flatMap.mpr ⟨shard, List.mem_finRange shard, own held⟩
  refine ⟨sound.shardId, fun shard => ⟨fun seg held => ?_, ?_, nofun, nofun⟩, fun seg holds => ?_,
    nofun⟩
  · obtain ⟨old, recent, layout⟩ := sound.layout shard
    exact (layout.segments.shard seg (own held)).trans (sound.shardId shard)
  · obtain ⟨old, recent, layout⟩ := sound.layout shard
    exact layout.segments.sorted.imp fun older => by rintro rfl; exact absurd older (lt_irrefl _)
  · exact ⟨(sound.stored (listed seg holds)).1, sound.named (listed seg holds)⟩

end World

end VecScale
