import VecScale.Lib.Pool
import VecScale.Writer.Registration
import VecScale.Writer.Sections

/-!
# Registration passes that overlap

Calls of `insert` and turns of the registration loop are tasks on one writer.  A task
gives way between two calls on engines and wherever a request or its answer is under
way, and the tasks go on in any order.

* `Kept.passStep`: what a step of a pass does to one segment's registration;
* `WriterPool.Tracked.step`: what every event keeps;
* `passes_lose_nothing`: the condition under which no segment is lost;
* `registered_segment_lost`: a pass that withdraws a segment before its registration is
  answered.
-/

namespace VecScale

variable {dim numShards : ℕ} {env : Env}

/-! ## Names -/

/-- The name was drawn for this storage. -/
def SharedStorage.Named (uuid : Uuid4) (st : SharedStorage dim) (name : String) : Prop :=
  ∃ shard snapshot draw, draw < st.uuids ∧ name = segmentName shard snapshot (uuid.hex draw)

theorem SharedStorage.Named.mono_uuids {uuid : Uuid4} {st st' : SharedStorage dim} {name : String}
    (named : st.Named uuid name) (uuids : st.uuids ≤ st'.uuids) : st'.Named uuid name := by
  rcases named with ⟨shard, snapshot, draw, made, same⟩
  exact ⟨shard, snapshot, draw, made.trans_le uuids, same⟩

theorem SharedStorage.Named.mono {uuid : Uuid4} {st st' : SharedStorage dim} {name : String}
    (named : st.Named uuid name) (grows : SharedStorage.Grows uuid st st') : st'.Named uuid name :=
  named.mono_uuids grows.uuids

namespace Cluster

variable {c c' : Cluster dim numShards}

theorem Sound.named (sound : c.Sound env) {seg : Segment dim} (member : seg ∈ c.writer.segments) :
    c.storage.Named env.uuid seg.segmentId := by
  obtain ⟨stored, drawn⟩ := sound.stored member
  obtain ⟨shard, snapshot, draw, made, same⟩ :=
    drawn seg.path (Dict.mem_keys_iff.mpr ⟨_, stored.files⟩)
  rw [stored.path] at same
  exact ⟨shard, snapshot, draw, made, segmentPath_injective same⟩

/-- A segment that was not there before has a name that nobody has used. -/
theorem Sound.old_or_new (sound : c.Sound env) (sound' : c'.Sound env)
    (grows : SharedStorage.Grows env.uuid c.storage c'.storage) {seg : Segment dim}
    (member : seg ∈ c'.writer.segments) :
    seg ∈ c.writer.segments ∨ ¬ c.storage.Named env.uuid seg.segmentId := by
  obtain ⟨stored, -⟩ := sound'.stored member
  rcases grows.dirs _ _ stored.files with before | ⟨shard, snapshot, draw, new, -, same⟩
  · have old : seg.Stored c.storage := ⟨before, stored.path, stored.metaPath, stored.uncached⟩
    exact Or.inl (sound.mem_of_stored old (sound'.shard_lt member))
  · right
    intro named
    rcases named with ⟨shard', snapshot', draw', made, same'⟩
    rw [stored.path] at same
    have draws := segmentName_hex env.uuid (same'.symm.trans (segmentPath_injective same))
    omega

/-- The metadata of a segment that the writer has, or had. -/
structure Accurate (env : Env) (c : Cluster dim numShards) (segMeta : SegmentMeta) : Prop where
  named : c.storage.Named env.uuid segMeta.segmentId
  agrees : ∀ seg ∈ c.writer.segments, seg.segmentId = segMeta.segmentId → seg.segMeta = segMeta

theorem Sound.accurate (sound : c.Sound env) {seg : Segment dim}
    (member : seg ∈ c.writer.segments) : c.Accurate env seg.segMeta :=
  ⟨sound.named member, fun _ other same => congrArg Segment.segMeta (sound.unique other member same)⟩

theorem Accurate.step {segMeta : SegmentMeta} (accurate : c.Accurate env segMeta)
    (sound : c.Sound env) (sound' : c'.Sound env)
    (grows : SharedStorage.Grows env.uuid c.storage c'.storage) : c'.Accurate env segMeta := by
  refine ⟨accurate.named.mono grows, fun seg member same => ?_⟩
  rcases sound.old_or_new sound' grows member with old | new
  · exact accurate.agrees seg old same
  · exact absurd (same ▸ accurate.named) new

end Cluster

/-! ## A pass and one segment -/

namespace RegistrationPass

/-- The pass makes the writer forget the name, or registers it once more. -/
def Mends (name : String) : RegistrationPass → Prop
  | .withdrawing names => name ∈ names
  | .withdrawn first names => name = first ∨ name ∈ names
  | .registering segMeta _ => segMeta.segmentId = name
  | .listing _ | .announcing _ | .registered _ _ => False

/-- The pass is still to look at the segment. -/
def Covers (segMeta : SegmentMeta) : RegistrationPass → Prop
  | .listing _ | .withdrawing _ | .withdrawn _ _ => True
  | .announcing metas => segMeta ∈ metas
  | .registering first metas => segMeta = first ∨ segMeta ∈ metas
  | .registered _ metas => segMeta ∈ metas

/-- The segments that the pass goes through. -/
def metas : RegistrationPass → List SegmentMeta
  | .announcing metas => metas
  | .registering segMeta metas | .registered segMeta metas => segMeta :: metas
  | .listing _ | .withdrawing _ | .withdrawn _ _ => []

instance (name : String) : (pass : RegistrationPass) → Decidable (pass.Mends name)
  | .withdrawing _ => inferInstanceAs (Decidable (_ ∈ _))
  | .withdrawn _ _ => inferInstanceAs (Decidable (_ ∨ _))
  | .registering _ _ => inferInstanceAs (Decidable (_ = _))
  | .listing _ | .announcing _ | .registered _ _ => inferInstanceAs (Decidable False)

theorem covers_of_mends {pass : RegistrationPass} {segMeta : SegmentMeta}
    (accurate : ∀ listed ∈ pass.metas, segMeta.segmentId = listed.segmentId → segMeta = listed)
    (mends : pass.Mends segMeta.segmentId) : pass.Covers segMeta := by
  cases pass with
  | listing localIds => trivial
  | withdrawing names => trivial
  | withdrawn name names => trivial
  | announcing metas => exact mends.elim
  | registering first metas => exact Or.inl (accurate first List.mem_cons_self mends.symm)
  | registered first metas => exact mends.elim

end RegistrationPass

/-- The coordinator lists the segment, or else some task still `covers` it, and `mends`
what the writer remembers of it. -/
structure Kept (c : Cluster dim numShards) (seg : Segment dim) (mends covers : Prop) : Prop where
  mended : seg.segmentId ∈ c.writer.registeredSegments →
    seg.segMeta ∈ c.registry.listSegments ∨ mends
  covered : seg.segMeta ∈ c.registry.listSegments ∨ covers

section Step

variable {c : Cluster dim numShards} {pass : RegistrationPass} {seg : Segment dim}
  {mends covers : Prop}

/-- A step after which the pass is still to look at every segment. -/
theorem Kept.ahead {c' : Cluster dim numShards} {pass' : RegistrationPass}
    (ahead : pass'.Covers seg.segMeta)
    (mended : seg.segmentId ∈ c'.writer.registeredSegments →
      seg.segMeta ∈ c'.registry.listSegments ∨ pass'.Mends seg.segmentId ∨ mends) :
    Kept c' seg ((∃ next ∈ some pass', next.Mends seg.segmentId) ∨ mends)
      ((∃ next ∈ some pass', next.Covers seg.segMeta) ∨ covers) := by
  refine ⟨fun remembered => ?_, Or.inr (Or.inl ⟨pass', rfl, ahead⟩)⟩
  rcases mended remembered with listed | mine | other
  · exact Or.inl listed
  · exact Or.inr (Or.inl ⟨pass', rfl, mine⟩)
  · exact Or.inr (Or.inr other)

/-- **The step lemma for one segment.**  A pass that goes on leaves no segment unlisted and
uncovered, when an answer that makes the writer remember the segment finds it listed, or
mended by another task. -/
theorem Kept.passStep
    (kept : Kept c seg (pass.Mends seg.segmentId ∨ mends) (pass.Covers seg.segMeta ∨ covers))
    (implied : mends → covers) (member : seg ∈ c.writer.segments)
    (accurate : ∀ listed ∈ pass.metas, seg.segmentId = listed.segmentId → seg.segMeta = listed)
    (answered : ∀ segMeta metas, pass = .registered segMeta metas →
      segMeta.segmentId = seg.segmentId → seg.segMeta ∈ c.registry.listSegments ∨ mends) :
    Kept (c.passStep pass).1 seg
      ((∃ pass' ∈ (c.passStep pass).2, pass'.Mends seg.segmentId) ∨ mends)
      ((∃ pass' ∈ (c.passStep pass).2, pass'.Covers seg.segMeta) ∨ covers) := by
  rcases kept with ⟨mended, covered⟩
  cases pass with
  | listing localIds =>
      refine .ahead trivial fun remembered => ?_
      exact (mended remembered).imp_right fun either => Or.inr (either.resolve_left id)
  | withdrawing names =>
      cases names with
      | nil =>
          refine .ahead (List.mem_map_of_mem member) fun remembered => ?_
          exact (mended remembered).imp_right fun either => Or.inr (either.resolve_left nofun)
      | cons name names =>
          refine .ahead trivial fun remembered => ?_
          by_cases same : seg.segmentId = name
          · exact Or.inr (Or.inl (Or.inl same))
          · rcases mended remembered with listed | mine | other
            · exact Or.inl (Registry.mem_listSegments_deleteSegment.mpr ⟨same, listed⟩)
            · exact Or.inr (Or.inl (List.mem_cons.mp mine))
            · exact Or.inr (Or.inr other)
  | withdrawn name names =>
      refine .ahead trivial fun remembered => ?_
      rcases Finset.mem_erase.mp remembered with ⟨different, before⟩
      rcases mended before with listed | mine | other
      · exact Or.inl listed
      · exact Or.inr (Or.inl (mine.resolve_left different))
      · exact Or.inr (Or.inr other)
  | announcing metas =>
      cases metas with
      | nil =>
          refine ⟨fun remembered => ?_, ?_⟩
          · exact (mended remembered).imp_right fun either => Or.inr (either.resolve_left id)
          · exact covered.imp_right fun either => Or.inr (either.resolve_left nofun)
      | cons first metas =>
          have others : seg.segmentId ∈ c.writer.registeredSegments →
              seg.segMeta ∈ c.registry.listSegments ∨ mends := fun remembered =>
            (mended remembered).imp_right fun either => either.resolve_left id
          simp only [Cluster.passStep]
          split
          · next known =>
              refine ⟨fun remembered => (others remembered).imp_right Or.inr, ?_⟩
              rcases covered with listed | mine | other
              · exact Or.inl listed
              · rcases List.mem_cons.mp mine with same | later
                · -- the pass skips a segment that the writer remembers
                  rw [← same] at known
                  exact (others known).imp_right fun mends => Or.inr (implied mends)
                · exact Or.inr (Or.inl ⟨_, rfl, later⟩)
              · exact Or.inr (Or.inr other)
          · refine ⟨fun remembered => (others remembered).imp_right Or.inr, ?_⟩
            rcases covered with listed | mine | other
            · exact Or.inl listed
            · exact Or.inr (Or.inl ⟨_, rfl, List.mem_cons.mp mine⟩)
            · exact Or.inr (Or.inr other)
  | registering first metas =>
      have listing : seg.segMeta ∈ c.registry.listSegments ∨ first.segmentId = seg.segmentId →
          seg.segMeta ∈ (c.registry.registerSegment first).listSegments := by
        intro either
        rw [Registry.mem_listSegments_registerSegment]
        by_cases same : first.segmentId = seg.segmentId
        · rw [if_pos same]
          exact accurate first List.mem_cons_self same.symm
        · rw [if_neg same]
          exact either.resolve_right same
      refine ⟨fun remembered => ?_, ?_⟩
      · rcases mended remembered with listed | mine | other
        · exact Or.inl (listing (Or.inl listed))
        · exact Or.inl (listing (Or.inr mine))
        · exact Or.inr (Or.inr other)
      · rcases covered with listed | mine | other
        · exact Or.inl (listing (Or.inl listed))
        · rcases mine with same | later
          · exact Or.inl (listing (Or.inr (congrArg SegmentMeta.segmentId same.symm)))
          · exact Or.inr (Or.inl ⟨_, rfl, later⟩)
        · exact Or.inr (Or.inr other)
  | registered first metas =>
      refine ⟨fun remembered => ?_, ?_⟩
      · rcases Finset.mem_insert.mp remembered with same | before
        · exact (answered first metas rfl same.symm).imp_right Or.inr
        · exact (mended before).imp_right fun either => Or.inr (either.resolve_left id)
      · rcases covered with listed | mine | other
        · exact Or.inl listed
        · exact Or.inr (Or.inl ⟨_, rfl, mine⟩)
        · exact Or.inr (Or.inr other)

end Step

/-! ## Tasks -/

/-- A call of `insert` or a turn of the registration loop, by what it does next. -/
inductive WriterTask (dim numShards : ℕ)
  | inserting (parts : List (Fin numShards × Call dim))
  | passing (pass : RegistrationPass)
  | returned

/-- What starts a task. -/
inductive WriterRequest (dim : ℕ)
  | insert (rows : List (Row dim))
  | segmentRegistrationLoop

namespace WriterTask

/-- A turn of the loop is a pass with no rows before it. -/
def start (numShards : ℕ) [NeZero numShards] : WriterRequest dim → WriterTask dim numShards
  | .insert rows => .inserting ((Call.insert rows).parts numShards)
  | .segmentRegistrationLoop => .inserting []

def ofPass : Option RegistrationPass → WriterTask dim numShards
  | none => .returned
  | some pass => .passing pass

/-- What a task does before it gives way again. -/
def next (env : Env) (c : Cluster dim numShards) :
    WriterTask dim numShards → Except PyError (Cluster dim numShards × WriterTask dim numShards)
  | .inserting (part :: parts) => do
      let written ← c.shardStep env part
      .ok (written, .inserting parts)
  | .inserting [] => .ok (c, .passing c.beginPass)
  | .passing pass => .ok ((c.passStep pass).1, ofPass (c.passStep pass).2)
  | .returned => .ok (c, .returned)

def Mends (name : String) : WriterTask dim numShards → Prop
  | .passing pass => pass.Mends name
  | .inserting _ | .returned => False

def Covers (segMeta : SegmentMeta) : WriterTask dim numShards → Prop
  | .inserting _ => True
  | .passing pass => pass.Covers segMeta
  | .returned => False

def metas : WriterTask dim numShards → List SegmentMeta
  | .passing pass => pass.metas
  | .inserting _ | .returned => []

/-- The rows that the task is still to insert have int64 ids. -/
def Int64 : WriterTask dim numShards → Prop
  | .inserting parts => ∀ part ∈ parts, part.2.Int64
  | .passing _ | .returned => True

def Returned : WriterTask dim numShards → Prop
  | .returned => True
  | .inserting _ | .passing _ => False

instance (name : String) : (task : WriterTask dim numShards) → Decidable (task.Mends name)
  | .passing _ => inferInstanceAs (Decidable (RegistrationPass.Mends _ _))
  | .inserting _ | .returned => inferInstanceAs (Decidable False)

instance : (task : WriterTask dim numShards) → Decidable task.Returned
  | .returned => inferInstanceAs (Decidable True)
  | .inserting _ | .passing _ => inferInstanceAs (Decidable False)

theorem exists_ofPass {P : RegistrationPass → Prop} {Q : WriterTask dim numShards → Prop}
    {pass : Option RegistrationPass} (passing : ∀ pass, Q (.passing pass) ↔ P pass)
    (returned : ¬ Q .returned) : (∃ pass' ∈ pass, P pass') ↔ Q (ofPass pass) := by
  cases pass with
  | none => simpa [ofPass] using returned
  | some pass => simpa [ofPass] using (passing pass).symm

end WriterTask

theorem Cluster.SameEngines.segments {c c' : Cluster dim numShards} (same : c.SameEngines c') :
    c'.writer.segments = c.writer.segments := by
  rw [WriterPipeline.segments, same.engines]
  rfl

/-- What the writer remembers after a step it remembered before, or was just told. -/
theorem Cluster.mem_registered_passStep {c : Cluster dim numShards} {pass : RegistrationPass}
    {name : String} (remembered : name ∈ (c.passStep pass).1.writer.registeredSegments) :
    name ∈ c.writer.registeredSegments ∨ ∃ segMeta ∈ pass.metas, segMeta.segmentId = name := by
  cases pass with
  | listing localIds => exact Or.inl remembered
  | withdrawing names => cases names <;> exact Or.inl remembered
  | withdrawn first names => exact Or.inl (Finset.mem_erase.mp remembered).2
  | announcing metas =>
      cases metas with
      | nil => exact Or.inl remembered
      | cons first metas =>
          simp only [passStep] at remembered
          split at remembered <;> exact Or.inl remembered
  | registering first metas => exact Or.inl remembered
  | registered first metas =>
      rcases Finset.mem_insert.mp remembered with same | before
      · exact Or.inr ⟨first, List.mem_cons_self, same.symm⟩
      · exact Or.inl before

/-- A pass goes through segments that it went through before, or through those of the
engines. -/
theorem Cluster.metas_passStep {c : Cluster dim numShards} {pass pass' : RegistrationPass}
    (goesOn : (c.passStep pass).2 = some pass') {segMeta : SegmentMeta}
    (member : segMeta ∈ pass'.metas) :
    segMeta ∈ pass.metas ∨ ∃ seg ∈ c.writer.segments, seg.segMeta = segMeta := by
  cases pass with
  | listing localIds =>
      cases goesOn
      cases member
  | withdrawing names =>
      cases names with
      | nil =>
          cases goesOn
          exact Or.inr (List.mem_map.mp member)
      | cons name names =>
          cases goesOn
          cases member
  | withdrawn name names =>
      cases goesOn
      cases member
  | announcing metas =>
      cases metas with
      | nil => cases goesOn
      | cons first metas =>
          simp only [passStep] at goesOn
          split at goesOn
          · cases goesOn
            exact Or.inl (List.mem_cons_of_mem _ member)
          · cases goesOn
            exact Or.inl member
  | registering first metas =>
      cases goesOn
      exact Or.inl member
  | registered first metas =>
      cases goesOn
      exact Or.inl (List.mem_cons_of_mem _ member)

/-! ## Runs -/

/-- A writer with its storage and coordinator, and the tasks on it. -/
abbrev WriterPool (dim numShards : ℕ) := Pool (Cluster dim numShards) (WriterTask dim numShards)

namespace WriterPool

/-- The rows of a call have int64 ids. -/
def RowsInt64 : Pool.Event (WriterRequest dim) → Prop
  | .call (.insert rows) => (Call.insert rows).Int64
  | .call .segmentRegistrationLoop | .advance _ => True

instance : (event : Pool.Event (WriterRequest dim)) → Decidable (RowsInt64 event)
  | .call (.insert _) => inferInstanceAs (Decidable (Call.Int64 _))
  | .call .segmentRegistrationLoop | .advance _ => inferInstanceAs (Decidable True)

/-- The answer to a registration, if the segment is still there, finds it listed, or some
task about to mend what the writer remembers of it. -/
def InTime (p : WriterPool dim numShards) : WriterTask dim numShards → Prop
  | .passing (.registered segMeta _) => ∀ seg ∈ p.shared.writer.segments,
      seg.segmentId = segMeta.segmentId →
        seg.segMeta ∈ p.shared.registry.listSegments ∨ ∃ task ∈ p.tasks, task.Mends seg.segmentId
  | _ => True

instance (p : WriterPool dim numShards) : (task : WriterTask dim numShards) →
    Decidable (p.InTime task)
  | .passing (.registered _ _) => inferInstanceAs (Decidable (∀ _ ∈ _, _ → _))
  | .passing (.listing _) | .passing (.withdrawing _) | .passing (.withdrawn _ _)
  | .passing (.announcing _) | .passing (.registering _ _) | .inserting _ | .returned =>
      inferInstanceAs (Decidable True)

/-- What holds while the tasks go on. -/
structure Tracked (env : Env) (p : WriterPool dim numShards) : Prop where
  sound : p.shared.Sound env
  remembered : ∀ name ∈ p.shared.writer.registeredSegments, p.shared.storage.Named env.uuid name
  accurate : ∀ task ∈ p.tasks, ∀ segMeta ∈ task.metas, p.shared.Accurate env segMeta
  int64 : ∀ task ∈ p.tasks, task.Int64
  kept : ∀ seg ∈ p.shared.writer.segments, Kept p.shared seg
    (∃ task ∈ p.tasks, task.Mends seg.segmentId) (∃ task ∈ p.tasks, task.Covers seg.segMeta)

variable [NeZero numShards]

def step (env : Env) : WriterPool dim numShards → Pool.Event (WriterRequest dim) →
    Except PyError (WriterPool dim numShards) :=
  Pool.step (WriterTask.start numShards) (WriterTask.next env)

/-- A new task has nothing behind it. -/
theorem Tracked.call {p : WriterPool dim numShards} (tracked : Tracked env p)
    {request : WriterRequest dim} (rowsInt64 : RowsInt64 (.call request)) :
    Tracked env ⟨p.shared, p.tasks ++ [WriterTask.start numShards request]⟩ := by
  have members : ∀ t, t ∈ p.tasks ++ [WriterTask.start numShards request] ↔
      t = WriterTask.start numShards request ∨ t ∈ p.tasks := by
    intro t
    rw [List.mem_append, List.mem_singleton, or_comm]
  refine ⟨tracked.sound, tracked.remembered, fun task member => ?_, fun task member => ?_,
    fun seg member => ?_⟩
  · rcases (members task).mp member with rfl | before
    · intro segMeta listed
      cases request <;> cases listed
    · exact tracked.accurate task before
  · rcases (members task).mp member with rfl | before
    · cases request with
      | insert rows =>
          exact fun part member x named => rowsInt64 x (mem_ids_of_part member named).1
      | segmentRegistrationLoop => exact nofun
    · exact tracked.int64 task before
  · obtain ⟨mended, covered⟩ := tracked.kept seg member
    refine ⟨fun inMemory => ?_, ?_⟩
    · rw [Pool.exists_mem_iff members]
      exact (mended inMemory).imp_right Or.inr
    · rw [Pool.exists_mem_iff members]
      exact covered.imp_right Or.inr

section Advance

variable {p : WriterPool dim numShards} {c' : Cluster dim numShards}
  {task task' : WriterTask dim numShards} {others tasks' : List (WriterTask dim numShards)}

omit [NeZero numShards] in
/-- One task goes on while the others stay as they are. -/
theorem Tracked.advanced (tracked : Tracked env p)
    (before : ∀ t, t ∈ p.tasks ↔ t = task ∨ t ∈ others)
    (after : ∀ t, t ∈ tasks' ↔ t = task' ∨ t ∈ others) (sound' : c'.Sound env)
    (remembered' : ∀ name ∈ c'.writer.registeredSegments, c'.storage.Named env.uuid name)
    (accurate' : ∀ segMeta, p.shared.Accurate env segMeta → c'.Accurate env segMeta)
    (goesThrough : ∀ segMeta ∈ task'.metas, c'.Accurate env segMeta) (int64' : task'.Int64)
    (kept' : ∀ seg ∈ c'.writer.segments, Kept c' seg
      (task'.Mends seg.segmentId ∨ ∃ t ∈ others, t.Mends seg.segmentId)
      (task'.Covers seg.segMeta ∨ ∃ t ∈ others, t.Covers seg.segMeta)) :
    Tracked env ⟨c', tasks'⟩ := by
  have fromOthers : ∀ t ∈ others, t ∈ p.tasks := fun t other => (before t).mpr (Or.inr other)
  refine ⟨sound', remembered', fun t listed => ?_, fun t listed => ?_, fun seg inEngine => ?_⟩
  · rcases (after t).mp listed with rfl | other
    · exact goesThrough
    · exact fun segMeta named =>
        accurate' segMeta (tracked.accurate t (fromOthers t other) segMeta named)
  · rcases (after t).mp listed with rfl | other
    · exact int64'
    · exact tracked.int64 t (fromOthers t other)
  · simp only [Pool.exists_mem_iff after]
    exact kept' seg inEngine

omit [NeZero numShards] in
theorem Tracked.keptBefore (tracked : Tracked env p)
    (before : ∀ t, t ∈ p.tasks ↔ t = task ∨ t ∈ others) {seg : Segment dim}
    (inEngine : seg ∈ p.shared.writer.segments) : Kept p.shared seg
      (task.Mends seg.segmentId ∨ ∃ t ∈ others, t.Mends seg.segmentId)
      (task.Covers seg.segMeta ∨ ∃ t ∈ others, t.Covers seg.segMeta) := by
  have kept := tracked.kept seg inEngine
  rwa [Pool.exists_mem_iff before, Pool.exists_mem_iff before] at kept

omit [NeZero numShards] in
/-- An insert on one shard: a segment that it adds has a name that nobody remembers. -/
theorem Tracked.insertPart (tracked : Tracked env p) {part : Fin numShards × Call dim}
    {parts : List (Fin numShards × Call dim)}
    (before : ∀ t, t ∈ p.tasks ↔ t = .inserting (part :: parts) ∨ t ∈ others)
    (after : ∀ t, t ∈ tasks' ↔ t = .inserting parts ∨ t ∈ others)
    (called : p.shared.shardStep env part = .ok c') : Tracked env ⟨c', tasks'⟩ := by
  have partsInt64 := tracked.int64 _ ((before _).mpr (Or.inl rfl))
  have stepped := tracked.sound.shardStep (partsInt64 part List.mem_cons_self) called
  refine tracked.advanced before after stepped.sound (fun name inMemory => ?_)
    (fun segMeta known => known.step tracked.sound stepped.sound stepped.grows) nofun
    (fun later listed => partsInt64 later (List.mem_cons_of_mem _ listed))
    fun seg inEngine => ⟨fun inMemory => ?_, Or.inr (Or.inl trivial)⟩
  · rw [stepped.registry.2] at inMemory
    exact (tracked.remembered name inMemory).mono stepped.grows
  · rw [stepped.registry.2] at inMemory
    rw [stepped.registry.1]
    rcases tracked.sound.old_or_new stepped.sound stepped.grows inEngine with old | new
    · exact ((tracked.keptBefore before old).mended inMemory).imp_right fun either =>
        Or.inr (either.resolve_left id)
    · exact absurd (tracked.remembered _ inMemory) new

omit [NeZero numShards] in
theorem Tracked.beginPass (tracked : Tracked env p)
    (before : ∀ t, t ∈ p.tasks ↔ t = .inserting [] ∨ t ∈ others)
    (after : ∀ t, t ∈ tasks' ↔ t = .passing p.shared.beginPass ∨ t ∈ others) :
    Tracked env ⟨p.shared, tasks'⟩ := by
  refine tracked.advanced before after tracked.sound tracked.remembered (fun _ same => same) nofun
    trivial fun seg inEngine => ⟨fun inMemory => ?_, Or.inr (Or.inl trivial)⟩
  exact ((tracked.keptBefore before inEngine).mended inMemory).imp_right fun either =>
    Or.inr (either.resolve_left id)

omit [NeZero numShards] in
/-- A task that mends a segment is still to look at it. -/
theorem Tracked.covers_of_mends (tracked : Tracked env p) (member : task ∈ p.tasks)
    {seg : Segment dim} (inEngine : seg ∈ p.shared.writer.segments)
    (mends : task.Mends seg.segmentId) : task.Covers seg.segMeta := by
  cases task with
  | inserting parts => exact mends.elim
  | passing pass =>
      exact RegistrationPass.covers_of_mends (fun listed known named =>
        (tracked.accurate _ member listed known).agrees seg inEngine named) mends
  | returned => exact mends.elim

omit [NeZero numShards] in
theorem Tracked.passOn (tracked : Tracked env p) {pass : RegistrationPass}
    (before : ∀ t, t ∈ p.tasks ↔ t = .passing pass ∨ t ∈ others)
    (after : ∀ t, t ∈ tasks' ↔ t = .ofPass (p.shared.passStep pass).2 ∨ t ∈ others)
    (inTime : p.InTime (.passing pass)) : Tracked env ⟨(p.shared.passStep pass).1, tasks'⟩ := by
  have member := (before (.passing pass)).mpr (Or.inl rfl)
  have same := p.shared.sameEngines_passStep pass
  have segments := same.segments
  have accurateNow : ∀ segMeta, p.shared.Accurate env segMeta →
      (p.shared.passStep pass).1.Accurate env segMeta := by
    intro segMeta known
    refine ⟨?_, ?_⟩
    · rw [same.storage]
      exact known.named
    · rw [segments]
      exact known.agrees
  refine tracked.advanced before after (same.sound tracked.sound) (fun name inMemory => ?_)
    accurateNow (fun segMeta listed => ?_) ?_ fun seg inEngine => ?_
  · rw [same.storage]
    rcases Cluster.mem_registered_passStep inMemory with known | ⟨segMeta, listed, rfl⟩
    · exact tracked.remembered name known
    · exact (tracked.accurate _ member segMeta listed).named
  · apply accurateNow
    cases goesOn : (p.shared.passStep pass).2 with
    | none =>
        rw [goesOn] at listed
        cases listed
    | some pass' =>
        rw [goesOn] at listed
        rcases Cluster.metas_passStep goesOn listed with known | ⟨seg, inEngine, rfl⟩
        · exact tracked.accurate _ member segMeta known
        · exact tracked.sound.accurate inEngine
  · cases (p.shared.passStep pass).2 <;> trivial
  · rw [segments] at inEngine
    have implied : (∃ t ∈ others, t.Mends seg.segmentId) →
        ∃ t ∈ others, t.Covers seg.segMeta := by
      intro mends
      rcases mends with ⟨t, other, mends⟩
      exact ⟨t, other, tracked.covers_of_mends ((before t).mpr (Or.inr other)) inEngine mends⟩
    have agrees : ∀ listed ∈ pass.metas, seg.segmentId = listed.segmentId →
        seg.segMeta = listed := fun listed known named =>
      (tracked.accurate _ member listed known).agrees seg inEngine named
    have kept' := (tracked.keptBefore before inEngine).passStep implied inEngine agrees <| by
      intro segMeta metas stage name
      subst stage
      refine (inTime seg inEngine name.symm).imp_right fun mends => ?_
      exact ((Pool.exists_mem_iff before _).mp mends).resolve_left id
    have mendsIff : (∃ pass' ∈ (p.shared.passStep pass).2, pass'.Mends seg.segmentId) ↔
        WriterTask.Mends seg.segmentId
          (WriterTask.ofPass (p.shared.passStep pass).2 : WriterTask dim numShards) :=
      WriterTask.exists_ofPass (fun _ => Iff.rfl) id
    have coversIff : (∃ pass' ∈ (p.shared.passStep pass).2, pass'.Covers seg.segMeta) ↔
        WriterTask.Covers seg.segMeta
          (WriterTask.ofPass (p.shared.passStep pass).2 : WriterTask dim numShards) :=
      WriterTask.exists_ofPass (fun _ => Iff.rfl) id
    rwa [mendsIff, coversIff] at kept'

end Advance

/-- **The step lemma.** -/
theorem Tracked.step {p p' : WriterPool dim numShards} {event : Pool.Event (WriterRequest dim)}
    (tracked : Tracked env p) (rowsInt64 : RowsInt64 event) (inTime : p.AtTask InTime event)
    (ran : p.step env event = .ok p') : Tracked env p' := by
  cases Pool.stepped_of_step ran with
  | call request => exact tracked.call rowsInt64
  | idle absent => exact tracked
  | @advance i task task' c' tasks' others here ran before after =>
      have inTime := (Pool.atTask_advance here).mp inTime
      cases task with
      | inserting parts =>
          cases parts with
          | nil =>
              cases ran
              exact tracked.beginPass before after
          | cons part parts =>
              obtain ⟨written, called, rest⟩ := ok_of_bind ran
              cases rest
              exact tracked.insertPart before after called
      | passing pass =>
          cases ran
          exact tracked.passOn before after inTime
      | returned =>
          cases ran
          exact tracked.advanced before after tracked.sound tracked.remembered
            (fun _ same => same) nofun trivial fun seg inEngine =>
              tracked.keptBefore before inEngine

/-- Every task is done. -/
def Finished (p : WriterPool dim numShards) : Prop := ∀ task ∈ p.tasks, task.Returned

/-- The coordinator lists, of the writer's shards, the segments of the engines, and so does
the writer. -/
structure Reconciled (c : Cluster dim numShards) : Prop where
  registry : ∀ segMeta, (segMeta ∈ c.registry.listSegments ∧ segMeta.shardId < numShards) ↔
    ∃ seg ∈ c.writer.segments, seg.segMeta = segMeta
  remembered : ∀ name, name ∈ c.writer.registeredSegments ↔
    ∃ seg ∈ c.writer.segments, seg.segmentId = name

/-- The engines' segments are listed, and those remembered are listed. -/
def NothingLost (c : Cluster dim numShards) : Prop :=
  (∀ seg ∈ c.writer.segments, seg.segMeta ∈ c.registry.listSegments) ∧
    ∀ seg ∈ c.writer.segments, seg.segmentId ∈ c.writer.registeredSegments →
      seg.segMeta ∈ c.registry.listSegments

instance (c : Cluster dim numShards) : Decidable (NothingLost c) :=
  inferInstanceAs (Decidable (_ ∧ _))

instance (p : WriterPool dim numShards) : Decidable p.Finished :=
  inferInstanceAs (Decidable (∀ _ ∈ _, _))

omit [NeZero numShards] in
theorem Tracked.of_reconciled {c : Cluster dim numShards} (sound : c.Sound env)
    (reconciled : Reconciled c) : Tracked env (⟨c, []⟩ : WriterPool dim numShards) := by
  refine ⟨sound, fun name remembered => ?_, nofun, nofun, fun seg member => ?_⟩
  · obtain ⟨seg, member, rfl⟩ := (reconciled.remembered name).mp remembered
    exact sound.named member
  · have listed := ((reconciled.registry seg.segMeta).mpr ⟨seg, member, rfl⟩).1
    exact ⟨fun _ => Or.inl listed, Or.inl listed⟩

omit [NeZero numShards] in
/-- When every task is done, nothing but the coordinator can cover a segment. -/
theorem Tracked.nothingLost {p : WriterPool dim numShards} (tracked : Tracked env p)
    (finished : p.Finished) : NothingLost p.shared := by
  have listed : ∀ seg ∈ p.shared.writer.segments, seg.segMeta ∈ p.shared.registry.listSegments := by
    intro seg member
    rcases (tracked.kept seg member).covered with listed | ⟨task, inPool, covers⟩
    · exact listed
    · have returned := finished task inPool
      cases task with
      | inserting parts => exact returned.elim
      | passing pass => exact returned.elim
      | returned => exact covers.elim
  exact ⟨listed, fun seg member _ => listed seg member⟩

/-- **Overlapping passes lose no segment**, when every answer to a registration comes in
time: whatever the calls and passes, and however their steps, requests and answers
interleave, in the end the coordinator lists the engines' segments. -/
theorem passes_lose_nothing {c : Cluster dim numShards} (sound : c.Sound env)
    (reconciled : Reconciled c) {events : List (Pool.Event (WriterRequest dim))}
    (rowsInt64 : ∀ event ∈ events, RowsInt64 event)
    (inTime : StepsMeet (step env) (Pool.AtTask InTime) ⟨c, []⟩ events)
    {p : WriterPool dim numShards} (ran : runAll (step env) ⟨c, []⟩ events = .ok p)
    (finished : p.Finished) : NothingLost p.shared := by
  have tracked : Tracked env p := runAll_preserves
    (fun _ _ _ tracked both ran => tracked.step both.2 both.1 ran)
    (.of_reconciled sound reconciled) (inTime.and rowsInt64) ran
  exact tracked.nothingLost finished

omit [NeZero numShards] in
/-- A writer that has registered everything, as it has after its start and after any call
on its own. -/
theorem reconciled_of_registered {c : Cluster dim numShards} (sound : c.Sound env)
    (registered : c.Registered) : Reconciled c := by
  rcases registered with ⟨inStep, listed⟩
  refine ⟨fun segMeta => ?_, fun name => ?_⟩
  · rw [listed]
    constructor
    · exact fun both => both.1
    · intro found
      rcases found with ⟨seg, member, rfl⟩
      exact ⟨⟨seg, member, rfl⟩, sound.shard_lt member⟩
  · rw [inStep]
    simp only [listed, exists_exists_and_eq_and]

omit [NeZero numShards] in
theorem reconciled_of_boot {settings : Settings} {c : Cluster dim numShards}
    (booted : Cluster.boot env settings = .ok c) : c.Sound env ∧ Reconciled c := by
  obtain ⟨begun, started, booted'⟩ := Cluster.boot_ok dim numShards env settings
  rw [booted, Except.ok.injEq] at booted'
  have sound : c.Sound env := (booted' ▸ begun.sameEngines_boot).sound started.sound
  exact ⟨sound, reconciled_of_registered sound (booted' ▸ started.registered)⟩

/-! ## Late answers -/

/-- A turn of the loop begins; two calls of `insert` flush a segment on each shard; the
first one registers its segment, without an answer yet, and the second one registers both. -/
def bothRegistered : List (Pool.Event (WriterRequest 1)) :=
  [.call .segmentRegistrationLoop, .advance 0, .call (.insert [(0, zeroVec 1)])] ++
    List.replicate 6 (.advance 1) ++ [.call (.insert [(1, zeroVec 1)])] ++
    List.replicate 11 (.advance 2)

/-- The turn withdraws the first segment, the first call has its answer, and the turn goes
on. -/
def answeredLate : List (Pool.Event (WriterRequest 1)) :=
  bothRegistered ++ List.replicate 3 (.advance 0) ++ List.replicate 2 (.advance 1) ++
    List.replicate 8 (.advance 0)

/-- The first call has its answer before the turn goes on. -/
def answeredEarly : List (Pool.Event (WriterRequest 1)) :=
  bothRegistered ++ List.replicate 2 (.advance 1) ++ List.replicate 14 (.advance 0)

theorem passes_lose_nothing_early :
    ∃ (boot : Cluster 1 2) (p : WriterPool 1 2), Cluster.boot Env.counted ⟨1, 1, 10⟩ = .ok boot ∧
      runAll (step Env.counted) ⟨boot, []⟩ answeredEarly = .ok p ∧ p.Finished ∧
      p.shared.writer.segments.length = 2 ∧ NothingLost p.shared := by
  have evaluated : (do
      let boot : Cluster 1 2 ← Cluster.boot Env.counted ⟨1, 1, 10⟩
      let p ← runAll (step Env.counted) ⟨boot, []⟩ answeredEarly
      .ok (decide (StepsMeet (step Env.counted) (Pool.AtTask InTime) ⟨boot, []⟩ answeredEarly ∧
        p.Finished ∧ p.shared.writer.segments.length = 2))) = .ok true := by
    decide +kernel
  obtain ⟨boot, booted, rest⟩ := ok_of_bind evaluated
  obtain ⟨p, ran, rest⟩ := ok_of_bind rest
  rw [Except.ok.injEq, decide_eq_true_eq] at rest
  obtain ⟨sound, reconciled⟩ := reconciled_of_boot booted
  exact ⟨boot, p, booted, ran, rest.2.1, rest.2.2,
    passes_lose_nothing sound reconciled (by decide) rest.1 ran rest.2.1⟩

/-- Every task is done, and the first segment is neither listed nor going to be. -/
theorem registered_segment_lost :
    ∃ (boot : Cluster 1 2) (p : WriterPool 1 2), Cluster.boot Env.counted ⟨1, 1, 10⟩ = .ok boot ∧
      Reconciled boot ∧ runAll (step Env.counted) ⟨boot, []⟩ answeredLate = .ok p ∧ p.Finished ∧
      ¬ NothingLost p.shared := by
  have evaluated : (do
      let boot : Cluster 1 2 ← Cluster.boot Env.counted ⟨1, 1, 10⟩
      let p ← runAll (step Env.counted) ⟨boot, []⟩ answeredLate
      .ok (decide (p.Finished ∧ ¬ NothingLost p.shared))) = .ok true := by
    decide +kernel
  obtain ⟨boot, booted, rest⟩ := ok_of_bind evaluated
  obtain ⟨p, ran, rest⟩ := ok_of_bind rest
  rw [Except.ok.injEq, decide_eq_true_eq] at rest
  exact ⟨boot, p, booted, (reconciled_of_boot booted).2, ran, rest⟩

end WriterPool

end VecScale
