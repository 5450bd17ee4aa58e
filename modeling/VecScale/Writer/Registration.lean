import VecScale.Writer.Shards

/-!
# What a registration pass leaves

A pass withdraws the segments that no engine has any more, then announces those
that the writer does not remember.

* `mem_listSegments_withdrawn`, `mem_listSegments_announced`: the two loops;
* `mem_listSegments_register`: a pass, whatever the coordinator lists and the writer
  remembers;
* `Cluster.Tracks`: what holds between passes, when only this writer registers;
* `Cluster.Tracks.register`: after a pass the coordinator lists the segments of the
  engines and nothing else.
-/

namespace VecScale

variable {dim numShards : ℕ} {env : Env}

namespace Cluster

/-! ## The two loops -/

theorem mem_registered_withdrawn (names : List String) (c : Cluster dim numShards) (name : String) :
    name ∈ (names.foldl withdraw c).writer.registeredSegments ↔
      name ∈ c.writer.registeredSegments ∧ name ∉ names := by
  induction names generalizing c with
  | nil => simp
  | cons first names ih =>
      rw [List.foldl_cons, ih, withdraw, Finset.mem_erase, List.mem_cons, not_or]
      tauto

theorem mem_listSegments_withdrawn (names : List String) (c : Cluster dim numShards)
    (segMeta : SegmentMeta) :
    segMeta ∈ (names.foldl withdraw c).registry.listSegments ↔
      segMeta ∈ c.registry.listSegments ∧ segMeta.segmentId ∉ names := by
  induction names generalizing c with
  | nil => simp
  | cons first names ih =>
      rw [List.foldl_cons, ih, withdraw, Registry.mem_listSegments_deleteSegment, List.mem_cons,
        not_or]
      tauto

theorem mem_registered_announce (c : Cluster dim numShards) (segMeta : SegmentMeta) (name : String) :
    name ∈ (c.announce segMeta).writer.registeredSegments ↔
      name ∈ c.writer.registeredSegments ∨ name = segMeta.segmentId := by
  unfold announce
  split
  · next known =>
      constructor
      · exact Or.inl
      · intro either
        rcases either with before | rfl
        · exact before
        · exact known
  · rw [Finset.mem_insert, or_comm]

theorem mem_registered_announced (metas : List SegmentMeta) (c : Cluster dim numShards)
    (name : String) :
    name ∈ (metas.foldl announce c).writer.registeredSegments ↔
      name ∈ c.writer.registeredSegments ∨ name ∈ metas.map SegmentMeta.segmentId := by
  induction metas generalizing c with
  | nil => simp
  | cons first metas ih =>
      rw [List.foldl_cons, ih, mem_registered_announce, List.map_cons, List.mem_cons, or_assoc]

theorem mem_listSegments_announce (c : Cluster dim numShards) (segMeta listed : SegmentMeta) :
    listed ∈ (c.announce segMeta).registry.listSegments ↔
      if segMeta.segmentId = listed.segmentId ∧
          segMeta.segmentId ∉ c.writer.registeredSegments then listed = segMeta
      else listed ∈ c.registry.listSegments := by
  unfold announce
  split
  · next known => rw [if_neg fun both => both.2 known]
  · next unknown =>
      rw [Registry.mem_listSegments_registerSegment]
      simp only [unknown, not_false_eq_true, and_true]

/-- What announcing some segments leaves, when equal names mean equal segments. -/
theorem mem_listSegments_announced {metas : List SegmentMeta}
    (unique : ∀ a ∈ metas, ∀ b ∈ metas, a.segmentId = b.segmentId → a = b)
    (c : Cluster dim numShards) (listed : SegmentMeta) :
    listed ∈ (metas.foldl announce c).registry.listSegments ↔
      if listed.segmentId ∈ metas.map SegmentMeta.segmentId ∧
          listed.segmentId ∉ c.writer.registeredSegments then listed ∈ metas
      else listed ∈ c.registry.listSegments := by
  induction metas generalizing c with
  | nil => simp
  | cons first metas ih =>
      have later := ih fun a here b there =>
        unique a (List.mem_cons_of_mem _ here) b (List.mem_cons_of_mem _ there)
      rw [List.foldl_cons, later, mem_listSegments_announce]
      simp only [mem_registered_announce, List.map_cons, List.mem_cons]
      by_cases remembered : listed.segmentId ∈ c.writer.registeredSegments
      · have known : ¬ (first.segmentId = listed.segmentId ∧
            first.segmentId ∉ c.writer.registeredSegments) := fun both =>
          both.2 (both.1 ▸ remembered)
        simp [remembered, known]
      · by_cases same : listed.segmentId = first.segmentId
        · have one : listed ∈ metas → listed = first := fun member =>
            unique listed (List.mem_cons_of_mem _ member) first List.mem_cons_self same
          have new : first.segmentId ∉ c.writer.registeredSegments := same ▸ remembered
          simp [same, new, or_iff_left_of_imp one]
        · have other : listed ≠ first := fun equal => same (congrArg SegmentMeta.segmentId equal)
          simp [same, Ne.symm same, remembered, other]

/-! ## Segments and their names -/

/-- Segments of one name are one segment. -/
theorem Sound.unique {c : Cluster dim numShards} (sound : c.Sound env) {a b : Segment dim}
    (left : a ∈ c.writer.segments) (right : b ∈ c.writer.segments)
    (same : a.segmentId = b.segmentId) : a = b := by
  have stored : ∀ {seg : Segment dim}, seg ∈ c.writer.segments → seg.Stored c.storage := by
    intro seg member
    rcases List.mem_flatMap.mp member with ⟨shard, -, listed⟩
    obtain ⟨old, recent, layout⟩ := sound.layout shard
    exact layout.segments.stored seg listed
  exact (stored left).unique_name (stored right) same

theorem Sound.shard_lt {c : Cluster dim numShards} (sound : c.Sound env) {seg : Segment dim}
    (member : seg ∈ c.writer.segments) : seg.shardId < numShards := by
  rcases List.mem_flatMap.mp member with ⟨shard, -, listed⟩
  obtain ⟨old, recent, layout⟩ := sound.layout shard
  have own := layout.segments.shard seg listed
  change seg.shardId = (c.writer.engines shard).shardId at own
  rw [own, sound.shardId]
  exact shard.isLt

/-- The metadata of the engines' segments. -/
def metas (c : Cluster dim numShards) : List SegmentMeta := c.writer.segments.map Segment.segMeta

theorem mem_metas {c : Cluster dim numShards} {segMeta : SegmentMeta} :
    segMeta ∈ c.metas ↔ ∃ seg ∈ c.writer.segments, seg.segMeta = segMeta :=
  List.mem_map

theorem Sound.metas_unique {c : Cluster dim numShards} (sound : c.Sound env) :
    ∀ a ∈ c.metas, ∀ b ∈ c.metas, a.segmentId = b.segmentId → a = b := by
  intro a left b right same
  rcases mem_metas.mp left with ⟨seg, here, rfl⟩
  rcases mem_metas.mp right with ⟨seg', here', rfl⟩
  exact congrArg Segment.segMeta (sound.unique here here' same)

/-! ## A pass -/

/-- The names that a pass withdraws. -/
def gone (c : Cluster dim numShards) : List String :=
  (stale numShards (c.writer.segments.map Segment.segmentId) c.registry.listSegments).map
    SegmentMeta.segmentId

theorem ids_metas (c : Cluster dim numShards) :
    c.metas.map SegmentMeta.segmentId = c.writer.segments.map Segment.segmentId := by
  rw [metas, List.map_map]
  rfl

/-- A listed name is withdrawn iff its shard is the writer's and no engine has it. -/
theorem mem_gone {c : Cluster dim numShards} {segMeta : SegmentMeta}
    (listed : segMeta ∈ c.registry.listSegments) :
    segMeta.segmentId ∈ c.gone ↔
      segMeta.shardId < numShards ∧ segMeta.segmentId ∉ c.metas.map SegmentMeta.segmentId := by
  rw [ids_metas, gone, List.mem_map]
  constructor
  · intro withdrawn
    rcases withdrawn with ⟨other, isStale, same⟩
    rcases List.mem_filter.mp isStale with ⟨listed', foreign⟩
    cases Registry.eq_of_segmentId listed' listed same
    exact of_decide_eq_true foreign
  · intro foreign
    exact ⟨segMeta, List.mem_filter.mpr ⟨listed, decide_eq_true foreign⟩, rfl⟩

/-- No local name is withdrawn. -/
theorem not_mem_gone {c : Cluster dim numShards} {name : String}
    (isLocal : name ∈ c.metas.map SegmentMeta.segmentId) : name ∉ c.gone := by
  intro withdrawn
  rcases List.mem_map.mp withdrawn with ⟨segMeta, isStale, rfl⟩
  exact ((mem_gone (List.mem_filter.mp isStale).1).mp withdrawn).2 isLocal

theorem registerUnregisteredSegments_eq (c : Cluster dim numShards) :
    c.registerUnregisteredSegments = c.metas.foldl announce (c.gone.foldl withdraw c) := rfl

/-- What the writer remembers after a pass. -/
theorem mem_registered_register (c : Cluster dim numShards) (name : String) :
    name ∈ c.registerUnregisteredSegments.writer.registeredSegments ↔
      (name ∈ c.writer.registeredSegments ∧ name ∉ c.gone) ∨
        name ∈ c.metas.map SegmentMeta.segmentId := by
  rw [registerUnregisteredSegments_eq, mem_registered_announced, mem_registered_withdrawn]

/-- **A pass**, whatever the coordinator lists and the writer remembers: a local name that
is not remembered is registered, one that is remembered is left as it is, and of the other
names those of the writer's shards go. -/
theorem Sound.mem_listSegments_register {c : Cluster dim numShards} (sound : c.Sound env)
    (listed : SegmentMeta) :
    listed ∈ c.registerUnregisteredSegments.registry.listSegments ↔
      if listed.segmentId ∈ c.metas.map SegmentMeta.segmentId then
        if listed.segmentId ∈ c.writer.registeredSegments then listed ∈ c.registry.listSegments
        else listed ∈ c.metas
      else listed ∈ c.registry.listSegments ∧ numShards ≤ listed.shardId := by
  rw [registerUnregisteredSegments_eq, mem_listSegments_announced sound.metas_unique]
  simp only [mem_registered_withdrawn, mem_listSegments_withdrawn]
  by_cases isLocal : listed.segmentId ∈ c.metas.map SegmentMeta.segmentId
  · by_cases remembered : listed.segmentId ∈ c.writer.registeredSegments <;>
      simp [isLocal, remembered, not_mem_gone isLocal]
  · rw [if_neg (fun both => isLocal both.1), if_neg isLocal, and_congr_right_iff]
    intro before
    rw [mem_gone before, not_and_not_right, ← not_lt]
    exact ⟨fun known own => isLocal (known own), fun foreign own => absurd own foreign⟩

/-- The coordinator lists, of the writer's shards, the engines' segments, and of the
other shards what it listed before. -/
structure Repairs (c c' : Cluster dim numShards) : Prop where
  own : ∀ segMeta, (segMeta ∈ c'.registry.listSegments ∧ segMeta.shardId < numShards) ↔
    ∃ seg ∈ c.writer.segments, seg.segMeta = segMeta
  others : ∀ segMeta, numShards ≤ segMeta.shardId →
    (segMeta ∈ c'.registry.listSegments ↔ segMeta ∈ c.registry.listSegments)

/-- A local segment that the writer remembers is listed as it is, and no entry of another
shard is filed under a local name. -/
structure Repairable (c : Cluster dim numShards) : Prop where
  remembered : ∀ seg ∈ c.writer.segments, seg.segmentId ∈ c.writer.registeredSegments →
    seg.segMeta ∈ c.registry.listSegments
  foreign : ∀ segMeta ∈ c.registry.listSegments, numShards ≤ segMeta.shardId →
    ∀ seg ∈ c.writer.segments, seg.segmentId ≠ segMeta.segmentId

/-- A local name is that of one local segment. -/
theorem exists_of_local {c : Cluster dim numShards} {name : String}
    (isLocal : name ∈ c.metas.map SegmentMeta.segmentId) :
    ∃ seg ∈ c.writer.segments, seg.segmentId = name := by
  rwa [ids_metas, List.mem_map] at isLocal

theorem Repairable.repairs {c : Cluster dim numShards} (repairable : c.Repairable)
    (sound : c.Sound env) : c.Repairs c.registerUnregisteredSegments := by
  rcases repairable with ⟨remembered, foreign⟩
  constructor
  · intro segMeta
    rw [sound.mem_listSegments_register, ← mem_metas]
    split
    · next isLocal =>
        split
        · next known =>
            constructor
            · intro both
              obtain ⟨seg, member, same⟩ := exists_of_local isLocal
              have listed := remembered seg member (same ▸ known)
              exact Registry.eq_of_segmentId listed both.1 same ▸ List.mem_map_of_mem member
            · intro member
              rcases mem_metas.mp member with ⟨seg, here, rfl⟩
              exact ⟨remembered seg here known, sound.shard_lt here⟩
        · refine ⟨fun both => both.1, fun member => ⟨member, ?_⟩⟩
          rcases mem_metas.mp member with ⟨seg, here, rfl⟩
          exact sound.shard_lt here
    · next notLocal =>
        constructor
        · intro both
          exact absurd both.2 (not_lt.mpr both.1.2)
        · intro member
          exact absurd (List.mem_map_of_mem member) notLocal
  · intro segMeta other
    rw [sound.mem_listSegments_register]
    split
    · next isLocal =>
        obtain ⟨seg, member, same⟩ := exists_of_local isLocal
        split
        · exact Iff.rfl
        · constructor
          · intro listed
            rcases mem_metas.mp listed with ⟨seg', here, rfl⟩
            exact absurd (sound.shard_lt here) (not_lt.mpr other)
          · intro listed
            exact absurd same (foreign segMeta listed other seg member)
    · exact and_iff_left other

/-- What the coordinator lists is in step with the writer. -/
def InStep (c : Cluster dim numShards) : Prop :=
  ∀ name, name ∈ c.writer.registeredSegments ↔
    ∃ segMeta ∈ c.registry.listSegments, segMeta.segmentId = name

/-- What the coordinator lists is in step with the writer, of its shards, and of the
engines' segments wherever it names one of them. -/
structure Tracks (c : Cluster dim numShards) : Prop where
  inStep : c.InStep
  shard : ∀ segMeta ∈ c.registry.listSegments, segMeta.shardId < numShards
  agrees : ∀ seg ∈ c.writer.segments, ∀ segMeta ∈ c.registry.listSegments,
    seg.segmentId = segMeta.segmentId → seg.segMeta = segMeta

/-- The coordinator lists the segments of the engines and nothing else. -/
def Registered (c : Cluster dim numShards) : Prop :=
  c.InStep ∧ ∀ segMeta, segMeta ∈ c.registry.listSegments ↔
    ∃ seg ∈ c.writer.segments, seg.segMeta = segMeta

theorem Tracks.repairable {c : Cluster dim numShards} (tracks : c.Tracks) : c.Repairable := by
  constructor
  · intro seg member known
    obtain ⟨segMeta, listed, same⟩ := (tracks.inStep _).mp known
    rwa [tracks.agrees seg member segMeta listed same.symm]
  · intro segMeta listed other
    exact absurd (tracks.shard segMeta listed) (not_lt.mpr other)

/-- **After a pass** the coordinator lists the segments of the engines. -/
theorem Tracks.register {c : Cluster dim numShards} (tracks : c.Tracks) (sound : c.Sound env) :
    c.registerUnregisteredSegments.Registered := by
  obtain ⟨own, others⟩ := tracks.repairable.repairs sound
  have listed : ∀ segMeta, segMeta ∈ c.registerUnregisteredSegments.registry.listSegments ↔
      ∃ seg ∈ c.writer.segments, seg.segMeta = segMeta := by
    intro segMeta
    rw [← own]
    constructor
    · intro here
      refine ⟨here, ?_⟩
      by_contra other
      exact other (tracks.shard segMeta ((others segMeta (not_lt.mp other)).mp here))
    · exact fun both => both.1
  have segments : c.registerUnregisteredSegments.writer.segments = c.writer.segments := by
    rw [WriterPipeline.segments, (sameEngines_register c).engines]
    rfl
  rw [Registered, segments]
  refine ⟨fun name => ?_, listed⟩
  simp only [listed, exists_exists_and_eq_and]
  rw [mem_registered_register, ids_metas, List.mem_map]
  constructor
  · intro either
    rcases either with ⟨known, kept⟩ | isLocal
    · obtain ⟨segMeta, before, rfl⟩ := (tracks.inStep name).mp known
      rw [mem_gone before, not_and_not_right] at kept
      exact exists_of_local (kept (tracks.shard segMeta before))
    · exact isLocal
  · exact Or.inr

theorem Sound.stored {c : Cluster dim numShards} (sound : c.Sound env) {seg : Segment dim}
    (member : seg ∈ c.writer.segments) : seg.Stored c.storage ∧ c.storage.Drawn env.uuid := by
  rcases List.mem_flatMap.mp member with ⟨shard, -, listed⟩
  obtain ⟨old, recent, layout⟩ := sound.layout shard
  exact ⟨layout.segments.stored seg listed, layout.segments.drawn⟩

/-- A directory of one of the writer's shards holds a segment of its engine. -/
theorem Sound.mem_of_stored {c : Cluster dim numShards} (sound : c.Sound env) {seg : Segment dim}
    (stored : seg.Stored c.storage) (own : seg.shardId < numShards) : seg ∈ c.writer.segments := by
  let shard : Fin numShards := ⟨seg.shardId, own⟩
  obtain ⟨old, recent, layout⟩ := sound.layout shard
  obtain ⟨seg', stored', path, listed⟩ :=
    layout.segments.dirs seg.path (Dict.mem_keys_iff.mpr ⟨_, stored.files⟩)
  cases stored'.unique stored path
  exact List.mem_flatMap.mpr ⟨shard, List.mem_finRange shard, listed (sound.shardId shard).symm⟩

/-- Between passes the engines work, and what is listed stays true where it counts. -/
theorem Registered.tracks {c c' : Cluster dim numShards} (registered : c.Registered)
    (sound : c.Sound env) (sound' : c'.Sound env)
    (grows : SharedStorage.Grows env.uuid c.storage c'.storage) (registry : c'.registry = c.registry)
    (remembered : c'.writer.registeredSegments = c.writer.registeredSegments) : c'.Tracks := by
  rcases registered with ⟨inStep, listed⟩
  refine ⟨?_, fun segMeta member => ?_, fun seg here segMeta member same => ?_⟩
  · rw [InStep, registry, remembered]
    exact inStep
  · rw [registry, listed] at member
    rcases member with ⟨seg, here, rfl⟩
    exact sound.shard_lt here
  · rw [registry, listed] at member
    rcases member with ⟨earlier, before, rfl⟩
    obtain ⟨stored, drawn⟩ := sound.stored before
    obtain ⟨stored', -⟩ := sound'.stored here
    have paths : earlier.path = seg.path := by
      rw [stored.path, stored'.path]
      exact congrArg segmentPath same.symm
    rw [stored.same_of_grows grows drawn stored' paths]

/-- Deletes leave the segments alone. -/
theorem Sound.segments_of_deletes {parts : List (Fin numShards × Call dim)}
    (int64 : ∀ part ∈ parts, part.2.Int64) (deletes : ∀ part ∈ parts, ∃ ids, part.2 = .delete ids)
    {c c' : Cluster dim numShards} (sound : c.Sound env)
    (ran : runAll (Cluster.shardStep env) c parts = .ok c') :
    c'.writer.segments = c.writer.segments := by
  induction parts generalizing c with
  | nil =>
      cases ran
      rfl
  | cons part parts ih =>
      rcases part with ⟨shard, request⟩
      obtain ⟨middle, here, rest⟩ := runAll_cons_inv ran
      obtain ⟨ids, same⟩ := deletes _ List.mem_cons_self
      cases same
      have stepped := sound.shardStep (int64 _ List.mem_cons_self) here
      rw [ih (fun later member => int64 later (List.mem_cons_of_mem _ member))
        (fun later member => deletes later (List.mem_cons_of_mem _ member)) stepped.sound rest]
      refine List.flatMap_congr fun other _ => ?_
      rcases eq_or_ne other shard with rfl | different
      · rcases stepped.ran with ⟨old, recent, -, ranNode⟩
        generalize after : middle.node other = n at ranNode
        cases ranNode with
        | delete appended => exact congrArg (fun n => n.engine.segments) after
      · rw [stepped.others other different]

/-- A writer that starts on an empty registry finds it in order. -/
theorem Started.registered {settings : Settings} {c : Cluster dim numShards}
    (started : Started env settings c) :
    c.loadRegisteredSegments.registerUnregisteredSegments.Registered := by
  have nothing : ∀ segMeta, segMeta ∉ c.loadRegisteredSegments.registry.listSegments := by
    intro segMeta listed
    change segMeta ∈ c.registry.listSegments at listed
    rw [started.registry, Registry.mem_listSegments] at listed
    cases listed
  have same := c.sameEngines_load
  refine Tracks.register ⟨fun name => ?_, fun segMeta member => absurd member (nothing segMeta),
    fun seg _ segMeta member => absurd member (nothing segMeta)⟩ (same.sound started.sound)
  simp only [loadRegisteredSegments, List.mem_toFinset, List.mem_map]

variable [NeZero numShards]

/-- **The step lemma.**  Between calls the coordinator lists the segments of the
engines and nothing else. -/
theorem Registered.call {c c' : Cluster dim numShards} {request : Call dim}
    (registered : c.Registered) (sound : c.Sound env) (int64 : request.Int64)
    (ran : c.call env request = .ok c') :
    c'.Registered ∧ c'.Sound env ∧ SharedStorage.Grows env.uuid c.storage c'.storage := by
  obtain ⟨written, ranParts, finished⟩ := parts_of_call ran
  have partsInt64 : ∀ part ∈ request.parts numShards, part.2.Int64 :=
    fun part member x named => int64 x (mem_ids_of_part member named).1
  obtain ⟨soundWritten, grows, registry, remembered⟩ := sound.runParts partsInt64 ranParts
  have same := written.sameEngines_finish request
  rw [← finished] at same
  refine ⟨?_, same.sound soundWritten, same.storage ▸ grows⟩
  rw [finished]
  cases request with
  | insert rows =>
      exact (registered.tracks sound soundWritten grows registry remembered).register soundWritten
  | delete ids =>
      have deletes : ∀ part ∈ (Call.delete ids : Call dim).parts numShards,
          ∃ ids', part.2 = .delete ids' := fun part member => ⟨_, part_eq_within member⟩
      change written.Registered
      rw [Registered, InStep, registry, remembered,
        sound.segments_of_deletes partsInt64 deletes ranParts]
      exact registered

end Cluster

end VecScale
