import VecScale.Writer.Registration

/-!
# Passes over a registry that has changed

Between two passes the coordinator's registry may lose or gain entries, as it does when
the metadata store is reset.  A pass reads what is listed to decide what to withdraw, but
only its own memory to decide what to announce.

* `repairs_iff`: when a pass repairs the registry;
* `reset_registry_stays_empty`: a segment that was registered once is not registered again.
-/

namespace VecScale

namespace Cluster

variable {dim numShards : ℕ} {env : Env} {c : Cluster dim numShards}

/-- A pass leaves alone what is listed under a local name that the writer remembers. -/
theorem Sound.mem_listSegments_of_remembered (sound : c.Sound env) {seg : Segment dim}
    (member : seg ∈ c.writer.segments) (known : seg.segmentId ∈ c.writer.registeredSegments)
    {listed : SegmentMeta} (same : seg.segmentId = listed.segmentId) :
    listed ∈ c.registerUnregisteredSegments.registry.listSegments ↔
      listed ∈ c.registry.listSegments := by
  have isLocal : listed.segmentId ∈ c.metas.map SegmentMeta.segmentId := by
    rw [ids_metas, ← same]
    exact List.mem_map_of_mem member
  rw [sound.mem_listSegments_register, if_pos isLocal, if_pos (same ▸ known)]

/-- A pass makes room for a local segment that the writer does not remember. -/
theorem Sound.eq_of_unremembered (sound : c.Sound env) {seg : Segment dim}
    (member : seg ∈ c.writer.segments) (unknown : seg.segmentId ∉ c.writer.registeredSegments)
    {listed : SegmentMeta} (same : seg.segmentId = listed.segmentId)
    (after : listed ∈ c.registerUnregisteredSegments.registry.listSegments) :
    seg.segMeta = listed := by
  have mine : seg.segMeta ∈ c.metas := List.mem_map_of_mem member
  have isLocal : listed.segmentId ∈ c.metas.map SegmentMeta.segmentId := by
    rw [← same]
    exact List.mem_map_of_mem mine
  rw [sound.mem_listSegments_register, if_pos isLocal, if_neg (same ▸ unknown)] at after
  exact sound.metas_unique _ mine _ after same

theorem Repairs.repairable (repairs : c.Repairs c.registerUnregisteredSegments)
    (sound : c.Sound env) : c.Repairable := by
  rcases repairs with ⟨own, others⟩
  have remembered : ∀ seg ∈ c.writer.segments,
      seg.segmentId ∈ c.writer.registeredSegments → seg.segMeta ∈ c.registry.listSegments := by
    intro seg member known
    have after := ((own seg.segMeta).mpr ⟨seg, member, rfl⟩).1
    exact (sound.mem_listSegments_of_remembered member known rfl).mp after
  refine ⟨remembered, fun listed before other seg member same => ?_⟩
  have different : seg.segMeta ≠ listed := by
    intro equal
    have own := sound.shard_lt member
    change seg.segMeta.shardId < numShards at own
    rw [equal] at own
    omega
  by_cases known : seg.segmentId ∈ c.writer.registeredSegments
  · exact different (Registry.eq_of_segmentId (remembered seg member known) before same)
  · have after := (others listed other).mpr before
    exact different (sound.eq_of_unremembered member known same after)

/-- **When a pass repairs the registry**, whatever is listed before it and whatever the
writer remembers. -/
theorem repairs_iff (sound : c.Sound env) :
    c.Repairs c.registerUnregisteredSegments ↔ c.Repairable :=
  ⟨fun repairs => repairs.repairable sound, fun repairable => repairable.repairs sound⟩

instance : Decidable c.Repairable :=
  decidable_of_iff
    ((∀ seg ∈ c.writer.segments, seg.segmentId ∈ c.writer.registeredSegments →
        seg.segMeta ∈ c.registry.listSegments) ∧
      ∀ segMeta ∈ c.registry.listSegments, numShards ≤ segMeta.shardId →
        ∀ seg ∈ c.writer.segments, seg.segmentId ≠ segMeta.segmentId)
    ⟨fun both => ⟨both.1, both.2⟩, fun repairable => ⟨repairable.1, repairable.2⟩⟩

/-- The metadata store comes back with other entries. -/
def withRegistry (c : Cluster dim numShards) (registry : Registry) : Cluster dim numShards :=
  { c with registry := registry }

theorem Sound.withRegistry (sound : c.Sound env) (registry : Registry) :
    (c.withRegistry registry).Sound env := by
  have same : c.SameEngines (c.withRegistry registry) := ⟨rfl, rfl⟩
  exact same.sound sound

/-! ## A registry that was reset -/

/-- A writer of one shard with a segment that it has registered. -/
def oneRegistered : Except PyError (Cluster 1 1) := do
  let boot ← boot Env.counted ⟨1, 1, 10⟩
  boot.call Env.counted (.insert [(7, zeroVec 1)])

/-- An entry of another shard, and one of this shard that no engine has. -/
def gained (registry : Registry) : Registry :=
  (registry.registerSegment ⟨"a", 1, 1, 4, "a"⟩).registerSegment ⟨"b", 0, 1, 4, "b"⟩

theorem sound_oneRegistered {c : Cluster 1 1} (ran : oneRegistered = .ok c) : c.Sound Env.counted := by
  obtain ⟨boot, booted, called⟩ := ok_of_bind ran
  obtain ⟨begun, started, booted'⟩ := Cluster.boot_ok 1 1 Env.counted ⟨1, 1, 10⟩
  rw [booted, Except.ok.injEq] at booted'
  have sound : boot.Sound Env.counted := (booted' ▸ begun.sameEngines_boot).sound started.sound
  exact ((booted' ▸ started.registered).call sound (by decide) called).2.1

theorem repairs_iff_gained :
    ∃ c, oneRegistered = .ok c ∧ c.writer.segments.length = 1 ∧
      (c.withRegistry (gained c.registry)).Repairs
        (c.withRegistry (gained c.registry)).registerUnregisteredSegments := by
  have evaluated : (do
      let c ← oneRegistered
      .ok (decide (c.writer.segments.length = 1 ∧
        (c.withRegistry (gained c.registry)).Repairable))) = .ok true := by
    decide +kernel
  obtain ⟨c, ran, rest⟩ := ok_of_bind evaluated
  rw [Except.ok.injEq, decide_eq_true_eq] at rest
  exact ⟨c, ran, rest.1, (repairs_iff ((sound_oneRegistered ran).withRegistry _)).mpr rest.2⟩

/-- The writer has one segment, the registry is reset, and a pass leaves it empty. -/
theorem reset_registry_stays_empty :
    ∃ c, oneRegistered = .ok c ∧ c.writer.segments.length = 1 ∧
      (c.withRegistry .empty).registerUnregisteredSegments.registry.listSegments = [] ∧
      ¬ (c.withRegistry .empty).Repairs (c.withRegistry .empty).registerUnregisteredSegments := by
  have evaluated : (do
      let c ← oneRegistered
      .ok (decide (c.writer.segments.length = 1 ∧
        (c.withRegistry .empty).registerUnregisteredSegments.registry.listSegments = []))) =
      .ok true := by
    decide +kernel
  obtain ⟨c, ran, rest⟩ := ok_of_bind evaluated
  rw [Except.ok.injEq, decide_eq_true_eq] at rest
  rcases rest with ⟨one, empty⟩
  refine ⟨c, ran, one, empty, fun repairs => ?_⟩
  rcases List.length_eq_one_iff.mp one with ⟨seg, single⟩
  have member : seg ∈ c.writer.segments := single ▸ List.mem_cons_self
  have listed := ((repairs.own seg.segMeta).mpr ⟨seg, member, rfl⟩).1
  rw [empty] at listed
  cases listed

end Cluster

end VecScale
