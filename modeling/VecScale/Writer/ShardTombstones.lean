import Mathlib.Data.Finset.Union
import Mathlib.Data.Fintype.Basic
import VecScale.Writer.TombstoneFile

/-!
# Shards and `tombstones.json`

Every engine keeps the tombstones of its own shard and writes the one file from
them, so that the last engine to write it decides what it holds.

* `leaves_of_parts`: what calls on some shards leave;
* `shares_iff_spares`: the exact condition for one call;
* `tombstones_shared_iff`: when the file holds the tombstones of every shard.
-/

namespace VecScale

variable {dim numShards : ℕ} {env : Env}

/-! ## A call on the writer -/

/-- The last shard that writes the file. -/
def lastWriter (engines : Fin numShards → LSMEngine dim) :
    List (Fin numShards × Call dim) → Option (Fin numShards)
  | [] => none
  | (shard, request) :: parts =>
      (lastWriter engines parts).or (if request.Rewrites (engines shard) then some shard else none)

/-- The tombstones that a shard is left with. -/
def leftOn (engines : Fin numShards → LSMEngine dim) :
    List (Fin numShards × Call dim) → Fin numShards → Finset ℤ
  | [], shard => (engines shard).tombstones
  | (first, request) :: parts, shard =>
      if first = shard then request.tombstonesLeft (engines shard) else leftOn engines parts shard

theorem lastWriter_congr {engines engines' : Fin numShards → LSMEngine dim}
    {parts : List (Fin numShards × Call dim)}
    (same : ∀ part ∈ parts, engines' part.1 = engines part.1) :
    lastWriter engines' parts = lastWriter engines parts := by
  induction parts with
  | nil => rfl
  | cons part parts ih =>
      simp only [lastWriter, same part List.mem_cons_self,
        ih fun later member => same later (List.mem_cons_of_mem _ member)]

theorem leftOn_congr {engines engines' : Fin numShards → LSMEngine dim}
    (parts : List (Fin numShards × Call dim)) {shard : Fin numShards}
    (same : engines' shard = engines shard) :
    leftOn engines' parts shard = leftOn engines parts shard := by
  induction parts with
  | nil => exact congrArg LSMEngine.tombstones same
  | cons part parts ih => simp only [leftOn, same, ih]

theorem leftOn_of_notMem {engines : Fin numShards → LSMEngine dim}
    {parts : List (Fin numShards × Call dim)} {shard : Fin numShards}
    (absent : shard ∉ parts.map Prod.fst) :
    leftOn engines parts shard = (engines shard).tombstones := by
  induction parts with
  | nil => rfl
  | cons part parts ih =>
      rw [List.map_cons, List.mem_cons, not_or] at absent
      rw [leftOn, if_neg (Ne.symm absent.1), ih absent.2]

/-- The writer's engines have layouts, and their delete markers are tombstones. -/
structure Cluster.Marked (env : Env) (c : Cluster dim numShards) : Prop extends c.Sound env where
  marked : ∀ shard, (c.writer.engines shard).Marked

/-- What calls on some shards leave, each shard at most once. -/
theorem leaves_of_parts {parts : List (Fin numShards × Call dim)}
    (nodup : (parts.map Prod.fst).Nodup) (int64 : ∀ part ∈ parts, part.2.Int64)
    {c c' : Cluster dim numShards} (before : c.Marked env)
    (ran : runAll (Cluster.shardStep env) c parts = .ok c') :
    c'.Marked env ∧
      (∀ shard, (c'.writer.engines shard).tombstones = leftOn c.writer.engines parts shard) ∧
      c'.storage.tombstonesJson = match lastWriter c.writer.engines parts with
        | none => c.storage.tombstonesJson
        | some writer => .holds (c'.writer.engines writer).tombstones := by
  induction parts generalizing c with
  | nil =>
      cases ran
      exact ⟨before, fun shard => rfl, rfl⟩
  | cons part parts ih =>
      rcases part with ⟨shard, request⟩
      rw [List.map_cons, List.nodup_cons] at nodup
      obtain ⟨middle, here, rest⟩ := runAll_cons_inv ran
      have stepped := before.toSound.shardStep (int64 (shard, request) List.mem_cons_self) here
      rcases stepped.ran with ⟨old, recent, layout, ranNode⟩
      have leaves := leaves_of_run ranNode layout (before.marked shard)
      have marked : middle.Marked env := by
        refine ⟨stepped.sound, fun other => ?_⟩
        rcases eq_or_ne other shard with rfl | different
        · exact leaves.marked
        · rw [stepped.others other different]
          exact before.marked other
      obtain ⟨after, tombstones, file⟩ := ih nodup.2
        (fun later member => int64 later (List.mem_cons_of_mem _ member)) marked rest
      have unchanged : ∀ later ∈ parts, middle.writer.engines later.1 = c.writer.engines later.1 := by
        intro later member
        apply stepped.others
        intro same
        have listed : later.1 ∈ parts.map Prod.fst := List.mem_map_of_mem member
        rw [same] at listed
        exact nodup.1 listed
      refine ⟨after, fun other => ?_, ?_⟩
      · rw [tombstones, leftOn]
        rcases eq_or_ne shard other with rfl | different
        · rw [if_pos rfl, leftOn_of_notMem nodup.1]
          exact leaves.tombstones
        · rw [if_neg different]
          exact leftOn_congr parts (stepped.others other (Ne.symm different))
      · rw [file, lastWriter_congr unchanged, lastWriter]
        cases lastWriter c.writer.engines parts with
        | some writer => rfl
        | none =>
            have mine : (c'.writer.engines shard).tombstones =
                (middle.writer.engines shard).tombstones := by
              rw [tombstones, leftOn_of_notMem nodup.1]
            simp only [Option.none_or]
            refine leaves.file.trans ?_
            unfold rewritten
            change (if request.Rewrites (c.writer.engines shard) then _ else _) = _
            split
            · exact congrArg TombstonesJson.holds mine.symm
            · rfl

variable [NeZero numShards]

/-- The file holds the tombstones of every shard. -/
def Cluster.Shares (c : Cluster dim numShards) : Prop :=
  c.storage.tombstonesJson.load = Finset.univ.biUnion fun shard => (c.writer.engines shard).tombstones

/-- When a shard writes the file last, no other shard is left with a tombstone. -/
def Cluster.Spares (c : Cluster dim numShards) (request : Call dim) : Prop :=
  ∀ writer, lastWriter c.writer.engines (request.parts numShards) = some writer →
    ∀ shard, shard ≠ writer → leftOn c.writer.engines (request.parts numShards) shard = ∅

instance (c : Cluster dim numShards) : Decidable c.Shares := inferInstanceAs (Decidable (_ = _))

instance (c : Cluster dim numShards) (request : Call dim) : Decidable (c.Spares request) :=
  inferInstanceAs (Decidable (∀ _ : Fin numShards, _ → ∀ _ : Fin numShards, _))

/-- Every tombstone belongs to the shard that keeps it. -/
def Cluster.Homed (c : Cluster dim numShards) : Prop :=
  ∀ shard, ∀ x ∈ (c.writer.engines shard).tombstones, shardOf numShards x = shard

omit [NeZero numShards] in
theorem mem_ids_of_tombstonesLeft {engine : LSMEngine dim} {request : Call dim} {x : ℤ}
    (left : x ∈ request.tombstonesLeft engine) : x ∈ engine.tombstones ∨ x ∈ request.ids := by
  cases request with
  | insert rows =>
      left
      unfold Call.tombstonesLeft at left
      dsimp only at left
      split at left
      · exact (Finset.mem_sdiff.mp (Finset.mem_sdiff.mp left).1).1
      · exact (Finset.mem_sdiff.mp left).1
  | delete ids =>
      rw [Call.tombstonesLeft, Finset.mem_union, List.mem_toFinset] at left
      exact left

theorem homed_leftOn {c : Cluster dim numShards} (homed : c.Homed)
    {parts : List (Fin numShards × Call dim)}
    (own : ∀ part ∈ parts, ∀ x ∈ part.2.ids, shardOf numShards x = part.1) {shard : Fin numShards}
    {x : ℤ} (left : x ∈ leftOn c.writer.engines parts shard) : shardOf numShards x = shard := by
  induction parts with
  | nil => exact homed shard x left
  | cons part parts ih =>
      rcases part with ⟨first, request⟩
      unfold leftOn at left
      split at left
      · next same =>
          subst same
          rcases mem_ids_of_tombstonesLeft left with before | named
          · exact homed first x before
          · exact own (first, request) List.mem_cons_self x named
      · exact ih (fun later member => own later (List.mem_cons_of_mem _ member)) left

/-- A set split over the shards is one shard's part only if the others have none. -/
theorem eq_union_iff {parts : Fin numShards → Finset ℤ}
    (homed : ∀ shard, ∀ x ∈ parts shard, shardOf numShards x = shard) (writer : Fin numShards) :
    parts writer = Finset.univ.biUnion parts ↔ ∀ shard, shard ≠ writer → parts shard = ∅ := by
  constructor
  · intro whole shard other
    rw [Finset.eq_empty_iff_forall_notMem]
    intro x member
    have inWriter : x ∈ parts writer := by
      rw [whole, Finset.mem_biUnion]
      exact ⟨shard, Finset.mem_univ _, member⟩
    exact other ((homed shard x member).symm.trans (homed writer x inWriter))
  · intro alone
    ext x
    rw [Finset.mem_biUnion]
    constructor
    · intro member
      exact ⟨writer, Finset.mem_univ _, member⟩
    · intro listed
      rcases listed with ⟨shard, -, member⟩
      rcases eq_or_ne shard writer with rfl | other
      · exact member
      · rw [alone shard other] at member
        cases member

omit [NeZero numShards] in
/-- A call that does not write the file leaves the tombstones alone. -/
theorem tombstonesLeft_of_quiet {engine : LSMEngine dim} {request : Call dim}
    (quiet : ¬ request.Rewrites engine) : request.tombstonesLeft engine = engine.tombstones := by
  cases request with
  | insert rows =>
      simp only [Call.Rewrites, not_or, not_not, not_and] at quiet
      have untouched : engine.tombstones \ (batchIds rows).toFinset = engine.tombstones :=
        Finset.sdiff_eq_self_iff_disjoint.mpr (Finset.disjoint_iff_inter_eq_empty.mpr quiet.1)
      unfold Call.tombstonesLeft
      dsimp only
      rw [if_neg (fun both => (quiet.2 both.1).2 both.2), untouched]
  | delete ids => exact absurd trivial quiet

omit [NeZero numShards] in
theorem leftOn_of_quiet {engines : Fin numShards → LSMEngine dim}
    {parts : List (Fin numShards × Call dim)} (quiet : lastWriter engines parts = none)
    (shard : Fin numShards) : leftOn engines parts shard = (engines shard).tombstones := by
  induction parts with
  | nil => rfl
  | cons part parts ih =>
      rcases part with ⟨first, request⟩
      rcases Option.or_eq_none_iff.mp quiet with ⟨later, here⟩
      rw [leftOn, ih later]
      split
      · next same =>
          subst same
          apply tombstonesLeft_of_quiet
          intro wrote
          rw [if_pos wrote] at here
          cases here
      · rfl

/-- **The exact condition for one call.** -/
theorem shares_iff_spares {c c' : Cluster dim numShards} {request : Call dim}
    (before : c.Marked env ∧ c.Homed) (shares : c.Shares) (int64 : request.Int64)
    (ran : c.call env request = .ok c') :
    (c'.Marked env ∧ c'.Homed) ∧ (c'.Shares ↔ c.Spares request) := by
  obtain ⟨written, ranParts, finished⟩ := parts_of_call ran
  have same : written.SameEngines c' := finished ▸ written.sameEngines_finish request
  obtain ⟨marked, tombstones, file⟩ := leaves_of_parts (nodup_parts request)
    (fun part member x named => int64 x (mem_ids_of_part member named).1) before.1 ranParts
  have homed : ∀ shard, ∀ x ∈ leftOn c.writer.engines (request.parts numShards) shard,
      shardOf numShards x = shard := fun shard x left =>
    homed_leftOn before.2 (fun part member x named => (mem_ids_of_part member named).2) left
  have left : ∀ shard, (c'.writer.engines shard).tombstones =
      leftOn c.writer.engines (request.parts numShards) shard := by
    intro shard
    rw [same.engines, tombstones]
  have union : (Finset.univ.biUnion fun shard => (c'.writer.engines shard).tombstones) =
      Finset.univ.biUnion (leftOn c.writer.engines (request.parts numShards)) :=
    Finset.biUnion_congr rfl fun shard _ => left shard
  refine ⟨⟨⟨same.sound marked.toSound, fun shard => ?_⟩, fun shard x member => ?_⟩, ?_⟩
  · rw [same.engines]
    exact marked.marked shard
  · rw [left] at member
    exact homed shard x member
  · unfold Cluster.Shares Cluster.Spares
    rw [same.storage, file, union]
    cases last : lastWriter c.writer.engines (request.parts numShards) with
    | none =>
        constructor
        · intro _ writer found
          cases found
        · intro _
          refine Eq.trans shares (Finset.biUnion_congr rfl fun shard _ => ?_)
          exact (leftOn_of_quiet last shard).symm
    | some writer =>
        simp only [TombstonesJson.load, tombstones, Option.some.injEq]
        rw [eq_union_iff homed]
        exact ⟨fun alone w found => found ▸ alone, fun alone => alone writer rfl⟩

/-- **When the shards share the file.**  From a fresh start, and for every number of
shards, the file holds after every call the tombstones of all of them exactly if
every call spares the other shards' tombstones. -/
theorem tombstones_shared_iff {settings : Settings} {calls : List (Call dim)}
    (int64 : ∀ request ∈ calls, request.Int64) {boot final : Cluster dim numShards}
    (booted : Cluster.boot env settings = .ok boot)
    (ran : runAll (Cluster.call env) boot calls = .ok final) :
    Throughout (Cluster.call env) Cluster.Shares boot calls ↔
      StepsMeet (Cluster.call env) Cluster.Spares boot calls := by
  obtain ⟨c, started, booted'⟩ := Cluster.boot_ok dim numShards env settings
  rw [booted, Except.ok.injEq] at booted'
  have same : c.SameEngines boot := booted' ▸ c.sameEngines_boot
  have sound := same.sound started.sound
  have storage := same.storage.trans started.storage
  have fresh : ∀ shard : Fin numShards, Fresh env (settings.engine shard) (boot.node shard) := by
    intro shard
    rw [Cluster.node, same.engines, same.storage]
    exact started.fresh shard
  have tombstones : ∀ shard, (boot.writer.engines shard).tombstones = ∅ := fun shard =>
    (fresh shard).tombstones
  have marked : boot.Marked env := by
    refine ⟨sound, fun shard x e entry _ => ?_⟩
    have empty := (fresh shard).layout.memtable x
    change (boot.writer.engines shard).memtable.entries.get? x = none at empty
    rw [entry] at empty
    cases empty
  have homed : boot.Homed := by
    intro shard x member
    rw [tombstones] at member
    cases member
  have shares : boot.Shares := by
    unfold Cluster.Shares
    ext x
    rw [storage, Finset.mem_biUnion]
    constructor
    · intro member
      cases member
    · intro listed
      rcases listed with ⟨shard, -, inShard⟩
      rw [tombstones] at inShard
      cases inShard
  exact throughout_iff_stepsMeet (I := fun c => c.Marked env ∧ c.Homed)
    (fun c request c' => shares_iff_spares) ⟨marked, homed⟩ shares int64 ran

/-- Two deletes on two shards: the second engine writes the file without the
tombstone of the first. -/
theorem shard_tombstone_erased :
    (do
      let boot : Cluster 1 2 ← Cluster.boot Env.counted ⟨1, 10, 2⟩
      let final ← runAll (Cluster.call Env.counted) boot [.delete [0], .delete [1]]
      .ok ((final.writer.engines 0).tombstones, (final.writer.engines 1).tombstones,
        final.storage.tombstonesJson.load, decide final.Shares)) =
      .ok ({0}, {1}, {1}, false) := by
  decide +kernel

/-- Deletes on two shards, the first one taken back before the second. -/
def takenBack : List (Call 1) := [.delete [0], .insert [(0, zeroVec 1)], .delete [1]]

theorem tombstones_shared_iff_takenBack :
    ∃ boot final : Cluster 1 2, Cluster.boot Env.counted ⟨1, 10, 2⟩ = .ok boot ∧
      runAll (Cluster.call Env.counted) boot takenBack = .ok final ∧
      Throughout (Cluster.call Env.counted) Cluster.Shares boot takenBack := by
  have evaluated : (do
      let boot : Cluster 1 2 ← Cluster.boot Env.counted ⟨1, 10, 2⟩
      let _ ← runAll (Cluster.call Env.counted) boot takenBack
      .ok (decide (StepsMeet (Cluster.call Env.counted) Cluster.Spares boot takenBack))) =
      .ok true := by
    decide +kernel
  obtain ⟨boot, booted, rest⟩ := ok_of_bind evaluated
  obtain ⟨final, ran, rest⟩ := ok_of_bind rest
  rw [Except.ok.injEq, decide_eq_true_eq] at rest
  exact ⟨boot, final, booted, ran, (tombstones_shared_iff (by decide) booted ran).mpr rest⟩

end VecScale
