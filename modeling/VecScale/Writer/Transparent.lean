import Mathlib.Algebra.BigOperators.Fin
import Mathlib.Algebra.Order.BigOperators.Group.Finset
import VecScale.Storage.EngineMap
import VecScale.Writer.Shards

/-!
# Sharding is transparent

The engines of a writer share out one map from ids to vectors: an engine shows the
part of its shard, whatever its segments are.

* `Ran.only`: an engine holds only ids of its calls;
* `shown_of_parts`: what calls on some shards show;
* `Cluster.Mirrors.call`: every call on the writer updates the map;
* `sharding_transparent`: the writers of `numShards` shards and of one.
-/

namespace VecScale

variable {dim numShards : ℕ} {env : Env} {n n' : Node dim} {old recent log : List (WALRecord dim)}

/-! ## The ids of an engine -/

/-- The ids of the memtable, of the segments and of the tombstones satisfy `P`. -/
structure LSMEngine.Only (engine : LSMEngine dim) (P : ℤ → Prop) : Prop where
  memtable : ∀ x e, engine.memtable.entries.get? x = some e → P x
  segments : ∀ x ∈ segmentIds engine.segments, P x
  tombstones : ∀ x ∈ engine.tombstones, P x

variable {P : ℤ → Prop}

/-- An id that is shown is in the memtable or in a segment. -/
theorem LSMEngine.Only.lookup {engine : LSMEngine dim} (only : engine.Only P) {x : ℤ}
    (shown : engine.lookup x ≠ none) : P x := by
  unfold LSMEngine.lookup at shown
  split at shown
  · exact absurd rfl shown
  · cases entry : engine.memtable.entries.get? x with
    | some e => exact only.memtable x e entry
    | none =>
        rw [entry] at shown
        exact only.segments x (mem_segmentIds.mpr shown)

theorem LSMEngine.Only.imp {engine : LSMEngine dim} {Q : ℤ → Prop} (only : engine.Only P)
    (imp : ∀ x, P x → Q x) : engine.Only Q :=
  ⟨fun x e entry => imp x (only.memtable x e entry), fun x listed => imp x (only.segments x listed),
    fun x tombstoned => imp x (only.tombstones x tombstoned)⟩

theorem LSMEngine.Only.applyInsert (only : n.engine.Only P) {rows : List (Row dim)}
    (named : ∀ x ∈ batchIds rows, P x) (wal : WAL) (lsn : ℕ) :
    (LSMEngine.applyInsert n wal lsn rows).engine.Only P := by
  rw [LSMEngine.applyInsert_engine]
  refine ⟨fun x e entry => ?_, only.segments, fun x tombstoned => ?_⟩
  · rw [MemTable.get?_insert] at entry
    rcases Option.or_eq_some_iff.mp entry with here | ⟨-, before⟩
    · rcases Option.map_eq_some_iff.mp here with ⟨v, written, -⟩
      exact named x (List.mem_map_of_mem (Dict.mem_of_lastWrite written))
    · exact only.memtable x e before
  · exact only.tombstones x (Finset.mem_sdiff.mp tombstoned).1

theorem LSMEngine.Only.applyDelete (only : n.engine.Only P) {ids : List ℤ}
    (named : ∀ x ∈ ids, P x) (wal : WAL) (lsn : ℕ) :
    (LSMEngine.applyDelete n wal lsn ids).engine.Only P := by
  refine ⟨fun x e entry => ?_, only.segments, fun x tombstoned => ?_⟩
  · change (n.engine.memtable.delete ids lsn).entries.get? x = some e at entry
    rw [MemTable.get?_delete] at entry
    split at entry
    · next listed => exact named x listed
    · exact only.memtable x e entry
  · rcases Finset.mem_union.mp tombstoned with before | listed
    · exact only.tombstones x before
    · exact named x (List.mem_toFinset.mp listed)

theorem LSMEngine.Only.captureDeletes (only : n.engine.Only P) :
    (LSMEngine.captureDeletes n).engine.Only P := by
  rw [LSMEngine.captureDeletes_engine]
  refine ⟨only.memtable, only.segments, fun x tombstoned => ?_⟩
  rcases Finset.mem_union.mp tombstoned with before | marked
  · exact only.tombstones x before
  · rcases MemTable.mem_visibleDeletedIds.mp marked with ⟨e, entry, -⟩
    exact only.memtable x e entry

theorem LSMEngine.Only.sealMemtable (only : n.engine.Only P) :
    (LSMEngine.sealMemtable env n).2.engine.Only P := by
  refine ⟨fun x e entry => absurd entry nofun, fun x listed => ?_, only.tombstones⟩
  rcases List.mem_flatMap.mp listed with ⟨seg, member, inSeg⟩
  rcases List.mem_append.mp ((List.mem_insertionSort _).mp member) with before | new
  · exact only.segments x (List.mem_flatMap.mpr ⟨seg, before, inSeg⟩)
  · rcases List.mem_map.mp inSeg with ⟨row, inRows, rfl⟩
    rw [List.mem_singleton.mp new, (Segment.create_fields _ _ _ _ _ _).1] at inRows
    obtain ⟨e, entry, -⟩ := MemTable.mem_toArrays.mp (show (row.1, row.2) ∈ _ from inRows)
    exact only.memtable row.1 e entry

/-- A merge keeps rows of the segments that it takes. -/
theorem Merged.only {front : List (Segment dim)} (merged : Merged env n n' front)
    (only : n.engine.Only P) : n'.engine.Only P := by
  refine ⟨?_, fun x listed => only.segments x ?_, ?_⟩
  · rw [merged.engine]
    exact only.memtable
  · rw [mem_segmentIds, ← n.engine.toMerge_append_remaining, newestRow_append]
    rw [mem_segmentIds, merged.newestRow_segments] at listed
    intro none
    rcases Option.or_eq_none_iff.mp none with ⟨left, taken⟩
    rw [left, taken, ite_self] at listed
    exact listed rfl
  · rw [merged.engine]
    exact fun x tombstoned => only.tombstones x (Finset.mem_sdiff.mp tombstoned).1

theorem Flushed.only {out : Option (Segment dim)} (flushed : Flushed env n out n')
    (only : n.engine.Only P) : n'.engine.Only P := by
  have captured := only.captureDeletes
  cases flushed with
  | nothing dead =>
      exact ⟨fun x e entry => absurd entry nofun, captured.segments, captured.tombstones⟩
  | sealedOnly live few => exact captured.sealMemtable
  | merged live enough merged => exact merged.only captured.sealMemtable

/-- A call adds no other ids than those that it names. -/
theorem Ran.only {request : Call dim} (ran : Ran env n log request.op n')
    (only : n.engine.Only P) (named : ∀ x ∈ request.ids, P x) : n'.engine.Only P := by
  cases request with
  | insert rows =>
      cases ran with
      | insert appended room => exact only.applyInsert named _ _
      | insertFlush appended full flushed => exact flushed.only (only.applyInsert named _ _)
  | delete ids =>
      cases ran with
      | delete appended => exact only.applyDelete named _ _

/-! ## The parts of a call -/

theorem Call.running (request : Call dim) : request.op.Running := by
  cases request <;> trivial

section Shards

variable [NeZero numShards]

/-- A part does to an id of its shard what the call does. -/
theorem update_of_part {request part : Call dim} {shard : Fin numShards} {x : ℤ}
    (member : (shard, part) ∈ request.parts numShards) (home : shardOf numShards x = shard)
    (shown : Option (Vec dim)) : part.op.update x shown = request.op.update x shown := by
  rw [part_eq_within member]
  cases request with
  | insert rows =>
      change (Dict.lastWrite (rows.filter _) x).or shown = (Dict.lastWrite rows x).or shown
      rw [Dict.lastWrite_filter fun row _ named => by rw [named, home, decide_eq_true_eq]]
  | delete ids =>
      change (if x ∈ ids.filter _ then none else shown) = if x ∈ ids then none else shown
      simp [home]

/-- A call with no part for a shard names none of its ids. -/
theorem update_of_absent {request : Call dim} {x : ℤ}
    (absent : shardOf numShards x ∉ (request.parts numShards).map Prod.fst)
    (shown : Option (Vec dim)) : request.op.update x shown = shown := by
  have only : numShards = 1 → ∀ shard : Fin numShards, shardOf numShards x = shard := by
    intro one shard
    subst one
    exact Subsingleton.elim _ _
  cases request with
  | insert rows =>
      rw [Call.parts] at absent
      split at absent
      · next one => exact absurd (List.mem_singleton.mpr (only one 0)) absent
      · rw [List.map_map] at absent
        have unwritten : Dict.lastWrite rows x = none := by
          apply Dict.lastWrite_eq_none_iff.mpr
          intro listed
          rcases List.mem_map.mp listed with ⟨row, member, rfl⟩
          exact Dict.key_ne_of_notMem (fun row : Row dim => shardOf numShards row.1) absent member
            rfl
        change (Dict.lastWrite rows x).or shown = shown
        rw [unwritten, Option.none_or]
  | delete ids =>
      rw [Call.parts] at absent
      split at absent
      · next one => exact absurd (List.mem_singleton.mpr (only one 0)) absent
      · rw [List.map_map] at absent
        exact if_neg fun listed => Dict.key_ne_of_notMem (shardOf numShards) absent listed rfl

/-! ## What the engines show -/

/-- Every engine has fewer segments than the threshold, and only ids of its shard. -/
structure Cluster.Sharing (env : Env) (settings : Settings) (c : Cluster dim numShards) : Prop
    extends c.Sound env where
  threshold : ∀ shard, (c.writer.engines shard).mergeThreshold = settings.segmentMergeThreshold
  few : ∀ shard, (c.writer.engines shard).segments.length < settings.segmentMergeThreshold
  only : ∀ shard, (c.writer.engines shard).Only fun x => shardOf numShards x = shard

namespace Cluster

variable {settings : Settings} {c c' : Cluster dim numShards}

/-- The vector shown for `x` by the engine of its shard. -/
def lookup (c : Cluster dim numShards) (x : ℤ) : Option (Vec dim) :=
  (c.writer.engines (shardOf numShards x)).lookup x

/-- No other engine shows an id. -/
theorem Sharing.lookup_eq_some_iff (sharing : c.Sharing env settings) {x : ℤ} {v : Vec dim} :
    c.lookup x = some v ↔ ∃ shard, (c.writer.engines shard).lookup x = some v := by
  constructor
  · intro shown
    exact ⟨_, shown⟩
  · intro anywhere
    rcases anywhere with ⟨shard, shown⟩
    have home := (sharing.only shard).lookup (Option.ne_none_iff_exists'.mpr ⟨v, shown⟩)
    rw [lookup, home]
    exact shown

/-- A call on one shard. -/
theorem Sharing.shardStep (sharing : c.Sharing env settings)
    (atLeastTwo : 2 ≤ settings.segmentMergeThreshold) {shard : Fin numShards} {request : Call dim}
    (int64 : request.Int64) (own : ∀ x ∈ request.ids, shardOf numShards x = shard)
    (ran : c.shardStep env (shard, request) = .ok c') :
    c'.Sharing env settings ∧
      (∀ x, (c'.writer.engines shard).lookup x =
        request.op.update x ((c.writer.engines shard).lookup x)) ∧
      ∀ other, other ≠ shard → c'.writer.engines other = c.writer.engines other := by
  have stepped := sharing.toSound.shardStep int64 ran
  rcases stepped.ran with ⟨old, recent, layout, ranNode⟩
  have threshold : (c.node shard).engine.mergeThreshold = settings.segmentMergeThreshold :=
    sharing.threshold shard
  obtain ⟨same, few, shown⟩ := ranNode.shown layout (threshold ▸ sharing.few shard)
    (threshold ▸ atLeastTwo) request.running
  have only := ranNode.only (sharing.only shard) own
  refine ⟨⟨stepped.sound, fun other => ?_, fun other => ?_, fun other => ?_⟩, shown, stepped.others⟩
  · rcases eq_or_ne other shard with rfl | different
    · exact same.trans threshold
    · rw [stepped.others other different]
      exact sharing.threshold other
  · rcases eq_or_ne other shard with rfl | different
    · exact few.trans_eq (same.trans threshold)
    · rw [stepped.others other different]
      exact sharing.few other
  · rcases eq_or_ne other shard with rfl | different
    · exact only
    · rw [stepped.others other different]
      exact sharing.only other

/-- What calls on some shards show, each shard at most once. -/
theorem shown_of_parts (atLeastTwo : 2 ≤ settings.segmentMergeThreshold)
    {parts : List (Fin numShards × Call dim)} (nodup : (parts.map Prod.fst).Nodup)
    (int64 : ∀ part ∈ parts, part.2.Int64)
    (own : ∀ part ∈ parts, ∀ x ∈ part.2.ids, shardOf numShards x = part.1)
    (sharing : c.Sharing env settings)
    (ran : runAll (Cluster.shardStep env) c parts = .ok c') :
    c'.Sharing env settings ∧
      (∀ part ∈ parts, ∀ x, (c'.writer.engines part.1).lookup x =
        part.2.op.update x ((c.writer.engines part.1).lookup x)) ∧
      ∀ shard, shard ∉ parts.map Prod.fst → c'.writer.engines shard = c.writer.engines shard := by
  induction parts generalizing c with
  | nil =>
      cases ran
      exact ⟨sharing, nofun, fun shard absent => rfl⟩
  | cons first parts ih =>
      rw [List.map_cons, List.nodup_cons] at nodup
      obtain ⟨middle, here, rest⟩ := runAll_cons_inv ran
      obtain ⟨kept, shown, others⟩ := sharing.shardStep atLeastTwo (int64 first List.mem_cons_self)
        (own first List.mem_cons_self) here
      obtain ⟨final, later, absent⟩ := ih nodup.2
        (fun part member => int64 part (List.mem_cons_of_mem _ member))
        (fun part member => own part (List.mem_cons_of_mem _ member)) kept rest
      refine ⟨final, fun part member x => ?_, fun shard outside => ?_⟩
      · rcases List.mem_cons.mp member with rfl | member
        · rw [absent part.1 nodup.1, shown]
        · have different : part.1 ≠ first.1 := by
            intro same
            exact nodup.1 (same ▸ List.mem_map_of_mem member)
          rw [later part member, others part.1 different]
      · rw [List.map_cons, List.mem_cons, not_or] at outside
        rw [absent shard outside.2, others shard outside.1]

/-- **The step lemma.**  A call updates the map that the engines share out. -/
theorem Sharing.call (sharing : c.Sharing env settings)
    (atLeastTwo : 2 ≤ settings.segmentMergeThreshold) {request : Call dim} (int64 : request.Int64)
    (ran : c.call env request = .ok c') :
    c'.Sharing env settings ∧ ∀ x, c'.lookup x = request.op.update x (c.lookup x) := by
  obtain ⟨written, ranParts, finished⟩ := parts_of_call ran
  obtain ⟨kept, shown, absent⟩ := shown_of_parts atLeastTwo (nodup_parts request)
    (fun part member x named => int64 x (mem_ids_of_part member named).1)
    (fun part member x named => (mem_ids_of_part member named).2) sharing ranParts
  have same : written.SameEngines c' := finished ▸ written.sameEngines_finish request
  refine ⟨⟨same.sound kept.toSound, ?_, ?_, ?_⟩, fun x => ?_⟩
  · rw [same.engines]
    exact kept.threshold
  · rw [same.engines]
    exact kept.few
  · rw [same.engines]
    exact kept.only
  · rw [lookup, lookup, same.engines]
    by_cases named : shardOf numShards x ∈ (request.parts numShards).map Prod.fst
    · rcases List.mem_map.mp named with ⟨part, member, home⟩
      rw [← home, shown part member, update_of_part member home.symm]
    · rw [absent _ named, update_of_absent named]

/-- A writer after the calls of `history`. -/
structure Mirrors (env : Env) (settings : Settings) (history : List (Call dim))
    (c : Cluster dim numShards) : Prop extends c.Sharing env settings where
  shown : ∀ x, c.lookup x = (liveRows (history.map Call.op)).get? x

theorem mirrors_of_boot (positive : 0 < settings.segmentMergeThreshold)
    (booted : boot env settings = .ok c) : Mirrors env settings [] c := by
  obtain ⟨begun, started, booted'⟩ := boot_ok dim numShards env settings
  rw [booted, Except.ok.injEq] at booted'
  have same : begun.SameEngines c := booted' ▸ begun.sameEngines_boot
  have fresh : ∀ shard : Fin numShards, Fresh env (settings.engine shard) (c.node shard) := by
    intro shard
    rw [node, same.engines, same.storage]
    exact started.fresh shard
  have segments : ∀ shard, (c.writer.engines shard).segments = [] := fun shard => (fresh shard).segments
  have tombstones : ∀ shard, (c.writer.engines shard).tombstones = ∅ := fun shard =>
    (fresh shard).tombstones
  have entries : ∀ shard x, (c.writer.engines shard).memtable.entries.get? x = none :=
    fun shard x => (fresh shard).layout.memtable x
  refine ⟨⟨same.sound started.sound, fun shard => (fresh shard).mergeThreshold, fun shard => ?_,
    fun shard => ⟨fun x e entry => ?_, fun x listed => ?_, fun x tombstoned => ?_⟩⟩, fun x => ?_⟩
  · rw [segments]
    exact positive
  · rw [entries] at entry
    cases entry
  · rw [segments] at listed
    cases listed
  · rw [tombstones] at tombstoned
    cases tombstoned
  · simp [lookup, LSMEngine.lookup, tombstones, entries, segments, liveRows]

/-- What a run of a new writer shows, id by id. -/
theorem mirrors_of_run (atLeastTwo : 2 ≤ settings.segmentMergeThreshold)
    {calls : List (Call dim)} (int64 : ∀ request ∈ calls, request.Int64)
    (booted : boot env settings = .ok c) (ran : runAll (Cluster.call env) c calls = .ok c') :
    Mirrors env settings calls c' := by
  refine runAll_carries (R := fun history c => Mirrors env settings history c)
    (fun history c request c' mirrors int64 step => ?_) []
    (mirrors_of_boot (by omega) booted) (StepsMeet.of_forall int64 c) ran
  obtain ⟨kept, shown⟩ := mirrors.toSharing.call atLeastTwo int64 step
  refine ⟨kept, fun x => ?_⟩
  rw [shown, mirrors.shown, List.map_append, List.map_singleton, liveRows_concat, Op.get?_applyTo]

/-- The engines expose the map, each row once. -/
theorem Mirrors.exposed {history : List (Call dim)} (mirrors : Mirrors env settings history c) :
    ∃ rows : Fin numShards → List (Row dim),
      (∀ shard, LSMEngine.exposed (c.node shard) = .ok (rows shard)) ∧
      (batchIds ((List.finRange numShards).flatMap rows)).Nodup ∧
      ∀ x v, (x, v) ∈ (List.finRange numShards).flatMap rows ↔
        (liveRows (history.map Call.op)).get? x = some v := by
  have each : ∀ shard, ∃ rows, LSMEngine.exposed (c.node shard) = .ok rows ∧
      (batchIds rows).Nodup ∧
      ∀ x v, (x, v) ∈ rows ↔ (c.writer.engines shard).lookup x = some v := by
    intro shard
    obtain ⟨old, recent, layout⟩ := mirrors.layout shard
    exact exposed_of_settled layout.segments layout.settled
  choose rows exposed nodup iff using each
  refine ⟨rows, exposed, ?_, fun x v => ?_⟩
  · rw [batchIds, List.map_flatMap, List.nodup_flatMap]
    refine ⟨fun shard _ => nodup shard, (List.nodup_finRange numShards).imp ?_⟩
    intro shard other different x here there
    have home : ∀ s : Fin numShards, x ∈ batchIds (rows s) → shardOf numShards x = s := by
      intro s listed
      rcases List.mem_map.mp listed with ⟨row, member, rfl⟩
      have shown := (iff s row.1 row.2).mp member
      exact (mirrors.only s).lookup (Option.ne_none_iff_exists'.mpr ⟨_, shown⟩)
    exact different ((home shard here).symm.trans (home other there))
  · rw [List.mem_flatMap, ← mirrors.shown, mirrors.lookup_eq_some_iff]
    simp only [List.mem_finRange, true_and, iff]

omit [NeZero numShards] in
/-- `health` adds up what the engines count. -/
theorem ntotal_of_health {live : Fin numShards → ℕ}
    (each : ∀ shard, LSMEngine.ntotal (c.node shard) = .ok (live shard)) :
    ∃ h, c.health = .ok h ∧ h.ntotal = ∑ shard, live shard := by
  have along : ∀ (shards : List (Fin numShards)) (combined : LSMEngine.Health),
      ∃ h, shards.foldlM (fun combined shard => do
        let h ← LSMEngine.health (c.node shard)
        .ok (combine combined h)) combined = .ok h ∧
        h.ntotal = combined.ntotal + (shards.map live).sum := by
    intro shards
    induction shards with
    | nil => exact fun combined => ⟨combined, rfl, rfl⟩
    | cons shard shards ih =>
        intro combined
        obtain ⟨own, counted, total⟩ : ∃ h, LSMEngine.health (c.node shard) = .ok h ∧
            h.ntotal = live shard := ⟨_, by rw [LSMEngine.health, each shard]; rfl, rfl⟩
        obtain ⟨h, ran, sum⟩ := ih (combine combined own)
        refine ⟨h, ?_, ?_⟩
        · rw [List.foldlM_cons, counted]
          exact ran
        · rw [sum, List.map_cons, List.sum_cons, ← total, ← Nat.add_assoc]
          rfl
  obtain ⟨h, ran, sum⟩ := along (List.finRange numShards) ⟨0, 0, 0, 0, 0⟩
  refine ⟨h, ran, ?_⟩
  rw [sum, Fin.sum_univ_def, Nat.zero_add]

/-- `ntotal` of the writer is the size of the map. -/
theorem Mirrors.ntotal {history : List (Call dim)} (mirrors : Mirrors env settings history c) :
    ∃ h, c.health = .ok h ∧ h.ntotal = (liveRows (history.map Call.op)).length := by
  have each : ∀ shard, ∃ live : Finset ℤ, LSMEngine.ntotal (c.node shard) = .ok live.card ∧
      ∀ x, x ∈ live ↔ (c.writer.engines shard).lookup x ≠ none := by
    intro shard
    obtain ⟨old, recent, layout⟩ := mirrors.layout shard
    exact ntotal_of_layout layout
  choose live counted iff using each
  obtain ⟨h, ran, total⟩ := ntotal_of_health counted
  refine ⟨h, ran, total.trans ?_⟩
  -- The ids of the map, by shard.
  let ids := (liveRows (history.map Call.op)).keys.toFinset
  have split : ∀ shard, live shard = ids.filter fun x => shardOf numShards x = shard := by
    intro shard
    ext x
    rw [iff, Finset.mem_filter, List.mem_toFinset, Dict.mem_keys_iff]
    constructor
    · intro shown
      rcases Option.ne_none_iff_exists'.mp shown with ⟨v, found⟩
      refine ⟨⟨v, ?_⟩, (mirrors.only shard).lookup shown⟩
      rw [← mirrors.shown]
      exact mirrors.lookup_eq_some_iff.mpr ⟨shard, found⟩
    · rintro ⟨⟨v, found⟩, rfl⟩
      rw [← mirrors.shown] at found
      exact Option.ne_none_iff_exists'.mpr ⟨v, found⟩
  have sizes : ids.card = (liveRows (history.map Call.op)).length := by
    rw [List.toFinset_card_of_nodup (Dict.keys_nodup _), Dict.keys, List.length_map, Dict.length]
  rw [← sizes, Finset.card_eq_sum_card_fiberwise fun x _ => Finset.mem_univ (shardOf numShards x)]
  exact Finset.sum_congr rfl fun shard _ => congrArg Finset.card (split shard)

end Cluster

theorem shardOf_eq_iff {x : ℤ} {shard : Fin numShards} :
    shardOf numShards x = shard ↔ x % numShards = shard := by
  have positive : (0 : ℤ) < numShards := by exact_mod_cast Nat.pos_of_ne_zero (NeZero.ne numShards)
  have nonneg := Int.emod_nonneg x positive.ne'
  have below := Int.emod_lt_of_pos x positive
  have val : (shardOf numShards x : ℕ) = (x % numShards).toNat := by
    rw [shardOf, Fin.val_ofNat]
    exact Nat.mod_eq_of_lt (by omega)
  rw [Fin.ext_iff, val]
  omega

/-- **Sharding is transparent.**  After the same calls, the engines of a sharded writer hold
only ids of their own shards, expose together the rows that the engine of a single-shard
writer exposes, each id once, and count as many ids. -/
theorem sharding_transparent {settings : Settings}
    (atLeastTwo : 2 ≤ settings.segmentMergeThreshold) {calls : List (Call dim)}
    (int64 : ∀ request ∈ calls, request.Int64) {boot c : Cluster dim numShards}
    (booted : Cluster.boot env settings = .ok boot)
    (ran : runAll (Cluster.call env) boot calls = .ok c) {bootSingle single : Cluster dim 1}
    (bootedSingle : Cluster.boot env settings = .ok bootSingle)
    (ranSingle : runAll (Cluster.call env) bootSingle calls = .ok single) :
    (∀ shard, (c.writer.engines shard).Only fun x => x % numShards = shard) ∧
      (∃ (rows : Fin numShards → List (Row dim)) (all : List (Row dim)),
        (∀ shard, LSMEngine.exposed (c.node shard) = .ok (rows shard)) ∧
        LSMEngine.exposed (single.node 0) = .ok all ∧
        (batchIds ((List.finRange numShards).flatMap rows)).Nodup ∧
        ((List.finRange numShards).flatMap rows).Perm all) ∧
      ∃ h hSingle, c.health = .ok h ∧ single.health = .ok hSingle ∧ h.ntotal = hSingle.ntotal := by
  have mirrors := Cluster.mirrors_of_run atLeastTwo int64 booted ran
  have mirrorsSingle := Cluster.mirrors_of_run atLeastTwo int64 bootedSingle ranSingle
  refine ⟨fun shard => (mirrors.only shard).imp fun x => shardOf_eq_iff.mp, ?_, ?_⟩
  · rcases mirrors.exposed with ⟨rows, exposed, nodup, iff⟩
    rcases mirrorsSingle.exposed with ⟨rowsSingle, exposedSingle, nodupSingle, iffSingle⟩
    have only : (List.finRange 1).flatMap rowsSingle = rowsSingle 0 := List.append_nil _
    rw [only] at nodupSingle iffSingle
    refine ⟨rows, rowsSingle 0, exposed, exposedSingle 0, nodup, ?_⟩
    refine (List.perm_ext_iff_of_nodup (.of_map _ nodup) (.of_map _ nodupSingle)).mpr fun row => ?_
    exact (iff row.1 row.2).trans (iffSingle row.1 row.2).symm
  · rcases mirrors.ntotal with ⟨h, counted, total⟩
    rcases mirrorsSingle.ntotal with ⟨hSingle, countedSingle, totalSingle⟩
    exact ⟨h, hSingle, counted, countedSingle, total.trans totalSingle.symm⟩

/-- Batches that mix shards and repeat ids, deletes, and shards that merge on their own. -/
def mixedCalls : List (Call 1) :=
  [.insert [(0, zeroVec 1), (1, zeroVec 1), (0, unitVec), (2, zeroVec 1)], .delete [2, 3],
    .insert [(4, zeroVec 1), (6, zeroVec 1), (8, unitVec)], .insert [(3, unitVec)], .delete [0]]

theorem sharding_transparent_mixed :
    ∃ (boot c : Cluster 1 2) (bootSingle single : Cluster 1 1),
      Cluster.boot Env.counted ⟨1, 2, 2⟩ = .ok boot ∧
      runAll (Cluster.call Env.counted) boot mixedCalls = .ok c ∧
      Cluster.boot Env.counted ⟨1, 2, 2⟩ = .ok bootSingle ∧
      runAll (Cluster.call Env.counted) bootSingle mixedCalls = .ok single ∧
      (∀ shard, (c.writer.engines shard).Only fun x => x % (2 : ℕ) = shard) ∧
      (∃ (rows : Fin 2 → List (Row 1)) (all : List (Row 1)),
        (∀ shard, LSMEngine.exposed (c.node shard) = .ok (rows shard)) ∧
        LSMEngine.exposed (single.node 0) = .ok all ∧
        (batchIds ((List.finRange 2).flatMap rows)).Nodup ∧
        ((List.finRange 2).flatMap rows).Perm all) ∧
      ∃ h hSingle, c.health = .ok h ∧ single.health = .ok hSingle ∧ h.ntotal = hSingle.ntotal := by
  obtain ⟨c, evaluated⟩ : ∃ c : Cluster 1 2, (do
      let boot ← Cluster.boot Env.counted ⟨1, 2, 2⟩
      runAll (Cluster.call Env.counted) boot mixedCalls) = .ok c :=
    exists_of_isOk (by decide +kernel)
  obtain ⟨single, evaluatedSingle⟩ : ∃ single : Cluster 1 1, (do
      let boot ← Cluster.boot Env.counted ⟨1, 2, 2⟩
      runAll (Cluster.call Env.counted) boot mixedCalls) = .ok single :=
    exists_of_isOk (by decide +kernel)
  obtain ⟨boot, booted, ran⟩ := ok_of_bind evaluated
  obtain ⟨bootSingle, bootedSingle, ranSingle⟩ := ok_of_bind evaluatedSingle
  exact ⟨boot, c, bootSingle, single, booted, ran, bootedSingle, ranSingle,
    sharding_transparent (by decide) (by decide) booted ran bootedSingle ranSingle⟩

end Shards

end VecScale
