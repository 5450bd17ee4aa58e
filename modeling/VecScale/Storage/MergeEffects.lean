import VecScale.Storage.Merging

/-!
# The durable effects of a merge

A merge writes the files of its new segment, the metadata last, then rewrites
`tombstones.json`, and only then removes the directories of the segments it took,
file by file.  A crash cuts this list short.

* `storage_of_merge`: the effects, all of them, are what a merge does;
* `get?_removals`: what some of the removals leave in a directory;
* `CutDirs`: the directories behind a cut;
* `cutAt_of_take`: the storage behind any cut of the effects of a merge.
-/

namespace VecScale

inductive SegmentFile
  | indexFaiss
  | idsNpy
  | vectorsNpy
  | metaJson
  deriving DecidableEq

/-- A directory without some of its files. -/
def SegmentFiles.without {dim : ℕ} (files : SegmentFiles dim) (removed : SegmentFile → Bool) :
    SegmentFiles dim where
  indexFaiss := if removed .indexFaiss then none else files.indexFaiss
  idsNpy := if removed .idsNpy then none else files.idsNpy
  vectorsNpy := if removed .vectorsNpy then none else files.vectorsNpy
  metaJson := if removed .metaJson then none else files.metaJson

/-- One durable effect; a new directory takes the uuid that names it. -/
inductive MergeEffect (dim : ℕ)
  | makeDir (path : String)
  | writeIndex (path : String) (index : IVFFlatIndex dim)
  | writeIds (path : String) (ids : List ℤ)
  | writeVectors (path : String) (vectors : List (Vec dim))
  | writeMeta (path : String) (segMeta : SegmentMeta)
  | persist (ids : Finset ℤ)
  | removeFile (path : String) (file : SegmentFile)
  | removeDir (path : String)
  deriving DecidableEq

variable {dim : ℕ}

instance MergeEffect.lawfulBEq : LawfulBEq (MergeEffect dim) := inferInstance

namespace SharedStorage

def setFiles (st : SharedStorage dim) (path : String) (files : SegmentFiles dim) :
    SharedStorage dim :=
  { st with segmentDirs := st.segmentDirs.set path files }

def drawUuid (st : SharedStorage dim) : SharedStorage dim := { st with uuids := st.uuids + 1 }

def apply (st : SharedStorage dim) : MergeEffect dim → SharedStorage dim
  | .makeDir path => (st.setFiles path (st.files path)).drawUuid
  | .writeIndex path index => st.setFiles path { st.files path with indexFaiss := some index }
  | .writeIds path ids => st.setFiles path { st.files path with idsNpy := some ids }
  | .writeVectors path vectors =>
      st.setFiles path { st.files path with vectorsNpy := some vectors }
  | .writeMeta path segMeta => st.setFiles path { st.files path with metaJson := some segMeta }
  | .persist ids => st.persist ids
  | .removeFile path file =>
      match st.segmentDirs.get? path with
      | none => st
      | some files => st.setFiles path (files.without fun other => other = file)
  | .removeDir path => st.rmtree path

/-- The storage behind some effects. -/
def after (st : SharedStorage dim) (effects : List (MergeEffect dim)) : SharedStorage dim :=
  effects.foldl apply st

end SharedStorage

/-- The effects of `Segment.create`, for the segment it returns. -/
def Segment.createEffects (seg : Segment dim) : List (MergeEffect dim) :=
  [.makeDir seg.path, .writeIndex seg.path seg.index, .writeIds seg.path (batchIds seg.rows),
    .writeVectors seg.path (seg.rows.map Prod.snd), .writeMeta seg.path seg.segMeta]

/-- The effects of `shutil.rmtree`, for a directory that lists its files in this order. -/
def rmtreeEffects (order : String → List SegmentFile) (path : String) : List (MergeEffect dim) :=
  (order path).map (.removeFile path) ++ [.removeDir path]

namespace LSMEngine

/-- The segment that a merge creates, if it keeps a row. -/
def mergedSegment (env : Env) (n : Node dim) (latest : Dict ℤ (ℕ × Vec dim)) :
    List (Segment dim) :=
  let rows := keptRows latest n.engine.tombstones
  if rows = [] then []
  else [(Segment.create env.uuid n.engine.shardId (maxSnapshot n.engine.toMerge) rows n.engine.nlist
    n.storage).1]

/-- The effects of a merge that finds enough segments. -/
def mergeEffects (env : Env) (n : Node dim) (order : String → List SegmentFile) :
    Except PyError (List (MergeEffect dim)) := do
  let latest ← gatherLatest n.storage n.engine.toMerge
  let cleaned := cleanedTombstones latest n.engine.tombstones
  .ok ((mergedSegment env n latest).flatMap Segment.createEffects ++
    .persist (n.engine.tombstones \ cleaned) ::
      (n.engine.toMerge.map Segment.path).flatMap (rmtreeEffects order))

end LSMEngine

/-! ## Single effects -/

namespace SharedStorage

@[simp] theorem get?_setFiles (st : SharedStorage dim) (path : String) (files : SegmentFiles dim)
    (other : String) : (st.setFiles path files).segmentDirs.get? other =
      if path = other then some files else st.segmentDirs.get? other := by
  rw [setFiles, Dict.get?_set]

@[simp] theorem files_setFiles (st : SharedStorage dim) (path : String) (files : SegmentFiles dim)
    (other : String) : (st.setFiles path files).files other =
      if path = other then files else st.files other := by
  rw [SharedStorage.files, get?_setFiles]
  split <;> rfl

@[simp] theorem get?_drawUuid (st : SharedStorage dim) (path : String) :
    st.drawUuid.segmentDirs.get? path = st.segmentDirs.get? path := rfl

@[simp] theorem files_drawUuid (st : SharedStorage dim) (path : String) :
    st.drawUuid.files path = st.files path := rfl

theorem get?_removeFile (st : SharedStorage dim) (path : String) (file : SegmentFile)
    (other : String) : (st.apply (.removeFile path file)).segmentDirs.get? other =
      if path = other then
        (st.segmentDirs.get? other).map (SegmentFiles.without · fun found => found = file)
      else st.segmentDirs.get? other := by
  simp only [apply]
  by_cases same : path = other
  · subst same
    cases found : st.segmentDirs.get? path with
    | none => simp [found]
    | some files => simp
  · cases st.segmentDirs.get? path with
    | none => simp [same]
    | some files => simp [same]

theorem after_append (st : SharedStorage dim) (first second : List (MergeEffect dim)) :
    st.after (first ++ second) = (st.after first).after second := List.foldl_append

theorem after_cons (st : SharedStorage dim) (effect : MergeEffect dim)
    (effects : List (MergeEffect dim)) : st.after (effect :: effects) = (st.apply effect).after effects :=
  rfl

/-- The files of a new directory are all there when its metadata is. -/
theorem after_createEffects {st : SharedStorage dim} {seg : Segment dim}
    (fresh : st.segmentDirs.get? seg.path = none) (count : ℕ) :
    (∀ path, path ≠ seg.path →
        (st.after (seg.createEffects.take count)).segmentDirs.get? path = st.segmentDirs.get? path) ∧
      (st.after (seg.createEffects.take count)).tombstonesJson = st.tombstonesJson ∧
      (count < 5 → ((st.after (seg.createEffects.take count)).files seg.path).metaJson = none) ∧
      (5 ≤ count →
        (st.after (seg.createEffects.take count)).segmentDirs.get? seg.path = some seg.files) := by
  have absent : st.files seg.path = ⟨none, none, none, none⟩ := by rw [files, fresh, Option.getD_none]
  have partly : ∀ few < 5, (∀ path, path ≠ seg.path →
      (st.after (seg.createEffects.take few)).segmentDirs.get? path = st.segmentDirs.get? path) ∧
      (st.after (seg.createEffects.take few)).tombstonesJson = st.tombstonesJson ∧
      ((st.after (seg.createEffects.take few)).files seg.path).metaJson = none := by
    intro few small
    have cases : few = 0 ∨ few = 1 ∨ few = 2 ∨ few = 3 ∨ few = 4 := by omega
    rcases cases with rfl | rfl | rfl | rfl | rfl
    all_goals
      refine ⟨fun path other => ?_, rfl, ?_⟩
      · simp [after, apply, Segment.createEffects, Ne.symm other]
      · simp [after, apply, Segment.createEffects, absent]
  rcases Nat.lt_or_ge count 5 with early | late
  · obtain ⟨others, tombstones, undescribed⟩ := partly count early
    exact ⟨others, tombstones, fun _ => undescribed, fun late => by omega⟩
  · have whole : seg.createEffects.take count = seg.createEffects :=
      List.take_of_length_le late
    rw [whole]
    refine ⟨fun path other => ?_, rfl, fun early => by omega, fun _ => ?_⟩
    · simp [after, apply, Segment.createEffects, Ne.symm other]
    · simp [after, apply, Segment.createEffects, absent, Segment.files]

end SharedStorage

/-! ## Removals -/

namespace MergeEffect

/-- The effect removes a file or a directory. -/
def Removes : MergeEffect dim → Prop
  | .removeFile _ _ | .removeDir _ => True
  | _ => False

/-- The effect rewrites `tombstones.json`. -/
def Persists : MergeEffect dim → Prop
  | .persist _ => True
  | _ => False

instance decidablePersists : (effect : MergeEffect dim) → Decidable effect.Persists
  | .persist _ => isTrue trivial
  | .makeDir _ | .writeIndex _ _ | .writeIds _ _ | .writeVectors _ _ | .writeMeta _ _
  | .removeFile _ _ | .removeDir _ => isFalse id

end MergeEffect

theorem SegmentFiles.without_without (files : SegmentFiles dim) (first second : SegmentFile → Bool) :
    (files.without first).without second = files.without fun file => first file || second file := by
  simp only [SegmentFiles.without, SegmentFiles.mk.injEq, Bool.or_eq_true]
  refine ⟨?_, ?_, ?_, ?_⟩ <;> split <;> split <;> simp_all

theorem SegmentFiles.without_nothing (files : SegmentFiles dim) :
    files.without (fun _ => false) = files := rfl

/-- What removals leave at a path. -/
theorem get?_removals {removals : List (MergeEffect dim)}
    (removes : ∀ effect ∈ removals, effect.Removes) (st : SharedStorage dim) (path : String) :
    (st.after removals).segmentDirs.get? path =
      if .removeDir path ∈ removals then none
      else (st.segmentDirs.get? path).map
        (SegmentFiles.without · fun file => decide (.removeFile path file ∈ removals)) := by
  induction removals generalizing st with
  | nil =>
      simp only [List.not_mem_nil, if_false, decide_false, SegmentFiles.without_nothing]
      exact Option.map_id'.symm
  | cons effect removals ih =>
      have later := ih (fun e member => removes e (List.mem_cons_of_mem _ member))
      rw [SharedStorage.after_cons, later]
      have head := removes effect List.mem_cons_self
      cases effect with
      | removeDir other =>
          simp only [SharedStorage.apply, SharedStorage.rmtree, Dict.get?_erase]
          by_cases same : other = path
          · simp [same]
          · simp [same, Ne.symm same]
      | removeFile other file =>
          rw [SharedStorage.get?_removeFile]
          by_cases same : other = path
          · subst same
            simp only [if_true, Option.map_map, Function.comp_def, SegmentFiles.without_without,
              List.mem_cons, reduceCtorEq, false_or, MergeEffect.removeFile.injEq, true_and,
              Bool.decide_or]
          · simp [same, Ne.symm same]
      | _ => exact absurd head id

/-- Removals touch directories only. -/
theorem frame_removals {removals : List (MergeEffect dim)}
    (removes : ∀ effect ∈ removals, effect.Removes) (st : SharedStorage dim) :
    (st.after removals).tombstonesJson = st.tombstonesJson ∧
      (st.after removals).uuids = st.uuids := by
  induction removals generalizing st with
  | nil => exact ⟨rfl, rfl⟩
  | cons effect removals ih =>
      obtain ⟨tombstonesJson, uuids⟩ :=
        ih (fun e member => removes e (List.mem_cons_of_mem _ member)) (st.apply effect)
      rw [SharedStorage.after_cons, tombstonesJson, uuids]
      have head := removes effect List.mem_cons_self
      cases effect with
      | removeDir other => exact ⟨rfl, rfl⟩
      | removeFile other file =>
          simp only [SharedStorage.apply]
          split <;> exact ⟨rfl, rfl⟩
      | _ => exact absurd head id

theorem removes_of_mem_rmtreeEffects {order : String → List SegmentFile} {paths : List String}
    {effect : MergeEffect dim} (member : effect ∈ paths.flatMap (rmtreeEffects order)) :
    effect.Removes ∧ ∃ path ∈ paths, effect = .removeDir path ∨ ∃ file, effect = .removeFile path file := by
  rcases List.mem_flatMap.mp member with ⟨path, listed, here⟩
  rcases List.mem_append.mp here with file | dir
  · rcases List.mem_map.mp file with ⟨removed, -, rfl⟩
    exact ⟨trivial, path, listed, Or.inr ⟨removed, rfl⟩⟩
  · rw [List.mem_singleton.mp dir]
    exact ⟨trivial, path, listed, Or.inl rfl⟩

/-! ## All the effects -/

namespace SharedStorage

/-- The storages hold the same. -/
structure Same (st st' : SharedStorage dim) : Prop where
  dirs : ∀ path, st.segmentDirs.get? path = st'.segmentDirs.get? path
  tombstonesJson : st.tombstonesJson = st'.tombstonesJson
  uuids : st.uuids = st'.uuids

namespace Same

variable {st st' st'' : SharedStorage dim}

theorem trans (first : Same st st') (second : Same st' st'') : Same st st'' :=
  ⟨fun path => (first.dirs path).trans (second.dirs path),
    first.tombstonesJson.trans second.tombstonesJson, first.uuids.trans second.uuids⟩

theorem persist (same : Same st st') (ids : Finset ℤ) : Same (st.persist ids) (st'.persist ids) :=
  ⟨same.dirs, rfl, same.uuids⟩

theorem rmtreeAll (same : Same st st') (paths : List String) :
    Same (st.rmtreeAll paths) (st'.rmtreeAll paths) := by
  refine ⟨fun path => ?_, ?_, ?_⟩
  · rw [get?_rmtreeAll, get?_rmtreeAll, same.dirs]
  · rw [tombstonesJson_rmtreeAll, tombstonesJson_rmtreeAll, same.tombstonesJson]
  · rw [uuids_rmtreeAll, uuids_rmtreeAll, same.uuids]

end Same

end SharedStorage

/-- Directories that are removed file by file. -/
theorem same_rmtreeEffects (order : String → List SegmentFile) (paths : List String)
    (st : SharedStorage dim) :
    (st.after (paths.flatMap (rmtreeEffects order))).Same (st.rmtreeAll paths) := by
  let removals : List (MergeEffect dim) := paths.flatMap (rmtreeEffects order)
  have removes : ∀ effect ∈ removals, effect.Removes := fun effect member =>
    (removes_of_mem_rmtreeEffects member).1
  refine ⟨fun path => ?_, ?_, ?_⟩
  · rw [get?_removals removes, SharedStorage.get?_rmtreeAll]
    by_cases listed : path ∈ paths
    · have gone : MergeEffect.removeDir path ∈ removals :=
        List.mem_flatMap.mpr ⟨path, listed, List.mem_append_right _ (List.mem_singleton_self _)⟩
      rw [if_pos gone, if_pos listed]
    · have kept : MergeEffect.removeDir path ∉ removals := by
        intro member
        obtain ⟨-, other, present, named⟩ := removes_of_mem_rmtreeEffects member
        rcases named with same | ⟨file, impossible⟩
        · cases same
          exact listed present
        · cases impossible
      have files : (fun file => decide (MergeEffect.removeFile path file ∈ removals)) =
          fun _ => false := by
        funext file
        rw [decide_eq_false_iff_not]
        intro member
        obtain ⟨-, other, present, named⟩ := removes_of_mem_rmtreeEffects member
        rcases named with impossible | ⟨file', same⟩
        · cases impossible
        · cases same
          exact listed present
      rw [if_neg kept, if_neg listed, files]
      exact Option.map_id'
  · rw [(frame_removals removes _).1, SharedStorage.tombstonesJson_rmtreeAll]
  · rw [(frame_removals removes _).2, SharedStorage.uuids_rmtreeAll]

/-- The files of a new segment are written one by one. -/
theorem same_createEffects (uuid : Uuid4) (shardId snapshotId : ℕ) (rows : List (Row dim))
    (nlist : ℕ) (st : SharedStorage dim) :
    (st.after (Segment.create uuid shardId snapshotId rows nlist st).1.createEffects).Same
      (Segment.create uuid shardId snapshotId rows nlist st).2 := by
  refine ⟨fun path => ?_, rfl, rfl⟩
  by_cases same : (Segment.create uuid shardId snapshotId rows nlist st).1.path = path
  · have whole := (Segment.create_stored uuid shardId snapshotId rows nlist st).files
    rw [same] at whole
    rw [whole]
    simp [SharedStorage.after, SharedStorage.apply, Segment.createEffects, Segment.files, same]
  · have other : (Segment.create uuid shardId snapshotId rows nlist st).2.segmentDirs.get? path =
        st.segmentDirs.get? path := by
      simp only [Segment.create, Dict.get?_set]
      exact if_neg same
    rw [other]
    simp [SharedStorage.after, SharedStorage.apply, Segment.createEffects, same]

/-- **All the effects of a merge are what it does.** -/
theorem storage_of_merge {env : Env} {n n' : Node dim} {out : Option (Segment dim)}
    (enough : n.engine.mergeThreshold ≤ n.engine.segments.length)
    (ran : LSMEngine.merge env n = .ok (out, n')) (order : String → List SegmentFile) :
    ∃ effects, LSMEngine.mergeEffects env n order = .ok effects ∧
      (n.storage.after effects).Same n'.storage := by
  unfold LSMEngine.merge at ran
  obtain ⟨-, -, ran⟩ := ok_of_bind ran
  rw [if_neg (not_lt.mpr enough)] at ran
  obtain ⟨latest, gathered, ran⟩ := ok_of_bind ran
  let paths := n.engine.toMerge.map Segment.path
  refine ⟨_, by rw [LSMEngine.mergeEffects, gathered]; rfl, ?_⟩
  rw [SharedStorage.after_append, SharedStorage.after_cons]
  apply (same_rmtreeEffects order paths _).trans
  dsimp only at ran
  split at ran
  · next empty =>
      cases ran
      rw [LSMEngine.mergedSegment, if_pos empty]
      exact ⟨fun _ => rfl, rfl, rfl⟩
  · next kept =>
      cases ran
      rw [LSMEngine.mergedSegment, if_neg kept, List.flatMap_singleton]
      exact ((same_createEffects _ _ _ _ _ _).persist _).rmtreeAll paths

/-! ## The directories behind a cut -/

/-- The effects have rewritten `tombstones.json`. -/
def Rewrote (done : List (MergeEffect dim)) : Prop := ∃ effect ∈ done, effect.Persists

instance Rewrote.decidable (done : List (MergeEffect dim)) : Decidable (Rewrote done) :=
  inferInstanceAs (Decidable (∃ effect ∈ done, effect.Persists))

/-- The files that the effects have removed at a path. -/
def removedAt (done : List (MergeEffect dim)) (path : String) (file : SegmentFile) : Bool :=
  decide (MergeEffect.removeFile path file ∈ done)

/-- The directories of `st` behind the effects `done`, with the segments `made` that
have become whole. -/
structure CutDirs (st : SharedStorage dim) (made : List (Segment dim))
    (done : List (MergeEffect dim)) : Prop where
  stored : ∀ seg ∈ made, seg.Stored (st.after done)
  kept : ∀ path files, st.segmentDirs.get? path = some files → .removeDir path ∉ done →
    (st.after done).segmentDirs.get? path = some (files.without (removedAt done path))
  old : ∀ path, ((st.after done).files path).metaJson.isSome = true →
    (∃ seg ∈ made, seg.path = path) ∨
      (.removeDir path ∉ done ∧ ∃ files, st.segmentDirs.get? path = some files)

/-- Nothing was removed. -/
theorem removedAt_nothing {done : List (MergeEffect dim)} {path : String}
    (nothing : ∀ effect ∈ done, ¬ effect.Removes) : removedAt done path = fun _ => false := by
  funext file
  rw [removedAt, decide_eq_false_iff_not]
  exact fun member => nothing _ member trivial

theorem not_removes_of_mem_createEffects {seg : Segment dim} {effect : MergeEffect dim}
    (member : effect ∈ seg.createEffects) : ¬ effect.Removes ∧ ¬ effect.Persists := by
  simp only [Segment.createEffects, List.mem_cons, List.not_mem_nil, or_false] at member
  rcases member with rfl | rfl | rfl | rfl | rfl <;> exact ⟨id, id⟩

theorem SharedStorage.exists_of_described {st : SharedStorage dim} {path : String}
    (described : (st.files path).metaJson.isSome = true) :
    ∃ files, st.segmentDirs.get? path = some files := by
  rw [SharedStorage.files] at described
  cases found : st.segmentDirs.get? path with
  | none => simp [found] at described
  | some files => exact ⟨files, rfl⟩

/-- The directories before the first effect. -/
theorem cutDirs_nil (st : SharedStorage dim) : CutDirs st [] [] :=
  ⟨by simp, fun _ _ found _ => found,
    fun _ described => Or.inr ⟨by simp, SharedStorage.exists_of_described described⟩⟩

/-- The directories while the new segment is being written: it is whole when its
metadata is there. -/
theorem cutDirs_create {st st' : SharedStorage dim} {seg : Segment dim}
    (fresh : st.segmentDirs.get? seg.path = none) (named : seg.Stored st') (count : ℕ) :
    ∃ front, CutDirs st front (seg.createEffects.take count) ∧ (front = [] ∨ front = [seg]) ∧
      (5 ≤ count → front = [seg]) := by
  obtain ⟨others, -, partly, whole⟩ := SharedStorage.after_createEffects fresh count
  have nothing : ∀ effect ∈ seg.createEffects.take count, ¬ effect.Removes := fun effect member =>
    (not_removes_of_mem_createEffects (List.mem_of_mem_take member)).1
  have dirKept : ∀ path, MergeEffect.removeDir path ∉ seg.createEffects.take count :=
    fun path member => nothing _ member trivial
  have kept : ∀ path files, st.segmentDirs.get? path = some files →
      .removeDir path ∉ seg.createEffects.take count →
      (st.after (seg.createEffects.take count)).segmentDirs.get? path =
        some (files.without (removedAt (seg.createEffects.take count) path)) := by
    intro path files found _
    have other : path ≠ seg.path := by
      rintro rfl
      rw [fresh] at found
      cases found
    rw [removedAt_nothing nothing, others path other]
    exact found
  have old : ∀ path, path ≠ seg.path →
      ((st.after (seg.createEffects.take count)).files path).metaJson.isSome = true →
      .removeDir path ∉ seg.createEffects.take count ∧
        ∃ files, st.segmentDirs.get? path = some files := by
    intro path other described
    obtain ⟨files, found⟩ := SharedStorage.exists_of_described described
    exact ⟨dirKept path, files, (others path other).symm.trans found⟩
  rcases Nat.lt_or_ge count 5 with early | late
  · refine ⟨[], ⟨by simp, kept, fun path described => ?_⟩, Or.inl rfl, fun late => by omega⟩
    by_cases same : path = seg.path
    · rw [same, partly early] at described
      cases described
    · exact Or.inr (old path same described)
  · refine ⟨[seg], ⟨?_, kept, fun path described => ?_⟩, Or.inr rfl, fun _ => rfl⟩
    · intro seg' member
      rw [List.mem_singleton.mp member]
      exact ⟨whole late, named.path, named.metaPath, named.uncached⟩
    · by_cases same : path = seg.path
      · exact Or.inl ⟨seg, List.mem_singleton_self _, same.symm⟩
      · exact Or.inr (old path same described)

/-- The directories once removals follow. -/
theorem CutDirs.remove {st : SharedStorage dim} {made : List (Segment dim)}
    {done removals : List (MergeEffect dim)} {ids : Finset ℤ} (cut : CutDirs st made done)
    (nothing : ∀ effect ∈ done, ¬ effect.Removes)
    (removes : ∀ effect ∈ removals, effect.Removes)
    (spares : ∀ seg ∈ made, ∀ file, .removeFile seg.path file ∉ removals)
    (sparesDir : ∀ seg ∈ made, .removeDir seg.path ∉ removals) :
    CutDirs st made (done ++ .persist ids :: removals) := by
  have later : ∀ path, (st.after (done ++ .persist ids :: removals)).segmentDirs.get? path =
      if .removeDir path ∈ removals then none
      else ((st.after done).segmentDirs.get? path).map
        (SegmentFiles.without · fun file => decide (.removeFile path file ∈ removals)) := by
    intro path
    rw [SharedStorage.after_append, SharedStorage.after_cons, get?_removals removes]
    rfl
  have dirs : ∀ path, MergeEffect.removeDir path ∈ done ++ .persist ids :: removals ↔
      .removeDir path ∈ removals := by
    intro path
    have unremoved : MergeEffect.removeDir path ∉ done := fun member => nothing _ member trivial
    simp [unremoved]
  have files : ∀ path, removedAt (done ++ .persist ids :: removals) path =
      fun file => decide (.removeFile path file ∈ removals) := by
    intro path
    funext file
    have unremoved : MergeEffect.removeFile path file ∉ done := fun member =>
      nothing _ member trivial
    simp [removedAt, unremoved]
  refine ⟨fun seg member => ?_, fun path found here stays => ?_, fun path described => ?_⟩
  · have stored := cut.stored seg member
    refine stored.congr ?_
    rw [later, if_neg (sparesDir seg member), stored.files]
    simp [spares seg member, SegmentFiles.without_nothing]
  · rw [dirs] at stays
    rw [later, if_neg stays, cut.kept path found here fun member => nothing _ member trivial,
      removedAt_nothing nothing, files]
    rfl
  · obtain ⟨found, here⟩ := SharedStorage.exists_of_described described
    rw [later] at here
    split at here
    · cases here
    next stays =>
    rw [dirs]
    rcases Option.map_eq_some_iff.mp here with ⟨before, beforeFound, same⟩
    have describedBefore : ((st.after done).files path).metaJson.isSome = true := by
      rw [SharedStorage.files, later, if_neg stays, beforeFound] at described
      rw [SharedStorage.files, beforeFound, Option.getD_some]
      simp only [Option.map_some, Option.getD_some, SegmentFiles.without] at described
      split at described
      · cases described
      · exact described
    rcases cut.old path describedBefore with new | ⟨-, existed⟩
    · exact Or.inl new
    · exact Or.inr ⟨stays, existed⟩

/-- What has become of a storage behind a cut: the tombstones are as before and the new
segment may be whole, or they have been rewritten and it is. -/
inductive CutAt (st : SharedStorage dim) (made : List (Segment dim)) (ids : Finset ℤ)
    (done : List (MergeEffect dim)) : Prop
  | before {front : List (Segment dim)} (dirs : CutDirs st front done)
      (either : front = [] ∨ front = made) (unwritten : ¬ Rewrote done)
      (untouched : ∀ effect ∈ done, ¬ effect.Removes)
      (tombstones : (st.after done).tombstonesJson = st.tombstonesJson)
  | behind (dirs : CutDirs st made done) (rewrote : Rewrote done)
      (tombstones : (st.after done).tombstonesJson = .holds ids)

/-- The segment of a merge, if there is one, has a new directory. -/
def NewSegments (st : SharedStorage dim) (made : List (Segment dim)) : Prop :=
  made = [] ∨ ∃ seg st', made = [seg] ∧ st.segmentDirs.get? seg.path = none ∧ seg.Stored st'

theorem NewSegments.fresh {st : SharedStorage dim} {made : List (Segment dim)}
    (new : NewSegments st made) : ∀ seg ∈ made, st.segmentDirs.get? seg.path = none := by
  rcases new with rfl | ⟨seg, st', rfl, fresh, -⟩
  · simp
  · intro seg' member
    rw [List.mem_singleton.mp member]
    exact fresh

/-- While the new segment is being written. -/
theorem cutDirs_creating {st : SharedStorage dim} {made : List (Segment dim)}
    (new : NewSegments st made) (count : ℕ) :
    let done := (made.flatMap Segment.createEffects).take count
    (∃ front, CutDirs st front done ∧ (front = [] ∨ front = made) ∧
        ((made.flatMap Segment.createEffects).length ≤ count → front = made)) ∧
      (∀ effect ∈ done, ¬ effect.Removes ∧ ¬ effect.Persists) ∧
      (st.after done).tombstonesJson = st.tombstonesJson := by
  rcases new with rfl | ⟨seg, st', rfl, fresh, named⟩
  · exact ⟨⟨[], by simpa using cutDirs_nil st, Or.inl rfl, fun _ => rfl⟩, by simp, by simp; rfl⟩
  · have effects : [seg].flatMap Segment.createEffects = seg.createEffects := by simp
    have five : seg.createEffects.length = 5 := rfl
    rw [effects, five]
    exact ⟨cutDirs_create fresh named count, fun effect member =>
      not_removes_of_mem_createEffects (List.mem_of_mem_take member),
      (SharedStorage.after_createEffects fresh count).2.1⟩

/-- **The storage behind any cut.** -/
theorem cutAt_of_take {st : SharedStorage dim} {made : List (Segment dim)} {ids : Finset ℤ}
    {removals : List (MergeEffect dim)} (new : NewSegments st made)
    (removes : ∀ effect ∈ removals, effect.Removes)
    (spares : ∀ seg ∈ made, ∀ file, .removeFile seg.path file ∉ removals)
    (sparesDir : ∀ seg ∈ made, .removeDir seg.path ∉ removals) (count : ℕ) :
    CutAt st made ids
      ((made.flatMap Segment.createEffects ++ .persist ids :: removals).take count) := by
  obtain ⟨⟨front, dirs, either, -⟩, harmless, tombstones⟩ := cutDirs_creating new count
  rcases Nat.lt_or_ge (made.flatMap Segment.createEffects).length count with late | early
  · obtain ⟨more, rfl⟩ := Nat.exists_eq_add_of_lt late
    have whole : (made.flatMap Segment.createEffects).take
        (made.flatMap Segment.createEffects).length = made.flatMap Segment.createEffects :=
      List.take_length
    obtain ⟨⟨front', dirs', -, complete⟩, harmless', -⟩ :=
      cutDirs_creating new (made.flatMap Segment.createEffects).length
    rw [whole] at dirs' harmless'
    rw [complete le_rfl] at dirs'
    have split : (made.flatMap Segment.createEffects ++ .persist ids :: removals).take
        ((made.flatMap Segment.createEffects).length + more + 1) =
          made.flatMap Segment.createEffects ++ .persist ids :: removals.take more := by
      rw [Nat.add_assoc, List.take_length_add_append, List.take_succ_cons]
    rw [split]
    have removes' : ∀ effect ∈ removals.take more, effect.Removes := fun effect member =>
      removes effect (List.mem_of_mem_take member)
    refine .behind (dirs'.remove (fun effect member => (harmless' effect member).1) removes' ?_ ?_)
      ⟨.persist ids, by simp, trivial⟩ ?_
    · exact fun seg member file removed => spares seg member file (List.mem_of_mem_take removed)
    · exact fun seg member removed => sparesDir seg member (List.mem_of_mem_take removed)
    · rw [SharedStorage.after_append, SharedStorage.after_cons, (frame_removals removes' _).1]
      rfl
  · have split : (made.flatMap Segment.createEffects ++ .persist ids :: removals).take count =
        (made.flatMap Segment.createEffects).take count := List.take_append_of_le_length early
    rw [split]
    refine .before dirs either ?_ (fun effect member => (harmless effect member).1) tombstones
    rintro ⟨effect, member, persists⟩
    exact (harmless effect member).2 persists

end VecScale
