import VecScale.Reader.FullCache
import VecScale.Reader.World

/-!
# Directories within reach

A merge removes the directories of the segments that it took, and the coordinator lists
these segments until a later pass withdraws them.

* `SegmentCache.InReach`: what a refresh with a list needs of the directories;
* `SegmentCache.InReach.refresh`: such a refresh returns;
* `World.Spares`: the condition on fetches and removals;
* `refreshes_return`: in a run that meets it, every refresh returns;
* `removed_directory_listed`: a fetch between a merge and the next pass.
-/

namespace VecScale

variable {dim numShards : ℕ} {env : Env} {st st' : SharedStorage dim} {cache : SegmentCache dim}
  {allSegments : List SegmentMeta}

/-- The files that a reader opens are there. -/
def SegmentFiles.Whole (files : SegmentFiles dim) : Prop :=
  files.metaJson.isSome ∧ files.indexFaiss.isSome ∧ files.idsNpy.isSome

instance (files : SegmentFiles dim) : Decidable files.Whole :=
  inferInstanceAs (Decidable (_ ∧ _ ∧ _))

namespace SegmentCache

/-- The cache has room for everything listed. -/
def HasRoom (cache : SegmentCache dim) (allSegments : List SegmentMeta) : Prop :=
  (cache.listed allSegments).length ≤ cache.maxSegmentsInMemory

instance (cache : SegmentCache dim) (allSegments : List SegmentMeta) :
    Decidable (cache.HasRoom allSegments) := inferInstanceAs (Decidable (_ ≤ _))

/-- Every listed segment that the reader serves has its directory, or stays in the cache. -/
def InReach (st : SharedStorage dim) (cache : SegmentCache dim) (allSegments : List SegmentMeta) :
    Prop :=
  ∀ segMeta ∈ allSegments, cache.Serves segMeta.shardId →
    (∀ seg ∈ cache.segments.get? segMeta.segmentId, CanReadIds st seg) ∧
      ((st.files segMeta.path).Whole ∨
        cache.HasRoom allSegments ∧ segMeta.segmentId ∈ cache.segments.keys)

instance (st : SharedStorage dim) (cache : SegmentCache dim) (allSegments : List SegmentMeta) :
    Decidable (cache.InReach st allSegments) :=
  inferInstanceAs (Decidable (∀ _ ∈ allSegments, _ → (∀ _ ∈ _, _) ∧ _))

/-! ## A refresh -/

theorem load_of_whole {path : String} (whole : (st.files path).Whole) :
    ∃ seg, Segment.load st path = .ok seg ∧ CanReadIds st seg := by
  rcases whole with ⟨hasMeta, hasIndex, hasIds⟩
  rcases Option.isSome_iff_exists.mp hasMeta with ⟨segMeta, metaJson⟩
  rcases Option.isSome_iff_exists.mp hasIndex with ⟨index, indexFaiss⟩
  refine ⟨⟨segMeta, path, index, none⟩, ?_, Or.inr hasIds⟩
  simp only [Segment.load, metaJson, indexFaiss]

/-- One turn of the loading loop, over a segment that has its directory or stays in a cache
with room. -/
theorem admitItem_of_reach {limit : ℕ} (names : Finset String) (room : Prop)
    (few : room → names.card ≤ limit) {segments : Dict String (Segment dim)}
    {item : String × SegmentMeta} (inside : ∀ name ∈ segments.keys, name ∈ names)
    (listed : item.1 ∈ names) (readable : ∀ name seg,
      segments.get? name = some seg → CanReadIds st seg)
    (reach : (st.files item.2.path).Whole ∨ room ∧ item.1 ∈ segments.keys) :
    ∃ admitted, admitItem st limit segments item = .ok admitted ∧
      (∀ name ∈ admitted.keys, name ∈ names) ∧
      (∀ name seg, admitted.get? name = some seg → CanReadIds st seg) ∧
      (room → ∀ name ∈ segments.keys, name ∈ admitted.keys) := by
  unfold admitItem
  split
  · refine ⟨_, rfl, fun name member => ?_, fun name seg found => ?_, fun _ name member => ?_⟩
    · rw [Dict.mem_keys_iff, Dict.get?_moveToEnd, ← Dict.mem_keys_iff] at member
      exact inside name member
    · rw [Dict.get?_moveToEnd] at found
      exact readable name seg found
    · rw [Dict.mem_keys_iff, Dict.get?_moveToEnd, ← Dict.mem_keys_iff]
      exact member
  · next unknown =>
      obtain ⟨seg, loaded, canRead⟩ := load_of_whole
        (reach.resolve_right fun both => unknown both.2)
      have source : ∀ name seg', ((segments.set item.1 seg).moveToEnd item.1).get? name =
          some seg' → (item.1 = name ∧ seg' = seg) ∨ segments.get? name = some seg' := by
        intro name seg' found
        rw [Dict.get?_moveToEnd, Dict.get?_set] at found
        split at found
        · next same =>
            cases found
            exact Or.inl ⟨same, rfl⟩
        · exact Or.inr found
      have keys : ∀ name ∈ ((segments.set item.1 seg).moveToEnd item.1).keys, name ∈ names := by
        intro name member
        rcases Dict.mem_keys_iff.mp member with ⟨seg', found⟩
        rcases source name seg' found with ⟨same, -⟩ | before
        · exact same ▸ listed
        · exact inside name (Dict.mem_keys_iff.mpr ⟨seg', before⟩)
      refine ⟨_, by rw [loaded]; rfl, fun name member => ?_, fun name seg' found => ?_,
        fun roomy name member => ?_⟩
      · rcases Dict.mem_keys_iff.mp member with ⟨seg', found⟩
        exact keys name (Dict.mem_keys_iff.mpr ⟨seg', get?_of_evictOldest found⟩)
      · rcases source name seg' (get?_of_evictOldest found) with ⟨-, rfl⟩ | before
        · exact canRead
        · exact readable name seg' before
      · rw [evictOldest_of_subset keys (few roomy), Dict.mem_keys_iff, Dict.get?_moveToEnd,
          ← Dict.mem_keys_iff, Dict.keys_set]
        split
        · exact member
        · exact List.mem_append_left _ member

/-- The loading loop, over segments that have their directories or stay in a cache with
room. -/
theorem admitAll_of_reach {limit : ℕ} (names : Finset String) (room : Prop)
    (few : room → names.card ≤ limit) {segments : Dict String (Segment dim)}
    {items : List (String × SegmentMeta)} (inside : ∀ name ∈ segments.keys, name ∈ names)
    (listed : ∀ item ∈ items, item.1 ∈ names) (readable : ∀ name seg,
      segments.get? name = some seg → CanReadIds st seg)
    (reach : ∀ item ∈ items, (st.files item.2.path).Whole ∨ room ∧ item.1 ∈ segments.keys) :
    (admitAll st limit segments items).1 = .ok () ∧ ∀ name seg,
      (admitAll st limit segments items).2.get? name = some seg → CanReadIds st seg := by
  induction items generalizing segments with
  | nil => exact ⟨rfl, readable⟩
  | cons item items ih =>
      obtain ⟨admitted, ran, inside', readable', stays⟩ := admitItem_of_reach names room few inside
        (listed item List.mem_cons_self) readable (reach item List.mem_cons_self)
      unfold admitAll
      rw [ran]
      refine ih inside' (fun later member => listed later (List.mem_cons_of_mem _ member)) readable'
        fun later member => ?_
      exact (reach later (List.mem_cons_of_mem _ member)).imp_right fun both =>
        ⟨both.1, stays both.1 _ both.2⟩

/-- **A refresh that has everything in reach returns.** -/
theorem InReach.refresh (reach : cache.InReach st allSegments) :
    (cache.refresh st allSegments).1 = .ok () := by
  let visible := cache.listed allSegments
  let kept := cache.segments.eraseAll (cache.segments.keys.filter fun name => name ∉ visible.keys)
  have names : (cache.namesByAge allSegments).Perm visible.keys := SegmentCache.perm_namesByAge
  have sizes : visible.keys.toFinset.card = visible.length := by
    rw [List.toFinset_card_of_nodup (Dict.keys_nodup visible), Dict.keys, List.length_map]
    rfl
  have inKept : ∀ name ∈ visible.keys, kept.get? name = cache.segments.get? name := by
    intro name member
    rw [Dict.get?_eraseAll, if_neg]
    intro dropped
    exact of_decide_eq_true (List.mem_filter.mp dropped).2 member
  obtain ⟨loaded, readable⟩ : (cache.loadListed st allSegments).1 = .ok () ∧ ∀ name seg,
      (cache.loadListed st allSegments).2.segments.get? name = some seg → CanReadIds st seg := by
    apply admitAll_of_reach visible.keys.toFinset (cache.HasRoom allSegments) fun room =>
      sizes.trans_le room
    · exact fun name member => List.mem_toFinset.mpr (mem_keys_kept member)
    · exact fun item member =>
        List.mem_toFinset.mpr (names.mem_iff.mp (List.mem_map_of_mem member))
    · intro name seg found
      have listed := mem_keys_kept (Dict.mem_keys_iff.mpr ⟨seg, found⟩)
      rcases mem_keys_listed.mp listed with ⟨segMeta, inList, serves, rfl⟩
      exact (reach segMeta inList serves).1 seg ((inKept _ listed).symm.trans found)
    · intro item member
      obtain ⟨named, inList, serves⟩ := mem_listed member
      have listed : item.1 ∈ visible.keys := names.mem_iff.mp (List.mem_map_of_mem member)
      refine (reach item.2 inList serves).2.imp_right fun both => ⟨both.1, ?_⟩
      rw [Dict.mem_keys_iff, inKept _ listed, named, ← Dict.mem_keys_iff]
      exact both.2
  exact refresh_of_loaded loaded fun name seg found => loadIds_of_canRead (readable name seg found)

/-! ## What the writer does to the directories -/

/-- No file is gone. -/
def Keeps (st st' : SharedStorage dim) : Prop :=
  ∀ path, ((st.files path).Whole → (st'.files path).Whole) ∧
    ((st.files path).idsNpy.isSome → (st'.files path).idsNpy.isSome)

theorem Keeps.of_dirs (dirs : st'.segmentDirs = st.segmentDirs) : Keeps st st' := by
  intro path
  have files : st'.files path = st.files path := by rw [SharedStorage.files, dirs]; rfl
  rw [files]
  exact ⟨id, id⟩

theorem Keeps.trans {middle : SharedStorage dim} (first : Keeps st middle)
    (second : Keeps middle st') : Keeps st st' :=
  fun path => ⟨(second path).1 ∘ (first path).1, (second path).2 ∘ (first path).2⟩

theorem keeps_create (uuid : Uuid4) (shardId snapshotId : ℕ) (rows : List (Row dim)) (nlist : ℕ) :
    Keeps st (Segment.create uuid shardId snapshotId rows nlist st).2 := by
  intro path
  unfold SharedStorage.files
  simp only [Segment.create, Dict.get?_set]
  split
  · exact ⟨fun _ => ⟨rfl, rfl, rfl⟩, fun _ => rfl⟩
  · exact ⟨id, id⟩

theorem InReach.mono (reach : cache.InReach st allSegments) (keeps : Keeps st st') :
    cache.InReach st' allSegments := by
  intro segMeta listed serves
  obtain ⟨ids, directory⟩ := reach segMeta listed serves
  exact ⟨fun seg cached => (ids seg cached).imp_right (keeps seg.path).2,
    directory.imp_left (keeps segMeta.path).1⟩

/-- A search changes nothing but the order of the cache. -/
theorem InReach.touch (reach : cache.InReach st allSegments) (s : ℕ) :
    (cache.touch s).InReach st allSegments := by
  have found : ∀ name, (cache.touch s).segments.get? name = cache.segments.get? name := fun name =>
    Dict.get?_foldl_moveToEnd _ _ _
  intro segMeta listed serves
  rw [Dict.mem_keys_iff, found, ← Dict.mem_keys_iff]
  exact reach segMeta listed serves

theorem keeps_logInsert {ids : List ℤ} {vectors : List (List UInt32)} {n : Node dim}
    {done : ℕ × Node dim} (ran : LSMEngine.logInsert env ids vectors n = .ok done) :
    Keeps n.storage done.2.storage := by
  obtain ⟨-, -, ran⟩ := ok_of_bind ran
  obtain ⟨rows, -, ran⟩ := ok_of_bind ran
  obtain ⟨lsn, -, ran⟩ := ok_of_bind ran
  cases ran
  exact .of_dirs (LSMEngine.applyInsert_dirs _ _ _ _).1

theorem keeps_delete {ids : List ℤ} {n : Node dim} {done : ℕ × Node dim}
    (ran : LSMEngine.delete env ids n = .ok done) : Keeps n.storage done.2.storage := by
  obtain ⟨-, -, ran⟩ := ok_of_bind ran
  obtain ⟨lsn, -, ran⟩ := ok_of_bind ran
  cases ran
  exact .of_dirs rfl

theorem keeps_flushMemtable {n : Node dim} {done : Option (Segment dim) × Node dim}
    (ran : LSMEngine.flushMemtable env n = .ok done) : Keeps n.storage done.2.storage := by
  have captured : Keeps n.storage (LSMEngine.captureDeletes n).storage :=
    .of_dirs (LSMEngine.captureDeletes_dirs n).1
  obtain ⟨-, -, ran⟩ := ok_of_bind ran
  dsimp only at ran
  split at ran
  · cases ran
    exact captured
  · cases ran
    exact captured.trans (keeps_create _ _ _ _ _)

/-- Only the last sections of a merge remove files. -/
theorem keeps_mergeSection {n : Node dim} {stage : MergeStage dim}
    {done : Node dim × Option (MergeStage dim)}
    (ran : LSMEngine.mergeSection env n stage = .ok done) :
    Keeps n.storage done.1.storage ∨ ∃ path paths, stage = .removing (path :: paths) ∧
      done.1.storage = n.storage.rmtree path := by
  cases stage with
  | begun toMerge remaining =>
      left
      obtain ⟨latest, -, ran⟩ := ok_of_bind ran
      dsimp only at ran
      split at ran
      · cases ran
        exact .of_dirs rfl
      · cases ran
        exact keeps_create _ _ _ _ _
  | written toMerge segments cleaned =>
      cases ran
      exact Or.inl (.of_dirs rfl)
  | removing paths =>
      cases paths with
      | nil =>
          cases ran
          exact Or.inl (.of_dirs rfl)
      | cons path paths =>
          cases ran
          exact Or.inr ⟨path, paths, rfl, rfl⟩

end SegmentCache

/-! ## Runs -/

open SegmentCache

/-- The directory that the next section of a merge removes. -/
def MergeStage.removes : MergeStage dim → Option String
  | .removing (path :: _) => some path
  | .removing [] | .begun _ _ | .written _ _ _ => none

namespace World

/-- The list that the reader has fetched, if any, is in its reach. -/
def FetchedInReach (w : World dim numShards) (st : SharedStorage dim) : Prop :=
  ∀ allSegments ∈ w.fetched, w.reader.InReach st allSegments

/-- A fetch finds the list in the reader's reach, and a merge removes no directory that the
reader needs for the list that it has fetched. -/
def Spares (w : World dim numShards) : Action dim numShards → Prop
  | .fetch => w.reader.InReach w.cluster.storage w.cluster.registry.listSegments
  | .merge shard => ∀ path ∈ (w.merges shard).bind MergeStage.removes,
      w.FetchedInReach (w.cluster.storage.rmtree path)
  | _ => True

/-- A refresh returns. -/
def Returns (w : World dim numShards) : Action dim numShards → Prop
  | .refresh => ∀ allSegments ∈ w.fetched,
      (w.reader.refresh w.cluster.storage allSegments).1 = .ok ()
  | _ => True

instance (w : World dim numShards) (st : SharedStorage dim) : Decidable (w.FetchedInReach st) :=
  inferInstanceAs (Decidable (∀ _ ∈ w.fetched, _))

instance (w : World dim numShards) : (action : Action dim numShards) → Decidable (w.Spares action)
  | .fetch => inferInstanceAs (Decidable (SegmentCache.InReach _ _ _))
  | .merge _ => inferInstanceAs (Decidable (∀ _ ∈ (_ : Option String), FetchedInReach _ _))
  | .insert _ _ | .delete _ _ | .flush _ | .close _ | .beginMerge _ | .beginPass | .pass _
  | .refresh | .search _ => inferInstanceAs (Decidable True)

instance (w : World dim numShards) : (action : Action dim numShards) → Decidable (w.Returns action)
  | .refresh => inferInstanceAs (Decidable (∀ _ ∈ w.fetched, _))
  | .insert _ _ | .delete _ _ | .flush _ | .close _ | .beginMerge _ | .merge _ | .beginPass
  | .pass _ | .fetch | .search _ => inferInstanceAs (Decidable True)

/-- **The step lemma.**  What is fetched stays in reach until it is used. -/
theorem fetchedInReach_step {w w' : World dim numShards} {action : Action dim numShards}
    (reach : w.FetchedInReach w.cluster.storage) (spares : w.Spares action)
    (acted : Acted env w action w') : w'.FetchedInReach w'.cluster.storage := by
  have kept : ∀ {st : SharedStorage dim}, Keeps w.cluster.storage st → w.FetchedInReach st :=
    fun keeps allSegments fetched => (reach allSegments fetched).mono keeps
  cases acted with
  | idle => exact reach
  | insert ran => exact kept (keeps_logInsert ran)
  | delete ran => exact kept (keeps_delete ran)
  | flush ran => exact kept (keeps_flushMemtable ran)
  | close => exact reach
  | beginMerge idle ran => exact reach
  | @merge shard stage done underWay ran =>
      rcases keeps_mergeSection ran with keeps | ⟨path, paths, rfl, removed⟩
      · exact kept keeps
      · have removes : path ∈ (w.merges shard).bind MergeStage.removes := by
          rw [underWay]
          rfl
        intro allSegments fetched
        change w.reader.InReach done.1.storage allSegments
        rw [removed]
        exact spares path removes allSegments fetched
  | beginPass => exact reach
  | @pass i pass underWay =>
      intro allSegments fetched
      have same := (w.cluster.sameEngines_passStep pass).storage
      change w.reader.InReach (w.cluster.passStep pass).1.storage allSegments
      rw [same]
      exact reach allSegments fetched
  | fetch =>
      intro allSegments fetched
      cases fetched
      exact spares
  | refresh fetched => exact nofun
  | search snapshotId => exact fun allSegments fetched => (reach allSegments fetched).touch snapshotId

/-- **Refreshes return**, whatever the writer and the reader do in whatever order, when every
fetch and every removal of a directory spares the reader. -/
theorem refreshes_return {w : World dim numShards} {actions : List (Action dim numShards)}
    (unfetched : w.fetched = none) (spares : StepsMeet (World.step env) World.Spares w actions) :
    StepsMeet (World.step env) World.Returns w actions := by
  have start : w.FetchedInReach w.cluster.storage := by
    intro allSegments fetched
    rw [unfetched] at fetched
    cases fetched
  refine spares.of_invariant (I := fun w => w.FetchedInReach w.cluster.storage)
    (fun w action reach spares => ⟨?_, fun w' ran => ?_⟩) start
  · cases action with
    | refresh => exact fun allSegments fetched => (reach allSegments fetched).refresh
    | insert shard rows => trivial
    | delete shard ids => trivial
    | flush shard => trivial
    | close shard => trivial
    | beginMerge shard => trivial
    | merge shard => trivial
    | beginPass => trivial
    | pass i => trivial
    | fetch => trivial
    | search snapshotId => trivial
  · exact fetchedInReach_step reach spares (acted_of_step ran)

/-! ## A window behind a merge -/

/-- A segment is flushed and registered. -/
def registered : List (Action 1 1) :=
  [.insert 0 [(1, zeroVec 1)], .flush 0, .beginPass] ++ List.replicate 8 (.pass 0)

/-- A second segment is flushed, and both are merged. -/
def merged : List (Action 1 1) :=
  [.insert 0 [(2, zeroVec 1)], .flush 0, .beginMerge 0] ++ List.replicate 5 (.merge 0)

/-- A reader that starts behind the merge fetches the list before the next pass. -/
def startedLate : List (Action 1 1) := registered ++ merged ++ [.fetch, .refresh]

/-- The list names a segment whose directory the merge has removed. -/
theorem removed_directory_listed :
    ∃ (boot : Cluster 1 1) (cache : SegmentCache 1) (w : World 1 1),
      Cluster.boot Env.counted ⟨1, 10, 2⟩ = .ok boot ∧ SegmentCache.new 0 20 false = .ok cache ∧
      runAll (World.step Env.counted) (.idle boot cache) startedLate = .ok w ∧
      ¬ StepsMeet (World.step Env.counted) World.Returns (.idle boot cache) startedLate := by
  have evaluated : (do
      let boot ← Cluster.boot Env.counted ⟨1, 10, 2⟩
      let cache ← SegmentCache.new 0 20 false
      let _ ← runAll (World.step Env.counted) (.idle boot cache) startedLate
      .ok (decide (¬ StepsMeet (World.step Env.counted) World.Returns (.idle boot cache)
        startedLate))) = .ok true := by
    decide +kernel
  obtain ⟨boot, booted, rest⟩ := ok_of_bind evaluated
  obtain ⟨cache, made, rest⟩ := ok_of_bind rest
  obtain ⟨w, ran, rest⟩ := ok_of_bind rest
  rw [Except.ok.injEq, decide_eq_true_eq] at rest
  exact ⟨boot, cache, w, booted, made, ran, rest⟩

/-- A reader that has the segment fetches the list behind the merge. -/
def startedEarly : List (Action 1 1) :=
  registered ++ [.fetch, .refresh] ++ merged ++ [.fetch, .search 1, .close 0, .refresh]

theorem refreshes_return_startedEarly :
    ∃ (boot : Cluster 1 1) (cache : SegmentCache 1) (w : World 1 1),
      Cluster.boot Env.counted ⟨1, 10, 2⟩ = .ok boot ∧ SegmentCache.new 0 20 false = .ok cache ∧
      runAll (World.step Env.counted) (.idle boot cache) startedEarly = .ok w ∧
      w.reader.segments.length = 1 ∧
      StepsMeet (World.step Env.counted) World.Returns (.idle boot cache) startedEarly := by
  have evaluated : (do
      let boot ← Cluster.boot Env.counted ⟨1, 10, 2⟩
      let cache ← SegmentCache.new 0 20 false
      let w ← runAll (World.step Env.counted) (.idle boot cache) startedEarly
      .ok (decide (w.reader.segments.length = 1 ∧ StepsMeet (World.step Env.counted) World.Spares
        (.idle boot cache) startedEarly))) = .ok true := by
    decide +kernel
  obtain ⟨boot, booted, rest⟩ := ok_of_bind evaluated
  obtain ⟨cache, made, rest⟩ := ok_of_bind rest
  obtain ⟨w, ran, rest⟩ := ok_of_bind rest
  rw [Except.ok.injEq, decide_eq_true_eq] at rest
  exact ⟨boot, cache, w, booted, made, ran, rest.1, refreshes_return rfl rest.2⟩

end World

end VecScale
