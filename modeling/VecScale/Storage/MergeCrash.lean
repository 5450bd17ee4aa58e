import VecScale.Storage.Resting

/-!
# A merge that is cut

A crash behind some of the effects of a merge leaves the merged segment, some of the old
directories and the old or the new tombstones; a start loads every directory that still
has its metadata.

* `Node.Recovers`: the start shows what the engine showed;
* `Behind.recovers_iff`: what this asks of the directories that are left;
* `merge_recovers_iff`: when a merge that is cut recovers.
-/

namespace VecScale

variable {dim : ℕ}

/-- An engine that starts behind the effects shows the rows that the node showed. -/
def Node.Recovers (env : Env) (n : Node dim) (done : List (MergeEffect dim))
    (mergeThreshold : ℕ) : Prop :=
  ∃ before started after, LSMEngine.exposed n = .ok before ∧
    LSMEngine.start env (({ n with storage := n.storage.after done } : Node dim).reborn
      mergeThreshold) = .ok started ∧
    LSMEngine.exposed started = .ok after ∧ ∀ row, row ∈ before ↔ row ∈ after

/-- A start still loads the directory of the segment. -/
def LeftBehind (done : List (MergeEffect dim)) (seg : Segment dim) : Prop :=
  .removeFile seg.path .metaJson ∉ done ∧ .removeDir seg.path ∉ done

instance LeftBehind.decidable (done : List (MergeEffect dim)) (seg : Segment dim) :
    Decidable (LeftBehind done seg) := inferInstanceAs (Decidable (_ ∧ _))

/-- The cut falls where a start finds what it needs: before the tombstones are rewritten,
`tombstones.json` has the tombstones of the ids that are merged, and from then on a
directory that is left behind has its index and its ids, and lists no tombstoned id. -/
structure Node.CutSafe (n : Node dim) (done : List (MergeEffect dim)) : Prop where
  before : ¬ Rewrote done → ∀ x ∈ segmentIds n.engine.segments,
    x ∈ n.storage.tombstonesJson.load ↔ x ∈ n.engine.tombstones
  behind : Rewrote done → ∀ seg ∈ n.engine.segments, LeftBehind done seg →
    .removeFile seg.path .indexFaiss ∉ done ∧ .removeFile seg.path .idsNpy ∉ done ∧
      ∀ x ∈ batchIds seg.rows, x ∉ n.engine.tombstones

instance Node.decidableCutSafe (n : Node dim) (done : List (MergeEffect dim)) :
    Decidable (n.CutSafe done) :=
  decidable_of_iff ((¬ Rewrote done → ∀ x ∈ segmentIds n.engine.segments,
      x ∈ n.storage.tombstonesJson.load ↔ x ∈ n.engine.tombstones) ∧
    (Rewrote done → ∀ seg ∈ n.engine.segments, LeftBehind done seg →
      .removeFile seg.path .indexFaiss ∉ done ∧ .removeFile seg.path .idsNpy ∉ done ∧
        ∀ x ∈ batchIds seg.rows, x ∉ n.engine.tombstones))
    ⟨fun both => ⟨both.1, both.2⟩, fun safe => ⟨safe.before, safe.behind⟩⟩

/-! ## Directories that have lost files -/

section Without

variable {st : SharedStorage dim} {seg : Segment dim} {removed : SegmentFile → Bool}

theorem load_of_without (uncached : seg.idsCache = none)
    (here : st.segmentDirs.get? seg.path = some (seg.files.without removed))
    (described : removed .metaJson = false) :
    Segment.load st seg.path = if removed .indexFaiss then
      .error (.runtimeError ("could not open " ++ seg.path ++ "/index.faiss for reading"))
      else .ok seg := by
  rcases seg with ⟨segMeta, path, index, idsCache⟩
  cases uncached
  simp only [Segment.load, SharedStorage.files, here, Option.getD_some, SegmentFiles.without,
    Segment.files, described, Bool.false_eq_true, if_false]
  cases removed .indexFaiss <;> rfl

theorem loadIds_of_without (uncached : seg.idsCache = none)
    (here : st.segmentDirs.get? seg.path = some (seg.files.without removed)) :
    seg.loadIds st = if removed .idsNpy then
      .error (.fileNotFoundError (seg.path ++ "/ids.npy"))
      else .ok (batchIds seg.rows, { seg with idsCache := some (batchIds seg.rows) }) := by
  simp only [Segment.loadIds, uncached, SharedStorage.files, here, Option.getD_some,
    SegmentFiles.without, Segment.files]
  cases removed .idsNpy <;> rfl

end Without

/-! ## What a start finds behind a cut -/

/-- The directories behind a cut; nothing but the directories of the segments was
removed. -/
structure Behind (n : Node dim) (made : List (Segment dim)) (done : List (MergeEffect dim)) :
    Prop where
  dirs : CutDirs n.storage made done
  spared : ∀ path, (∀ seg ∈ n.engine.segments, seg.path ≠ path) →
    (∀ file, .removeFile path file ∉ done) ∧ .removeDir path ∉ done
  shard : ∀ seg ∈ made, seg.shardId = n.engine.shardId
  bounded : ∀ seg ∈ made, seg.snapshotId ≤ n.engine.wal.lastLsn

/-- The segments that a start finds. -/
def foundBehind (n : Node dim) (made : List (Segment dim)) (done : List (MergeEffect dim)) :
    List (Segment dim) := made ++ n.engine.segments.filter fun seg => LeftBehind done seg

namespace Behind

variable {env : Env} {n : Node dim} {made : List (Segment dim)} {done : List (MergeEffect dim)}

/-- A directory that has its metadata is new, or a stored one of old. -/
theorem described (behind : Behind n made done) (resting : Resting env n) {path : String}
    (described : ((n.storage.after done).files path).metaJson.isSome = true) :
    (∃ seg ∈ made, seg.path = path) ∨
      ∃ seg : Segment dim, seg.Stored n.storage ∧ seg.path = path ∧ LeftBehind done seg ∧
        (seg.shardId = n.engine.shardId → seg ∈ n.engine.segments) := by
  rcases behind.dirs.old path described with new | ⟨stays, files, found⟩
  · exact Or.inl new
  right
  have here := behind.dirs.kept path files found stays
  rw [SharedStorage.files, here, Option.getD_some] at described
  simp only [SegmentFiles.without] at described
  split at described
  · cases described
  next unremoved =>
  have before : (n.storage.files path).metaJson.isSome = true := by
    rw [SharedStorage.files, found, Option.getD_some]
    exact described
  obtain ⟨seg, stored, rfl, own⟩ := resting.dirs path before
  refine ⟨seg, stored, rfl, ⟨?_, stays⟩, own⟩
  rw [removedAt, decide_eq_true_eq] at unremoved
  exact unremoved

/-- The files of a directory that was left behind. -/
theorem kept (behind : Behind n made done) {seg : Segment dim} (stored : seg.Stored n.storage)
    (left : LeftBehind done seg) :
    (n.storage.after done).segmentDirs.get? seg.path =
        some (seg.files.without (removedAt done seg.path)) ∧
      removedAt done seg.path .metaJson = false :=
  ⟨behind.dirs.kept seg.path seg.files stored.files left.2, decide_eq_false left.1⟩

/-- The segments of other shards are whole. -/
theorem spared_of_other (behind : Behind n made done) (resting : Resting env n)
    {seg : Segment dim} (stored : seg.Stored n.storage) (other : seg ∉ n.engine.segments)
    (file : SegmentFile) : .removeFile seg.path file ∉ done := by
  apply (behind.spared seg.path fun own member same => other ?_).1
  rwa [← (resting.stored own member).unique stored same]

/-- **When a start loads its segments.**  It does unless a directory that is left behind
has lost its index. -/
theorem loads_iff (behind : Behind n made done) (resting : Resting env n) :
    (∃ segments, LSMEngine.loadExistingSegments n.engine.shardId (n.storage.after done) =
        .ok segments) ↔
      ∀ seg ∈ n.engine.segments, LeftBehind done seg → .removeFile seg.path .indexFaiss ∉ done := by
  rw [exists_loadExistingSegments_iff]
  constructor
  · intro loads seg member left removed
    have stored := resting.stored seg member
    obtain ⟨here, unremoved⟩ := behind.kept stored left
    have described : ((n.storage.after done).files seg.path).metaJson.isSome = true := by
      rw [SharedStorage.files, here, Option.getD_some]
      simp [SegmentFiles.without, unremoved, Segment.files]
    obtain ⟨loaded, load⟩ := loads seg.path described
    rw [load_of_without stored.uncached here unremoved, removedAt, decide_eq_true removed] at load
    cases load
  · intro indexed path described
    rcases behind.described resting described with ⟨seg, member, rfl⟩ | ⟨seg, stored, rfl, left, own⟩
    · exact ⟨seg, Segment.load_of_stored (behind.dirs.stored seg member)⟩
    · obtain ⟨here, unremoved⟩ := behind.kept stored left
      have whole : removedAt done seg.path .indexFaiss = false := by
        apply decide_eq_false
        by_cases member : seg ∈ n.engine.segments
        · exact indexed seg member left
        · exact behind.spared_of_other resting stored member _
      refine ⟨seg, ?_⟩
      rw [load_of_without stored.uncached here unremoved, whole]
      rfl

/-- What a start loads. -/
theorem mem_loaded_iff (behind : Behind n made done) (resting : Resting env n)
    {segments : List (Segment dim)} (loaded : LSMEngine.loadExistingSegments n.engine.shardId
      (n.storage.after done) = .ok segments) (seg : Segment dim) :
    seg ∈ segments ↔ seg ∈ foundBehind n made done := by
  have indexed := (behind.loads_iff resting).mp ⟨segments, loaded⟩
  rw [mem_loadExistingSegments loaded, foundBehind, List.mem_append, List.mem_filter,
    decide_eq_true_eq]
  constructor
  · rintro ⟨own, path, -, described, load⟩
    rcases behind.described resting described with
      ⟨new, member, rfl⟩ | ⟨old, stored, rfl, left, ofShard⟩
    · rw [Segment.load_of_stored (behind.dirs.stored new member), Except.ok.injEq] at load
      exact Or.inl (load ▸ member)
    · obtain ⟨here, unremoved⟩ := behind.kept stored left
      rw [load_of_without stored.uncached here unremoved] at load
      split at load
      · cases load
      · cases load
        exact Or.inr ⟨ofShard own, left⟩
  · rintro (new | ⟨member, left⟩)
    · have stored := behind.dirs.stored seg new
      refine ⟨behind.shard seg new, seg.path, Dict.mem_keys_iff.mpr ⟨_, stored.files⟩, ?_,
        Segment.load_of_stored stored⟩
      rw [Segment.files_of_stored stored]
      rfl
    · have stored := resting.stored seg member
      obtain ⟨here, unremoved⟩ := behind.kept stored left
      refine ⟨resting.shard seg member, seg.path, Dict.mem_keys_iff.mpr ⟨_, here⟩, ?_, ?_⟩
      · rw [SharedStorage.files, here, Option.getD_some]
        simp [SegmentFiles.without, unremoved, Segment.files]
      · have whole : removedAt done seg.path .indexFaiss = false :=
          decide_eq_false (indexed seg member left)
        rw [load_of_without stored.uncached here unremoved, whole]
        rfl

/-- The engine that starts on the segments that were found. -/
theorem started (behind : Behind n made done) (resting : Resting env n)
    {segments : List (Segment dim)} (loaded : LSMEngine.loadExistingSegments n.engine.shardId
      (n.storage.after done) = .ok segments) (mergeThreshold : ℕ) :
    ∃ started, LSMEngine.start env (({ n with storage := n.storage.after done } : Node dim).reborn
        mergeThreshold) = .ok started ∧
      started.engine.segments = segments ∧ started.storage = n.storage.after done ∧
      started.engine.tombstones = (n.storage.after done).tombstonesJson.load ∧
      (∀ x, started.engine.memtable.entries.get? x = none) ∧
      ∀ seg ∈ started.engine.segments, seg.snapshotId ≤ started.engine.wal.lastLsn := by
  let left : Node dim := ⟨{ n.engine with segments }, n.storage.after done⟩
  have wal : left.engine.wal.Holds env.crc32 ([] : List (WALRecord dim)) := resting.wal
  obtain ⟨started, ran, restarted⟩ := start_of_loaded wal loaded (by simp) mergeThreshold
  have tombstones := restarted.tombstones
  rw [deletedIn, List.filter_nil, List.flatMap_nil, List.toFinset_nil, Finset.union_empty] at tombstones
  refine ⟨started, ran, restarted.segments, restarted.storage, tombstones, restarted.memtable, ?_⟩
  rw [restarted.segments, restarted.lastLsn]
  intro seg member
  rcases List.mem_append.mp ((behind.mem_loaded_iff resting loaded seg).mp member) with new | old
  · exact behind.bounded seg new
  · exact resting.bounded seg (List.mem_filter.mp old).1

/-- The ids of the segments that a start finds can be read, if none has lost them. -/
theorem readable (behind : Behind n made done) (resting : Resting env n)
    (complete : ∀ seg ∈ n.engine.segments, LeftBehind done seg →
      .removeFile seg.path .idsNpy ∉ done) :
    ∀ seg ∈ foundBehind n made done, seg.Readable (n.storage.after done) := by
  intro seg member
  rcases List.mem_append.mp member with new | old
  · exact ⟨_, Segment.loadIds_of_stored (behind.dirs.stored seg new)⟩
  · rw [List.mem_filter, decide_eq_true_eq] at old
    have stored := resting.stored seg old.1
    have whole : removedAt done seg.path .idsNpy = false :=
      decide_eq_false (complete seg old.1 old.2)
    have read := loadIds_of_without stored.uncached (behind.kept stored old.2).1
    rw [whole] at read
    exact ⟨_, read⟩

/-- **When the start shows what the engine showed.** -/
theorem recovers_iff (behind : Behind n made done) (resting : Resting env n) (mergeThreshold : ℕ) :
    n.Recovers env done mergeThreshold ↔
      (∀ seg ∈ n.engine.segments, LeftBehind done seg →
        .removeFile seg.path .indexFaiss ∉ done ∧ .removeFile seg.path .idsNpy ∉ done) ∧
      ∀ row, Shows n.engine.tombstones n.engine.segments row ↔
        Shows (n.storage.after done).tombstonesJson.load (foundBehind n made done) row := by
  rcases resting.exposed with ⟨before, ranBefore, shownBefore⟩
  have shows_congr : ∀ {segments : List (Segment dim)} {T : Finset ℤ} {row : Row dim},
      (∀ seg, seg ∈ segments ↔ seg ∈ foundBehind n made done) →
      (Shows T segments row ↔ Shows T (foundBehind n made done) row) := fun same =>
    and_congr_right fun _ => ShownBy.congr same
  constructor
  · rintro ⟨before', started, after, ran, start, ranAfter, sameRows⟩
    rw [ranBefore, Except.ok.injEq] at ran
    subst ran
    have loaded : LSMEngine.loadExistingSegments n.engine.shardId (n.storage.after done) =
        .ok started.engine.segments := loaded_of_start start
    have found := behind.mem_loaded_iff resting loaded
    obtain ⟨started', start', -, storage, tombstones, memtable, bounded⟩ :=
      behind.started resting loaded mergeThreshold
    rw [start, Except.ok.injEq] at start'
    subst start'
    have complete : ∀ seg ∈ n.engine.segments, LeftBehind done seg →
        .removeFile seg.path .idsNpy ∉ done := by
      intro seg member left removed
      have stored := resting.stored seg member
      have listed : seg ∈ started.engine.segments := (found seg).mpr
        (List.mem_append_right _ (List.mem_filter.mpr ⟨member, decide_eq_true left⟩))
      obtain ⟨ids, read⟩ := ids_of_exposed ranAfter bounded listed
      rw [storage, loadIds_of_without stored.uncached (behind.kept stored left).1, removedAt,
        decide_eq_true removed] at read
      cases read
    refine ⟨fun seg member left => ⟨(behind.loads_iff resting).mp ⟨_, loaded⟩ seg member left,
      complete seg member left⟩, fun row => ?_⟩
    have readable : ∀ seg ∈ started.engine.segments, seg.Readable started.storage := by
      rw [storage]
      exact fun seg member => behind.readable resting complete seg ((found seg).mp member)
    obtain ⟨rows, ranRows, shown⟩ := exposed_of_readable memtable bounded readable
    rw [ranAfter, Except.ok.injEq] at ranRows
    subst ranRows
    rw [← shownBefore, sameRows, shown, tombstones]
    exact shows_congr found
  · rintro ⟨complete, sameRows⟩
    obtain ⟨segments, loaded⟩ := (behind.loads_iff resting).mpr fun seg member left =>
      (complete seg member left).1
    have found := behind.mem_loaded_iff resting loaded
    obtain ⟨started, start, here, storage, tombstones, memtable, bounded⟩ :=
      behind.started resting loaded mergeThreshold
    have readable : ∀ seg ∈ started.engine.segments, seg.Readable started.storage := by
      rw [storage, here]
      exact fun seg member => behind.readable resting
        (fun seg listed left => (complete seg listed left).2) seg ((found seg).mp member)
    obtain ⟨rows, ranRows, shown⟩ := exposed_of_readable memtable bounded readable
    refine ⟨before, started, rows, ranBefore, start, ranRows, fun row => ?_⟩
    rw [shownBefore, sameRows, shown, tombstones, here]
    exact (shows_congr found).symm

end Behind

/-! ## The segment that a merge makes -/

/-- The segments made by a merge of all segments have the rows that the engine shows. -/
structure MadeBy (n : Node dim) (made : List (Segment dim)) : Prop where
  new : NewSegments n.storage made
  rows : ∀ row, (∃ seg ∈ made, row ∈ seg.rows) ↔ Shows n.engine.tombstones n.engine.segments row
  ages : ∀ seg ∈ made, seg.snapshotId = maxSnapshot n.engine.segments
  shard : ∀ seg ∈ made, seg.shardId = n.engine.shardId

section Made

variable {env : Env} {n : Node dim} {made : List (Segment dim)}

theorem Resting.shownBy_iff (resting : Resting env n) {x : ℤ} {v : Vec dim} :
    newestRow n.engine.segments x = some v ↔ ShownBy n.engine.segments x v :=
  newestRow_eq_some_iff_shownBy resting.ordered resting.agree resting.nodup

theorem Resting.madeBy (resting : Resting env n) (all : n.engine.toMerge = n.engine.segments) :
    MadeBy n (LSMEngine.mergedSegment env n (latestOf n.engine.segments)) := by
  have kept : ∀ row, row ∈ LSMEngine.keptRows (latestOf n.engine.segments) n.engine.tombstones ↔
      Shows n.engine.tombstones n.engine.segments row := fun row => by
    rw [← Prod.mk.eta (p := row), mem_keptRows, resting.shownBy_iff]
    rfl
  rw [LSMEngine.mergedSegment, all]
  split
  · next empty =>
      refine ⟨Or.inl rfl, fun row => ?_, by simp, by simp⟩
      rw [← kept, empty]
      simp
  · refine ⟨Or.inr ⟨_, _, rfl, Segment.create_fresh resting.drawn _ _ _ _,
      Segment.create_stored env.uuid n.engine.shardId _ _ _ n.storage⟩, fun row => ?_, ?_, ?_⟩
    · rw [← kept]
      simp only [List.mem_singleton, exists_eq_left]
      rw [(Segment.create_fields _ _ _ _ _ _).1]
    · intro seg member
      rw [List.mem_singleton.mp member]
      rfl
    · intro seg member
      rw [List.mem_singleton.mp member]
      rfl

namespace MadeBy

/-- A row of the new segment is shown by it, whatever else was left. -/
theorem shownBy (madeBy : MadeBy n made) {left : List (Segment dim)}
    (old : ∀ seg ∈ left, seg ∈ n.engine.segments) {x : ℤ} {v : Vec dim}
    (shows : Shows n.engine.tombstones n.engine.segments (x, v)) :
    ShownBy (made ++ left) x v := by
  obtain ⟨seg, member, here⟩ := (madeBy.rows (x, v)).mpr shows
  refine ⟨seg, List.mem_append_left _ member, here, fun seg' member' _ => ?_⟩
  rw [madeBy.ages seg member]
  rcases List.mem_append.mp member' with new | kept
  · exact (madeBy.ages seg' new).le
  · exact le_maxSnapshot (old seg' kept)

/-- What is shown when nothing was removed. -/
theorem shownBy_all_iff (madeBy : MadeBy n made) (resting : Resting env n) {x : ℤ} {v : Vec dim} :
    ShownBy (made ++ n.engine.segments) x v ↔ ShownBy n.engine.segments x v := by
  constructor
  · rintro ⟨seg, member, here, newest⟩
    rcases List.mem_append.mp member with new | old
    · exact ((madeBy.rows (x, v)).mp ⟨seg, new, here⟩).2
    · exact ⟨seg, old, here, fun seg' member' => newest seg' (List.mem_append_right _ member')⟩
  · intro shown
    by_cases remade : ∃ seg ∈ made, x ∈ batchIds seg.rows
    · rcases remade with ⟨seg, new, listed⟩
      rcases List.mem_map.mp listed with ⟨row, here, rfl⟩
      have shows := (madeBy.rows row).mp ⟨seg, new, here⟩
      rw [shown.unique resting.agree shows.2]
      exact madeBy.shownBy (fun _ member => member) shows
    · rcases shown with ⟨seg, member, here, newest⟩
      refine ⟨seg, List.mem_append_right _ member, here, fun seg' member' listed => ?_⟩
      rcases List.mem_append.mp member' with new | old
      · exact absurd ⟨seg', new, listed⟩ remade
      · exact newest seg' old listed

/-- **Before the tombstones are rewritten**, a start shows the same if `tombstones.json`
agrees with the engine on the ids of the segments. -/
theorem shows_before_iff (resting : Resting env n) {front : List (Segment dim)}
    (shown : ∀ x v, ShownBy (front ++ n.engine.segments) x v ↔ ShownBy n.engine.segments x v)
    (T : Finset ℤ) :
    (∀ row, Shows n.engine.tombstones n.engine.segments row ↔
        Shows T (front ++ n.engine.segments) row) ↔
      ∀ x ∈ segmentIds n.engine.segments, x ∈ T ↔ x ∈ n.engine.tombstones := by
  simp only [Shows, Prod.forall, shown]
  constructor
  · intro same x listed
    obtain ⟨v, newest⟩ := Option.ne_none_iff_exists'.mp (mem_segmentIds.mp listed)
    have row := same x v
    simp only [resting.shownBy_iff.mp newest, and_true] at row
    exact (not_iff_not.mp row).symm
  · intro same x v
    apply and_congr_left
    intro shown
    rcases shown.listed with ⟨seg, member, listed⟩
    exact not_congr (same x (List.mem_flatMap.mpr ⟨seg, member, listed⟩)).symm

/-- **Once the tombstones are rewritten**, a start shows the same if the directories that
are left behind list no tombstoned id. -/
theorem shows_behind_iff (madeBy : MadeBy n made) (left : List (Segment dim))
    (old : ∀ seg ∈ left, seg ∈ n.engine.segments) :
    (∀ row, Shows n.engine.tombstones n.engine.segments row ↔
        Shows (n.engine.tombstones \ LSMEngine.cleanedTombstones (latestOf n.engine.segments)
          n.engine.tombstones) (made ++ left) row) ↔
      ∀ seg ∈ left, ∀ x ∈ batchIds seg.rows, x ∉ n.engine.tombstones := by
  have cleaned : ∀ seg ∈ n.engine.segments, ∀ x ∈ batchIds seg.rows,
      x ∉ n.engine.tombstones \ LSMEngine.cleanedTombstones (latestOf n.engine.segments)
        n.engine.tombstones := by
    intro seg member x listed left
    rcases Finset.mem_sdiff.mp left with ⟨tombstoned, unclean⟩
    apply unclean
    rw [mem_cleanedTombstones, ← mem_segmentIds]
    exact ⟨tombstoned, List.mem_flatMap.mpr ⟨seg, member, listed⟩⟩
  constructor
  · intro same seg member x listed tombstoned
    obtain ⟨v, shown⟩ := exists_shownBy (List.mem_append_right made member) listed
    have shows := (same (x, v)).mpr ⟨cleaned seg (old seg member) x listed, shown⟩
    exact shows.1 tombstoned
  · intro clean row
    constructor
    · intro shows
      exact ⟨fun left => shows.1 (Finset.mem_sdiff.mp left).1, madeBy.shownBy old shows⟩
    · rintro ⟨-, seg, member, here, newest⟩
      rcases List.mem_append.mp member with new | kept
      · exact (madeBy.rows row).mp ⟨seg, new, here⟩
      · have listed : row.1 ∈ batchIds seg.rows := List.mem_map_of_mem here
        have live := clean seg kept row.1 listed
        refine ⟨live, seg, old seg kept, here, fun seg' member' _ => ?_⟩
        obtain ⟨w, shown⟩ := exists_shownBy (old seg kept) listed
        obtain ⟨youngest, new, remade⟩ := (madeBy.rows (row.1, w)).mpr ⟨live, shown⟩
        calc seg'.snapshotId ≤ maxSnapshot n.engine.segments := le_maxSnapshot member'
          _ = youngest.snapshotId := (madeBy.ages youngest new).symm
          _ ≤ seg.snapshotId :=
              newest youngest (List.mem_append_left _ new) (List.mem_map.mpr ⟨_, remade, rfl⟩)

end MadeBy

end Made

/-! ## Every cut -/

section Cuts

variable {env : Env} {n : Node dim}

/-- What any cut leaves of the directories. -/
theorem Resting.behind (resting : Resting env n) {made front : List (Segment dim)}
    (madeBy : MadeBy n made) (either : front = [] ∨ front = made) {order : String → List SegmentFile}
    {ids : Finset ℤ} {effects done : List (MergeEffect dim)}
    (ofEffects : made.flatMap Segment.createEffects ++ .persist ids ::
      (n.engine.segments.map Segment.path).flatMap (rmtreeEffects order) = effects)
    (listed : ∀ effect ∈ done, effect ∈ effects)
    (dirs : CutDirs n.storage front done) : Behind n front done := by
  subst ofEffects
  have inMade : ∀ seg ∈ front, seg ∈ made := by
    rcases either with rfl | rfl
    · simp
    · exact fun _ member => member
  have removed : ∀ effect ∈ done, effect.Removes → ∃ seg ∈ n.engine.segments,
      effect = .removeDir seg.path ∨ ∃ file, effect = .removeFile seg.path file := by
    intro effect member removes
    rcases List.mem_append.mp (listed effect member) with created | later
    · rcases List.mem_flatMap.mp created with ⟨seg, -, here⟩
      exact absurd removes (not_removes_of_mem_createEffects here).1
    · rcases List.mem_cons.mp later with rfl | removal
      · exact removes.elim
      · obtain ⟨-, path, present, named⟩ := removes_of_mem_rmtreeEffects removal
        rcases List.mem_map.mp present with ⟨seg, inSegments, rfl⟩
        exact ⟨seg, inSegments, named⟩
  refine ⟨dirs, fun path apart => ⟨fun file member => ?_, fun member => ?_⟩,
    fun seg member => madeBy.shard seg (inMade seg member), fun seg member => ?_⟩
  · obtain ⟨seg, present, named⟩ := removed _ member trivial
    rcases named with impossible | ⟨file', same⟩
    · cases impossible
    · cases same
      exact apart seg present rfl
  · obtain ⟨seg, present, named⟩ := removed _ member trivial
    rcases named with same | ⟨file', impossible⟩
    · cases same
      exact apart seg present rfl
    · cases impossible
  · rw [madeBy.ages seg (inMade seg member)]
    exact maxSnapshot_le resting.bounded

/-- A cut before the tombstones are rewritten. -/
theorem Resting.recovers_before (resting : Resting env n) {front made : List (Segment dim)}
    {done : List (MergeEffect dim)} (madeBy : MadeBy n made) (either : front = [] ∨ front = made)
    (behind : Behind n front done) (untouched : ∀ effect ∈ done, ¬ effect.Removes)
    (tombstones : (n.storage.after done).tombstonesJson = n.storage.tombstonesJson)
    (mergeThreshold : ℕ) : n.Recovers env done mergeThreshold ↔
      ∀ x ∈ segmentIds n.engine.segments,
        x ∈ n.storage.tombstonesJson.load ↔ x ∈ n.engine.tombstones := by
  have unremoved : ∀ path file, MergeEffect.removeFile path file ∉ done := fun path file member =>
    untouched _ member trivial
  have found : foundBehind n front done = front ++ n.engine.segments := by
    rw [foundBehind, List.filter_eq_self.mpr fun seg _ => decide_eq_true
      ⟨unremoved seg.path .metaJson, fun member => untouched _ member trivial⟩]
  have shown : ∀ x v, ShownBy (front ++ n.engine.segments) x v ↔
      ShownBy n.engine.segments x v := by
    rcases either with rfl | rfl
    · exact fun x v => Iff.rfl
    · exact fun x v => madeBy.shownBy_all_iff resting
  rw [behind.recovers_iff resting, found, tombstones, MadeBy.shows_before_iff resting shown]
  exact and_iff_right fun seg _ _ => ⟨unremoved _ _, unremoved _ _⟩

/-- A cut behind the rewriting of the tombstones. -/
theorem Resting.recovers_behind (resting : Resting env n) {made : List (Segment dim)}
    {done : List (MergeEffect dim)} (madeBy : MadeBy n made) (behind : Behind n made done)
    (tombstones : (n.storage.after done).tombstonesJson = .holds (n.engine.tombstones \
      LSMEngine.cleanedTombstones (latestOf n.engine.segments) n.engine.tombstones))
    (mergeThreshold : ℕ) : n.Recovers env done mergeThreshold ↔
      ∀ seg ∈ n.engine.segments, LeftBehind done seg →
        .removeFile seg.path .indexFaiss ∉ done ∧ .removeFile seg.path .idsNpy ∉ done ∧
          ∀ x ∈ batchIds seg.rows, x ∉ n.engine.tombstones := by
  have exact_iff := madeBy.shows_behind_iff (n.engine.segments.filter fun seg => LeftBehind done seg)
    fun seg member => (List.mem_filter.mp member).1
  rw [behind.recovers_iff resting, tombstones, TombstonesJson.load, foundBehind, exact_iff]
  simp only [List.mem_filter, decide_eq_true_eq, and_imp]
  constructor
  · rintro ⟨complete, clean⟩ seg member left
    exact ⟨(complete seg member left).1, (complete seg member left).2, clean seg member left⟩
  · intro safe
    exact ⟨fun seg member left => ⟨(safe seg member left).1, (safe seg member left).2.1⟩,
      fun seg member left => (safe seg member left).2.2⟩

/-- **When a merge that is cut recovers.**  A start behind any of the effects of a merge
of all segments shows what the engine showed exactly when the cut is safe. -/
theorem merge_recovers_iff (resting : Resting env n)
    (exactly : n.engine.segments.length = n.engine.mergeThreshold)
    (order : String → List SegmentFile) :
    ∃ effects, LSMEngine.mergeEffects env n order = .ok effects ∧ ∀ count mergeThreshold,
      n.Recovers env (effects.take count) mergeThreshold ↔ n.CutSafe (effects.take count) := by
  have all : n.engine.toMerge = n.engine.segments := List.take_of_length_le exactly.le
  have gathered : LSMEngine.gatherLatest n.storage n.engine.toMerge =
      .ok (latestOf n.engine.segments) := by
    rw [all]
    exact gatherLatest_of_stored resting.stored
  refine ⟨_, by rw [LSMEngine.mergeEffects, gathered]; rfl, fun count mergeThreshold => ?_⟩
  have madeBy := resting.madeBy all
  rw [all]
  generalize LSMEngine.mergedSegment env n (latestOf n.engine.segments) = made at madeBy
  have fresh : ∀ seg ∈ made, ∀ old ∈ n.engine.segments, old.path ≠ seg.path := by
    intro seg new old member same
    have absent := madeBy.new.fresh seg new
    rw [← same, (resting.stored old member).files] at absent
    cases absent
  let removals : List (MergeEffect dim) :=
    (n.engine.segments.map Segment.path).flatMap (rmtreeEffects order)
  have elsewhere : ∀ effect ∈ removals, effect.Removes ∧ ∀ seg ∈ made,
      effect ≠ .removeDir seg.path ∧ ∀ file, effect ≠ .removeFile seg.path file := by
    intro effect member
    obtain ⟨removes, path, present, named⟩ := removes_of_mem_rmtreeEffects member
    rcases List.mem_map.mp present with ⟨old, inSegments, rfl⟩
    refine ⟨removes, fun seg new => ?_⟩
    have apart := fresh seg new old inSegments
    rcases named with rfl | ⟨file, rfl⟩
    · exact ⟨by simpa using apart, by simp⟩
    · exact ⟨by simp, by simp [apart]⟩
  generalize ofEffects : made.flatMap Segment.createEffects ++ _ :: _ = effects
  have listed : ∀ effect ∈ effects.take count, effect ∈ effects := fun effect member =>
    List.mem_of_mem_take member
  have cut : CutAt n.storage made (n.engine.tombstones \
      LSMEngine.cleanedTombstones (latestOf n.engine.segments) n.engine.tombstones)
      (effects.take count) := by
    rw [← ofEffects]
    exact cutAt_of_take madeBy.new (fun effect member => (elsewhere effect member).1)
      (fun seg new file member => ((elsewhere _ member).2 seg new).2 file rfl)
      (fun seg new member => ((elsewhere _ member).2 seg new).1 rfl) count
  cases cut with
  | before dirs either unwritten untouched tombstones =>
      have behind := resting.behind madeBy either ofEffects listed dirs
      rw [resting.recovers_before madeBy either behind untouched tombstones]
      exact ⟨fun same => ⟨fun _ => same, fun rewrote => absurd rewrote unwritten⟩,
        fun safe => safe.before unwritten⟩
  | behind dirs rewrote tombstones =>
      have behind := resting.behind madeBy (Or.inr rfl) ofEffects listed dirs
      rw [resting.recovers_behind madeBy behind tombstones]
      exact ⟨fun complete => ⟨fun unwritten => absurd rewrote unwritten, fun _ => complete⟩,
        fun safe => safe.behind rewrote⟩

end Cuts

/-! ## Two segments and a tombstone -/

/-- Id 1 is flushed and deleted, id 2 is flushed, and the next merge takes both segments. -/
def tombstonedAndLive : List (Op 1) :=
  [.insert [(1, zeroVec 1)], .flush, .delete [1], .insert [(2, zeroVec 1)], .flush, .restart 2]

def alphabetical : String → List SegmentFile :=
  fun _ => [.idsNpy, .indexFaiss, .metaJson, .vectorsNpy]

/-- Behind the new tombstones the deleted id is shown again, and a directory that has lost
its index stops the next start. -/
theorem cut_merge_shows_deleted_id :
    ∃ final effects, Node.history Env.counted ⟨0, 1, 10, 5⟩ tombstonedAndLive = .ok final ∧
      final.engine.wal.recover Env.counted.crc32 1 = [] ∧
      final.engine.memtable.entries.entries = [] ∧
      final.engine.segments.length = final.engine.mergeThreshold ∧
      LSMEngine.mergeEffects Env.counted final alphabetical = .ok effects ∧
      ¬ final.Recovers Env.counted (effects.take 6) 2 ∧
      ¬ final.Recovers Env.counted (effects.take 8) 2 := by
  have evaluated : (do
      let final ← Node.history Env.counted ⟨0, 1, 10, 5⟩ tombstonedAndLive
      let effects ← LSMEngine.mergeEffects Env.counted final alphabetical
      let before ← LSMEngine.exposed final
      let started ← LSMEngine.start Env.counted
        (({ final with storage := final.storage.after (effects.take 6) } : Node 1).reborn 2)
      let after ← LSMEngine.exposed started
      .ok (decide (final.engine.wal.recover Env.counted.crc32 1 = [] ∧
        final.engine.memtable.entries.entries = [] ∧
        final.engine.segments.length = final.engine.mergeThreshold ∧
        before = [(2, zeroVec 1)] ∧ (1, zeroVec 1) ∈ after ∧
        (LSMEngine.start Env.counted (({ final with
          storage := final.storage.after (effects.take 8) } : Node 1).reborn 2)).isOk = false))) =
      Except.ok true := by
    decide +kernel
  obtain ⟨final, ran, evaluated⟩ := ok_of_bind evaluated
  obtain ⟨effects, listed, evaluated⟩ := ok_of_bind evaluated
  obtain ⟨before, shown, evaluated⟩ := ok_of_bind evaluated
  obtain ⟨started, start, evaluated⟩ := ok_of_bind evaluated
  obtain ⟨after, shownAfter, evaluated⟩ := ok_of_bind evaluated
  rw [Except.ok.injEq, decide_eq_true_eq] at evaluated
  rcases evaluated with ⟨log, memtable, exactly, rfl, resurrected, stopped⟩
  refine ⟨final, effects, ran, log, memtable, exactly, listed, ?_, ?_⟩
  · rintro ⟨before', started', after', shown', start', shownAfter', same⟩
    rw [shown, Except.ok.injEq] at shown'
    rw [start, Except.ok.injEq] at start'
    subst shown' start'
    rw [shownAfter, Except.ok.injEq] at shownAfter'
    subst shownAfter'
    have deleted := (same (1, zeroVec 1)).mpr resurrected
    revert deleted
    decide
  · rintro ⟨-, started', -, -, start', -⟩
    rw [start'] at stopped
    cases stopped

theorem merge_recovers_iff_tombstonedAndLive :
    ∃ final effects, Node.history Env.counted ⟨0, 1, 10, 5⟩ tombstonedAndLive = .ok final ∧
      LSMEngine.mergeEffects Env.counted final alphabetical = .ok effects ∧
      ∀ mergeThreshold, final.Recovers Env.counted (effects.take 4) mergeThreshold := by
  have evaluated : (do
      let final ← Node.history Env.counted ⟨0, 1, 10, 5⟩ tombstonedAndLive
      let effects ← LSMEngine.mergeEffects Env.counted final alphabetical
      .ok (decide (final.engine.wal.recover Env.counted.crc32 1 = [] ∧
        final.engine.segments.length = final.engine.mergeThreshold ∧
        final.CutSafe (effects.take 4)))) = Except.ok true := by
    decide +kernel
  obtain ⟨final, ran, evaluated⟩ := ok_of_bind evaluated
  obtain ⟨effects, listed, evaluated⟩ := ok_of_bind evaluated
  rw [Except.ok.injEq, decide_eq_true_eq] at evaluated
  rcases evaluated with ⟨log, exactly, safe⟩
  have resting := resting_of_history (by decide) ran log
  obtain ⟨effects', listed', recovers⟩ := merge_recovers_iff resting exactly alphabetical
  rw [listed, Except.ok.injEq] at listed'
  subst listed'
  exact ⟨final, effects, ran, listed, fun mergeThreshold => (recovers 4 mergeThreshold).mpr safe⟩

end VecScale
