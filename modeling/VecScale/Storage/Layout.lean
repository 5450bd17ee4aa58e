import VecScale.Lib.Runs
import VecScale.Storage.Replay

/-!
# The layout of a running engine

`Layout env n old recent` ties the parts of a node together: the log is
`old ++ recent`, the memtable is what `recent` replays to, `old` leaves nothing
but delete markers, every segment is older than every log record, and the
segment directories are those of the segments.

Each piece of a call has a lemma that it keeps the layout; `merge_layout` and
`flush_layout` put them together, and `run_layout` covers every call.
-/

namespace VecScale

variable {dim : ℕ}

/-- The segments of a shard are what its directories hold. -/
structure Stocked (env : Env) (shardId : ℕ) (segments : List (Segment dim))
    (st : SharedStorage dim) : Prop where
  nodup : ∀ seg ∈ segments, (batchIds seg.rows).Nodup
  stored : ∀ seg ∈ segments, seg.Stored st
  shard : ∀ seg ∈ segments, seg.shardId = shardId
  dirs : ∀ path ∈ st.segmentDirs.keys, ∃ seg : Segment dim, seg.Stored st ∧ seg.path = path ∧
    (seg.shardId = shardId → seg ∈ segments)
  drawn : st.Drawn env.uuid

/-- The segments, moreover, are in order of age. -/
structure SegmentsWf (env : Env) (engine : LSMEngine dim) (st : SharedStorage dim) : Prop
    extends Stocked env engine.shardId engine.segments st where
  sorted : engine.segments.Pairwise fun a b => a.snapshotId < b.snapshotId
  bounded : ∀ seg ∈ engine.segments, seg.snapshotId ≤ engine.wal.lastLsn

structure Layout (env : Env) (n : Node dim) (old recent : List (WALRecord dim)) : Prop where
  started : n.engine.started = true
  opened : n.engine.wal.isOpen = true
  wal : n.engine.wal.Holds env.crc32 (old ++ recent)
  ordered : (old ++ recent).Pairwise fun a b => a.lsn < b.lsn
  positive : ∀ record ∈ old ++ recent, 0 < record.lsn
  known : ∀ record ∈ old ++ recent, record.opType = OP_INSERT ∨ record.opType = OP_DELETE
  above : ∀ record ∈ old ++ recent, ∀ seg ∈ n.engine.segments, seg.snapshotId < record.lsn
  memtable : ∀ x, n.engine.memtable.entries.get? x = replayEntry recent x
  markers : ∀ x e, replayEntry old x = some e → e.vector = none
  buried : ∀ x ∈ n.engine.tombstones, ∀ e, n.engine.memtable.entries.get? x = some e →
    e.vector = none
  segments : SegmentsWf env n.engine n.storage

/-! ## Stored segments -/

theorem Segment.Stored.congr {st st' : SharedStorage dim} {seg : Segment dim}
    (stored : seg.Stored st)
    (same : st'.segmentDirs.get? seg.path = st.segmentDirs.get? seg.path) : seg.Stored st' :=
  ⟨same.trans stored.files, stored.path, stored.metaPath, stored.uncached⟩

theorem Segment.stored_congr {st st' : SharedStorage dim} (dirs : st'.segmentDirs = st.segmentDirs)
    {seg : Segment dim} : seg.Stored st' ↔ seg.Stored st :=
  ⟨fun stored => stored.congr (by rw [dirs]), fun stored => stored.congr (by rw [dirs])⟩

@[simp] theorem Segment.stored_persist {st : SharedStorage dim} {ids : Finset ℤ} {seg : Segment dim} :
    seg.Stored (st.persist ids) ↔ seg.Stored st := by
  have dirs : (st.persist ids).segmentDirs = st.segmentDirs := rfl
  exact Segment.stored_congr dirs

/-- A directory holds one segment. -/
theorem Segment.Stored.unique {st : SharedStorage dim} {seg seg' : Segment dim}
    (stored : seg.Stored st) (stored' : seg'.Stored st) (same : seg.path = seg'.path) :
    seg = seg' := by
  have files := stored.files
  rw [same, stored'.files, Option.some.injEq] at files
  simp only [Segment.files, SegmentFiles.mk.injEq, Option.some.injEq] at files
  rcases seg with ⟨segMeta, path, index, idsCache⟩
  rcases seg' with ⟨segMeta', path', index', idsCache'⟩
  have uncached := stored.uncached
  have uncached' := stored'.uncached
  simp only at *
  rw [same, files.1, files.2.2.2, uncached, uncached']

/-- Stored segments of one name are one segment. -/
theorem Segment.Stored.unique_name {st : SharedStorage dim} {seg seg' : Segment dim}
    (stored : seg.Stored st) (stored' : seg'.Stored st) (same : seg.segmentId = seg'.segmentId) :
    seg = seg' := by
  apply stored.unique stored'
  rw [stored.path, stored'.path, same]

/-- A directory that outlives some calls holds the segment that it held. -/
theorem Segment.Stored.same_of_grows {uuid : Uuid4} {st st' : SharedStorage dim}
    (grows : SharedStorage.Grows uuid st st') (drawn : st.Drawn uuid) {seg seg' : Segment dim}
    (before : seg.Stored st) (after : seg'.Stored st') (same : seg.path = seg'.path) :
    seg = seg' := by
  rcases grows.dirs _ _ after.files with kept | ⟨shard, snapshot, draw, new, -, named⟩
  · exact before.unique ⟨kept, after.path, after.metaPath, after.uncached⟩ same
  · obtain ⟨shard', snapshot', draw', old, named'⟩ :=
      drawn seg.path (Dict.mem_keys_iff.mpr ⟨_, before.files⟩)
    have draws := segmentName_hex uuid (segmentPath_injective (named'.symm.trans (same.trans named)))
    omega

/-- Segments in order of age differ in age. -/
theorem eq_of_snapshotId {segments : List (Segment dim)}
    (sorted : segments.Pairwise fun a b => a.snapshotId < b.snapshotId) {a b : Segment dim}
    (left : a ∈ segments) (right : b ∈ segments) (same : a.snapshotId = b.snapshotId) : a = b := by
  have ages : (segments.map Segment.snapshotId).Nodup :=
    (List.pairwise_map.mpr sorted).imp fun younger => Nat.ne_of_lt younger
  exact List.inj_on_of_nodup_map ages left right same

/-- Sorting puts segments of distinct ages into their one order. -/
theorem sortSegments_eq {segments target : List (Segment dim)} (perm : segments.Perm target)
    (sorted : target.Pairwise fun a b => a.snapshotId < b.snapshotId) :
    sortSegments segments = target := by
  have total : Std.Total fun a b : Segment dim => a.sortKey ≤ b.sortKey :=
    ⟨fun a b => le_total a.sortKey b.sortKey⟩
  have trans : IsTrans (Segment dim) fun a b => a.sortKey ≤ b.sortKey := ⟨fun _ _ _ => le_trans⟩
  have ascending : target.Pairwise fun a b => a.sortKey ≤ b.sortKey :=
    sorted.imp fun {a b} older => (Prod.Lex.toLex_lt_toLex.mpr (Or.inl older)).le
  have whole := (List.perm_insertionSort (fun a b => a.sortKey ≤ b.sortKey) segments).trans perm
  refine List.Perm.eq_of_pairwise ?_ (List.pairwise_insertionSort _ segments) ascending whole
  intro a b left right below above
  have sameKey := le_antisymm below above
  exact eq_of_snapshotId sorted (whole.mem_iff.mp left) right
    (congrArg (fun key => (ofLex key).1) sameKey)

/-! ## Loading the segments back -/

/-- Starting on the directories finds the segments again. -/
theorem loadExistingSegments_of_wf {env : Env} {engine : LSMEngine dim} {st : SharedStorage dim}
    (wf : SegmentsWf env engine st) :
    LSMEngine.loadExistingSegments engine.shardId st = .ok engine.segments := by
  let entries := st.segmentDirs.keys.insertionSort (· ≤ ·)
  have sameKeys : entries.Perm st.segmentDirs.keys := List.perm_insertionSort _ _
  have loads : ∀ path ∈ entries, ∃ seg, Segment.load st path = .ok seg ∧ seg.path = path ∧
      (seg.Stored st ∧ (seg.shardId = engine.shardId → seg ∈ engine.segments)) := by
    intro path member
    obtain ⟨seg, stored, rfl, own⟩ := wf.dirs path (sameKeys.mem_iff.mp member)
    exact ⟨seg, Segment.load_of_stored stored, rfl, stored, own⟩
  have described : entries.filter (fun path => (st.files path).metaJson.isSome) = entries := by
    refine List.filter_eq_self.mpr fun path member => ?_
    obtain ⟨seg, -, rfl, stored, -⟩ := loads path member
    rw [Segment.files_of_stored stored]
    rfl
  obtain ⟨loaded, ran, paths, found⟩ := mapM_ok loads
  have perm : (loaded.filter fun seg => seg.shardId = engine.shardId).Perm engine.segments := by
    have pathsNodup : (loaded.map Segment.path).Nodup :=
      paths ▸ sameKeys.nodup_iff.mpr st.segmentDirs.keys_nodup
    have agesNodup : (engine.segments.map Segment.snapshotId).Nodup :=
      (List.pairwise_map.mpr wf.sorted).imp fun younger => Nat.ne_of_lt younger
    refine (List.perm_ext_iff_of_nodup ((List.Nodup.of_map _ pathsNodup).filter _)
      (List.Nodup.of_map _ agesNodup)).mpr fun seg => ?_
    rw [List.mem_filter, decide_eq_true_eq]
    constructor
    · rintro ⟨member, own⟩
      exact (found seg member).2 own
    · intro member
      have stored := wf.stored seg member
      have present : seg.path ∈ loaded.map Segment.path := by
        rw [paths]
        exact sameKeys.mem_iff.mpr (Dict.mem_keys_iff.mpr ⟨_, stored.files⟩)
      rcases List.mem_map.mp present with ⟨seg', member', samePath⟩
      have same := (found seg' member').1.unique stored samePath
      exact ⟨same ▸ member', wf.shard seg member⟩
  have run : LSMEngine.loadExistingSegments engine.shardId st =
      (entries.mapM (Segment.load st)).bind fun segments =>
        .ok (sortSegments (segments.filter fun seg => seg.shardId = engine.shardId)) := by
    rw [← described]
    rfl
  rw [run, ran]
  exact congrArg Except.ok (sortSegments_eq perm wf.sorted)

/-! ## The pieces of a call -/

namespace Stocked

variable {env : Env} {shardId : ℕ} {segments : List (Segment dim)} {st : SharedStorage dim}

theorem frame (stocked : Stocked env shardId segments st) {st' : SharedStorage dim}
    (dirs : st'.segmentDirs = st.segmentDirs) (uuids : st'.uuids = st.uuids) :
    Stocked env shardId segments st' := by
  have stored : ∀ {seg : Segment dim}, seg.Stored st → seg.Stored st' :=
    (Segment.stored_congr dirs).mpr
  refine ⟨stocked.nodup, fun seg member => stored (stocked.stored seg member), stocked.shard, ?_, ?_⟩
  · rw [dirs]
    intro path member
    obtain ⟨seg, holds, named, own⟩ := stocked.dirs path member
    exact ⟨seg, stored holds, named, own⟩
  · intro path member
    rw [dirs] at member
    rw [uuids]
    exact stocked.drawn path member

theorem empty (env : Env) (shardId : ℕ) :
    Stocked env shardId ([] : List (Segment dim)) SharedStorage.empty :=
  ⟨by simp, by simp, by simp, fun _ member => (List.not_mem_nil member).elim,
    fun _ member => (List.not_mem_nil member).elim⟩

theorem persist (stocked : Stocked env shardId segments st) (ids : Finset ℤ) :
    Stocked env shardId segments (st.persist ids) := stocked.frame rfl rfl

/-- A new segment joins the others. -/
theorem create (stocked : Stocked env shardId segments st) (snapshotId : ℕ) {rows : List (Row dim)}
    (nodup : (batchIds rows).Nodup) (nlist : ℕ) :
    Stocked env shardId ((Segment.create env.uuid shardId snapshotId rows nlist st).1 :: segments)
      (Segment.create env.uuid shardId snapshotId rows nlist st).2 := by
  let created := Segment.create env.uuid shardId snapshotId rows nlist st
  have fresh : st.segmentDirs.get? created.1.path = none :=
    Segment.create_fresh stocked.drawn shardId snapshotId rows nlist
  have others : ∀ path, path ≠ created.1.path →
      created.2.segmentDirs.get? path = st.segmentDirs.get? path := by
    intro path other
    simp only [created, Segment.create, Dict.get?_set]
    exact if_neg (Ne.symm other)
  have kept : ∀ {seg : Segment dim}, seg.Stored st → seg.Stored created.2 := by
    intro seg stored
    refine stored.congr (others seg.path fun same => ?_)
    rw [← same, stored.files] at fresh
    cases fresh
  have new : created.1.Stored created.2 :=
    Segment.create_stored env.uuid shardId snapshotId rows nlist st
  refine ⟨?_, ?_, ?_, ?_, Segment.create_drawn stocked.drawn shardId snapshotId rows nlist⟩
  · intro seg member
    rcases List.mem_cons.mp member with rfl | member
    · rw [(Segment.create_fields env.uuid shardId snapshotId rows nlist st).1]
      exact nodup
    · exact stocked.nodup seg member
  · intro seg member
    rcases List.mem_cons.mp member with rfl | member
    · exact new
    · exact kept (stocked.stored seg member)
  · intro seg member
    rcases List.mem_cons.mp member with rfl | member
    · rfl
    · exact stocked.shard seg member
  · intro path member
    by_cases same : path = created.1.path
    · exact ⟨created.1, new, same.symm, fun _ => List.mem_cons_self⟩
    · rcases Dict.mem_keys_iff.mp member with ⟨files, here⟩
      have before : path ∈ st.segmentDirs.keys :=
        Dict.mem_keys_iff.mpr ⟨files, (others path same).symm.trans here⟩
      obtain ⟨seg, stored, named, own⟩ := stocked.dirs path before
      exact ⟨seg, kept stored, named, fun shard => List.mem_cons_of_mem _ (own shard)⟩

/-- A new segment leaves the segments of other shards where they were. -/
theorem create_others (stocked : Stocked env shardId segments st) (snapshotId : ℕ)
    (rows : List (Row dim)) (nlist : ℕ) {seg : Segment dim} (other : seg.shardId ≠ shardId) :
    seg.Stored (Segment.create env.uuid shardId snapshotId rows nlist st).2 ↔ seg.Stored st := by
  let created := Segment.create env.uuid shardId snapshotId rows nlist st
  have fresh : st.segmentDirs.get? created.1.path = none :=
    Segment.create_fresh stocked.drawn shardId snapshotId rows nlist
  have apart : ∀ path, path ≠ created.1.path →
      created.2.segmentDirs.get? path = st.segmentDirs.get? path := by
    intro path away
    simp only [created, Segment.create, Dict.get?_set]
    exact if_neg (Ne.symm away)
  constructor
  · intro stored
    refine stored.congr (apart seg.path fun same => other ?_).symm
    have new : created.1.Stored created.2 :=
      Segment.create_stored env.uuid shardId snapshotId rows nlist st
    rw [stored.unique new same]
    rfl
  · intro stored
    refine stored.congr (apart seg.path fun same => ?_)
    rw [← same, stored.files] at fresh
    cases fresh

/-- Removing segments leaves those of other shards where they were. -/
theorem rmtreeAll_others (stocked : Stocked env shardId segments st) {gone : List (Segment dim)}
    (goneStored : ∀ seg ∈ gone, seg ∈ segments) {seg : Segment dim} (other : seg.shardId ≠ shardId) :
    seg.Stored (st.rmtreeAll (gone.map Segment.path)) ↔ seg.Stored st := by
  constructor
  · intro stored
    have files := stored.files
    rw [SharedStorage.get?_rmtreeAll] at files
    split at files
    · cases files
    · exact ⟨files, stored.path, stored.metaPath, stored.uncached⟩
  · intro stored
    refine stored.congr ?_
    rw [SharedStorage.get?_rmtreeAll, if_neg]
    intro removed
    rcases List.mem_map.mp removed with ⟨seg', member, same⟩
    apply other
    rw [← (stocked.stored seg' (goneStored seg' member)).unique stored same]
    exact stocked.shard seg' (goneStored seg' member)

/-- The segments of one shard stay stocked while another shard works. -/
theorem of_others (stocked : Stocked env shardId segments st) {other : ℕ}
    {theirs : List (Segment dim)} {st' : SharedStorage dim} (apart : shardId ≠ other)
    (after : Stocked env other theirs st')
    (others : ∀ seg : Segment dim, seg.shardId ≠ other → (seg.Stored st' ↔ seg.Stored st)) :
    Stocked env shardId segments st' := by
  refine ⟨stocked.nodup, ?_, stocked.shard, ?_, after.drawn⟩
  · intro seg member
    refine (others seg ?_).mpr (stocked.stored seg member)
    rw [stocked.shard seg member]
    exact apart
  · intro path member
    obtain ⟨seg, stored, named, -⟩ := after.dirs path member
    refine ⟨seg, stored, named, fun own => ?_⟩
    have before := (others seg (own ▸ apart)).mp stored
    obtain ⟨seg', stored', named', own'⟩ := stocked.dirs path
      (Dict.mem_keys_iff.mpr ⟨_, named ▸ before.files⟩)
    cases stored'.unique before (named'.trans named.symm)
    exact own' own

/-- Removing the directories of some segments leaves the others. -/
theorem rmtreeAll (stocked : Stocked env shardId segments st) {gone left : List (Segment dim)}
    (goneStored : ∀ seg ∈ gone, seg ∈ segments)
    (split : ∀ seg, seg ∈ left ↔ seg ∈ segments ∧ seg ∉ gone) :
    Stocked env shardId left (st.rmtreeAll (gone.map Segment.path)) := by
  have kept : ∀ {seg : Segment dim}, seg.Stored st → seg ∉ gone →
      seg.Stored (st.rmtreeAll (gone.map Segment.path)) := by
    intro seg stored stays
    refine stored.congr ?_
    rw [SharedStorage.get?_rmtreeAll, if_neg]
    intro removed
    rcases List.mem_map.mp removed with ⟨seg', member, same⟩
    have one := (stocked.stored seg' (goneStored seg' member)).unique stored same
    exact stays (one ▸ member)
  have inside : ∀ seg ∈ left, seg ∈ segments := fun seg member => ((split seg).mp member).1
  refine ⟨fun seg member => stocked.nodup seg (inside seg member), ?_,
    fun seg member => stocked.shard seg (inside seg member), ?_,
    SharedStorage.rmtreeAll_drawn stocked.drawn _⟩
  · intro seg member
    obtain ⟨stays, notGone⟩ := (split seg).mp member
    exact kept (stocked.stored seg stays) notGone
  · intro path member
    rcases Dict.mem_keys_iff.mp member with ⟨files, here⟩
    rw [SharedStorage.get?_rmtreeAll] at here
    split at here
    · cases here
    · next stays =>
        obtain ⟨seg, stored, rfl, own⟩ := stocked.dirs path (Dict.mem_keys_iff.mpr ⟨files, here⟩)
        have notGone : seg ∉ gone := fun gone => stays (List.mem_map_of_mem gone)
        exact ⟨seg, kept stored notGone, rfl, fun shard => (split seg).mpr ⟨own shard, notGone⟩⟩

theorem of_mem_iff (stocked : Stocked env shardId segments st) {segments' : List (Segment dim)}
    (same : ∀ seg, seg ∈ segments' ↔ seg ∈ segments) : Stocked env shardId segments' st := by
  refine ⟨fun seg member => stocked.nodup seg ((same seg).mp member),
    fun seg member => stocked.stored seg ((same seg).mp member),
    fun seg member => stocked.shard seg ((same seg).mp member), ?_, stocked.drawn⟩
  intro path member
  obtain ⟨seg, stored, named, own⟩ := stocked.dirs path member
  exact ⟨seg, stored, named, fun shard => (same seg).mpr (own shard)⟩

end Stocked

theorem SegmentsWf.frame {env : Env} {engine engine' : LSMEngine dim} {st st' : SharedStorage dim}
    (wf : SegmentsWf env engine st) (segments : engine'.segments = engine.segments)
    (shardId : engine'.shardId = engine.shardId)
    (lastLsn : engine.wal.lastLsn ≤ engine'.wal.lastLsn)
    (dirs : st'.segmentDirs = st.segmentDirs) (uuids : st'.uuids = st.uuids) :
    SegmentsWf env engine' st' := by
  refine ⟨?_, ?_, ?_⟩
  · rw [segments, shardId]
    exact wf.toStocked.frame dirs uuids
  · rw [segments]
    exact wf.sorted
  · rw [segments]
    exact fun seg member => (wf.bounded seg member).trans lastLsn

namespace LSMEngine

theorem applyInsert_engine (n : Node dim) (wal : WAL) (lsn : ℕ) (rows : List (Row dim)) :
    (applyInsert n wal lsn rows).engine = { n.engine with
      wal, memtable := n.engine.memtable.insert rows lsn,
      tombstones := n.engine.tombstones \ (batchIds rows).toFinset } := by
  dsimp only [applyInsert]
  split
  · next untouched =>
      have same : n.engine.tombstones \ (batchIds rows).toFinset = n.engine.tombstones :=
        Finset.sdiff_eq_self_iff_disjoint.mpr (Finset.disjoint_iff_inter_eq_empty.mpr untouched)
      rw [same]
  · rw [persistTombstones, Finset.sdiff_inter_self_left]

theorem applyInsert_dirs (n : Node dim) (wal : WAL) (lsn : ℕ) (rows : List (Row dim)) :
    (applyInsert n wal lsn rows).storage.segmentDirs = n.storage.segmentDirs ∧
      (applyInsert n wal lsn rows).storage.uuids = n.storage.uuids := by
  dsimp only [applyInsert]
  split <;> exact ⟨rfl, rfl⟩

theorem captureDeletes_engine (n : Node dim) :
    (captureDeletes n).engine = { n.engine with
      tombstones := n.engine.tombstones ∪ n.engine.memtable.visibleDeletedIds none } := by
  dsimp only [captureDeletes]
  split
  · next nothing => rw [nothing, Finset.union_empty]
  · rfl

theorem captureDeletes_dirs (n : Node dim) :
    (captureDeletes n).storage.segmentDirs = n.storage.segmentDirs ∧
      (captureDeletes n).storage.uuids = n.storage.uuids := by
  dsimp only [captureDeletes]
  split <;> exact ⟨rfl, rfl⟩

section Sealed

variable (env : Env) (n : Node dim)

@[simp] theorem sealMemtable_shardId :
    (sealMemtable env n).2.engine.shardId = n.engine.shardId := rfl

@[simp] theorem sealMemtable_mergeThreshold :
    (sealMemtable env n).2.engine.mergeThreshold = n.engine.mergeThreshold := rfl

@[simp] theorem sealMemtable_tombstones :
    (sealMemtable env n).2.engine.tombstones = n.engine.tombstones := rfl

@[simp] theorem sealMemtable_tombstonesJson :
    (sealMemtable env n).2.storage.tombstonesJson = n.storage.tombstonesJson := rfl

theorem sealMemtable_rows : (sealMemtable env n).1.rows = n.engine.memtable.toArrays none :=
  (Segment.create_fields _ _ _ _ _ _).1

end Sealed

end LSMEngine

section Pieces

variable {env : Env} {n : Node dim} {old recent : List (WALRecord dim)}

/-- A write appends a record, and the memtable takes the record's entries. -/
theorem Layout.write (layout : Layout env n old recent) {record : WALRecord dim} {wal : WAL}
    (holds : wal.Holds env.crc32 (old ++ recent ++ [record])) (opened : wal.isOpen = true)
    (lsn : record.lsn = n.engine.wal.lastLsn + 1) (lastLsn : wal.lastLsn = record.lsn)
    (known : record.opType = OP_INSERT ∨ record.opType = OP_DELETE) {n' : Node dim}
    {memtable : MemTable dim} {tombstones : Finset ℤ}
    (engine : n'.engine = { n.engine with wal, memtable, tombstones })
    (dirs : n'.storage.segmentDirs = n.storage.segmentDirs)
    (uuids : n'.storage.uuids = n.storage.uuids)
    (entries : ∀ x, memtable.entries.get? x =
      (recordEntry record x).or (n.engine.memtable.entries.get? x))
    (buried : ∀ x ∈ tombstones, ∀ e, memtable.entries.get? x = some e → e.vector = none) :
    Layout env n' old (recent ++ [record]) := by
  have newer : ∀ earlier ∈ old ++ recent, earlier.lsn < record.lsn := fun earlier member => by
    rw [lsn]
    exact Nat.lt_succ_of_le (layout.wal.bounded earlier member)
  have split : ∀ {P : WALRecord dim → Prop}, (∀ r ∈ old ++ recent, P r) → P record →
      ∀ r ∈ old ++ (recent ++ [record]), P r := by
    intro P earlier here r member
    rw [← List.append_assoc, List.mem_append, List.mem_singleton] at member
    rcases member with member | rfl
    · exact earlier r member
    · exact here
  refine ⟨?_, ?_, ?_, ?_, ?_, ?_, ?_, ?_, layout.markers, ?_, ?_⟩
  · rw [engine]
    exact layout.started
  · rw [engine]
    exact opened
  · rw [engine, ← List.append_assoc]
    exact holds
  · rw [← List.append_assoc, List.pairwise_append]
    exact ⟨layout.ordered, List.pairwise_singleton _ _, fun earlier member later single => by
      rw [List.mem_singleton.mp single]
      exact newer earlier member⟩
  · exact split layout.positive (by rw [lsn]; exact Nat.succ_pos _)
  · exact split layout.known known
  · rw [engine]
    refine split layout.above fun seg member => ?_
    rw [lsn]
    exact Nat.lt_succ_of_le (layout.segments.bounded seg member)
  · intro x
    rw [engine, replayEntry_concat, ← layout.memtable]
    exact entries x
  · rw [engine]
    exact buried
  · refine layout.segments.frame ?_ ?_ ?_ dirs uuids
    · rw [engine]
    · rw [engine]
    · rw [engine, lastLsn, lsn]
      exact Nat.le_succ _

theorem Layout.applyInsert (layout : Layout env n old recent) {rows : List (Row dim)} {wal : WAL}
    (holds : wal.Holds env.crc32
      (old ++ recent ++ [⟨n.engine.wal.lastLsn + 1, OP_INSERT, rows⟩]))
    (opened : wal.isOpen = true) (lastLsn : wal.lastLsn = n.engine.wal.lastLsn + 1) :
    Layout env (LSMEngine.applyInsert n wal (n.engine.wal.lastLsn + 1) rows) old
      (recent ++ [⟨n.engine.wal.lastLsn + 1, OP_INSERT, rows⟩]) := by
  obtain ⟨dirs, uuids⟩ := LSMEngine.applyInsert_dirs n wal (n.engine.wal.lastLsn + 1) rows
  refine layout.write holds opened rfl lastLsn (Or.inl rfl)
    (LSMEngine.applyInsert_engine n wal _ rows) dirs uuids ?_ ?_
  · intro x
    rw [MemTable.get?_insert, recordEntry_insert]
  · intro x tombstoned e entry
    rw [Finset.mem_sdiff, List.mem_toFinset] at tombstoned
    have unwritten : Dict.lastWrite rows x = none := Dict.lastWrite_eq_none_iff.mpr tombstoned.2
    rw [MemTable.get?_insert, unwritten] at entry
    exact layout.buried x tombstoned.1 e entry

theorem Layout.applyDelete (layout : Layout env n old recent) {ids : List ℤ} {wal : WAL}
    (holds : wal.Holds env.crc32 (old ++ recent ++
      [⟨n.engine.wal.lastLsn + 1, OP_DELETE, LSMEngine.deleteRows dim ids⟩]))
    (opened : wal.isOpen = true) (lastLsn : wal.lastLsn = n.engine.wal.lastLsn + 1) :
    Layout env (LSMEngine.applyDelete n wal (n.engine.wal.lastLsn + 1) ids) old
      (recent ++ [⟨n.engine.wal.lastLsn + 1, OP_DELETE, LSMEngine.deleteRows dim ids⟩]) := by
  refine layout.write holds opened rfl lastLsn (Or.inr rfl) rfl rfl rfl ?_ ?_
  · intro x
    rw [MemTable.get?_delete, recordEntry_delete]
    split <;> rfl
  · intro x tombstoned e entry
    rw [MemTable.get?_delete] at entry
    split at entry
    · cases entry
      rfl
    · next other =>
        rw [Finset.mem_union, List.mem_toFinset] at tombstoned
        exact layout.buried x (tombstoned.resolve_right other) e entry

theorem Layout.captureDeletes (layout : Layout env n old recent) :
    Layout env (LSMEngine.captureDeletes n) old recent := by
  have engine := LSMEngine.captureDeletes_engine n
  obtain ⟨dirs, uuids⟩ := LSMEngine.captureDeletes_dirs n
  refine ⟨?_, ?_, ?_, layout.ordered, layout.positive, layout.known, ?_, ?_, layout.markers, ?_, ?_⟩
  · rw [engine]
    exact layout.started
  · rw [engine]
    exact layout.opened
  · rw [engine]
    exact layout.wal
  · rw [engine]
    exact layout.above
  · rw [engine]
    exact layout.memtable
  · rw [engine]
    intro x tombstoned e entry
    rcases Finset.mem_union.mp tombstoned with before | marked
    · exact layout.buried x before e entry
    · rcases MemTable.mem_visibleDeletedIds.mp marked with ⟨e', entry', -, marker⟩
      rw [entry, Option.some.injEq] at entry'
      exact entry' ▸ marker
  · refine layout.segments.frame ?_ ?_ ?_ dirs uuids <;> rw [engine]

/-- Dropping a memtable of delete markers leaves their records behind in the log. -/
theorem Layout.clearMemtable (layout : Layout env n old recent)
    (dead : ∀ x e, n.engine.memtable.entries.get? x = some e → e.vector = none) :
    Layout env (LSMEngine.clearMemtable n) (old ++ recent) [] := by
  refine ⟨layout.started, layout.opened, ?_, ?_, ?_, ?_, ?_, fun x => rfl, ?_, ?_, ?_⟩
  · rw [List.append_nil]
    exact layout.wal
  · rw [List.append_nil]
    exact layout.ordered
  · rw [List.append_nil]
    exact layout.positive
  · rw [List.append_nil]
    exact layout.known
  · rw [List.append_nil]
    exact layout.above
  · intro x e entry
    rw [replayEntry_append] at entry
    rcases Option.or_eq_some_iff.mp entry with late | ⟨-, early⟩
    · exact dead x e ((layout.memtable x).trans late)
    · exact layout.markers x e early
  · intro x _ e entry
    cases entry
  · exact layout.segments.frame rfl rfl le_rfl rfl rfl

/-- The newest memtable entry was written by a record of `recent`. -/
theorem Layout.maxLsn (layout : Layout env n old recent) {x : ℤ} {e : MemTableEntry dim}
    (entry : n.engine.memtable.entries.get? x = some e) :
    ∃ record ∈ recent, record.lsn = n.engine.memtable.maxLsn := by
  have written : ∀ {y : ℤ} {e' : MemTableEntry dim},
      n.engine.memtable.entries.get? y = some e' → ∃ record ∈ recent, record.lsn = e'.lsn := by
    intro y e' entry'
    rw [layout.memtable] at entry'
    obtain ⟨record, member, here⟩ := exists_of_replayEntry entry'
    exact ⟨record, member, (lsn_of_recordEntry here).symm⟩
  obtain ⟨record, member, lsn⟩ := written entry
  have positive : 0 < n.engine.memtable.maxLsn := by
    refine lt_of_lt_of_le ?_ (MemTable.lsn_le_maxLsn entry)
    rw [← lsn]
    exact layout.positive record (List.mem_append_right _ member)
  obtain ⟨y, newest, entry', lsn'⟩ := MemTable.exists_of_maxLsn positive
  obtain ⟨record', member', same⟩ := written entry'
  exact ⟨record', member', same.trans lsn'⟩

/-- What the log keeps when the memtable becomes a segment names no id. -/
theorem Layout.tail_empty (layout : Layout env n old recent) {x : ℤ} {e : MemTableEntry dim}
    (entry : n.engine.memtable.entries.get? x = some e) {record : WALRecord dim}
    (member : record ∈ old ++ recent) (later : n.engine.memtable.maxLsn + 1 ≤ record.lsn) (y : ℤ) :
    recordEntry record y = none := by
  obtain ⟨newest, inRecent, lsn⟩ := layout.maxLsn entry
  obtain ⟨-, recentOrdered, older⟩ := List.pairwise_append.mp layout.ordered
  rcases List.mem_append.mp member with inOld | inNew
  · have := older record inOld newest inRecent
    omega
  · cases here : recordEntry record y with
    | none => rfl
    | some e' =>
        obtain ⟨e'', found, above⟩ := le_lsn_of_recordEntry recentOrdered inNew here
        have bound := MemTable.lsn_le_maxLsn ((layout.memtable y).trans found)
        omega

/-- A memtable with entries becomes the newest segment; the records that stay in
the log name no id. -/
theorem Layout.sealMemtable (layout : Layout env n old recent) {x : ℤ} {e : MemTableEntry dim}
    (entry : n.engine.memtable.entries.get? x = some e) :
    (LSMEngine.sealMemtable env n).2.engine.segments =
        n.engine.segments ++ [(LSMEngine.sealMemtable env n).1] ∧
      ∃ tail, Layout env (LSMEngine.sealMemtable env n).2 tail [] ∧
        ∀ y, replayEntry tail y = none := by
  let mem := n.engine.memtable
  let created := Segment.create env.uuid n.engine.shardId mem.maxLsn (mem.toArrays none)
    n.engine.nlist n.storage
  let tail := (old ++ recent).filter fun r => mem.maxLsn + 1 ≤ r.lsn
  obtain ⟨newest, inRecent, newestLsn⟩ := layout.maxLsn entry
  have inLog : newest ∈ old ++ recent := List.mem_append_right _ inRecent
  have inTail : ∀ r ∈ tail, r ∈ old ++ recent ∧ mem.maxLsn + 1 ≤ r.lsn := by
    intro r member
    rw [List.mem_filter, decide_eq_true_eq] at member
    exact member
  have age : created.1.snapshotId = mem.maxLsn := rfl
  have younger : ∀ seg ∈ n.engine.segments, seg.snapshotId < created.1.snapshotId := by
    intro seg member
    rw [age, ← newestLsn]
    exact layout.above newest inLog seg member
  have ages : (n.engine.segments ++ [created.1]).Pairwise fun a b => a.snapshotId < b.snapshotId := by
    refine List.pairwise_append.mpr ⟨layout.segments.sorted, List.pairwise_singleton _ _, ?_⟩
    intro seg member new single
    rw [List.mem_singleton.mp single]
    exact younger seg member
  have segments : (LSMEngine.sealMemtable env n).2.engine.segments =
      n.engine.segments ++ [created.1] := sortSegments_eq (List.Perm.refl _) ages
  have silent : ∀ y, replayEntry tail y = none := by
    intro y
    cases found : replayEntry tail y with
    | none => rfl
    | some e' =>
        obtain ⟨r, member, written⟩ := exists_of_replayEntry found
        obtain ⟨listed, later⟩ := inTail r member
        rw [layout.tail_empty entry listed later y] at written
        cases written
  refine ⟨segments, tail, ⟨layout.started, rfl, ?_, ?_, ?_, ?_, ?_, fun y => rfl, ?_, ?_, ?_, ?_, ?_⟩,
    silent⟩
  · rw [List.append_nil]
    exact WAL.truncateBefore_of_holds layout.wal _
  · rw [List.append_nil]
    exact layout.ordered.filter _
  · rw [List.append_nil]
    exact fun r member => layout.positive r (inTail r member).1
  · rw [List.append_nil]
    exact fun r member => layout.known r (inTail r member).1
  · rw [List.append_nil, segments]
    intro r member seg listed
    obtain ⟨inLog', later⟩ := inTail r member
    rcases List.mem_append.mp listed with before | new
    · exact layout.above r inLog' seg before
    · rw [List.mem_singleton.mp new, age]
      exact later
  · intro y e' found
    rw [silent y] at found
    cases found
  · intro y _ e' found
    cases found
  · rw [segments]
    refine (layout.segments.toStocked.create mem.maxLsn (mem.nodup_toArrays none)
      n.engine.nlist).of_mem_iff fun seg => ?_
    rw [List.mem_append, List.mem_singleton, List.mem_cons, or_comm]
  · rw [segments]
    exact ages
  · rw [segments]
    intro seg member
    rcases List.mem_append.mp member with before | new
    · exact layout.segments.bounded seg before
    · rw [List.mem_singleton.mp new, age, ← newestLsn]
      exact layout.wal.bounded newest inLog

end Pieces

end VecScale
