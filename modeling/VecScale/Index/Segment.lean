import Mathlib.Data.String.Basic
import VecScale.Index.IvfFlat

/-!
# Segments and shared storage

A segment is a directory of four files under the shared storage: the index, the
ids, the vectors and, written last, the metadata.  `SharedStorage` holds these
directories and `tombstones.json`.

* `load_of_stored`, `loadArrays_of_stored` and `loadIds_of_stored` read back
  what `create` wrote;
* `create_fresh`: the directory of a new segment was not there before;
* `SharedStorage.Grows`: what every call does with the directories.
-/

namespace VecScale

/-- The metadata of a segment, as registered and as stored in `meta.json`. -/
structure SegmentMeta where
  segmentId : String
  shardId : ℕ
  numVectors : ℕ
  snapshotId : ℕ
  path : String
  deriving DecidableEq

/-- The files of a segment directory. -/
structure SegmentFiles (dim : ℕ) where
  indexFaiss : Option (IVFFlatIndex dim)
  idsNpy : Option (List ℤ)
  vectorsNpy : Option (List (Vec dim))
  metaJson : Option SegmentMeta
  deriving DecidableEq

/-- `tombstones.json`. -/
inductive TombstonesJson
  | absent
  | unreadable
  | holds (ids : Finset ℤ)
  deriving DecidableEq

/-- `_load_tombstones`. -/
def TombstonesJson.load : TombstonesJson → Finset ℤ
  | .absent => ∅
  | .unreadable => ∅
  | .holds ids => ids

/-- The shared storage, and how many uuids were drawn for it. -/
structure SharedStorage (dim : ℕ) where
  segmentDirs : Dict String (SegmentFiles dim)
  tombstonesJson : TombstonesJson
  uuids : ℕ
  deriving DecidableEq

/-- The draws of `uuid.uuid4().hex[:8]`, which never repeat. -/
structure Uuid4 where
  hex : ℕ → String
  injective : Function.Injective hex
  noDash : ∀ draw, '-' ∉ (hex draw).toList

/-- Draws told apart by their length. -/
def Uuid4.counted : Uuid4 where
  hex draw := String.ofList (List.replicate draw 'f')
  injective := by
    intro a b same
    have chars := congrArg String.toList same
    simpa using congrArg List.length chars
  noDash := by
    intro draw dash
    rw [String.toList_ofList] at dash
    exact absurd (List.eq_of_mem_replicate dash) (by decide)

/-- `f"{n:0{width}d}"`. -/
def padDigits (width n : ℕ) : String :=
  String.ofList (List.replicate (width - (Nat.toDigits 10 n).length) '0' ++ Nat.toDigits 10 n)

/-- `f"{shard_id:04d}-{snapshot_id:010d}-{hex}"`. -/
def segmentName (shardId snapshotId : ℕ) (hex : String) : String :=
  padDigits 4 shardId ++ "-" ++ padDigits 10 snapshotId ++ "-" ++ hex

/-- `os.path.join(segments_path, segment_id)`, below the shared storage. -/
def segmentPath (segmentId : String) : String := "segments/" ++ segmentId

example : segmentName 3 17 "9f0c" = "0003-0000000017-9f0c" := by decide +kernel

section Names

private theorem dash_suffix_unique {a a' b b' : List Char} (left : '-' ∉ b) (right : '-' ∉ b')
    (same : a ++ '-' :: b = a' ++ '-' :: b') : b = b' := by
  induction a generalizing a' with
  | nil =>
      cases a' with
      | nil => simpa using same
      | cons c a' =>
          simp only [List.nil_append, List.cons_append, List.cons.injEq] at same
          exact absurd (same.2 ▸ List.mem_append_right _ List.mem_cons_self) left
  | cons c a ih =>
      cases a' with
      | nil =>
          simp only [List.nil_append, List.cons_append, List.cons.injEq] at same
          exact absurd (same.2 ▸ List.mem_append_right _ List.mem_cons_self) right
      | cons c' a' =>
          simp only [List.cons_append, List.cons.injEq] at same
          exact ih same.2

/-- The uuid is what stands behind the last dash of a segment name. -/
theorem segmentName_hex (uuid : Uuid4) {shard shard' snapshot snapshot' draw draw' : ℕ}
    (same : segmentName shard snapshot (uuid.hex draw) =
      segmentName shard' snapshot' (uuid.hex draw')) : draw = draw' := by
  have chars := congrArg String.toList same
  simp only [segmentName, String.toList_append] at chars
  have dash : "-".toList = ['-'] := rfl
  rw [dash, List.append_assoc, List.append_assoc _ _ (uuid.hex draw').toList] at chars
  refine uuid.injective (String.toList_inj.mp ?_)
  exact dash_suffix_unique (uuid.noDash draw) (uuid.noDash draw') chars

theorem segmentPath_injective : Function.Injective segmentPath := by
  intro a b same
  have chars := congrArg String.toList same
  simp only [segmentPath, String.toList_append, List.append_cancel_left_eq] at chars
  exact String.toList_inj.mp chars

end Names

/-- A segment in memory. -/
structure Segment (dim : ℕ) where
  segMeta : SegmentMeta
  path : String
  index : IVFFlatIndex dim
  idsCache : Option (List ℤ)
  deriving DecidableEq

section Store

variable {dim : ℕ}

namespace SharedStorage

def empty : SharedStorage dim := ⟨∅, .absent, 0⟩

/-- The files at a path; a missing directory has none. -/
def files (st : SharedStorage dim) (path : String) : SegmentFiles dim :=
  (st.segmentDirs.get? path).getD ⟨none, none, none, none⟩

/-- `shutil.rmtree(path, ignore_errors=True)`. -/
def rmtree (st : SharedStorage dim) (path : String) : SharedStorage dim :=
  { st with segmentDirs := st.segmentDirs.erase path }

/-- Remove several directories in turn. -/
def rmtreeAll (st : SharedStorage dim) (paths : List String) : SharedStorage dim :=
  paths.foldl rmtree st

/-- `_persist_tombstones` of a set. -/
def persist (st : SharedStorage dim) (ids : Finset ℤ) : SharedStorage dim :=
  { st with tombstonesJson := .holds ids }

/-- Every directory is named by a draw that was made. -/
def Drawn (uuid : Uuid4) (st : SharedStorage dim) : Prop :=
  ∀ path ∈ st.segmentDirs.keys, ∃ shard snapshot draw, draw < st.uuids ∧
    path = segmentPath (segmentName shard snapshot (uuid.hex draw))

/-- Directories are removed, or added under new draws, and never changed. -/
structure Grows (uuid : Uuid4) (st st' : SharedStorage dim) : Prop where
  uuids : st.uuids ≤ st'.uuids
  dirs : ∀ path files, st'.segmentDirs.get? path = some files →
    st.segmentDirs.get? path = some files ∨ ∃ shard snapshot draw, st.uuids ≤ draw ∧
      draw < st'.uuids ∧ path = segmentPath (segmentName shard snapshot (uuid.hex draw))

end SharedStorage

namespace Segment

abbrev segmentId (seg : Segment dim) : String := seg.segMeta.segmentId

abbrev shardId (seg : Segment dim) : ℕ := seg.segMeta.shardId

abbrev snapshotId (seg : Segment dim) : ℕ := seg.segMeta.snapshotId

/-- The indexed rows. -/
abbrev rows (seg : Segment dim) : List (Row dim) := seg.index.rows

/-- `Segment.create`: build the index and write the directory. -/
def create (uuid : Uuid4) (shardId snapshotId : ℕ) (rows : List (Row dim)) (nlist : ℕ)
    (st : SharedStorage dim) : Segment dim × SharedStorage dim :=
  let segmentId := segmentName shardId snapshotId (uuid.hex st.uuids)
  let path := segmentPath segmentId
  let index := (IVFFlatIndex.train (min nlist rows.length) (rows.map Prod.snd)).add rows
  let segMeta := ⟨segmentId, shardId, rows.length, snapshotId, path⟩
  let files := ⟨some index, some (batchIds rows), some (rows.map Prod.snd), some segMeta⟩
  (⟨segMeta, path, index, none⟩,
    { st with segmentDirs := st.segmentDirs.set path files, uuids := st.uuids + 1 })

def load (st : SharedStorage dim) (path : String) : Except PyError (Segment dim) :=
  match (st.files path).metaJson with
  | none => .error (.fileNotFoundError (path ++ "/meta.json"))
  | some segMeta =>
      match (st.files path).indexFaiss with
      | none => .error (.runtimeError ("could not open " ++ path ++ "/index.faiss for reading"))
      | some index => .ok ⟨segMeta, path, index, none⟩

/-- `load_arrays`: the rows of `ids.npy` and `vectors.npy`. -/
def loadArrays (st : SharedStorage dim) (seg : Segment dim) : Except PyError (List (Row dim)) :=
  match (st.files seg.path).idsNpy with
  | none => .error (.fileNotFoundError (seg.path ++ "/ids.npy"))
  | some ids =>
      match (st.files seg.path).vectorsNpy with
      | none => .error (.fileNotFoundError
          ("Segment " ++ seg.segmentId ++ " is missing vectors.npy and cannot be merged."))
      | some vectors => .ok (ids.zip vectors)

/-- `load_ids`, with the segment that remembers them. -/
def loadIds (st : SharedStorage dim) (seg : Segment dim) :
    Except PyError (List ℤ × Segment dim) :=
  match seg.idsCache with
  | some ids => .ok (ids, seg)
  | none =>
      match (st.files seg.path).idsNpy with
      | none => .error (.fileNotFoundError (seg.path ++ "/ids.npy"))
      | some ids => .ok (ids, { seg with idsCache := some ids })

/-- `Segment.search`. -/
def search {D : Type} [LinearOrder D] (faiss : Faiss dim D) (seg : Segment dim) (q : Vec dim)
    (topK nprobe : ℕ) : List (ℤ × D) :=
  seg.index.search faiss q topK nprobe

/-- The files `create` writes for a segment. -/
def files (seg : Segment dim) : SegmentFiles dim :=
  ⟨some seg.index, some (batchIds seg.rows), some (seg.rows.map Prod.snd), some seg.segMeta⟩

/-- The segment is as `create` or `load` returns it, and its directory is whole. -/
structure Stored (st : SharedStorage dim) (seg : Segment dim) : Prop where
  files : st.segmentDirs.get? seg.path = some seg.files
  path : seg.path = segmentPath seg.segmentId
  metaPath : seg.segMeta.path = seg.path
  uncached : seg.idsCache = none

variable {st : SharedStorage dim} {seg : Segment dim}

@[simp] theorem files_of_stored (stored : seg.Stored st) : st.files seg.path = seg.files := by
  rw [SharedStorage.files, stored.files, Option.getD_some]

theorem load_of_stored (stored : seg.Stored st) : load st seg.path = .ok seg := by
  have uncached := stored.uncached
  simp only [load, files_of_stored stored, files]
  cases seg
  cases uncached
  rfl

theorem loadArrays_of_stored (stored : seg.Stored st) : loadArrays st seg = .ok seg.rows := by
  simp only [loadArrays, files_of_stored stored, files, batchIds, List.zip_map']
  simp

theorem loadIds_of_stored (stored : seg.Stored st) :
    loadIds st seg = .ok (batchIds seg.rows, { seg with idsCache := some (batchIds seg.rows) }) := by
  simp only [loadIds, stored.uncached, files_of_stored stored, files]

/-- What a new segment holds. -/
theorem create_fields (uuid : Uuid4) (shardId snapshotId : ℕ) (rows : List (Row dim)) (nlist : ℕ)
    (st : SharedStorage dim) :
    (create uuid shardId snapshotId rows nlist st).1.rows = rows ∧
      (create uuid shardId snapshotId rows nlist st).1.shardId = shardId ∧
      (create uuid shardId snapshotId rows nlist st).1.snapshotId = snapshotId := by
  refine ⟨?_, rfl, rfl⟩
  simp [create, Segment.rows, IVFFlatIndex.add]

theorem create_stored (uuid : Uuid4) (shardId snapshotId : ℕ) (rows : List (Row dim)) (nlist : ℕ)
    (st : SharedStorage dim) :
    (create uuid shardId snapshotId rows nlist st).1.Stored
      (create uuid shardId snapshotId rows nlist st).2 := by
  refine ⟨?_, rfl, rfl, rfl⟩
  have rowsEq := (create_fields uuid shardId snapshotId rows nlist st).1
  rw [files, rowsEq]
  simp [create]

/-- The directory of a new segment was not there before. -/
theorem create_fresh {uuid : Uuid4} (drawn : st.Drawn uuid) (shardId snapshotId : ℕ)
    (rows : List (Row dim)) (nlist : ℕ) :
    st.segmentDirs.get? (create uuid shardId snapshotId rows nlist st).1.path = none := by
  rw [Dict.get?_eq_none_iff]
  intro present
  obtain ⟨shard, snapshot, draw, made, same⟩ := drawn _ present
  have draws := segmentName_hex uuid (segmentPath_injective same)
  omega

theorem create_drawn {uuid : Uuid4} (drawn : st.Drawn uuid) (shardId snapshotId : ℕ)
    (rows : List (Row dim)) (nlist : ℕ) :
    (create uuid shardId snapshotId rows nlist st).2.Drawn uuid := by
  intro path present
  rcases Dict.mem_keys_iff.mp present with ⟨found, here⟩
  simp only [create, Dict.get?_set] at here
  split at here
  · next same => exact ⟨shardId, snapshotId, st.uuids, Nat.lt_succ_self _, same.symm⟩
  · obtain ⟨shard, snapshot, draw, made, named⟩ := drawn path (Dict.mem_keys_iff.mpr ⟨found, here⟩)
    exact ⟨shard, snapshot, draw, Nat.lt_succ_of_lt made, named⟩

end Segment

namespace SharedStorage

theorem get?_rmtreeAll (st : SharedStorage dim) (paths : List String) (path : String) :
    (st.rmtreeAll paths).segmentDirs.get? path =
      if path ∈ paths then none else st.segmentDirs.get? path := by
  induction paths generalizing st with
  | nil => rfl
  | cons head paths ih =>
      rw [rmtreeAll, List.foldl_cons, ← rmtreeAll, ih, rmtree, Dict.get?_erase]
      by_cases later : path ∈ paths
      · simp [later]
      · by_cases same : head = path
        · simp [same]
        · simp [later, same, Ne.symm same]

@[simp] theorem tombstonesJson_rmtreeAll (st : SharedStorage dim) (paths : List String) :
    (st.rmtreeAll paths).tombstonesJson = st.tombstonesJson := by
  induction paths generalizing st with
  | nil => rfl
  | cons head paths ih => exact ih (st.rmtree head)

@[simp] theorem uuids_rmtreeAll (st : SharedStorage dim) (paths : List String) :
    (st.rmtreeAll paths).uuids = st.uuids := by
  induction paths generalizing st with
  | nil => rfl
  | cons head paths ih => exact ih (st.rmtree head)

theorem rmtreeAll_drawn {uuid : Uuid4} {st : SharedStorage dim} (drawn : st.Drawn uuid)
    (paths : List String) : (st.rmtreeAll paths).Drawn uuid := by
  intro path present
  rcases Dict.mem_keys_iff.mp present with ⟨found, here⟩
  rw [get?_rmtreeAll] at here
  split at here
  · cases here
  · rw [uuids_rmtreeAll]
    exact drawn path (Dict.mem_keys_iff.mpr ⟨found, here⟩)

variable {uuid : Uuid4} {st st' : SharedStorage dim}

theorem Grows.of_dirs (uuid : Uuid4) (dirs : st'.segmentDirs = st.segmentDirs)
    (uuids : st'.uuids = st.uuids) : Grows uuid st st' :=
  ⟨uuids.ge, fun _ _ found => Or.inl (dirs ▸ found)⟩

theorem Grows.trans {middle : SharedStorage dim} (first : Grows uuid st middle)
    (second : Grows uuid middle st') : Grows uuid st st' := by
  refine ⟨first.uuids.trans second.uuids, fun path files found => ?_⟩
  rcases second.dirs path files found with before | ⟨shard, snapshot, draw, low, high, named⟩
  · rcases first.dirs path files before with older | ⟨shard, snapshot, draw, low, high, named⟩
    · exact Or.inl older
    · exact Or.inr ⟨shard, snapshot, draw, low, high.trans_le second.uuids, named⟩
  · exact Or.inr ⟨shard, snapshot, draw, first.uuids.trans low, high, named⟩

theorem grows_persist (uuid : Uuid4) (st : SharedStorage dim) (ids : Finset ℤ) :
    Grows uuid st (st.persist ids) := ⟨le_rfl, fun _ _ found => Or.inl found⟩

theorem grows_create (uuid : Uuid4) (shardId snapshotId : ℕ) (rows : List (Row dim)) (nlist : ℕ)
    (st : SharedStorage dim) :
    Grows uuid st (Segment.create uuid shardId snapshotId rows nlist st).2 := by
  refine ⟨Nat.le_succ _, fun path files found => ?_⟩
  simp only [Segment.create, Dict.get?_set] at found
  split at found
  · next same =>
      exact Or.inr ⟨shardId, snapshotId, st.uuids, le_rfl, Nat.lt_succ_self _, same.symm⟩
  · exact Or.inl found

theorem grows_rmtreeAll (uuid : Uuid4) (st : SharedStorage dim) (paths : List String) :
    Grows uuid st (st.rmtreeAll paths) := by
  refine ⟨(uuids_rmtreeAll st paths).ge, fun path files found => ?_⟩
  rw [get?_rmtreeAll] at found
  split at found
  · cases found
  · exact Or.inl found

end SharedStorage

end Store

end VecScale
