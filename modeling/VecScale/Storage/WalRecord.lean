import VecScale.Lib.Frames
import VecScale.Models

/-!
# The write-ahead log as bytes

`wal.py` frames a record as a 13-byte header (`"<QB I"`: LSN, operation, row
count, little endian and unpadded), the ids as uint64, the vectors as float32,
and a CRC-32 of all of it.  `readRecord` is one turn of the loop in
`WAL.recover`, and `readError` what it can raise; `recordCodec` packages writer and reader as a `FrameCodec`, so
that the loop itself is the codec's `scan`.

The checksum function is a parameter: nothing proved here depends on which
function of the bytes it is.  `zlibCrc32` is the one the code calls.

* `readRecord_recordBytes`: the loop reads back what `append` wrote;
* `readRecord_sound`: it reads nothing `append` could not have written.
-/

namespace VecScale

abbrev Bytes := List UInt8

def OP_INSERT : ℕ := 0

def OP_DELETE : ℕ := 1

/-! ## Little-endian integers -/

/-- `width` little-endian bytes of `n`. -/
def packLe : ℕ → ℕ → Bytes
  | 0, _ => []
  | width + 1, n => UInt8.ofNat (n % 256) :: packLe width (n / 256)

def unpackLe : Bytes → ℕ
  | [] => 0
  | b :: bs => b.toNat + 256 * unpackLe bs

@[simp] theorem length_packLe (width n : ℕ) : (packLe width n).length = width := by
  induction width generalizing n with
  | zero => rfl
  | succ width ih => simp [packLe, ih]

theorem unpackLe_packLe {width n : ℕ} (small : n < 256 ^ width) :
    unpackLe (packLe width n) = n := by
  induction width generalizing n with
  | zero => simp only [Nat.pow_zero, Nat.lt_one_iff] at small; simp [packLe, unpackLe, small]
  | succ width ih =>
      have quotient : n / 256 < 256 ^ width := by
        rw [Nat.div_lt_iff_lt_mul (by decide)]
        rwa [Nat.pow_succ] at small
      have digit : (UInt8.ofNat (n % 256)).toNat = n % 256 := by
        rw [UInt8.toNat_ofNat']
        omega
      rw [packLe, unpackLe, ih quotient, digit]
      omega

theorem packLe_unpackLe (bytes : Bytes) : packLe bytes.length (unpackLe bytes) = bytes := by
  induction bytes with
  | nil => rfl
  | cons b bytes ih =>
      have bound := b.toNat_lt
      have low : (b.toNat + 256 * unpackLe bytes) % 256 = b.toNat := by omega
      have high : (b.toNat + 256 * unpackLe bytes) / 256 = unpackLe bytes := by omega
      rw [List.length_cons, unpackLe, packLe, low, high, ih, UInt8.ofNat_toNat]

theorem unpackLe_lt (bytes : Bytes) : unpackLe bytes < 256 ^ bytes.length := by
  induction bytes with
  | nil => simp [unpackLe]
  | cons b bytes ih =>
      have bound := b.toNat_lt
      rw [List.length_cons, unpackLe, Nat.pow_succ]
      omega

/-! ## Fixed-width columns -/

/-- `n` consecutive pieces of `width` bytes. -/
def chunks (width : ℕ) : ℕ → Bytes → List Bytes
  | 0, _ => []
  | n + 1, bytes => bytes.take width :: chunks width n (bytes.drop width)

@[simp] theorem length_chunks (width n : ℕ) (bytes : Bytes) :
    (chunks width n bytes).length = n := by
  induction n generalizing bytes with
  | zero => rfl
  | succ n ih => simp [chunks, ih]

theorem chunks_flatMap {α : Type} {width : ℕ} (write : α → Bytes)
    (fixed : ∀ a, (write a).length = width) (items : List α) :
    chunks width items.length (items.flatMap write) = items.map write := by
  induction items with
  | nil => rfl
  | cons a items ih =>
      rw [List.length_cons, chunks, List.flatMap_cons, List.map_cons,
        List.take_append_of_le_length (fixed a).ge, List.take_of_length_le (fixed a).le,
        ← fixed a, List.drop_left, fixed a, ih]

theorem length_flatMap_fixed {α : Type} {width : ℕ} (write : α → Bytes)
    (fixed : ∀ a, (write a).length = width) (items : List α) :
    (items.flatMap write).length = items.length * width := by
  induction items with
  | nil => simp
  | cons a items ih =>
      rw [List.flatMap_cons, List.length_append, List.length_cons, fixed, ih, Nat.succ_mul]
      omega

theorem flatten_chunks {width n : ℕ} {bytes : Bytes} (exact : bytes.length = n * width) :
    (chunks width n bytes).flatten = bytes := by
  induction n generalizing bytes with
  | zero =>
      rw [Nat.zero_mul, List.length_eq_zero_iff] at exact
      simp [chunks, exact]
  | succ n ih =>
      rw [Nat.succ_mul] at exact
      rw [chunks, List.flatten_cons, ih (by rw [List.length_drop]; omega),
        List.take_append_drop]

theorem length_of_mem_chunks {width n : ℕ} {bytes piece : Bytes}
    (exact : bytes.length = n * width) (member : piece ∈ chunks width n bytes) :
    piece.length = width := by
  induction n generalizing bytes with
  | zero => cases member
  | succ n ih =>
      rw [Nat.succ_mul] at exact
      rcases List.mem_cons.mp member with rfl | later
      · rw [List.length_take]
        omega
      · exact ih (by rw [List.length_drop]; omega) later

/-! ## Ids and vectors -/

/-- The id is an int64, as every id array is. -/
def IsInt64 (id : ℤ) : Prop := -2 ^ 63 ≤ id ∧ id < 2 ^ 63

instance (id : ℤ) : Decidable (IsInt64 id) := inferInstanceAs (Decidable (_ ∧ _))

/-- `astype(np.uint64)` of an int64. -/
def toUint64 (id : ℤ) : ℕ := (id % 2 ^ 64).toNat

/-- `astype(np.int64)` of a uint64. -/
def ofUint64 (u : ℕ) : ℤ := if u < 2 ^ 63 then u else u - 2 ^ 64

theorem ofUint64_toUint64 {id : ℤ} (range : IsInt64 id) : ofUint64 (toUint64 id) = id := by
  rcases range with ⟨lower, upper⟩
  unfold ofUint64 toUint64
  split <;> omega

theorem toUint64_ofUint64 {u : ℕ} (range : u < 2 ^ 64) : toUint64 (ofUint64 u) = u := by
  unfold ofUint64 toUint64
  split <;> omega

theorem toUint64_lt (id : ℤ) : toUint64 id < 2 ^ 64 := by
  unfold toUint64
  omega

theorem isInt64_ofUint64 {u : ℕ} (range : u < 2 ^ 64) : IsInt64 (ofUint64 u) := by
  unfold IsInt64 ofUint64
  split <;> omega

/-- The rows of int64 ids have int64 ids. -/
theorem prepareRows_int64 {dim : ℕ} {ids : List ℤ} {vectors : List (List UInt32)}
    {rows : List (Row dim)} (int64 : ∀ id ∈ ids, IsInt64 id)
    (prepared : prepareRows dim ids vectors = .ok rows) : ∀ row ∈ rows, IsInt64 row.1 := by
  intro row member
  apply int64
  rw [← prepareRows_ok prepared]
  exact List.mem_map_of_mem member

def idBytes (id : ℤ) : Bytes := packLe 8 (toUint64 id)

@[simp] theorem length_idBytes (id : ℤ) : (idBytes id).length = 8 := length_packLe 8 _

def vecBytes {dim : ℕ} (v : Vec dim) : Bytes := v.toList.flatMap fun w => packLe 4 w.toNat

/-- `np.frombuffer(piece, dtype=np.float32)`. -/
def vecOfBytes (dim : ℕ) (piece : Bytes) : Vec dim :=
  ⟨(chunks 4 dim piece).map fun w => UInt32.ofNat (unpackLe w), by simp⟩

theorem length_vecBytes {dim : ℕ} (v : Vec dim) : (vecBytes v).length = 4 * dim := by
  have size : v.toList.length = dim := v.toList_length
  rw [vecBytes, length_flatMap_fixed _ fun w => length_packLe 4 _, size, Nat.mul_comm]

theorem vecOfBytes_vecBytes {dim : ℕ} (v : Vec dim) : vecOfBytes dim (vecBytes v) = v := by
  rcases v with ⟨words, rfl⟩
  refine Subtype.ext ?_
  have split := chunks_flatMap (fun w : UInt32 => packLe 4 w.toNat) (fun _ => length_packLe 4 _)
    words
  simp only [vecOfBytes, vecBytes, List.Vector.toList, split, List.map_map]
  rw [List.map_congr_left (g := id), List.map_id]
  intro w _
  have small : w.toNat < 256 ^ 4 := w.toNat_lt
  simp [unpackLe_packLe small]

theorem vecBytes_vecOfBytes {dim : ℕ} {piece : Bytes} (exact : piece.length = dim * 4) :
    vecBytes (vecOfBytes dim piece) = piece := by
  conv_rhs => rw [← flatten_chunks exact]
  simp only [vecBytes, vecOfBytes, List.Vector.toList, List.flatMap_map, List.flatten_eq_flatMap]
  refine List.flatMap_congr fun w member => ?_
  have size := length_of_mem_chunks exact member
  have small : unpackLe w < UInt32.size := by
    have := unpackLe_lt w
    rwa [size] at this
  rw [UInt32.toNat_ofNat_of_lt' small, ← size, packLe_unpackLe]
  rfl

/-! ## Records -/

/-- One log record. -/
structure WALRecord (dim : ℕ) where
  lsn : ℕ
  opType : ℕ
  rows : List (Row dim)
  deriving DecidableEq

/-- What `_HEADER.pack` accepts. -/
structure WALRecord.Packs {dim : ℕ} (r : WALRecord dim) : Prop where
  lsn : r.lsn < 2 ^ 64
  opType : r.opType < 2 ^ 8
  count : r.rows.length < 2 ^ 32

instance {dim : ℕ} (r : WALRecord dim) : Decidable r.Packs :=
  decidable_of_iff (r.lsn < 2 ^ 64 ∧ r.opType < 2 ^ 8 ∧ r.rows.length < 2 ^ 32)
    ⟨fun ⟨lsn, opType, count⟩ => ⟨lsn, opType, count⟩, fun h => ⟨h.lsn, h.opType, h.count⟩⟩

/-- A record over int64 ids that packs. -/
structure WALRecord.Valid {dim : ℕ} (r : WALRecord dim) : Prop extends r.Packs where
  ids : ∀ row ∈ r.rows, IsInt64 row.1

section Codec

variable {dim : ℕ} (crc32 : Bytes → ℕ)

/-- `_HEADER.pack(lsn, op_type, count)`. -/
def headerBytes (r : WALRecord dim) : Bytes :=
  packLe 8 r.lsn ++ (packLe 1 r.opType ++ packLe 4 r.rows.length)

/-- `ids.tobytes() + vectors.tobytes()`. -/
def bodyBytes (rows : List (Row dim)) : Bytes :=
  (rows.flatMap fun row => idBytes row.1) ++ rows.flatMap fun row => vecBytes row.2

/-- The bytes of a record that packs. -/
def recordBytes (r : WALRecord dim) : Bytes :=
  headerBytes r ++ (bodyBytes r.rows ++
    packLe 4 (crc32 (headerBytes r ++ bodyBytes r.rows) % 2 ^ 32))

/-- `WAL._serialize_record`. -/
def serializeRecord (r : WALRecord dim) : Except PyError Bytes :=
  if r.Packs then .ok (recordBytes crc32 r) else .error .structError

/-- The rows of a body of `count` rows. -/
def rowsOfBody (dim count : ℕ) (body : Bytes) : List (Row dim) :=
  ((chunks 8 count (body.take (count * 8))).map fun piece => ofUint64 (unpackLe piece)).zip
    ((chunks (4 * dim) count (body.drop (count * 8))).map (vecOfBytes dim))

/-- The bytes that the header at the front announces: `count` ids and `count` vectors. -/
def announced (dim : ℕ) (bytes : Bytes) : ℕ :=
  let count := unpackLe ((bytes.take 13).drop 9)
  count * 8 + count * (4 * dim)

/-- What `f.read(ids_bytes_len + vectors_bytes_len)` raises: the header is not checked
before it, and a read makes room for all it is asked for, at most `memory` bytes. -/
def readError (dim memory : ℕ) (bytes : Bytes) : Option PyError :=
  if (bytes.take 13).length ≠ 13 then none
  else if 2 ^ 63 ≤ announced dim bytes then some .overflowError
  else if memory < announced dim bytes then some .memoryError
  else none

/-- One turn of the loop in `WAL.recover` once its reads have returned: the record at
the front and the rest of the file, `none` where the loop breaks. -/
def readRecord (dim : ℕ) (bytes : Bytes) : Option (WALRecord dim × Bytes) :=
  let header := bytes.take 13
  if header.length ≠ 13 then none
  else
    let lsn := unpackLe (header.take 8)
    let opType := unpackLe ((header.drop 8).take 1)
    let count := unpackLe (header.drop 9)
    let size := count * 8 + count * (4 * dim)
    let body := (bytes.drop 13).take size
    let checksum := ((bytes.drop 13).drop size).take 4
    if body.length ≠ size then none
    else if checksum.length ≠ 4 then none
    else if unpackLe checksum ≠ crc32 (header ++ body) % 2 ^ 32 then none
    else some (⟨lsn, opType, rowsOfBody dim count body⟩, ((bytes.drop 13).drop size).drop 4)

theorem readError_eq_none_iff {memory : ℕ} {bytes : Bytes} :
    readError dim memory bytes = none ↔
      (13 ≤ bytes.length → announced dim bytes < 2 ^ 63 ∧ announced dim bytes ≤ memory) := by
  rw [readError, List.length_take]
  by_cases header : 13 ≤ bytes.length
  · rw [min_eq_left header, if_neg (not_not_intro rfl)]
    split
    · next large => exact iff_of_false (by simp) fun fits => not_lt.mpr large (fits header).1
    · next small =>
        split
        · next more => exact iff_of_false (by simp) fun fits => not_le.mpr more (fits header).2
        · next room => exact iff_of_true rfl fun _ => ⟨not_le.mp small, not_lt.mp room⟩
  · rw [if_pos (by omega)]
    exact iff_of_true rfl fun long => absurd long header

theorem length_headerBytes (r : WALRecord dim) : (headerBytes r).length = 13 := by
  simp [headerBytes]

theorem length_bodyBytes (rows : List (Row dim)) :
    (bodyBytes rows).length = rows.length * 8 + rows.length * (4 * dim) := by
  have ids := length_flatMap_fixed (fun row : Row dim => idBytes row.1)
    (fun row => length_idBytes row.1) rows
  have vecs := length_flatMap_fixed (fun row : Row dim => vecBytes row.2)
    (fun row => length_vecBytes row.2) rows
  rw [bodyBytes, List.length_append, ids, vecs]

theorem rowsOfBody_bodyBytes {rows : List (Row dim)} (ids : ∀ row ∈ rows, IsInt64 row.1) :
    rowsOfBody dim rows.length (bodyBytes rows) = rows := by
  have idsLength := length_flatMap_fixed (fun row : Row dim => idBytes row.1)
    (fun row => length_idBytes row.1) rows
  have idChunks := chunks_flatMap (fun row : Row dim => idBytes row.1)
    (fun row => length_idBytes row.1) rows
  have vecChunks := chunks_flatMap (fun row : Row dim => vecBytes row.2)
    (fun row => length_vecBytes row.2) rows
  rw [rowsOfBody, bodyBytes, ← idsLength, List.take_left, List.drop_left, idChunks, vecChunks,
    List.map_map, List.map_map, List.zip_map']
  conv_rhs => rw [← List.map_id rows]
  refine List.map_congr_left fun row member => ?_
  have small : toUint64 row.1 < 256 ^ 8 := toUint64_lt row.1
  simp only [Function.comp_apply, idBytes, unpackLe_packLe small,
    ofUint64_toUint64 (ids row member), vecOfBytes_vecBytes, id_eq]

variable (dim) in
theorem bodyBytes_rowsOfBody {count : ℕ} {body : Bytes}
    (exact : body.length = count * 8 + count * (4 * dim)) :
    bodyBytes (rowsOfBody dim count body) = body ∧ (rowsOfBody dim count body).length = count ∧
      ∀ row ∈ rowsOfBody dim count body, IsInt64 row.1 := by
  have idsExact : (body.take (count * 8)).length = count * 8 := by
    rw [List.length_take]
    omega
  have vecsExact : (body.drop (count * 8)).length = count * (4 * dim) := by
    rw [List.length_drop]
    omega
  have small : ∀ piece ∈ chunks 8 count (body.take (count * 8)), unpackLe piece < 2 ^ 64 := by
    intro piece member
    have bound := unpackLe_lt piece
    rwa [length_of_mem_chunks idsExact member] at bound
  refine ⟨?_, by simp [rowsOfBody], ?_⟩
  · have idColumn : (rowsOfBody dim count body).flatMap (fun row => idBytes row.1) =
        body.take (count * 8) := by
      have column : (rowsOfBody dim count body).map Prod.fst =
          (chunks 8 count (body.take (count * 8))).map fun piece => ofUint64 (unpackLe piece) := by
        rw [rowsOfBody, List.map_fst_zip (by simp)]
      rw [← List.flatMap_map Prod.fst idBytes, column, List.flatMap_map]
      conv_rhs => rw [← flatten_chunks idsExact, List.flatten_eq_flatMap]
      refine List.flatMap_congr fun piece member => ?_
      have size := length_of_mem_chunks idsExact member
      rw [idBytes, toUint64_ofUint64 (small piece member), ← size, packLe_unpackLe, id_eq]
    have vecColumn : (rowsOfBody dim count body).flatMap (fun row => vecBytes row.2) =
        body.drop (count * 8) := by
      have column : (rowsOfBody dim count body).map Prod.snd =
          (chunks (4 * dim) count (body.drop (count * 8))).map (vecOfBytes dim) := by
        rw [rowsOfBody, List.map_snd_zip (by simp)]
      rw [← List.flatMap_map Prod.snd vecBytes, column, List.flatMap_map]
      conv_rhs => rw [← flatten_chunks vecsExact, List.flatten_eq_flatMap]
      refine List.flatMap_congr fun piece member => ?_
      have size := length_of_mem_chunks vecsExact member
      rw [vecBytes_vecOfBytes (by rw [size, Nat.mul_comm]), id_eq]
    rw [bodyBytes, idColumn, vecColumn, List.take_append_drop]
  · intro row member
    have listed : row.1 ∈ (rowsOfBody dim count body).map Prod.fst :=
      List.mem_map.mpr ⟨row, member, rfl⟩
    rw [rowsOfBody, List.map_fst_zip (by simp)] at listed
    rcases List.mem_map.mp listed with ⟨piece, inChunks, here⟩
    rw [← here]
    exact isInt64_ofUint64 (small piece inChunks)

/-- The three fields of a header. -/
theorem headerBytes_fields (r : WALRecord dim) (valid : r.Valid) :
    unpackLe ((headerBytes r).take 8) = r.lsn ∧
      unpackLe (((headerBytes r).drop 8).take 1) = r.opType ∧
      unpackLe ((headerBytes r).drop 9) = r.rows.length := by
  have lsnSmall : r.lsn < 256 ^ 8 := valid.lsn
  have opSmall : r.opType < 256 ^ 1 := valid.opType
  have countSmall : r.rows.length < 256 ^ 4 := valid.count
  refine ⟨?_, ?_, ?_⟩
  · rw [headerBytes, List.take_left' (length_packLe 8 _), unpackLe_packLe lsnSmall]
  · rw [headerBytes, List.drop_left' (length_packLe 8 _), List.take_left' (length_packLe 1 _),
      unpackLe_packLe opSmall]
  · rw [headerBytes, ← List.append_assoc,
      List.drop_left' (by rw [List.length_append, length_packLe, length_packLe]),
      unpackLe_packLe countSmall]

/-- The loop reads back what `append` wrote. -/
theorem readRecord_recordBytes (r : WALRecord dim) (rest : Bytes) (valid : r.Valid) :
    readRecord crc32 dim (recordBytes crc32 r ++ rest) = some (r, rest) := by
  obtain ⟨lsn, opType, count⟩ := headerBytes_fields r valid
  have crcSmall : crc32 (headerBytes r ++ bodyBytes r.rows) % 2 ^ 32 < 256 ^ 4 :=
    Nat.mod_lt _ (by decide)
  have header : (recordBytes crc32 r ++ rest).take 13 = headerBytes r := by
    rw [recordBytes, List.append_assoc, List.take_left' (length_headerBytes r)]
  have behind : (recordBytes crc32 r ++ rest).drop 13 = bodyBytes r.rows ++
      (packLe 4 (crc32 (headerBytes r ++ bodyBytes r.rows) % 2 ^ 32) ++ rest) := by
    rw [recordBytes, List.append_assoc, List.drop_left' (length_headerBytes r), List.append_assoc]
  have bodySize := length_bodyBytes r.rows
  simp only [readRecord, header, behind, lsn, opType, count, length_headerBytes,
    List.take_left' bodySize, List.drop_left' bodySize, bodySize,
    List.take_left' (length_packLe 4 _), List.drop_left' (length_packLe 4 _), length_packLe,
    unpackLe_packLe crcSmall, rowsOfBody_bodyBytes valid.ids, ne_eq, not_true_eq_false, if_false]

/-- A header packs back from its three fields. -/
theorem packLe_header {header : Bytes} (size : header.length = 13) :
    packLe 8 (unpackLe (header.take 8)) ++ (packLe 1 (unpackLe ((header.drop 8).take 1)) ++
      packLe 4 (unpackLe (header.drop 9))) = header := by
  have lsn := packLe_unpackLe (header.take 8)
  have opType := packLe_unpackLe ((header.drop 8).take 1)
  have count := packLe_unpackLe (header.drop 9)
  rw [List.length_take, size] at lsn
  rw [List.length_take, List.length_drop, size] at opType
  rw [List.length_drop, size] at count
  have tail : header.drop 9 = (header.drop 8).drop 1 := by rw [List.drop_drop]
  rw [show min 8 13 = 8 from rfl] at lsn
  rw [show min 1 (13 - 8) = 1 from rfl] at opType
  rw [lsn, opType, count, tail, List.take_append_drop, List.take_append_drop]

/-- The loop reads nothing `append` could not have written. -/
theorem readRecord_sound {bytes rest : Bytes} {r : WALRecord dim}
    (read : readRecord crc32 dim bytes = some (r, rest)) :
    r.Valid ∧ bytes = recordBytes crc32 r ++ rest := by
  simp only [readRecord, ne_eq, ite_not] at read
  split at read
  case isFalse => cases read
  next headerSize =>
  have repacked := packLe_header headerSize
  have lsnSmall := unpackLe_lt ((bytes.take 13).take 8)
  have opSmall := unpackLe_lt (((bytes.take 13).drop 8).take 1)
  have countSmall := unpackLe_lt ((bytes.take 13).drop 9)
  rw [List.length_take, headerSize] at lsnSmall
  rw [List.length_take, List.length_drop, headerSize] at opSmall
  rw [List.length_drop, headerSize] at countSmall
  have cut := List.take_append_drop 13 bytes
  generalize unpackLe ((bytes.take 13).take 8) = lsn at *
  generalize unpackLe (((bytes.take 13).drop 8).take 1) = opType at *
  generalize unpackLe ((bytes.take 13).drop 9) = count at *
  generalize bytes.take 13 = header at *
  generalize bytes.drop 13 = behind at *
  split at read
  case isFalse => cases read
  next bodySize =>
  split at read
  case isFalse => cases read
  next checksumSize =>
  split at read
  case isFalse => cases read
  next checksum =>
  rw [Option.some.injEq, Prod.mk.injEq] at read
  rcases read with ⟨rfl, rfl⟩
  obtain ⟨bodyEq, rowCount, int64⟩ := bodyBytes_rowsOfBody dim bodySize
  refine ⟨⟨⟨lsnSmall, opSmall, by rw [rowCount]; exact countSmall⟩, int64⟩, ?_⟩
  have stored := packLe_unpackLe ((behind.drop (count * 8 + count * (4 * dim))).take 4)
  rw [checksumSize, checksum] at stored
  rw [recordBytes, headerBytes, bodyEq, rowCount, repacked, stored, List.append_assoc,
    List.append_assoc, List.take_append_drop, List.take_append_drop, cut]

/-- Records as self-delimiting frames. -/
def recordCodec (dim : ℕ) : FrameCodec (WALRecord dim) UInt8 where
  encode := recordBytes crc32
  next := readRecord crc32 dim
  Valid := WALRecord.Valid
  next_encode := readRecord_recordBytes crc32
  next_sound := readRecord_sound crc32
  encode_ne_nil r empty := by
    have size := congrArg List.length empty
    rw [recordBytes, List.length_append, length_headerBytes, List.length_nil] at size
    omega

end Codec

/-! ## CRC-32 -/

/-- One bit of the reflected CRC-32 division. -/
def crcBit (c : ℕ) : ℕ := if c % 2 = 1 then (c / 2) ^^^ 0xEDB88320 else c / 2

def crcByte (c : ℕ) (b : UInt8) : ℕ := crcBit^[8] (c ^^^ b.toNat)

/-- `zlib.crc32`. -/
def zlibCrc32 (bytes : Bytes) : ℕ := bytes.foldl crcByte 0xFFFFFFFF ^^^ 0xFFFFFFFF

example : zlibCrc32 [49, 50, 51, 52, 53, 54, 55, 56, 57] = 0xCBF43926 := by decide +kernel

end VecScale
