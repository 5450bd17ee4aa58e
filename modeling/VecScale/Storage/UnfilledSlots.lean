import Mathlib.Data.Finset.Order
import VecScale.Storage.Retrieval

/-!
# Unfilled slots and negative ids

Both searches drop every slot of negative id, not only the unfilled slots, whose id is -1.

* `memTableKeepsAll_iff`, `indexKeepsAll_iff`: for which rows, queries and numbers of slots a
  search lists all nearest rows all the same;
* `Layout.finds_iff`: an id that the engine shows is found exactly when it is not negative;
* `unfilled_slots_iff`: the two together, for what an insert has acknowledged.
-/

namespace VecScale

variable {dim : ℕ} {D : Type} [LinearOrder D]

/-! ## Which slots are kept -/

/-- With whatever exact FAISS, `MemTable.search` over `rows` lists as many nearest rows as it
has slots. -/
def MemTableKeepsAll (l2 : Vec dim → Vec dim → D) (rows : List (Row dim)) (q : Vec dim)
    (topK : ℕ) : Prop :=
  ∀ faiss : Faiss dim D, faiss.l2 = l2 → ∀ (mem : MemTable dim) (snapshot : Option ℕ),
    mem.toArrays snapshot = rows →
      Nearest topK (faiss.measure q rows) (mem.search faiss q topK snapshot)

/-- The same of `IVFFlatIndex.search`. -/
def IndexKeepsAll (l2 : Vec dim → Vec dim → D) (rows : List (Row dim)) (q : Vec dim)
    (topK : ℕ) : Prop :=
  ∀ faiss : Faiss dim D, faiss.l2 = l2 → ∀ (index : IVFFlatIndex dim) (nprobe : ℕ),
    index.rows = rows → index.ExactAt faiss q nprobe →
      Nearest topK (faiss.measure q rows) (index.search faiss q topK nprobe)

/-- Every row of negative id has `topK` rows that are strictly nearer to the query. -/
def NegativesFar (l2 : Vec dim → Vec dim → D) (rows : List (Row dim)) (q : Vec dim)
    (topK : ℕ) : Prop :=
  ∀ row ∈ rows, row.1 < 0 → topK ≤ rows.countP fun other => l2 q other.2 < l2 q row.2

instance (l2 : Vec dim → Vec dim → D) (rows : List (Row dim)) (q : Vec dim) (topK : ℕ) :
    Decidable (NegativesFar l2 rows q topK) := by
  unfold NegativesFar
  infer_instance

/-- A selection stays one under the mask when the mask drops none of it. -/
theorem nearest_filter_iff {k : ℕ} {rows out : List (ℤ × D)} (near : Nearest k rows out) :
    Nearest k rows (out.filter fun hit => 0 ≤ hit.1) ↔ ∀ hit ∈ out, 0 ≤ hit.1 := by
  constructor
  · intro masked hit selected
    have whole : (out.filter fun hit => 0 ≤ hit.1).length = out.length := by
      rw [masked.length, near.length]
    exact of_decide_eq_true (List.length_filter_eq_length_iff.mp whole hit selected)
  · intro kept
    have all : (out.filter fun hit => 0 ≤ hit.1) = out :=
      List.filter_eq_self.mpr fun hit selected => decide_eq_true (kept hit selected)
    rwa [all]

section Kept

variable (faiss : Faiss dim D) {rows : List (Row dim)} {q : Vec dim} {topK : ℕ}

theorem Faiss.countP_measure (d : D) :
    (faiss.measure q rows).countP (fun hit => hit.2 < d) =
      rows.countP fun other => faiss.l2 q other.2 < d := by
  rw [Faiss.measure, List.countP_map]
  rfl

/-- Rows of negative id that are far enough away are not selected. -/
theorem NegativesFar.nonneg (far : NegativesFar faiss.l2 rows q topK) {out : List (ℤ × D)}
    (near : Nearest topK (faiss.measure q rows) out) : ∀ hit ∈ out, 0 ≤ hit.1 := by
  rintro ⟨x, d⟩ selected
  by_contra negative
  rw [not_le] at negative
  obtain ⟨v, row, rfl⟩ := (Faiss.mem_measure faiss).mp (near.mem selected)
  have many := far (x, v) row negative
  rw [← faiss.countP_measure] at many
  exact near.notMem_of_nearer many selected

end Kept

/-! ## Ties in favour of negative ids -/

/-- An exact FAISS that lists negative ids first among rows of one distance. -/
def negativesFirst (l2 : Vec dim → Vec dim → D) (far : D) : Faiss dim D where
  l2 := l2
  far := far
  flatSearch rows q k := nsmallest k (rows.map fun row => (row.1, l2 q row.2))
    fun hit => toLex (hit.2, decide (0 ≤ hit.1))
  ivfSearch _ _ rows q k := nsmallest k (rows.map fun row => (row.1, l2 q row.2))
    fun hit => toLex (hit.2, decide (0 ≤ hit.1))
  flat_nearest _ _ k := nearest_nsmallest_lex k _ _
  ivf_mem _ _ _ _ k _ found := (nearest_nsmallest_lex k _ _).mem found
  ivf_nearest _ _ _ _ k _ := nearest_nsmallest_lex k _ _

/-- It selects a negative id when one has fewer than `k` rows before it. -/
theorem exists_negative_hit (l2 : Vec dim → Vec dim → D) (far : D) {rows : List (Row dim)}
    {q : Vec dim} {k : ℕ} {row : Row dim} (member : row ∈ rows) (negative : row.1 < 0)
    (few : rows.countP (fun other => l2 q other.2 < l2 q row.2) < k) :
    ∃ hit ∈ (negativesFirst l2 far).flatSearch rows q k, hit.1 < 0 := by
  let hits := rows.map fun row => (row.1, l2 q row.2)
  let key := fun hit : ℤ × D => toLex (hit.2, decide (0 ≤ hit.1))
  let own : ℤ × D := (row.1, l2 q row.2)
  have notNatural : decide (0 ≤ own.1) = false := decide_eq_false (not_le.mpr negative)
  have before : ∀ hit : ℤ × D, key hit < key own ↔ hit.2 < l2 q row.2 := by
    intro hit
    simp only [key, notNatural, Prod.Lex.toLex_lt_toLex, own]
    cases decide (0 ≤ hit.1) <;> simp
  have fewHits : hits.countP (fun hit => key hit < key own) < k := by
    simp only [before]
    rw [List.countP_map]
    exact few
  have listed : own ∈ hits := List.mem_map_of_mem member
  obtain ⟨hit, selected, same⟩ := exists_key_eq_of_countP_lt listed fewHits
  refine ⟨hit, selected, ?_⟩
  have classes : decide (0 ≤ hit.1) = decide (0 ≤ own.1) :=
    congrArg (fun rank => (ofLex rank).2) same
  rw [notNatural, decide_eq_false_iff_not, not_le] at classes
  exact classes

section Kept

variable {l2 : Vec dim → Vec dim → D} {rows : List (Row dim)} {q : Vec dim} {topK : ℕ}

theorem negativesFar_of_flat (far : D) (kept : ∀ hit ∈
    (negativesFirst l2 far).flatSearch rows q topK, 0 ≤ hit.1) : NegativesFar l2 rows q topK := by
  intro row member negative
  by_contra few
  obtain ⟨hit, selected, lost⟩ := exists_negative_hit l2 far member negative (not_le.mp few)
  exact absurd (kept hit selected) (not_le.mpr lost)

/-- **The index.**  It keeps all nearest rows exactly when negative ids are far. -/
theorem indexKeepsAll_iff : IndexKeepsAll l2 rows q topK ↔ NegativesFar l2 rows q topK := by
  constructor
  · intro keeps
    let faiss := negativesFirst l2 (l2 q q)
    let index : IVFFlatIndex dim := ⟨none, rows⟩
    have exact : index.ExactAt faiss q 0 := IVFFlatIndex.exactAt_flat faiss rfl q 0
    have searched := keeps faiss rfl index 0 rfl exact
    rw [IVFFlatIndex.search_eq] at searched
    exact negativesFar_of_flat (l2 q q) ((nearest_filter_iff (exact topK)).mp searched)
  · rintro far faiss rfl index nprobe rfl exact
    rw [IVFFlatIndex.search_eq, nearest_filter_iff (exact topK)]
    exact far.nonneg faiss (exact topK)

/-- The rows of a batch of distinct ids, in an empty memtable. -/
theorem MemTable.toArrays_insert (flushThreshold lsn : ℕ) (nodup : (batchIds rows).Nodup) :
    ((MemTable.init flushThreshold).insert rows lsn).toArrays none = rows := by
  have keys : (rows.map fun row => (row.1, MemTableEntry.live row.2 lsn)).map Prod.fst =
      batchIds rows := by
    rw [List.map_map]
    rfl
  have entries : ((MemTable.init flushThreshold).insert rows lsn).entries.entries = _ :=
    Dict.entries_setAll_of_nodup (keys.symm ▸ nodup)
  rw [MemTable.toArrays, entries, List.filterMap_map]
  exact List.filterMap_some

/-- **The memtable.**  It keeps all nearest rows exactly when negative ids are far. -/
theorem memTableKeepsAll_iff (nodup : (batchIds rows).Nodup) :
    MemTableKeepsAll l2 rows q topK ↔ NegativesFar l2 rows q topK := by
  constructor
  · intro keeps
    let faiss := negativesFirst l2 (l2 q q)
    intro row member negative
    by_contra few
    rw [not_le] at few
    have searched := keeps faiss rfl _ none (MemTable.toArrays_insert 1 1 nodup)
    have slots : rows.countP (fun other => l2 q other.2 < l2 q row.2) < min topK rows.length := by
      refine lt_min few (List.countP_lt_length_iff.mpr ⟨row, member, ?_⟩)
      exact decide_eq_false (lt_irrefl _)
    obtain ⟨hit, selected, lost⟩ := exists_negative_hit l2 (l2 q q) member negative slots
    have nonempty : ¬ rows.length = 0 := (List.length_pos_of_mem member).ne'
    have near : Nearest (min topK rows.length) (faiss.measure q rows)
        (faiss.flatSearch rows q (min topK rows.length)) := faiss.flat_nearest rows q _
    dsimp only [MemTable.search] at searched
    rw [MemTable.toArrays_insert 1 1 nodup, if_neg nonempty, ← Nearest.min_iff,
      faiss.length_measure, nearest_filter_iff near] at searched
    exact absurd (searched hit selected) (not_le.mpr lost)
  · rintro far faiss rfl mem snapshot rfl
    obtain ⟨out, near, searched⟩ := mem.search_eq faiss q topK snapshot
    rw [searched, nearest_filter_iff near]
    exact far.nonneg faiss near

end Kept

/-! ## What the engine finds -/

section Engine

variable {env : Env} {n n' : Node dim} {old recent : List (WALRecord dim)}

/-- A default-snapshot search for `q`, with slots and probes enough, lists `x`. -/
def Node.Finds (faiss : Faiss dim D) (n : Node dim) (q : Vec dim) (x : ℤ) : Prop :=
  ∃ topK nprobe hits after,
    LSMEngine.search faiss q.toList topK nprobe none n = .ok (hits, after) ∧
      x ∈ hits.map Prod.fst

/-- No search lists a negative id. -/
theorem LSMEngine.nonneg_of_search {faiss : Faiss dim D} {q : Vec dim} {topK nprobe : ℕ}
    {snapshotId : Option ℕ} {hits : List (ℤ × D)}
    (ran : LSMEngine.search faiss q.toList topK nprobe snapshotId n = .ok (hits, n')) :
    ∀ hit ∈ hits, 0 ≤ hit.1 := by
  intro hit listed
  obtain ⟨plan, -, rfl⟩ := LSMEngine.search_ok faiss ran
  have least := (nearestById_mergeResults _ topK plan.deletedIds).least hit listed
  have kept : hit ∈ LSMEngine.retrieved faiss n plan q topK nprobe
      (LSMEngine.snapshotOf n snapshotId) := least.1
  rcases (LSMEngine.mem_retrieved faiss).mp kept with ⟨⟨seg, -, found⟩ | found, -⟩
  · have slot := (List.mem_filter.mp found).1
    exact (IVFFlatIndex.mem_of_search faiss slot).1
  · obtain ⟨out, -, masked⟩ := n.engine.memtable.search_eq faiss q topK
      (some (LSMEngine.snapshotOf n snapshotId))
    rw [masked] at found
    exact of_decide_eq_true (List.mem_filter.mp found).2

/-- With probes enough, every index of some segments is exact. -/
theorem exists_exactAt (faiss : Faiss dim D) (q : Vec dim) (segments : List (Segment dim)) :
    ∃ nprobe, ∀ seg ∈ segments, seg.index.ExactAt faiss q nprobe := by
  obtain ⟨nprobe, bound⟩ := (segments.filterMap fun seg => seg.index.ivf).toFinset.exists_le
  refine ⟨nprobe, fun seg member => ?_⟩
  cases lists : seg.index.ivf with
  | none => exact IVFFlatIndex.exactAt_flat faiss lists q nprobe
  | some nlist =>
      refine IVFFlatIndex.exactAt_of_probes faiss lists (bound nlist ?_) q
      rw [List.mem_toFinset, List.mem_filterMap]
      exact ⟨seg, member, lists⟩

/-- **What is found.**  An id that the engine shows is found exactly when it is not negative. -/
theorem Layout.finds_iff (layout : Layout env n old recent) (faiss : Faiss dim D) (q : Vec dim)
    {x : ℤ} (shown : n.engine.lookup x ≠ none) : n.Finds faiss q x ↔ 0 ≤ x := by
  constructor
  · intro finds
    rcases finds with ⟨topK, nprobe, hits, after, ran, listed⟩
    rcases List.mem_map.mp listed with ⟨hit, selected, rfl⟩
    exact LSMEngine.nonneg_of_search ran hit selected
  · intro natural
    obtain ⟨v, here⟩ := Option.ne_none_iff_exists'.mp shown
    obtain ⟨nprobe, exact⟩ := exists_exactAt faiss q n.engine.segments
    let topK := n.engine.storedRows.length
    obtain ⟨hits, middle, rows, ran, near, fits, least⟩ := LSMEngine.search_exact faiss
      layout.started layout.segments exact (le_refl topK) n.engine.wal.lastLsn
    have inView : n.engine.ShownAt faiss n.engine.wal.lastLsn q x (faiss.l2 q v) := by
      refine ⟨natural, v, ?_, rfl⟩
      rw [lookupAt_lastLsn layout.segments layout.settled, here]
    have selected := (near.mem_iff fits).mpr ((least x _).mpr inView)
    -- the default snapshot is the last LSN
    obtain ⟨plan, planned, rfl⟩ := LSMEngine.search_ok faiss ran
    obtain ⟨after, searched⟩ := LSMEngine.search_eq faiss n q topK nprobe none layout.started
    have same : LSMEngine.snapshotOf n (some n.engine.wal.lastLsn) = LSMEngine.snapshotOf n none := rfl
    rw [same] at planned
    rw [planned] at searched
    exact ⟨topK, nprobe, _, after, searched, List.mem_map_of_mem selected⟩

/-! ## What an insert acknowledges -/

/-- At any thresholds, a flush keeps what is shown. -/
theorem Flushed.lookup_of_shown {out : Option (Segment dim)} (flushed : Flushed env n out n')
    (layout : Layout env n old recent) {x : ℤ} (shown : n.engine.lookup x ≠ none) :
    n'.engine.lookup x ≠ none := by
  rw [flushed.lookup_eq layout]
  · exact shown
  · intro tombstoned
    rw [← lookup_captureDeletes, LSMEngine.lookup, if_pos tombstoned] at shown
    exact absurd rfl shown

/-- An insert shows every id of its batch, also when it flushes. -/
theorem Ran.shows_inserted {rows : List (Row dim)} (ran : Ran env n (old ++ recent) (.insert rows) n')
    (layout : Layout env n old recent) {x : ℤ} (listed : x ∈ batchIds rows) :
    n'.engine.lookup x ≠ none := by
  have written : Dict.lastWrite rows x ≠ none := fun none =>
    Dict.lastWrite_eq_none_iff.mp none listed
  have applied : ∀ wal lsn, (LSMEngine.applyInsert n wal lsn rows).engine.lookup x ≠ none := by
    intro wal lsn none
    rw [lookup_applyInsert] at none
    exact written (Option.or_eq_none_iff.mp none).1
  cases ran with
  | insert appended room => exact applied _ _
  | insertFlush appended full flushed =>
      exact flushed.lookup_of_shown
        (layout.applyInsert appended.holds appended.opened appended.lastLsn) (applied _ _)

/-- After a run that ends with an insert, the engine shows the batch. -/
theorem shows_of_history {config : EngineConfig} {ops : List (Op dim)} {rows : List (Row dim)}
    (int64 : ∀ op ∈ ops ++ [.insert rows], op.Int64)
    (ran : Node.history env config (ops ++ [.insert rows]) = .ok n) :
    ∃ old recent, Layout env n old recent ∧ ∀ x ∈ batchIds rows, n.engine.lookup x ≠ none := by
  obtain ⟨old, recent, layout, last⟩ := history_carries (C := Op.Int64)
    (R := fun history n _ _ => ∀ rows, history.getLast? = some (.insert rows) →
      ∀ x ∈ batchIds rows, n.engine.lookup x ≠ none)
    (fun _ int64 => int64) (fun n _ rows none => by cases none)
    (fun history n old recent op n' layout _ _ step => by
      obtain ⟨old', recent', after⟩ := step.layout layout
      refine ⟨old', recent', after, fun rows last x listed => ?_⟩
      rw [List.getLast?_concat, Option.some.injEq] at last
      subst last
      exact step.shows_inserted layout listed) int64 ran
  exact ⟨old, recent, layout, last rows List.getLast?_concat⟩

/-- No negative id is far from its own vector when there is a slot for every row. -/
theorem negativesFar_forall_iff {l2 : Vec dim → Vec dim → D} {rows : List (Row dim)} :
    (∀ q topK, NegativesFar l2 rows q topK) ↔ ∀ x ∈ batchIds rows, 0 ≤ x := by
  constructor
  · intro far x listed
    rcases List.mem_map.mp listed with ⟨row, member, rfl⟩
    by_contra negative
    have many := far row.2 rows.length row member (not_le.mp negative)
    have fewer : rows.countP (fun other => l2 row.2 other.2 < l2 row.2 row.2) < rows.length :=
      List.countP_lt_length_iff.mpr ⟨row, member, decide_eq_false (lt_irrefl _)⟩
    omega
  · intro natural q topK row member negative
    exact absurd (natural row.1 (List.mem_map_of_mem member)) (not_le.mpr negative)

/-- **When only unfilled slots are dropped.**  For the rows of an acknowledged insert, both
searches keep all nearest rows exactly when the rows of negative id are far, so for every
query and number of slots exactly when no id is negative; and an acknowledged id is found,
before a flush and after it, exactly when it is not negative. -/
theorem unfilled_slots_iff {config : EngineConfig} {ops : List (Op dim)} {rows : List (Row dim)}
    (nodup : (batchIds rows).Nodup) (int64 : ∀ op ∈ ops ++ [.insert rows], op.Int64)
    (ran : Node.history env config (ops ++ [.insert rows]) = .ok n) :
    (∀ (l2 : Vec dim → Vec dim → D) (q : Vec dim) (topK : ℕ),
      (MemTableKeepsAll l2 rows q topK ↔ NegativesFar l2 rows q topK) ∧
        (IndexKeepsAll l2 rows q topK ↔ NegativesFar l2 rows q topK)) ∧
    (∀ l2 : Vec dim → Vec dim → D,
      (∀ q topK, MemTableKeepsAll l2 rows q topK ∧ IndexKeepsAll l2 rows q topK) ↔
        ∀ x ∈ batchIds rows, 0 ≤ x) ∧
    ∀ (faiss : Faiss dim D) (q : Vec dim), ∀ x ∈ batchIds rows,
      (n.Finds faiss q x ↔ 0 ≤ x) ∧
        ∀ n', n.run env .flush = .ok n' → (n'.Finds faiss q x ↔ 0 ≤ x) := by
  refine ⟨fun l2 q topK => ⟨memTableKeepsAll_iff nodup, indexKeepsAll_iff⟩, fun l2 => ?_, ?_⟩
  · simp only [memTableKeepsAll_iff nodup, indexKeepsAll_iff, and_self]
    exact negativesFar_forall_iff
  · intro faiss q x listed
    obtain ⟨old, recent, layout, shown⟩ := shows_of_history int64 ran
    refine ⟨layout.finds_iff faiss q (shown x listed), fun n' flush => ?_⟩
    have flushRan : Ran env n (old ++ recent) .flush n' := run_cases layout trivial flush
    cases flushRan with
    | flush flushed =>
        obtain ⟨log, after⟩ := flushed.layout layout
        exact after.finds_iff faiss q (flushed.lookup_of_shown layout (shown x listed))

end Engine

/-- Two rows of natural id and one of negative id, which is nearer to one query than a slot
and farther from another. -/
def mixedBatch : List (Row 1) := [(-5, unitVec), (3, zeroVec 1), (4, unitVec)]

theorem unfilled_slots_iff_mixedBatch :
    ∃ n flushed, Node.history Env.counted ⟨0, 1, 10, 2⟩
        [.insert [(-5, zeroVec 1), (9, unitVec)], .flush, .insert mixedBatch] = .ok n ∧
      n.run Env.counted .flush = .ok flushed ∧
      (MemTableKeepsAll squaredL2 mixedBatch (zeroVec 1) 1 ∧
        IndexKeepsAll squaredL2 mixedBatch (zeroVec 1) 1) ∧
      (¬ MemTableKeepsAll squaredL2 mixedBatch unitVec 1 ∧
        ¬ IndexKeepsAll squaredL2 mixedBatch unitVec 1) ∧
      (n.Finds (bruteForce 1) unitVec 4 ∧ flushed.Finds (bruteForce 1) unitVec 4) ∧
      ¬ n.Finds (bruteForce 1) unitVec (-5) ∧ ¬ flushed.Finds (bruteForce 1) unitVec (-5) := by
  have evaluated : (Node.history Env.counted ⟨0, 1, 10, 2⟩
      [.insert [(-5, zeroVec 1), (9, unitVec)], .flush, .insert mixedBatch] >>= fun n =>
        n.run Env.counted .flush).isOk = true := by
    decide +kernel
  obtain ⟨flushed, ran⟩ := exists_of_isOk evaluated
  obtain ⟨n, ran, flush⟩ := ok_of_bind ran
  have last : Node.history Env.counted ⟨0, 1, 10, 2⟩
      ([.insert [(-5, zeroVec 1), (9, unitVec)], .flush] ++ [.insert mixedBatch]) = .ok n := ran
  obtain ⟨kept, -, found⟩ := unfilled_slots_iff (D := ℤ) (by decide) (by decide) last
  have far : NegativesFar squaredL2 mixedBatch (zeroVec 1) 1 := by decide +kernel
  have near : ¬ NegativesFar squaredL2 mixedBatch unitVec 1 := by decide +kernel
  have natural := found (bruteForce 1) unitVec 4 (by decide)
  have negative := found (bruteForce 1) unitVec (-5) (by decide)
  refine ⟨n, flushed, ran, flush, ⟨(kept _ _ 1).1.mpr far, (kept _ _ 1).2.mpr far⟩,
    ⟨fun keeps => near ((kept _ _ 1).1.mp keeps), fun keeps => near ((kept _ _ 1).2.mp keeps)⟩,
    ⟨natural.1.mpr (by decide), (natural.2 flushed flush).mpr (by decide)⟩, fun finds => ?_,
    fun finds => ?_⟩
  · exact absurd (negative.1.mp finds) (by decide)
  · exact absurd ((negative.2 flushed flush).mp finds) (by decide)

/-- An insert of one row, whose id is negative. -/
def negativeId : List (Op 1) := [.insert [(-5, unitVec)]]

/-- The insert is acknowledged, and the only row there is is found neither before a flush
nor after it. -/
theorem negative_id_dropped :
    (do
      let n : Node 1 ← Node.history Env.counted ⟨0, 1, 10, 2⟩ negativeId
      let before ← LSMEngine.search (bruteForce 1) unitVec.toList 1 1 none n
      let flushed ← n.run Env.counted .flush
      let after ← LSMEngine.search (bruteForce 1) unitVec.toList 1 1 none flushed
      .ok (n.engine.wal.lastLsn, before.1, after.1)) = .ok (1, [], []) ∧
      ¬ MemTableKeepsAll squaredL2 [(-5, unitVec)] unitVec 1 ∧
      ¬ IndexKeepsAll squaredL2 [(-5, unitVec)] unitVec 1 := by
  refine ⟨by decide +kernel, fun keeps => ?_, fun keeps => ?_⟩
  · exact absurd ((memTableKeepsAll_iff (by decide)).mp keeps) (by decide +kernel)
  · exact absurd (indexKeepsAll_iff.mp keeps) (by decide +kernel)

end VecScale
