import VecScale.Lib.LateFilter
import VecScale.Reader.Cache
import VecScale.Storage.Retrieval

/-!
# Filtering after the cut

The engine and the reader both cut every segment to its `topK` nearest rows and
take the hidden rows out afterwards, so hidden rows can use up the slots.

* `SearchPlan.parts`, `SegmentCache.parts`: what a search cuts, and what it hides;
* `nearest_search_iff`, `nearest_searchAll_iff`: with exact indexes, a search lists the
  nearest surviving rows exactly when its cuts cover them;
* `search_filters_late_iff`: which rows of the segments and of the memtable let it do so.
-/

namespace VecScale

variable {dim : ℕ} {D : Type} [LinearOrder D] (faiss : Faiss dim D)

/-- The hits that are left when every segment is cut and filtered. -/
def SegmentCache.retrieved (cache : SegmentCache dim) (q : Vec dim) (topK nprobe snapshotId : ℕ) :
    List (ℤ × D) :=
  undeleted (cache.searchResults faiss q topK nprobe snapshotId) cache.tombstones

/-- What the reader retrieves survives its filters. -/
theorem SegmentCache.mem_survivors_of_retrieved (cache : SegmentCache dim) (q : Vec dim)
    (topK nprobe s : ℕ) : ∀ hit ∈ cache.retrieved faiss q topK nprobe s,
      hit ∈ faiss.measure q (cache.survivors s) := by
  intro hit retrieved
  rcases hit with ⟨x, d⟩
  rcases mem_undeleted.mp retrieved with ⟨⟨hits, listed, found⟩, -⟩
  rcases List.mem_map.mp listed with ⟨e, member, rfl⟩
  obtain ⟨visible, v, row, same⟩ := mem_of_filtered faiss found
  refine (Faiss.mem_measure faiss).mpr ⟨v, ?_, same⟩
  refine List.mem_flatMap.mpr ⟨e, member, ?_⟩
  exact List.mem_filter.mpr ⟨row, decide_eq_true visible⟩

/-! ## The parts of a search -/

/-- The rows of an index, as distances from a query. -/
def Faiss.rowsOf (q : Vec dim) (index : IVFFlatIndex dim) : List (ℤ × D) :=
  faiss.measure q index.rows

/-- What the engine cuts: the visible segments, and the memtable, which it searches as a
flat index. -/
def SearchPlan.parts (plan : SearchPlan dim) : List (FilteredPart (IVFFlatIndex dim) ℤ) :=
  (plan.segments.map fun seg => ⟨seg.index, plan.hiddenIds seg⟩) ++
    [⟨⟨none, plan.memRows⟩, plan.deletedIds⟩]

/-- What a reader cuts: the visible segments. -/
def SegmentCache.parts (cache : SegmentCache dim) (snapshotId : ℕ) :
    List (FilteredPart (IVFFlatIndex dim) ℤ) :=
  (cache.visibleSegments snapshotId).map fun e => ⟨e.2.index, cache.hiddenIds e.1⟩

theorem Faiss.measure_eq {any : Faiss dim D} (measured : any.l2 = faiss.l2) :
    any.measure = faiss.measure := by
  funext q rows
  rw [Faiss.measure, measured, Faiss.measure]

theorem Faiss.rowsOf_eq {any : Faiss dim D} (measured : any.l2 = faiss.l2) :
    any.rowsOf = faiss.rowsOf := by
  funext q index
  rw [Faiss.rowsOf, faiss.measure_eq measured, Faiss.rowsOf]

theorem Faiss.filter_measure (q : Vec dim) (rows : List (Row dim)) (hidden : Finset ℤ) :
    (faiss.measure q rows).filter (fun p => p.1 ∉ hidden) =
      faiss.measure q (rows.filter fun row => row.1 ∉ hidden) := by
  rw [Faiss.measure, List.filter_map]
  rfl

theorem SearchPlan.partsKept_eq (plan : SearchPlan dim) (q : Vec dim) :
    partsKept (faiss.rowsOf q) plan.parts = faiss.measure q plan.survivors := by
  simp only [partsKept, SearchPlan.parts, List.flatMap_append, List.flatMap_map, List.flatMap_cons,
    List.flatMap_nil, List.append_nil, Faiss.rowsOf, Faiss.filter_measure]
  simp only [SearchPlan.survivors, Faiss.measure, List.map_append, List.map_flatMap]

theorem SegmentCache.partsKept_eq (cache : SegmentCache dim) (q : Vec dim) (s : ℕ) :
    partsKept (faiss.rowsOf q) (cache.parts s) = faiss.measure q (cache.survivors s) := by
  simp only [partsKept, SegmentCache.parts, List.flatMap_map, Faiss.rowsOf, Faiss.filter_measure]
  simp only [SegmentCache.survivors, Faiss.measure, List.map_flatMap]

/-- The memtable search reads as a flat index over its rows. -/
theorem MemTable.mem_search_iff_filled (mem : MemTable dim) (q : Vec dim) (topK nprobe : ℕ)
    (snapshot : Option ℕ) (hit : ℤ × D) :
    hit ∈ mem.search faiss q topK snapshot ↔
      hit ∈ (⟨none, mem.toArrays snapshot⟩ : IVFFlatIndex dim).filled faiss q topK nprobe ∧
        0 ≤ hit.1 := by
  have flat := faiss.flat_nearest (mem.toArrays snapshot) q topK
  dsimp only [MemTable.search, IVFFlatIndex.filled]
  split
  · next empty =>
      have none : faiss.flatSearch (mem.toArrays snapshot) q topK = [] := by
        rw [← List.length_eq_zero_iff, flat.length, List.length_map, empty]
        exact min_eq_right (Nat.zero_le _)
      rw [none]
      simp
  · rw [List.mem_filter, decide_eq_true_eq]
    apply and_congr_left'
    rcases le_total topK (mem.toArrays snapshot).length with fits | few
    · rw [min_eq_left fits]
    · -- with room for every row, both list all of them
      have all := faiss.flat_nearest (mem.toArrays snapshot) q (mem.toArrays snapshot).length
      rw [min_eq_right few, flat.mem_iff (by simpa using few), all.mem_iff (by simp)]

/-- A filtered hit of a segment was in its cut, is an answer and is not hidden. -/
theorem mem_filtered_iff {seg : Segment dim} {q : Vec dim} {topK nprobe : ℕ} {hidden : Finset ℤ}
    {hit : ℤ × D} : hit ∈ filterResultIds (seg.search faiss q topK nprobe) hidden ↔
      (hit ∈ seg.index.filled faiss q topK nprobe ∧ 0 ≤ hit.1) ∧ hit.1 ∉ hidden := by
  rw [filterResultIds, Segment.search, IVFFlatIndex.search_eq, List.mem_filter, List.mem_filter,
    decide_eq_true_eq, decide_eq_true_eq]

theorem LSMEngine.mem_retrieved_iff_shown {n : Node dim} {plan : SearchPlan dim} {s : ℕ}
    (planned : LSMEngine.searchPlan n s = .ok plan) (q : Vec dim) (topK nprobe : ℕ) (hit : ℤ × D) :
    hit ∈ LSMEngine.retrieved faiss n plan q topK nprobe s ↔
      hit ∈ cutsShown (fun x => 0 ≤ x) (fun index => index.filled faiss q topK nprobe)
        plan.parts := by
  have live : ∀ seg, hit.1 ∉ plan.hiddenIds seg → hit.1 ∉ plan.deletedIds :=
    fun seg shown deleted => shown (Finset.mem_union_left _ (Finset.mem_union_left _ deleted))
  have memRows := LSMEngine.memRows_of_searchPlan planned
  rw [mem_retrieved, MemTable.mem_search_iff_filled faiss _ q topK nprobe, ← memRows,
    mem_cutsShown]
  simp only [SearchPlan.parts, List.mem_append, List.mem_map, List.mem_singleton,
    decide_eq_true_eq, mem_filtered_iff]
  constructor
  · rintro ⟨⟨seg, visible, found, shown⟩ | found, undeleted⟩
    · exact ⟨_, Or.inl ⟨seg, visible, rfl⟩, found, shown⟩
    · exact ⟨_, Or.inr rfl, found, undeleted⟩
  · rintro ⟨part, ⟨seg, visible, rfl⟩ | rfl, found, shown⟩
    · exact ⟨Or.inl ⟨seg, visible, found, shown⟩, live seg shown⟩
    · exact ⟨Or.inr found, shown⟩

theorem SegmentCache.mem_retrieved_iff_shown (cache : SegmentCache dim) (q : Vec dim)
    (topK nprobe s : ℕ) (hit : ℤ × D) :
    hit ∈ cache.retrieved faiss q topK nprobe s ↔
      hit ∈ cutsShown (fun x => 0 ≤ x) (fun index => index.filled faiss q topK nprobe)
        (cache.parts s) := by
  rw [retrieved, mem_undeleted, mem_cutsShown]
  simp only [searchResults, SegmentCache.parts, List.mem_map, decide_eq_true_eq]
  constructor
  · rintro ⟨⟨hits, ⟨e, visible, rfl⟩, found⟩, -⟩
    rw [mem_filtered_iff] at found
    exact ⟨_, ⟨e, visible, rfl⟩, found⟩
  · rintro ⟨part, ⟨e, visible, rfl⟩, found⟩
    refine ⟨⟨_, ⟨e, visible, rfl⟩, (mem_filtered_iff faiss).mpr found⟩, fun deleted => ?_⟩
    exact found.2 (Finset.mem_union_left _ deleted)

/-! ## Indexes that break ties at will -/

/-- An exact index library that, asked for the nearest `topK` rows of `q`, takes those that
`choice` names. -/
noncomputable def Faiss.choosing (q : Vec dim) (topK : ℕ)
    (choice : IVFFlatIndex dim → List (ℤ × D)) : Faiss dim D :=
  open Classical in
  let cut : IVFFlatIndex dim → Vec dim → ℕ → List (ℤ × D) := fun index q' k =>
    if q' = q ∧ k = topK ∧ Nearest k (faiss.measure q' index.rows) (choice index) then choice index
    else nsmallest k (faiss.measure q' index.rows) Prod.snd
  have nearest : ∀ index q' k, Nearest k (faiss.measure q' index.rows) (cut index q' k) := by
    intro index q' k
    dsimp only [cut]
    split
    · next chosen => exact chosen.2.2
    · exact nearest_nsmallest k _
  { l2 := faiss.l2
    far := faiss.far
    flatSearch := fun rows => cut ⟨none, rows⟩
    ivfSearch := fun nlist _ rows => cut ⟨some nlist, rows⟩
    flat_nearest := fun rows => nearest ⟨none, rows⟩
    ivf_mem := fun nlist _ rows q' k _ found => (nearest ⟨some nlist, rows⟩ q' k).mem found
    ivf_nearest := fun nlist _ rows q' k _ => nearest ⟨some nlist, rows⟩ q' k }

theorem IVFFlatIndex.exactAt_choosing (q : Vec dim) (topK : ℕ)
    (choice : IVFFlatIndex dim → List (ℤ × D)) (index : IVFFlatIndex dim) (q' : Vec dim)
    (nprobe : ℕ) : index.ExactAt (faiss.choosing q topK choice) q' nprobe := by
  intro k
  rcases index with ⟨ivf, rows⟩
  cases ivf with
  | none => exact (faiss.choosing q topK choice).flat_nearest rows q' k
  | some nlist => exact (faiss.choosing q topK choice).ivf_nearest nlist nlist rows q' k le_rfl

theorem IVFFlatIndex.filled_choosing {q : Vec dim} {topK : ℕ}
    {choice : IVFFlatIndex dim → List (ℤ × D)} {index : IVFFlatIndex dim}
    (near : Nearest topK (faiss.rowsOf q index) (choice index)) (nprobe : ℕ) :
    index.filled (faiss.choosing q topK choice) q topK nprobe = choice index := by
  rcases index with ⟨ivf, rows⟩
  cases ivf with
  | none => exact if_pos ⟨rfl, rfl, near⟩
  | some nlist => exact if_pos ⟨rfl, rfl, near⟩

/-- The cuts cover what is kept exactly when those of every exact index library do. -/
theorem cutsCover_iff_filled (q : Vec dim) (topK nprobe : ℕ) (answer : ℤ → Bool)
    (parts : List (FilteredPart (IVFFlatIndex dim) ℤ)) :
    CutsCover topK answer (faiss.rowsOf q) parts ↔
      ∀ any : Faiss dim D, any.l2 = faiss.l2 →
        (∀ part ∈ parts, part.source.ExactAt any q nprobe) →
        Covered topK (partsKept (faiss.rowsOf q) parts)
          (cutsShown answer (fun index => index.filled any q topK nprobe) parts) := by
  constructor
  · intro cover any measured exact
    apply cover
    intro part listed
    have near := exact part listed topK
    rwa [Faiss.measure, measured] at near
  · intro exact choice near
    have covered := exact (faiss.choosing q topK choice) rfl
      fun part _ => part.source.exactAt_choosing faiss q topK choice q nprobe
    refine (Covered.congr fun p => ?_).mp covered
    rw [mem_cutsShown, mem_cutsShown]
    refine exists_congr fun part => and_congr_right fun listed => ?_
    rw [IVFFlatIndex.filled_choosing faiss (near part listed)]

/-! ## What a search lists -/

/-- A search lists the nearest surviving rows exactly when its cuts cover them. -/
theorem LSMEngine.nearest_search_iff {n : Node dim} {snapshotId : Option ℕ}
    {plan : SearchPlan dim} (started : n.engine.started = true)
    (planned : LSMEngine.searchPlan n (LSMEngine.snapshotOf n snapshotId) = .ok plan)
    (q : Vec dim) (topK nprobe : ℕ) :
    ∃ hits after, LSMEngine.search faiss q.toList topK nprobe snapshotId n = .ok (hits, after) ∧
      (NearestById topK (faiss.measure q plan.survivors) hits ↔
        Covered topK (partsKept (faiss.rowsOf q) plan.parts)
          (cutsShown (fun x => 0 ≤ x) (fun index => index.filled faiss q topK nprobe)
            plan.parts)) := by
  obtain ⟨after, searched⟩ := LSMEngine.search_eq faiss n q topK nprobe snapshotId started
  rw [planned] at searched
  refine ⟨_, after, searched, ?_⟩
  rw [(nearestById_mergeResults _ topK _).iff_covered
    (LSMEngine.mem_survivors_of_retrieved faiss planned q topK nprobe), plan.partsKept_eq]
  exact Covered.congr (LSMEngine.mem_retrieved_iff_shown faiss planned q topK nprobe)

theorem SegmentCache.nearest_searchAll_iff (cache : SegmentCache dim) (q : Vec dim)
    (topK nprobe s : ℕ) :
    NearestById topK (faiss.measure q (cache.survivors s))
        (cache.searchAll faiss q topK nprobe s).1 ↔
      Covered topK (partsKept (faiss.rowsOf q) (cache.parts s))
        (cutsShown (fun x => 0 ≤ x) (fun index => index.filled faiss q topK nprobe)
          (cache.parts s)) := by
  rw [SegmentCache.searchAll, (nearestById_mergeResults _ topK _).iff_covered
    (cache.mem_survivors_of_retrieved faiss q topK nprobe s), cache.partsKept_eq]
  exact Covered.congr (cache.mem_retrieved_iff_shown faiss q topK nprobe s)

/-- The memtable is searched exactly whatever the segments are. -/
theorem SearchPlan.exactAt_parts {plan : SearchPlan dim} {q : Vec dim} {nprobe : ℕ} :
    (∀ part ∈ plan.parts, part.source.ExactAt faiss q nprobe) ↔
      ∀ seg ∈ plan.segments, seg.index.ExactAt faiss q nprobe := by
  simp only [SearchPlan.parts, List.forall_mem_append, List.forall_mem_map,
    List.forall_mem_singleton]
  exact and_iff_left (IVFFlatIndex.exactAt_flat faiss rfl q nprobe)

/-- An engine that stores no more rows than survive hides none of them, and what it retrieves
covers all. -/
theorem LSMEngine.covered_of_length_le {env : Env} {n : Node dim} {plan : SearchPlan dim} {s : ℕ}
    (wf : SegmentsWf env n.engine n.storage) (at_s : PlanAt n s plan)
    (planned : LSMEngine.searchPlan n s = .ok plan) {q : Vec dim} {nprobe : ℕ}
    (exact : ∀ seg ∈ plan.segments, seg.index.ExactAt faiss q nprobe)
    (natural : ∀ row ∈ plan.survivors, 0 ≤ row.1)
    (kept : n.engine.storedRows.length ≤ plan.survivors.length) (topK : ℕ) :
    Covered topK (faiss.measure q plan.survivors)
      (LSMEngine.retrieved faiss n plan q topK nprobe s) := by
  rw [Covered.congr (LSMEngine.mem_retrieved_iff_shown faiss planned q topK nprobe),
    ← plan.partsKept_eq]
  have rows : (plan.parts.flatMap fun part => faiss.rowsOf q part.source) =
      faiss.measure q (plan.segments.flatMap Segment.rows ++ plan.memRows) := by
    simp only [SearchPlan.parts, List.flatMap_append, List.flatMap_map, List.flatMap_cons,
      List.flatMap_nil, List.append_nil, Faiss.rowsOf, Faiss.measure, List.map_append,
      List.map_flatMap, Segment.rows]
  have stored : (plan.segments.flatMap Segment.rows ++ plan.memRows).length ≤
      n.engine.storedRows.length := by
    have visible : (plan.segments.flatMap Segment.rows).Sublist
        (n.engine.segments.flatMap Segment.rows) := by
      rw [at_s.segments]
      exact List.Sublist.flatMap List.filter_sublist Segment.rows
    have fewer := n.engine.memtable.length_toArrays_le s
    have segments := visible.length_le
    rw [LSMEngine.storedRows, List.length_append, List.length_append, at_s.memRows]
    omega
  have shown : ∀ part ∈ plan.parts, ∀ p ∈ faiss.rowsOf q part.source, p.1 ∉ part.hidden := by
    apply shown_of_length_le
    rw [rows, plan.partsKept_eq, faiss.length_measure, faiss.length_measure]
    exact stored.trans kept
  have ids : ∀ index : IVFFlatIndex dim, (faiss.rowsOf q index).map Prod.fst = batchIds index.rows :=
    fun index => by
      rw [Faiss.rowsOf, Faiss.measure, List.map_map]
      rfl
  refine (cutsCover_iff_filled faiss q topK nprobe _ plan.parts).mp
    (cutsCover_of_shown (fun part listed => ?_) fun part listed p inside => ?_) faiss rfl
    ((SearchPlan.exactAt_parts faiss).mpr exact)
  · rw [ids]
    simp only [SearchPlan.parts, List.mem_append, List.mem_map, List.mem_singleton] at listed
    rcases listed with ⟨seg, visible, rfl⟩ | rfl
    · exact at_s.nodup wf seg visible
    · rw [at_s.memRows]
      exact n.engine.memtable.nodup_toArrays (some s)
  · have visible := shown part listed p inside
    have survives : p ∈ faiss.measure q plan.survivors := by
      rw [← plan.partsKept_eq]
      exact mem_partsKept.mpr ⟨part, listed, inside, visible⟩
    obtain ⟨v, row, -⟩ := (Faiss.mem_measure faiss).mp survives
    exact ⟨decide_eq_true (natural _ row), visible⟩

/-- **Filtering late.**  With exact indexes, a search of the engine or of a reader lists the
`topK` nearest of the rows that survive its filters, whatever rows of equal distance the
indexes prefer, exactly when the cuts of its parts cover these rows.  When no cut falls
between rows of equal distance, that is to say: every surviving row is matched by one of its
id, no farther, with fewer than `topK` rows of its own part nearer, or by `topK` such ids. -/
theorem search_filters_late_iff :
    (∀ (n : Node dim) (q : Vec dim) (topK nprobe : ℕ) (snapshotId : Option ℕ)
      (plan : SearchPlan dim), n.engine.started = true →
      LSMEngine.searchPlan n (LSMEngine.snapshotOf n snapshotId) = .ok plan →
      ((∀ any : Faiss dim D, any.l2 = faiss.l2 →
          (∀ seg ∈ plan.segments, seg.index.ExactAt any q nprobe) →
          ∃ hits after,
            LSMEngine.search any q.toList topK nprobe snapshotId n = .ok (hits, after) ∧
            NearestById topK (faiss.measure q plan.survivors) hits) ↔
        CutsCover topK (fun x => 0 ≤ x) (faiss.rowsOf q) plan.parts) ∧
      ((∀ seg ∈ plan.segments, seg.index.ExactAt faiss q nprobe) →
        (∀ part ∈ plan.parts, CutsCleanly topK (faiss.rowsOf q part.source)) →
        ∃ hits after,
          LSMEngine.search faiss q.toList topK nprobe snapshotId n = .ok (hits, after) ∧
          (NearestById topK (faiss.measure q plan.survivors) hits ↔
            Covered topK (faiss.measure q plan.survivors)
              (cutsShown (fun x => 0 ≤ x) (fun index => inReach topK (faiss.rowsOf q index))
                plan.parts)))) ∧
    ∀ (cache : SegmentCache dim) (q : Vec dim) (topK nprobe s : ℕ),
      ((∀ any : Faiss dim D, any.l2 = faiss.l2 →
          (∀ e ∈ cache.visibleSegments s, e.2.index.ExactAt any q nprobe) →
          NearestById topK (faiss.measure q (cache.survivors s))
            (cache.searchAll any q topK nprobe s).1) ↔
        CutsCover topK (fun x => 0 ≤ x) (faiss.rowsOf q) (cache.parts s)) ∧
      ((∀ e ∈ cache.visibleSegments s, e.2.index.ExactAt faiss q nprobe) →
        (∀ part ∈ cache.parts s, CutsCleanly topK (faiss.rowsOf q part.source)) →
        (NearestById topK (faiss.measure q (cache.survivors s))
            (cache.searchAll faiss q topK nprobe s).1 ↔
          Covered topK (faiss.measure q (cache.survivors s))
            (cutsShown (fun x => 0 ≤ x) (fun index => inReach topK (faiss.rowsOf q index))
              (cache.parts s)))) := by
  constructor
  · intro n q topK nprobe snapshotId plan started planned
    refine ⟨?_, fun exact clean => ?_⟩
    · rw [cutsCover_iff_filled faiss q topK nprobe]
      refine forall_congr' fun any => forall_congr' fun measured => ?_
      obtain ⟨hits, after, searched, nearest⟩ :=
        LSMEngine.nearest_search_iff any started planned q topK nprobe
      rw [faiss.measure_eq measured, faiss.rowsOf_eq measured] at nearest
      rw [SearchPlan.exactAt_parts, ← nearest]
      refine forall_congr' fun _ => ⟨?_, fun found => ⟨hits, after, searched, found⟩⟩
      rintro ⟨hits', after', searched', found⟩
      rw [searched] at searched'
      cases searched'
      exact found
    · obtain ⟨hits, after, searched, nearest⟩ :=
        LSMEngine.nearest_search_iff faiss started planned q topK nprobe
      have near := (SearchPlan.exactAt_parts faiss).mpr exact
      rw [covered_cuts_iff (fun part listed => near part listed topK) clean,
        plan.partsKept_eq] at nearest
      exact ⟨hits, after, searched, nearest⟩
  · intro cache q topK nprobe s
    have exactAt : ∀ any : Faiss dim D, (∀ part ∈ cache.parts s, part.source.ExactAt any q nprobe) ↔
        ∀ e ∈ cache.visibleSegments s, e.2.index.ExactAt any q nprobe := fun any =>
      List.forall_mem_map
    refine ⟨?_, fun exact clean => ?_⟩
    · rw [cutsCover_iff_filled faiss q topK nprobe]
      refine forall_congr' fun any => forall_congr' fun measured => ?_
      have nearest := cache.nearest_searchAll_iff any q topK nprobe s
      rw [faiss.measure_eq measured, faiss.rowsOf_eq measured] at nearest
      rw [exactAt, nearest]
    · have near := (exactAt faiss).mpr exact
      rw [cache.nearest_searchAll_iff faiss q topK nprobe s,
        covered_cuts_iff (fun part listed => near part listed topK) clean, cache.partsKept_eq]

/-- Two rows in one segment, the nearer one deleted. -/
def crowdedSegment : List (Op 1) :=
  [.insert [(1, zeroVec 1), (2, unitVec)], .flush, .delete [1]]

theorem crowdedSegment_search :
    ∃ (final after : Node 1) (plan : SearchPlan 1),
      Node.history Env.counted ⟨0, 1, 10, 2⟩ crowdedSegment = .ok final ∧
      LSMEngine.searchPlan final final.engine.wal.lastLsn = .ok plan ∧
      LSMEngine.search (bruteForce 1) (zeroVec 1).toList 1 1 none final = .ok ([], after) ∧
      plan.survivors = [(2, unitVec)] ∧ final.engine.started = true ∧
      ∀ part ∈ plan.parts, CutsCleanly 1 ((bruteForce 1).rowsOf (zeroVec 1) part.source) := by
  have evaluated : (do
      let final ← Node.history Env.counted ⟨0, 1, 10, 2⟩ crowdedSegment
      let plan ← LSMEngine.searchPlan final final.engine.wal.lastLsn
      let found ← LSMEngine.search (bruteForce 1) (zeroVec 1).toList 1 1 none final
      .ok (decide (plan.survivors = [(2, unitVec)] ∧ final.engine.started = true ∧
        (∀ part ∈ plan.parts, CutsCleanly 1 ((bruteForce 1).rowsOf (zeroVec 1) part.source)) ∧
        found.1 = []))) = .ok true := by
    decide +kernel
  obtain ⟨final, ran, rest⟩ := ok_of_bind evaluated
  obtain ⟨plan, planned, rest⟩ := ok_of_bind rest
  obtain ⟨⟨hits, after⟩, searched, rest⟩ := ok_of_bind rest
  rw [Except.ok.injEq, decide_eq_true_eq] at rest
  rcases rest with ⟨survivors, started, clean, rfl⟩
  exact ⟨final, after, plan, ran, planned, searched, survivors, started, clean⟩

/-- The deleted row takes the only slot, and the live row is not returned. -/
theorem hidden_row_crowds_out :
    (do
      let final ← Node.history Env.counted ⟨0, 1, 10, 2⟩ crowdedSegment
      let plan ← LSMEngine.searchPlan final final.engine.wal.lastLsn
      let found ← LSMEngine.search (bruteForce 1) (zeroVec 1).toList 1 1 none final
      .ok (plan.survivors, found.1)) = .ok ([(2, unitVec)], []) ∧
    ¬ NearestById 1 ((bruteForce 1).measure (zeroVec 1) [(2, unitVec)]) [] := by
  obtain ⟨final, after, plan, ran, planned, searched, survivors, -⟩ := crowdedSegment_search
  refine ⟨?_, fun nearest => ?_⟩
  · simp only [ran, planned, searched, survivors, bind, Except.bind]
  · have length := nearest.length
    simp [rowIds, Faiss.measure] at length

/-- Two rows stand in the segment and one slot is asked for, so no row of the live id is in
reach. -/
theorem search_filters_late_iff_crowded :
    ∃ (final after : Node 1) (hits : List (ℤ × ℤ)) (plan : SearchPlan 1),
      LSMEngine.search (bruteForce 1) (zeroVec 1).toList 1 1 none final = .ok (hits, after) ∧
      (NearestById 1 ((bruteForce 1).measure (zeroVec 1) plan.survivors) hits ↔
        Covered 1 ((bruteForce 1).measure (zeroVec 1) plan.survivors)
          (cutsShown (fun x => 0 ≤ x)
            (fun index => inReach 1 ((bruteForce 1).rowsOf (zeroVec 1) index)) plan.parts)) := by
  obtain ⟨final, -, plan, -, planned, -, -, started, clean⟩ := crowdedSegment_search
  obtain ⟨-, counted⟩ := (search_filters_late_iff (bruteForce 1)).1 final (zeroVec 1) 1 1 none plan
    started planned
  obtain ⟨hits, after, searched, iff⟩ := counted (fun seg _ => seg.index.exactAt_bruteForce _ _) clean
  exact ⟨final, after, hits, plan, searched, iff⟩

end VecScale
