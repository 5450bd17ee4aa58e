import VecScale.Storage.Visible

/-!
# What the engine retrieves

Between the cut of every segment and the merge a search holds some rows of its
plan; `retrieved` are those rows with their distances.

* `mem_survivors_of_retrieved`: they survive the filters of the plan;
* `search_ok`: a search that returns has merged them;
* `mem_retrieved_iff`: an exact search with room for every row retrieves all that
  survives, negative ids aside.
-/

namespace VecScale

variable {dim : ℕ} {D : Type} [LinearOrder D] (faiss : Faiss dim D)

/-- The snapshot of a search. -/
def LSMEngine.snapshotOf (n : Node dim) (snapshotId : Option ℕ) : ℕ :=
  snapshotId.getD n.engine.wal.lastLsn

/-- The hits that are left when every segment is cut and filtered. -/
def LSMEngine.retrieved (n : Node dim) (plan : SearchPlan dim) (q : Vec dim)
    (topK nprobe snapshotId : ℕ) : List (ℤ × D) :=
  undeleted (searchResults faiss plan n.engine.memtable q topK nprobe snapshotId) plan.deletedIds

/-- A filtered hit of a segment is one of its rows that is not hidden. -/
theorem mem_of_filtered {seg : Segment dim} {q : Vec dim} {topK nprobe : ℕ} {hidden : Finset ℤ}
    {x : ℤ} {d : D} (found : (x, d) ∈ filterResultIds (seg.search faiss q topK nprobe) hidden) :
    x ∉ hidden ∧ ∃ v, (x, v) ∈ seg.rows ∧ d = faiss.l2 q v := by
  rw [filterResultIds, List.mem_filter, decide_eq_true_eq] at found
  rcases found with ⟨hit, shown⟩
  obtain ⟨-, measured⟩ := IVFFlatIndex.mem_of_search faiss hit
  exact ⟨shown, (Faiss.mem_measure faiss).mp measured⟩

/-- A memtable search masks a nearest selection of its rows. -/
theorem MemTable.search_eq (mem : MemTable dim) (q : Vec dim) (topK : ℕ) (snapshot : Option ℕ) :
    ∃ out, Nearest topK (faiss.measure q (mem.toArrays snapshot)) out ∧
      mem.search faiss q topK snapshot = out.filter fun hit => 0 ≤ hit.1 := by
  dsimp only [MemTable.search]
  split
  · next empty =>
      rw [List.length_eq_zero_iff] at empty
      rw [empty]
      refine ⟨[], ⟨List.Pairwise.nil, ⟨[], List.Perm.refl _, fun a member => ?_⟩, ?_⟩, rfl⟩
      · cases member
      · rw [faiss.length_measure]
        exact (min_eq_right (Nat.zero_le _)).symm
  · refine ⟨_, ?_, rfl⟩
    rw [← Nearest.min_iff, faiss.length_measure]
    exact faiss.flat_nearest _ q _

theorem MemTable.mem_of_search {mem : MemTable dim} {q : Vec dim} {topK : ℕ} {snapshot : Option ℕ}
    {x : ℤ} {d : D} (found : (x, d) ∈ mem.search faiss q topK snapshot) :
    ∃ v, (x, v) ∈ mem.toArrays snapshot ∧ d = faiss.l2 q v := by
  obtain ⟨out, near, searched⟩ := mem.search_eq faiss q topK snapshot
  rw [searched] at found
  exact (Faiss.mem_measure faiss).mp (near.mem (List.mem_filter.mp found).1)

theorem LSMEngine.memRows_of_searchPlan {n : Node dim} {plan : SearchPlan dim} {s : ℕ}
    (planned : LSMEngine.searchPlan n s = .ok plan) :
    plan.memRows = n.engine.memtable.toArrays (some s) := by
  cases ages : LSMEngine.latestSegmentSnapshotById n.storage
      (SnapshotManager.visibleSegments s n.engine.segments) with
  | error e =>
      simp only [LSMEngine.searchPlan, ages, bind, Except.bind] at planned
      cases planned
  | ok latest =>
      simp only [LSMEngine.searchPlan, ages, bind, Except.bind] at planned
      cases planned
      rfl

/-- What the engine retrieves comes from a segment or from the memtable. -/
theorem LSMEngine.mem_retrieved {n : Node dim} {plan : SearchPlan dim} {q : Vec dim}
    {topK nprobe s : ℕ} {hit : ℤ × D} :
    hit ∈ LSMEngine.retrieved faiss n plan q topK nprobe s ↔
      ((∃ seg ∈ plan.segments,
          hit ∈ filterResultIds (seg.search faiss q topK nprobe) (plan.hiddenIds seg)) ∨
        hit ∈ n.engine.memtable.search faiss q topK (some s)) ∧ hit.1 ∉ plan.deletedIds := by
  rw [retrieved, mem_undeleted]
  dsimp only [LSMEngine.searchResults]
  split
  · next empty => simp [List.length_eq_zero_iff.mp empty]
  · simp [or_and_right, exists_or]

/-- What the engine retrieves survives its filters. -/
theorem LSMEngine.mem_survivors_of_retrieved {n : Node dim} {plan : SearchPlan dim} {s : ℕ}
    (planned : LSMEngine.searchPlan n s = .ok plan) (q : Vec dim) (topK nprobe : ℕ) :
    ∀ hit ∈ LSMEngine.retrieved faiss n plan q topK nprobe s,
      hit ∈ faiss.measure q plan.survivors := by
  intro hit retrieved
  rcases hit with ⟨x, d⟩
  have memRows := LSMEngine.memRows_of_searchPlan planned
  rcases (LSMEngine.mem_retrieved faiss).mp retrieved with ⟨⟨seg, member, found⟩ | found, shown⟩
  · obtain ⟨visible, v, row, same⟩ := mem_of_filtered faiss found
    refine (Faiss.mem_measure faiss).mpr ⟨v, ?_, same⟩
    refine List.mem_append_left _ (List.mem_flatMap.mpr ⟨seg, member, ?_⟩)
    exact List.mem_filter.mpr ⟨row, decide_eq_true visible⟩
  · obtain ⟨v, row, same⟩ := MemTable.mem_of_search faiss found
    refine (Faiss.mem_measure faiss).mpr ⟨v, ?_, same⟩
    refine List.mem_append_right _ (List.mem_filter.mpr ⟨?_, decide_eq_true shown⟩)
    rw [memRows]
    exact row

/-- A search plans, and merges what its plan lets through. -/
theorem LSMEngine.search_eq (n : Node dim) (q : Vec dim) (topK nprobe : ℕ)
    (snapshotId : Option ℕ) (started : n.engine.started = true) :
    ∃ after : Node dim, LSMEngine.search faiss q.toList topK nprobe snapshotId n =
      (LSMEngine.searchPlan n (LSMEngine.snapshotOf n snapshotId)).map fun plan =>
        (mergeResults (LSMEngine.searchResults faiss plan n.engine.memtable q topK nprobe
          (LSMEngine.snapshotOf n snapshotId)) topK plan.deletedIds, after) := by
  have query : (⟨q.toList, q.toList_length⟩ : Vec dim) = q := rfl
  unfold LSMEngine.search LSMEngine.ensureStarted
  simp only [started, if_true, bind, Except.bind, q.toList_length, dite_true, query]
  cases snapshotId with
  | none => exact ⟨_, rfl⟩
  | some s => exact ⟨_, rfl⟩

/-- What a search that returns has planned and merged. -/
theorem LSMEngine.search_ok {n n' : Node dim} {q : Vec dim} {topK nprobe : ℕ}
    {snapshotId : Option ℕ} {hits : List (ℤ × D)}
    (ran : LSMEngine.search faiss q.toList topK nprobe snapshotId n = .ok (hits, n')) :
    ∃ plan, LSMEngine.searchPlan n (LSMEngine.snapshotOf n snapshotId) = .ok plan ∧
      hits = mergeResults (LSMEngine.searchResults faiss plan n.engine.memtable q topK nprobe
        (LSMEngine.snapshotOf n snapshotId)) topK plan.deletedIds := by
  have started : n.engine.started = true := by
    by_contra stopped
    unfold LSMEngine.search LSMEngine.ensureStarted at ran
    rw [if_neg stopped] at ran
    cases ran
  obtain ⟨after, searched⟩ := LSMEngine.search_eq faiss n q topK nprobe snapshotId started
  rw [searched] at ran
  cases planned : LSMEngine.searchPlan n (LSMEngine.snapshotOf n snapshotId) with
  | error e =>
      rw [planned] at ran
      cases ran
  | ok plan =>
      rw [planned] at ran
      cases ran
      exact ⟨plan, rfl, rfl⟩

/-! ## Exact search with room for every row -/

/-- The rows of all segments and of the memtable. -/
def LSMEngine.storedRows (engine : LSMEngine dim) : List (Row dim) :=
  engine.segments.flatMap Segment.rows ++ engine.memtable.toArrays none

theorem MemTable.toArrays_subset (mem : MemTable dim) (s : ℕ) :
    mem.toArrays (some s) ⊆ mem.toArrays none := by
  intro row member
  obtain ⟨e, entry, -, vector⟩ := MemTable.mem_toArrays.mp (show (row.1, row.2) ∈ _ from member)
  exact MemTable.mem_toArrays.mpr ⟨e, entry, rfl, vector⟩

theorem PlanAt.survivors_subset {n : Node dim} {plan : SearchPlan dim} {s : ℕ}
    (at_s : PlanAt n s plan) : plan.survivors ⊆ n.engine.storedRows := by
  intro row survives
  dsimp only [SearchPlan.survivors] at survives
  rcases List.mem_append.mp survives with inSegments | inMem
  · rcases List.mem_flatMap.mp inSegments with ⟨seg, visible, kept⟩
    rw [at_s.segments] at visible
    apply List.mem_append_left
    exact List.mem_flatMap.mpr ⟨seg, (mem_visibleSegments.mp visible).1, (List.mem_filter.mp kept).1⟩
  · have listed := (List.mem_filter.mp inMem).1
    rw [at_s.memRows] at listed
    exact List.mem_append_right _ (n.engine.memtable.toArrays_subset s listed)

theorem MemTable.length_toArrays_le (mem : MemTable dim) (s : ℕ) :
    (mem.toArrays (some s)).length ≤ (mem.toArrays none).length :=
  ((List.Nodup.of_map _ (mem.nodup_toArrays (some s))).subperm (mem.toArrays_subset s)).length_le

theorem MemTable.mem_search_iff {mem : MemTable dim} {q : Vec dim} {topK s : ℕ}
    (room : (mem.toArrays (some s)).length ≤ topK) {hit : ℤ × D} :
    hit ∈ mem.search faiss q topK (some s) ↔
      0 ≤ hit.1 ∧ hit ∈ faiss.measure q (mem.toArrays (some s)) := by
  obtain ⟨out, near, searched⟩ := mem.search_eq faiss q topK (some s)
  rw [searched, List.mem_filter, decide_eq_true_eq, and_comm,
    near.mem_iff ((faiss.length_measure q _).trans_le room)]

/-- With room for every row, an exact search retrieves the surviving rows of
non-negative id. -/
theorem LSMEngine.mem_retrieved_iff {n : Node dim} {plan : SearchPlan dim} {s : ℕ}
    (at_s : PlanAt n s plan) {q : Vec dim} {topK nprobe : ℕ}
    (exact : ∀ seg ∈ n.engine.segments, seg.index.ExactAt faiss q nprobe)
    (room : n.engine.storedRows.length ≤ topK)
    (planned : LSMEngine.searchPlan n s = .ok plan) {x : ℤ} {d : D} :
    (x, d) ∈ LSMEngine.retrieved faiss n plan q topK nprobe s ↔
      0 ≤ x ∧ (x, d) ∈ faiss.measure q plan.survivors := by
  rw [storedRows, List.length_append] at room
  have inSegment : ∀ seg ∈ plan.segments, ∀ hit : ℤ × D, hit ∈ seg.search faiss q topK nprobe ↔
      0 ≤ hit.1 ∧ hit ∈ faiss.measure q seg.rows := by
    intro seg visible hit
    rw [at_s.segments] at visible
    have listed := (mem_visibleSegments.mp visible).1
    have inside : seg.rows.Sublist (n.engine.segments.flatMap Segment.rows) :=
      List.sublist_flatten_of_mem (List.mem_map_of_mem listed)
    have fits : seg.index.rows.length ≤ _ := inside.length_le
    exact IVFFlatIndex.mem_search_iff faiss (exact seg listed) (by omega)
  have memRoom : (n.engine.memtable.toArrays (some s)).length ≤ topK := by
    have fewer := n.engine.memtable.length_toArrays_le s
    omega
  constructor
  · intro retrieved
    refine ⟨?_, LSMEngine.mem_survivors_of_retrieved faiss planned q topK nprobe _ retrieved⟩
    rcases (LSMEngine.mem_retrieved faiss).mp retrieved with ⟨⟨seg, visible, found⟩ | found, -⟩
    · exact ((inSegment seg visible _).mp (List.mem_filter.mp found).1).1
    · exact ((MemTable.mem_search_iff faiss memRoom).mp found).1
  · intro survives
    rcases survives with ⟨natural, survives⟩
    obtain ⟨v, row, same⟩ := (Faiss.mem_measure faiss).mp survives
    dsimp only [SearchPlan.survivors] at row
    rcases List.mem_append.mp row with inSegments | inMem
    · rcases List.mem_flatMap.mp inSegments with ⟨seg, visible, kept⟩
      rw [List.mem_filter, decide_eq_true_eq] at kept
      have live : x ∉ plan.deletedIds := fun deleted =>
        kept.2 (Finset.mem_union_left _ (Finset.mem_union_left _ deleted))
      have hit : (x, d) ∈ filterResultIds (seg.search faiss q topK nprobe) (plan.hiddenIds seg) :=
        List.mem_filter.mpr ⟨(inSegment seg visible _).mpr
          ⟨natural, (Faiss.mem_measure faiss).mpr ⟨v, kept.1, same⟩⟩, decide_eq_true kept.2⟩
      exact (LSMEngine.mem_retrieved faiss).mpr ⟨Or.inl ⟨seg, visible, hit⟩, live⟩
    · rw [List.mem_filter, decide_eq_true_eq, at_s.memRows] at inMem
      have hit : (x, d) ∈ n.engine.memtable.search faiss q topK (some s) :=
        (MemTable.mem_search_iff faiss memRoom).mpr
          ⟨natural, (Faiss.mem_measure faiss).mpr ⟨v, inMem.1, same⟩⟩
      exact (LSMEngine.mem_retrieved faiss).mpr ⟨Or.inr hit, inMem.2⟩

/-- The rows of the view at `s` with a non-negative id, as distances from a query. -/
def LSMEngine.ShownAt (engine : LSMEngine dim) (s : ℕ) (q : Vec dim) (x : ℤ) (d : D) : Prop :=
  0 ≤ x ∧ ∃ v, engine.lookupAt s x = some v ∧ d = faiss.l2 q v

/-- An exact search at `s` with room for every row lists the view at `s`. -/
theorem LSMEngine.search_exact {env : Env} {n : Node dim} (started : n.engine.started = true)
    (wf : SegmentsWf env n.engine n.storage) {q : Vec dim} {topK nprobe : ℕ}
    (exact : ∀ seg ∈ n.engine.segments, seg.index.ExactAt faiss q nprobe)
    (room : n.engine.storedRows.length ≤ topK) (s : ℕ) :
    ∃ hits after rows, LSMEngine.search faiss q.toList topK nprobe (some s) n = .ok (hits, after) ∧
      NearestById topK rows hits ∧ (rowIds rows).card ≤ topK ∧
      ∀ x d, Least rows x d ↔ n.engine.ShownAt faiss s q x d := by
  obtain ⟨plan, planned, at_s⟩ := searchPlan_of_wf wf s
  obtain ⟨after, searched⟩ := LSMEngine.search_eq faiss n q topK nprobe (some s) started
  have retrieved : ∀ x d, (x, d) ∈ LSMEngine.retrieved faiss n plan q topK nprobe s ↔
      n.engine.ShownAt faiss s q x d := by
    intro x d
    rw [LSMEngine.mem_retrieved_iff faiss at_s exact room planned, Faiss.mem_measure]
    simp only [at_s.mem_survivors_iff wf, LSMEngine.ShownAt]
  refine ⟨_, after, LSMEngine.retrieved faiss n plan q topK nprobe s, ?_,
    nearestById_mergeResults _ topK _, ?_, ?_⟩
  · have planned' : LSMEngine.searchPlan n (LSMEngine.snapshotOf n (some s)) = .ok plan := planned
    rw [searched, planned']
    rfl
  · have inside : rowIds (LSMEngine.retrieved faiss n plan q topK nprobe s) ⊆
        (batchIds n.engine.storedRows).toFinset := by
      intro x member
      rcases mem_rowIds.mp member with ⟨d, row⟩
      obtain ⟨-, v, shown, -⟩ := (retrieved x d).mp row
      have survives := (at_s.mem_survivors_iff wf).mpr shown
      rw [List.mem_toFinset]
      exact List.mem_map_of_mem (at_s.survivors_subset survives)
    refine (Finset.card_le_card inside).trans ((List.toFinset_card_le _).trans ?_)
    rw [batchIds, List.length_map]
    exact room
  · intro x d
    constructor
    · intro least
      exact (retrieved x d).mp least.1
    · intro shown
      refine ⟨(retrieved x d).mpr shown, fun d' row => ?_⟩
      rcases shown with ⟨-, v, here, rfl⟩
      obtain ⟨-, v', here', rfl⟩ := (retrieved x d').mp row
      rw [here, Option.some.injEq] at here'
      rw [here']

end VecScale
