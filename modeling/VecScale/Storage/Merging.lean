import VecScale.Storage.Layout

/-!
# What a merge computes

`newestRow segments x` is the vector of `x` in its newest segment, segments
listed from oldest to newest.  A merge replaces the segments it takes by at most
one, whose rows are the newest rows of the ids that are not tombstoned.

* `lastWrite_keptRows`: the rows a merge keeps, as a lookup;
* `merge_cases`: a call either finds too few segments and does nothing, or
  leaves the node that `Merged` describes;
* `Layout.merge`: it keeps the layout.
-/

namespace VecScale

variable {dim : ℕ}

/-- The vector of an id in its newest segment. -/
def newestRow (segments : List (Segment dim)) (x : ℤ) : Option (Vec dim) :=
  Dict.lastWrite (segments.flatMap Segment.rows) x

@[simp] theorem newestRow_nil (x : ℤ) : newestRow ([] : List (Segment dim)) x = none := rfl

theorem newestRow_append (older newer : List (Segment dim)) (x : ℤ) :
    newestRow (older ++ newer) x = (newestRow newer x).or (newestRow older x) := by
  rw [newestRow, List.flatMap_append, Dict.lastWrite_append]
  rfl

theorem newestRow_singleton (seg : Segment dim) (x : ℤ) :
    newestRow [seg] x = Dict.lastWrite seg.rows x := by
  rw [newestRow, List.flatMap_singleton]

/-- An id has a row iff one of the segments lists it. -/
theorem newestRow_eq_none_iff {segments : List (Segment dim)} {x : ℤ} :
    newestRow segments x = none ↔ ∀ seg ∈ segments, x ∉ batchIds seg.rows := by
  simp only [newestRow, Dict.lastWrite_eq_none_iff, List.map_flatMap, List.mem_flatMap, not_exists,
    not_and]
  rfl

/-- The ids of some segments. -/
def segmentIds (segments : List (Segment dim)) : List ℤ :=
  segments.flatMap fun seg => batchIds seg.rows

theorem mem_segmentIds {segments : List (Segment dim)} {x : ℤ} :
    x ∈ segmentIds segments ↔ newestRow segments x ≠ none := by
  rw [segmentIds, List.mem_flatMap, ne_eq, newestRow_eq_none_iff]
  simp

/-! ## The newest versions -/

/-- The dictionary `latest` of a merge of these segments. -/
def latestOf (segments : List (Segment dim)) : Dict ℤ (ℕ × Vec dim) :=
  Dict.setAll ∅ (segments.flatMap fun seg => seg.rows.map fun row =>
    (row.1, (seg.snapshotId, row.2)))

theorem gatherLatest_of_stored {st : SharedStorage dim} {segments : List (Segment dim)}
    (stored : ∀ seg ∈ segments, seg.Stored st) :
    LSMEngine.gatherLatest st segments = .ok (latestOf segments) := by
  unfold LSMEngine.gatherLatest latestOf
  generalize (∅ : Dict ℤ (ℕ × Vec dim)) = latest
  induction segments generalizing latest with
  | nil => rfl
  | cons seg segments ih =>
      rw [List.foldlM_cons, Segment.loadArrays_of_stored (stored seg List.mem_cons_self),
        List.flatMap_cons, Dict.setAll, List.foldl_append]
      exact ih (fun seg' member => stored seg' (List.mem_cons_of_mem _ member)) _

theorem get?_latestOf (segments : List (Segment dim)) (x : ℤ) :
    ((latestOf segments).get? x).map Prod.snd = newestRow segments x := by
  have rows : segments.flatMap Segment.rows =
      (segments.flatMap fun seg => seg.rows.map fun row => (row.1, (seg.snapshotId, row.2))).map
        fun e => (e.1, e.2.2) := by
    rw [List.map_flatMap]
    refine List.flatMap_congr fun seg _ => ?_
    rw [List.map_map]
    exact (List.map_id seg.rows).symm
  rw [newestRow, rows, Dict.lastWrite_map, latestOf, Dict.get?_setAll, Dict.get?_empty,
    Option.or_none]

theorem mem_keys_latestOf {segments : List (Segment dim)} {x : ℤ} :
    x ∈ (latestOf segments).keys ↔ newestRow segments x ≠ none := by
  rw [← get?_latestOf, Dict.mem_keys_iff]
  cases (latestOf segments).get? x <;> simp

/-! ## The rows a merge keeps -/

theorem mem_keptRows {segments : List (Segment dim)} {T : Finset ℤ} {x : ℤ} {v : Vec dim} :
    (x, v) ∈ LSMEngine.keptRows (latestOf segments) T ↔ x ∉ T ∧ newestRow segments x = some v := by
  simp only [LSMEngine.keptRows, List.mem_filterMap, List.mem_filter, List.mem_insertionSort,
    decide_eq_true_eq, Option.map_eq_some_iff]
  constructor
  · rintro ⟨y, ⟨-, untouched⟩, version, found, same⟩
    cases same
    refine ⟨untouched, ?_⟩
    rw [← get?_latestOf, found]
    rfl
  · rintro ⟨untouched, newest⟩
    rw [← get?_latestOf] at newest
    rcases Option.map_eq_some_iff.mp newest with ⟨version, found, rfl⟩
    exact ⟨x, ⟨Dict.mem_keys_iff.mpr ⟨version, found⟩, untouched⟩, version, found, rfl⟩

theorem nodup_keptRows (latest : Dict ℤ (ℕ × Vec dim)) (T : Finset ℤ) :
    (batchIds (LSMEngine.keptRows latest T)).Nodup := by
  let ids := (latest.keys.insertionSort (· ≤ ·)).filter fun x => x ∉ T
  have idsNodup : ids.Nodup :=
    ((List.perm_insertionSort _ _).nodup_iff.mpr latest.keys_nodup).filter _
  have named : ∀ x row, (latest.get? x).map (fun version => (x, version.2)) = some row →
      row.1 = x := by
    intro x row here
    rcases Option.map_eq_some_iff.mp here with ⟨version, -, rfl⟩
    rfl
  have sublist : (batchIds (LSMEngine.keptRows latest T)).Sublist ids := by
    change (List.map Prod.fst (ids.filterMap _)).Sublist ids
    induction ids with
    | nil => exact List.Sublist.refl _
    | cons x rest ih =>
        rw [List.filterMap_cons]
        split
        · exact ih.cons x
        · next row here =>
            rw [List.map_cons, named x row here]
            exact ih.cons_cons x
  exact idsNodup.sublist sublist

/-- The rows a merge keeps, as a lookup. -/
theorem lastWrite_keptRows (segments : List (Segment dim)) (T : Finset ℤ) (x : ℤ) :
    Dict.lastWrite (LSMEngine.keptRows (latestOf segments) T) x =
      if x ∈ T then none else newestRow segments x := by
  apply Option.ext
  intro v
  rw [Dict.lastWrite_eq_some_iff (nodup_keptRows _ T), mem_keptRows]
  by_cases tombstoned : x ∈ T <;> simp [tombstoned]

theorem mem_cleanedTombstones {segments : List (Segment dim)} {T : Finset ℤ} {x : ℤ} :
    x ∈ LSMEngine.cleanedTombstones (latestOf segments) T ↔
      x ∈ T ∧ newestRow segments x ≠ none := by
  rw [LSMEngine.cleanedTombstones, Finset.mem_filter, mem_keys_latestOf]

/-! ## Ages -/

theorem le_maxSnapshot {segments : List (Segment dim)} {seg : Segment dim}
    (member : seg ∈ segments) : seg.snapshotId ≤ maxSnapshot segments := by
  have listed : seg.snapshotId ∈ segments.map Segment.snapshotId := List.mem_map_of_mem member
  rw [maxSnapshot]
  cases greatest : (segments.map Segment.snapshotId).max? with
  | none =>
      rw [List.max?_eq_none_iff] at greatest
      rw [greatest] at listed
      cases listed
  | some s => exact (List.max?_eq_some_iff.mp greatest).2 _ listed

theorem exists_maxSnapshot {segments : List (Segment dim)} (nonempty : segments ≠ []) :
    ∃ seg ∈ segments, seg.snapshotId = maxSnapshot segments := by
  rw [maxSnapshot]
  cases greatest : (segments.map Segment.snapshotId).max? with
  | none =>
      rw [List.max?_eq_none_iff, List.map_eq_nil_iff] at greatest
      exact absurd greatest nonempty
  | some s =>
      obtain ⟨seg, member, age⟩ := List.mem_map.mp (List.max?_eq_some_iff.mp greatest).1
      exact ⟨seg, member, age⟩

theorem maxSnapshot_le {segments : List (Segment dim)} {bound : ℕ}
    (all : ∀ seg ∈ segments, seg.snapshotId ≤ bound) : maxSnapshot segments ≤ bound := by
  by_cases none : segments = []
  · rw [none]
    exact Nat.zero_le _
  · obtain ⟨seg, listed, age⟩ := exists_maxSnapshot none
    rw [← age]
    exact all seg listed

/-! ## The call -/

theorem LSMEngine.toMerge_append_remaining (engine : LSMEngine dim) :
    engine.toMerge ++ engine.remaining = engine.segments := List.take_append_drop _ _

/-- What a merge that found enough segments leaves; `front` is the new segment, if any. -/
structure Merged (env : Env) (n n' : Node dim) (front : List (Segment dim)) : Prop where
  engine : n'.engine = { n.engine with
    segments := front ++ n.engine.remaining
    tombstones := n.engine.tombstones \
      LSMEngine.cleanedTombstones (latestOf n.engine.toMerge) n.engine.tombstones }
  rows : front.flatMap Segment.rows =
    LSMEngine.keptRows (latestOf n.engine.toMerge) n.engine.tombstones
  ages : ∀ seg ∈ front, seg.snapshotId = maxSnapshot n.engine.toMerge
  size : front.length ≤ 1
  nonempty : ∀ seg ∈ front, seg.rows ≠ []
  tombstonesJson : n'.storage.tombstonesJson = .holds n'.engine.tombstones
  segments : SegmentsWf env n'.engine n'.storage
  others : ∀ seg : Segment dim, seg.shardId ≠ n.engine.shardId →
    (seg.Stored n'.storage ↔ seg.Stored n.storage)
  grows : SharedStorage.Grows env.uuid n.storage n'.storage

theorem Merged.mergeThreshold {env : Env} {n n' : Node dim} {front : List (Segment dim)}
    (merged : Merged env n n' front) : n'.engine.mergeThreshold = n.engine.mergeThreshold := by
  rw [merged.engine]

theorem toMerge_older {engine : LSMEngine dim}
    (sorted : engine.segments.Pairwise fun a b => a.snapshotId < b.snapshotId) :
    ∀ a ∈ engine.toMerge, ∀ b ∈ engine.remaining, a.snapshotId < b.snapshotId := by
  rw [← engine.toMerge_append_remaining] at sorted
  exact (List.pairwise_append.mp sorted).2.2

theorem mem_segments_iff {engine : LSMEngine dim} {seg : Segment dim} :
    seg ∈ engine.segments ↔ seg ∈ engine.toMerge ∨ seg ∈ engine.remaining := by
  rw [← List.mem_append, engine.toMerge_append_remaining]

/-- The segments left are those of the engine without the ones taken. -/
theorem mem_remaining_iff {engine : LSMEngine dim}
    (sorted : engine.segments.Pairwise fun a b => a.snapshotId < b.snapshotId)
    {seg : Segment dim} : seg ∈ engine.remaining ↔ seg ∈ engine.segments ∧ seg ∉ engine.toMerge := by
  rw [mem_segments_iff]
  constructor
  · intro left
    exact ⟨Or.inr left, fun taken => absurd (toMerge_older sorted seg taken seg left) (lt_irrefl _)⟩
  · rintro ⟨taken | left, notTaken⟩
    · exact absurd taken notTaken
    · exact left

section Outcome

variable {env : Env} {n : Node dim}

/-- What `merge` computes once the versions are gathered. -/
theorem merge_of_le (started : n.engine.started = true)
    (wf : SegmentsWf env n.engine n.storage)
    (enough : n.engine.mergeThreshold ≤ n.engine.segments.length) :
    LSMEngine.merge env n =
      let rows := LSMEngine.keptRows (latestOf n.engine.toMerge) n.engine.tombstones
      let cleaned := LSMEngine.cleanedTombstones (latestOf n.engine.toMerge) n.engine.tombstones
      if rows = [] then .ok (none, LSMEngine.removeMerged
        (LSMEngine.commitMerge n n.engine.remaining cleaned) n.engine.toMerge)
      else
        let created := Segment.create env.uuid n.engine.shardId (maxSnapshot n.engine.toMerge) rows
          n.engine.nlist n.storage
        .ok (some created.1, LSMEngine.removeMerged (LSMEngine.commitMerge
          { n with storage := created.2 } (sortSegments (created.1 :: n.engine.remaining)) cleaned)
          n.engine.toMerge) := by
  have gathered : LSMEngine.gatherLatest n.storage n.engine.toMerge =
      .ok (latestOf n.engine.toMerge) :=
    gatherLatest_of_stored fun seg member => wf.stored seg (mem_segments_iff.mpr (Or.inl member))
  simp only [LSMEngine.merge, LSMEngine.ensureStarted, started, if_true,
    if_neg (not_lt.mpr enough), gathered]
  rfl

/-- Every id of the merged segments is tombstoned. -/
theorem merged_of_empty (wf : SegmentsWf env n.engine n.storage)
    (empty : LSMEngine.keptRows (latestOf n.engine.toMerge) n.engine.tombstones = []) :
    Merged env n (LSMEngine.removeMerged (LSMEngine.commitMerge n n.engine.remaining
      (LSMEngine.cleanedTombstones (latestOf n.engine.toMerge) n.engine.tombstones))
      n.engine.toMerge) [] := by
  have taken : ∀ seg ∈ n.engine.toMerge, seg ∈ n.engine.segments := fun seg member =>
    mem_segments_iff.mpr (Or.inl member)
  refine ⟨rfl, empty.symm, by simp, by simp, by simp,
    SharedStorage.tombstonesJson_rmtreeAll _ _, ⟨?_, ?_, ?_⟩, fun seg other => ?_, ?_⟩
  · exact (wf.toStocked.persist _).rmtreeAll taken fun seg => mem_remaining_iff wf.sorted
  · exact wf.sorted.sublist (List.drop_sublist _ _)
  · exact fun seg member => wf.bounded seg (mem_segments_iff.mpr (Or.inr member))
  · exact ((wf.toStocked.persist _).rmtreeAll_others taken other).trans Segment.stored_persist
  · exact (SharedStorage.grows_persist _ _ _).trans (SharedStorage.grows_rmtreeAll _ _ _)

theorem toMerge_ne_nil_of_kept
    (kept : LSMEngine.keptRows (latestOf n.engine.toMerge) n.engine.tombstones ≠ []) :
    n.engine.toMerge ≠ [] := by
  intro none
  refine kept (List.eq_nil_iff_forall_not_mem.mpr fun row member => ?_)
  have version := (mem_keptRows (x := row.1) (v := row.2)).mp member
  rw [none, newestRow_nil] at version
  cases version.2

/-- A segment as old as the youngest merged one goes before those that are left. -/
theorem pairwise_cons_remaining (wf : SegmentsWf env n.engine n.storage)
    (source : n.engine.toMerge ≠ []) {seg : Segment dim}
    (age : seg.snapshotId = maxSnapshot n.engine.toMerge) :
    (seg :: n.engine.remaining).Pairwise fun a b => a.snapshotId < b.snapshotId := by
  obtain ⟨youngest, taken, same⟩ := exists_maxSnapshot source
  refine List.pairwise_cons.mpr ⟨fun other left => ?_, wf.sorted.sublist (List.drop_sublist _ _)⟩
  rw [age, ← same]
  exact toMerge_older wf.sorted youngest taken other left

/-- Some row is kept, in a new segment as old as the youngest merged one. -/
theorem merged_of_kept (wf : SegmentsWf env n.engine n.storage)
    (kept : LSMEngine.keptRows (latestOf n.engine.toMerge) n.engine.tombstones ≠ [])
    {created : Segment dim × SharedStorage dim}
    (creation : created = Segment.create env.uuid n.engine.shardId (maxSnapshot n.engine.toMerge)
      (LSMEngine.keptRows (latestOf n.engine.toMerge) n.engine.tombstones) n.engine.nlist
      n.storage) :
    Merged env n (LSMEngine.removeMerged (LSMEngine.commitMerge { n with storage := created.2 }
      (sortSegments (created.1 :: n.engine.remaining))
      (LSMEngine.cleanedTombstones (latestOf n.engine.toMerge) n.engine.tombstones))
      n.engine.toMerge) [created.1] := by
  have taken : ∀ seg ∈ n.engine.toMerge, seg ∈ n.engine.segments := fun seg member =>
    mem_segments_iff.mpr (Or.inl member)
  have fields : created.1.rows =
      LSMEngine.keptRows (latestOf n.engine.toMerge) n.engine.tombstones ∧
      created.1.snapshotId = maxSnapshot n.engine.toMerge := by
    rw [creation]
    exact ⟨(Segment.create_fields _ _ _ _ _ _).1, rfl⟩
  have source := toMerge_ne_nil_of_kept kept
  obtain ⟨youngest, youngestTaken, age⟩ := exists_maxSnapshot source
  have sorted := pairwise_cons_remaining wf source fields.2
  have order := sortSegments_eq (List.Perm.refl (created.1 :: n.engine.remaining)) sorted
  have fresh : created.1 ∉ n.engine.toMerge := by
    intro old
    have absent := Segment.create_fresh wf.drawn n.engine.shardId (maxSnapshot n.engine.toMerge)
      (LSMEngine.keptRows (latestOf n.engine.toMerge) n.engine.tombstones) n.engine.nlist
    rw [← creation, (wf.stored created.1 (taken created.1 old)).files] at absent
    cases absent
  have stocked : Stocked env n.engine.shardId (created.1 :: n.engine.segments) created.2 := by
    rw [creation]
    exact wf.toStocked.create _ (nodup_keptRows _ _) _
  have split : ∀ seg, seg ∈ created.1 :: n.engine.remaining ↔
      seg ∈ created.1 :: n.engine.segments ∧ seg ∉ n.engine.toMerge := by
    intro seg
    rw [List.mem_cons, List.mem_cons, mem_remaining_iff wf.sorted]
    constructor
    · rintro (rfl | ⟨listed, notTaken⟩)
      · exact ⟨Or.inl rfl, fresh⟩
      · exact ⟨Or.inr listed, notTaken⟩
    · rintro ⟨rfl | listed, notTaken⟩
      · exact Or.inl rfl
      · exact Or.inr ⟨listed, notTaken⟩
  rw [order]
  refine ⟨rfl, ?_, ?_, le_rfl, ?_, SharedStorage.tombstonesJson_rmtreeAll _ _, ⟨?_, sorted, ?_⟩,
    fun seg other => ?_, ?_⟩
  · rw [List.flatMap_singleton, fields.1]
  · intro seg member
    rw [List.mem_singleton.mp member, fields.2]
  · intro seg member
    rw [List.mem_singleton.mp member, fields.1]
    exact kept
  · exact (stocked.persist _).rmtreeAll
      (fun seg member => List.mem_cons_of_mem _ (taken seg member)) split
  · intro seg member
    rcases List.mem_cons.mp member with rfl | member
    · rw [fields.2, ← age]
      exact wf.bounded youngest (taken youngest youngestTaken)
    · exact wf.bounded seg (mem_segments_iff.mpr (Or.inr member))
  · refine ((stocked.persist _).rmtreeAll_others
      (fun seg member => List.mem_cons_of_mem _ (taken seg member)) other).trans ?_
    refine Segment.stored_persist.trans ?_
    rw [creation]
    exact wf.toStocked.create_others _ _ _ other
  · have made : SharedStorage.Grows env.uuid n.storage created.2 := by
      rw [creation]
      exact SharedStorage.grows_create _ _ _ _ _ _
    exact (made.trans (SharedStorage.grows_persist _ _ _)).trans
      (SharedStorage.grows_rmtreeAll _ _ _)

/-- A merge does nothing, or leaves what `Merged` describes. -/
theorem merge_cases (started : n.engine.started = true)
    (wf : SegmentsWf env n.engine n.storage) :
    (n.engine.segments.length < n.engine.mergeThreshold ∧ LSMEngine.merge env n = .ok (none, n)) ∨
      (n.engine.mergeThreshold ≤ n.engine.segments.length ∧
        ∃ out n' front, LSMEngine.merge env n = .ok (out, n') ∧ Merged env n n' front) := by
  by_cases few : n.engine.segments.length < n.engine.mergeThreshold
  · left
    refine ⟨few, ?_⟩
    simp only [LSMEngine.merge, LSMEngine.ensureStarted, started, if_true, if_pos few]
    rfl
  · right
    have enough := not_lt.mp few
    have ran := merge_of_le started wf enough
    refine ⟨enough, ?_⟩
    by_cases empty : LSMEngine.keptRows (latestOf n.engine.toMerge) n.engine.tombstones = []
    · exact ⟨none, _, [], ran.trans (if_pos empty), merged_of_empty wf empty⟩
    · exact ⟨_, _, _, ran.trans (if_neg empty), merged_of_kept wf empty rfl⟩

end Outcome

variable {env : Env} {n n' : Node dim} {old recent : List (WALRecord dim)}

theorem Layout.merged (layout : Layout env n old recent) {front : List (Segment dim)}
    (merged : Merged env n n' front) : Layout env n' old recent := by
  have engine := merged.engine
  refine ⟨?_, ?_, ?_, layout.ordered, layout.positive, layout.known, ?_, ?_, layout.markers, ?_,
    merged.segments⟩
  · rw [engine]
    exact layout.started
  · rw [engine]
    exact layout.opened
  · rw [engine]
    exact layout.wal
  · rw [engine]
    intro record member seg listed
    rcases List.mem_append.mp listed with new | left
    · have source : n.engine.toMerge ≠ [] := by
        apply toMerge_ne_nil_of_kept
        rw [← merged.rows]
        intro empty
        exact merged.nonempty seg new (List.flatMap_eq_nil_iff.mp empty seg new)
      obtain ⟨youngest, taken, age⟩ := exists_maxSnapshot source
      rw [merged.ages seg new, ← age]
      exact layout.above record member youngest (mem_segments_iff.mpr (Or.inl taken))
    · exact layout.above record member seg (mem_segments_iff.mpr (Or.inr left))
  · rw [engine]
    exact layout.memtable
  · rw [engine]
    exact fun x tombstoned => layout.buried x (Finset.mem_sdiff.mp tombstoned).1

end VecScale
