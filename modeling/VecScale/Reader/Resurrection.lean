import VecScale.Reader.FilteredSearch
import VecScale.Reader.FullCache
import VecScale.Reader.World

/-!
# Compaction and registration against a reader

A merge drops the tombstone of an id when it drops the rows.  The reader may still
hold the segments with the rows, and the coordinator still list them.

* `SegmentCache.Hides`: no search of the reader returns an id;
* `World.Guards`: the condition on a refresh;
* `no_resurrection`: a reader that hides an id hides it for as long as its
  refreshes meet the condition.
-/

namespace VecScale

variable {dim numShards : ℕ} {env : Env}

/-! ## Hiding an id -/

/-- The id is tombstoned, or no cached segment holds it. -/
def SegmentCache.Hides (cache : SegmentCache dim) (x : ℤ) : Prop :=
  x ∈ cache.tombstones ∨
    ∀ name seg, cache.segments.get? name = some seg → x ∉ batchIds seg.rows

/-- The condition on a refresh: it finds the tombstone of the id, or a list that names
no segment with the id that the reader has or can load. -/
def SegmentCache.GuardedBy (cache : SegmentCache dim) (st : SharedStorage dim) (x : ℤ)
    (allSegments : List SegmentMeta) : Prop :=
  x ∈ st.tombstonesJson.load ∨ ∀ segMeta ∈ allSegments, cache.Serves segMeta.shardId →
    (∀ seg ∈ cache.segments.get? segMeta.segmentId, x ∉ batchIds seg.rows) ∧
      ∀ index ∈ (st.files segMeta.path).indexFaiss, x ∉ batchIds index.rows

instance (cache : SegmentCache dim) (st : SharedStorage dim) (x : ℤ)
    (allSegments : List SegmentMeta) : Decidable (cache.GuardedBy st x allSegments) :=
  inferInstanceAs (Decidable (_ ∨ ∀ _ ∈ allSegments, _ → _ ∧ _))

variable {cache : SegmentCache dim} {x : ℤ}

/-- A search returns no id that the cache hides. -/
theorem SegmentCache.Hides.search {D : Type} [LinearOrder D] (hides : cache.Hides x)
    (faiss : Faiss dim D) (q : Vec dim) (topK nprobe s : ℕ) :
    ∀ hit ∈ (cache.searchAll faiss q topK nprobe s).1, hit.1 ≠ x := by
  intro hit returned same
  rcases hit with ⟨y, d⟩
  subst same
  have near := nearestById_mergeResults (cache.searchResults faiss q topK nprobe s) topK
    cache.tombstones
  have retrieved := (near.least _ returned).1
  have survives := cache.mem_survivors_of_retrieved faiss q topK nprobe s _ retrieved
  obtain ⟨v, row, -⟩ := (Faiss.mem_measure faiss).mp survives
  rcases List.mem_flatMap.mp row with ⟨⟨name, seg⟩, visible, kept⟩
  rw [List.mem_filter, decide_eq_true_eq] at kept
  rcases hides with tombstoned | absent
  · exact kept.2 (Finset.mem_union_left _ tombstoned)
  · have found := Dict.mem_entries_iff.mp (List.mem_filter.mp visible).1
    exact absent name seg found (List.mem_map_of_mem kept.1)

theorem SegmentCache.Hides.touch (hides : cache.Hides x) (s : ℕ) : (cache.touch s).Hides x := by
  refine hides.imp id fun absent name seg found => absent name seg ?_
  rwa [SegmentCache.touch, Dict.get?_foldl_moveToEnd] at found

/-! ## What a refresh leaves -/

variable {st : SharedStorage dim}

/-- A segment that the loading loop leaves was cached before, or was loaded. -/
theorem source_of_admitAll {limit : ℕ} {segments : Dict String (Segment dim)}
    {items : List (String × SegmentMeta)} {name : String} {seg : Segment dim}
    (found : (SegmentCache.admitAll st limit segments items).2.get? name = some seg) :
    segments.get? name = some seg ∨
      ∃ item ∈ items, item.1 = name ∧ Segment.load st item.2.path = .ok seg := by
  induction items generalizing segments with
  | nil => exact Or.inl found
  | cons item items ih =>
      unfold SegmentCache.admitAll at found
      split at found
      · exact Or.inl found
      · next admitted ran =>
          rcases ih found with before | ⟨later, member, named, loaded⟩
          · unfold SegmentCache.admitItem at ran
            split at ran
            · cases ran
              rw [Dict.get?_moveToEnd] at before
              exact Or.inl before
            · obtain ⟨new, loaded, rest⟩ := ok_of_bind ran
              cases rest
              have kept := get?_of_evictOldest before
              rw [Dict.get?_moveToEnd, Dict.get?_set] at kept
              split at kept
              · next same =>
                  cases kept
                  exact Or.inr ⟨item, List.mem_cons_self, same, loaded⟩
              · exact Or.inl kept
          · exact Or.inr ⟨later, List.mem_cons_of_mem _ member, named, loaded⟩

theorem index_of_loadIds {seg remembering : Segment dim} {ids : List ℤ}
    (ran : seg.loadIds st = .ok (ids, remembering)) :
    remembering.index = seg.index ∧ remembering.path = seg.path := by
  unfold Segment.loadIds at ran
  split at ran
  · cases ran
    exact ⟨rfl, rfl⟩
  · split at ran
    · cases ran
    · cases ran
      exact ⟨rfl, rfl⟩

/-- Reading the ids changes no index. -/
theorem index_of_readIds {segments : Dict String (Segment dim)} {names : List String}
    {name : String} {seg' : Segment dim}
    (found : (SegmentCache.readIds st segments names).2.get? name = some seg') :
    ∃ seg, segments.get? name = some seg ∧ seg'.index = seg.index ∧ seg'.path = seg.path := by
  induction names generalizing segments with
  | nil => exact ⟨seg', found, rfl, rfl⟩
  | cons first names ih =>
      unfold SegmentCache.readIds at found
      split at found
      · exact ih found
      · next seg here =>
          split at found
          · exact ⟨seg', found, rfl, rfl⟩
          · next ids remembering ran =>
              obtain ⟨kept, before, index, path⟩ := ih found
              rw [Dict.get?_set] at before
              split at before
              · next named =>
                  cases before
                  subst named
                  obtain ⟨sameIndex, samePath⟩ := index_of_loadIds ran
                  exact ⟨seg, here, index.trans sameIndex, path.trans samePath⟩
              · exact ⟨kept, before, index, path⟩

/-- A segment that a refresh leaves was cached before and is listed, or was loaded from
where the list says. -/
theorem source_of_refresh {allSegments : List SegmentMeta} {name : String} {seg' : Segment dim}
    (found : (cache.refresh st allSegments).2.segments.get? name = some seg') :
    ∃ segMeta ∈ allSegments, cache.Serves segMeta.shardId ∧ segMeta.segmentId = name ∧
      ∃ seg, (seg'.index = seg.index ∧ seg'.path = seg.path) ∧
        (cache.segments.get? name = some seg ∨ Segment.load st segMeta.path = .ok seg) := by
  have loaded : ∃ seg, (cache.loadListed st allSegments).2.segments.get? name = some seg ∧
      seg'.index = seg.index ∧ seg'.path = seg.path := by
    unfold SegmentCache.refresh at found
    dsimp only at found
    split at found
    · exact ⟨seg', found, rfl, rfl⟩
    · unfold SegmentCache.refreshVisibilityIndex at found
      dsimp only at found
      split at found
      · exact ⟨seg', found, rfl, rfl⟩
      · split at found <;> exact index_of_readIds found
  rcases loaded with ⟨seg, here, same⟩
  rcases source_of_admitAll here with kept | ⟨item, member, named, loaded⟩
  · rw [Dict.get?_eraseAll] at kept
    split at kept
    · cases kept
    · next stays =>
        have listed : name ∈ (cache.listed allSegments).keys := by
          by_contra unlisted
          apply stays
          exact List.mem_filter.mpr
            ⟨Dict.mem_keys_iff.mpr ⟨seg, kept⟩, decide_eq_true unlisted⟩
        rcases mem_keys_listed.mp listed with ⟨segMeta, inList, serves, named⟩
        exact ⟨segMeta, inList, serves, named, seg, same, Or.inl kept⟩
  · obtain ⟨names, inList, serves⟩ := mem_listed member
    exact ⟨item.2, inList, serves, names.symm.trans named, seg, same, Or.inr loaded⟩

theorem index_of_load {path : String} {seg : Segment dim}
    (loaded : Segment.load st path = .ok seg) :
    seg.index ∈ (st.files path).indexFaiss ∧ seg.path = path := by
  unfold Segment.load at loaded
  split at loaded
  · cases loaded
  · split at loaded
    · cases loaded
    · next index here =>
        cases loaded
        exact ⟨here, rfl⟩

/-- A refresh that meets the condition leaves the id hidden. -/
theorem SegmentCache.GuardedBy.hides {allSegments : List SegmentMeta}
    (guarded : cache.GuardedBy st x allSegments) : (cache.refresh st allSegments).2.Hides x := by
  rcases guarded with tombstoned | absent
  · left
    rwa [SegmentCache.tombstones_refresh]
  · right
    intro name seg' found
    obtain ⟨segMeta, listed, serves, rfl, seg, same, source⟩ := source_of_refresh found
    obtain ⟨uncached, unstored⟩ := absent segMeta listed serves
    rw [Segment.rows, same.1]
    rcases source with before | loaded
    · exact uncached seg before
    · exact unstored _ (index_of_load loaded).1

/-! ## Runs -/

/-- The condition on an action, on the state before it. -/
def World.Guards (x : ℤ) (w : World dim numShards) : Action dim numShards → Prop
  | .refresh => ∀ allSegments ∈ w.fetched, w.reader.GuardedBy w.cluster.storage x allSegments
  | _ => True

instance (w : World dim numShards) : (action : Action dim numShards) → Decidable (w.Guards x action)
  | .refresh => inferInstanceAs (Decidable (∀ _ ∈ w.fetched, _))
  | .insert _ _ | .delete _ _ | .flush _ | .close _ | .beginMerge _ | .merge _ | .beginPass | .pass _ | .fetch
  | .search _ => inferInstanceAs (Decidable True)

/-- Only the reader's own actions change its cache. -/
theorem SegmentCache.Hides.step {w w' : World dim numShards} {action : Action dim numShards}
    (hides : w.reader.Hides x) (guards : w.Guards x action) (acted : Acted env w action w') :
    w'.reader.Hides x := by
  cases acted with
  | idle | insert | delete | flush | close | beginMerge | merge | beginPass | pass | fetch =>
      exact hides
  | refresh fetched => exact (guards _ fetched).hides
  | search snapshotId => exact hides.touch snapshotId

/-- What the reader hides it hides for as long as its refreshes meet the condition. -/
theorem SegmentCache.Hides.run {w final : World dim numShards}
    {actions : List (Action dim numShards)} (hides : w.reader.Hides x)
    (meets : StepsMeet (World.step env) (World.Guards x) w actions)
    (ran : runAll (World.step env) w actions = .ok final) : final.reader.Hides x :=
  runAll_preserves (P := fun w => w.reader.Hides x)
    (fun _ _ _ hides guards ran => hides.step guards (acted_of_step ran)) hides meets ran

/-- **No resurrection.**  Once the reader has loaded the tombstone of an id, whatever the
writer and the reader do, no search returns the id, if every refresh finds the
tombstone again or a list without the segments that hold the id. -/
theorem no_resurrection {D : Type} [LinearOrder D] (faiss : Faiss dim D)
    {w final : World dim numShards} {actions : List (Action dim numShards)}
    (loaded : x ∈ w.reader.tombstones)
    (meets : StepsMeet (World.step env) (World.Guards x) w actions)
    (ran : runAll (World.step env) w actions = .ok final) (q : Vec dim) (topK nprobe s : ℕ) :
    ∀ hit ∈ (final.reader.searchAll faiss q topK nprobe s).1, hit.1 ≠ x := by
  have hides : w.reader.Hides x := Or.inl loaded
  exact (hides.run meets ran).search faiss q topK nprobe s

/-! ## A window in a merge -/

/-- A pass that nothing interrupts. -/
def wholePass : List (Action 1 1) := .beginPass :: List.replicate 8 (.pass 0)

/-- Two ids are flushed and published, one is deleted, and the reader learns of it. -/
def deletedAndLearned : List (Action 1 1) :=
  [.insert 0 [(1, zeroVec 1), (2, unitVec)], .flush 0] ++ wholePass ++
    [.delete 0 [1], .fetch, .refresh]

/-- A second flush starts a merge, which drops the row and its tombstone. -/
def mergedAway : List (Action 1 1) :=
  [.insert 0 [(3, unitVec)], .flush 0, .beginMerge 0] ++ List.replicate 5 (.merge 0)

/-- The reader asks before the next pass. -/
def askedEarly : List (Action 1 1) := mergedAway ++ [.fetch, .refresh]

/-- Before the next pass the list still names the old segment, which the reader has. -/
theorem deleted_id_resurrected :
    (do
      let boot ← Cluster.boot Env.counted ⟨1, 10, 2⟩
      let cache ← SegmentCache.new 0 20 false
      let w ← runAll (World.step Env.counted) (.idle boot cache) deletedAndLearned
      let final ← runAll (World.step Env.counted) w askedEarly
      .ok (w.reader.tombstones, (w.reader.searchAll (bruteForce 1) (zeroVec 1) 10 1 1).1,
        (final.reader.searchAll (bruteForce 1) (zeroVec 1) 10 1 1).1)) =
      .ok ({1}, [(2, 1)], [(1, 0), (2, 1)]) := by
  decide +kernel

/-- The reader asks only after the next pass. -/
def askedLater : List (Action 1 1) := mergedAway ++ wholePass ++ [.fetch, .refresh]

theorem no_resurrection_askedLater :
    ∃ w final : World 1 1, (1 : ℤ) ∈ w.reader.tombstones ∧
      runAll (World.step Env.counted) w askedLater = .ok final ∧ final.reader.tombstones = ∅ ∧
      ∀ hit ∈ (final.reader.searchAll (bruteForce 1) (zeroVec 1) 10 1 3).1, hit.1 ≠ 1 := by
  have evaluated : (do
      let boot ← Cluster.boot Env.counted ⟨1, 10, 2⟩
      let cache ← SegmentCache.new 0 20 false
      let w ← runAll (World.step Env.counted) (.idle boot cache) deletedAndLearned
      let final ← runAll (World.step Env.counted) w askedLater
      .ok (decide (1 ∈ w.reader.tombstones ∧ final.reader.tombstones = ∅ ∧
        StepsMeet (World.step Env.counted) (World.Guards 1) w askedLater))) = .ok true := by
    decide +kernel
  obtain ⟨boot, -, rest⟩ := ok_of_bind evaluated
  obtain ⟨cache, -, rest⟩ := ok_of_bind rest
  obtain ⟨w, -, rest⟩ := ok_of_bind rest
  obtain ⟨final, ran, rest⟩ := ok_of_bind rest
  rw [Except.ok.injEq, decide_eq_true_eq] at rest
  exact ⟨w, final, rest.1, ran, rest.2.1,
    no_resurrection (bruteForce 1) rest.1 rest.2.2 ran (zeroVec 1) 10 1 3⟩

end VecScale
