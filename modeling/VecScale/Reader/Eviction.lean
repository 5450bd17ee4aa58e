import VecScale.Lib.Recency
import VecScale.Reader.VisibilityIndex

/-!
# What a refresh leaves in the cache

The loading loop uses the listed segments in order of age and drops the least recent
ones whenever there are too many, so a cache is the end of a queue of names.

* `keys_of_admitAll`, `admitAll_stops`: a loop that returns, and one that raises;
* `keys_of_refresh`: a refresh that returns leaves the youngest segments listed, in
  order of age, whatever the order of the cache was.
-/

namespace VecScale

variable {dim : ℕ} {st : SharedStorage dim} {cache : SegmentCache dim}
  {allSegments : List SegmentMeta}

theorem mem_keys_listed {name : String} :
    name ∈ (cache.listed allSegments).keys ↔ ∃ segMeta ∈ allSegments,
      cache.Serves segMeta.shardId ∧ segMeta.segmentId = name := by
  rw [Dict.mem_keys_iff, SegmentCache.listed]
  simp only [SegmentCache.Serves, Dict.get?_setAll, Dict.get?_empty, Option.or_none,
    ← Option.isSome_iff_exists, Dict.lastWrite_isSome_iff, List.map_map, List.mem_map, List.mem_filter, Bool.or_eq_true,
    decide_eq_true_eq, Function.comp]
  constructor
  · intro listed
    rcases listed with ⟨segMeta, ⟨member, kept⟩, same⟩
    exact ⟨segMeta, member, kept, same⟩
  · intro listed
    rcases listed with ⟨segMeta, member, kept, same⟩
    exact ⟨segMeta, ⟨member, kept⟩, same⟩

namespace SegmentCache

theorem keys_evictOldest (limit : ℕ) (segments : Dict String (Segment dim)) :
    (evictOldest limit segments).keys = segments.keys.rtake limit := by
  rw [evictOldest, Dict.keys_iterate_popFirst, List.rtake, Dict.keys, List.length_map]
  rfl

section Loop

variable {limit : ℕ} {segments admitted : Dict String (Segment dim)}
  {item : String × SegmentMeta} {items : List (String × SegmentMeta)} {queue : List String}

theorem keys_of_admitItem (nodup : queue.Nodup) (held : segments.keys = queue.rtake limit)
    (ran : admitItem st limit segments item = .ok admitted) :
    admitted.keys = (requeue queue item.1).rtake limit := by
  unfold admitItem at ran
  split at ran
  · next known =>
      cases ran
      rw [Dict.keys_moveToEnd known, held]
      rw [held] at known
      exact (rtake_requeue_of_held nodup known).symm
  · next unknown =>
      obtain ⟨seg, -, rest⟩ := ok_of_bind ran
      cases rest
      have added : (segments.set item.1 seg).keys = segments.keys ++ [item.1] := by
        rw [Dict.keys_set, if_neg unknown]
      have present : item.1 ∈ (segments.set item.1 seg).keys := by
        rw [added]
        exact List.mem_append_right _ List.mem_cons_self
      have moved : ((segments.set item.1 seg).moveToEnd item.1).keys =
          segments.keys ++ [item.1] := by
        rw [Dict.keys_moveToEnd present, added, List.filter_append, filter_ne_of_not_mem unknown]
        simp
      rw [keys_evictOldest, moved, held]
      rw [held] at unknown
      exact (rtake_requeue_of_new unknown).symm

theorem admitAll_cons_ok (ran : admitItem st limit segments item = .ok admitted) :
    admitAll st limit segments (item :: items) = admitAll st limit admitted items := by
  simp only [admitAll, ran]

theorem admitAll_cons_error {e : PyError} (failed : admitItem st limit segments item = .error e) :
    admitAll st limit segments (item :: items) = (.error e, segments) := by
  simp only [admitAll, failed]

/-- The loading loop uses the names it is given, in their order. -/
theorem keys_of_admitAll (nodup : queue.Nodup) (held : segments.keys = queue.rtake limit)
    (returned : (admitAll st limit segments items).1 = .ok ()) :
    (admitAll st limit segments items).2.keys =
      ((items.map Prod.fst).foldl requeue queue).rtake limit := by
  induction items generalizing segments queue with
  | nil => exact held
  | cons item items ih =>
      cases ran : admitItem st limit segments item with
      | error e =>
          rw [admitAll_cons_error ran] at returned
          cases returned
      | ok admitted =>
          rw [admitAll_cons_ok ran] at returned ⊢
          exact ih (nodup_requeue nodup) (keys_of_admitItem nodup held ran) returned

/-- An item is refused when it has to be loaded and cannot be. -/
theorem admitItem_error {e : PyError} (failed : admitItem st limit segments item = .error e) :
    item.1 ∉ segments.keys ∧ ∀ seg, Segment.load st item.2.path ≠ .ok seg := by
  unfold admitItem at failed
  split at failed
  · cases failed
  · next unknown =>
      refine ⟨unknown, fun seg loaded => ?_⟩
      rw [loaded] at failed
      cases failed

/-- A loop that raises does so at the first segment that it has to load and cannot. -/
theorem admitAll_stops (stopped : (admitAll st limit segments items).1 ≠ .ok ()) :
    ∃ i item, items[i]? = some item ∧ (admitAll st limit segments (items.take i)).1 = .ok () ∧
      item.1 ∉ (admitAll st limit segments (items.take i)).2.keys ∧
      (∀ seg, Segment.load st item.2.path ≠ .ok seg) ∧
      (admitAll st limit segments items).2 = (admitAll st limit segments (items.take i)).2 := by
  induction items generalizing segments with
  | nil => exact absurd rfl stopped
  | cons item items ih =>
      cases ran : admitItem st limit segments item with
      | error e =>
          rw [admitAll_cons_error ran]
          exact ⟨0, item, rfl, rfl, (admitItem_error ran).1, (admitItem_error ran).2, rfl⟩
      | ok admitted =>
          rw [admitAll_cons_ok ran] at stopped ⊢
          obtain ⟨i, culprit, here, rest⟩ := ih stopped
          refine ⟨i + 1, culprit, here, ?_⟩
          rw [List.take_succ_cons, admitAll_cons_ok ran]
          exact rest

/-- A loop that returns has come to every item, and each was held or could be loaded. -/
theorem admitAll_turn (returned : (admitAll st limit segments items).1 = .ok ()) {i : ℕ}
    (here : items[i]? = some item) :
    (admitAll st limit segments (items.take i)).1 = .ok () ∧
      (item.1 ∈ (admitAll st limit segments (items.take i)).2.keys ∨
        ∃ seg, Segment.load st item.2.path = .ok seg) := by
  induction items generalizing segments i with
  | nil => cases here
  | cons first items ih =>
      cases ran : admitItem st limit segments first with
      | error e =>
          rw [admitAll_cons_error ran] at returned
          cases returned
      | ok admitted =>
          rw [admitAll_cons_ok ran] at returned
          cases i with
          | zero =>
              cases here
              refine ⟨rfl, ?_⟩
              unfold admitItem at ran
              split at ran
              · next known => exact Or.inl known
              · obtain ⟨seg, loaded, -⟩ := ok_of_bind ran
                exact Or.inr ⟨seg, loaded⟩
          | succ i =>
              rw [List.take_succ_cons, admitAll_cons_ok ran]
              exact ih returned here

/-- A use of another name changes no segment that stays. -/
theorem get?_of_admitItem {name : String} {seg : Segment dim} (other : item.1 ≠ name)
    (ran : admitItem st limit segments item = .ok admitted)
    (found : admitted.get? name = some seg) : segments.get? name = some seg := by
  unfold admitItem at ran
  split at ran
  · cases ran
    rwa [Dict.get?_moveToEnd] at found
  · obtain ⟨new, -, rest⟩ := ok_of_bind ran
    cases rest
    have kept := get?_of_evictOldest found
    rwa [Dict.get?_moveToEnd, Dict.get?_set, if_neg other] at kept

/-- A segment that is held at its turns is not loaded again. -/
theorem get?_of_admitAll {name : String} {seg : Segment dim}
    (held : ∀ i item, items[i]? = some item → item.1 = name →
      name ∈ (admitAll st limit segments (items.take i)).2.keys)
    (found : (admitAll st limit segments items).2.get? name = some seg) :
    segments.get? name = some seg := by
  induction items generalizing segments with
  | nil => exact found
  | cons first items ih =>
      cases ran : admitItem st limit segments first with
      | error e => rwa [admitAll_cons_error ran] at found
      | ok admitted =>
          rw [admitAll_cons_ok ran] at found
          have before : admitted.get? name = some seg := by
            apply ih _ found
            intro i item here named
            have later := held (i + 1) item here named
            rwa [List.take_succ_cons, admitAll_cons_ok ran] at later
          by_cases named : first.1 = name
          · have known : name ∈ segments.keys := held 0 first rfl named
            rw [← named] at known
            unfold admitItem at ran
            rw [if_pos known] at ran
            cases ran
            rwa [Dict.get?_moveToEnd] at before
          · exact get?_of_admitItem named ran before

end Loop

/-! ## A refresh -/

/-- The names listed to the reader, from the oldest segment to the youngest. -/
def namesByAge (cache : SegmentCache dim) (allSegments : List SegmentMeta) : List String :=
  (byAge (cache.listed allSegments)).map Prod.fst

/-- The cached names that are still listed, least recent first. -/
def namesKept (cache : SegmentCache dim) (allSegments : List SegmentMeta) : List String :=
  cache.segments.keys.filter (· ∈ (cache.listed allSegments).keys)

theorem perm_namesByAge : (cache.namesByAge allSegments).Perm (cache.listed allSegments).keys :=
  (List.perm_insertionSort _ _).map Prod.fst

theorem nodup_namesByAge : (cache.namesByAge allSegments).Nodup :=
  perm_namesByAge.nodup_iff.mpr (Dict.keys_nodup _)

theorem nodup_namesKept : (cache.namesKept allSegments).Nodup :=
  (Dict.keys_nodup _).filter _

/-- What the loading loop starts with. -/
theorem keys_kept : (cache.segments.eraseAll
    (cache.segments.keys.filter fun name => name ∉ (cache.listed allSegments).keys)).keys =
      cache.namesKept allSegments := by
  rw [Dict.keys_eraseAll, namesKept]
  apply List.filter_congr
  intro name cached
  rw [decide_eq_decide, List.mem_filter, decide_eq_true_eq, not_and_not_right]
  exact ⟨fun listed => listed cached, fun listed _ => listed⟩

/-- Once every listed name is used, the queue is that of the listed names. -/
theorem queue_namesByAge : (cache.namesByAge allSegments).foldl requeue (cache.namesKept allSegments) =
    cache.namesByAge allSegments := by
  rw [foldl_requeue nodup_namesByAge, List.filter_eq_nil_iff.mpr, List.nil_append]
  intro name kept
  have listed := of_decide_eq_true (List.mem_filter.mp kept).2
  rw [decide_eq_true_eq, not_not]
  exact perm_namesByAge.mem_iff.mpr listed

theorem keys_of_loadListed
    (few : (cache.namesKept allSegments).length ≤ cache.maxSegmentsInMemory)
    (returned : (cache.loadListed st allSegments).1 = .ok ()) :
    (cache.loadListed st allSegments).2.segments.keys =
      (cache.namesByAge allSegments).rtake cache.maxSegmentsInMemory := by
  have held := keys_kept.trans (rtake_of_length_le few).symm
  have loaded := keys_of_admitAll nodup_namesKept held returned
  rwa [← namesByAge, queue_namesByAge] at loaded

theorem keys_readIds {segments : Dict String (Segment dim)} {names : List String} :
    (readIds st segments names).2.keys = segments.keys := by
  induction names generalizing segments with
  | nil => rfl
  | cons name names ih =>
      unfold readIds
      split
      · exact ih
      · next seg found =>
          split
          · rfl
          · dsimp only
            rw [ih, Dict.keys_set, if_pos (Dict.mem_keys_iff.mpr ⟨seg, found⟩)]

theorem keys_refreshVisibilityIndex :
    (cache.refreshVisibilityIndex st).2.segments.keys = cache.segments.keys := by
  unfold refreshVisibilityIndex buildSegmentHiddenIds
  dsimp only
  split
  · rfl
  · split
    · exact keys_readIds
    · exact keys_readIds

/-- A refresh that returns has loaded what it was listed. -/
theorem loadListed_of_refresh (returned : (cache.refresh st allSegments).1 = .ok ()) :
    (cache.loadListed st allSegments).1 = .ok () ∧ (cache.refresh st allSegments).2 =
      ((cache.loadListed st allSegments).2.refreshVisibilityIndex st).2 := by
  unfold refresh at returned ⊢
  cases loaded : (cache.loadListed st allSegments).1 with
  | error e =>
      simp only [loaded] at returned
      cases returned
  | ok done => exact ⟨rfl, by simp only [loaded]⟩

/-- **A refresh that returns** leaves the youngest segments listed, in order of age. -/
theorem keys_of_refresh (few : (cache.namesKept allSegments).length ≤ cache.maxSegmentsInMemory)
    (returned : (cache.refresh st allSegments).1 = .ok ()) :
    (cache.refresh st allSegments).2.segments.keys =
      (cache.namesByAge allSegments).rtake cache.maxSegmentsInMemory := by
  obtain ⟨loaded, refreshed⟩ := loadListed_of_refresh returned
  rw [refreshed, keys_refreshVisibilityIndex, keys_of_loadListed few loaded]

end SegmentCache

end VecScale
