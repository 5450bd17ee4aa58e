import VecScale.Reader.Eviction

/-!
# A cache with room

A reader that has room for everything listed to it never evicts: after a refresh
that returned, it holds a segment for every name listed for its shard, and no
other, in order of age.

* `keys_of_refresh_room`: the refresh;
* `refresh_returns`: a refresh returns if every segment it needs has its directory.
-/

namespace VecScale

variable {dim : ℕ} {library : Library dim} {st : SharedStorage dim} {cache : SegmentCache dim}
  {allSegments : List SegmentMeta}

theorem length_listed_le (allSegments : List SegmentMeta) :
    (cache.listed allSegments).length ≤ allSegments.length := by
  have inside : (cache.listed allSegments).keys.toFinset ⊆
      (allSegments.map SegmentMeta.segmentId).toFinset := by
    intro name member
    obtain ⟨segMeta, listed, -, same⟩ := mem_keys_listed.mp (List.mem_toFinset.mp member)
    exact List.mem_toFinset.mpr (List.mem_map.mpr ⟨segMeta, listed, same⟩)
  have count := List.toFinset_card_of_nodup (Dict.keys_nodup (cache.listed allSegments))
  have bound := (Finset.card_le_card inside).trans (List.toFinset_card_le _)
  rwa [count, Dict.keys, List.length_map, List.length_map] at bound

/-- Names within the limit leave nothing to evict. -/
theorem evictOldest_of_subset {limit : ℕ} {segments : Dict String (Segment dim)}
    {names : Finset String} (inside : ∀ name ∈ segments.keys, name ∈ names)
    (room : names.card ≤ limit) : SegmentCache.evictOldest limit segments = segments := by
  have few : segments.length ≤ limit := by
    have sub : segments.keys.toFinset ⊆ names := fun name member =>
      inside name (List.mem_toFinset.mp member)
    have count := List.toFinset_card_of_nodup (Dict.keys_nodup segments)
    have bound := (Finset.card_le_card sub).trans room
    rw [count, Dict.keys, List.length_map] at bound
    exact bound
  unfold SegmentCache.evictOldest
  rw [Nat.sub_eq_zero_of_le few]
  rfl

/-- Loading keeps only what is listed. -/
theorem mem_keys_kept {name : String} (member : name ∈ (cache.segments.eraseAll
    (cache.segments.keys.filter fun known => known ∉ (cache.listed allSegments).keys)).keys) :
    name ∈ (cache.listed allSegments).keys := by
  rw [SegmentCache.keys_kept] at member
  exact of_decide_eq_true (List.mem_filter.mp member).2

theorem SegmentCache.length_namesByAge :
    (cache.namesByAge allSegments).length = (cache.listed allSegments).length := by
  rw [perm_namesByAge.length_eq, Dict.keys, List.length_map]
  rfl

theorem SegmentCache.namesKept_of_room
    (room : (cache.listed allSegments).length ≤ cache.maxSegmentsInMemory) :
    (cache.namesKept allSegments).length ≤ cache.maxSegmentsInMemory := by
  have inside : cache.namesKept allSegments ⊆ cache.namesByAge allSegments := by
    intro name kept
    exact perm_namesByAge.mem_iff.mpr (of_decide_eq_true (List.mem_filter.mp kept).2)
  have bound := (nodup_namesKept.subperm inside).length_le
  rw [length_namesByAge] at bound
  exact bound.trans room

/-- With room, what is loaded is what is listed, in order of age. -/
theorem keys_of_loadListed_room (room : (cache.listed allSegments).length ≤ cache.maxSegmentsInMemory)
    (returned : (cache.loadListed st allSegments).1 = .ok ()) :
    (cache.loadListed st allSegments).2.segments.keys = cache.namesByAge allSegments := by
  rw [SegmentCache.keys_of_loadListed (SegmentCache.namesKept_of_room room) returned,
    rtake_of_length_le (SegmentCache.length_namesByAge.trans_le room)]

/-- **A reader with room** holds the segments listed for it, in order of age. -/
theorem keys_of_refresh_room (room : (cache.listed allSegments).length ≤ cache.maxSegmentsInMemory)
    (returned : (cache.refresh st allSegments).1 = .ok ()) :
    (cache.refresh st allSegments).2.segments.keys = cache.namesByAge allSegments := by
  rw [SegmentCache.keys_of_refresh (SegmentCache.namesKept_of_room room) returned,
    rtake_of_length_le (SegmentCache.length_namesByAge.trans_le room)]

theorem mem_keys_of_refresh
    (room : (cache.listed allSegments).length ≤ cache.maxSegmentsInMemory)
    (returned : (cache.refresh st allSegments).1 = .ok ()) {name : String} :
    name ∈ (cache.refresh st allSegments).2.segments.keys ↔
      name ∈ (cache.listed allSegments).keys := by
  rw [keys_of_refresh_room room returned]
  exact SegmentCache.perm_namesByAge.mem_iff

/-! ## Returning -/

/-- The loading loop returns if every segment can be loaded. -/
theorem admitAll_returns {limit : ℕ} {segments : Dict String (Segment dim)}
    {items : List (String × SegmentMeta)}
    (loads : ∀ item ∈ items, ∃ seg, Segment.load st item.2.path = .ok seg) :
    (SegmentCache.admitAll st limit segments items).1 = .ok () := by
  induction items generalizing segments with
  | nil => rfl
  | cons item items ih =>
      have admits : ∃ admitted, SegmentCache.admitItem st limit segments item = .ok admitted := by
        unfold SegmentCache.admitItem
        split
        · exact ⟨_, rfl⟩
        · obtain ⟨seg, loaded⟩ := loads item List.mem_cons_self
          rw [loaded]
          exact ⟨_, rfl⟩
      rcases admits with ⟨admitted, ran⟩
      unfold SegmentCache.admitAll
      rw [ran]
      exact ih fun later member => loads later (List.mem_cons_of_mem _ member)

namespace SegmentCache

/-- The ids of a cached segment are remembered, or can be read. -/
def CanReadIds (st : SharedStorage dim) (seg : Segment dim) : Prop :=
  seg.idsCache.isSome ∨ (st.files seg.path).idsNpy.isSome

instance (st : SharedStorage dim) (seg : Segment dim) : Decidable (CanReadIds st seg) :=
  inferInstanceAs (Decidable (_ ∨ _))

theorem loadIds_of_canRead {seg : Segment dim} (readable : CanReadIds st seg) :
    ∃ ids remembering, seg.loadIds st = .ok (ids, remembering) := by
  unfold Segment.loadIds
  split
  · exact ⟨_, _, rfl⟩
  · next uncached =>
      rcases readable with cached | inFile
      · rw [uncached] at cached
        cases cached
      · rcases Option.isSome_iff_exists.mp inFile with ⟨ids, idsNpy⟩
        rw [idsNpy]
        exact ⟨_, _, rfl⟩

end SegmentCache

/-- The ids of every segment can be read. -/
def SegmentCache.Readable (st : SharedStorage dim) (segments : Dict String (Segment dim)) : Prop :=
  ∀ name seg, segments.get? name = some seg → ∃ ids remembering,
    seg.loadIds st = .ok (ids, remembering)

theorem readIds_returns {segments : Dict String (Segment dim)}
    (readable : SegmentCache.Readable st segments) (names : List String) :
    ∃ lists, (SegmentCache.readIds st segments names).1 = .ok lists := by
  induction names generalizing segments with
  | nil => exact ⟨[], rfl⟩
  | cons name names ih =>
      unfold SegmentCache.readIds
      split
      · exact ih readable
      · next seg found =>
          obtain ⟨ids, remembering, loaded⟩ := readable name seg found
          have remembered : ∃ again, remembering.loadIds st = .ok (ids, again) := by
            unfold Segment.loadIds at loaded
            split at loaded
            · next cached =>
                cases loaded
                exact ⟨seg, by simp only [Segment.loadIds, cached]⟩
            · split at loaded
              · cases loaded
              · cases loaded
                exact ⟨_, rfl⟩
          have rest : ∃ lists,
              (SegmentCache.readIds st (segments.set name remembering) names).1 = .ok lists := by
            apply ih
            intro other seg' here
            rw [Dict.get?_set] at here
            split at here
            · cases here
              rcases remembered with ⟨again, reloaded⟩
              exact ⟨ids, again, reloaded⟩
            · exact readable other seg' here
          rcases rest with ⟨lists, read⟩
          rw [loaded]
          dsimp only
          rw [read]
          exact ⟨_, rfl⟩

/-- A refresh returns if the loading loop does, and the ids of what it leaves can be
read. -/
theorem refresh_of_loaded (loaded : (cache.loadListed st allSegments).1 = .ok ())
    (readable : SegmentCache.Readable st (cache.loadListed st allSegments).2.segments) :
    (cache.refresh st allSegments).1 = .ok () := by
  obtain ⟨lists, read⟩ := readIds_returns readable
    (cache.loadListed st allSegments).2.segments.keys
  unfold SegmentCache.refresh
  simp only [loaded]
  unfold SegmentCache.refreshVisibilityIndex SegmentCache.buildSegmentHiddenIds
  dsimp only
  split
  · rfl
  · rw [read]
    rfl

/-- A refresh returns if every segment it asks for can be loaded, and the ids of what it
has then can be read. -/
theorem refresh_returns
    (loads : ∀ item ∈ SegmentCache.byAge (cache.listed allSegments),
      ∃ seg, Segment.load st item.2.path = .ok seg)
    (readable : SegmentCache.Readable st (cache.loadListed st allSegments).2.segments) :
    (cache.refresh st allSegments).1 = .ok () :=
  refresh_of_loaded (admitAll_returns loads) readable

end VecScale
