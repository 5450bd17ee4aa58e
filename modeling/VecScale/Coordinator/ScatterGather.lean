import VecScale.Reader.FullCache
import VecScale.Reader.Newest

/-!
# Scatter and replicated search

In scatter mode every reader searches its own shard and the coordinator merges the
answers; in replicated mode every reader has all segments and one of them answers.

* `scatter_agrees`: readers of the single shards together retrieve what a reader of
  all shards does, and cutting each answer before the merge loses nothing;
* `merge_one_answer`: in replicated mode the merge changes nothing.
-/

namespace VecScale

variable {dim : ℕ} {D : Type} [LinearOrder D] (faiss : Faiss dim D) {library : Library dim}
  {cache : SegmentCache dim} {st : SharedStorage dim} {allSegments : List SegmentMeta}

/-! ## One reader for each shard -/

/-- The cache is what a refresh that returned left to a reader with room for the list. -/
def SegmentCache.LoadedFrom (library : Library dim) (st : SharedStorage dim)
    (allSegments : List SegmentMeta) (cache : SegmentCache dim) : Prop :=
  ∃ before, ReaderReach library before ∧
    (before.listed allSegments).length ≤ before.maxSegmentsInMemory ∧
    before.refresh st allSegments = (.ok (), cache)

/-- What a reader has loaded. -/
theorem SegmentCache.LoadedFrom.loaded (loaded : cache.LoadedFrom library st allSegments)
    (intact : library.Intact st) (lists : library.Lists allSegments) :
    library.Sound cache ∧ cache.Current ∧ cache.tombstones = st.tombstonesJson.load ∧
      ∀ name, name ∈ cache.segments.keys ↔ ∃ segMeta ∈ allSegments,
        cache.Serves segMeta.shardId ∧ segMeta.segmentId = name := by
  rcases loaded with ⟨before, reach, room, refreshed⟩
  have returned : (before.refresh st allSegments).1 = .ok () := by rw [refreshed]
  have outcome : (before.refresh st allSegments).2 = cache := by rw [refreshed]
  obtain ⟨sound, current⟩ := sound_of_refresh intact lists reach.sound returned
  have tombstones : (before.refresh st allSegments).2.tombstones = st.tombstonesJson.load :=
    SegmentCache.tombstones_refresh
  have keys : ∀ name, name ∈ (before.refresh st allSegments).2.segments.keys ↔ _ :=
    fun name => mem_keys_of_refresh room returned
  have serves : ∀ shardId, (before.refresh st allSegments).2.Serves shardId ↔
      before.Serves shardId := fun _ => SegmentCache.serves_refresh
  rw [outcome] at sound current tombstones keys serves
  refine ⟨sound, current, tombstones, fun name => ?_⟩
  rw [keys, mem_keys_listed]
  simp only [serves]

/-- The segments of every shard hold ids of that shard. -/
def Library.Homed (library : Library dim) (numShards : ℕ) (allSegments : List SegmentMeta) : Prop :=
  ∀ segMeta ∈ allSegments, segMeta.shardId < numShards ∧
    ∀ x ∈ batchIds (library segMeta.segmentId).rows, x % numShards = segMeta.shardId

section Scatter

variable {numShards : ℕ} {shards : Fin numShards → SegmentCache dim} {whole : SegmentCache dim}

/-- Readers of single shards, one at least for each, together retrieve what the reader of
all does. -/
theorem mem_retrieved_scatter {ι : Type} {readers : ι → SegmentCache dim}
    (intact : library.Intact st) (lists : library.Lists allSegments)
    (homed : library.Homed numShards allSegments)
    (loaded : ∀ i, (readers i).LoadedFrom library st allSegments)
    (own : ∀ i, (readers i).loadAllShards = false)
    (covers : ∀ shard < numShards, ∃ i, (readers i).shardId = shard)
    (loadedWhole : whole.LoadedFrom library st allSegments) (all : whole.loadAllShards = true)
    {q : Vec dim} {topK nprobe s : ℕ} (hit : ℤ × D) :
    hit ∈ whole.retrieved faiss q topK nprobe s ↔
      ∃ i, hit ∈ (readers i).retrieved faiss q topK nprobe s := by
  obtain ⟨sound, current, tombstones, keys⟩ := loadedWhole.loaded intact lists
  have inWhole : ∀ name, name ∈ whole.segments.keys ↔
      ∃ segMeta ∈ allSegments, segMeta.segmentId = name := by
    intro name
    rw [keys]
    simp only [SegmentCache.Serves, all, true_or, true_and]
  have inShard : ∀ i name, name ∈ (readers i).segments.keys ↔ ∃ segMeta ∈ allSegments,
      segMeta.shardId = (readers i).shardId ∧ segMeta.segmentId = name := by
    intro i name
    rw [((loaded i).loaded intact lists).2.2.2]
    simp only [SegmentCache.Serves, own i, Bool.false_eq_true, false_or]
  have home : ∀ {segMeta : SegmentMeta}, segMeta ∈ allSegments →
      hit.1 ∈ batchIds (library segMeta.segmentId).rows → hit.1 % numShards = segMeta.shardId :=
    fun listed holds => (homed _ listed).2 hit.1 holds
  have holds : ∀ {name : String}, hit ∈ (library name).search faiss q topK nprobe →
      hit.1 ∈ batchIds (library name).rows := by
    intro name found
    obtain ⟨v, row, -⟩ := (Faiss.mem_measure faiss).mp (IVFFlatIndex.mem_of_search faiss found).2
    exact List.mem_map_of_mem row
  rw [SegmentCache.mem_retrieved_iff_library faiss sound current, tombstones]
  constructor
  · intro found
    rcases found with ⟨live, name, cached, old, inLibrary, youngest⟩
    obtain ⟨segMeta, listed, rfl⟩ := (inWhole name).mp cached
    obtain ⟨i, home⟩ := covers _ (homed _ listed).1
    obtain ⟨soundShard, currentShard, tombstonesShard, -⟩ := (loaded i).loaded intact lists
    refine ⟨i, ?_⟩
    rw [SegmentCache.mem_retrieved_iff_library faiss soundShard currentShard, tombstonesShard]
    refine ⟨live, _, (inShard _ _).mpr ⟨segMeta, listed, home.symm, rfl⟩, old, inLibrary, ?_⟩
    intro other cachedOther inOther
    obtain ⟨otherMeta, listedOther, -, rfl⟩ := (inShard _ _).mp cachedOther
    exact youngest _ ((inWhole _).mpr ⟨otherMeta, listedOther, rfl⟩) inOther
  · intro found
    rcases found with ⟨i, found⟩
    obtain ⟨soundShard, currentShard, tombstonesShard, -⟩ := (loaded i).loaded intact lists
    rw [SegmentCache.mem_retrieved_iff_library faiss soundShard currentShard,
      tombstonesShard] at found
    rcases found with ⟨live, name, cached, old, inLibrary, youngest⟩
    obtain ⟨segMeta, listed, shard, rfl⟩ := (inShard i name).mp cached
    refine ⟨live, _, (inWhole _).mpr ⟨segMeta, listed, rfl⟩, old, inLibrary, ?_⟩
    intro other cachedOther inOther
    obtain ⟨otherMeta, listedOther, rfl⟩ := (inWhole other).mp cachedOther
    -- a segment that holds the id is of the shard that the id belongs to
    have here := home listed (holds inLibrary)
    have there := home listedOther inOther
    apply youngest _ ((inShard i _).mpr ⟨otherMeta, listedOther, ?_, rfl⟩) inOther
    rw [← shard]
    omega

/-- **Scatter and replicated search agree.**  Merging what the readers of the single shards
return, in any order, gives what a reader of all shards returns, up to ties. -/
theorem scatter_agrees (intact : library.Intact st) (lists : library.Lists allSegments)
    (homed : library.Homed numShards allSegments)
    (loaded : ∀ i, (shards i).LoadedFrom library st allSegments)
    (own : ∀ i, (shards i).loadAllShards = false ∧ (shards i).shardId = i)
    (loadedWhole : whole.LoadedFrom library st allSegments) (all : whole.loadAllShards = true)
    {order : List (Fin numShards)} (everyShard : ∀ i, i ∈ order) (q : Vec dim)
    (topK nprobe s : ℕ) :
    AgreeUpToTies
      (mergeResults (order.map fun i => ((shards i).searchAll faiss q topK nprobe s).1) topK ∅)
      (whole.searchAll faiss q topK nprobe s).1 := by
  have near : NearestById topK (whole.retrieved faiss q topK nprobe s)
      (whole.searchAll faiss q topK nprobe s).1 := nearestById_mergeResults _ topK _
  have merged := nearestById_mergeResults
    (order.map fun i => ((shards i).searchAll faiss q topK nprobe s).1) topK ∅
  rw [undeleted_empty] at merged
  refine NearestById.agree (merged.of_parts (fun i => (shards i).retrieved faiss q topK nprobe s)
    (fun hit => ?_) fun i _ => nearestById_mergeResults _ topK _) near
  rw [mem_retrieved_scatter faiss intact lists homed loaded (fun i => (own i).1)
    (fun shard inside => ⟨⟨shard, inside⟩, (own _).2⟩) loadedWhole all hit]
  simp only [everyShard, true_and]

end Scatter

def evenSegment : Segment 1 × SharedStorage 1 :=
  Segment.create Uuid4.counted 0 1 [(2, zeroVec 1), (4, unitVec)] 1 SharedStorage.empty

def oddSegment : Segment 1 × SharedStorage 1 :=
  Segment.create Uuid4.counted 1 2 [(1, unitVec)] 1 evenSegment.2

def bothShards : List SegmentMeta := [evenSegment.1.segMeta, oddSegment.1.segMeta]

/-- A reader that has loaded what the list has for it. -/
def loadedReader (shardId : ℕ) (loadAllShards : Bool) : SegmentCache 1 :=
  (SegmentCache.refresh oddSegment.2 bothShards
    { freshCache with shardId, loadAllShards }).2

theorem scatter_agrees_bothShards :
    AgreeUpToTies
      (mergeResults ([1, 0].map fun i : Fin 2 =>
        ((loadedReader i false).searchAll (bruteForce 1) (zeroVec 1) 2 1 2).1) 2 ∅)
      ((loadedReader 0 true).searchAll (bruteForce 1) (zeroVec 1) 2 1 2).1 := by
  let library : Library 1 := fun name =>
    if name = oddSegment.1.segmentId then oddSegment.1 else evenSegment.1
  have intact : library.Intact oddSegment.2 := by
    apply Library.intact_of_stored
    intro name
    by_cases odd : name = oddSegment.1.segmentId
    · simp only [library, if_pos odd]
      exact Segment.create_stored _ _ _ _ _ _
    · simp only [library, if_neg odd]
      exact ⟨by decide +kernel, rfl, rfl, rfl⟩
  have lists : library.Lists bothShards := by
    unfold Library.Lists
    decide +kernel
  have homed : library.Homed 2 bothShards := by
    unfold Library.Homed
    decide +kernel
  have loaded : ∀ (i : Fin 2) (whole : Bool),
      (loadedReader i whole).LoadedFrom library oddSegment.2 bothShards := by
    intro i whole
    refine ⟨⟨i, 20, whole, ∅, ∅, ∅, [], by decide⟩, ⟨i, 20, whole, _, rfl, .refl⟩, ?_, Prod.ext ?_ rfl⟩
    · decide +revert +kernel
    · decide +revert +kernel
  exact scatter_agrees (bruteForce 1) intact lists homed (fun i => loaded i false)
    (by decide +kernel) (loaded 0 true) (by decide +kernel) (by decide) (zeroVec 1) 2 1 2

/-! ## One reader for all shards -/

/-- **In replicated mode** the coordinator merges one answer, and returns it. -/
theorem merge_one_answer (cache : SegmentCache dim) (q : Vec dim) (topK nprobe s : ℕ) :
    mergeResults [(cache.searchAll faiss q topK nprobe s).1] topK ∅ =
      (cache.searchAll faiss q topK nprobe s).1 := by
  have near : NearestById topK (cache.retrieved faiss q topK nprobe s)
      (cache.searchAll faiss q topK nprobe s).1 := nearestById_mergeResults _ topK _
  rw [mergeResults_eq, undeleted_empty, List.flatten_singleton, leastRows_of_nodup near.nodup]
  apply nsmallest_of_pairwise near.ascending
  rw [near.length]
  exact min_le_left _ _

end VecScale
