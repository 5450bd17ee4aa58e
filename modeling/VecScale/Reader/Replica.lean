import VecScale.Reader.FilteredSearch
import VecScale.Reader.FullCache
import VecScale.Reader.Publishing
import VecScale.Storage.Backed

/-!
# An engine and a reader of its segments

A `Replica` is an engine, a reader, and the metadata that the reader can have been
told of: that of the engine's segments, now or at some earlier time.  Calls and
graceful restarts of the engine, refreshes and searches of the reader come in any
order.

* `Following.step`: what every event keeps;
* `engine_and_reader_agree`: when nothing is in the memtable, a reader with room that has
  just been refreshed with the engine's segments answers as the engine does.
-/

namespace VecScale

variable {dim : ℕ} {env : Env}

structure Replica (dim : ℕ) where
  node : Node dim
  reader : SegmentCache dim
  told : List SegmentMeta

inductive ReplicaEvent (dim : ℕ)
  | call (op : Op dim)
  | refresh (allSegments : List SegmentMeta)
  | search (snapshotId : ℕ)

namespace Replica

/-- A refresh that returns. -/
def refreshOnce (r : Replica dim) (allSegments : List SegmentMeta) :
    Except PyError (Replica dim) :=
  let refreshed := r.reader.refresh r.node.storage allSegments
  refreshed.1.map fun _ => { r with reader := refreshed.2 }

def step (env : Env) (r : Replica dim) : ReplicaEvent dim → Except PyError (Replica dim)
  | .call op => do
      let node ← r.node.run env op
      .ok { r with node, told := r.told ++ node.engine.segments.map Segment.segMeta }
  | .refresh allSegments => r.refreshOnce allSegments
  | .search snapshotId => .ok { r with reader := r.reader.touch snapshotId }

/-- The ids of a call are int64, and a refresh is given what the reader was told. -/
def Told (r : Replica dim) : ReplicaEvent dim → Prop
  | .call op => op.Int64
  | .refresh allSegments => ∀ segMeta ∈ allSegments, segMeta ∈ r.told
  | .search _ => True

instance (r : Replica dim) : (event : ReplicaEvent dim) → Decidable (r.Told event)
  | .call op => inferInstanceAs (Decidable op.Int64)
  | .refresh allSegments => inferInstanceAs (Decidable (∀ segMeta ∈ allSegments, segMeta ∈ r.told))
  | .search _ => inferInstanceAs (Decidable True)

end Replica

/-- What holds between events. -/
structure Following (env : Env) (r : Replica dim) : Prop where
  layout : ∃ old recent, Layout env r.node old recent
  backed : Backed r.node
  serves : r.reader.Serves r.node.engine.shardId
  library : ∃ library : Library dim,
    library.Publishes env r.node.engine.segments r.node.storage ∧ library.Lists r.told ∧
      library.Sound r.reader ∧ r.reader.Current

/-- A library that grows lists what it listed. -/
theorem Library.Lists.extend {library library' : Library dim} {metas : List SegmentMeta}
    (lists : library.Lists metas)
    (kept : ∀ name, (library name).segmentId = name → library' name = library name) :
    library'.Lists metas := by
  intro segMeta listed
  have used : (library segMeta.segmentId).segmentId = segMeta.segmentId :=
    congrArg SegmentMeta.segmentId (lists segMeta listed).1
  rw [kept _ used]
  exact lists segMeta listed

/-- A call of an engine that is alone on its storage. -/
theorem Library.Publishes.call {library : Library dim} {n n' : Node dim}
    {old recent old' recent' : List (WALRecord dim)}
    (publishes : library.Publishes env n.engine.segments n.storage)
    (layout : Layout env n old recent) (layout' : Layout env n' old' recent')
    (apart : Apart env n n') :
    ∃ library' : Library dim, library'.Publishes env n'.engine.segments n'.storage ∧
      ∀ name, (library name).segmentId = name → library' name = library name := by
  refine publishes.grow (fun seg member => ⟨layout'.segments.stored seg member,
    layout'.segments.drawn⟩) (fun seg member stored => ?_) apart.grows
  obtain ⟨seg', stored', path, own⟩ :=
    layout.segments.dirs seg.path (Dict.mem_keys_iff.mpr ⟨_, stored.files⟩)
  cases stored'.unique stored path
  exact own ((layout'.segments.shard seg member).trans apart.shardId)

/-- **The step lemma.** -/
theorem Following.step {r r' : Replica dim} {event : ReplicaEvent dim}
    (following : Following env r) (told : r.Told event) (ran : r.step env event = .ok r') :
    Following env r' := by
  obtain ⟨⟨old, recent, layout⟩, backed, serves, library, publishes, lists, sound, current⟩ :=
    following
  cases event with
  | call op =>
      obtain ⟨node, called, rest⟩ := ok_of_bind ran
      cases rest
      have step := run_cases layout told called
      obtain ⟨old', recent', layout'⟩ := step.layout layout
      have apart := step.apart layout rfl
      obtain ⟨library', publishes', kept⟩ := publishes.call layout layout' apart
      refine ⟨⟨old', recent', layout'⟩, step.backed backed, ?_, library', publishes', ?_,
        sound.extend current kept, current⟩
      · rw [apart.shardId]
        exact serves
      · intro segMeta member
        rcases List.mem_append.mp member with before | new
        · exact lists.extend kept segMeta before
        · rcases List.mem_map.mp new with ⟨seg, here, rfl⟩
          rw [publishes'.named seg here]
          exact ⟨rfl, (layout'.segments.stored seg here).metaPath.symm⟩
  | refresh allSegments =>
      obtain ⟨done, returned, rfl⟩ := ok_of_map ran
      obtain ⟨sound', current'⟩ := sound_of_refresh publishes.intact
        (fun segMeta listed => lists segMeta (told segMeta listed)) sound returned
      exact ⟨⟨old, recent, layout⟩, backed, SegmentCache.serves_refresh.mpr serves, library,
        publishes, lists, sound', current'⟩
  | search snapshotId =>
      cases ran
      exact ⟨⟨old, recent, layout⟩, backed, serves, library, publishes, lists,
        sound.touch snapshotId, current.touch snapshotId⟩

/-! ## What a refresh with the engine's segments leaves -/

section Agreement

variable {n : Node dim} {old recent : List (WALRecord dim)} {library : Library dim}
  {cache : SegmentCache dim} {allSegments : List SegmentMeta}

/-- The list names the engine's segments. -/
def Names (segments : List (Segment dim)) (allSegments : List SegmentMeta) : Prop :=
  ∀ segMeta, segMeta ∈ allSegments ↔ ∃ seg ∈ segments, seg.segMeta = segMeta

/-- By age, the listed segments are in the engine's order. -/
theorem byAge_of_names (wf : SegmentsWf env n.engine n.storage)
    (serves : cache.Serves n.engine.shardId) (names : Names n.engine.segments allSegments) :
    SegmentCache.byAge (cache.listed allSegments) =
      n.engine.segments.map fun seg => (seg.segmentId, seg.segMeta) := by
  let visible := cache.listed allSegments
  let target := n.engine.segments.map fun seg => (seg.segmentId, seg.segMeta)
  have found : ∀ item, item ∈ visible.entries → item ∈ target := by
    intro item member
    obtain ⟨named, here, -⟩ := mem_listed ((List.mem_insertionSort _).mpr member)
    obtain ⟨seg, inside, same⟩ := (names _).mp here
    refine List.mem_map.mpr ⟨seg, inside, Prod.ext ?_ same⟩
    rw [named, ← same]
  have listed : ∀ item, item ∈ visible.entries ↔ item ∈ target := by
    refine fun item => ⟨found item, fun member => ?_⟩
    rcases List.mem_map.mp member with ⟨seg, inside, rfl⟩
    have own : cache.Serves seg.shardId := by
      rw [wf.shard seg inside]
      exact serves
    obtain ⟨segMeta, here⟩ := Dict.mem_keys_iff.mp (mem_keys_listed.mpr
      ⟨seg.segMeta, (names _).mpr ⟨seg, inside, rfl⟩, own, rfl⟩)
    have entry := Dict.mem_entries_iff.mpr here
    obtain ⟨seg', inside', same⟩ := List.mem_map.mp (found _ entry)
    have one : seg' = seg := (wf.stored seg' inside').unique_name (wf.stored seg inside)
      (congrArg Prod.fst same)
    rwa [← same, one] at entry
  have nodup : visible.entries.Nodup := List.Nodup.of_map _ visible.nodup
  have agesNodup : (n.engine.segments.map Segment.snapshotId).Nodup :=
    (List.pairwise_map.mpr wf.sorted).imp fun younger => Nat.ne_of_lt younger
  have targetNodup : target.Nodup := by
    refine List.Nodup.of_map (fun item => item.2.snapshotId) ?_
    rw [List.map_map]
    exact agesNodup
  have whole : (SegmentCache.byAge visible).Perm target :=
    (List.perm_insertionSort _ _).trans
      ((List.perm_ext_iff_of_nodup nodup targetNodup).mpr listed)
  let key : String × SegmentMeta → ℕ ×ₗ String := fun item => toLex (item.2.snapshotId, item.1)
  have total : Std.Total fun a b => key a ≤ key b := ⟨fun a b => le_total (key a) (key b)⟩
  have trans : IsTrans (String × SegmentMeta) fun a b => key a ≤ key b := ⟨fun _ _ _ => le_trans⟩
  have ascending : target.Pairwise fun a b => key a ≤ key b :=
    List.pairwise_map.mpr (wf.sorted.imp fun {a b} older =>
      (Prod.Lex.toLex_lt_toLex.mpr (Or.inl older)).le)
  refine List.Perm.eq_of_pairwise ?_ (List.pairwise_insertionSort _ _) ascending whole
  intro a b left right below above
  have sameAge := congrArg (fun pair => (ofLex pair).1) (le_antisymm below above)
  obtain ⟨seg, inside, rfl⟩ := List.mem_map.mp (whole.mem_iff.mp left)
  rcases List.mem_map.mp right with ⟨seg', inside', rfl⟩
  rw [eq_of_snapshotId wf.sorted inside inside' sameAge]

/-- The refresh returns, and leaves the engine's segments in the engine's order. -/
theorem refresh_of_names (wf : SegmentsWf env n.engine n.storage)
    (publishes : library.Publishes env n.engine.segments n.storage) (sound : library.Sound cache)
    (serves : cache.Serves n.engine.shardId) (names : Names n.engine.segments allSegments)
    (room : n.engine.segments.length ≤ cache.maxSegmentsInMemory) :
    (cache.refresh n.storage allSegments).1 = .ok () ∧
      (cache.refresh n.storage allSegments).2.segments.keys =
        n.engine.segments.map Segment.segmentId := by
  have order := byAge_of_names wf serves names
  have few : (cache.listed allSegments).length ≤ cache.maxSegmentsInMemory := by
    have lengths := congrArg List.length order
    rw [SegmentCache.byAge, List.length_insertionSort, List.length_map] at lengths
    exact lengths.le.trans room
  have keys : (SegmentCache.byAge (cache.listed allSegments)).map Prod.fst =
      n.engine.segments.map Segment.segmentId := by
    rw [order, List.map_map]
    rfl
  have loads : ∀ item ∈ SegmentCache.byAge (cache.listed allSegments),
      ∃ seg, Segment.load n.storage item.2.path = .ok seg := by
    intro item member
    rw [order] at member
    rcases List.mem_map.mp member with ⟨seg, inside, rfl⟩
    have stored := wf.stored seg inside
    rw [stored.metaPath]
    exact ⟨seg, Segment.load_of_stored stored⟩
  have lists : library.Lists allSegments := by
    intro segMeta listed
    obtain ⟨seg, inside, rfl⟩ := (names segMeta).mp listed
    rw [publishes.named seg inside]
    exact ⟨rfl, (wf.stored seg inside).metaPath.symm⟩
  have cached := cached_of_loadListed publishes.intact lists sound.cached
  have loadedAll : (cache.loadListed n.storage allSegments).1 = .ok () := admitAll_returns loads
  have loadedKeys := keys_of_loadListed_room few loadedAll
  have returned : (cache.refresh n.storage allSegments).1 = .ok () := by
    apply refresh_returns loads
    intro name seg' found
    have member := Dict.mem_keys_iff.mpr ⟨seg', found⟩
    rw [loadedKeys, SegmentCache.namesByAge, keys] at member
    rcases List.mem_map.mp member with ⟨seg, inside, rfl⟩
    have copies := (cached _ seg' found).2
    rw [publishes.named seg inside] at copies
    have files := Segment.files_of_stored (wf.stored seg inside)
    unfold Segment.loadIds
    cases seg'.idsCache with
    | some ids => exact ⟨ids, seg', rfl⟩
    | none =>
        rw [copies.path, files]
        exact ⟨_, _, rfl⟩
  exact ⟨returned, (keys_of_refresh_room few returned).trans keys⟩

/-! ## What both search -/

variable {D : Type} [LinearOrder D] (faiss : Faiss dim D)

/-- A reader with the engine's segments searches them in the engine's order. -/
theorem searchResults_of_keys (publishes : library.Publishes env n.engine.segments n.storage)
    (sound : library.Sound cache) (keys : cache.segments.keys = n.engine.segments.map Segment.segmentId)
    {s : ℕ} (bounded : ∀ seg ∈ n.engine.segments, seg.snapshotId ≤ s) (q : Vec dim)
    (topK nprobe : ℕ) :
    cache.searchResults faiss q topK nprobe s = n.engine.segments.map fun seg =>
      filterResultIds (seg.search faiss q topK nprobe) (cache.hiddenIds seg.segmentId) := by
  let hitsOf : String → List (ℤ × D) := fun name =>
    filterResultIds ((library name).search faiss q topK nprobe) (cache.hiddenIds name)
  have named : ∀ e ∈ cache.segments.entries, ∃ seg ∈ n.engine.segments, seg.segmentId = e.1 ∧
      seg.Copies e.2 := by
    intro e member
    have listed : e.1 ∈ cache.segments.keys := List.mem_map_of_mem member
    rw [keys] at listed
    rcases List.mem_map.mp listed with ⟨seg, inside, same⟩
    have copies := (sound.cached e.1 e.2 (Dict.mem_entries_iff.mp member)).2
    rw [← same, publishes.named seg inside] at copies
    exact ⟨seg, inside, same, copies⟩
  have visible : cache.visibleSegments s = cache.segments.entries := by
    refine List.filter_eq_self.mpr fun e member => decide_eq_true ?_
    obtain ⟨seg, inside, -, copies⟩ := named e member
    rw [Segment.snapshotId, copies.segMeta]
    exact bounded seg inside
  calc cache.searchResults faiss q topK nprobe s
      = cache.segments.entries.map fun e => hitsOf e.1 := by
        rw [SegmentCache.searchResults, visible]
        refine List.map_congr_left fun e member => ?_
        obtain ⟨seg, inside, same, copies⟩ := named e member
        simp only [hitsOf, ← same, publishes.named seg inside, Segment.search, copies.index]
    _ = (n.engine.segments.map Segment.segmentId).map hitsOf := by
        rw [← keys, Dict.keys, List.map_map]
        rfl
    _ = n.engine.segments.map fun seg =>
          filterResultIds (seg.search faiss q topK nprobe) (cache.hiddenIds seg.segmentId) := by
        rw [List.map_map]
        refine List.map_congr_left fun seg inside => ?_
        simp only [hitsOf, Function.comp, publishes.named seg inside]

/-- The reader's index hides what the engine's plan hides, as far as a segment holds it. -/
theorem mem_hiddenIds_iff (publishes : library.Publishes env n.engine.segments n.storage)
    (sound : library.Sound cache) (current : cache.Current)
    (keys : cache.segments.keys = n.engine.segments.map Segment.segmentId) {s : ℕ}
    {plan : SearchPlan dim} (planned : PlanAt n s plan) (whole : plan.segments = n.engine.segments)
    (noRows : plan.memRows = []) (deleted : plan.deletedIds = cache.tombstones)
    {seg : Segment dim} (inside : seg ∈ n.engine.segments) {x : ℤ} (holds : x ∈ batchIds seg.rows) :
    x ∈ cache.hiddenIds seg.segmentId ↔ x ∈ plan.hiddenIds seg := by
  have listed : ∀ {other : Segment dim}, other ∈ n.engine.segments →
      other.segmentId ∈ cache.visibilitySignature.map Prod.fst := by
    intro other member
    rw [current, keys]
    exact List.mem_map_of_mem member
  rw [SegmentCache.hiddenIds, Finset.mem_union, sound.indexes, planned.mem_hiddenIds, deleted,
    noRows, whole, publishes.named seg inside]
  have nothing : x ∉ batchIds ([] : List (Row dim)) := List.not_mem_nil
  simp only [nothing, false_or]
  apply or_congr_right
  constructor
  · intro indexed
    rcases indexed with ⟨-, -, name, known, inOther, younger⟩
    rw [current, keys] at known
    rcases List.mem_map.mp known with ⟨other, member, rfl⟩
    rw [publishes.named other member] at inOther younger
    exact ⟨other, member, inOther, younger⟩
  · intro outdated
    rcases outdated with ⟨other, member, inOther, younger⟩
    refine ⟨listed inside, holds, other.segmentId, listed member, ?_⟩
    rw [publishes.named other member]
    exact ⟨inOther, younger⟩

end Agreement

/-! ## Agreement -/

section Search

variable {D : Type} [LinearOrder D] (faiss : Faiss dim D)

theorem Following.search_agrees {r : Replica dim} (following : Following env r)
    (empty : r.node.engine.memtable.entries = ∅) {allSegments : List SegmentMeta}
    (names : Names r.node.engine.segments allSegments)
    (room : r.node.engine.segments.length ≤ r.reader.maxSegmentsInMemory) :
    ∃ refreshed, r.refreshOnce allSegments = .ok refreshed ∧
      ∀ (q : Vec dim) (topK nprobe : ℕ), ∃ after, LSMEngine.search faiss q.toList topK nprobe none
        r.node = .ok ((refreshed.reader.searchAll faiss q topK nprobe
          r.node.engine.wal.lastLsn).1, after) := by
  rcases following with ⟨⟨old, recent, layout⟩, backed, serves, library, publishes, lists, sound, -⟩
  have wf := layout.segments
  have noEntry : ∀ x, r.node.engine.memtable.entries.get? x = none := fun x => by rw [empty]; rfl
  obtain ⟨returned, keys⟩ := refresh_of_names wf publishes sound serves names room
  have told : library.Lists allSegments := by
    intro segMeta listed
    obtain ⟨seg, inside, rfl⟩ := (names segMeta).mp listed
    rw [publishes.named seg inside]
    exact ⟨rfl, (wf.stored seg inside).metaPath.symm⟩
  obtain ⟨soundAfter, currentAfter⟩ := sound_of_refresh publishes.intact told sound returned
  have tombstones : (r.reader.refresh r.node.storage allSegments).2.tombstones =
      r.node.engine.tombstones := by
    rw [SegmentCache.tombstones_refresh]
    exact backed.persisted fun x e entry => by rw [noEntry] at entry; cases entry
  refine ⟨_, by rw [Replica.refreshOnce, returned]; rfl, fun q topK nprobe => ?_⟩
  obtain ⟨plan, ran, planned⟩ := searchPlan_of_wf wf r.node.engine.wal.lastLsn
  obtain ⟨after, searched⟩ := LSMEngine.search_eq faiss r.node q topK nprobe none layout.started
  refine ⟨after, ?_⟩
  have whole : plan.segments = r.node.engine.segments := by
    rw [planned.segments]
    exact List.filter_eq_self.mpr fun seg member => decide_eq_true (wf.bounded seg member)
  have noRows : ∀ snapshot, r.node.engine.memtable.toArrays snapshot = [] := by
    intro snapshot
    rw [MemTable.toArrays, empty]
    rfl
  have noMarkers : r.node.engine.memtable.visibleDeletedIds (some r.node.engine.wal.lastLsn) = ∅ := by
    rw [MemTable.visibleDeletedIds, empty]
    rfl
  have deleted : plan.deletedIds = r.node.engine.tombstones := by
    rw [planned.deletedIds, noMarkers, Finset.empty_union]
  have noHits : r.node.engine.memtable.search faiss q topK (some r.node.engine.wal.lastLsn) = [] := by
    simp only [MemTable.search, noRows, List.length_nil, if_true]
  have results : LSMEngine.searchResults faiss plan r.node.engine.memtable q topK nprobe
      r.node.engine.wal.lastLsn =
        (r.reader.refresh r.node.storage allSegments).2.searchResults faiss q topK nprobe
          r.node.engine.wal.lastLsn := by
    rw [searchResults_of_keys faiss publishes soundAfter keys wf.bounded]
    simp only [LSMEngine.searchResults, noHits, List.length_nil, if_true, whole]
    refine List.map_congr_left fun seg inside => filterResultIds_congr fun hit member => ?_
    obtain ⟨v, row, -⟩ := (Faiss.mem_measure faiss).mp (IVFFlatIndex.mem_of_search faiss member).2
    exact (mem_hiddenIds_iff publishes soundAfter currentAfter keys planned whole
      (planned.memRows.trans (noRows _)) (deleted.trans tombstones.symm) inside
      (List.mem_map_of_mem row)).symm
  have atLast : LSMEngine.snapshotOf r.node none = r.node.engine.wal.lastLsn := rfl
  rw [searched, atLast, ran]
  simp only [Except.map, results, deleted, SegmentCache.searchAll, tombstones]

/-- A new engine and a new reader. -/
theorem Following.start {config : EngineConfig} {boot : Node dim}
    (booted : Node.boot env config = .ok boot) {limit : ℕ} {loadAllShards : Bool}
    {cache : SegmentCache dim}
    (made : SegmentCache.new config.shardId limit loadAllShards = .ok cache) :
    Following env ⟨boot, cache, []⟩ := by
  obtain ⟨n, booted', fresh⟩ := boot_fresh dim env config
  rw [booted, Except.ok.injEq] at booted'
  subst booted'
  obtain ⟨library, publishes⟩ := Library.exists_publishes dim env
  rw [← fresh.segments, ← fresh.storage] at publishes
  have reach : ReaderReach library cache :=
    ⟨config.shardId, limit, loadAllShards, cache, made, .refl⟩
  unfold SegmentCache.new at made
  split at made
  · cases made
    have nothing : library.Lists [] := fun segMeta listed => (List.not_mem_nil listed).elim
    exact ⟨⟨[], [], fresh.layout⟩, fresh.backed, Or.inr fresh.shardId, library, publishes, nothing,
      reach.sound, fun name => Iff.rfl⟩
  · cases made

/-- **The engine and a reader agree.**  After any calls and graceful restarts of an engine
and any refreshes and searches of a reader, when the memtable is empty and the reader has
room: a refresh with the engine's segments returns, and every search then gives what the
engine gives, in the same order. -/
theorem engine_and_reader_agree {config : EngineConfig} {boot : Node dim}
    (booted : Node.boot env config = .ok boot) {limit : ℕ} {loadAllShards : Bool}
    {cache : SegmentCache dim}
    (made : SegmentCache.new config.shardId limit loadAllShards = .ok cache)
    {events : List (ReplicaEvent dim)}
    (told : StepsMeet (Replica.step env) Replica.Told ⟨boot, cache, []⟩ events) {r : Replica dim}
    (ran : runAll (Replica.step env) ⟨boot, cache, []⟩ events = .ok r)
    (empty : r.node.engine.memtable.entries = ∅) {allSegments : List SegmentMeta}
    (names : Names r.node.engine.segments allSegments)
    (room : r.node.engine.segments.length ≤ r.reader.maxSegmentsInMemory) :
    ∃ refreshed, r.refreshOnce allSegments = .ok refreshed ∧
      ∀ (q : Vec dim) (topK nprobe : ℕ), ∃ after, LSMEngine.search faiss q.toList topK nprobe none
        r.node = .ok ((refreshed.reader.searchAll faiss q topK nprobe
          r.node.engine.wal.lastLsn).1, after) := by
  have following : Following env r := runAll_preserves (P := Following env)
    (fun _ _ _ following told ran => following.step told ran) (.start booted made) told ran
  exact following.search_agrees faiss empty names room

/-- The metadata of the segment that the first flush below writes. -/
def firstFlushed : SegmentMeta :=
  let name := segmentName 0 1 (Uuid4.counted.hex 0)
  ⟨name, 0, 2, 1, segmentPath name⟩

/-- An old version, a refresh, a delete, a merge, and a restart that replays nothing. -/
def followed : List (ReplicaEvent 1) :=
  [.call (.insert [(1, zeroVec 1), (2, zeroVec 1)]), .call .flush, .refresh [firstFlushed],
    .search 1, .call (.delete [1]), .call (.insert [(2, unitVec), (3, unitVec)]), .call .flush,
    .call (.restart 5), .call (.insert [(4, zeroVec 1)]), .call .flush]

theorem engine_and_reader_agree_followed :
    ∃ r refreshed : Replica 1, r.node.engine.segments.length = 2 ∧
      r.refreshOnce (r.node.engine.segments.map Segment.segMeta) = .ok refreshed ∧
      ∀ (q : Vec 1) (topK nprobe : ℕ), ∃ after,
        LSMEngine.search (bruteForce 1) q.toList topK nprobe none r.node =
          .ok ((refreshed.reader.searchAll (bruteForce 1) q topK nprobe
            r.node.engine.wal.lastLsn).1, after) := by
  have evaluated : (do
      let boot ← Node.boot Env.counted ⟨0, 1, 10, 2⟩
      let cache ← SegmentCache.new 0 20 false
      let r ← runAll (Replica.step Env.counted) ⟨boot, cache, []⟩ followed
      .ok (decide (StepsMeet (Replica.step Env.counted) Replica.Told ⟨boot, cache, []⟩ followed ∧
        r.node.engine.memtable.entries = ∅ ∧ r.node.engine.segments.length = 2 ∧
        r.node.engine.segments.length ≤ r.reader.maxSegmentsInMemory))) = .ok true := by
    decide +kernel
  obtain ⟨boot, booted, rest⟩ := ok_of_bind evaluated
  obtain ⟨cache, made, rest⟩ := ok_of_bind rest
  obtain ⟨r, ran, rest⟩ := ok_of_bind rest
  rw [Except.ok.injEq, decide_eq_true_eq] at rest
  obtain ⟨refreshed, returned, agrees⟩ := engine_and_reader_agree (bruteForce 1) booted made rest.1
    ran rest.2.1 (fun _ => List.mem_map) rest.2.2.2
  exact ⟨r, refreshed, rest.2.2.1, returned, agrees⟩

end Search

end VecScale
