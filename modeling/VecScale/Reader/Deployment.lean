import VecScale.Reader.FullCache
import VecScale.Reader.Publishing
import VecScale.Reader.SnapshotRead
import VecScale.Writer.InForce

/-!
# A writer and a reader

A `Deployment` is a writer of one shard with a reader of that shard.  The writer is
called, the reader is refreshed with the full list of registered segments, or
searched, in any order.

* `Follows`: what holds between events, with `Follows.step` for one event;
* `reader_serves_in_force`: right after a refresh, a search returns only rows in
  force, provided every insert kept the old rows buried.
-/

namespace VecScale

variable {dim : ℕ} {env : Env}

structure Deployment (dim : ℕ) where
  cluster : Cluster dim 1
  reader : SegmentCache dim

inductive Event (dim : ℕ)
  | call (request : Call dim)
  | refresh
  | search (snapshotId : ℕ)

/-- The call of an event, if it is one. -/
def Event.call? : Event dim → Option (Call dim)
  | .call request => some request
  | .refresh | .search _ => none

/-- The ids of the call are int64. -/
def Event.Int64 : Event dim → Prop
  | .call request => request.Int64
  | .refresh | .search _ => True

instance : (event : Event dim) → Decidable event.Int64
  | .call request => inferInstanceAs (Decidable request.Int64)
  | .refresh | .search _ => inferInstanceAs (Decidable True)

/-- `_refresh_once`. -/
def Deployment.refreshOnce (w : Deployment dim) : Except PyError (Deployment dim) :=
  let refreshed := w.reader.refresh w.cluster.storage w.cluster.registry.listSegments
  refreshed.1.map fun _ => { w with reader := refreshed.2 }

def Deployment.step (env : Env) (w : Deployment dim) : Event dim → Except PyError (Deployment dim)
  | .call request => (w.cluster.call env request).map fun cluster => { w with cluster }
  | .refresh => w.refreshOnce
  | .search snapshotId => .ok { w with reader := w.reader.touch snapshotId }

/-- The condition on an event, on the state before it. -/
def Deployment.Spares (w : Deployment dim) : Event dim → Prop
  | .call request => request.KeepsBuried (w.cluster.writer.engines 0)
  | .refresh | .search _ => True

instance (w : Deployment dim) : (event : Event dim) → Decidable (w.Spares event)
  | .call request => inferInstanceAs (Decidable (request.KeepsBuried _))
  | .refresh | .search _ => inferInstanceAs (Decidable True)

/-! ## One event -/

/-- What holds between events. -/
structure Follows (env : Env) (history : List (Event dim)) (w : Deployment dim) : Prop where
  registered : w.cluster.Registered
  sound : w.cluster.Sound env
  served : Served (w.cluster.node 0) (inForce (history.filterMap Event.call?))
  serves : w.reader.Serves 0
  library : ∃ library : Library dim,
    library.Publishes env w.cluster.writer.segments w.cluster.storage ∧
      library.Sound w.reader ∧ w.reader.Current

/-- A call on a writer of one shard is a call on its engine. -/
theorem Served.call {c c' : Cluster dim 1} {rows : List (Row dim)} {request : Call dim}
    (served : Served (c.node 0) rows) (sound : c.Sound env) (int64 : request.Int64)
    (keeps : request.KeepsBuried (c.writer.engines 0)) (ran : c.call env request = .ok c') :
    Served (c'.node 0) (request.enforce rows) := by
  obtain ⟨written, ranParts, finished⟩ := parts_of_call ran
  have only : request.parts 1 = [(0, request)] := by
    cases request with
    | insert rows =>
        rw [Call.parts, if_pos rfl]
    | delete ids =>
        rw [Call.parts, if_pos rfl]
  rw [only] at ranParts
  obtain ⟨middle, here, rest⟩ := runAll_cons_inv ranParts
  cases rest
  obtain ⟨old, recent, layout, ranNode⟩ := (sound.shardStep int64 here).ran
  have same := written.sameEngines_finish request
  rw [← finished] at same
  have node : c'.node 0 = written.node 0 := by
    unfold Cluster.node
    rw [same.engines, same.storage]
  rw [node]
  exact served.ran layout ranNode keeps

theorem inForce_filterMap_concat (history : List (Event dim)) (event : Event dim) :
    inForce ((history ++ [event]).filterMap Event.call?) = match event.call? with
      | some request => request.enforce (inForce (history.filterMap Event.call?))
      | none => inForce (history.filterMap Event.call?) := by
  rw [List.filterMap_append]
  cases event with
  | call request => exact inForce_concat _ _
  | refresh => exact congrArg inForce (List.append_nil _)
  | search snapshotId => exact congrArg inForce (List.append_nil _)

/-- **The step lemma.** -/
theorem Follows.step {history : List (Event dim)} {w w' : Deployment dim} {event : Event dim}
    (follows : Follows env history w) (int64 : event.Int64) (spares : w.Spares event)
    (ran : w.step env event = .ok w') : Follows env (history ++ [event]) w' := by
  rcases follows with ⟨registered, sound, served, serves, library, publishes, soundCache, current⟩
  cases event with
  | call request =>
      obtain ⟨c', called, rfl⟩ := ok_of_map ran
      obtain ⟨registered', sound', grows⟩ := registered.call sound int64 called
      obtain ⟨library', publishes', kept⟩ := publishes.extend sound sound' grows
      refine ⟨registered', sound', ?_, serves, library', publishes', soundCache.extend current kept,
        current⟩
      rw [inForce_filterMap_concat]
      exact served.call sound int64 spares called
  | refresh =>
      obtain ⟨done, returned, rfl⟩ := ok_of_map ran
      have lists := registered.lists sound publishes
      obtain ⟨soundCache', current'⟩ :=
        sound_of_refresh publishes.intact lists soundCache returned
      refine ⟨registered, sound, ?_, SegmentCache.serves_refresh.mpr serves, library, publishes,
        soundCache', current'⟩
      rw [inForce_filterMap_concat]
      exact served
  | search snapshotId =>
      cases ran
      refine ⟨registered, sound, ?_, serves, library, publishes, soundCache.touch snapshotId,
        current.touch snapshotId⟩
      rw [inForce_filterMap_concat]
      exact served

/-! ## From a fresh start -/

/-- A new writer and a new reader. -/
theorem Follows.start {settings : Settings} {boot : Cluster dim 1}
    (booted : Cluster.boot env settings = .ok boot) {limit : ℕ} {loadAllShards : Bool}
    {cache : SegmentCache dim} (made : SegmentCache.new 0 limit loadAllShards = .ok cache) :
    Follows env [] ⟨boot, cache⟩ := by
  obtain ⟨c, started, booted'⟩ := Cluster.boot_ok dim 1 env settings
  rw [booted, Except.ok.injEq] at booted'
  subst booted'
  have same := c.sameEngines_boot
  have sound := same.sound started.sound
  have registered := started.registered
  generalize c.loadRegisteredSegments.registerUnregisteredSegments = boot at *
  have node : boot.node 0 = c.node 0 := by
    unfold Cluster.node
    rw [same.engines, same.storage]
  have fresh := started.fresh 0
  rw [← node] at fresh
  refine ⟨registered, sound, ?_, Or.inr ?_, ?_⟩
  · refine ⟨?_, fun x e entry _ => ?_, fun x e v entry vector => ?_, fun x v live row => ?_⟩
    · rw [fresh.storage, fresh.tombstones]
      rfl
    · rw [fresh.layout.memtable x] at entry
      cases entry
    · rw [fresh.layout.memtable x] at entry
      cases entry
    · rw [fresh.segments] at row
      cases row
  · unfold SegmentCache.new at made
    split at made
    · cases made
      rfl
    · cases made
  · obtain ⟨library, publishes⟩ := Library.exists_publishes dim env
    have segments : boot.writer.segments = [] := by
      change (List.finRange 1).flatMap (fun shard => (boot.node shard).engine.segments) = []
      exact (List.flatMap_singleton _ _).trans fresh.segments
    have storage : boot.storage = SharedStorage.empty := fresh.storage
    refine ⟨library, ?_, ?_, ?_⟩
    · rw [segments, storage]
      exact publishes
    · exact ReaderReach.sound ⟨0, limit, loadAllShards, cache, made, .refl⟩
    · unfold SegmentCache.new at made
      split at made
      · cases made
        exact fun name => Iff.rfl
      · cases made

/-! ## What a search returns -/

/-- **Right after a refresh** a reader with room holds copies of the writer's segments
and nothing else. -/
theorem Follows.copies {history : List (Event dim)} {w w' : Deployment dim}
    (follows : Follows env history w) (refreshed : w.refreshOnce = .ok w')
    (room : w.cluster.registry.listSegments.length ≤ w.reader.maxSegmentsInMemory) :
    (∀ seg ∈ w'.reader.segments.values, ∃ published ∈ w.cluster.writer.segments,
      published.Copies seg) ∧
    ∀ published ∈ w.cluster.writer.segments, ∃ seg ∈ w'.reader.segments.values,
      published.Copies seg := by
  rcases follows with ⟨registered, sound, -, serves, library, publishes, soundCache, -⟩
  obtain ⟨done, returned, rfl⟩ := ok_of_map refreshed
  have lists := registered.lists sound publishes
  obtain ⟨soundCache', -⟩ := sound_of_refresh publishes.intact lists soundCache returned
  have keys : ∀ name, name ∈ (w.reader.refresh w.cluster.storage
      w.cluster.registry.listSegments).2.segments.keys ↔ _ :=
    fun name => mem_keys_of_refresh ((length_listed_le _).trans room) returned
  constructor
  · intro seg value
    rcases Dict.mem_values_iff.mp value with ⟨name, found⟩
    obtain ⟨segMeta, listed, -, same⟩ :=
      mem_keys_listed.mp ((keys name).mp (Dict.mem_keys_iff.mpr ⟨seg, found⟩))
    obtain ⟨published, member, rfl⟩ := (registered.2 segMeta).mp listed
    refine ⟨published, member, ?_⟩
    have copies := (soundCache'.cached name seg found).2
    rwa [← same, publishes.named published member] at copies
  · intro published member
    have own : w.reader.Serves published.shardId := by
      rw [Nat.lt_one_iff.mp (sound.shard_lt member)]
      exact serves
    have listed : published.segmentId ∈ (w.reader.listed w.cluster.registry.listSegments).keys :=
      mem_keys_listed.mpr
        ⟨published.segMeta, (registered.2 _).mpr ⟨published, member, rfl⟩, own, rfl⟩
    obtain ⟨seg, found⟩ := Dict.mem_keys_iff.mp ((keys _).mpr listed)
    refine ⟨seg, Dict.mem_values_iff.mpr ⟨_, found⟩, ?_⟩
    have copies := (soundCache'.cached _ seg found).2
    rwa [publishes.named published member] at copies

/-- What it lets through is the newest row of an id that is not tombstoned. -/
theorem Follows.newest_of_survivor {history : List (Event dim)} {w w' : Deployment dim}
    (follows : Follows env history w) (refreshed : w.refreshOnce = .ok w')
    (room : w.cluster.registry.listSegments.length ≤ w.reader.maxSegmentsInMemory) {s : ℕ} {x : ℤ}
    {v : Vec dim} (survives : (x, v) ∈ w'.reader.survivors s) :
    x ∉ (w.cluster.node 0).engine.tombstones ∧
      newestRow (w.cluster.node 0).engine.segments x = some v := by
  obtain ⟨copied, cached⟩ := follows.copies refreshed room
  rcases follows with ⟨registered, sound, served, -, library, publishes, soundCache, -⟩
  obtain ⟨done, returned, rfl⟩ := ok_of_map refreshed
  obtain ⟨soundCache', current'⟩ := sound_of_refresh publishes.intact
    (registered.lists sound publishes) soundCache returned
  rw [SegmentCache.mem_survivors_iff soundCache' current', SegmentCache.tombstones_refresh] at survives
  rcases survives with ⟨live, seg, value, -, row, youngest⟩
  have tombstones := served.persisted
  refine ⟨tombstones ▸ live, ?_⟩
  obtain ⟨old, recent, layout⟩ := sound.layout 0
  have segments : w.cluster.writer.segments = (w.cluster.node 0).engine.segments :=
    List.flatMap_singleton _ _
  rw [newestRow_eq_some_iff layout.segments.sorted layout.segments.nodup, ← segments]
  obtain ⟨published, member, copies⟩ := copied seg value
  refine ⟨published, member, ?_, fun other member' holds => ?_⟩
  · rw [Segment.rows, ← copies.index]
    exact row
  · obtain ⟨seg', value', copies'⟩ := cached other member'
    have younger := youngest seg' value' (by rwa [Segment.rows, copies'.index])
    rwa [Segment.snapshotId, Segment.snapshotId, copies.segMeta, copies'.segMeta] at younger

/-- **Serving only rows in force.**  From a fresh start, whatever calls, refreshes and
searches came before, a search right after a refresh of a reader with room returns
only rows in force, if every insert kept the old rows buried. -/
theorem reader_serves_in_force {D : Type} [LinearOrder D] (faiss : Faiss dim D)
    {settings : Settings} {boot : Cluster dim 1} (booted : Cluster.boot env settings = .ok boot)
    {limit : ℕ} {loadAllShards : Bool} {cache : SegmentCache dim}
    (made : SegmentCache.new 0 limit loadAllShards = .ok cache) {events : List (Event dim)}
    (meets : StepsMeet (Deployment.step env) (fun w event => event.Int64 ∧ w.Spares event)
      ⟨boot, cache⟩ events)
    {w final : Deployment dim} (ran : runAll (Deployment.step env) ⟨boot, cache⟩ events = .ok w)
    (refreshed : w.refreshOnce = .ok final)
    (room : w.cluster.registry.listSegments.length ≤ w.reader.maxSegmentsInMemory)
    (q : Vec dim) (topK nprobe s : ℕ) :
    ∀ hit ∈ (final.reader.searchAll faiss q topK nprobe s).1, ∃ v,
      (hit.1, v) ∈ inForce (events.filterMap Event.call?) ∧ hit.2 = faiss.l2 q v := by
  have follows := runAll_carries (R := Follows env)
    (fun history w event w' follows here step => follows.step here.1 here.2 step) []
    (.start booted made) meets ran
  intro hit returned
  rcases hit with ⟨x, d⟩
  have near := nearestById_mergeResults (final.reader.searchResults faiss q topK nprobe s) topK
    final.reader.tombstones
  have retrieved := (near.least _ returned).1
  have survives := final.reader.mem_survivors_of_retrieved faiss q topK nprobe s _ retrieved
  obtain ⟨v, row, distance⟩ := (Faiss.mem_measure faiss).mp survives
  obtain ⟨live, newest⟩ := follows.newest_of_survivor refreshed room row
  exact ⟨v, follows.served.segments x v live newest, distance⟩

/-- An id is flushed, deleted and inserted again at another place. -/
def reinsertedUnflushed : List (Call 1) :=
  [.insert [(1, zeroVec 1), (2, unitVec)], .delete [1], .insert [(1, unitVec)]]

/-- The reader returns the id at the place that was deleted. -/
theorem deleted_version_served :
    (do
      let boot ← Cluster.boot Env.counted ⟨1, 2, 2⟩
      let cache ← SegmentCache.new 0 20 false
      let w ← runAll (Deployment.step Env.counted) ⟨boot, cache⟩ (reinsertedUnflushed.map .call)
      let final ← w.refreshOnce
      .ok (final.reader.searchAll (bruteForce 1) (zeroVec 1) 10 1
        final.cluster.registry.currentSnapshotId).1) = .ok [(1, 0), (2, 1)] ∧
    ∀ row ∈ inForce reinsertedUnflushed, row.1 = 1 →
      (bruteForce 1).l2 (zeroVec 1) row.2 ≠ 0 := by
  decide +kernel

/-- The re-insert fills the memtable, and the reader is refreshed on the way. -/
def reinsertedFlushed : List (Event 1) :=
  [.call (.insert [(1, zeroVec 1), (2, zeroVec 1)]), .refresh, .call (.delete [1]), .search 2,
    .call (.insert [(1, unitVec), (3, unitVec)])]

theorem reader_serves_in_force_reinserted :
    ∃ (boot : Cluster 1 1) (cache : SegmentCache 1) (w final : Deployment 1),
      Cluster.boot Env.counted ⟨1, 2, 2⟩ = .ok boot ∧ SegmentCache.new 0 20 false = .ok cache ∧
      runAll (Deployment.step Env.counted) ⟨boot, cache⟩ reinsertedFlushed = .ok w ∧
      w.refreshOnce = .ok final ∧
      ∀ hit ∈ (final.reader.searchAll (bruteForce 1) (zeroVec 1) 10 1
          w.cluster.registry.currentSnapshotId).1, ∃ v,
        (hit.1, v) ∈ inForce (reinsertedFlushed.filterMap Event.call?) ∧
          hit.2 = (bruteForce 1).l2 (zeroVec 1) v := by
  have evaluated : (do
      let boot ← Cluster.boot Env.counted ⟨1, 2, 2⟩
      let cache ← SegmentCache.new 0 20 false
      let w ← runAll (Deployment.step Env.counted) ⟨boot, cache⟩ reinsertedFlushed
      let _ ← w.refreshOnce
      .ok (decide (StepsMeet (Deployment.step Env.counted) (fun w event =>
          event.Int64 ∧ w.Spares event) ⟨boot, cache⟩ reinsertedFlushed ∧
        w.cluster.registry.listSegments.length ≤ w.reader.maxSegmentsInMemory))) = .ok true := by
    decide +kernel
  obtain ⟨boot, booted, rest⟩ := ok_of_bind evaluated
  obtain ⟨cache, made, rest⟩ := ok_of_bind rest
  obtain ⟨w, ran, rest⟩ := ok_of_bind rest
  obtain ⟨final, refreshed, rest⟩ := ok_of_bind rest
  rw [Except.ok.injEq, decide_eq_true_eq] at rest
  exact ⟨boot, cache, w, final, booted, made, ran, refreshed,
    reader_serves_in_force (bruteForce 1) booted made rest.1 ran refreshed rest.2 (zeroVec 1) 10 1
      _⟩

end VecScale
