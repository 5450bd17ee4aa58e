import Mathlib.Data.List.DropRight
import VecScale.Reader.Deployment

/-!
# A writer and several readers

The readers refresh on their own, each when its turn comes, while the writer goes on.  What
a reader returns is as old as its last refresh.

* `Fleet.Trails`: what holds between events, with `Fleet.Trails.step` for one event;
* `Fleet.hits_of_past`: a hit of a reader was in force when the reader last refreshed.
-/

namespace VecScale

variable {dim : ℕ} {env : Env}

/-- A writer of one shard, and readers of that shard. -/
structure Fleet (dim : ℕ) where
  cluster : Cluster dim 1
  readers : String → SegmentCache dim

inductive FleetEvent (dim : ℕ)
  | call (request : Call dim)
  | refresh (nodeId : String)
  | search (nodeId : String) (snapshotId : ℕ)

namespace FleetEvent

/-- The event for one reader. -/
def seenFrom (nodeId : String) : FleetEvent dim → Option (Event dim)
  | .call request => some (.call request)
  | .refresh other => if other = nodeId then some .refresh else none
  | .search other snapshotId => if other = nodeId then some (.search snapshotId) else none

def call? : FleetEvent dim → Option (Call dim)
  | .call request => some request
  | .refresh _ | .search _ _ => none

def refreshes (nodeId : String) : FleetEvent dim → Bool
  | .refresh other => other = nodeId
  | .call _ | .search _ _ => false

def Int64 : FleetEvent dim → Prop
  | .call request => request.Int64
  | .refresh _ | .search _ _ => True

instance : (event : FleetEvent dim) → Decidable event.Int64
  | .call request => inferInstanceAs (Decidable request.Int64)
  | .refresh _ | .search _ _ => inferInstanceAs (Decidable True)

/-- The calls before the last refresh of a reader. -/
def past (nodeId : String) (events : List (FleetEvent dim)) : List (Call dim) :=
  (events.rdropWhile fun event => !event.refreshes nodeId).filterMap call?

/-- A reader sees a call, its own refreshes and its own searches. -/
theorem seenFrom_cases (nodeId : String) (event : FleetEvent dim) :
    (∃ request, event = .call request) ∨ event = .refresh nodeId ∨
      (∃ snapshotId, event = .search nodeId snapshotId) ∨
      (event.seenFrom nodeId = none ∧ event.call? = none ∧ event.refreshes nodeId = false) := by
  cases event with
  | call request => exact Or.inl ⟨request, rfl⟩
  | refresh other =>
      by_cases same : other = nodeId
      · exact Or.inr (Or.inl (congrArg refresh same))
      · exact Or.inr (Or.inr (Or.inr ⟨if_neg same, rfl, decide_eq_false same⟩))
  | search other snapshotId =>
      by_cases same : other = nodeId
      · exact Or.inr (Or.inr (Or.inl ⟨snapshotId, by rw [same]⟩))
      · exact Or.inr (Or.inr (Or.inr ⟨if_neg same, rfl, rfl⟩))

theorem past_concat (nodeId : String) (events : List (FleetEvent dim)) (event : FleetEvent dim) :
    past nodeId (events ++ [event]) =
      if event.refreshes nodeId then events.filterMap call? else past nodeId events := by
  unfold past
  cases mine : event.refreshes nodeId with
  | false =>
      rw [List.rdropWhile_concat_pos _ _ _ (by simp [mine])]
      rfl
  | true =>
      rw [List.rdropWhile_concat_neg _ _ _ (by simp [mine]), List.filterMap_append]
      have noCall : event.call? = none := by
        cases event with
        | call request => cases mine
        | refresh other => rfl
        | search other snapshotId => rfl
      rw [List.filterMap_cons, noCall]
      exact List.append_nil _

end FleetEvent

namespace Fleet

/-- One reader with the writer. -/
def only (f : Fleet dim) (nodeId : String) : Deployment dim := ⟨f.cluster, f.readers nodeId⟩

def setReader (f : Fleet dim) (nodeId : String) (cache : SegmentCache dim) : Fleet dim :=
  { f with readers := Function.update f.readers nodeId cache }

def step (env : Env) (f : Fleet dim) : FleetEvent dim → Except PyError (Fleet dim)
  | .call request => (f.cluster.call env request).map fun cluster => { f with cluster }
  | .refresh nodeId => (f.only nodeId).refreshOnce.map fun w => f.setReader nodeId w.reader
  | .search nodeId snapshotId => .ok (f.setReader nodeId ((f.readers nodeId).touch snapshotId))

/-- An insert keeps the old rows buried, and a reader that refreshes has room. -/
def Spares (f : Fleet dim) : FleetEvent dim → Prop
  | .call request => request.KeepsBuried (f.cluster.writer.engines 0)
  | .refresh nodeId =>
      f.cluster.registry.listSegments.length ≤ (f.readers nodeId).maxSegmentsInMemory
  | .search _ _ => True

instance (f : Fleet dim) : (event : FleetEvent dim) → Decidable (f.Spares event)
  | .call request => inferInstanceAs (Decidable (request.KeepsBuried _))
  | .refresh _ => inferInstanceAs (Decidable (_ ≤ _))
  | .search _ _ => inferInstanceAs (Decidable True)

theorem reader_setReader (f : Fleet dim) (nodeId other : String) (cache : SegmentCache dim) :
    (f.setReader nodeId cache).readers other =
      if other = nodeId then cache else f.readers other := Function.update_apply ..

/-- An event that a reader sees is one of its own. -/
theorem only_of_seen {f f' : Fleet dim} {event : FleetEvent dim} (ran : f.step env event = .ok f')
    {nodeId : String} {seen : Event dim} (sees : event.seenFrom nodeId = some seen) :
    (f.only nodeId).step env seen = .ok (f'.only nodeId) := by
  rcases event.seenFrom_cases nodeId with ⟨request, rfl⟩ | rfl | ⟨snapshotId, rfl⟩ | ⟨unseen, -⟩
  · cases sees
    obtain ⟨c, called, rfl⟩ := ok_of_map ran
    simp only [Deployment.step, only, called]
    rfl
  · rw [FleetEvent.seenFrom, if_pos rfl] at sees
    cases sees
    obtain ⟨w, refreshed, rfl⟩ := ok_of_map ran
    obtain ⟨done, returned, rfl⟩ := ok_of_map refreshed
    refine Eq.trans refreshed (congrArg Except.ok ?_)
    simp only [only, reader_setReader, if_true]
    rfl
  · rw [FleetEvent.seenFrom, if_pos rfl] at sees
    cases sees
    cases ran
    simp only [Deployment.step, only, reader_setReader, if_true]
    rfl
  · rw [unseen] at sees
    cases sees

/-- Other events are nothing to it. -/
theorem only_of_unseen {f f' : Fleet dim} {event : FleetEvent dim} (ran : f.step env event = .ok f')
    {nodeId : String} (unseen : event.seenFrom nodeId = none) : f'.only nodeId = f.only nodeId := by
  cases event with
  | call request => cases unseen
  | refresh other =>
      have other : nodeId ≠ other := by
        rintro rfl
        simp [FleetEvent.seenFrom] at unseen
      obtain ⟨w, refreshed, rfl⟩ := ok_of_map ran
      simp only [only, reader_setReader, if_neg other]
      rfl
  | search other snapshotId =>
      have other : nodeId ≠ other := by
        rintro rfl
        simp [FleetEvent.seenFrom] at unseen
      cases ran
      simp only [only, reader_setReader, if_neg other]
      rfl

variable {f f' : Fleet dim}

/-- What holds of every reader between events: it follows the writer, and serves rows that
were in force when it last refreshed. -/
structure Trails (env : Env) (history : List (FleetEvent dim)) (f : Fleet dim) : Prop where
  follows : ∀ nodeId, Follows env (history.filterMap (FleetEvent.seenFrom nodeId)) (f.only nodeId)
  past : ∀ nodeId s, ∀ row ∈ (f.readers nodeId).survivors s,
    row ∈ inForce (FleetEvent.past nodeId history)

/-- The calls are the same for every reader. -/
theorem calls_seenFrom (nodeId : String) (history : List (FleetEvent dim)) :
    (history.filterMap (FleetEvent.seenFrom nodeId)).filterMap Event.call? =
      history.filterMap FleetEvent.call? := by
  rw [List.filterMap_filterMap]
  refine List.filterMap_congr fun event _ => ?_
  rcases event.seenFrom_cases nodeId with ⟨request, rfl⟩ | rfl | ⟨snapshotId, rfl⟩ | ⟨unseen, none, -⟩
  · rfl
  · simp only [FleetEvent.seenFrom, if_true]
    rfl
  · simp only [FleetEvent.seenFrom, if_true]
    rfl
  · rw [unseen, none]
    rfl

/-- A search changes nothing of what the reader serves. -/
theorem mem_survivors_touch {history : List (Event dim)} {w : Deployment dim}
    (follows : Follows env history w) {s t : ℕ} {row : Row dim} :
    row ∈ (w.reader.touch t).survivors s ↔ row ∈ w.reader.survivors s := by
  rcases row with ⟨x, v⟩
  obtain ⟨library, -, sound, current⟩ := follows.library
  have segments : ∀ seg, seg ∈ (w.reader.touch t).segments.values ↔ seg ∈ w.reader.segments.values := by
    intro seg
    simp only [Dict.mem_values_iff, SegmentCache.touch, Dict.get?_foldl_moveToEnd]
  rw [SegmentCache.mem_survivors_iff (sound.touch t) (current.touch t),
    SegmentCache.mem_survivors_iff sound current]
  simp only [segments]
  rfl

/-- What a reader sees meets what `reader_serves_in_force` asks. -/
theorem spares_of_seen {event : FleetEvent dim} (int64 : event.Int64) (spares : f.Spares event)
    {nodeId : String} {seen : Event dim} (sees : event.seenFrom nodeId = some seen) :
    seen.Int64 ∧ (f.only nodeId).Spares seen := by
  cases event with
  | call request =>
      cases sees
      exact ⟨int64, spares⟩
  | refresh other =>
      obtain ⟨-, same⟩ := Option.ite_none_right_eq_some.mp sees
      cases same
      exact ⟨trivial, trivial⟩
  | search other snapshotId =>
      obtain ⟨-, same⟩ := Option.ite_none_right_eq_some.mp sees
      cases same
      exact ⟨trivial, trivial⟩

/-- **The step lemma.** -/
theorem Trails.step {history : List (FleetEvent dim)} {event : FleetEvent dim}
    (trails : Trails env history f) (int64 : event.Int64) (spares : f.Spares event)
    (ran : f.step env event = .ok f') : Trails env (history ++ [event]) f' := by
  constructor
  · intro nodeId
    rw [List.filterMap_append, List.filterMap_cons]
    cases sees : event.seenFrom nodeId with
    | none =>
        rw [only_of_unseen ran sees]
        simpa using trails.follows nodeId
    | some seen =>
        obtain ⟨seenInt64, seenSpares⟩ := spares_of_seen int64 spares sees
        exact (trails.follows nodeId).step seenInt64 seenSpares (only_of_seen ran sees)
  · intro nodeId s row survives
    have follows := trails.follows nodeId
    rw [FleetEvent.past_concat]
    rcases event.seenFrom_cases nodeId with
      ⟨request, rfl⟩ | rfl | ⟨snapshotId, rfl⟩ | ⟨unseen, -, other⟩
    · obtain ⟨c, called, rfl⟩ := ok_of_map ran
      exact trails.past nodeId s row survives
    · -- a refresh brings the reader up to now
      have refreshed : (f.only nodeId).refreshOnce = .ok (f'.only nodeId) :=
        only_of_seen ran (if_pos rfl)
      have mine : (.refresh nodeId : FleetEvent dim).refreshes nodeId = true :=
        decide_eq_true rfl
      obtain ⟨live, newest⟩ := follows.newest_of_survivor refreshed spares survives
      rw [if_pos mine, ← calls_seenFrom nodeId]
      exact follows.served.segments row.1 row.2 live newest
    · cases ran
      rw [reader_setReader, if_pos rfl] at survives
      exact trails.past nodeId s row ((mem_survivors_touch follows).mp survives)
    · have same : f'.readers nodeId = f.readers nodeId :=
        congrArg Deployment.reader (only_of_unseen ran unseen)
      rw [same] at survives
      rw [other]
      exact trails.past nodeId s row survives

/-- New readers of a new writer. -/
theorem Trails.start {settings : Settings} {boot : Cluster dim 1}
    (booted : Cluster.boot env settings = .ok boot) {limit : ℕ} {loadAllShards : Bool}
    {cache : SegmentCache dim} (made : SegmentCache.new 0 limit loadAllShards = .ok cache) :
    Trails env [] ⟨boot, fun _ => cache⟩ := by
  have follows : Follows env [] ⟨boot, cache⟩ := Follows.start booted made
  refine ⟨fun _ => follows, fun nodeId s row survives => ?_⟩
  obtain ⟨library, -, sound, current⟩ := follows.library
  have empty : cache.segments = ∅ := by
    unfold SegmentCache.new at made
    split at made <;> cases made
    rfl
  obtain ⟨-, seg, value, -⟩ := (SegmentCache.mem_survivors_iff sound current).mp survives
  rw [empty] at value
  cases value

/-- **Readers serve the past.**  From a fresh start, however calls, refreshes and searches
of any readers come in between, every hit of a reader was in force when that reader last
refreshed, if every insert kept the old rows buried and the readers have room. -/
theorem hits_of_past {D : Type} [LinearOrder D] (faiss : Faiss dim D)
    {settings : Settings} {boot : Cluster dim 1} (booted : Cluster.boot env settings = .ok boot)
    {limit : ℕ} {loadAllShards : Bool} {cache : SegmentCache dim}
    (made : SegmentCache.new 0 limit loadAllShards = .ok cache) {events : List (FleetEvent dim)}
    (meets : StepsMeet (Fleet.step env) (fun f event => event.Int64 ∧ f.Spares event)
      ⟨boot, fun _ => cache⟩ events)
    (ran : runAll (Fleet.step env) ⟨boot, fun _ => cache⟩ events = .ok f) (nodeId : String)
    (q : Vec dim) (topK nprobe s : ℕ) :
    ∀ hit ∈ ((f.readers nodeId).searchAll faiss q topK nprobe s).1, ∃ v,
      (hit.1, v) ∈ inForce (FleetEvent.past nodeId events) ∧ hit.2 = faiss.l2 q v := by
  have trails := runAll_carries (R := Trails env)
    (fun history f event f' trails here ran => trails.step here.1 here.2 ran) []
    (.start booted made) meets ran
  intro hit returned
  have near := nearestById_mergeResults ((f.readers nodeId).searchResults faiss q topK nprobe s)
    topK (f.readers nodeId).tombstones
  have survives := (f.readers nodeId).mem_survivors_of_retrieved faiss q topK nprobe s _
    (near.least _ returned).1
  obtain ⟨v, row, distance⟩ := (Faiss.mem_measure faiss).mp survives
  exact ⟨v, trails.past nodeId s _ row, distance⟩

end Fleet

end VecScale
