import VecScale.Coordinator.Answers
import VecScale.Coordinator.Json
import VecScale.Lib.RoundRobin

/-!
# Who gets a search

In scatter mode a search goes to every reader whose registration runs; in replicated mode it
goes to one of them, and the next search to the next.

* `Serving.search_eq`: the answer of a search, up to the requests that it sends;
* `round_robin`: as long as the readers stay the same, whatever else is requested, the
  searches go round, and no reader gets more than one more than another.
-/

namespace VecScale

open EtcdClient

namespace Coordinator

variable {env : CoordinatorEnv} {c : Coordinator} {metadata : Metadata}

/-- The readers whose registration runs. -/
def liveReaders (env : CoordinatorEnv) (c : Coordinator) : List NodeInfo :=
  readerNodes (c.refreshNodes env).2.nodes

theorem currentSnapshotId_cases {P : Coordinator → Prop} (asked : P (c.get env snapshotCurrent).2)
    (listed : P ((c.get env snapshotCurrent).2.listSegments env).2) :
    P (c.currentSnapshotId env).2 := by
  unfold Coordinator.currentSnapshotId
  dsimp only
  split
  · exact asked
  · split
    · exact asked
    · exact listed

theorem refreshNodes_cases {P : Coordinator → Prop} (refreshed : ∀ nodes ring,
      P { c.ask env (.getPrefix nodePrefix) with nodes := nodes, ring := ring }) :
    P (c.refreshNodes env).2 := by
  unfold Coordinator.refreshNodes
  dsimp only
  split <;> exact refreshed _ _

theorem searchCounter_refreshNodes : (c.refreshNodes env).2.searchCounter = c.searchCounter :=
  refreshNodes_cases (P := fun c' => c'.searchCounter = c.searchCounter) fun _ _ => rfl

theorem searchCounter_syncLeaderState :
    (c.syncLeaderState env).searchCounter = c.searchCounter := by
  have asked : (c.get env leaderKey).2.searchCounter = c.searchCounter := searchCounter_ask ..
  unfold Coordinator.syncLeaderState
  dsimp only
  split
  · split
    · exact (searchCounter_ask ..).trans ((searchCounter_ask ..).trans asked)
    · exact asked
  · split
    · exact (searchCounter_campaign ..).trans asked
    · exact asked

/-- What a search is about to do. -/
theorem Serving.search_eq (serving : Serving env c metadata) :
    c.search env =
      let searching := ((c.refreshNodes env).2.currentSnapshotId env).2
      let snapshotId := metadata.registry.currentSnapshotId
      if c.liveReaders env = [] then (.targets snapshotId [], searching)
      else
        let targets := searching.searchTargets env (c.liveReaders env)
        match targets.1 with
        | .error reply => (reply, targets.2)
        | .ok readers => (.targets snapshotId readers, targets.2) := by
  obtain ⟨returned, refreshed⟩ := serving.refreshNodes
  have nodes : ((c.refreshNodes env).2.currentSnapshotId env).2.nodes =
      (c.refreshNodes env).2.nodes :=
    currentSnapshotId_cases (P := fun c' => c'.nodes = (c.refreshNodes env).2.nodes) (nodes_ask ..)
      ((nodes_ask ..).trans (nodes_ask ..))
  have snapshot := refreshed.currentSnapshotId.1
  rw [liveReaders, ← nodes, Coordinator.search]
  -- both calls to the store return
  generalize c.refreshNodes env = found at returned snapshot ⊢
  rcases found with ⟨outcome, after⟩
  cases returned
  dsimp only at snapshot ⊢
  generalize after.currentSnapshotId env = current at snapshot ⊢
  rcases current with ⟨outcome, searching⟩
  cases snapshot
  rfl

/-! ## Taking turns -/

/-- The ids of the readers that a search goes to. -/
def targetIds : CoordinatorReply → List String
  | .targets _ readers => readers.map NodeInfo.nodeId
  | _ => []

/-- Where the searches went. -/
def sent (env : CoordinatorEnv) (c : Coordinator) : List CoordinatorCall → List (List String)
  | [] => []
  | .search :: calls => targetIds (c.search env).1 :: sent env (c.search env).2 calls
  | call :: calls => sent env (c.handle env call).2 calls

/-- Every search finds these readers. -/
def Steady (env : CoordinatorEnv) (readers : List String) : Coordinator → List CoordinatorCall → Prop
  | _, [] => True
  | c, call :: calls => (call = .search → (c.liveReaders env).map NodeInfo.nodeId = readers) ∧
      Steady env readers (c.handle env call).2 calls

/-- Only a search counts. -/
theorem searchCounter_handle {call : CoordinatorCall} (other : call ≠ .search) :
    (c.handle env call).2.searchCounter = c.searchCounter := by
  have proxied : ∀ method path, (c.proxyToLeader env method path).2.searchCounter =
      c.searchCounter := fun method path =>
    proxyToLeader_cases (P := fun c' => c'.searchCounter = c.searchCounter) (searchCounter_ask ..)
      (searchCounter_refreshNodes.trans (searchCounter_ask ..)) method path
  cases call with
  | register info =>
      rw [handle]
      split
      · rw [register]
        split
        · rfl
        · exact proxied _ _
      · rfl
  | registerSegment segMeta =>
      rw [handle]
      split
      · rw [registerSegment]
        split
        · dsimp only
          split <;> rfl
        · exact proxied _ _
      · rfl
  | deleteSegment segmentId =>
      rw [handle, deleteSegment]
      split
      · exact searchCounter_ask ..
      · exact proxied _ _
  | listSegments =>
      simp only [handle]
      split <;> exact searchCounter_ask ..
  | routeInsert count => rfl
  | routeSearch queryHash => rfl
  | search => exact absurd rfl other
  | health =>
      have kept : ((c.syncLeaderState env).refreshNodes env).2.searchCounter = c.searchCounter :=
        searchCounter_refreshNodes.trans searchCounter_syncLeaderState
      simp only [handle, health]
      split <;> exact kept
  | heartbeat => exact searchCounter_syncLeaderState.trans (searchCounter_ask ..)

/-- In replicated mode the one reader whose turn it is.  A sole reader gets every search, and the
counter then stands. -/
theorem searchTargets_replicated (replicated : env.searchFanoutMode.toLower = "replicated")
    {readers : List NodeInfo} (filled : readers ≠ []) :
    (c.searchTargets env readers).1 = .ok readers[c.searchCounter % readers.length]?.toList ∧
      (c.searchTargets env readers).2.searchCounter ≡ c.searchCounter + 1 [MOD readers.length] := by
  have several : env.searchFanoutMode.toLower ≠ "scatter" := by
    rw [replicated]
    decide
  unfold searchTargets
  dsimp only
  by_cases sole : readers.length ≤ 1
  · obtain ⟨reader, rfl⟩ := List.length_eq_one_iff.mp
      (le_antisymm sole (List.length_pos_iff.mpr filled))
    rw [if_pos (Or.inr sole)]
    refine ⟨?_, Nat.modEq_one⟩
    rw [List.length_singleton, Nat.mod_one]
    rfl
  · rw [if_neg (not_or.mpr ⟨several, sole⟩), if_neg (not_not.mpr replicated)]
    exact ⟨rfl, rfl⟩

/-- In replicated mode a search goes to the reader whose turn it is. -/
theorem Serving.search_replicated (serving : Serving env c metadata)
    (replicated : env.searchFanoutMode.toLower = "replicated") {readers : List String}
    (filled : readers ≠ []) (live : (c.liveReaders env).map NodeInfo.nodeId = readers) :
    targetIds (c.search env).1 = readers[c.searchCounter % readers.length]?.toList ∧
      (c.search env).2.searchCounter ≡ c.searchCounter + 1 [MOD readers.length] := by
  subst live
  have known : c.liveReaders env ≠ [] := fun none => filled (by rw [none]; rfl)
  have counter : ((c.refreshNodes env).2.currentSnapshotId env).2.searchCounter = c.searchCounter :=
    currentSnapshotId_cases (P := fun c' => c'.searchCounter = c.searchCounter)
      ((searchCounter_ask ..).trans searchCounter_refreshNodes)
      ((searchCounter_ask ..).trans ((searchCounter_ask ..).trans searchCounter_refreshNodes))
  obtain ⟨targets, next⟩ := searchTargets_replicated
    (c := ((c.refreshNodes env).2.currentSnapshotId env).2) replicated known
  rw [counter] at targets next
  rw [serving.search_eq, List.length_map]
  dsimp only
  rw [if_neg known, targets]
  refine ⟨?_, next⟩
  rw [targetIds, List.getElem?_map]
  cases (c.liveReaders env)[c.searchCounter % (c.liveReaders env).length]? <;> rfl

/-- **The run lemma.** -/
theorem Serving.sent_eq (serving : Serving env c metadata)
    (replicated : env.searchFanoutMode.toLower = "replicated") {readers : List String}
    (filled : readers ≠ []) {calls : List CoordinatorCall} (steady : Steady env readers c calls) :
    ∃ n, c.sent env calls = (turns readers c.searchCounter n).map (fun nodeId => [nodeId]) ∧
      (n = 0 ∨ readers.Nodup) := by
  induction calls generalizing c metadata with
  | nil => exact ⟨0, rfl, Or.inl rfl⟩
  | cons call calls ih =>
      obtain ⟨here, later⟩ := steady
      obtain ⟨n, sent, nodup⟩ := ih (serving.handle call) later
      by_cases searched : call = .search
      · subst searched
        obtain ⟨target, counter⟩ := serving.search_replicated replicated filled (here rfl)
        have inside : c.searchCounter % readers.length < readers.length :=
          Nat.mod_lt _ (List.length_pos_iff.mpr filled)
        refine ⟨n + 1, ?_, Or.inr ?_⟩
        · rw [Coordinator.handle, turns_of_modEq counter] at sent
          rw [Coordinator.sent, target, sent, turns_succ, List.getElem?_eq_getElem inside]
          rfl
        · rw [← here rfl]
          exact serving.refreshNodes.2.placed.nodup_readerIds
      · refine ⟨n, ?_, nodup⟩
        rw [searchCounter_handle searched] at sent
        rw [← sent]
        cases call <;> first | rfl | exact absurd rfl searched

/-- **Round robin.**  In replicated mode, as long as the readers stay the same, every search
goes to one reader, whatever other requests come in between, and of any number of searches
no reader gets more than one more than its share. -/
theorem round_robin (env : CoordinatorEnv)
    (replicated : env.searchFanoutMode.toLower = "replicated") (now : ℕ)
    (before calls : List CoordinatorCall) {readers : List String} (filled : readers ≠ [])
    (steady : Steady env readers ((start env now).2.serve env before) calls) :
    let sent := ((start env now).2.serve env before).sent env calls
    (∀ targets ∈ sent, ∃ nodeId ∈ readers, targets = [nodeId]) ∧
    ∀ nodeId ∈ readers, sent.length / readers.length ≤ sent.count [nodeId] ∧
      sent.count [nodeId] ≤ sent.length / readers.length + 1 := by
  intro sent
  obtain ⟨n, same, nodup⟩ := (serving_after env now before).sent_eq replicated filled steady
  have same : sent = _ := same
  have length : sent.length = n := by rw [same, List.length_map, length_turns filled]
  constructor
  · intro targets member
    rw [same, List.mem_map] at member
    rcases member with ⟨nodeId, member, rfl⟩
    obtain ⟨m, -, turn⟩ := List.mem_filterMap.mp member
    exact ⟨nodeId, List.mem_of_getElem? turn, rfl⟩
  · intro nodeId member
    have count : sent.count [nodeId] =
        (turns readers ((start env now).2.serve env before).searchCounter n).count nodeId := by
      rw [same]
      exact List.count_map_of_injective _ _ (fun a b same => List.singleton_injective same) nodeId
    rw [length, count]
    rcases nodup with none | nodup
    · rw [none, turns_zero, Nat.zero_div]
      exact ⟨Nat.zero_le _, Nat.zero_le _⟩
    · exact count_turns nodup member _ n

/-! ## A run -/

theorem nodes_refreshNodes :
    (c.refreshNodes env).2.nodes = (fillNodes env ∅ (c.getPrefix env nodePrefix).1).2 := by
  unfold Coordinator.refreshNodes
  dsimp only
  split <;> rfl

/-- Readers that are found in the order of their ids stay so. -/
theorem liveReaders_of_sorted {readers : List NodeInfo}
    (found : (fillNodes env ∅ (c.getPrefix env nodePrefix).1).2.values.filter
      (fun node => node.role = "reader") = readers)
    (sorted : readers.Pairwise fun a b => a.nodeId ≤ b.nodeId) : c.liveReaders env = readers := by
  rw [liveReaders, nodes_refreshNodes, readerNodes, found]
  exact List.mergeSort_of_pairwise (sorted.imp fun below => decide_eq_true below)

theorem liveReaders_withCounter (n : ℕ) :
    ({ c with searchCounter := n } : Coordinator).liveReaders env = c.liveReaders env := by
  rw [liveReaders, liveReaders, nodes_refreshNodes, nodes_refreshNodes]
  rfl

/-- The next search finds what the calls to the store have left. -/
theorem Serving.liveReaders_search (serving : Serving env c metadata) :
    (c.search env).2.liveReaders env =
      ((c.refreshNodes env).2.currentSnapshotId env).2.liveReaders env := by
  have targets : ∀ {c : Coordinator} readers,
      (c.searchTargets env readers).2.liveReaders env = c.liveReaders env := by
    intro c readers
    unfold searchTargets
    dsimp only
    split
    · rfl
    · split
      · rfl
      · exact liveReaders_withCounter _
  rw [serving.search_eq]
  dsimp only
  split
  · rfl
  · split <;> exact targets _

deriving instance DecidableEq for NodeInfo

def readerInfo (nodeId : String) : NodeInfo := ⟨nodeId, "reader", "http://" ++ nodeId ++ ":8200", []⟩

/-- Two readers, and two searches. -/
theorem round_robin_twoSearches :
    let env := soleCoordinator "Replicated"
    let c := (start env 0).2.serve env
      [.register (readerInfo "reader-1"), .register (readerInfo "reader-0")]
    2 / 2 ≤ (c.sent env [.search, .search]).count ["reader-0"] := by
  intro env c
  have replicated : env.searchFanoutMode.toLower = "replicated" := by decide +kernel
  have serving : Serving env c _ := serving_after env 0 _
  have sorted : [readerInfo "reader-0", readerInfo "reader-1"].Pairwise
      fun a b => a.nodeId ≤ b.nodeId := by decide
  have first : c.liveReaders env = [readerInfo "reader-0", readerInfo "reader-1"] :=
    liveReaders_of_sorted (by decide +kernel) sorted
  have second : (c.search env).2.liveReaders env = [readerInfo "reader-0", readerInfo "reader-1"] := by
    rw [serving.liveReaders_search]
    exact liveReaders_of_sorted (by decide +kernel) sorted
  have steady : Steady env ["reader-0", "reader-1"] c [.search, .search] :=
    ⟨fun _ => by rw [first]; rfl, fun _ => by rw [handle, second]; rfl, trivial⟩
  exact ((round_robin env replicated 0 _ _ (by decide) steady).2 "reader-0" (by decide)).1

end Coordinator

end VecScale
