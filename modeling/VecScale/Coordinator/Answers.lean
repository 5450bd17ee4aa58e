import VecScale.Coordinator.Metadata

/-!
# What the coordinator answers

A request is served from strings in a store whose entries expire, and from the nodes that
the coordinator saw when it last looked.  It answers as from the metadata.

* `Represents.handle`: every request leaves the metadata that its acceptance writes;
* `coordinator_refines`: after any requests the coordinator lists the registry, searches at
  its snapshot, and sees the nodes whose registration has not expired;
* `routes_to_known_readers`: no route ever fails, and it leads to a reader.
-/

namespace VecScale

open EtcdClient

theorem JsonModel.mapM_validate {α : Type} {Valid : α → Prop} (json : JsonModel α Valid)
    {items : List α} (valid : ∀ a ∈ items, Valid a) :
    (items.map json.dump).mapM json.validate = .ok items := by
  induction items with
  | nil => rfl
  | cons a items ih =>
      rw [List.map_cons, List.mapM_cons, json.validate_dump a (valid a List.mem_cons_self),
        ih fun b inside => valid b (List.mem_cons_of_mem _ inside)]
      rfl

namespace Coordinator

variable {env : CoordinatorEnv} {c : Coordinator} {metadata : Metadata}

/-- The store of a coordinator holds these metadata. -/
def Represents (env : CoordinatorEnv) (c : Coordinator) (metadata : Metadata) : Prop :=
  ∃ spec, Simulates c.timed spec ∧ metadata.Stored env spec.entries

/-! ## What the calls to the store answer -/

/-- The store as the next call finds it. -/
theorem Represents.next (represents : Represents env c metadata) :
    ∃ spec, Simulates ⟨c.timed.store, c.nextTime env⟩ spec ∧ metadata.Stored env spec.entries := by
  rcases represents with ⟨spec, simulates, stored⟩
  exact ⟨_, simulates.call (.tick (env.wait c.asked)), stored⟩

theorem Represents.get (represents : Represents env c metadata) (key : String) :
    Represents env (c.get env key).2 metadata := by
  rcases represents.next with ⟨spec, simulates, stored⟩
  exact ⟨_, simulates.call (.get key), stored⟩

theorem Represents.getPrefix (represents : Represents env c metadata) (keyPrefix : String) :
    Represents env (c.getPrefix env keyPrefix).2 metadata := by
  rcases represents.next with ⟨spec, simulates, stored⟩
  exact ⟨_, simulates.call (.getPrefix keyPrefix), stored⟩

theorem Represents.campaign (represents : Represents env c metadata) :
    Represents env (c.campaign env) metadata := by
  rcases represents.next with ⟨spec, simulates, stored⟩
  exact ⟨_, simulates.call (.campaign "coordinator" env.nodeId _ _), stored⟩

/-- The two keys of an election are nobody's metadata. -/
theorem Represents.put_of_reserved (represents : Represents env c metadata) (key : String)
    (nodes : ∀ nodeId, nodePrefix ++ nodeId ≠ key)
    (segments : ∀ segmentId, segmentPrefix ++ segmentId ≠ key)
    (snapshot : snapshotCurrent ≠ key) (value : String) (ttl : Option ℕ) :
    Represents env (c.put env key value ttl) metadata := by
  rcases represents.next with ⟨spec, simulates, stored⟩
  refine ⟨_, simulates.call (.put key value ttl), ?_⟩
  have other : ∀ {x}, x ≠ key → (spec.call (.put key value ttl)).entries x = spec.entries x :=
    fun ne => Function.update_of_ne ne _ _
  refine ⟨fun nodeId => ?_, fun segmentId => ?_, ?_, stored.validNodes, stored.validSegments⟩
  · rw [other (nodes nodeId)]
    exact stored.nodes nodeId
  · rw [other (segments segmentId)]
    exact stored.segments segmentId
  · rw [other snapshot]
    exact stored.snapshot

theorem Represents.renew (represents : Represents env c metadata) :
    Represents env ((c.put env (electionKey "coordinator") env.nodeId (some 10)).put env leaderKey
      env.nodeId (some 10)) metadata := by
  have kept := represents.put_of_reserved (electionKey "coordinator")
    (fun nodeId => (unreserved_nodeKey nodeId).2 _) (fun id => (unreserved_segmentKey id).2 _)
    (unreserved_snapshotCurrent.2 _) env.nodeId (some 10)
  exact kept.put_of_reserved leaderKey (fun nodeId => (unreserved_nodeKey nodeId).1)
    (fun id => (unreserved_segmentKey id).1) unreserved_snapshotCurrent.1 env.nodeId (some 10)

theorem Represents.readSnapshot (represents : Represents env c metadata) :
    readSnapshot (c.get env snapshotCurrent).1 = .ok metadata.registry.snapshotCurrent := by
  rcases represents.next with ⟨spec, simulates, stored⟩
  have answer : (c.get env snapshotCurrent).1 = spec.entries.read (c.nextTime env) snapshotCurrent :=
    (MemoryStore.get?_values_pruneExpired _).trans (simulates.lease unreserved_snapshotCurrent)
  rw [answer, stored.readSnapshot]

theorem Represents.listSegments (represents : Represents env c metadata) :
    (c.listSegments env).1 = .ok metadata.registry.listSegments ∧
      Represents env (c.listSegments env).2 metadata := by
  refine ⟨?_, represents.getPrefix segmentPrefix⟩
  rcases represents.next with ⟨spec, simulates, stored⟩
  obtain ⟨found, values, sorted, members⟩ := simulates.getPrefix SegmentMeta.segmentId
    unreserved_segmentKey (fun segmentId => stored.read_segment _ segmentId)
    metadata.registry.filed
  have whole : found = metadata.registry.listSegments :=
    Registry.eq_listSegments sorted fun segMeta => by rw [members, Registry.mem_listSegments]
  have valid : ∀ segMeta ∈ found, segMeta.Valid :=
    fun segMeta inside => stored.validSegments _ _ ((members segMeta).mp inside)
  rw [← whole, ← env.segmentJson.mapM_validate valid]
  exact congrArg (List.mapM env.segmentJson.validate) values

theorem Represents.currentSnapshotId (represents : Represents env c metadata) :
    (c.currentSnapshotId env).1 = .ok metadata.registry.currentSnapshotId ∧
      Represents env (c.currentSnapshotId env).2 metadata := by
  have kept := represents.get snapshotCurrent
  unfold Coordinator.currentSnapshotId Registry.currentSnapshotId
  simp only [represents.readSnapshot]
  split
  · exact ⟨rfl, kept⟩
  · next none =>
      refine ⟨?_, kept.listSegments.2⟩
      have zero : metadata.registry.snapshotCurrent = 0 := by omega
      simp only [kept.listSegments.1, zero]
      rfl

theorem fillNodes_dumped {infos : List NodeInfo} (valid : ∀ info ∈ infos, info.Valid)
    (nodes : Dict String NodeInfo) : fillNodes env nodes (infos.map env.nodeJson.dump) =
      (.ok (), nodes.setAll (infos.map fun info => (info.nodeId, info))) := by
  induction infos generalizing nodes with
  | nil => rfl
  | cons info infos ih =>
      rw [List.map_cons, fillNodes, env.nodeJson.validate_dump info (valid info List.mem_cons_self)]
      exact ih (fun other inside => valid other (List.mem_cons_of_mem _ inside)) _

/-- The nodes that are known are those whose registration runs; they are filed under their
ids, and the readers among them are on the ring. -/
structure Placed (env : CoordinatorEnv) (nodes : Dict String NodeInfo)
    (ring : ConsistentHashRing) : Prop where
  filed : ∀ nodeId info, nodes.get? nodeId = some info → info.nodeId = nodeId
  readers : ∀ nodeId, nodeId ∈ ring.nodes ↔ IsReader nodes nodeId
  ring : ring.Placed env.hash

theorem placed_rebuildRing (ring : c.ring.Placed env.hash)
    (filed : ∀ nodeId info, c.nodes.get? nodeId = some info → info.nodeId = nodeId) :
    Placed env (c.rebuildRing env).nodes (c.rebuildRing env).ring :=
  ⟨filed, fun _ => ConsistentHashRing.mem_nodes_rebuildRing, ring.rebuildRing c.nodes⟩

theorem Represents.refreshNodes (represents : Represents env c metadata)
    (ring : c.ring.Placed env.hash) :
    (c.refreshNodes env).1 = .ok () ∧ Represents env (c.refreshNodes env).2 metadata ∧
      Placed env (c.refreshNodes env).2.nodes (c.refreshNodes env).2.ring ∧
      ∀ nodeId, (c.refreshNodes env).2.nodes.get? nodeId =
        metadata.members.read (c.nextTime env) nodeId := by
  have kept := represents.getPrefix nodePrefix
  rcases represents.next with ⟨spec, simulates, stored⟩
  have filed : ∀ nodeId info, metadata.members.read (c.nextTime env) nodeId = some info →
      info.Valid ∧ info.nodeId = nodeId := by
    intro nodeId info running
    rcases Expiring.exists_of_read running with ⟨expiry, here⟩
    exact stored.validNodes nodeId _ here
  obtain ⟨infos, values, sorted, members⟩ := simulates.getPrefix NodeInfo.nodeId
    unreserved_nodeKey (fun nodeId => stored.read_node _ nodeId)
    (fun nodeId info running => (filed nodeId info running).2)
  have filled : fillNodes env ∅ (c.getPrefix env nodePrefix).1 =
      (.ok (), Dict.setAll ∅ (infos.map fun info => (info.nodeId, info))) := by
    rw [← fillNodes_dumped fun info inside => (filed _ _ ((members info).mp inside)).1]
    exact congrArg (fillNodes env ∅) values
  have known : ∀ nodeId, (Dict.setAll ∅ (infos.map fun info => (info.nodeId, info))).get? nodeId =
      metadata.members.read (c.nextTime env) nodeId := by
    intro nodeId
    have nodup : ((infos.map fun info => (info.nodeId, info)).map Prod.fst).Nodup := by
      rw [List.map_map, List.Nodup, List.pairwise_map]
      exact sorted.imp fun below => below.ne
    rw [Dict.get?_setAll, Dict.get?_empty, Option.or_none]
    refine Option.ext fun info => ?_
    rw [Dict.lastWrite_eq_some_iff nodup, List.mem_map]
    constructor
    · rintro ⟨info, inside, same⟩
      cases same
      exact (members info).mp inside
    · intro running
      have known := (filed nodeId info running).2
      subst known
      exact ⟨info, (members info).mpr running, rfl⟩
  unfold Coordinator.refreshNodes
  simp only [filled]
  refine ⟨trivial, kept, placed_rebuildRing ring fun nodeId info found => ?_, known⟩
  exact (filed nodeId info ((known nodeId).symm.trans found)).2

/-! ## What a request leaves -/

/-- A request that is passed on looks for the leader, and perhaps at the nodes. -/
theorem proxyToLeader_cases {P : Coordinator → Prop} (asked : P (c.get env leaderKey).2)
    (refreshed : P ((c.get env leaderKey).2.refreshNodes env).2) (method path : String) :
    P (c.proxyToLeader env method path).2 := by
  unfold Coordinator.proxyToLeader
  dsimp only
  split
  · exact asked
  · split
    · exact asked
    · split
      · exact refreshed
      · split <;> exact refreshed

/-- A search looks at the nodes, then at the snapshot, and counts. -/
theorem search_cases {P : Coordinator → Prop} (refreshed : P (c.refreshNodes env).2)
    (current : P ((c.refreshNodes env).2.currentSnapshotId env).2)
    (counted : ∀ (c : Coordinator) (n : ℕ), P c → P { c with searchCounter := n }) :
    P (c.search env).2 := by
  have targets : ∀ {c : Coordinator} (readers : List NodeInfo), P c →
      P (c.searchTargets env readers).2 := by
    intro c readers here
    unfold Coordinator.searchTargets
    dsimp only
    split
    · exact here
    · split
      · exact here
      · exact counted c _ here
  unfold Coordinator.search
  dsimp only
  split
  · exact refreshed
  · split
    · exact current
    · split
      · exact current
      · split <;> exact targets _ current

/-! ## What a request writes -/

/-- What a request writes if it is accepted. -/
def writes (env : CoordinatorEnv) (c : Coordinator) : CoordinatorCall → List MetadataWrite
  | .register info =>
      if info.Valid ∧ c.leader then [.node info (c.nextTime env + seconds 10)] else []
  | .registerSegment segMeta => if segMeta.Valid ∧ c.leader then [.segment segMeta] else []
  | .deleteSegment segmentId => if c.leader then [.withdraw segmentId] else []
  | .heartbeat => [.node env.self (c.nextTime env + seconds 10)]
  | _ => []

/-- What a coordinator keeps. -/
structure Serving (env : CoordinatorEnv) (c : Coordinator) (metadata : Metadata) : Prop where
  represents : Represents env c metadata
  placed : Placed env c.nodes c.ring

theorem Represents.putNode (represents : Represents env c metadata) {info : NodeInfo}
    (valid : info.Valid) :
    Represents env (c.put env (nodePrefix ++ info.nodeId) (env.nodeJson.dump info) (some 10))
      (metadata.write (.node info (c.nextTime env + seconds 10))) := by
  rcases represents.next with ⟨spec, simulates, stored⟩
  refine ⟨_, simulates.call (.put _ _ (some 10)), ?_⟩
  simp only [StoreSpec.call, Option.map_some, ← simulates.now]
  exact stored.putNode valid _

theorem placed_campaign (placed : Placed env c.nodes c.ring) :
    Placed env (c.campaign env).nodes (c.campaign env).ring := by
  rw [Coordinator.campaign]
  exact placed

theorem Represents.putSegment (represents : Represents env c metadata) {segMeta : SegmentMeta}
    (valid : segMeta.Valid) :
    Represents env (c.put env (segmentPrefix ++ segMeta.segmentId) (env.segmentJson.dump segMeta)
      none) { metadata with registry := metadata.registry.putSegment segMeta } := by
  rcases represents.next with ⟨spec, simulates, stored⟩
  exact ⟨_, simulates.call (.put _ _ none), stored.putSegment valid⟩

theorem Serving.syncLeaderState (serving : Serving env c metadata) :
    Serving env (c.syncLeaderState env) metadata := by
  have kept := serving.represents.get leaderKey
  unfold Coordinator.syncLeaderState
  dsimp only
  split
  · split
    · exact ⟨kept.renew, serving.placed⟩
    · exact ⟨kept, serving.placed⟩
  · split
    · exact ⟨kept.campaign, placed_campaign serving.placed⟩
    · exact ⟨kept, serving.placed⟩

theorem Serving.refreshNodes (serving : Serving env c metadata) :
    (c.refreshNodes env).1 = .ok () ∧ Serving env (c.refreshNodes env).2 metadata := by
  obtain ⟨returned, kept, placed, -⟩ := serving.represents.refreshNodes serving.placed.ring
  exact ⟨returned, kept, placed⟩

theorem Serving.proxyToLeader (serving : Serving env c metadata) (method path : String) :
    Serving env (c.proxyToLeader env method path).2 metadata := by
  have asked : Serving env (c.get env leaderKey).2 metadata :=
    ⟨serving.represents.get leaderKey, serving.placed⟩
  exact proxyToLeader_cases (P := fun c => Serving env c metadata) asked asked.refreshNodes.2
    method path

theorem Serving.register (serving : Serving env c metadata) {info : NodeInfo}
    (valid : info.Valid) : Serving env (c.register env info).2
      (if c.leader then metadata.write (.node info (c.nextTime env + seconds 10)) else metadata) := by
  unfold Coordinator.register
  split
  · have stored := serving.represents.putNode valid
    refine ⟨stored, placed_rebuildRing serving.placed.ring fun nodeId found here => ?_⟩
    rw [Dict.get?_set] at here
    split at here
    · next same =>
        cases here
        exact same
    · exact serving.placed.filed nodeId found here
  · exact serving.proxyToLeader _ _

theorem Serving.registerSegment (serving : Serving env c metadata) {segMeta : SegmentMeta}
    (valid : segMeta.Valid) : Serving env (c.registerSegment env segMeta).2
      (if c.leader then metadata.write (.segment segMeta) else metadata) := by
  unfold Coordinator.registerSegment
  split
  · have stored := serving.represents.putSegment valid
    have current := stored.get snapshotCurrent
    simp only [stored.readSnapshot]
    refine ⟨?_, serving.placed⟩
    rcases current.next with ⟨spec, simulates, stored⟩
    exact ⟨_, simulates.call (.put _ _ none), stored.putSnapshot _⟩
  · exact serving.proxyToLeader _ _

theorem Serving.deleteSegment (serving : Serving env c metadata) (segmentId : String) :
    Serving env (c.deleteSegment env segmentId).2
      (if c.leader then metadata.write (.withdraw segmentId) else metadata) := by
  unfold Coordinator.deleteSegment
  split
  · refine ⟨?_, serving.placed⟩
    rcases serving.represents.next with ⟨spec, simulates, stored⟩
    exact ⟨_, simulates.call (.delete _), stored.withdraw segmentId⟩
  · exact serving.proxyToLeader _ _

theorem Serving.currentSnapshotId (serving : Serving env c metadata) :
    (c.currentSnapshotId env).1 = .ok metadata.registry.currentSnapshotId ∧
      Serving env (c.currentSnapshotId env).2 metadata := by
  obtain ⟨answered, kept⟩ := serving.represents.currentSnapshotId
  refine ⟨answered, kept, ?_⟩
  unfold Coordinator.currentSnapshotId
  simp only [serving.represents.readSnapshot]
  split <;> exact serving.placed

theorem Serving.search (serving : Serving env c metadata) :
    Serving env (c.search env).2 metadata := by
  have refreshed := serving.refreshNodes.2
  exact search_cases (P := fun c => Serving env c metadata) refreshed
    refreshed.currentSnapshotId.2 fun c n here => ⟨here.represents, here.placed⟩

/-- **The step lemma.** -/
theorem Serving.handle (serving : Serving env c metadata) (call : CoordinatorCall) :
    Serving env (c.handle env call).2 ((c.writes env call).foldl Metadata.write metadata) := by
  cases call with
  | register info =>
      unfold Coordinator.handle writes
      by_cases valid : info.Valid
      · have kept := serving.register valid
        by_cases leads : c.leader = true
        · simpa only [valid, leads, if_true, and_self, List.foldl_cons, List.foldl_nil] using kept
        · simpa only [valid, leads, Bool.false_eq_true, if_true, and_false, if_false,
            List.foldl_nil] using kept
      · simpa only [valid, if_false, false_and, List.foldl_nil] using serving
  | registerSegment segMeta =>
      unfold Coordinator.handle writes
      by_cases valid : segMeta.Valid
      · have kept := serving.registerSegment valid
        by_cases leads : c.leader = true
        · simpa only [valid, leads, if_true, and_self, List.foldl_cons, List.foldl_nil] using kept
        · simpa only [valid, leads, Bool.false_eq_true, if_true, and_false, if_false,
            List.foldl_nil] using kept
      · simpa only [valid, if_false, false_and, List.foldl_nil] using serving
  | deleteSegment segmentId =>
      have kept := serving.deleteSegment segmentId
      unfold Coordinator.handle writes
      by_cases leads : c.leader = true
      · simpa only [leads, if_true, List.foldl_cons, List.foldl_nil] using kept
      · simpa only [leads, Bool.false_eq_true, if_false, List.foldl_nil] using kept
  | listSegments =>
      obtain ⟨answered, kept⟩ := serving.represents.listSegments
      unfold Coordinator.handle
      simp only [answered]
      exact ⟨kept, serving.placed⟩
  | routeInsert count => exact serving
  | routeSearch queryHash => exact serving
  | search => exact serving.search
  | health =>
      obtain ⟨returned, kept⟩ := serving.syncLeaderState.refreshNodes
      unfold Coordinator.handle Coordinator.health
      simp only [returned]
      exact kept
  | heartbeat =>
      have stored : Serving env (c.registerSelf env) _ :=
        ⟨serving.represents.putNode env.named, serving.placed⟩
      exact stored.syncLeaderState

/-! ## Runs -/

def serve (env : CoordinatorEnv) (c : Coordinator) (calls : List CoordinatorCall) : Coordinator :=
  calls.foldl (fun c call => (c.handle env call).2) c

/-- What the accepted requests wrote, in their order. -/
def accepted (env : CoordinatorEnv) (c : Coordinator) : List CoordinatorCall → List MetadataWrite
  | [] => []
  | call :: calls => c.writes env call ++ accepted env (c.handle env call).2 calls

/-- The registration of a coordinator that starts. -/
def selfWrite (env : CoordinatorEnv) (now : ℕ) : MetadataWrite :=
  .node env.self (((fresh now).campaign env).nextTime env + seconds 10)

/-- **The run lemma.** -/
theorem Serving.serve (serving : Serving env c metadata) (calls : List CoordinatorCall) :
    Serving env (c.serve env calls) ((c.accepted env calls).foldl Metadata.write metadata) := by
  induction calls generalizing c metadata with
  | nil => exact serving
  | cons call calls ih =>
      rw [accepted, List.foldl_append]
      exact ih (serving.handle call)

theorem serving_start (env : CoordinatorEnv) (now : ℕ) : (start env now).1 = .ok () ∧
    Serving env (start env now).2 (Metadata.empty.write (selfWrite env now)) := by
  have fresh : Represents env (fresh now) .empty :=
    ⟨.after now [], simulates_run now [], Metadata.Stored.empty⟩
  have stored : Represents env (((Coordinator.fresh now).campaign env).registerSelf env)
      (Metadata.empty.write (selfWrite env now)) := fresh.campaign.putNode env.named
  have ring : ((((Coordinator.fresh now).campaign env).registerSelf env).ring).Placed env.hash := by
    rw [registerSelf, put, ask, Coordinator.campaign]
    exact ConsistentHashRing.placed_nil 150 (by decide)
  rw [start]
  obtain ⟨returned, kept, placed, -⟩ := stored.refreshNodes ring
  exact ⟨returned, kept, placed⟩

/-- The metadata after some requests. -/
def metadataAfter (env : CoordinatorEnv) (now : ℕ) (calls : List CoordinatorCall) : Metadata :=
  ((start env now).2.accepted env calls).foldl Metadata.write
    (Metadata.empty.write (selfWrite env now))

theorem serving_after (env : CoordinatorEnv) (now : ℕ) (calls : List CoordinatorCall) :
    Serving env ((start env now).2.serve env calls) (metadataAfter env now calls) :=
  (serving_start env now).2.serve calls

/-- **The coordinator answers from its metadata.**  It starts; and after any requests, with
any time between its calls to the store, it lists the segments that were registered and not
withdrawn, searches at the registry's snapshot, and sees every node whose last registration
that it accepted is less than ten seconds old. -/
theorem coordinator_refines (env : CoordinatorEnv) (now : ℕ) (calls : List CoordinatorCall) :
    let c := (start env now).2.serve env calls
    let metadata := metadataAfter env now calls
    (start env now).1 = .ok () ∧ (c.listSegments env).1 = .ok metadata.registry.listSegments ∧
    (c.currentSnapshotId env).1 = .ok metadata.registry.currentSnapshotId ∧
    (c.refreshNodes env).1 = .ok () ∧ ∀ nodeId, (c.refreshNodes env).2.nodes.get? nodeId =
      metadata.members.read (c.nextTime env) nodeId := by
  intro c metadata
  have serving : Serving env c metadata := serving_after env now calls
  obtain ⟨returned, -, -, known⟩ := serving.represents.refreshNodes serving.placed.ring
  exact ⟨(serving_start env now).1, serving.represents.listSegments.1,
    serving.represents.currentSnapshotId.1, returned, known⟩

/-! ## Routes -/

variable {nodes : Dict String NodeInfo} {ring : ConsistentHashRing}

theorem mem_readerNodes {node : NodeInfo} :
    node ∈ readerNodes nodes ↔ node ∈ nodes.values ∧ node.role = "reader" := by
  rw [readerNodes, List.mem_mergeSort, List.mem_filter, decide_eq_true_eq]

theorem Placed.get?_of_mem (placed : Placed env nodes ring) {node : NodeInfo}
    (member : node ∈ nodes.values) : nodes.get? node.nodeId = some node := by
  rcases Dict.mem_values_iff.mp member with ⟨nodeId, found⟩
  rw [placed.filed nodeId node found]
  exact found

/-- No two readers have the same id. -/
theorem Placed.nodup_readerIds (placed : Placed env nodes ring) :
    ((readerNodes nodes).map NodeInfo.nodeId).Nodup := by
  have ids : nodes.values.map NodeInfo.nodeId = nodes.keys := by
    rw [Dict.values, Dict.keys, List.map_map]
    exact List.map_congr_left fun entry member =>
      placed.filed entry.1 entry.2 (Dict.mem_entries_iff.mp member)
  have values : (nodes.values.map NodeInfo.nodeId).Nodup := ids ▸ nodes.keys_nodup
  rw [readerNodes, ((List.mergeSort_perm _ _).map NodeInfo.nodeId).nodup_iff]
  exact values.sublist (List.filter_sublist.map _)

/-- The ring has a node for each reader. -/
theorem Placed.card_nodes (placed : Placed env nodes ring) :
    ring.nodes.card = (readerNodes nodes).length := by
  have ids : ring.nodes = ((readerNodes nodes).map NodeInfo.nodeId).toFinset := by
    ext nodeId
    rw [placed.readers, List.mem_toFinset, List.mem_map]
    constructor
    · rintro ⟨node, member, role, same⟩
      exact ⟨node, mem_readerNodes.mpr ⟨member, role⟩, same⟩
    · rintro ⟨node, member, same⟩
      exact ⟨node, (mem_readerNodes.mp member).1, (mem_readerNodes.mp member).2, same⟩
  rw [ids, List.toFinset_card_of_nodup placed.nodup_readerIds, List.length_map]

/-- Somebody is on the ring as soon as a reader is known. -/
theorem Placed.filled (placed : Placed env nodes ring) (known : readerNodes nodes ≠ []) :
    ring.ring ≠ [] ∧ ring.nodes ≠ ∅ := by
  obtain ⟨node, member⟩ := List.exists_mem_of_ne_nil _ known
  have here : node.nodeId ∈ ring.nodes :=
    (placed.readers _).mpr ⟨node, (mem_readerNodes.mp member).1, (mem_readerNodes.mp member).2, rfl⟩
  have nodes : ring.nodes ≠ ∅ := Finset.ne_empty_of_mem here
  exact ⟨fun empty => nodes (placed.ring.ring_eq_nil_iff.mp empty), nodes⟩

/-- The readers of one id. -/
theorem Placed.filter_readerNodes (placed : Placed env nodes ring) {reader : NodeInfo}
    (member : reader ∈ readerNodes nodes) :
    (readerNodes nodes).filter (fun node => node.nodeId = reader.nodeId) = [reader] := by
  apply List.perm_singleton.mp
  rw [List.perm_ext_iff_of_nodup ((placed.nodup_readerIds.of_map _).filter _) (List.nodup_singleton _)]
  intro node
  rw [List.mem_filter, decide_eq_true_eq, List.mem_singleton]
  constructor
  · rintro ⟨inside, same⟩
    have found := placed.get?_of_mem (mem_readerNodes.mp inside).1
    rw [same, placed.get?_of_mem (mem_readerNodes.mp member).1, Option.some.injEq] at found
    exact found.symm
  · rintro rfl
    exact ⟨member, rfl⟩

/-- **No route fails, and every route leads to a reader.**  After any requests an insert is
routed to the writer and owned by a reader that is known, if one is, with a shard below their
number; a search by hash goes to exactly one of the readers. -/
theorem routes_to_known_readers (env : CoordinatorEnv) (now : ℕ) (calls : List CoordinatorCall) :
    let c := (start env now).2.serve env calls
    (∀ count, 1 ≤ count → ∃ shardId owner,
      (c.handle env (.routeInsert count)).1 = .insertRoute c.findWriter shardId owner ∧
      (owner = none ↔ readerNodes c.nodes = []) ∧
      ∀ nodeId ∈ owner, IsReader c.nodes nodeId ∧ shardId < (readerNodes c.nodes).length) ∧
    ∀ key, readerNodes c.nodes ≠ [] → ∃ reader ∈ readerNodes c.nodes,
      (c.handle env (.routeSearch (some key))).1 = .searchRoute [reader] := by
  intro c
  have placed : Placed env c.nodes c.ring := (serving_after env now calls).placed
  constructor
  · intro count positive
    rw [handle, if_pos positive, routeInsert]
    by_cases none : readerNodes c.nodes = []
    · refine ⟨0, Option.none, ?_, by simp only [none], nofun⟩
      rw [if_pos none]
    · obtain ⟨filled, members⟩ := placed.filled none
      obtain ⟨owner, here, owns⟩ := placed.ring.exists_owner filled (.str (toString count))
      refine ⟨env.hash owner % c.ring.nodes.card, some owner, ?_, by simp only [none, reduceCtorEq],
        fun nodeId same => ?_⟩
      · rw [if_neg none, owns]
        simp only [Except.bind, bind, ConsistentHashRing.getShardId, if_neg members]
      · cases same
        refine ⟨(placed.readers owner).mp here, ?_⟩
        rw [← placed.card_nodes]
        exact Nat.mod_lt _ (Finset.card_pos.mpr (Finset.nonempty_iff_ne_empty.mpr members))
  · intro key known
    obtain ⟨filled, members⟩ := placed.filled known
    obtain ⟨owner, here, owns⟩ := placed.ring.exists_owner filled (.int key)
    obtain ⟨reader, member, role, rfl⟩ := (placed.readers owner).mp here
    have listed := mem_readerNodes.mpr ⟨member, role⟩
    refine ⟨reader, listed, ?_⟩
    rw [handle, routeSearch]
    simp only [if_pos (And.intro known members), owns, placed.filter_readerNodes listed]

end Coordinator

end VecScale
