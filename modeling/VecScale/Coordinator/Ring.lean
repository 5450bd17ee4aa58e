import VecScale.Lib.Dict
import VecScale.Lib.HashRing
import VecScale.Models
import Mathlib.Data.Finset.Card
import Mathlib.Data.Multiset.Bind
import Mathlib.Data.Multiset.Sort
import Mathlib.Data.String.Basic

/-!
# The coordinator's hash ring

Every reader is on the ring with one point for each virtual node; a key falls to the
reader of the next point.  The hash may be any function: nothing below rests on its values.

* `Placed`: the ring list is in order and has the points of its nodes, each replica once;
* `moves_only_what_it_must`: what a reader that joins or leaves does to the others' keys;
* `routing_depends_on_nodes`: the members alone determine where keys go.
-/

namespace VecScale

/-- A token and the node it belongs to. -/
abbrev RingPoint := ℕ ×ₗ String

structure ConsistentHashRing where
  virtualNodes : ℕ
  positive : 0 < virtualNodes
  ring : List RingPoint
  nodes : Finset String

/-- What `get_node` takes for a key. -/
inductive RingKey
  | int (key : ℤ)
  | str (key : String)

/-- `str(key)`. -/
def RingKey.toStr : RingKey → String
  | .int key => toString key
  | .str key => key

/-- A call that changes the ring. -/
inductive RingCall
  | addNode (nodeId : String)
  | removeNode (nodeId : String)
  | clear

namespace ConsistentHashRing

def init (virtualNodes : ℤ) : Except PyError ConsistentHashRing :=
  if bad : virtualNodes ≤ 0 then .error (.valueError "virtual_nodes must be positive.")
  else .ok ⟨virtualNodes.toNat, by omega, [], ∅⟩

section

variable (hash : String → ℕ)

def addNode (r : ConsistentHashRing) (nodeId : String) : ConsistentHashRing :=
  if nodeId ∈ r.nodes then r
  else { r with
    nodes := insert nodeId r.nodes
    ring := (List.range r.virtualNodes).foldl
      (fun ring replica => insort ring (toLex (hash s!"{nodeId}:{replica}", nodeId))) r.ring }

def removeNode (r : ConsistentHashRing) (nodeId : String) : ConsistentHashRing :=
  if nodeId ∉ r.nodes then r
  else { r with
    nodes := r.nodes.erase nodeId
    ring := r.ring.filter fun point => (ofLex point).2 ≠ nodeId }

def clear (r : ConsistentHashRing) : ConsistentHashRing := { r with ring := [], nodes := ∅ }

def getNode (r : ConsistentHashRing) (key : RingKey) : Except PyError String :=
  if empty : r.ring = [] then .error (.valueError "Cannot route key on an empty ring.")
  else
    let token := hash key.toStr
    have inside := roundIndex_lt empty (toLex (token, ""))
    .ok (ofLex r.ring[roundIndex r.ring (toLex (token, ""))]).2

def getNodesForRange (r : ConsistentHashRing) (startId endId : ℤ) :
    Except PyError (Finset String) :=
  if startId > endId then .error (.valueError "start_id must be <= end_id.")
  else if r.ring = [] then .ok ∅
  else
    let keys := (List.range (endId + 1 - startId).toNat).map fun i => startId + (i : ℤ)
    (keys.mapM fun key => r.getNode hash (.int key)).map List.toFinset

def getShardId (r : ConsistentHashRing) (nodeId : String) : Except PyError ℕ :=
  if r.nodes = ∅ then .error (.valueError "Cannot compute shard id without nodes.")
  else .ok (hash nodeId % r.nodes.card)

def call (r : ConsistentHashRing) : RingCall → ConsistentHashRing
  | .addNode nodeId => r.addNode hash nodeId
  | .removeNode nodeId => r.removeNode nodeId
  | .clear => r.clear

/-- Any calls on a new ring lead here. -/
def Reached (r : ConsistentHashRing) : Prop :=
  ∃ (virtualNodes : ℤ) (start : ConsistentHashRing) (calls : List RingCall),
    init virtualNodes = .ok start ∧ calls.foldl (call hash) start = r

/-! ## The points of a set of nodes -/

def nodePoints (virtualNodes : ℕ) (nodeId : String) : List RingPoint :=
  (List.range virtualNodes).map fun (replica : ℕ) => toLex (hash s!"{nodeId}:{replica}", nodeId)

/-- The points of all nodes, each replica once. -/
def allPoints (virtualNodes : ℕ) (nodes : Finset String) : Multiset RingPoint :=
  nodes.val.bind fun nodeId => nodePoints hash virtualNodes nodeId

/-- The ring list is in order and has the points of its nodes. -/
structure Placed (r : ConsistentHashRing) : Prop where
  sorted : r.ring.Pairwise (· ≤ ·)
  points : (r.ring : Multiset RingPoint) = allPoints hash r.virtualNodes r.nodes

end

variable {hash : String → ℕ} {r r' : ConsistentHashRing}

theorem snd_of_mem_nodePoints {virtualNodes : ℕ} {nodeId : String} {point : RingPoint}
    (member : point ∈ nodePoints hash virtualNodes nodeId) : (ofLex point).2 = nodeId := by
  rcases List.mem_map.mp member with ⟨replica, -, rfl⟩
  rfl

theorem snd_of_mem_allPoints {virtualNodes : ℕ} {nodes : Finset String} {point : RingPoint}
    (member : point ∈ allPoints hash virtualNodes nodes) : (ofLex point).2 ∈ nodes := by
  rcases Multiset.mem_bind.mp member with ⟨nodeId, here, member⟩
  rw [snd_of_mem_nodePoints member]
  exact here

theorem allPoints_insert (virtualNodes : ℕ) {nodes : Finset String} {nodeId : String}
    (absent : nodeId ∉ nodes) : allPoints hash virtualNodes (insert nodeId nodes) =
      nodePoints hash virtualNodes nodeId + allPoints hash virtualNodes nodes := by
  rw [allPoints, Finset.insert_val_of_notMem absent, Multiset.cons_bind]
  rfl

/-- Without its points a node is gone, and the others are as they were. -/
theorem filter_allPoints (virtualNodes : ℕ) (nodes : Finset String) (nodeId : String) :
    (allPoints hash virtualNodes nodes).filter (fun point => (ofLex point).2 ≠ nodeId) =
      allPoints hash virtualNodes (nodes.erase nodeId) := by
  have others : ∀ point ∈ allPoints hash virtualNodes (nodes.erase nodeId),
      (ofLex point).2 ≠ nodeId := fun point member =>
    Finset.ne_of_mem_erase (snd_of_mem_allPoints member)
  by_cases here : nodeId ∈ nodes
  · have own : ∀ point ∈ (nodePoints hash virtualNodes nodeId : Multiset RingPoint),
        ¬ (ofLex point).2 ≠ nodeId := fun point member =>
      not_not_intro (snd_of_mem_nodePoints (Multiset.mem_coe.mp member))
    conv_lhs => rw [← Finset.insert_erase here]
    rw [allPoints_insert virtualNodes (Finset.notMem_erase nodeId nodes), Multiset.filter_add,
      Multiset.filter_eq_nil.mpr own, Multiset.filter_eq_self.mpr others, zero_add]
  · rw [Finset.erase_eq_of_notMem here] at others ⊢
    exact Multiset.filter_eq_self.mpr others

/-! ## The calls keep the points in place -/

theorem virtualNodes_call (r : ConsistentHashRing) (c : RingCall) :
    (r.call hash c).virtualNodes = r.virtualNodes := by
  cases c with
  | addNode nodeId =>
      rw [call, addNode]
      split <;> rfl
  | removeNode nodeId =>
      rw [call, removeNode]
      split <;> rfl
  | clear => rfl

theorem Placed.addNode (placed : Placed hash r) (nodeId : String) :
    Placed hash (r.addNode hash nodeId) := by
  unfold ConsistentHashRing.addNode
  split
  · exact placed
  · next absent =>
      rw [← List.foldl_map (g := insort)
        (f := fun (replica : ℕ) => (toLex (hash s!"{nodeId}:{replica}", nodeId) : RingPoint))]
      obtain ⟨sorted, inserted⟩ := foldl_insort placed.sorted (nodePoints hash r.virtualNodes nodeId)
      refine ⟨sorted, ?_⟩
      rw [allPoints_insert r.virtualNodes absent, ← placed.points, Multiset.coe_add]
      exact Multiset.coe_eq_coe.mpr inserted

theorem Placed.removeNode (placed : Placed hash r) (nodeId : String) :
    Placed hash (r.removeNode nodeId) := by
  unfold ConsistentHashRing.removeNode
  split
  · exact placed
  · refine ⟨placed.sorted.filter _, ?_⟩
    rw [← filter_allPoints, ← placed.points, Multiset.filter_coe]

theorem placed_nil (virtualNodes : ℕ) (positive : 0 < virtualNodes) :
    Placed hash ⟨virtualNodes, positive, [], ∅⟩ := ⟨List.Pairwise.nil, rfl⟩

theorem Placed.call (placed : Placed hash r) (c : RingCall) : Placed hash (r.call hash c) := by
  cases c with
  | addNode nodeId => exact placed.addNode nodeId
  | removeNode nodeId => exact placed.removeNode nodeId
  | clear => exact placed_nil r.virtualNodes r.positive

theorem Placed.calls (placed : Placed hash r) (calls : List RingCall) :
    Placed hash (calls.foldl (ConsistentHashRing.call hash) r) := by
  induction calls generalizing r with
  | nil => exact placed
  | cons c calls ih => exact ih (placed.call c)

theorem Reached.placed (reached : Reached hash r) : Placed hash r := by
  rcases reached with ⟨virtualNodes, start, calls, built, rfl⟩
  unfold init at built
  split at built
  · cases built
  · cases built
    exact (placed_nil _ _).calls calls

/-- The members alone determine the ring list. -/
theorem Placed.ring_eq_sort (placed : Placed hash r) :
    r.ring = (allPoints hash r.virtualNodes r.nodes).sort (· ≤ ·) := by
  apply List.Perm.eq_of_pairwise' placed.sorted (Multiset.pairwise_sort _ _)
  rw [← Multiset.coe_eq_coe, Multiset.sort_eq, placed.points]

theorem Placed.unique (placed : Placed hash r) (placed' : Placed hash r')
    (replicas : r.virtualNodes = r'.virtualNodes) (same : r.nodes = r'.nodes) : r = r' := by
  have rings : r.ring = r'.ring := by
    rw [placed.ring_eq_sort, placed'.ring_eq_sort, replicas, same]
  cases r
  cases r'
  cases replicas
  cases same
  cases rings
  rfl

/-! ## Who owns a key -/

theorem Placed.snd_mem (placed : Placed hash r) {point : RingPoint} (member : point ∈ r.ring) :
    (ofLex point).2 ∈ r.nodes := by
  rw [← Multiset.mem_coe, placed.points] at member
  exact snd_of_mem_allPoints member

theorem Placed.ring_eq_nil_iff (placed : Placed hash r) : r.ring = [] ↔ r.nodes = ∅ := by
  constructor
  · intro empty
    by_contra filled
    obtain ⟨nodeId, member⟩ := Finset.nonempty_iff_ne_empty.mpr filled
    have point : (toLex (hash s!"{nodeId}:{0}", nodeId) : RingPoint) ∈
        allPoints hash r.virtualNodes r.nodes :=
      Multiset.mem_bind.mpr ⟨nodeId, member,
        List.mem_map.mpr ⟨0, List.mem_range.mpr r.positive, rfl⟩⟩
    rw [← placed.points, empty] at point
    exact absurd point (Multiset.notMem_zero _)
  · intro empty
    have points := placed.points
    rw [empty] at points
    exact Multiset.coe_eq_zero _ |>.mp points

/-- `get_node` finds the owner. -/
theorem Placed.getNode_eq_ok_iff (placed : Placed hash r) {key : RingKey} {owner : String} :
    r.getNode hash key = .ok owner ↔
      Owns (toLex (hash key.toStr, "")) {point | point ∈ r.ring} owner := by
  unfold getNode
  split
  · next empty =>
      refine iff_of_false (by simp) fun owns => ?_
      rcases owns with ⟨point, first, -⟩
      rw [empty] at first
      exact List.not_mem_nil first.1
  · next filled =>
      have first := firstFrom_roundIndex placed.sorted (toLex (hash key.toStr, ""))
        (roundIndex_lt filled _)
      simp only [Except.ok.injEq]
      constructor
      · intro same
        exact ⟨_, first, same⟩
      · intro owns
        exact Owns.unique ⟨_, first, rfl⟩ owns

theorem Placed.mem_removeNode (placed : Placed hash r) {nodeId : String} {point : RingPoint} :
    point ∈ (r.removeNode nodeId).ring ↔ point ∈ r.ring ∧ (ofLex point).2 ≠ nodeId := by
  unfold ConsistentHashRing.removeNode
  split
  · next absent =>
      rw [iff_self_and]
      rintro member rfl
      exact absent (placed.snd_mem member)
  · rw [List.mem_filter, decide_eq_true_eq]

/-- A reader that leaves takes away only its own keys. -/
theorem Placed.getNode_removeNode (placed : Placed hash r) {key : RingKey} {owner nodeId : String}
    (owns : r.getNode hash key = .ok owner) (other : owner ≠ nodeId) :
    (r.removeNode nodeId).getNode hash key = .ok owner := by
  rw [placed.getNode_eq_ok_iff] at owns
  rw [(placed.removeNode nodeId).getNode_eq_ok_iff]
  have kept : {point | point ∈ (r.removeNode nodeId).ring} =
      without nodeId {point | point ∈ r.ring} := Set.ext fun point => placed.mem_removeNode
  rw [kept]
  exact owns.without other

/-- To join and to leave again changes nothing. -/
theorem Placed.removeNode_addNode (placed : Placed hash r) {nodeId : String}
    (absent : nodeId ∉ r.nodes) : (r.addNode hash nodeId).removeNode nodeId = r := by
  apply ((placed.addNode nodeId).removeNode nodeId).unique placed
  · exact (@virtualNodes_call hash _ (.removeNode nodeId)).trans
      (virtualNodes_call r (.addNode nodeId))
  · rw [ConsistentHashRing.addNode, if_neg absent, ConsistentHashRing.removeNode, if_neg (by simp)]
    exact Finset.erase_insert absent

theorem Placed.exists_owner (placed : Placed hash r) (filled : r.ring ≠ []) (key : RingKey) :
    ∃ owner ∈ r.nodes, r.getNode hash key = .ok owner := by
  rw [getNode, dif_neg filled]
  exact ⟨_, placed.snd_mem (List.getElem_mem _), rfl⟩

/-- **Consistent hashing.**  A reader that joins takes keys for itself only, one that leaves
gives away its own only, and every key has an owner as long as there is a reader. -/
theorem moves_only_what_it_must (reached : Reached hash r) (key : RingKey) (x : String) :
    (x ∉ r.nodes → (r.addNode hash x).getNode hash key = r.getNode hash key ∨
      (r.addNode hash x).getNode hash key = .ok x) ∧
    (∀ owner, r.getNode hash key = .ok owner → owner ≠ x →
      (r.removeNode x).getNode hash key = .ok owner) ∧
    (r.ring = [] ↔ r.nodes = ∅) ∧
    (r.ring ≠ [] → ∃ owner ∈ r.nodes, r.getNode hash key = .ok owner) := by
  have placed := reached.placed
  refine ⟨fun absent => ?_, fun owner owns other => placed.getNode_removeNode owns other,
    placed.ring_eq_nil_iff, fun filled => placed.exists_owner filled key⟩
  have joined := placed.addNode x
  have filled : (r.addNode hash x).ring ≠ [] := by
    rw [ne_eq, joined.ring_eq_nil_iff, addNode, if_neg absent]
    exact Finset.insert_ne_empty x r.nodes
  obtain ⟨owner, -, owns⟩ := joined.exists_owner filled key
  by_cases mine : owner = x
  · right
    rw [owns, mine]
  · left
    rw [owns, ← joined.getNode_removeNode owns mine, placed.removeNode_addNode absent]

/-- Two readers whose tokens all collide. -/
def twoReaders : ConsistentHashRing :=
  [RingCall.addNode "reader-0", .addNode "reader-1"].foldl (call String.length) ⟨2, by decide, [], ∅⟩

theorem reached_twoReaders : Reached String.length twoReaders := ⟨2, _, _, rfl, rfl⟩

theorem moves_only_what_it_must_twoReaders : ∃ owner ∈ twoReaders.nodes,
    twoReaders.getNode String.length (.str "7") = .ok owner ∧
    (∀ x, owner ≠ x → (twoReaders.removeNode x).getNode String.length (.str "7") = .ok owner) ∧
    ((twoReaders.addNode String.length "reader-2").getNode String.length (.str "7") = .ok owner ∨
      (twoReaders.addNode String.length "reader-2").getNode String.length (.str "7") =
        .ok "reader-2") := by
  have moves := moves_only_what_it_must reached_twoReaders (.str "7")
  have filled : twoReaders.ring ≠ [] := (moves "reader-2").2.2.1.not.mpr (by decide)
  obtain ⟨owner, member, owns⟩ := (moves "reader-2").2.2.2 filled
  refine ⟨owner, member, owns, fun x other => (moves x).2.1 owner owns other, ?_⟩
  rw [← owns]
  exact (moves "reader-2").1 (by decide)

/-! ## The coordinator's readers -/

end ConsistentHashRing

structure NodeInfo where
  nodeId : String
  role : String
  address : String
  shardIds : List ℤ

/-- `_reader_nodes`. -/
def readerNodes (nodes : Dict String NodeInfo) : List NodeInfo :=
  (nodes.values.filter fun node => node.role = "reader").mergeSort fun a b => a.nodeId ≤ b.nodeId

/-- `_rebuild_ring`. -/
def rebuildRing (hash : String → ℕ) (nodes : Dict String NodeInfo) (ring : ConsistentHashRing) :
    ConsistentHashRing :=
  (readerNodes nodes).foldl (fun ring node => ring.addNode hash node.nodeId) ring.clear

/-- The coordinator knows a reader of this id. -/
def IsReader (nodes : Dict String NodeInfo) (nodeId : String) : Prop :=
  ∃ node ∈ nodes.values, node.role = "reader" ∧ node.nodeId = nodeId

namespace ConsistentHashRing

variable {hash : String → ℕ} {r r' : ConsistentHashRing}

theorem nodes_addNode {nodeId : String} :
    (r.addNode hash nodeId).nodes = insert nodeId r.nodes := by
  unfold addNode
  split
  · next present => exact (Finset.insert_eq_of_mem present).symm
  · rfl

theorem nodes_foldl_addNode (infos : List NodeInfo) (r : ConsistentHashRing) :
    (infos.foldl (fun ring node => ring.addNode hash node.nodeId) r).nodes =
      (infos.map NodeInfo.nodeId).toFinset ∪ r.nodes := by
  induction infos generalizing r with
  | nil => simp
  | cons node infos ih =>
      rw [List.foldl_cons, ih, nodes_addNode, List.map_cons, List.toFinset_cons,
        Finset.union_insert, Finset.insert_union]

/-- The readers are on the ring. -/
theorem mem_nodes_rebuildRing {nodes : Dict String NodeInfo} {nodeId : String} :
    nodeId ∈ (rebuildRing hash nodes r).nodes ↔ IsReader nodes nodeId := by
  rw [rebuildRing, nodes_foldl_addNode, clear, Finset.union_empty, List.mem_toFinset, List.mem_map]
  simp only [readerNodes, List.mem_mergeSort, List.mem_filter, decide_eq_true_eq, IsReader,
    and_assoc]

theorem rebuildRing_eq_calls (nodes : Dict String NodeInfo) : rebuildRing hash nodes r =
    (RingCall.clear :: (readerNodes nodes).map fun node => .addNode node.nodeId).foldl
      (call hash) r := by
  rw [List.foldl_cons, List.foldl_map]
  rfl

theorem Placed.rebuildRing (placed : Placed hash r) (nodes : Dict String NodeInfo) :
    Placed hash (rebuildRing hash nodes r) := by
  rw [rebuildRing_eq_calls]
  exact placed.calls _

theorem virtualNodes_calls (calls : List RingCall) :
    (calls.foldl (call hash) r).virtualNodes = r.virtualNodes := by
  induction calls generalizing r with
  | nil => rfl
  | cons c calls ih => exact ih.trans (virtualNodes_call r c)

theorem virtualNodes_rebuildRing (nodes : Dict String NodeInfo) :
    (rebuildRing hash nodes r).virtualNodes = r.virtualNodes := by
  rw [rebuildRing_eq_calls, virtualNodes_calls]

/-- **Routing depends on the members alone.**  Two rings with the same nodes have the same
ring list and answer every call alike, whatever has led to them; in particular coordinators
that know the same readers do. -/
theorem routing_depends_on_nodes (reached : Reached hash r) (reached' : Reached hash r')
    (replicas : r.virtualNodes = r'.virtualNodes) :
    (r.nodes = r'.nodes →
      r.ring = (allPoints hash r.virtualNodes r.nodes).sort (· ≤ ·) ∧ r.ring = r'.ring ∧
      (∀ key, r.getNode hash key = r'.getNode hash key) ∧
      (∀ startId endId, r.getNodesForRange hash startId endId =
        r'.getNodesForRange hash startId endId) ∧
      ∀ nodeId, r.getShardId hash nodeId = r'.getShardId hash nodeId) ∧
    ∀ nodes nodes' : Dict String NodeInfo,
      (∀ nodeId, IsReader nodes nodeId ↔ IsReader nodes' nodeId) →
      rebuildRing hash nodes r = rebuildRing hash nodes' r' := by
  refine ⟨fun same => ?_, fun nodes nodes' readers => ?_⟩
  · have equal := reached.placed.unique reached'.placed replicas same
    refine ⟨reached.placed.ring_eq_sort, ?_, ?_, ?_, ?_⟩
    all_goals simp only [equal, implies_true]
  · apply (reached.placed.rebuildRing nodes).unique (reached'.placed.rebuildRing nodes')
    · rw [virtualNodes_rebuildRing, virtualNodes_rebuildRing, replicas]
    · ext nodeId
      rw [mem_nodes_rebuildRing, mem_nodes_rebuildRing, readers]

/-- The same two readers, learned the other way round. -/
def otherOrder : ConsistentHashRing :=
  [RingCall.addNode "reader-2", .addNode "reader-1", .clear, .addNode "reader-1",
    .addNode "reader-2", .addNode "reader-0", .removeNode "reader-2"].foldl (call String.length)
      ⟨2, by decide, [], ∅⟩

theorem routing_depends_on_nodes_otherOrder : twoReaders.ring = otherOrder.ring ∧
    ∀ key, twoReaders.getNode String.length key = otherOrder.getNode String.length key := by
  have reached : Reached String.length otherOrder := ⟨2, _, _, rfl, rfl⟩
  have replicas : twoReaders.virtualNodes = otherOrder.virtualNodes := by
    rw [twoReaders, otherOrder, virtualNodes_calls, virtualNodes_calls]
  have same : twoReaders.nodes = otherOrder.nodes := by decide +kernel
  have agree := (routing_depends_on_nodes reached_twoReaders reached replicas).1 same
  exact ⟨agree.2.1, agree.2.2.1⟩

end ConsistentHashRing

end VecScale
