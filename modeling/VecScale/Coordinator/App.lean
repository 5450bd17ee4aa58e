import VecScale.Coordinator.MetadataStore
import VecScale.Coordinator.Registry
import VecScale.Coordinator.Ring

/-!
# The coordinator's requests

One coordinator over the store in memory.  Nothing in a handler waits for anything but the
store, so a handler runs as a whole; only the clock goes on between two of its calls to the
store, by as much as it likes.

Metadata lie in the store as JSON, under the prefix of their kind.  What pydantic makes of a
value is a parameter; a valid value comes back as it was.
-/

namespace VecScale

/-- The `min_length=1` of the strings. -/
def NodeInfo.Valid (info : NodeInfo) : Prop :=
  info.nodeId ≠ "" ∧ info.role ≠ "" ∧ info.address ≠ ""

instance (info : NodeInfo) : Decidable info.Valid := inferInstanceAs (Decidable (_ ∧ _))

def SegmentMeta.Valid (segMeta : SegmentMeta) : Prop :=
  segMeta.segmentId ≠ "" ∧ segMeta.path ≠ ""

instance (segMeta : SegmentMeta) : Decidable segMeta.Valid := inferInstanceAs (Decidable (_ ∧ _))

/-- `model_dump_json` and `model_validate_json` of a schema. -/
structure JsonModel (α : Type) (Valid : α → Prop) where
  dump : α → String
  validate : String → Except PyError α
  validate_dump : ∀ a, Valid a → validate (dump a) = .ok a

def nodePrefix : String := "/vecscaledb/nodes/"

def segmentPrefix : String := "/vecscaledb/segments/"

def snapshotCurrent : String := "/vecscaledb/snapshots/current"

structure CoordinatorSettings where
  nodeId : String
  nodeRole : String
  writerUrl : String
  searchFanoutMode : String

namespace CoordinatorSettings

/-- `_node_address`. -/
def nodeAddress (settings : CoordinatorSettings) (nodeId : String) : String :=
  if settings.nodeRole = "coordinator" then s!"http://{nodeId}:8000"
  else if settings.nodeRole = "writer" then settings.writerUrl
  else s!"http://{nodeId}:8200"

/-- The node that `_register_self` registers. -/
def self (settings : CoordinatorSettings) : NodeInfo :=
  ⟨settings.nodeId, settings.nodeRole, settings.nodeAddress settings.nodeId, []⟩

end CoordinatorSettings

/-- The settings, the hash of the ring, the JSON, and the time that passes before each call to
the store. -/
structure CoordinatorEnv extends CoordinatorSettings where
  named : toCoordinatorSettings.self.Valid
  hash : String → ℕ
  nodeJson : JsonModel NodeInfo NodeInfo.Valid
  segmentJson : JsonModel SegmentMeta SegmentMeta.Valid
  wait : ℕ → ℕ

structure Coordinator where
  timed : TimedStore
  asked : ℕ
  nodes : Dict String NodeInfo
  ring : ConsistentHashRing
  leader : Bool
  searchCounter : ℕ

inductive CoordinatorReply
  | registered (nodeId : String)
  | segmentRegistered (segmentId : String) (snapshotId : ℕ)
  | deleted (segmentId : String)
  | segments (segments : List SegmentMeta)
  | insertRoute (writer : Option NodeInfo) (shardId : ℕ) (shardOwner : Option String)
  | searchRoute (readers : List NodeInfo)
  | targets (snapshotId : ℕ) (readers : List NodeInfo)
  | health (leader : Bool) (ringSize : ℕ) (nodes : List NodeInfo)
  | beaten
  | forward (method url : String)
  | httpError (status : ℕ) (detail : String)
  | raised (error : PyError)

/-- A request, or a turn of the heartbeat. -/
inductive CoordinatorCall
  | register (info : NodeInfo)
  | registerSegment (segMeta : SegmentMeta)
  | deleteSegment (segmentId : String)
  | listSegments
  | routeInsert (count : ℕ)
  | routeSearch (queryHash : Option ℤ)
  | search
  | health
  | heartbeat

/-- What pydantic answers to a body that breaks a constraint. -/
def unprocessable : CoordinatorReply := .httpError 422 "Unprocessable Content"

namespace Coordinator

open EtcdClient

section

variable (env : CoordinatorEnv) (c : Coordinator)

/-! ## The store -/

/-- When the next call reaches the store. -/
def nextTime : ℕ := c.timed.now + env.wait c.asked

/-- One call to the store. -/
def ask (request : StoreCall) : Coordinator :=
  { c with
    timed := (c.timed.call (.tick (env.wait c.asked))).call request
    asked := c.asked + 1 }

def get (key : String) : Option String × Coordinator :=
  ((c.timed.store.get key (c.nextTime env)).1, c.ask env (.get key))

def getPrefix (keyPrefix : String) : List String × Coordinator :=
  ((c.timed.store.getPrefix keyPrefix (c.nextTime env)).1.map Prod.snd,
    c.ask env (.getPrefix keyPrefix))

def put (key value : String) (ttl : Option ℕ) : Coordinator := c.ask env (.put key value ttl)

def delete (key : String) : Coordinator := c.ask env (.delete key)

@[simp] theorem nodes_ask (request : StoreCall) : (c.ask env request).nodes = c.nodes := rfl

@[simp] theorem leader_ask (request : StoreCall) : (c.ask env request).leader = c.leader := rfl

@[simp] theorem searchCounter_ask (request : StoreCall) :
    (c.ask env request).searchCounter = c.searchCounter := rfl

/-- `leader = await etcd.campaign("coordinator", settings.node_id)`. -/
def campaign : Coordinator :=
  let wait₁ := env.wait (c.asked + 1)
  let wait₂ := env.wait (c.asked + 2)
  let now := c.nextTime env
  let won := (c.timed.store.campaign "coordinator" env.nodeId now (now + wait₁)
    (now + wait₁ + wait₂)).1
  { c.ask env (.campaign "coordinator" env.nodeId wait₁ wait₂) with
    asked := c.asked + 3
    leader := won }

theorem timed_campaign : (c.campaign env).timed =
    (c.timed.call (.tick (env.wait c.asked))).call (.campaign "coordinator" env.nodeId
      (env.wait (c.asked + 1)) (env.wait (c.asked + 2))) := rfl

theorem leader_campaign : (c.campaign env).leader =
    (c.timed.store.campaign "coordinator" env.nodeId (c.nextTime env)
      (c.nextTime env + env.wait (c.asked + 1))
      (c.nextTime env + env.wait (c.asked + 1) + env.wait (c.asked + 2))).1 := rfl

theorem searchCounter_campaign : (c.campaign env).searchCounter = c.searchCounter := rfl

/-! ## The nodes -/

/-- `_rebuild_ring`. -/
def rebuildRing : Coordinator := { c with ring := VecScale.rebuildRing env.hash c.nodes c.ring }

/-- The loop of `_refresh_nodes`. -/
def fillNodes (nodes : Dict String NodeInfo) :
    List String → Except PyError Unit × Dict String NodeInfo
  | [] => (.ok (), nodes)
  | value :: values =>
      match env.nodeJson.validate value with
      | .error e => (.error e, nodes)
      | .ok info => fillNodes (nodes.set info.nodeId info) values

/-- `_refresh_nodes`. -/
def refreshNodes : Except PyError Unit × Coordinator :=
  let answer := c.getPrefix env nodePrefix
  let filled := fillNodes env ∅ answer.1
  match filled.1 with
  | .error e => (.error e, { answer.2 with nodes := filled.2 })
  | .ok () => (.ok (), { answer.2 with nodes := filled.2 }.rebuildRing env)

/-- `_register_self`. -/
def registerSelf : Coordinator :=
  c.put env (nodePrefix ++ env.nodeId) (env.nodeJson.dump env.self) (some 10)

/-- `_sync_leader_state`. -/
def syncLeaderState : Coordinator :=
  let current := c.get env leaderKey
  if c.leader then
    if current.1 = some env.nodeId then
      (current.2.put env (electionKey "coordinator") env.nodeId (some 10)).put env leaderKey
        env.nodeId (some 10)
    else { current.2 with leader := false }
  else if current.1 = none then current.2.campaign env
  else current.2

/-- `_proxy_to_leader`, up to the request that it sends. -/
def proxyToLeader (method path : String) : CoordinatorReply × Coordinator :=
  let current := c.get env leaderKey
  match current.1 with
  | none => (.httpError 503 "No active coordinator leader.", current.2)
  | some leaderId =>
      if leaderId = env.nodeId then (.httpError 503 "No active coordinator leader.", current.2)
      else
        let refreshed := current.2.refreshNodes env
        match refreshed.1 with
        | .error e => (.raised e, refreshed.2)
        | .ok () =>
            match refreshed.2.nodes.get? leaderId with
            | none => (.httpError 503 "Leader is not registered.", refreshed.2)
            | some info => (.forward method (info.address ++ path), refreshed.2)

def register (info : NodeInfo) : CoordinatorReply × Coordinator :=
  if c.leader then
    let stored := c.put env (nodePrefix ++ info.nodeId) (env.nodeJson.dump info) (some 10)
    (.registered info.nodeId, { stored with nodes := stored.nodes.set info.nodeId info }.rebuildRing env)
  else c.proxyToLeader env "POST" "/register"

/-! ## The segments -/

/-- `int` of a string of digits. -/
def pyInt (text : String) : Except PyError ℕ :=
  if text ≠ "" ∧ text.toList.all Char.isDigit then .ok (Nat.ofDigitChars 10 text.toList 0)
  else .error (.valueError "invalid literal for int() with base 10")

/-- `int(current or "0")`. -/
def readSnapshot (current : Option String) : Except PyError ℕ :=
  match current with
  | none | some "" => pyInt "0"
  | some text => pyInt text

def listSegments : Except PyError (List SegmentMeta) × Coordinator :=
  let answer := c.getPrefix env segmentPrefix
  (answer.1.mapM env.segmentJson.validate, answer.2)

def registerSegment (segMeta : SegmentMeta) : CoordinatorReply × Coordinator :=
  if c.leader then
    let stored := c.put env (segmentPrefix ++ segMeta.segmentId) (env.segmentJson.dump segMeta) none
    let current := stored.get env snapshotCurrent
    match readSnapshot current.1 with
    | .error e => (.raised e, current.2)
    | .ok snapshot =>
        let nextSnapshot := max snapshot segMeta.snapshotId
        (.segmentRegistered segMeta.segmentId nextSnapshot,
          current.2.put env snapshotCurrent (toString nextSnapshot) none)
  else c.proxyToLeader env "POST" "/segments"

def deleteSegment (segmentId : String) : CoordinatorReply × Coordinator :=
  if c.leader then (.deleted segmentId, c.delete env (segmentPrefix ++ segmentId))
  else c.proxyToLeader env "DELETE" ("/segments/" ++ segmentId)

/-- `_current_snapshot_id`. -/
def currentSnapshotId : Except PyError ℕ × Coordinator :=
  let current := c.get env snapshotCurrent
  match readSnapshot current.1 with
  | .error e => (.error e, current.2)
  | .ok snapshot =>
      if 0 < snapshot then (.ok snapshot, current.2)
      else
        let listed := current.2.listSegments env
        (listed.1.map fun segments =>
          (segments.map SegmentMeta.snapshotId).max?.getD snapshot, listed.2)

/-! ## Routes -/

/-- `_find_writer`. -/
def findWriter : Option NodeInfo :=
  ((c.nodes.values.filter fun node => node.role = "writer").mergeSort
    fun a b => a.nodeId ≤ b.nodeId).head?

def routeInsert (count : ℕ) : CoordinatorReply :=
  if readerNodes c.nodes = [] then .insertRoute c.findWriter 0 none
  else
    let route := do
      let owner ← c.ring.getNode env.hash (.str (toString count))
      let shardId ← c.ring.getShardId env.hash owner
      .ok (CoordinatorReply.insertRoute c.findWriter shardId (some owner))
    match route with
    | .error e => .raised e
    | .ok reply => reply

def routeSearch (queryHash : Option ℤ) : CoordinatorReply :=
  match queryHash with
  | none => .searchRoute (readerNodes c.nodes)
  | some key =>
      if readerNodes c.nodes ≠ [] ∧ c.ring.nodes ≠ ∅ then
        match c.ring.getNode env.hash (.int key) with
        | .error e => .raised e
        | .ok owner => .searchRoute ((readerNodes c.nodes).filter fun node => node.nodeId = owner)
      else .searchRoute (readerNodes c.nodes)

/-- `_search_targets`. -/
def searchTargets (readers : List NodeInfo) :
    Except CoordinatorReply (List NodeInfo) × Coordinator :=
  let mode := env.searchFanoutMode.toLower
  if mode = "scatter" ∨ readers.length ≤ 1 then (.ok readers, c)
  else if mode ≠ "replicated" then
    (.error (.httpError 500 s!"Unsupported search fanout mode: {env.searchFanoutMode}"), c)
  else
    (.ok readers[c.searchCounter % readers.length]?.toList,
      { c with searchCounter := c.searchCounter + 1 })

/-- `search`, up to the requests that it sends. -/
def search : CoordinatorReply × Coordinator :=
  let refreshed := c.refreshNodes env
  match refreshed.1 with
  | .error e => (.raised e, refreshed.2)
  | .ok () =>
      let current := refreshed.2.currentSnapshotId env
      match current.1 with
      | .error e => (.raised e, current.2)
      | .ok snapshotId =>
          let readers := readerNodes current.2.nodes
          if readers = [] then (.targets snapshotId [], current.2)
          else
            let targets := current.2.searchTargets env readers
            match targets.1 with
            | .error reply => (reply, targets.2)
            | .ok readers => (.targets snapshotId readers, targets.2)

def health : CoordinatorReply × Coordinator :=
  let refreshed := (c.syncLeaderState env).refreshNodes env
  match refreshed.1 with
  | .error e => (.raised e, refreshed.2)
  | .ok () =>
      (.health refreshed.2.leader refreshed.2.ring.ring.length refreshed.2.nodes.values,
        refreshed.2)

/-- A turn of `_heartbeat_loop`. -/
def heartbeat : Coordinator := (c.registerSelf env).syncLeaderState env

def handle : CoordinatorCall → CoordinatorReply × Coordinator
  | .register info => if info.Valid then c.register env info else (unprocessable, c)
  | .registerSegment segMeta =>
      if segMeta.Valid then c.registerSegment env segMeta else (unprocessable, c)
  | .deleteSegment segmentId => c.deleteSegment env segmentId
  | .listSegments =>
      let listed := c.listSegments env
      match listed.1 with
      | .error e => (.raised e, listed.2)
      | .ok segments => (.segments segments, listed.2)
  | .routeInsert count => (if 1 ≤ count then c.routeInsert env count else unprocessable, c)
  | .routeSearch queryHash => (c.routeSearch env queryHash, c)
  | .search => c.search env
  | .health => c.health env
  | .heartbeat => (.beaten, c.heartbeat env)

/-- A process that has just come up, with a store that nobody has used. -/
def fresh (now : ℕ) : Coordinator :=
  ⟨.after now [], 0, ∅, ⟨150, by decide, [], ∅⟩, false, 0⟩

/-- `lifespan`, up to the first request. -/
def start (now : ℕ) : Except PyError Unit × Coordinator :=
  (((fresh now).campaign env).registerSelf env).refreshNodes env

end

end Coordinator

end VecScale
