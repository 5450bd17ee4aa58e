import VecScale.Coordinator.Answers

/-!
# Requests that leave the election alone

Most requests put, read and delete metadata and touch no key of an election.  What no such call
to the store changes, no such request changes.

* `lease_call`, `leader_call`: the keys and the record of an election after such a call;
* `Quiet`: a property of that kind;
* `Quiet.handle`: every request but a health check and a heartbeat keeps it.
-/

namespace VecScale

open EtcdClient

/-- A call that leaves the elections alone. -/
def Harmless : StoreCall → Prop
  | .put key _ _ | .delete key => Unreserved key
  | .campaign _ _ _ _ => False
  | .get _ | .getPrefix _ | .tick _ => True

section Elections

variable {timed : TimedStore} {request : StoreCall} {key electionName : String} {t : ℕ}

theorem now_le_call (timed : TimedStore) (request : StoreCall) :
    timed.now ≤ (timed.call request).now := by
  cases request <;> simp only [TimedStore.call] <;> omega

theorem lease_call (reserved : ¬ Unreserved key) (harmless : Harmless request)
    (later : timed.now ≤ t) : (timed.call request).store.lease key t = timed.store.lease key t := by
  cases request with
  | put other value ttl =>
      have ne : other ≠ key := fun same => reserved (same ▸ harmless)
      exact MemoryStore.lease_put_of_ne ne value ttl
  | delete other =>
      have ne : other ≠ key := fun same => reserved (same ▸ harmless)
      have kept := MemoryStore.view_delete timed.store other
      rw [TimedStore.call, ← MemoryStore.read_view, kept, Expiring.read_erase, if_neg ne,
        MemoryStore.read_view]
  | get other => exact MemoryStore.lease_pruneExpired later key
  | getPrefix keyPrefix => exact MemoryStore.lease_pruneExpired later key
  | campaign electionName value wait₁ wait₂ => exact harmless.elim
  | tick wait => rfl

/-- A record goes when its key is found expired. -/
theorem leader_call (harmless : Harmless request) :
    (timed.call request).store.leader.get? electionName = timed.store.leader.get? electionName ∨
      (timed.call request).store.leader.get? electionName = none ∧
        electionKey electionName ∈ timed.store.expired timed.now := by
  have pruned : (timed.store.pruneExpired timed.now).leader.get? electionName = _ :=
    MemoryStore.get?_leader_pruneExpired electionName
  have either : (timed.store.pruneExpired timed.now).leader.get? electionName =
      timed.store.leader.get? electionName ∨
      (timed.store.pruneExpired timed.now).leader.get? electionName = none ∧
        electionKey electionName ∈ timed.store.expired timed.now := by
    split at pruned
    · next lapsed => exact Or.inr ⟨pruned, lapsed⟩
    · exact Or.inl pruned
  cases request with
  | put other value ttl => exact Or.inl rfl
  | delete other => exact Or.inl rfl
  | get other => exact either
  | getPrefix keyPrefix => exact either
  | campaign electionName value wait₁ wait₂ => exact harmless.elim
  | tick wait => exact Or.inl rfl

end Elections

namespace Coordinator

variable {env : CoordinatorEnv} {P : Coordinator → Prop} {c : Coordinator}

/-- A harmless call keeps `P`, and so does whatever happens to what the coordinator knows. -/
structure Quiet (env : CoordinatorEnv) (P : Coordinator → Prop) : Prop where
  ask : ∀ {c : Coordinator} {request : StoreCall}, Harmless request → P c → P (c.ask env request)
  known : ∀ {c c' : Coordinator}, P c →
    c'.timed = c.timed ∧ c'.asked = c.asked ∧ c'.leader = c.leader → P c'

namespace Quiet

theorem refreshNodes (quiet : Quiet env P) (here : P c) : P (c.refreshNodes env).2 := by
  have asked : P (c.ask env (.getPrefix nodePrefix)) := quiet.ask trivial here
  unfold Coordinator.refreshNodes
  dsimp only
  split <;> exact quiet.known asked ⟨rfl, rfl, rfl⟩

theorem proxyToLeader (quiet : Quiet env P) (here : P c) (method path : String) :
    P (c.proxyToLeader env method path).2 := by
  have asked : P (c.get env leaderKey).2 := quiet.ask trivial here
  exact proxyToLeader_cases asked (quiet.refreshNodes asked) method path

theorem registerSelf (quiet : Quiet env P) (here : P c) : P (c.registerSelf env) :=
  quiet.ask (unreserved_nodeKey env.nodeId) here

theorem register (quiet : Quiet env P) (here : P c) (info : NodeInfo) :
    P (c.register env info).2 := by
  unfold Coordinator.register
  split
  · let stored := c.put env (nodePrefix ++ info.nodeId) (env.nodeJson.dump info) (some 10)
    have put : P stored := quiet.ask (unreserved_nodeKey info.nodeId) here
    exact quiet.known put ⟨rfl, rfl, rfl⟩
  · exact quiet.proxyToLeader here _ _

theorem registerSegment (quiet : Quiet env P) (here : P c) (segMeta : SegmentMeta) :
    P (c.registerSegment env segMeta).2 := by
  unfold Coordinator.registerSegment
  split
  · let stored := c.put env (segmentPrefix ++ segMeta.segmentId) (env.segmentJson.dump segMeta) none
    have put : P stored := quiet.ask (unreserved_segmentKey segMeta.segmentId) here
    have asked : P (stored.get env snapshotCurrent).2 := quiet.ask trivial put
    dsimp only
    split
    · exact asked
    · exact quiet.ask unreserved_snapshotCurrent asked
  · exact quiet.proxyToLeader here _ _

theorem deleteSegment (quiet : Quiet env P) (here : P c) (segmentId : String) :
    P (c.deleteSegment env segmentId).2 := by
  unfold Coordinator.deleteSegment
  split
  · exact quiet.ask (unreserved_segmentKey segmentId) here
  · exact quiet.proxyToLeader here _ _

theorem currentSnapshotId (quiet : Quiet env P) (here : P c) : P (c.currentSnapshotId env).2 := by
  have asked : P (c.get env snapshotCurrent).2 := quiet.ask trivial here
  unfold Coordinator.currentSnapshotId
  dsimp only
  split
  · exact asked
  · split
    · exact asked
    · exact quiet.ask trivial asked

theorem search (quiet : Quiet env P) (here : P c) : P (c.search env).2 := by
  have refreshed := quiet.refreshNodes here
  exact search_cases refreshed (quiet.currentSnapshotId refreshed)
    fun c n here => quiet.known here ⟨rfl, rfl, rfl⟩

/-- **A request that is quiet.** -/
theorem handle (quiet : Quiet env P) (here : P c) {call : CoordinatorCall}
    (noCheck : call ≠ .health) (noBeat : call ≠ .heartbeat) : P (c.handle env call).2 := by
  cases call with
  | register info =>
      rw [Coordinator.handle]
      split
      · exact quiet.register here info
      · exact here
  | registerSegment segMeta =>
      rw [Coordinator.handle]
      split
      · exact quiet.registerSegment here segMeta
      · exact here
  | deleteSegment segmentId => exact quiet.deleteSegment here segmentId
  | listSegments =>
      have asked : P (c.ask env (.getPrefix segmentPrefix)) := quiet.ask trivial here
      simp only [Coordinator.handle]
      split <;> exact asked
  | routeInsert count => exact here
  | routeSearch queryHash => exact here
  | search => exact quiet.search here
  | health => exact absurd rfl noCheck
  | heartbeat => exact absurd rfl noBeat

/-- A health check, after its look at the leader key. -/
theorem health (quiet : Quiet env P) (synced : P (c.syncLeaderState env)) :
    P (c.handle env .health).2 := by
  have refreshed := quiet.refreshNodes synced
  simp only [Coordinator.handle, Coordinator.health]
  split <;> exact refreshed

end Quiet

end Coordinator

end VecScale
