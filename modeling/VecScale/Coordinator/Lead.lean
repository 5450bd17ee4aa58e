import VecScale.Coordinator.Quiet

/-!
# Keeping the lead

A coordinator that is alone renews its lead at every look at the leader key, and loses it if
a look comes ten seconds after the last renewal; the look after that one wins it back.
Between them it refuses every write.

* `Held.call`: what no call to the store but a renewal changes;
* `Leads.handle`: what a request does to the lead;
* `lead_decides`: after any requests, a write is accepted if the coordinator leads, and
  refused if it does not.
-/

namespace VecScale

open EtcdClient

/-- Whether a coordinator leads, and when it last renewed its lead. -/
structure Lead where
  leading : Bool
  renewed : ℕ

/-- A look at the leader key, with the time that passes before each put that follows. -/
def Lead.look (lead : Lead) (now : ℕ) (wait : ℕ → ℕ) : Lead :=
  if lead.leading then
    if now < lead.renewed + seconds 10 then ⟨true, now + wait 0 + wait 1⟩
    else { lead with leading := false }
  else ⟨true, now + wait 0 + wait 1 + wait 2⟩

/-- The store knows no other leader, and the leader key runs out with the lead. -/
structure Held (nodeId : String) (timed : TimedStore) (lead : Lead) : Prop where
  record : ∀ holder, timed.store.leader.get? "coordinator" = some holder → holder = nodeId
  key : ∀ t, timed.now ≤ t → timed.store.lease leaderKey t =
    if lead.leading ∧ t < lead.renewed + seconds 10 then some nodeId else none

namespace Held

variable {nodeId : String} {timed : TimedStore} {lead : Lead}

theorem call (held : Held nodeId timed lead) (request : StoreCall) (harmless : Harmless request) :
    Held nodeId (timed.call request) lead := by
  have before := now_le_call timed request
  refine ⟨fun holder found => ?_, fun t later => ?_⟩
  · rcases leader_call harmless with same | ⟨gone, -⟩
    · exact held.record holder (same.symm.trans found)
    · rw [gone] at found
      cases found
  · rw [lease_call (fun free => free.1 rfl) harmless (before.trans later)]
    exact held.key t (before.trans later)

theorem renew (held : Held nodeId timed lead) (wait₁ wait₂ : ℕ) :
    Held nodeId ⟨timed.store.renew "coordinator" nodeId (timed.now + wait₁)
      (timed.now + wait₁ + wait₂), timed.now + wait₁ + wait₂⟩
      ⟨true, timed.now + wait₁ + wait₂⟩ := by
  refine ⟨held.record, fun t later => ?_⟩
  rw [MemoryStore.renew, MemoryStore.lease_put]
  by_cases late : timed.now + wait₁ + wait₂ + seconds 10 ≤ t
  · rw [if_pos late, if_neg fun both => absurd both.2 (not_lt.mpr late)]
  · rw [if_neg late, if_pos ⟨rfl, not_le.mp late⟩]

/-- Who campaigns alone wins. -/
theorem campaign (held : Held nodeId timed lead) (wait₁ wait₂ : ℕ) :
    (timed.store.campaign "coordinator" nodeId timed.now (timed.now + wait₁)
      (timed.now + wait₁ + wait₂)).1 = true ∧
    Held nodeId (timed.call (.campaign "coordinator" nodeId wait₁ wait₂))
      ⟨true, timed.now + wait₁ + wait₂⟩ := by
  have wins : timed.store.holder "coordinator" nodeId timed.now = nodeId := by
    unfold MemoryStore.holder
    cases found : (timed.store.pruneExpired timed.now).leader.get? "coordinator" with
    | none => rfl
    | some holder => exact (held.call (.get leaderKey) trivial).record holder found
  refine ⟨MemoryStore.campaign_won_iff.mpr wins, ?_⟩
  rw [TimedStore.call, MemoryStore.campaign_eq, if_pos wins]
  refine ⟨fun holder found => ?_, fun t later => ?_⟩
  · have onRecord : (timed.store.enrolled "coordinator" nodeId timed.now).leader.get?
        "coordinator" = some holder := found
    rw [MemoryStore.get?_leader_enrolled, if_pos rfl, wins, Option.some.injEq] at onRecord
    exact onRecord.symm
  · rw [MemoryStore.renew, MemoryStore.lease_put]
    by_cases late : timed.now + wait₁ + wait₂ + seconds 10 ≤ t
    · rw [if_pos late, if_neg fun both => absurd both.2 (not_lt.mpr late)]
    · rw [if_neg late, if_pos ⟨rfl, not_le.mp late⟩]

end Held

namespace Coordinator

variable {env : CoordinatorEnv} {c : Coordinator} {lead : Lead}

/-- The flag, and the store behind it. -/
structure Leads (env : CoordinatorEnv) (timed : TimedStore) (leader : Bool) (lead : Lead) : Prop where
  held : Held env.nodeId timed lead
  flag : leader = lead.leading

/-- What a request does to the lead. -/
def leadAfterCall (env : CoordinatorEnv) (c : Coordinator) (lead : Lead) : CoordinatorCall → Lead
  | .health => lead.look (c.nextTime env) fun i => env.wait (c.asked + 1 + i)
  | .heartbeat =>
      lead.look (c.nextTime env + env.wait (c.asked + 1)) fun i => env.wait (c.asked + 2 + i)
  | _ => lead

theorem Leads.ask (leads : Leads env c.timed c.leader lead) (request : StoreCall)
    (harmless : Harmless request) : Leads env (c.ask env request).timed c.leader lead :=
  ⟨(leads.held.call (.tick _) trivial).call request harmless, leads.flag⟩

theorem Leads.get_leaderKey (leads : Leads env c.timed c.leader lead) :
    (c.get env leaderKey).1 =
      if lead.leading ∧ c.nextTime env < lead.renewed + seconds 10 then some env.nodeId else none :=
  (MemoryStore.get?_values_pruneExpired _).trans (leads.held.key _ (Nat.le_add_right _ _))

theorem Leads.syncLeaderState (leads : Leads env c.timed c.leader lead) :
    Leads env (c.syncLeaderState env).timed (c.syncLeaderState env).leader
      (lead.look (c.nextTime env) fun i => env.wait (c.asked + 1 + i)) := by
  have asked : Leads env (c.get env leaderKey).2.timed c.leader lead :=
    leads.ask (.get _) trivial
  have answer := leads.get_leaderKey
  unfold Coordinator.syncLeaderState Lead.look
  by_cases leading : lead.leading = true
  · simp only [leads.flag.trans leading, leading, true_and, if_true] at answer ⊢
    by_cases early : c.nextTime env < lead.renewed + seconds 10
    · rw [if_pos early] at answer ⊢
      rw [if_pos answer]
      exact ⟨asked.held.renew _ _, leads.flag.trans leading⟩
    · rw [if_neg early] at answer ⊢
      rw [answer, if_neg (by simp)]
      refine ⟨⟨asked.held.record, fun t later => ?_⟩, rfl⟩
      have late : ¬ t < lead.renewed + seconds 10 := fun below => early (later.trans_lt below)
      rw [asked.held.key t later, if_neg fun both => late both.2, if_neg (by simp)]
  · have flag : ¬ c.leader = true := fun set => leading (leads.flag.symm.trans set)
    rw [if_neg fun both => leading both.1] at answer
    simp only [flag, leading, answer, Bool.false_eq_true, if_false, if_true]
    obtain ⟨won, held⟩ := (asked.held.call (.tick (env.wait (c.asked + 1))) trivial).campaign
      (env.wait (c.asked + 2)) (env.wait (c.asked + 3))
    rw [timed_campaign, leader_campaign]
    exact ⟨held, won⟩

theorem quiet_leads : Quiet env fun c => Leads env c.timed c.leader lead :=
  ⟨fun harmless leads => leads.ask _ harmless, fun leads same => by rwa [same.1, same.2.2]⟩

/-- **The step lemma.** -/
theorem Leads.handle (leads : Leads env c.timed c.leader lead) (call : CoordinatorCall) :
    Leads env (c.handle env call).2.timed (c.handle env call).2.leader
      (c.leadAfterCall env lead call) := by
  by_cases check : call = .health
  · subst check
    exact quiet_leads.health leads.syncLeaderState
  · by_cases beat : call = .heartbeat
    · subst beat
      have registered : Leads env (c.registerSelf env).timed (c.registerSelf env).leader lead :=
        quiet_leads.registerSelf leads
      exact registered.syncLeaderState
    · have same : c.leadAfterCall env lead call = lead := by
        cases call <;> first | rfl | contradiction
      rw [same]
      exact quiet_leads.handle leads check beat

/-! ## Runs -/

/-- The lead after some requests. -/
def leadAfter (env : CoordinatorEnv) (c : Coordinator) (lead : Lead) : List CoordinatorCall → Lead
  | [] => lead
  | call :: calls => leadAfter env (c.handle env call).2 (c.leadAfterCall env lead call) calls

theorem Leads.serve (leads : Leads env c.timed c.leader lead) (calls : List CoordinatorCall) :
    Leads env (c.serve env calls).timed (c.serve env calls).leader
      (c.leadAfter env lead calls) := by
  induction calls generalizing c lead with
  | nil => exact leads
  | cons call calls ih => exact ih (leads.handle call)

/-- The lead that a coordinator wins when it starts. -/
def firstLead (env : CoordinatorEnv) (now : ℕ) : Lead :=
  ⟨true, now + env.wait 0 + env.wait 1 + env.wait 2⟩

theorem leads_start (env : CoordinatorEnv) (now : ℕ) :
    Leads env (start env now).2.timed (start env now).2.leader (firstLead env now) := by
  have nobody : Held env.nodeId (fresh now).timed ⟨false, 0⟩ := ⟨nofun, fun _ _ => rfl⟩
  obtain ⟨won, held⟩ := (nobody.call (.tick (env.wait 0)) trivial).campaign
    (env.wait 1) (env.wait 2)
  have campaigned : Leads env ((fresh now).campaign env).timed ((fresh now).campaign env).leader
      (firstLead env now) := ⟨held, won⟩
  rw [start]
  exact quiet_leads.refreshNodes (quiet_leads.registerSelf campaigned)

/-! ## Writes -/

/-- Who leads accepts every valid write. -/
theorem Represents.accepts {metadata : Metadata} (represents : Represents env c metadata)
    (flag : c.leader = true) :
    (∀ info, info.Valid → (c.handle env (.register info)).1 = .registered info.nodeId) ∧
    (∀ segMeta, segMeta.Valid → (c.handle env (.registerSegment segMeta)).1 =
      .segmentRegistered segMeta.segmentId
        (max metadata.registry.snapshotCurrent segMeta.snapshotId)) ∧
    ∀ segmentId, (c.handle env (.deleteSegment segmentId)).1 = .deleted segmentId := by
  refine ⟨fun info valid => ?_, fun segMeta valid => ?_, fun segmentId => ?_⟩
  · rw [handle, if_pos valid, register, if_pos flag]
  · have stored : Represents env (c.put env (segmentPrefix ++ segMeta.segmentId)
        (env.segmentJson.dump segMeta) none) _ := represents.putSegment valid
    rw [handle, if_pos valid, registerSegment, if_pos flag]
    simp only [stored.readSnapshot]
    rfl
  · rw [handle, deleteSegment, if_pos flag]

/-- Who does not lead passes every valid write on. -/
theorem passes_on (flag : ¬ c.leader = true) :
    (∀ info, info.Valid → (c.handle env (.register info)).1 =
      (c.proxyToLeader env "POST" "/register").1) ∧
    (∀ segMeta, segMeta.Valid → (c.handle env (.registerSegment segMeta)).1 =
      (c.proxyToLeader env "POST" "/segments").1) ∧
    ∀ segmentId, (c.handle env (.deleteSegment segmentId)).1 =
      (c.proxyToLeader env "DELETE" ("/segments/" ++ segmentId)).1 := by
  refine ⟨fun info valid => ?_, fun segMeta valid => ?_, fun segmentId => ?_⟩
  · rw [handle, if_pos valid, register, if_neg flag]
  · rw [handle, if_pos valid, registerSegment, if_neg flag]
  · rw [handle, deleteSegment, if_neg flag]

/-- **Who leads accepts, who does not refuses.**  After any requests, with any time between the
calls to the store, a coordinator that is alone accepts every valid write exactly if it
leads, that is unless its last look at the leader key came ten seconds or more after the
renewal before it. -/
theorem lead_decides (env : CoordinatorEnv) (now : ℕ) (calls : List CoordinatorCall) :
    let c := (start env now).2.serve env calls
    let refused := CoordinatorReply.httpError 503 "No active coordinator leader."
    if ((start env now).2.leadAfter env (firstLead env now) calls).leading then
      (∀ info, info.Valid → (c.handle env (.register info)).1 = .registered info.nodeId) ∧
      (∀ segMeta, segMeta.Valid → (c.handle env (.registerSegment segMeta)).1 =
        .segmentRegistered segMeta.segmentId
          (max (metadataAfter env now calls).registry.snapshotCurrent segMeta.snapshotId)) ∧
      ∀ segmentId, (c.handle env (.deleteSegment segmentId)).1 = .deleted segmentId
    else
      (∀ info, info.Valid → (c.handle env (.register info)).1 = refused) ∧
      (∀ segMeta, segMeta.Valid → (c.handle env (.registerSegment segMeta)).1 = refused) ∧
      ∀ segmentId, (c.handle env (.deleteSegment segmentId)).1 = refused := by
  intro c refused
  have leads : Leads env c.timed c.leader _ := (leads_start env now).serve calls
  have represents : Represents env c (metadataAfter env now calls) :=
    (serving_after env now calls).represents
  split
  · next leading => exact represents.accepts (leads.flag.trans leading)
  · next lost =>
      have flag : ¬ c.leader = true := fun set => lost (leads.flag.symm.trans set)
      have answer := leads.get_leaderKey
      rw [if_neg fun both => lost both.1] at answer
      have refusal : ∀ method path, (c.proxyToLeader env method path).1 = refused := by
        intro method path
        unfold Coordinator.proxyToLeader
        simp only [answer]
        rfl
      rcases passes_on flag with ⟨registered, registeredSegment, deleted⟩
      exact ⟨fun info valid => (registered info valid).trans (refusal _ _),
        fun segMeta valid => (registeredSegment segMeta valid).trans (refusal _ _),
        fun segmentId => (deleted segmentId).trans (refusal _ _)⟩

end Coordinator

end VecScale
