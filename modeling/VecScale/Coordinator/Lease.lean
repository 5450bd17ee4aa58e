import VecScale.Coordinator.Election
import Mathlib.Data.Finset.Basic

/-!
# Leader election on the in-memory backend

The store keeps the leader twice: in its `leader` record, and under the election key, which
expires.  A campaign decides by the record; a leader that renews puts the key again.

* `campaigns_fair_iff`: nobody can win against a running lease, exactly as long as every
  renewal finds the lease it renews still running;
* `renewed_lease_lost`: a renewal just after the election key has expired.
-/

namespace VecScale

open EtcdClient

/-- `time.monotonic`, in nanoseconds. -/
def seconds (n : ℕ) : ℕ := n * 10 ^ 9

structure MemoryStore where
  values : Dict String String
  leader : Dict String String
  ttls : Dict String ℕ

namespace MemoryStore

/-- The keys whose TTL has expired. -/
def expired (store : MemoryStore) (now : ℕ) : List String :=
  (store.ttls.entries.filter fun entry => entry.2 ≤ now).map Prod.fst

def forget (store : MemoryStore) (key : String) : MemoryStore where
  values := store.values.erase key
  ttls := store.ttls.erase key
  leader := store.leader.keys.foldl
    (fun leader electionName =>
      if key = electionKey electionName then leader.erase electionName else leader) store.leader

def pruneExpired (store : MemoryStore) (now : ℕ) : MemoryStore :=
  (store.expired now).foldl forget store

def put (store : MemoryStore) (key value : String) (ttl : Option ℕ) (now : ℕ) : MemoryStore :=
  { store with
    values := store.values.set key value
    ttls := match ttl with
      | some ttl => store.ttls.set key (now + seconds ttl)
      | none => store.ttls.erase key }

def get (store : MemoryStore) (key : String) (now : ℕ) : Option String × MemoryStore :=
  ((store.pruneExpired now).values.get? key, store.pruneExpired now)

/-- The two puts of a leader. -/
def renew (store : MemoryStore) (electionName value : String) (now₁ now₂ : ℕ) : MemoryStore :=
  (store.put (electionKey electionName) value (some 10) now₁).put leaderKey value (some 10) now₂

/-- `campaign`, with the clock readings of its pruning and of its two puts. -/
def campaign (store : MemoryStore) (electionName value : String) (now now₁ now₂ : ℕ) :
    Bool × MemoryStore :=
  let store := store.pruneExpired now
  let leader := if electionName ∈ store.leader.keys then store.leader
    else store.leader.set electionName value
  let holder := (leader.get? electionName).getD value
  let store := { store with leader := leader, values := store.values.set leaderKey holder }
  if holder = value then (true, store.renew electionName value now₁ now₂)
  else (false, store)

end MemoryStore

/-- The store, the clock and the nodes whose `leader` flag is set. -/
structure MemoryElection where
  store : MemoryStore
  now : ℕ
  leading : Finset String

/-- A call on the store, with the time that passes between its clock readings. -/
inductive MemoryCall
  | campaign (electionName value : String) (wait₁ wait₂ : ℕ)
  | start (nodeId : String) (wait₁ wait₂ : ℕ)
  | sync (nodeId : String) (wait₁ wait₂ wait₃ : ℕ)
  | get (key : String)
  | tick (wait : ℕ)

namespace MemoryElection

/-- Nobody has campaigned yet. -/
def fresh (now : ℕ) : MemoryElection := ⟨⟨∅, ∅, ∅⟩, now, ∅⟩

/-- `await etcd.campaign("coordinator", node_id)`, whose answer becomes the `leader` flag. -/
def stand (s : MemoryElection) (nodeId : String) (wait₁ wait₂ : ℕ) : MemoryElection :=
  let answer := s.store.campaign "coordinator" nodeId s.now (s.now + wait₁) (s.now + wait₁ + wait₂)
  { store := answer.2
    now := s.now + wait₁ + wait₂
    leading := if answer.1 then insert nodeId s.leading else s.leading.erase nodeId }

/-- `_sync_leader_state`. -/
def syncLeaderState (s : MemoryElection) (nodeId : String) (wait₁ wait₂ wait₃ : ℕ) :
    MemoryElection :=
  let answer := s.store.get leaderKey s.now
  if nodeId ∈ s.leading then
    if answer.1 = some nodeId then
      { s with
        store := answer.2.renew "coordinator" nodeId (s.now + wait₁) (s.now + wait₁ + wait₂)
        now := s.now + wait₁ + wait₂ }
    else { s with store := answer.2, leading := s.leading.erase nodeId }
  else if answer.1 = none then
    stand { s with store := answer.2, now := s.now + wait₁ } nodeId wait₂ wait₃
  else { s with store := answer.2 }

def step (s : MemoryElection) : MemoryCall → Except PyError MemoryElection
  | .campaign electionName value wait₁ wait₂ =>
      .ok { s with
        store := (s.store.campaign electionName value s.now (s.now + wait₁)
          (s.now + wait₁ + wait₂)).2
        now := s.now + wait₁ + wait₂ }
  | .start nodeId wait₁ wait₂ => .ok (s.stand nodeId wait₁ wait₂)
  | .sync nodeId wait₁ wait₂ wait₃ => .ok (s.syncLeaderState nodeId wait₁ wait₂ wait₃)
  | .get key => .ok { s with store := (s.store.get key s.now).2 }
  | .tick wait => .ok { s with now := s.now + wait }

end MemoryElection

namespace MemoryStore

variable {store : MemoryStore} {now later : ℕ}

/-- What a key holds, unless it has expired. -/
def lease (store : MemoryStore) (key : String) (now : ℕ) : Option String :=
  if key ∈ store.expired now then none else store.values.get? key

/-- Who wins an election now has found its key absent or expired, or holds it already. -/
def Fair (store : MemoryStore) (now : ℕ) : Prop :=
  ∀ electionName value now₁ now₂, (store.campaign electionName value now now₁ now₂).1 = true →
    store.lease (electionKey electionName) now = none ∨
      store.lease (electionKey electionName) now = some value

/-- Who holds an election key that runs is on record as the leader. -/
def Recorded (store : MemoryStore) (now : ℕ) : Prop :=
  ∀ electionName holder, store.lease (electionKey electionName) now = some holder →
    store.leader.get? electionName = some holder

/-- An election with a leader on record has its key, running or not. -/
def Keyed (store : MemoryStore) : Prop :=
  ∀ electionName, store.leader.get? electionName ≠ none →
    store.values.get? (electionKey electionName) ≠ none

/-! ## Pruning -/

theorem mem_expired {key : String} :
    key ∈ store.expired now ↔ ∃ expiry, store.ttls.get? key = some expiry ∧ expiry ≤ now := by
  simp only [expired, List.mem_map, List.mem_filter, decide_eq_true_eq, Prod.exists,
    exists_and_right, exists_eq_right, Dict.mem_entries_iff]

theorem get?_leader_forget (store : MemoryStore) (key electionName : String) :
    (store.forget key).leader.get? electionName =
      if key = electionKey electionName then none else store.leader.get? electionName := by
  have erased : (store.forget key).leader =
      store.leader.eraseAll (store.leader.keys.filter fun name => key = electionKey name) := by
    rw [forget, Dict.eraseAll, List.foldl_filter]
    simp only [decide_eq_true_eq]
  rw [erased, Dict.get?_eraseAll]
  by_cases onRecord : electionName ∈ store.leader.keys
  · simp [onRecord]
  · simp [onRecord, Dict.get?_eq_none_iff.mpr onRecord]

theorem foldl_forget (keys : List String) (store : MemoryStore) :
    (keys.foldl forget store).values = store.values.eraseAll keys ∧
      (keys.foldl forget store).ttls = store.ttls.eraseAll keys ∧
      ∀ electionName, (keys.foldl forget store).leader.get? electionName =
        if electionKey electionName ∈ keys then none else store.leader.get? electionName := by
  induction keys generalizing store with
  | nil => exact ⟨rfl, rfl, fun electionName => by simp⟩
  | cons key keys ih =>
      obtain ⟨values, ttls, leader⟩ := ih (store.forget key)
      refine ⟨values, ttls, fun electionName => ?_⟩
      rw [List.foldl_cons, leader, get?_leader_forget]
      by_cases first : electionKey electionName = key
      · simp [first]
      · simp [first, Ne.symm first]

theorem get?_values_pruneExpired (key : String) :
    (store.pruneExpired now).values.get? key = store.lease key now := by
  rw [pruneExpired, (foldl_forget _ store).1, Dict.get?_eraseAll]
  rfl

theorem get?_leader_pruneExpired (electionName : String) :
    (store.pruneExpired now).leader.get? electionName =
      if electionKey electionName ∈ store.expired now then none
      else store.leader.get? electionName := (foldl_forget _ store).2.2 electionName

theorem expired_mono {key : String} (le : now ≤ later) (lapsed : key ∈ store.expired now) :
    key ∈ store.expired later := by
  rw [mem_expired] at lapsed ⊢
  rcases lapsed with ⟨expiry, found, past⟩
  exact ⟨expiry, found, past.trans le⟩

theorem lease_eq_some_iff {key holder : String} : store.lease key now = some holder ↔
    key ∉ store.expired now ∧ store.values.get? key = some holder := by
  unfold lease
  split
  · next lapsed => simp [lapsed]
  · next running => simp [running]

theorem lease_of_later {key holder : String} (le : now ≤ later)
    (held : store.lease key later = some holder) : store.lease key now = some holder := by
  rw [lease_eq_some_iff] at held ⊢
  exact ⟨fun lapsed => held.1 (expired_mono le lapsed), held.2⟩

/-- What has expired by now does not run later. -/
theorem lease_pruneExpired (le : now ≤ later) (key : String) :
    (store.pruneExpired now).lease key later = store.lease key later := by
  have ttl : (store.pruneExpired now).ttls.get? key =
      if key ∈ store.expired now then none else store.ttls.get? key := by
    rw [pruneExpired, (foldl_forget _ store).2.1, Dict.get?_eraseAll]
  by_cases lapsed : key ∈ store.expired now
  · have gone : (store.pruneExpired now).values.get? key = none := by
      rw [get?_values_pruneExpired, lease, if_pos lapsed]
    rw [lease, lease, if_pos (expired_mono le lapsed), gone, ite_self]
  · have value : (store.pruneExpired now).values.get? key = store.values.get? key := by
      rw [get?_values_pruneExpired, lease, if_neg lapsed]
    rw [if_neg lapsed] at ttl
    simp only [lease, mem_expired, ttl, value]

/-! ## Puts -/

theorem lease_put_of_ne {key other : String} (ne : other ≠ key) (value : String) (ttl : Option ℕ) :
    (store.put other value ttl now).lease key later = store.lease key later := by
  have untouched : (store.put other value ttl now).ttls.get? key = store.ttls.get? key := by
    cases ttl with
    | none => exact (Dict.get?_erase _ _ _).trans (if_neg ne)
    | some ttl => exact (Dict.get?_set _ _ _ _).trans (if_neg ne)
  have kept : (store.put other value ttl now).values.get? key = store.values.get? key :=
    (Dict.get?_set _ _ _ _).trans (if_neg ne)
  simp only [lease, mem_expired, untouched, kept]

theorem lease_put (key value : String) (ttl : ℕ) :
    (store.put key value (some ttl) now).lease key later =
      if now + seconds ttl ≤ later then none else some value := by
  simp only [lease, mem_expired, put, Dict.get?_set, if_true, Option.some.injEq, exists_eq_left']

end MemoryStore

theorem EtcdClient.electionKey_inj {a b : String} : electionKey a = electionKey b ↔ a = b :=
  String.append_right_inj _

namespace MemoryStore

variable {store : MemoryStore} {now later : ℕ}

theorem lease_renew (electionName value name : String) (now₁ now₂ : ℕ) :
    (store.renew electionName value now₁ now₂).lease (electionKey name) later =
      if name = electionName then if now₁ + seconds 10 ≤ later then none else some value
      else store.lease (electionKey name) later := by
  rw [renew, lease_put_of_ne (electionKey_ne_leaderKey name).symm]
  split
  · next same => rw [same, lease_put]
  · next other =>
      apply lease_put_of_ne
      rw [ne_eq, electionKey_inj]
      exact Ne.symm other

/-! ## Campaigns -/

/-- The leader a campaign for `value` finds on record. -/
def holder (store : MemoryStore) (electionName value : String) (now : ℕ) : String :=
  ((store.pruneExpired now).leader.get? electionName).getD value

/-- The store of a campaign before it puts anything. -/
def enrolled (store : MemoryStore) (electionName value : String) (now : ℕ) : MemoryStore :=
  { store.pruneExpired now with
    leader := if electionName ∈ (store.pruneExpired now).leader.keys
      then (store.pruneExpired now).leader
      else (store.pruneExpired now).leader.set electionName value
    values := (store.pruneExpired now).values.set leaderKey (store.holder electionName value now) }

theorem get?_leader_enrolled (electionName value name : String) :
    (store.enrolled electionName value now).leader.get? name =
      if name = electionName then some (store.holder electionName value now)
      else (store.pruneExpired now).leader.get? name := by
  simp only [enrolled, holder]
  split
  · next onRecord =>
      rcases Dict.mem_keys_iff.mp onRecord with ⟨v, found⟩
      split
      · next same => rw [same, found, Option.getD_some]
      · rfl
  · next absent =>
      rw [Dict.get?_eq_none_iff.mpr absent, Dict.get?_set, Option.getD_none]
      simp only [eq_comm]

theorem campaign_eq (electionName value : String) (now₁ now₂ : ℕ) :
    store.campaign electionName value now now₁ now₂ =
      if store.holder electionName value now = value then
        (true, (store.enrolled electionName value now).renew electionName value now₁ now₂)
      else (false, store.enrolled electionName value now) := by
  have onRecord : (store.enrolled electionName value now).leader.get? electionName = _ :=
    get?_leader_enrolled electionName value electionName
  rw [if_pos rfl, enrolled] at onRecord
  simp only [campaign, onRecord, Option.getD_some]
  rfl

theorem campaign_won_iff {electionName value : String} {now₁ now₂ : ℕ} :
    (store.campaign electionName value now now₁ now₂).1 = true ↔
      store.holder electionName value now = value := by
  rw [campaign_eq]
  split <;> simp_all

theorem lease_enrolled (le : now ≤ later) (electionName value name : String) :
    (store.enrolled electionName value now).lease (electionKey name) later =
      store.lease (electionKey name) later := by
  have kept : (store.enrolled electionName value now).values.get? (electionKey name) =
      (store.pruneExpired now).values.get? (electionKey name) :=
    (Dict.get?_set _ _ _ _).trans (if_neg (electionKey_ne_leaderKey name).symm)
  refine Eq.trans ?_ (lease_pruneExpired le (electionKey name))
  rw [lease, kept]
  rfl

/-- A campaign is fair at any time if the record agrees with the keys that run, and only then. -/
theorem fair_iff_recorded : store.Fair now ↔ store.Recorded now := by
  constructor
  · intro fair electionName v held
    have running := (lease_eq_some_iff.mp held).1
    cases onRecord : store.leader.get? electionName with
    | none =>
        -- anyone else would win
        have wins : store.holder electionName (v ++ "'") now = v ++ "'" := by
          rw [holder, get?_leader_pruneExpired, if_neg running, onRecord, Option.getD_none]
        rcases fair electionName _ now now (campaign_won_iff.mpr wins) with absent | mine
        · rw [held] at absent
          cases absent
        · rw [held, Option.some.injEq] at mine
          have lengths := congrArg String.length mine
          rw [String.length_append] at lengths
          exact absurd lengths (by simp)
    | some leader =>
        have wins : store.holder electionName leader now = leader := by
          rw [holder, get?_leader_pruneExpired, if_neg running, onRecord, Option.getD_some]
        rcases fair electionName _ now now (campaign_won_iff.mpr wins) with absent | mine
        · rw [held] at absent
          cases absent
        · rw [held] at mine
          exact mine.symm
  · intro recorded electionName value now₁ now₂ won
    rw [campaign_won_iff] at won
    cases held : store.lease (electionKey electionName) now with
    | none => exact Or.inl rfl
    | some v =>
        right
        have onRecord := recorded electionName v held
        rw [holder, get?_leader_pruneExpired, if_neg (lease_eq_some_iff.mp held).1, onRecord,
          Option.getD_some] at won
        rw [won]

theorem Recorded.mono (recorded : store.Recorded now) (le : now ≤ later) : store.Recorded later :=
  fun electionName v held => recorded electionName v (lease_of_later le held)

theorem Recorded.pruneExpired (recorded : store.Recorded now) (le : now ≤ later) :
    (store.pruneExpired now).Recorded later := by
  intro electionName v held
  rw [lease_pruneExpired le] at held
  have running := lease_of_later le held
  rw [get?_leader_pruneExpired, if_neg (lease_eq_some_iff.mp running).1]
  exact recorded electionName v running

theorem Recorded.campaign (recorded : store.Recorded now) (le : now ≤ later)
    (electionName value : String) (now₁ now₂ : ℕ) :
    (store.campaign electionName value now now₁ now₂).2.Recorded later := by
  have enrolled : (store.enrolled electionName value now).Recorded later := by
    intro name v held
    rw [lease_enrolled le, ← lease_pruneExpired le] at held
    have onRecord := recorded.pruneExpired le name v held
    rw [get?_leader_enrolled]
    split
    · next same =>
        rw [same] at onRecord
        rw [holder, onRecord, Option.getD_some]
    · exact onRecord
  rw [campaign_eq]
  split
  · next won =>
      intro name v held
      rw [lease_renew] at held
      split at held
      · next same =>
          have mine : v = value := by
            split at held
            · cases held
            · exact (Option.some.inj held).symm
          have onRecord : (store.enrolled electionName value now).leader.get? name = _ :=
            get?_leader_enrolled electionName value name
          rw [if_pos same, won] at onRecord
          rw [mine]
          exact onRecord
      · exact enrolled name v held
  · exact enrolled

theorem Keyed.pruneExpired (keyed : store.Keyed) (now : ℕ) : (store.pruneExpired now).Keyed := by
  intro electionName onRecord
  rw [get?_leader_pruneExpired] at onRecord
  rw [get?_values_pruneExpired, lease]
  split
  · next lapsed => exact absurd (if_pos lapsed) onRecord
  · next running =>
      rw [if_neg running] at onRecord
      exact keyed electionName onRecord

theorem get?_values_renew (electionName value name : String) (now₁ now₂ : ℕ) :
    (store.renew electionName value now₁ now₂).values.get? (electionKey name) =
      if name = electionName then some value else store.values.get? (electionKey name) := by
  simp only [renew, put, Dict.get?_set, if_neg (electionKey_ne_leaderKey name).symm,
    electionKey_inj, eq_comm]

theorem Keyed.renew (keyed : store.Keyed) (electionName value : String) (now₁ now₂ : ℕ) :
    (store.renew electionName value now₁ now₂).Keyed := by
  intro name onRecord
  rw [get?_values_renew]
  split
  · exact Option.some_ne_none value
  · exact keyed name onRecord

theorem Keyed.campaign (keyed : store.Keyed) (electionName value : String) (now now₁ now₂ : ℕ) :
    (store.campaign electionName value now now₁ now₂).2.Keyed := by
  have others : ∀ name, name ≠ electionName →
      (store.enrolled electionName value now).leader.get? name ≠ none →
      (store.enrolled electionName value now).values.get? (electionKey name) ≠ none := by
    intro name other onRecord
    rw [get?_leader_enrolled, if_neg other] at onRecord
    rw [enrolled, Dict.get?_set, if_neg (electionKey_ne_leaderKey name).symm]
    exact keyed.pruneExpired now name onRecord
  rw [campaign_eq]
  split
  · intro name onRecord
    rw [get?_values_renew]
    split
    · exact Option.some_ne_none value
    · next other => exact others name other onRecord
  · next lost =>
      intro name onRecord
      by_cases same : name = electionName
      · -- who loses has found a leader on record
        have found : (store.pruneExpired now).leader.get? electionName ≠ none := by
          intro absent
          rw [holder, absent] at lost
          exact lost rfl
        rw [same, enrolled, Dict.get?_set, if_neg (electionKey_ne_leaderKey _).symm]
        exact keyed.pruneExpired now electionName found
      · exact others name same onRecord

end MemoryStore

namespace MemoryElection

open MemoryStore

/-- A leader that renews its lease finds it running still; or it takes so long over the two
puts that the renewed lease is over as well. -/
def Renewed (s : MemoryElection) : MemoryCall → Prop
  | .sync nodeId _ wait₂ _ => nodeId ∈ s.leading → s.store.lease leaderKey s.now = some nodeId →
      s.store.lease (electionKey "coordinator") s.now = some nodeId ∨ seconds 10 ≤ wait₂
  | _ => True

instance (s : MemoryElection) : (call : MemoryCall) → Decidable (s.Renewed call)
  | .sync _ _ _ _ => inferInstanceAs (Decidable (_ → _))
  | .campaign _ _ _ _ | .start _ _ _ | .get _ | .tick _ => inferInstanceAs (Decidable True)

/-- The campaign that a call runs, if it runs one: the store and the time it starts with. -/
def campaignOf (s : MemoryElection) : MemoryCall → Option (MemoryStore × ℕ)
  | .campaign _ _ _ _ | .start _ _ _ => some (s.store, s.now)
  | .sync nodeId wait₁ _ _ =>
      if nodeId ∉ s.leading ∧ s.store.lease leaderKey s.now = none then
        some ((s.store.get leaderKey s.now).2, s.now + wait₁)
      else none
  | .get _ | .tick _ => none

theorem stand_keyed {s : MemoryElection} (keyed : s.store.Keyed) (nodeId : String)
    (wait₁ wait₂ : ℕ) : (s.stand nodeId wait₁ wait₂).store.Keyed := keyed.campaign _ _ _ _ _

theorem stand_recorded {s : MemoryElection} (recorded : s.store.Recorded s.now) (nodeId : String)
    (wait₁ wait₂ : ℕ) :
    (s.stand nodeId wait₁ wait₂).store.Recorded (s.stand nodeId wait₁ wait₂).now :=
  have le : s.now ≤ s.now + wait₁ + wait₂ := by omega
  recorded.campaign le _ _ _ _

/-- A renewal leaves record and keys in agreement exactly if the lease it renews runs. -/
theorem recorded_renew_iff {store : MemoryStore} {now wait₁ wait₂ : ℕ} {nodeId : String}
    (keyed : store.Keyed) (recorded : store.Recorded now) :
    ((store.pruneExpired now).renew "coordinator" nodeId (now + wait₁)
        (now + wait₁ + wait₂)).Recorded (now + wait₁ + wait₂) ↔
      store.lease (electionKey "coordinator") now = some nodeId ∨ seconds 10 ≤ wait₂ := by
  have pruned := recorded.pruneExpired (now.le_add_right (wait₁ + wait₂))
  rw [← Nat.add_assoc] at pruned
  constructor
  · intro agrees
    by_cases slow : seconds 10 ≤ wait₂
    · exact Or.inr slow
    left
    have onRecord : (store.pruneExpired now).leader.get? "coordinator" = some nodeId := by
      apply agrees
      rw [lease_renew, if_pos rfl, if_neg (by omega)]
    have present := keyed.pruneExpired now "coordinator" (by rw [onRecord]; exact Option.some_ne_none _)
    rw [get?_values_pruneExpired] at present
    rcases Option.ne_none_iff_exists'.mp present with ⟨v, held⟩
    have same := recorded.pruneExpired le_rfl "coordinator" v (by rwa [lease_pruneExpired le_rfl])
    rw [onRecord] at same
    rw [held, same]
  · intro renewed name v held
    rw [lease_renew] at held
    split at held
    · next same =>
        split at held
        · cases held
        · next running =>
            rcases renewed with mine | slow
            · have onRecord := recorded.pruneExpired le_rfl "coordinator" nodeId
                (by rwa [lease_pruneExpired le_rfl])
              rw [same, ← held]
              exact onRecord
            · omega
    · exact pruned name v held

theorem step_exact {s s' : MemoryElection} {call : MemoryCall} (keyed : s.store.Keyed)
    (recorded : s.store.Recorded s.now) (ran : s.step call = .ok s') :
    s'.store.Keyed ∧ (s'.store.Recorded s'.now ↔ s.Renewed call) := by
  cases call with
  | campaign electionName value wait₁ wait₂ =>
      cases ran
      have le : s.now ≤ s.now + wait₁ + wait₂ := by omega
      exact ⟨keyed.campaign _ _ _ _ _, iff_of_true (recorded.campaign le _ _ _ _) trivial⟩
  | start nodeId wait₁ wait₂ =>
      cases ran
      exact ⟨stand_keyed keyed _ _ _, iff_of_true (stand_recorded recorded _ _ _) trivial⟩
  | get key =>
      cases ran
      exact ⟨keyed.pruneExpired _, iff_of_true (recorded.pruneExpired le_rfl) trivial⟩
  | tick wait =>
      cases ran
      exact ⟨keyed, iff_of_true (recorded.mono (Nat.le_add_right _ _)) trivial⟩
  | sync nodeId wait₁ wait₂ wait₃ =>
      cases ran
      have read : (s.store.get leaderKey s.now).1 = s.store.lease leaderKey s.now :=
        get?_values_pruneExpired leaderKey
      simp only [syncLeaderState, read, Renewed]
      split
      · next leads =>
          split
          · next mine =>
              refine ⟨(keyed.pruneExpired _).renew _ _ _ _, ?_⟩
              simp only [leads, mine, forall_const]
              exact recorded_renew_iff keyed recorded
          · next deposed =>
              refine ⟨keyed.pruneExpired _, iff_of_true (recorded.pruneExpired le_rfl) ?_⟩
              intro _ mine
              exact absurd mine deposed
      · next follows =>
          have idle : nodeId ∈ s.leading → s.store.lease leaderKey s.now = some nodeId →
              s.store.lease (electionKey "coordinator") s.now = some nodeId ∨ seconds 10 ≤ wait₂ :=
            fun leads => absurd leads follows
          split
          · exact ⟨stand_keyed (keyed.pruneExpired _) _ _ _,
              iff_of_true (stand_recorded (recorded.pruneExpired (Nat.le_add_right _ _)) _ _ _) idle⟩
          · exact ⟨keyed.pruneExpired _, iff_of_true (recorded.pruneExpired le_rfl) idle⟩

/-- The campaign of a call meets a store that agrees with its keys. -/
theorem fair_campaignOf {s : MemoryElection} {call : MemoryCall}
    (recorded : s.store.Recorded s.now) :
    ∀ started ∈ s.campaignOf call, started.1.Fair started.2 := by
  intro started runs
  rw [fair_iff_recorded]
  cases call with
  | campaign | start =>
      cases runs
      exact recorded
  | sync nodeId wait₁ wait₂ wait₃ =>
      simp only [campaignOf] at runs
      split at runs
      · cases runs
        exact recorded.pruneExpired (Nat.le_add_right _ _)
      · cases runs
  | get | tick => cases runs

/-- **Leadership agrees with the lease.**  In any run from an empty store: at every moment
only who finds the election key absent or expired, or holds it, can win a campaign, exactly
if every renewal finds the lease running; and then every campaign of the run went so. -/
theorem campaigns_fair_iff {now : ℕ} {calls : List MemoryCall} {final : MemoryElection}
    (ran : runAll step (fresh now) calls = .ok final) :
    (Throughout step (fun s => s.store.Fair s.now) (fresh now) calls ↔
      StepsMeet step Renewed (fresh now) calls) ∧
    (StepsMeet step Renewed (fresh now) calls →
      StepsMeet step (fun s call => ∀ started ∈ s.campaignOf call, started.1.Fair started.2)
        (fresh now) calls) := by
  have keyed : (fresh now).store.Keyed := fun _ onRecord => absurd rfl onRecord
  have recorded : (fresh now).store.Recorded (fresh now).now := by
    intro electionName v held
    cases (lease_eq_some_iff.mp held).2
  constructor
  · simp only [fair_iff_recorded]
    apply throughout_iff_stepsMeet (I := fun s : MemoryElection => s.store.Keyed)
      (Q := fun _ => True) _ keyed recorded (fun _ _ => trivial) ran
    intro s call s' keyed recorded _ ran
    exact step_exact keyed recorded ran
  · intro renewed
    apply renewed.of_invariant (I := fun s : MemoryElection => s.store.Keyed ∧ s.store.Recorded s.now)
      _ ⟨keyed, recorded⟩
    intro s call sound renewed
    refine ⟨fair_campaignOf sound.2, fun s' ran => ?_⟩
    obtain ⟨keyed', agrees⟩ := step_exact sound.1 sound.2 ran
    exact ⟨keyed', agrees.mpr renewed⟩

/-- A leader renews its lease and is not followed until it has stopped. -/
def renewedInTime : List MemoryCall :=
  [.start "coordinator-0" 1 1, .tick (seconds 5), .sync "coordinator-0" 1 1 1,
    .start "coordinator-1" 1 1, .tick (seconds 11), .sync "coordinator-1" 1 1 1]

theorem campaigns_fair_renewedInTime :
    StepsMeet step (fun s call => ∀ started ∈ s.campaignOf call, started.1.Fair started.2)
      (fresh 0) renewedInTime ∧
    ∃ final, runAll step (fresh 0) renewedInTime = .ok final ∧
      final.leading = {"coordinator-1", "coordinator-0"} := by
  have renewed : StepsMeet step Renewed (fresh 0) renewedInTime := by decide +kernel
  have leading : (runAll step (fresh 0) renewedInTime).map MemoryElection.leading =
      .ok {"coordinator-1", "coordinator-0"} := by
    decide +kernel
  obtain ⟨final, ran, both⟩ := ok_of_map leading
  exact ⟨(campaigns_fair_iff ran).2 renewed, final, ran, both⟩

/-- The leader renews when its election key has just expired, and its leader key has not. -/
def renewedLate : List MemoryCall :=
  [.start "coordinator-0" 1 1, .tick (seconds 10 - 1), .sync "coordinator-0" 1 1 1]

/-- The renewed lease runs for `coordinator-0`, and `coordinator-1` wins against it. -/
theorem renewed_lease_lost :
    (runAll step (fresh 0) renewedLate).map (fun s =>
      (s.store.lease (electionKey "coordinator") s.now,
        (s.store.campaign "coordinator" "coordinator-1" s.now (s.now + 1) (s.now + 2)).1)) =
      .ok (some "coordinator-0", true) := by
  decide +kernel

end MemoryElection

end VecScale
