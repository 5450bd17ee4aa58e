import Mathlib.Data.List.Sort
import Mathlib.Data.Prod.Lex
import Mathlib.Data.String.Basic
import VecScale.Coordinator.Lease
import VecScale.Lib.Expiring

/-!
# The metadata store in memory

The in-memory backend keeps values and expiry times in two dictionaries and throws out what
has expired only when something is read.  A delete forgets the value and leaves the expiry
time behind.

* `view_put`, `view_delete`, `view_pruneExpired`: the calls as writes of an expiring map;
* `Simulates.call`: what every call keeps;
* `memory_store_refines`: apart from the keys of elections, the store reads as an expiring
  map that is never swept.
-/

namespace VecScale

open EtcdClient

namespace MemoryStore

variable {store : MemoryStore} {now later : ℕ} {key : String}

/-- `key.startswith(prefix)`. -/
def HasPrefix (keyPrefix key : String) : Prop := keyPrefix.toList <+: key.toList

instance (keyPrefix key : String) : Decidable (HasPrefix keyPrefix key) :=
  inferInstanceAs (Decidable (_ <+: _))

def delete (store : MemoryStore) (key : String) : MemoryStore :=
  { store with values := store.values.erase key }

/-- `sorted(values.items())`. -/
def sortedValues (store : MemoryStore) : List (String × String) :=
  store.values.entries.insertionSort fun a b => toLex a ≤ toLex b

def getPrefix (store : MemoryStore) (keyPrefix : String) (now : ℕ) :
    List (String × String) × MemoryStore :=
  ((store.pruneExpired now).sortedValues.filter fun item => HasPrefix keyPrefix item.1,
    store.pruneExpired now)

/-! ## The store as an expiring map -/

def view (store : MemoryStore) : Expiring String String := fun key =>
  (store.values.get? key).map fun value => (value, store.ttls.get? key)

theorem read_view : store.view.read now key = store.lease key now := by
  unfold Expiring.read view lease
  simp only [mem_expired]
  cases store.values.get? key with
  | none => simp
  | some value =>
      cases store.ttls.get? key with
      | none => simp
      | some expiry => simp

theorem view_put (store : MemoryStore) (key value : String) (ttl : Option ℕ) :
    (store.put key value ttl now).view =
      store.view.put key value (ttl.map fun ttl => now + seconds ttl) := by
  funext x
  unfold Expiring.put view
  by_cases same : key = x
  · subst same
    rw [Function.update_self]
    cases ttl with
    | none => simp [put, Dict.get?_erase]
    | some ttl => simp [put]
  · rw [Function.update_of_ne (Ne.symm same)]
    cases ttl with
    | none => simp [put, Dict.get?_erase, same]
    | some ttl => simp [put, same]

theorem view_delete (store : MemoryStore) (key : String) :
    (store.delete key).view = store.view.erase key := by
  funext x
  unfold Expiring.erase view delete
  by_cases same : key = x
  · subst same
    rw [Function.update_self, Dict.get?_erase, if_pos rfl, Option.map_none]
  · rw [Function.update_of_ne (Ne.symm same), Dict.get?_erase, if_neg same]

theorem view_pruneExpired (store : MemoryStore) (now : ℕ) :
    (store.pruneExpired now).view = store.view.sweep now := by
  funext x
  unfold Expiring.sweep
  rw [read_view, lease]
  have value : (store.pruneExpired now).values.get? x = store.lease x now := get?_values_pruneExpired x
  have ttl : (store.pruneExpired now).ttls.get? x =
      if x ∈ store.expired now then none else store.ttls.get? x := by
    rw [pruneExpired, (foldl_forget _ store).2.1, Dict.get?_eraseAll]
  rw [view, value, ttl, lease]
  split
  · rfl
  · next running =>
      rw [view]
      cases store.values.get? x <;> rfl

/-- A campaign writes its leader over the old one, and renews if it has won. -/
theorem view_enrolled (store : MemoryStore) (electionName value : String) (now : ℕ) :
    (store.enrolled electionName value now).view =
      (store.view.sweep now).put leaderKey (store.holder electionName value now)
        ((store.pruneExpired now).ttls.get? leaderKey) := by
  rw [← view_pruneExpired]
  funext x
  unfold Expiring.put view enrolled
  by_cases same : leaderKey = x
  · subst same
    rw [Function.update_self, Dict.get?_set, if_pos rfl, Option.map_some]
  · rw [Function.update_of_ne (Ne.symm same), Dict.get?_set, if_neg same]

/-- What a campaign does to the other keys. -/
theorem agreeOn_campaign {K : String → Prop} {m : Expiring String String} {electionName : String}
    (leader : ¬ K leaderKey) (election : ¬ K (electionKey electionName))
    (agree : Expiring.AgreeOn K now store.view m) (value : String) (now₁ now₂ : ℕ) :
    Expiring.AgreeOn K now (store.campaign electionName value now now₁ now₂).2.view m := by
  have enrolled : Expiring.AgreeOn K now (store.enrolled electionName value now).view m := by
    rw [view_enrolled]
    exact agree.sweep.put_of_not leader _ _
  rw [campaign_eq]
  split
  · rw [renew, view_put, view_put]
    exact (enrolled.put_of_not election _ _).put_of_not leader _ _
  · exact enrolled

theorem lease_of_agreeOn {K : String → Prop} {m : Expiring String String}
    (agree : Expiring.AgreeOn K now store.view m) (le : now ≤ later) (inside : K key) :
    store.lease key later = m.read later key :=
  read_view.symm.trans (agree later le key inside)

/-- `get_prefix` lists what runs under a prefix, each key once and in order. -/
theorem pairwise_getPrefix (store : MemoryStore) (keyPrefix : String) (now : ℕ) :
    (store.getPrefix keyPrefix now).1.Pairwise fun a b => a.1 < b.1 := by
  let entries := (store.pruneExpired now).values.entries
  have total : Std.Total fun a b : String × String => toLex a ≤ toLex b :=
    ⟨fun a b => le_total (toLex a) (toLex b)⟩
  have trans : IsTrans (String × String) fun a b => toLex a ≤ toLex b := ⟨fun _ _ _ => le_trans⟩
  have sorted := List.pairwise_insertionSort (fun a b => toLex a ≤ toLex b) entries
  have keys : (entries.insertionSort fun a b => toLex a ≤ toLex b).Pairwise
      fun a b => a.1 ≠ b.1 := by
    rw [← List.pairwise_map]
    exact ((List.perm_insertionSort _ entries).map Prod.fst).nodup_iff.mpr
      (store.pruneExpired now).values.nodup
  refine List.Pairwise.filter _ (sorted.imp₂ ?_ keys)
  intro a b le ne
  rcases Prod.Lex.toLex_le_toLex.mp le with below | same
  · exact below
  · exact absurd same.1 ne

theorem mem_getPrefix {keyPrefix value : String} :
    (key, value) ∈ (store.getPrefix keyPrefix now).1 ↔
      HasPrefix keyPrefix key ∧ store.lease key now = some value := by
  rw [getPrefix, List.mem_filter, sortedValues, List.mem_insertionSort, Dict.mem_entries_iff,
    get?_values_pruneExpired, decide_eq_true_eq, and_comm]

end MemoryStore

/-! ## Runs -/

/-- The store and the clock. -/
structure TimedStore where
  store : MemoryStore
  now : ℕ

/-- A call on the store, or time that passes. -/
inductive StoreCall
  | put (key value : String) (ttl : Option ℕ)
  | delete (key : String)
  | get (key : String)
  | getPrefix (keyPrefix : String)
  | campaign (electionName value : String) (wait₁ wait₂ : ℕ)
  | tick (wait : ℕ)

def TimedStore.call (s : TimedStore) : StoreCall → TimedStore
  | .put key value ttl => { s with store := s.store.put key value ttl s.now }
  | .delete key => { s with store := s.store.delete key }
  | .get key => { s with store := (s.store.get key s.now).2 }
  | .getPrefix keyPrefix => { s with store := (s.store.getPrefix keyPrefix s.now).2 }
  | .campaign electionName value wait₁ wait₂ =>
      { store := (s.store.campaign electionName value s.now (s.now + wait₁)
          (s.now + wait₁ + wait₂)).2
        now := s.now + wait₁ + wait₂ }
  | .tick wait => { s with now := s.now + wait }

/-- The store after some calls, from an empty one at `now`. -/
def TimedStore.after (now : ℕ) (calls : List StoreCall) : TimedStore :=
  calls.foldl call ⟨⟨∅, ∅, ∅⟩, now⟩

/-- What the store is for: an expiring map with a clock. -/
structure StoreSpec where
  entries : Expiring String String
  now : ℕ

/-- A put and a delete write; to read changes nothing. -/
def StoreSpec.call (spec : StoreSpec) : StoreCall → StoreSpec
  | .put key value ttl =>
      { spec with entries := spec.entries.put key value (ttl.map fun ttl => spec.now + seconds ttl) }
  | .delete key => { spec with entries := spec.entries.erase key }
  | .get _ | .getPrefix _ => spec
  | .campaign _ _ wait₁ wait₂ => { spec with now := spec.now + wait₁ + wait₂ }
  | .tick wait => { spec with now := spec.now + wait }

def StoreSpec.after (now : ℕ) (calls : List StoreCall) : StoreSpec :=
  calls.foldl call ⟨.empty, now⟩

/-- A key that no campaign writes. -/
def Unreserved (key : String) : Prop :=
  key ≠ leaderKey ∧ ∀ electionName, key ≠ electionKey electionName

/-- The store reads as its specification says. -/
structure Simulates (s : TimedStore) (spec : StoreSpec) : Prop where
  now : s.now = spec.now
  agree : Expiring.AgreeOn Unreserved s.now s.store.view spec.entries

/-- **The step lemma.** -/
theorem Simulates.call {s : TimedStore} {spec : StoreSpec} (simulates : Simulates s spec)
    (request : StoreCall) : Simulates (s.call request) (spec.call request) := by
  rcases simulates with ⟨now, agree⟩
  have pruned : Expiring.AgreeOn Unreserved s.now (s.store.pruneExpired s.now).view
      spec.entries := by
    rw [MemoryStore.view_pruneExpired]
    exact agree.sweep
  cases request with
  | put key value ttl =>
      refine ⟨now, ?_⟩
      simp only [TimedStore.call, StoreSpec.call, MemoryStore.view_put, ← now]
      exact agree.put key value _
  | delete key =>
      refine ⟨now, ?_⟩
      simp only [TimedStore.call, MemoryStore.view_delete]
      exact agree.erase key
  | get key => exact ⟨now, pruned⟩
  | getPrefix keyPrefix => exact ⟨now, pruned⟩
  | campaign electionName value wait₁ wait₂ =>
      refine ⟨by simp only [TimedStore.call, StoreSpec.call, now], ?_⟩
      have after := MemoryStore.agreeOn_campaign (fun free => free.1 rfl)
        (fun free => free.2 electionName rfl) agree value (s.now + wait₁) (s.now + wait₁ + wait₂)
      exact after.mono (by simp only [TimedStore.call]; omega)
  | tick wait => exact ⟨congrArg (· + wait) now, agree.mono (Nat.le_add_right _ _)⟩

/-- **The run lemma.** -/
theorem simulates_run (now : ℕ) (calls : List StoreCall) :
    Simulates (.after now calls) (.after now calls) := by
  unfold TimedStore.after StoreSpec.after
  induction calls using List.reverseRecOn with
  | nil => exact ⟨rfl, fun _ _ _ _ => rfl⟩
  | append_singleton calls request ih =>
      rw [List.foldl_append, List.foldl_append]
      exact ih.call request

/-- **The store in memory is an expiring map.**  After any calls, whatever was pruned on the
way, a get reads what the map holds now, and a prefix lists it, each key once and in order. -/
theorem memory_store_refines (start : ℕ) (calls : List StoreCall) :
    let s := TimedStore.after start calls
    let spec := StoreSpec.after start calls
    (∀ key, Unreserved key → (s.store.get key s.now).1 = spec.entries.read spec.now key) ∧
    ∀ keyPrefix, (s.store.getPrefix keyPrefix s.now).1.Pairwise (fun a b => a.1 < b.1) ∧
      ∀ key value, Unreserved key → ((key, value) ∈ (s.store.getPrefix keyPrefix s.now).1 ↔
        MemoryStore.HasPrefix keyPrefix key ∧ spec.entries.read spec.now key = some value) := by
  intro s spec
  obtain ⟨same, agree⟩ : Simulates s spec := simulates_run start calls
  rw [← same]
  refine ⟨fun key free => ?_, fun keyPrefix => ⟨s.store.pairwise_getPrefix keyPrefix s.now, ?_⟩⟩
  · rw [MemoryStore.get, MemoryStore.get?_values_pruneExpired]
    exact MemoryStore.lease_of_agreeOn agree le_rfl free
  · intro key value free
    rw [MemoryStore.mem_getPrefix, MemoryStore.lease_of_agreeOn agree le_rfl free]

end VecScale
