import VecScale.Coordinator.MetadataStore
import VecScale.Lib.ChangeFeed

/-!
# Watching a prefix

`watch_prefix` polls the store and yields a key with its new value, or with the empty string
if the key is gone.  The keys that are gone come in the order of a Python set, which may be
any.

* `Watched.Faithful`: what a watcher has yielded, put together, is what it has seen;
* `watch_prefix_follows`: after every poll that is what runs under the prefix, and a poll
  yields the keys that have changed since the one before, each once.
-/

namespace VecScale

namespace EtcdClient

/-- What runs under a prefix. -/
def live (keyPrefix : String) (store : MemoryStore) (now : ℕ) (key : String) : Option String :=
  if MemoryStore.HasPrefix keyPrefix key then store.lease key now else none

/-- An order in which a set of keys is gone through. -/
structure SetOrder where
  arrange : List String → List String
  complete : ∀ keys, (arrange keys).Perm keys

end EtcdClient

open EtcdClient

namespace MemoryStore

variable (store : MemoryStore) (keyPrefix : String) (now : ℕ)

theorem nodup_getPrefix : ((store.getPrefix keyPrefix now).1.map Prod.fst).Nodup :=
  List.pairwise_map.mpr ((store.pairwise_getPrefix keyPrefix now).imp fun below => below.ne)

theorem lastWrite_getPrefix (key : String) :
    Dict.lastWrite (store.getPrefix keyPrefix now).1 key = live keyPrefix store now key := by
  refine Option.ext fun value => ?_
  rw [Dict.lastWrite_eq_some_iff (store.nodup_getPrefix keyPrefix now), mem_getPrefix, live]
  split
  · next inside => exact and_iff_right inside
  · next outside => exact iff_of_false (fun both => outside both.1) nofun

end MemoryStore

/-- A store and a watcher of one of its prefixes. -/
structure Watched where
  timed : TimedStore
  seen : Dict String String
  yielded : List (String × String)

inductive WatchEvent
  | call (request : StoreCall)
  | poll (order : SetOrder)

namespace Watched

def call (w : Watched) (request : StoreCall) : Watched := { w with timed := w.timed.call request }

/-- One turn of the loop of `watch_prefix`. -/
def poll (keyPrefix : String) (w : Watched) (order : SetOrder) : Watched :=
  let answer := w.timed.store.getPrefix keyPrefix w.timed.now
  let turn := ChangeFeed.turn "" order.arrange answer.1 w.seen
  { timed := { w.timed with store := answer.2 }
    seen := turn.2
    yielded := w.yielded ++ turn.1 }

def step (keyPrefix : String) (w : Watched) : WatchEvent → Watched
  | .call request => w.call request
  | .poll order => w.poll keyPrefix order

/-- Anything may happen before the watcher starts and between its polls. -/
def after (keyPrefix : String) (timed : TimedStore) (events : List WatchEvent) : Watched :=
  events.foldl (step keyPrefix) ⟨timed, ∅, []⟩

variable {keyPrefix : String} {w : Watched}

/-- What somebody has who applies all that was yielded. -/
def followed (w : Watched) : Dict String String := ChangeFeed.replay "" w.yielded

def Faithful (w : Watched) : Prop :=
  ∀ key, w.followed.get? key = (w.seen.get? key).filter (· ≠ "")

theorem get?_seen_poll (order : SetOrder) (key : String) :
    (w.poll keyPrefix order).seen.get? key = live keyPrefix w.timed.store w.timed.now key := by
  rw [poll, ChangeFeed.get?_turn order.complete, MemoryStore.lastWrite_getPrefix]

theorem Faithful.get?_followed_poll (faithful : w.Faithful) (order : SetOrder) (key : String) :
    (w.poll keyPrefix order).followed.get? key =
      (live keyPrefix w.timed.store w.timed.now key).filter (· ≠ "") := by
  rw [← MemoryStore.lastWrite_getPrefix]
  exact ChangeFeed.get?_replay_turn order.complete (MemoryStore.nodup_getPrefix _ _ _) faithful key

/-- **The step lemma.** -/
theorem Faithful.step (faithful : w.Faithful) (event : WatchEvent) :
    (w.step keyPrefix event).Faithful := by
  cases event with
  | call request => exact faithful
  | poll order =>
      intro key
      rw [Watched.step, get?_seen_poll]
      exact faithful.get?_followed_poll order key

theorem faithful_after (keyPrefix : String) (timed : TimedStore) (events : List WatchEvent) :
    (after keyPrefix timed events).Faithful := by
  unfold after
  induction events using List.reverseRecOn with
  | nil => exact fun _ => rfl
  | append_singleton events event ih =>
      rw [List.foldl_append]
      exact ih.step event

theorem seen_foldl_call (calls : List StoreCall) : (calls.foldl call w).seen = w.seen := by
  induction calls generalizing w with
  | nil => rfl
  | cons request calls ih => exact ih

/-- **Who follows a prefix has what runs under it.**  After every poll, whatever calls came
before it, what was yielded adds up to the entries that run under the prefix and are not
empty; and between two polls a key is yielded, once, iff it reads otherwise than before. -/
theorem watch_prefix_follows (keyPrefix : String) (timed : TimedStore) (events : List WatchEvent)
    (order order' : SetOrder) (calls : List StoreCall) :
    let w := after keyPrefix timed events
    let w' := calls.foldl call (w.poll keyPrefix order)
    (∀ key, (w.poll keyPrefix order).followed.get? key =
      (live keyPrefix w.timed.store w.timed.now key).filter (· ≠ "")) ∧
    ∃ news, (w'.poll keyPrefix order').yielded = w'.yielded ++ news ∧ (news.map Prod.fst).Nodup ∧
      ∀ key value, (key, value) ∈ news ↔
        live keyPrefix w.timed.store w.timed.now key ≠
          live keyPrefix w'.timed.store w'.timed.now key ∧
        value = (live keyPrefix w'.timed.store w'.timed.now key).getD "" := by
  intro w w'
  have nodup := w'.timed.store.nodup_getPrefix keyPrefix w'.timed.now
  refine ⟨(faithful_after keyPrefix timed events).get?_followed_poll order, _, rfl,
    ChangeFeed.nodup_turn order'.complete nodup, fun key value => ?_⟩
  rw [ChangeFeed.mem_turn_iff order'.complete nodup, MemoryStore.lastWrite_getPrefix,
    seen_foldl_call, get?_seen_poll]

end Watched

end VecScale
