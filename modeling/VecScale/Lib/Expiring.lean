import Mathlib.Order.Nat

/-!
# Maps whose entries expire

An entry of an `Expiring κ β` may carry the time from which it no longer counts.  Nothing
removes it then; it is only not read any more.  A store that sweeps out what has expired,
whenever it likes, cannot be told from one that never does.

* `read_put`, `read_erase`: what a write makes readable;
* `read_sweep`: sweeping changes nothing that can still be read;
* `AgreeOn`: maps that read alike on some keys from some time on, and the writes that keep
  them so.
-/

/-- For every key its value, and the time from which it no longer counts. -/
def Expiring (κ β : Type) := κ → Option (β × Option ℕ)

namespace Expiring

variable {κ β : Type} {m m' : Expiring κ β} {now later : ℕ} {k x : κ} {K : κ → Prop}

def empty : Expiring κ β := fun _ => none

/-- The value of a key, unless it has expired. -/
def read (m : Expiring κ β) (now : ℕ) (k : κ) : Option β :=
  match m k with
  | none => none
  | some (v, none) => some v
  | some (v, some expiry) => if expiry ≤ now then none else some v

/-- Drop what has expired. -/
def sweep (m : Expiring κ β) (now : ℕ) : Expiring κ β := fun k =>
  if (m.read now k).isSome then m k else none

theorem read_congr (same : m x = m' x) : m.read now x = m'.read now x := by
  rw [read, read, same]

theorem exists_of_read {v : β} (found : m.read now k = some v) : ∃ expiry, m k = some (v, expiry) := by
  unfold read at found
  split at found
  · cases found
  · next here =>
      cases found
      exact ⟨_, here⟩
  · next here =>
      split at found
      · cases found
      · cases found
        exact ⟨_, here⟩

/-- What has expired stays expired. -/
theorem read_eq_none_of_le (le : now ≤ later) (gone : m.read now x = none) :
    m.read later x = none := by
  unfold read at gone ⊢
  split at gone
  · rfl
  · cases gone
  · split at gone
    · next expired => exact if_pos (expired.trans le)
    · cases gone

theorem read_sweep (le : now ≤ later) : (m.sweep now).read later x = m.read later x := by
  by_cases live : (m.read now x).isSome
  · exact read_congr (if_pos live)
  · have swept : m.sweep now x = none := if_neg live
    rw [Option.not_isSome_iff_eq_none] at live
    rw [read_eq_none_of_le le live, read, swept]

/-- From `now` on, the keys of `K` are read alike. -/
def AgreeOn (K : κ → Prop) (now : ℕ) (m m' : Expiring κ β) : Prop :=
  ∀ later, now ≤ later → ∀ k, K k → m.read later k = m'.read later k

theorem AgreeOn.refl (K : κ → Prop) (now : ℕ) (m : Expiring κ β) : AgreeOn K now m m :=
  fun _ _ _ _ => rfl

theorem AgreeOn.mono (agree : AgreeOn K now m m') (le : now ≤ later) : AgreeOn K later m m' :=
  fun time after => agree time (le.trans after)

theorem AgreeOn.sweep (agree : AgreeOn K now m m') : AgreeOn K now (m.sweep now) m' :=
  fun _ after k inside => (read_sweep after).trans (agree _ after k inside)

/-! ## Writes -/

variable [DecidableEq κ]

def put (m : Expiring κ β) (k : κ) (v : β) (expiry : Option ℕ) : Expiring κ β :=
  Function.update m k (some (v, expiry))

def erase (m : Expiring κ β) (k : κ) : Expiring κ β := Function.update m k none

theorem read_put (v : β) (expiry : Option ℕ) : (m.put k v expiry).read now x =
    if k = x then (if ∃ t ∈ expiry, t ≤ now then none else some v) else m.read now x := by
  split
  · next same =>
      subst same
      have here : m.put k v expiry k = some (v, expiry) := Function.update_self _ _ _
      rw [read, here]
      cases expiry <;> simp
  · next other => exact read_congr (Function.update_of_ne (Ne.symm other) _ _)

theorem read_erase : (m.erase k).read now x = if k = x then none else m.read now x := by
  split
  · next same =>
      subst same
      have here : m.erase k k = none := Function.update_self _ _ _
      rw [read, here]
  · next other => exact read_congr (Function.update_of_ne (Ne.symm other) _ _)

theorem AgreeOn.put (agree : AgreeOn K now m m') (k : κ) (v : β) (expiry : Option ℕ) :
    AgreeOn K now (m.put k v expiry) (m'.put k v expiry) := by
  intro time after x inside
  rw [read_put, read_put, agree time after x inside]

theorem AgreeOn.erase (agree : AgreeOn K now m m') (k : κ) :
    AgreeOn K now (m.erase k) (m'.erase k) := by
  intro time after x inside
  rw [read_erase, read_erase, agree time after x inside]

/-- A write elsewhere is not noticed. -/
theorem AgreeOn.put_of_not (agree : AgreeOn K now m m') (outside : ¬ K k) (v : β)
    (expiry : Option ℕ) : AgreeOn K now (m.put k v expiry) m' := by
  intro time after x inside
  have other : k ≠ x := fun same => outside (same ▸ inside)
  rw [read_put, if_neg other]
  exact agree time after x inside

end Expiring
