import Mathlib.Data.List.Basic

/-!
# Requests that are sent again

A client sends a request until somebody answers.  A try is refused, or handled without an
answer that arrives, or answered.

* `retry_cases`: when a request may be handled twice, all tries together leave what one
  handling leaves, or nothing; and an answer means that it was handled.
-/

namespace VecScale

inductive Try
  | refused
  | unanswered
  | answered
  deriving DecidableEq

section Retries

variable {σ α : Type} {handle : σ → α × σ}

/-- Send a request once for each try, up to the first answer. -/
def retry (handle : σ → α × σ) : List Try → σ → Option α × σ
  | [], s => (none, s)
  | .refused :: tries, s => retry handle tries s
  | .unanswered :: tries, s => retry handle tries (handle s).2
  | .answered :: _, s => (some (handle s).1, (handle s).2)

/-- To handle the request again changes nothing, and answers the same. -/
def Idempotent (handle : σ → α × σ) : Prop := ∀ s, handle (handle s).2 = handle s

/-- Once it has been handled, further tries change nothing. -/
theorem Idempotent.retry_again (idempotent : Idempotent handle) (tries : List Try) (s : σ) :
    (retry handle tries (handle s).2).2 = (handle s).2 ∧
      ∀ a ∈ (retry handle tries (handle s).2).1, a = (handle s).1 := by
  induction tries with
  | nil => exact ⟨rfl, nofun⟩
  | cons first tries ih =>
      cases first with
      | refused => exact ih
      | unanswered =>
          rw [retry, idempotent s]
          exact ih
      | answered =>
          rw [retry, idempotent s]
          exact ⟨rfl, fun a same => (Option.mem_some_iff.mp same).symm⟩

/-- **At least once is once.**  An answered request was handled; one that nobody answers was
handled or not. -/
theorem Idempotent.retry_cases (idempotent : Idempotent handle) (tries : List Try) (s : σ) :
    retry handle tries s = (some (handle s).1, (handle s).2) ∨
      retry handle tries s = (none, (handle s).2) ∨ retry handle tries s = (none, s) := by
  induction tries with
  | nil => exact Or.inr (Or.inr rfl)
  | cons first tries ih =>
      cases first with
      | refused => exact ih
      | unanswered =>
          obtain ⟨state, answer⟩ := idempotent.retry_again tries s
          rw [retry]
          cases outcome : (retry handle tries (handle s).2).1 with
          | none => exact Or.inr (Or.inl (Prod.ext outcome state))
          | some a =>
              have same := answer a outcome
              exact Or.inl (Prod.ext (outcome.trans (congrArg some same)) state)
      | answered => exact Or.inl rfl

/-- A request is answered if one of its tries is. -/
theorem retry_isSome_iff {tries : List Try} {s : σ} :
    (retry handle tries s).1.isSome ↔ Try.answered ∈ tries := by
  induction tries generalizing s with
  | nil => simp [retry]
  | cons first tries ih => cases first <;> simp [retry, ih]

end Retries

end VecScale
