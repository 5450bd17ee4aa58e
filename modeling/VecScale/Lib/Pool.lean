import VecScale.Lib.Runs

/-!
# Tasks over a shared state

A `Pool` is a shared state and the tasks that work on it.  A call adds a task, and
a task advances by one atomic step at a time, in any order.  A task that has
finished stays in the pool with its result.

* `Pool.stepped_of_step`: what a step of the pool can do;
* `Pool.AtTask`: a condition on the task that advances.
-/

structure Pool (σ τ : Type) where
  shared : σ
  tasks : List τ
  deriving DecidableEq

inductive Pool.Event (α : Type)
  | call (request : α)
  | advance (i : ℕ)

namespace Pool

variable {σ τ α ε : Type}

/-- One event; a task that is not there cannot advance. -/
def step (start : α → τ) (next : σ → τ → Except ε (σ × τ)) (p : Pool σ τ) :
    Event α → Except ε (Pool σ τ)
  | .call request => .ok { p with tasks := p.tasks ++ [start request] }
  | .advance i =>
      match p.tasks[i]? with
      | none => .ok p
      | some task => do
          let done ← next p.shared task
          .ok ⟨done.1, p.tasks.set i done.2⟩

/-- A condition on the task that advances, and on the pool before it does. -/
def AtTask (D : Pool σ τ → τ → Prop) (p : Pool σ τ) : Event α → Prop
  | .call _ => True
  | .advance i => ∀ task ∈ p.tasks[i]?, D p task

instance (D : Pool σ τ → τ → Prop) [∀ p task, Decidable (D p task)] (p : Pool σ τ) :
    (event : Event α) → Decidable (p.AtTask D event)
  | .call _ => inferInstanceAs (Decidable True)
  | .advance _ => inferInstanceAs (Decidable (∀ task ∈ (_ : Option τ), _))

theorem atTask_advance {D : Pool σ τ → τ → Prop} {p : Pool σ τ} {i : ℕ} {task : τ}
    (here : p.tasks[i]? = some task) : p.AtTask D (.advance i : Event α) ↔ D p task := by
  simp only [AtTask, here, Option.mem_some_iff, forall_eq']

/-- What a step does: the tasks other than the one that advances stay as they are. -/
inductive Stepped (start : α → τ) (next : σ → τ → Except ε (σ × τ)) (p : Pool σ τ) :
    Event α → Pool σ τ → Prop
  | call (request : α) :
      Stepped start next p (.call request) { p with tasks := p.tasks ++ [start request] }
  | idle {i : ℕ} (absent : p.tasks[i]? = none) : Stepped start next p (.advance i) p
  | advance {i : ℕ} {task task' : τ} {shared' : σ} {tasks' : List τ} (others : List τ)
      (here : p.tasks[i]? = some task) (ran : next p.shared task = .ok (shared', task'))
      (before : ∀ t, t ∈ p.tasks ↔ t = task ∨ t ∈ others)
      (after : ∀ t, t ∈ tasks' ↔ t = task' ∨ t ∈ others) :
      Stepped start next p (.advance i) ⟨shared', tasks'⟩

/-- The inversion lemma of `step`. -/
theorem stepped_of_step {start : α → τ} {next : σ → τ → Except ε (σ × τ)} {p p' : Pool σ τ}
    {event : Event α} (ran : p.step start next event = .ok p') :
    Stepped start next p event p' := by
  cases event with
  | call request =>
      cases ran
      exact .call request
  | advance i =>
      simp only [step] at ran
      split at ran
      · next absent =>
          cases ran
          exact .idle absent
      · next task here =>
          obtain ⟨⟨shared', task'⟩, advanced, rest⟩ := ok_of_bind ran
          cases rest
          rcases List.getElem?_eq_some_iff.mp here with ⟨bound, same⟩
          have cut : p.tasks = p.tasks.take i ++ task :: p.tasks.drop (i + 1) := by
            rw [← same, ← List.drop_eq_getElem_cons bound, List.take_append_drop]
          have replaced : p.tasks.set i task' =
              p.tasks.take i ++ task' :: p.tasks.drop (i + 1) := by
            rw [List.set_eq_take_append_cons_drop, if_pos bound]
          apply Stepped.advance (p.tasks.take i ++ p.tasks.drop (i + 1)) here advanced
          · intro t
            nth_rewrite 1 [cut]
            simp only [List.mem_append, List.mem_cons]
            tauto
          · intro t
            rw [replaced]
            simp only [List.mem_append, List.mem_cons]
            tauto

/-- Some task, seen from the one that advances. -/
theorem exists_mem_iff {tasks others : List τ} {task : τ}
    (members : ∀ t, t ∈ tasks ↔ t = task ∨ t ∈ others) (P : τ → Prop) :
    (∃ t ∈ tasks, P t) ↔ P task ∨ ∃ t ∈ others, P t := by
  simp only [members, or_and_right, exists_or, exists_eq_left]

end Pool
