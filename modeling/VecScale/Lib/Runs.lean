import Mathlib.Data.List.Basic

/-!
# Runs of a fallible step function

`runAll step s ops` applies `step` to each operation in turn and stops at the
first error.  These things are said once here:

* `StepsMeet step C s ops`: every step of the run meets `C`, a condition on the
  state before the step and on its operation;
* `runAll_carries`: a relation between a history and a state that every step
  meeting `C` carries forward holds at the end of every completed run;
* `runAll_records`: a service that returns while a list has room, at the end of every run;
* `eachStep_iff_stepsMeet`, `throughout_iff_stepsMeet`: the same as an equivalence, for an
  exact condition;
* `mapM_ok`, `exists_mapM_iff`: a traversal in which every call succeeds.
-/

variable {σ ε ο : Type}

/-- Apply every operation in turn. -/
def runAll (step : σ → ο → Except ε σ) (s : σ) (ops : List ο) : Except ε σ :=
  ops.foldlM step s

/-- Every step of the run meets `C`. -/
def StepsMeet (step : σ → ο → Except ε σ) (C : σ → ο → Prop) : σ → List ο → Prop
  | _, [] => True
  | s, op :: ops => C s op ∧ ∀ s', step s op = .ok s' → StepsMeet step C s' ops

variable {step : σ → ο → Except ε σ} {C : σ → ο → Prop}

theorem runAll_cons {s s' : σ} {op : ο} (ran : step s op = .ok s') (ops : List ο) :
    runAll step s (op :: ops) = runAll step s' ops := by
  simp only [runAll, List.foldlM_cons, ran]
  rfl

/-- A run of a concatenation goes on from the run of its front. -/
theorem runAll_append {s middle : σ} {first : List ο} (ran : runAll step s first = .ok middle)
    (second : List ο) : runAll step s (first ++ second) = runAll step middle second := by
  simp only [runAll, List.foldlM_append] at *
  rw [ran]
  rfl

/-- A run that completes completes its first step. -/
theorem runAll_cons_inv {s final : σ} {op : ο} {ops : List ο}
    (ran : runAll step s (op :: ops) = .ok final) :
    ∃ s', step s op = .ok s' ∧ runAll step s' ops = .ok final := by
  simp only [runAll, List.foldlM_cons] at ran
  cases first : step s op with
  | error e => rw [first] at ran; cases ran
  | ok s' => rw [first] at ran; exact ⟨s', rfl, ran⟩

theorem StepsMeet.cons {s s' : σ} {op : ο} {ops : List ο} (ran : step s op = .ok s')
    (here : C s op) (later : StepsMeet step C s' ops) : StepsMeet step C s (op :: ops) := by
  refine ⟨here, fun s'' ran' => ?_⟩
  rw [ran] at ran'
  cases ran'
  exact later

/-- A condition that can be decided at every step can be decided for the run. -/
instance StepsMeet.decidable [∀ s op, Decidable (C s op)] :
    (s : σ) → (ops : List ο) → Decidable (StepsMeet step C s ops)
  | _, [] => inferInstanceAs (Decidable True)
  | s, op :: ops =>
      have : Decidable (∀ s', step s op = .ok s' → StepsMeet step C s' ops) :=
        match step s op with
        | .error _ => isTrue fun _ ran => by cases ran
        | .ok middle =>
            have := StepsMeet.decidable middle ops
            decidable_of_iff (StepsMeet step C middle ops)
              ⟨fun meets s' ran => by cases ran; exact meets, fun all => all middle rfl⟩
      inferInstanceAs (Decidable (C s op ∧ _))

/-- A condition on the operations alone. -/
theorem StepsMeet.of_forall {P : ο → Prop} {ops : List ο} (all : ∀ op ∈ ops, P op) (s : σ) :
    StepsMeet step (fun _ op => P op) s ops := by
  induction ops generalizing s with
  | nil => trivial
  | cons op ops ih =>
      exact ⟨all op List.mem_cons_self, fun s' _ => ih (fun o h => all o (List.mem_cons_of_mem _ h)) s'⟩

theorem StepsMeet.and {P : ο → Prop} {s : σ} {ops : List ο} (meets : StepsMeet step C s ops)
    (all : ∀ op ∈ ops, P op) : StepsMeet step (fun s op => C s op ∧ P op) s ops := by
  induction ops generalizing s with
  | nil => trivial
  | cons op ops ih =>
      refine ⟨⟨meets.1, all op List.mem_cons_self⟩, fun s' ran => ?_⟩
      exact ih (meets.2 s' ran) fun later member => all later (List.mem_cons_of_mem _ member)

/-- Under an invariant that `C` keeps, steps that meet `C` meet what it implies. -/
theorem StepsMeet.of_invariant {I : σ → Prop} {D : σ → ο → Prop}
    (invariant : ∀ s op, I s → C s op → D s op ∧ ∀ s', step s op = .ok s' → I s') {s : σ}
    {ops : List ο} (start : I s) (meets : StepsMeet step C s ops) : StepsMeet step D s ops := by
  induction ops generalizing s with
  | nil => trivial
  | cons op ops ih =>
      obtain ⟨here, kept⟩ := invariant s op start meets.1
      exact ⟨here, fun s' ran => ih (kept s' ran) (meets.2 s' ran)⟩

/-- **The run rule.**  What every completed step carries from a history to its
extension holds of every completed run. -/
theorem runAll_carries {R : List ο → σ → Prop}
    (carries : ∀ history s op s', R history s → C s op → step s op = .ok s' →
      R (history ++ [op]) s')
    (history : List ο) {s final : σ} {ops : List ο} (start : R history s)
    (meets : StepsMeet step C s ops) (ran : runAll step s ops = .ok final) :
    R (history ++ ops) final := by
  induction ops generalizing history s with
  | nil =>
      cases ran
      rwa [List.append_nil]
  | cons op ops ih =>
      obtain ⟨middle, here, rest⟩ := runAll_cons_inv ran
      have carried := carries history s op middle start meets.1 here
      have final := ih (history ++ [op]) carried (meets.2 middle here) rest
      rwa [List.append_assoc] at final

/-- A run whose steps all return returns. -/
theorem runAll_completes {P : σ → Prop}
    (completes : ∀ s op, P s → C s op → ∃ s', step s op = .ok s' ∧ P s') {s : σ} {ops : List ο}
    (start : P s) (meets : StepsMeet step C s ops) : ∃ final, runAll step s ops = .ok final := by
  induction ops generalizing s with
  | nil => exact ⟨s, rfl⟩
  | cons op ops ih =>
      obtain ⟨middle, here, kept⟩ := completes s op start meets.1
      obtain ⟨final, rest⟩ := ih kept (meets.2 middle here)
      exact ⟨final, (runAll_cons here ops).trans rest⟩

/-- The run rule for a property of the state alone. -/
theorem runAll_preserves {P : σ → Prop}
    (preserves : ∀ s op s', P s → C s op → step s op = .ok s' → P s') {s final : σ}
    {ops : List ο} (start : P s) (meets : StepsMeet step C s ops)
    (ran : runAll step s ops = .ok final) : P final :=
  runAll_carries (R := fun _ s => P s) (fun _ s op s' => preserves s op s') [] start meets ran

/-- `R` holds between any two states in a row. -/
def EachStep (step : σ → ο → Except ε σ) (R : σ → σ → Prop) : σ → List ο → Prop
  | _, [] => True
  | s, op :: ops => ∀ s', step s op = .ok s' → R s s' ∧ EachStep step R s' ops

/-- After every step of the run, `P` holds. -/
def Throughout (step : σ → ο → Except ε σ) (P : σ → Prop) : σ → List ο → Prop
  | _, [] => True
  | s, op :: ops => ∀ s', step s op = .ok s' → P s' ∧ Throughout step P s' ops

theorem throughout_iff_eachStep {P : σ → Prop} (s : σ) (ops : List ο) :
    Throughout step P s ops ↔ EachStep step (fun _ s' => P s') s ops := by
  induction ops generalizing s with
  | nil => exact Iff.rfl
  | cons op ops ih => simp only [Throughout, EachStep, ih]

/-- **The rule for exact conditions.**  When `C` is what a step needs to be in `R`, and
`C` keeps an invariant, a completed run is in `R` step by step exactly if all its steps
meet `C`. -/
theorem eachStep_iff_stepsMeet {I : σ → Prop} {R : σ → σ → Prop} {Q : ο → Prop}
    (exact : ∀ s op s', I s → Q op → step s op = .ok s' → (R s s' ↔ C s op) ∧ (C s op → I s'))
    {s final : σ} {ops : List ο} (inv : I s) (all : ∀ op ∈ ops, Q op)
    (ran : runAll step s ops = .ok final) :
    EachStep step R s ops ↔ StepsMeet step C s ops := by
  induction ops generalizing s with
  | nil => exact Iff.rfl
  | cons op ops ih =>
      obtain ⟨middle, here, rest⟩ := runAll_cons_inv ran
      obtain ⟨needs, keeps⟩ := exact s op middle inv (all op List.mem_cons_self) here
      have later := fun met => ih (keeps met)
        (fun o member => all o (List.mem_cons_of_mem _ member)) rest
      constructor
      · intro kept
        obtain ⟨related, relatedLater⟩ := kept middle here
        have met := needs.mp related
        exact .cons here met ((later met).mp relatedLater)
      · intro meets s' ran'
        rw [here, Except.ok.injEq] at ran'
        subst ran'
        exact ⟨needs.mpr meets.1, (later meets.1).mpr (meets.2 middle here)⟩

/-- The rule for a property of the states. -/
theorem throughout_iff_stepsMeet {I P : σ → Prop} {Q : ο → Prop}
    (exact : ∀ s op s', I s → P s → Q op → step s op = .ok s' → I s' ∧ (P s' ↔ C s op))
    {s final : σ} {ops : List ο} (inv : I s) (start : P s) (all : ∀ op ∈ ops, Q op)
    (ran : runAll step s ops = .ok final) :
    Throughout step P s ops ↔ StepsMeet step C s ops := by
  rw [throughout_iff_eachStep]
  apply eachStep_iff_stepsMeet (I := fun s => I s ∧ P s) (Q := Q) _ ⟨inv, start⟩ all ran
  intro s op s' both request ran
  obtain ⟨inv', needs⟩ := exact s op s' both.1 both.2 request ran
  exact ⟨needs, fun met => ⟨inv', needs.mpr met⟩⟩

/-- What no step can bring back holds throughout if it holds at the end. -/
theorem throughout_of_final {P : σ → Prop}
    (lost : ∀ s op s', step s op = .ok s' → P s' → P s) {s final : σ} {ops : List ο}
    (ran : runAll step s ops = .ok final) (holds : P final) :
    P s ∧ Throughout step P s ops := by
  induction ops generalizing s with
  | nil =>
      cases ran
      exact ⟨holds, trivial⟩
  | cons op ops ih =>
      obtain ⟨middle, here, rest⟩ := runAll_cons_inv ran
      obtain ⟨holdsMiddle, later⟩ := ih rest
      refine ⟨lost s op middle here holdsMiddle, fun s' ran' => ?_⟩
      rw [here, Except.ok.injEq] at ran'
      subst ran'
      exact ⟨holdsMiddle, later⟩

/-- A sequence that returns has returned at its first step. -/
theorem ok_of_bind {α β : Type} {first : Except ε α} {next : α → Except ε β} {b : β}
    (ran : (first >>= next) = .ok b) : ∃ a, first = .ok a ∧ next a = .ok b := by
  cases first with
  | error e => cases ran
  | ok a => exact ⟨a, rfl, ran⟩

theorem ok_of_map {α β : Type} {result : Except ε α} {f : α → β} {b : β}
    (ran : result.map f = .ok b) : ∃ a, result = .ok a ∧ f a = b := by
  cases result with
  | error e => cases ran
  | ok a =>
      cases ran
      exact ⟨a, rfl, rfl⟩

theorem exists_of_isOk {α : Type} {result : Except ε α} (ok : result.isOk = true) :
    ∃ a, result = .ok a := by
  cases result with
  | error e => cases ok
  | ok a => exact ⟨a, rfl⟩

/-! ## Traversals -/

/-- A traversal in which every call succeeds, with results that name their argument. -/
theorem mapM_ok {α β ε : Type} {f : α → Except ε β} {key : β → α} {P : β → Prop} {items : List α}
    (all : ∀ a ∈ items, ∃ b, f a = .ok b ∧ key b = a ∧ P b) :
    ∃ results, items.mapM f = .ok results ∧ results.map key = items ∧ ∀ b ∈ results, P b := by
  induction items with
  | nil => exact ⟨[], rfl, rfl, by simp⟩
  | cons a items ih =>
      obtain ⟨b, here, named, holds⟩ := all a List.mem_cons_self
      obtain ⟨results, rest, names, holdAll⟩ := ih fun a' member =>
        all a' (List.mem_cons_of_mem _ member)
      refine ⟨b :: results, ?_, ?_, ?_⟩
      · rw [List.mapM_cons, here, rest]
        rfl
      · rw [List.map_cons, named, names]
      · rintro c (_ | ⟨_, member⟩)
        · exact holds
        · exact holdAll c member

/-- What a completed traversal returns comes from its arguments. -/
theorem mem_of_mapM {α β ε : Type} {f : α → Except ε β} {items : List α} {results : List β}
    (ran : items.mapM f = .ok results) (b : β) : b ∈ results ↔ ∃ a ∈ items, f a = .ok b := by
  induction items generalizing results with
  | nil =>
      cases ran
      simp
  | cons a items ih =>
      rw [List.mapM_cons] at ran
      obtain ⟨first, here, ran⟩ := ok_of_bind ran
      obtain ⟨rest, later, ran⟩ := ok_of_bind ran
      cases ran
      rw [List.mem_cons, ih later]
      constructor
      · rintro (rfl | ⟨a', member, found⟩)
        · exact ⟨a, List.mem_cons_self, here⟩
        · exact ⟨a', List.mem_cons_of_mem _ member, found⟩
      · rintro ⟨a', _ | ⟨_, member⟩, found⟩
        · rw [here, Except.ok.injEq] at found
          exact Or.inl found.symm
        · exact Or.inr ⟨a', member, found⟩

/-- A traversal succeeds iff every call does. -/
theorem exists_mapM_iff {α β ε : Type} {f : α → Except ε β} {items : List α} :
    (∃ results, items.mapM f = .ok results) ↔ ∀ a ∈ items, ∃ b, f a = .ok b := by
  induction items with
  | nil => exact ⟨fun _ a member => (List.not_mem_nil member).elim, fun _ => ⟨[], rfl⟩⟩
  | cons a items ih =>
      rw [List.forall_mem_cons, ← ih]
      constructor
      · rintro ⟨results, ran⟩
        rw [List.mapM_cons] at ran
        obtain ⟨first, here, ran⟩ := ok_of_bind ran
        obtain ⟨rest, later, -⟩ := ok_of_bind ran
        exact ⟨⟨first, here⟩, rest, later⟩
      · rintro ⟨⟨first, here⟩, rest, later⟩
        refine ⟨first :: rest, ?_⟩
        rw [List.mapM_cons, here, later]
        rfl

theorem ok_of_mapError {α ε ε' : Type} {result : Except ε α} {f : ε → ε'} {a : α}
    (ran : result.mapError f = .ok a) : result = .ok a := by
  cases result with
  | error e => cases ran
  | ok b =>
      cases ran
      rfl
