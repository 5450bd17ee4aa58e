import VecScale.Lib.Dict
import VecScale.Lib.Pool
import VecScale.Models

/-!
# Leader election over etcd

`campaign` reads the election key and, if it finds none, writes it and then the
leader key.  Between a read and the write other candidates may do the same.

* `campaign_safe_iff`: when every candidate has its answer, at most one node has won,
  and it leads, exactly if no candidate wrote over another's claim;
* `two_winners`: two candidates that both found no leader.
-/

namespace VecScale

/-- A call of `campaign`, by what it does next. -/
inductive Campaign
  | reading (value : String)
  | claiming (value : String)
  | publishing (value : String)
  | returned (value : String) (won : Bool)
  deriving DecidableEq

/-- The calls that have won for `value`, answered or not. -/
inductive Campaign.Elects (value : String) : Campaign → Prop
  | publishing : Elects value (.publishing value)
  | returned : Elects value (.returned value true)

namespace EtcdClient

def electionKey (electionName : String) : String := "/vecscaledb/elections/" ++ electionName

def leaderKey : String := "/vecscaledb/leader"

/-- The next get or put of a `campaign`. -/
def campaignStep (electionName : String) (store : Dict String String) :
    Campaign → Except PyError (Dict String String × Campaign)
  | .reading value =>
      match store.get? (electionKey electionName) with
      | none => .ok (store, .claiming value)
      | some current => .ok (store, .returned value (current = value))
  | .claiming value => .ok (store.set (electionKey electionName) value, .publishing value)
  | .publishing value => .ok (store.set leaderKey value, .returned value true)
  | .returned value won => .ok (store, .returned value won)

theorem electionKey_ne_leaderKey (electionName : String) :
    electionKey electionName ≠ leaderKey := by
  intro same
  have letter : ("/vecscaledb/elections/".toList ++ electionName.toList)[12]? =
      "/vecscaledb/leader".toList[12]? := by
    rw [← String.toList_append]
    exact congrArg (fun key => key.toList[12]?) same
  rw [List.getElem?_append_left (by decide)] at letter
  exact absurd letter (by decide)

end EtcdClient

open EtcdClient

/-- The store and the candidates' calls. -/
abbrev Election := Pool (Dict String String) Campaign

namespace Election

variable {electionName : String}

def step (electionName : String) : Election → Pool.Event String → Except PyError Election :=
  Pool.step Campaign.reading (campaignStep electionName)

/-- Every call has its answer. -/
def Finished (e : Election) : Prop :=
  ∀ call ∈ e.tasks, ∃ value won, call = .returned value won

/-- At most one node has won. -/
def OneWinner (e : Election) : Prop :=
  ∀ a b, .returned a true ∈ e.tasks → .returned b true ∈ e.tasks → a = b

/-- At most one node has won, and it is the one that leads. -/
def Safe (e : Election) : Prop :=
  e.OneWinner ∧ ∀ a, .returned a true ∈ e.tasks → e.shared.get? leaderKey = some a

/-- A candidate about to claim the election finds it as unclaimed as when it read it, or
claimed by itself. -/
def Unclaimed (electionName : String) (e : Election) : Campaign → Prop
  | .claiming value => e.shared.get? (electionKey electionName) = none ∨
      e.shared.get? (electionKey electionName) = some value
  | _ => True

instance (e : Election) : (call : Campaign) → Decidable (e.Unclaimed electionName call)
  | .claiming _ => inferInstanceAs (Decidable (_ ∨ _))
  | .reading _ | .publishing _ | .returned _ _ => inferInstanceAs (Decidable True)

/-! ## Who has won -/

/-- A call has won for `value`. -/
def Elected (e : Election) (value : String) : Prop := ∃ call ∈ e.tasks, call.Elects value

/-- The election key names a node that has won, if any has. -/
structure Recorded (electionName : String) (e : Election) : Prop where
  holder : ∀ value, e.shared.get? (electionKey electionName) = some value → e.Elected value
  held : ∀ value, e.Elected value → e.shared.get? (electionKey electionName) ≠ none

/-- At most one node has won, answered or not. -/
def OneElected (e : Election) : Prop := ∀ a b, e.Elected a → e.Elected b → a = b

/-- The leader key names every node that has won, or is about to. -/
def Announced (e : Election) : Prop :=
  ∀ value, e.Elected value →
    e.shared.get? leaderKey = some value ∨ .publishing value ∈ e.tasks

theorem elects_reading {value w : String} : ¬ (Campaign.reading value).Elects w := nofun

theorem elects_claiming {value w : String} : ¬ (Campaign.claiming value).Elects w := nofun

theorem elects_publishing {value w : String} :
    (Campaign.publishing value).Elects w ↔ w = value := by
  constructor
  · intro elects
    cases elects
    rfl
  · intro same
    rw [same]
    exact .publishing

theorem elects_returned {value w : String} {won : Bool} :
    (Campaign.returned value won).Elects w ↔ won = true ∧ w = value := by
  constructor
  · intro elects
    cases elects
    exact ⟨rfl, rfl⟩
  · intro both
    rcases both with ⟨rfl, rfl⟩
    exact .returned

/-- What a step does to the election key and to the set of winners. -/
inductive Moved (electionName : String) (e : Election) : Pool.Event String → Election → Prop
  | claims {i : ℕ} {value : String} {e' : Election}
      (here : e.tasks[i]? = some (.claiming value))
      (key : e'.shared.get? (electionKey electionName) = some value)
      (elected : ∀ w, e'.Elected w ↔ w = value ∨ e.Elected w) :
      Moved electionName e (.advance i) e'
  | keeps {event : Pool.Event String} {e' : Election}
      (unclaimed : e.AtTask (Unclaimed electionName) event)
      (key : e'.shared.get? (electionKey electionName) =
        e.shared.get? (electionKey electionName))
      (elected : ∀ w, e'.Elected w ↔ e.Elected w) :
      Moved electionName e event e'

theorem moved_of_step {e e' : Election} {event : Pool.Event String}
    (recorded : e.Recorded electionName) (ran : e.step electionName event = .ok e') :
    e.Moved electionName event e' := by
  cases Pool.stepped_of_step ran with
  | call value =>
      refine .keeps trivial rfl fun w => ?_
      simp [Elected, or_and_right, exists_or, elects_reading]
  | idle absent =>
      refine .keeps ?_ rfl fun w => Iff.rfl
      simp [Pool.AtTask, absent]
  | @advance i call call' store' tasks' others here ran before after =>
      have electedBefore : ∀ w, e.Elected w ↔ _ :=
        fun w => Pool.exists_mem_iff before (Campaign.Elects w)
      have electedAfter : ∀ w, Elected ⟨store', tasks'⟩ w ↔ _ :=
        fun w => Pool.exists_mem_iff after (Campaign.Elects w)
      cases call with
      | reading value =>
          have unclaimed : e.AtTask (Unclaimed electionName) (.advance i : Pool.Event String) :=
            (Pool.atTask_advance here).mpr trivial
          simp only [campaignStep] at ran
          split at ran
          · next absent =>
              cases ran
              refine .keeps unclaimed rfl fun w => ?_
              rw [electedBefore, electedAfter]
              simp only [elects_reading, elects_claiming]
          · next current found =>
              cases ran
              refine .keeps unclaimed rfl fun w => ?_
              constructor
              · intro elected
                rcases (electedAfter w).mp elected with mine | other
                · rw [elects_returned, decide_eq_true_eq] at mine
                  apply recorded.holder
                  rw [found, mine.1, mine.2]
                · exact (electedBefore w).mpr (Or.inr other)
              · intro elected
                rcases (electedBefore w).mp elected with mine | other
                · exact absurd mine elects_reading
                · exact (electedAfter w).mpr (Or.inr other)
      | claiming value =>
          cases ran
          apply Moved.claims here
          · simp only [Dict.get?_set, if_true]
          · intro w
            rw [electedAfter, electedBefore]
            simp only [elects_publishing, elects_claiming, false_or]
      | publishing value =>
          cases ran
          apply Moved.keeps
          · exact (Pool.atTask_advance here).mpr trivial
          · rw [Dict.get?_set, if_neg (electionKey_ne_leaderKey electionName).symm]
          · intro w
            rw [electedAfter, electedBefore]
            simp only [elects_publishing, elects_returned, true_and]
      | returned value won =>
          cases ran
          apply Moved.keeps
          · exact (Pool.atTask_advance here).mpr trivial
          · rfl
          · intro w
            rw [electedAfter, electedBefore]

theorem Recorded.step {e e' : Election} {event : Pool.Event String}
    (recorded : e.Recorded electionName) (moved : e.Moved electionName event e') :
    e'.Recorded electionName := by
  cases moved with
  | claims here key elected =>
      constructor
      · intro w found
        rw [key, Option.some.injEq] at found
        exact (elected w).mpr (Or.inl found.symm)
      · intro w _ absent
        rw [key] at absent
        cases absent
  | keeps unclaimed key elected =>
      constructor
      · intro w found
        rw [key] at found
        exact (elected w).mpr (recorded.holder w found)
      · intro w won
        rw [key]
        exact recorded.held w ((elected w).mp won)

/-- A claim keeps one winner exactly if the election is unclaimed. -/
theorem oneElected_iff {e e' : Election} {event : Pool.Event String}
    (recorded : e.Recorded electionName) (one : e.OneElected)
    (moved : e.Moved electionName event e') :
    e'.OneElected ↔ e.AtTask (Unclaimed electionName) event := by
  cases moved with
  | @claims i value _ here key elected =>
      rw [Pool.atTask_advance here]
      constructor
      · intro one'
        cases found : e.shared.get? (electionKey electionName) with
        | none => exact Or.inl found
        | some holder =>
            have same := one' holder value
              ((elected holder).mpr (Or.inr (recorded.holder holder found)))
              ((elected value).mpr (Or.inl rfl))
            rw [same] at found
            exact Or.inr found
      · intro unclaimed
        have all : ∀ w, e'.Elected w → w = value := by
          intro w won
          rcases (elected w).mp won with same | before
          · exact same
          · rcases unclaimed with absent | mine
            · exact absurd absent (recorded.held w before)
            · exact one w value before (recorded.holder value mine)
        intro a b wonA wonB
        rw [all a wonA, all b wonB]
  | keeps unclaimed key elected =>
      have one' : e'.OneElected := fun a b wonA wonB =>
        one a b ((elected a).mp wonA) ((elected b).mp wonB)
      exact iff_of_true one' unclaimed

/-- A node that has claimed the election is about to lead. -/
theorem publishing_of_claim {e e' : Election} {i : ℕ} {value : String}
    (here : e.tasks[i]? = some (.claiming value))
    (ran : e.step electionName (.advance i) = .ok e') : .publishing value ∈ e'.tasks := by
  cases Pool.stepped_of_step ran with
  | idle absent =>
      rw [here] at absent
      cases absent
  | advance others found advanced before after =>
      rw [here, Option.some.injEq] at found
      subst found
      cases advanced
      exact (after _).mpr (Or.inl rfl)

/-- The leader key changes in the last step of a call that wins. -/
theorem leaderKey_of_campaignStep {store store' : Dict String String} {call call' : Campaign}
    (ran : campaignStep electionName store call = .ok (store', call')) :
    store'.get? leaderKey = store.get? leaderKey ∨
      ∃ value, call = .publishing value ∧ call' = .returned value true ∧
        store'.get? leaderKey = some value := by
  cases call with
  | reading value =>
      left
      simp only [campaignStep] at ran
      split at ran
      · cases ran
        rfl
      · cases ran
        rfl
  | claiming value =>
      cases ran
      left
      rw [Dict.get?_set, if_neg (electionKey_ne_leaderKey electionName)]
  | publishing value =>
      cases ran
      right
      refine ⟨value, rfl, rfl, ?_⟩
      simp only [Dict.get?_set, if_true]
  | returned value won =>
      cases ran
      exact Or.inl rfl

/-- An announced node stays so until some node takes the lead. -/
theorem announced_or_led {e e' : Election} {event : Pool.Event String} {w : String}
    (announced : e.shared.get? leaderKey = some w ∨ .publishing w ∈ e.tasks)
    (ran : e.step electionName event = .ok e') :
    (e'.shared.get? leaderKey = some w ∨ .publishing w ∈ e'.tasks) ∨
      ∃ value, .returned value true ∈ e'.tasks ∧ e'.shared.get? leaderKey = some value := by
  cases Pool.stepped_of_step ran with
  | call value => exact Or.inl (announced.imp_right fun member => List.mem_append_left _ member)
  | idle absent => exact Or.inl announced
  | advance others here advanced before after =>
      rcases leaderKey_of_campaignStep advanced with same | led
      · left
        rcases announced with leads | publishing
        · left
          rwa [same]
        · rcases (before _).mp publishing with this | elsewhere
          · rw [← this] at advanced
            cases advanced
            left
            simp only [Dict.get?_set, if_true]
          · exact Or.inr ((after _).mpr (Or.inr elsewhere))
      · rcases led with ⟨value, -, rfl, leads⟩
        exact Or.inr ⟨value, (after _).mpr (Or.inl rfl), leads⟩

/-- A node that has won is announced, as long as it is the only one. -/
theorem Announced.step {e e' : Election} {event : Pool.Event String} (announced : e.Announced)
    (moved : e.Moved electionName event e') (one : e'.OneElected)
    (ran : e.step electionName event = .ok e') : e'.Announced := by
  have kept : ∀ w, e.Elected w → e'.Elected w →
      e'.shared.get? leaderKey = some w ∨ .publishing w ∈ e'.tasks := by
    intro w before won
    rcases announced_or_led (announced w before) ran with still | led
    · exact still
    · -- the node that leads has won, and so it is this one
      rcases led with ⟨value, returned, leads⟩
      rw [one w value won ⟨_, returned, .returned⟩]
      exact Or.inl leads
  intro w won
  cases moved with
  | claims here key elected =>
      rcases (elected w).mp won with same | before
      · rw [same]
        exact Or.inr (publishing_of_claim here ran)
      · exact kept w before won
  | keeps unclaimed key elected => exact kept w ((elected w).mp won) won

/-! ## Runs -/

/-- What holds as long as the election has been claimed once. -/
structure Sound (electionName : String) (e : Election) : Prop where
  recorded : e.Recorded electionName
  one : e.OneElected
  announced : e.Announced

theorem Sound.step {e e' : Election} {event : Pool.Event String} (sound : e.Sound electionName)
    (unclaimed : e.AtTask (Unclaimed electionName) event)
    (ran : e.step electionName event = .ok e') : e'.Sound electionName := by
  have moved := moved_of_step sound.recorded ran
  have one := (oneElected_iff sound.recorded sound.one moved).mpr unclaimed
  exact ⟨sound.recorded.step moved, one, sound.announced.step moved one ran⟩

theorem recorded_of_absent {store : Dict String String}
    (absent : store.get? (electionKey electionName) = none) :
    Recorded electionName ⟨store, []⟩ := by
  constructor
  · intro value found
    rw [absent] at found
    cases found
  · intro value elected
    rcases elected with ⟨call, member, -⟩
    cases member

theorem not_elected_nil {store : Dict String String} {value : String} :
    ¬ Elected ⟨store, []⟩ value := by
  intro elected
  rcases elected with ⟨call, member, -⟩
  cases member

/-- Nobody loses an election again. -/
theorem Elected.step {e e' : Election} {event : Pool.Event String} {value : String}
    (elected : e.Elected value) (ran : e.step electionName event = .ok e') : e'.Elected value := by
  cases Pool.stepped_of_step ran with
  | call other =>
      rcases elected with ⟨call, member, elects⟩
      exact ⟨call, List.mem_append_left _ member, elects⟩
  | idle absent => exact elected
  | @advance i call call' store' tasks' others here ran before after =>
      rw [Elected, Pool.exists_mem_iff before] at elected
      rw [Elected, Pool.exists_mem_iff after]
      rcases elected with mine | other
      · left
        cases mine with
        | publishing =>
            cases ran
            exact .returned
        | returned =>
            cases ran
            exact .returned
      · exact Or.inr other

theorem OneElected.oneWinner {e : Election} (one : e.OneElected) : e.OneWinner :=
  fun a b wonA wonB => one a b ⟨_, wonA, .returned⟩ ⟨_, wonB, .returned⟩

theorem Finished.elected {e : Election} (finished : e.Finished) {value : String}
    (elected : e.Elected value) : .returned value true ∈ e.tasks := by
  rcases elected with ⟨call, member, elects⟩
  obtain ⟨w, won, rfl⟩ := finished call member
  cases elects
  exact member

theorem Sound.safe {e : Election} (sound : e.Sound electionName) (finished : e.Finished) :
    e.Safe := by
  refine ⟨sound.one.oneWinner, fun a won => ?_⟩
  rcases sound.announced a ⟨_, won, .returned⟩ with leads | publishing
  · exact leads
  · obtain ⟨value, won, same⟩ := finished _ publishing
    cases same

/-- At most one node ever wins, if nobody claims a claimed election. -/
theorem sound_of_run {store : Dict String String} {events : List (Pool.Event String)}
    {final : Election} (absent : store.get? (electionKey electionName) = none)
    (meets : StepsMeet (step electionName) (Pool.AtTask (Unclaimed electionName)) ⟨store, []⟩ events)
    (ran : runAll (step electionName) ⟨store, []⟩ events = .ok final) :
    final.Sound electionName :=
  runAll_preserves (P := Sound electionName)
    (fun _ _ _ sound unclaimed ran => sound.step unclaimed ran)
    ⟨recorded_of_absent absent, fun _ _ won => absurd won not_elected_nil,
      fun _ won => absurd won not_elected_nil⟩ meets ran

/-- **Election safety.**  Any number of candidates, in any order of their gets and puts:
when all have their answers, at most one node has won, and it leads, iff every claim found
the election unclaimed. -/
theorem campaign_safe_iff {store : Dict String String} {events : List (Pool.Event String)}
    {final : Election} (absent : store.get? (electionKey electionName) = none)
    (ran : runAll (step electionName) ⟨store, []⟩ events = .ok final)
    (finished : final.Finished) : final.Safe ↔
      StepsMeet (step electionName) (Pool.AtTask (Unclaimed electionName)) ⟨store, []⟩ events := by
  constructor
  · intro safe
    have one : final.OneElected := fun a b wonA wonB =>
      safe.1 a b (finished.elected wonA) (finished.elected wonB)
    have throughout := throughout_of_final
      (fun e event e' ran one a b wonA wonB =>
        one a b (Elected.step wonA ran) (Elected.step wonB ran)) ran one
    apply (throughout_iff_stepsMeet (I := Recorded electionName) (Q := fun _ => True) _
      (recorded_of_absent absent) throughout.1 (fun _ _ => trivial) ran).mp throughout.2
    intro e event e' recorded one _ ran
    have moved := moved_of_step recorded ran
    exact ⟨recorded.step moved, oneElected_iff recorded one moved⟩
  · intro meets
    exact (sound_of_run absent meets ran).safe finished

/-- A candidate campaigns alone, and a second one after it. -/
def oneAfterAnother : List (Pool.Event String) :=
  [.call "coordinator-0", .advance 0, .advance 0, .advance 0, .call "coordinator-1", .advance 1]

theorem campaign_safe_oneAfterAnother : ∃ final : Election,
    runAll (step "coordinator") ⟨∅, []⟩ oneAfterAnother = .ok final ∧ final.Safe ∧
      .returned "coordinator-0" true ∈ final.tasks := by
  have meets : StepsMeet (step "coordinator") (Pool.AtTask (Unclaimed "coordinator")) ⟨∅, []⟩
      oneAfterAnother := by
    decide +kernel
  have ran : runAll (step "coordinator") ⟨∅, []⟩ oneAfterAnother =
      .ok ⟨((∅ : Dict String String).set (electionKey "coordinator") "coordinator-0").set leaderKey
        "coordinator-0", [.returned "coordinator-0" true, .returned "coordinator-1" false]⟩ := by
    decide +kernel
  refine ⟨_, ran, (campaign_safe_iff rfl ran ?_).mpr meets, by decide⟩
  intro call member
  rcases List.mem_pair.mp member with first | second
  · exact ⟨_, _, first⟩
  · exact ⟨_, _, second⟩

/-- Two candidates find no leader, and then both claim the election. -/
def bothFindNone : List (Pool.Event String) :=
  [.call "coordinator-0", .call "coordinator-1", .advance 0, .advance 1, .advance 0, .advance 0,
    .advance 1, .advance 1]

theorem two_winners :
    (runAll (step "coordinator") ⟨∅, []⟩ bothFindNone).map Pool.tasks =
      .ok [.returned "coordinator-0" true, .returned "coordinator-1" true] := by
  decide +kernel

end Election

end VecScale
