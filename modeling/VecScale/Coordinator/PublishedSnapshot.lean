import VecScale.Coordinator.Registry
import VecScale.Lib.Pool

/-!
# The published snapshot

`register_segment` puts a segment's metadata, gets the current snapshot, and puts the
greater of it and the segment's own.  Other requests run in between.

* `registerSegment_eq`: a registration that nothing interrupts;
* `published_iff`: the current snapshot never falls, and covers the registered segments
  whenever no request is in flight, exactly if no registration puts a snapshot that is
  out of date;
* `lost_maximum`: two registrations that read the same current snapshot.
-/

namespace VecScale

namespace Registry

/-- The put of a segment's metadata. -/
def putSegment (registry : Registry) (segMeta : SegmentMeta) : Registry where
  segments := registry.segments.set segMeta.segmentId segMeta
  snapshotCurrent := registry.snapshotCurrent
  filed := (registry.registerSegment segMeta).filed

/-- The put of the current snapshot. -/
def putSnapshot (registry : Registry) (snapshot : ℕ) : Registry :=
  { registry with snapshotCurrent := snapshot }

theorem registerSegment_eq (registry : Registry) (segMeta : SegmentMeta) :
    registry.registerSegment segMeta = (registry.putSegment segMeta).putSnapshot
      (max (registry.putSegment segMeta).snapshotCurrent segMeta.snapshotId) := rfl

theorem mem_listSegments_putSegment {registry : Registry} {segMeta listed : SegmentMeta} :
    listed ∈ (registry.putSegment segMeta).listSegments ↔
      if segMeta.segmentId = listed.segmentId then listed = segMeta
      else listed ∈ registry.listSegments :=
  mem_listSegments_registerSegment

/-- The snapshot that a search asks for hides no registered segment. -/
def Covered (registry : Registry) : Prop :=
  ∀ segMeta ∈ registry.listSegments, segMeta.snapshotId ≤ registry.snapshotCurrent ∧
    segMeta.snapshotId ≤ registry.currentSnapshotId

theorem covered_of_le {registry : Registry}
    (all : ∀ segMeta ∈ registry.listSegments, segMeta.snapshotId ≤ registry.snapshotCurrent) :
    registry.Covered := by
  intro segMeta listed
  have bound := all segMeta listed
  refine ⟨bound, ?_⟩
  unfold currentSnapshotId
  split <;> omega

end Registry

/-- A request to the coordinator's registry. -/
inductive RegistryCall
  | post (segMeta : SegmentMeta)
  | delete (segmentId : String)

inductive RegistryAnswer
  | registered (segmentId : String) (snapshotId : ℕ)
  | deleted (segmentId : String)
  deriving DecidableEq

/-- A request, by what its handler does next. -/
inductive RegistryRequest
  | putting (segMeta : SegmentMeta)
  | reading (segMeta : SegmentMeta)
  | publishing (segMeta : SegmentMeta) (current : ℕ)
  | deleting (segmentId : String)
  | answered (answer : RegistryAnswer)
  deriving DecidableEq

namespace RegistryRequest

def start : RegistryCall → RegistryRequest
  | .post segMeta => .putting segMeta
  | .delete segmentId => .deleting segmentId

/-- The next get or put of `register_segment` or `delete_segment`. -/
def next (registry : Registry) : RegistryRequest → Except PyError (Registry × RegistryRequest)
  | .putting segMeta => .ok (registry.putSegment segMeta, .reading segMeta)
  | .reading segMeta => .ok (registry, .publishing segMeta registry.snapshotCurrent)
  | .publishing segMeta current =>
      let nextSnapshot := max current segMeta.snapshotId
      .ok (registry.putSnapshot nextSnapshot,
        .answered (.registered segMeta.segmentId nextSnapshot))
  | .deleting segmentId => .ok (registry.deleteSegment segmentId, .answered (.deleted segmentId))
  | .answered answer => .ok (registry, .answered answer)

/-- A request that is going to put a current snapshot of at least `s`. -/
def Raises (s : ℕ) : RegistryRequest → Prop
  | .reading segMeta => s ≤ segMeta.snapshotId
  | .publishing segMeta current => s ≤ max current segMeta.snapshotId
  | _ => False

end RegistryRequest

open RegistryRequest

/-- The registry and the requests that are or were in flight. -/
abbrev Leader := Pool Registry RegistryRequest

namespace Leader

def step : Leader → Pool.Event RegistryCall → Except PyError Leader :=
  Pool.step RegistryRequest.start RegistryRequest.next

/-- No request is in flight. -/
def Quiet (l : Leader) : Prop := ∀ request ∈ l.tasks, ∃ answer, request = .answered answer

/-- What a step is to keep: the current snapshot does not fall, and once no request is in
flight it covers every registered segment. -/
def Publishes (l l' : Leader) : Prop :=
  l.shared.snapshotCurrent ≤ l'.shared.snapshotCurrent ∧ (l'.Quiet → l'.shared.Covered)

/-- A registration about to put the current snapshot finds the one it has read, or one that
its own segment exceeds. -/
def UpToDate (l : Leader) : RegistryRequest → Prop
  | .publishing segMeta current => l.shared.snapshotCurrent = current ∨
      l.shared.snapshotCurrent ≤ segMeta.snapshotId
  | _ => True

instance (l : Leader) : (request : RegistryRequest) → Decidable (l.UpToDate request)
  | .publishing _ _ => inferInstanceAs (Decidable (_ ∨ _))
  | .putting _ | .reading _ | .deleting _ | .answered _ => inferInstanceAs (Decidable True)

/-- Every registered segment is covered, or some request is going to cover it; nobody has
read a snapshot that was never current. -/
structure Covering (l : Leader) : Prop where
  covered : ∀ segMeta ∈ l.shared.listSegments,
    segMeta.snapshotId ≤ l.shared.snapshotCurrent ∨
      ∃ request ∈ l.tasks, request.Raises segMeta.snapshotId
  read : ∀ segMeta current, .publishing segMeta current ∈ l.tasks →
    current ≤ l.shared.snapshotCurrent

theorem Covering.quiet {l : Leader} (covering : l.Covering) (quiet : l.Quiet) :
    l.shared.Covered := by
  apply Registry.covered_of_le
  intro segMeta listed
  rcases covering.covered segMeta listed with bound | raised
  · exact bound
  · rcases raised with ⟨request, member, raises⟩
    obtain ⟨answer, rfl⟩ := quiet request member
    exact raises.elim

/-- What the step of one request has to show. -/
theorem Covering.advance {l : Leader} {registry' : Registry} {request request' : RegistryRequest}
    {tasks' others : List RegistryRequest} (covering : l.Covering)
    (before : ∀ r, r ∈ l.tasks ↔ r = request ∨ r ∈ others)
    (after : ∀ r, r ∈ tasks' ↔ r = request' ∨ r ∈ others)
    (rises : l.shared.snapshotCurrent ≤ registry'.snapshotCurrent)
    (listed : ∀ segMeta ∈ registry'.listSegments, request'.Raises segMeta.snapshotId ∨
      segMeta ∈ l.shared.listSegments)
    (raises : ∀ s, request.Raises s → request'.Raises s ∨ s ≤ registry'.snapshotCurrent)
    (read : ∀ segMeta current, request' = .publishing segMeta current →
      current ≤ registry'.snapshotCurrent) :
    Covering ⟨registry', tasks'⟩ := by
  constructor
  · intro segMeta here
    rw [Pool.exists_mem_iff after (RegistryRequest.Raises segMeta.snapshotId)]
    rcases listed segMeta here with mine | known
    · exact Or.inr (Or.inl mine)
    · have covered := covering.covered segMeta known
      rw [Pool.exists_mem_iff before (RegistryRequest.Raises segMeta.snapshotId)] at covered
      rcases covered with bound | mine | other
      · exact Or.inl (bound.trans rises)
      · rcases raises _ mine with still | bound
        · exact Or.inr (Or.inl still)
        · exact Or.inl bound
      · exact Or.inr (Or.inr other)
  · intro segMeta current member
    rcases (after _).mp member with mine | other
    · exact read segMeta current mine.symm
    · exact (covering.read segMeta current ((before _).mpr (Or.inr other))).trans rises

theorem Covering.step {l l' : Leader} {event : Pool.Event RegistryCall} (covering : l.Covering)
    (upToDate : l.AtTask UpToDate event) (ran : l.step event = .ok l') :
    l.shared.snapshotCurrent ≤ l'.shared.snapshotCurrent ∧ l'.Covering := by
  cases Pool.stepped_of_step ran with
  | call request =>
      refine ⟨le_refl _, ⟨fun segMeta listed => ?_, fun segMeta current member => ?_⟩⟩
      · rcases covering.covered segMeta listed with bound | raised
        · exact Or.inl bound
        · rcases raised with ⟨r, member, raises⟩
          exact Or.inr ⟨r, List.mem_append_left _ member, raises⟩
      · rcases List.mem_append.mp member with known | new
        · exact covering.read segMeta current known
        · rw [List.mem_singleton] at new
          cases request <;> cases new
  | idle absent => exact ⟨le_refl _, covering⟩
  | @advance i request request' registry' tasks' others here ran before after =>
      rw [Pool.atTask_advance here] at upToDate
      cases request with
      | putting segMeta =>
          cases ran
          refine ⟨le_refl _, covering.advance before after (le_refl _) ?_ nofun nofun⟩
          intro listed here
          rw [Registry.mem_listSegments_putSegment] at here
          split at here
          · rw [here]
            exact Or.inl (le_refl _)
          · exact Or.inr here
      | reading segMeta =>
          cases ran
          refine ⟨le_refl _, covering.advance before after (le_refl _) (fun _ => Or.inr) ?_ ?_⟩
          · intro s bound
            exact Or.inl (le_max_of_le_right bound)
          · intro _ current same
            cases same
            exact le_refl _
      | publishing segMeta current =>
          cases ran
          have rises : l.shared.snapshotCurrent ≤ max current segMeta.snapshotId := by
            rcases upToDate with same | exceeded
            · rw [same]
              exact le_max_left _ _
            · exact le_max_of_le_right exceeded
          exact ⟨rises, covering.advance before after rises (fun _ => Or.inr)
            (fun s bound => Or.inr bound) nofun⟩
      | deleting segmentId =>
          cases ran
          refine ⟨le_refl _, covering.advance before after (le_refl _) ?_ nofun nofun⟩
          intro listed here
          exact Or.inr (Registry.mem_listSegments_deleteSegment.mp here).2
      | answered answer =>
          cases ran
          exact ⟨le_refl _, covering.advance before after (le_refl _) (fun _ => Or.inr)
            (fun s => Or.inl) nofun⟩

/-- Only a snapshot that is out of date makes the current one fall. -/
theorem Covering.upToDate {l l' : Leader} {event : Pool.Event RegistryCall} (covering : l.Covering)
    (ran : l.step event = .ok l')
    (rises : l.shared.snapshotCurrent ≤ l'.shared.snapshotCurrent) :
    l.AtTask UpToDate event := by
  cases Pool.stepped_of_step ran with
  | call request => trivial
  | idle absent => simp [Pool.AtTask, absent]
  | @advance i request request' registry' tasks' others here ran before after =>
      rw [Pool.atTask_advance here]
      cases request with
      | publishing segMeta current =>
          cases ran
          have rises : l.shared.snapshotCurrent ≤ max current segMeta.snapshotId := rises
          have read := covering.read segMeta current ((before _).mpr (Or.inl rfl))
          rcases le_max_iff.mp rises with low | exceeded
          · exact Or.inl (le_antisymm low read)
          · exact Or.inr exceeded
      | putting | reading | deleting | answered => trivial

/-- **The published snapshot.**  In any order of the gets and puts of any number of
requests, the current snapshot never falls and covers every registered segment whenever
no request is in flight, iff every registration that puts it is up to date. -/
theorem published_iff {registry : Registry} {events : List (Pool.Event RegistryCall)} {final : Leader}
    (covered : registry.Covered) (ran : runAll step ⟨registry, []⟩ events = .ok final) :
    EachStep step Publishes ⟨registry, []⟩ events ↔
      StepsMeet step (Pool.AtTask UpToDate) ⟨registry, []⟩ events := by
  apply eachStep_iff_stepsMeet (I := Covering) (Q := fun _ => True) _ _ (fun _ _ => trivial) ran
  · intro l event l' covering _ ran
    refine ⟨⟨fun publishes => covering.upToDate ran publishes.1, fun upToDate => ?_⟩, fun upToDate =>
      (covering.step upToDate ran).2⟩
    obtain ⟨rises, covering'⟩ := covering.step upToDate ran
    exact ⟨rises, covering'.quiet⟩
  · exact ⟨fun segMeta listed => Or.inl (covered segMeta listed).1, nofun⟩

def segmentAt (segmentId : String) (snapshotId : ℕ) : SegmentMeta :=
  ⟨segmentId, 0, 1, snapshotId, segmentId⟩

/-- Two registrations one after the other, and a withdrawal between the steps of the
second. -/
def inTurn : List (Pool.Event RegistryCall) :=
  [.call (.post (segmentAt "a" 5)), .advance 0, .advance 0, .advance 0,
    .call (.post (segmentAt "b" 3)), .call (.delete "a"), .advance 1, .advance 1, .advance 2,
    .advance 1]

theorem published_inTurn : Registry.empty.Covered ∧
    EachStep step Publishes ⟨.empty, []⟩ inTurn := by
  have covered : Registry.empty.Covered := by
    intro segMeta listed
    cases listed
  have ran : (runAll step ⟨.empty, []⟩ inTurn).isOk = true := by decide +kernel
  obtain ⟨final, ran⟩ := exists_of_isOk ran
  have meets : StepsMeet step (Pool.AtTask UpToDate) ⟨.empty, []⟩ inTurn := by decide +kernel
  exact ⟨covered, (published_iff covered ran).mpr meets⟩

/-- Two registrations read the same current snapshot; the second puts the smaller one. -/
def readTheSame : List (Pool.Event RegistryCall) :=
  [.call (.post (segmentAt "a" 5)), .call (.post (segmentAt "b" 3)), .advance 0, .advance 1,
    .advance 0, .advance 1, .advance 0]

theorem lost_maximum :
    (do
      let published ← runAll step ⟨.empty, []⟩ readTheSame
      let final ← step published (.advance 1)
      .ok (published.shared.snapshotCurrent, final.shared.snapshotCurrent,
        final.shared.listSegments.map SegmentMeta.snapshotId, final.tasks)) =
      .ok (5, 3, [5, 3],
        [.answered (.registered "a" 5), .answered (.registered "b" 3)]) := by
  decide +kernel

end Leader

end VecScale
