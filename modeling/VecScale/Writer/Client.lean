import VecScale.Lib.Retries
import VecScale.Writer.Passes
import VecScale.Writer.Transparent

/-!
# A writer and coordinators that fail

The writer reaches the coordinators over a client that tries each request three times at
every URL.  A request that nobody answers raises, and a registration pass ends where it
stands; it may have been handled all the same, once or several times.

* `withdrawAll_cases`, `announceAll_cases`: the two loops of a pass, as far as they get;
* `Linked.Tracked.pass`: what a pass keeps, however far it gets;
* `failures_heal`: the data never depend on the coordinators, and a pass that returns leaves
  what it leaves when nothing has ever failed.
-/

namespace VecScale

/-! ## The client -/

/-- At least one coordinator URL is required. -/
structure CoordinatorClient where
  coordinatorUrls : List String
  filled : coordinatorUrls ≠ []

/-- What comes of each try of each request. -/
abbrev Network := ℕ → ℕ → String → Try

namespace CoordinatorClient

def tries (client : CoordinatorClient) (net : Network) (n : ℕ) : List Try :=
  (List.range 3).flatMap fun attempt => client.coordinatorUrls.map fun url => net n attempt url

/-- `_request`. -/
def request {σ α : Type} (client : CoordinatorClient) (net : Network) (n : ℕ)
    (handle : σ → α × σ) (s : σ) : Except PyError α × σ :=
  let sent := retry handle (client.tries net n) s
  (sent.1.elim (.error (.runtimeError "All coordinator requests failed.")) .ok, sent.2)

/-- Somebody answers every request in the end. -/
def Reached (client : CoordinatorClient) (net : Network) : Prop :=
  ∀ n, Try.answered ∈ client.tries net n

end CoordinatorClient

/-- A writer, and how many requests it has sent. -/
structure Linked (dim numShards : ℕ) where
  cluster : Cluster dim numShards
  sent : ℕ

variable {dim numShards : ℕ}

namespace Cluster

/-! ## What the coordinator handles -/

/-- The node of the writer is not in the segment registry. -/
def handleRegister (c : Cluster dim numShards) : Unit × Cluster dim numShards := ((), c)

def handleListSegments (c : Cluster dim numShards) : List SegmentMeta × Cluster dim numShards :=
  (c.registry.listSegments, c)

def handleDeleteSegment (segmentId : String) (c : Cluster dim numShards) :
    Unit × Cluster dim numShards :=
  ((), { c with registry := c.registry.deleteSegment segmentId })

def handleRegisterSegment (segMeta : SegmentMeta) (c : Cluster dim numShards) :
    Unit × Cluster dim numShards :=
  ((), { c with registry := c.registry.registerSegment segMeta })

/-- `_registered_segments.discard`. -/
def forget (c : Cluster dim numShards) (segmentId : String) : Cluster dim numShards :=
  { c with writer := { c.writer with
    registeredSegments := c.writer.registeredSegments.erase segmentId } }

/-- `_registered_segments.add`. -/
def remember (c : Cluster dim numShards) (segmentId : String) : Cluster dim numShards :=
  { c with writer := { c.writer with
    registeredSegments := Insert.insert segmentId c.writer.registeredSegments } }

end Cluster

/-! ## The writer -/

/-- A request, or a turn of the registration loop. -/
inductive WriterTurn (dim : ℕ)
  | insert (rows : List (Row dim))
  | delete (ids : List ℤ)
  | segmentRegistrationLoop

def WriterTurn.call? : WriterTurn dim → Option (Call dim)
  | .insert rows => some (.insert rows)
  | .delete ids => some (.delete ids)
  | .segmentRegistrationLoop => none

/-- Only a delete has no registration pass. -/
def WriterTurn.Passes : WriterTurn dim → Prop
  | .insert _ | .segmentRegistrationLoop => True
  | .delete _ => False

namespace Linked

section Requests

variable (client : CoordinatorClient) (net : Network)

def ask {α : Type} (handle : Cluster dim numShards → α × Cluster dim numShards)
    (w : Linked dim numShards) : Except PyError α × Linked dim numShards :=
  let answered := client.request net w.sent handle w.cluster
  (answered.1, ⟨answered.2, w.sent + 1⟩)

/-- The loop over the stale segments. -/
def withdrawAll : List String → Linked dim numShards → Except PyError Unit × Linked dim numShards
  | [], w => (.ok (), w)
  | name :: names, w =>
      match w.ask client net (Cluster.handleDeleteSegment name) with
      | (.error e, w) => (.error e, w)
      | (.ok _, w) => withdrawAll names { w with cluster := w.cluster.forget name }

/-- The loop over the local segments. -/
def announceAll : List SegmentMeta → Linked dim numShards →
    Except PyError Unit × Linked dim numShards
  | [], w => (.ok (), w)
  | segMeta :: metas, w =>
      if segMeta.segmentId ∈ w.cluster.writer.registeredSegments then announceAll metas w
      else
        match w.ask client net (Cluster.handleRegisterSegment segMeta) with
        | (.error e, w) => (.error e, w)
        | (.ok _, w) => announceAll metas { w with cluster := w.cluster.remember segMeta.segmentId }

/-- `register_unregistered_segments`. -/
def registerUnregisteredSegments (w : Linked dim numShards) :
    Except PyError Unit × Linked dim numShards :=
  let localIds := w.cluster.writer.segments.map Segment.segmentId
  match w.ask client net Cluster.handleListSegments with
  | (.error e, w) => (.error e, w)
  | (.ok remote, w) =>
      match withdrawAll client net
          ((Cluster.stale numShards localIds remote).map SegmentMeta.segmentId) w with
      | (.error e, w) => (.error e, w)
      | (.ok _, w) => announceAll client net (w.cluster.writer.segments.map Segment.segMeta) w

/-- `register_self`. -/
def registerSelf (w : Linked dim numShards) : Except PyError Unit × Linked dim numShards :=
  w.ask client net Cluster.handleRegister

/-- `_load_registered_segments`; a coordinator that fails lists nothing. -/
def loadRegisteredSegments (w : Linked dim numShards) : Linked dim numShards :=
  let asked := w.ask client net Cluster.handleListSegments
  let registered := match asked.1 with
    | .error _ => []
    | .ok segments => segments
  { asked.2 with cluster := { asked.2.cluster with writer := { asked.2.cluster.writer with
    registeredSegments := (registered.map SegmentMeta.segmentId).toFinset } } }

/-- `WriterPipeline.start`. -/
def start (env : Env) (w : Linked dim numShards) :
    Except PyError (Except PyError Unit × Linked dim numShards) :=
  match w.registerSelf client net with
  | (.error e, w) => .ok (.error e, w)
  | (.ok _, w) => do
      let started ← (List.finRange numShards).foldlM (Cluster.startEngine env) w.cluster
      .ok ((loadRegisteredSegments client net ⟨started, w.sent⟩).registerUnregisteredSegments
        client net)

/-- A turn of `_segment_registration_loop`, which goes on after any exception. -/
def registrationTurn (w : Linked dim numShards) : Except PyError Unit × Linked dim numShards :=
  match w.registerSelf client net with
  | (.error e, w) => (.error e, w)
  | (.ok _, w) => w.registerUnregisteredSegments client net

variable [NeZero numShards]

/-- `insert`; what the client raises leaves the rows where they are. -/
def insert (env : Env) (ids : List ℤ) (vectors : List (List UInt32)) (w : Linked dim numShards) :
    Except PyError (Except PyError Cluster.InsertReply × Linked dim numShards) := do
  let rows ← prepareRows dim ids vectors
  let written ← w.cluster.insertOnShards env rows
  match registerUnregisteredSegments client net ⟨written.2, w.sent⟩ with
  | (.error e, w) => .ok (.error e, w)
  | (.ok _, w) => do
      let h ← w.cluster.health
      .ok (.ok ⟨written.1.lsn, ids.length, written.1.segmentFlushed, h.ntotal, h.segments,
        h.walLsn⟩, w)

/-- `delete`. -/
def delete (env : Env) (ids : List ℤ) (w : Linked dim numShards) :
    Except PyError (Cluster.DeleteReply × Linked dim numShards) := do
  let done ← w.cluster.delete env ids
  .ok (done.1, ⟨done.2, w.sent⟩)

/-- What the writer does next, and whether the client raised. -/
def serve (env : Env) (w : Linked dim numShards) :
    WriterTurn dim → Except PyError (Except PyError Unit × Linked dim numShards)
  | .insert rows =>
      (w.insert client net env (batchIds rows) (batchVectors rows)).map fun done =>
        (done.1.map fun _ => (), done.2)
  | .delete ids => (w.delete env ids).map fun done => (.ok (), done.2)
  | .segmentRegistrationLoop => .ok (w.registrationTurn client net)

def step (env : Env) (w : Linked dim numShards) (turn : WriterTurn dim) :
    Except PyError (Linked dim numShards) :=
  (w.serve client net env turn).map Prod.snd

end Requests

end Linked

/-! ## Requests that are handled again -/

namespace Cluster

theorem idempotent_deleteSegment (segmentId : String) :
    Idempotent fun c : Cluster dim numShards => c.handleDeleteSegment segmentId := by
  intro c
  simp only [handleDeleteSegment, Registry.deleteSegment, Dict.erase_erase]

theorem idempotent_registerSegment (segMeta : SegmentMeta) :
    Idempotent fun c : Cluster dim numShards => c.handleRegisterSegment segMeta := by
  intro c
  simp only [handleRegisterSegment, Registry.registerSegment, Dict.set_set, max_assoc, max_self]

theorem idempotent_listSegments :
    Idempotent fun c : Cluster dim numShards => c.handleListSegments := fun _ => rfl

theorem idempotent_register :
    Idempotent fun c : Cluster dim numShards => c.handleRegister := fun _ => rfl

end Cluster

namespace Linked

variable (client : CoordinatorClient) (net : Network)

/-- How a request went: it was answered, or it raised and was handled or not. -/
theorem ask_cases {α : Type} {handle : Cluster dim numShards → α × Cluster dim numShards}
    (idempotent : Idempotent handle) (w : Linked dim numShards) :
    (∃ sent, w.ask client net handle = (.ok (handle w.cluster).1, ⟨(handle w.cluster).2, sent⟩)) ∨
      ∃ e c sent, w.ask client net handle = (.error e, ⟨c, sent⟩) ∧
        (c = (handle w.cluster).2 ∨ c = w.cluster) := by
  unfold ask CoordinatorClient.request
  rcases idempotent.retry_cases (client.tries net w.sent) w.cluster with done | done | done
  · exact Or.inl ⟨_, by rw [done]; rfl⟩
  · exact Or.inr ⟨_, _, _, by rw [done]; rfl, Or.inl rfl⟩
  · exact Or.inr ⟨_, _, _, by rw [done]; rfl, Or.inr rfl⟩

/-- The loop over the stale segments keeps what each of its steps keeps, and if it comes to
its end it has withdrawn them. -/
theorem withdrawAll_cases {P : Cluster dim numShards → Prop} {names : List String}
    (deleted : ∀ c, P c → ∀ name ∈ names, P (c.handleDeleteSegment name).2)
    (forgotten : ∀ c, P c → ∀ name, P (c.forget name)) {w : Linked dim numShards}
    (before : P w.cluster) : P (withdrawAll client net names w).2.cluster ∧
      ((withdrawAll client net names w).1 = .ok () →
        (withdrawAll client net names w).2.cluster = names.foldl Cluster.withdraw w.cluster) := by
  induction names generalizing w with
  | nil => exact ⟨before, fun _ => rfl⟩
  | cons name names ih =>
      have once := deleted w.cluster before name List.mem_cons_self
      unfold withdrawAll
      rcases ask_cases client net (Cluster.idempotent_deleteSegment name) w with
        ⟨sent, answered⟩ | ⟨e, c, sent, raised, either⟩
      · rw [answered]
        exact ih (fun c here later member => deleted c here later (List.mem_cons_of_mem _ member))
          (forgotten _ once name)
      · rw [raised]
        refine ⟨?_, nofun⟩
        rcases either with rfl | rfl
        · exact once
        · exact before

/-- The loop over the local segments keeps what each of its steps keeps, and if it comes to
its end it has announced them. -/
theorem announceAll_cases {P : Cluster dim numShards → Prop} (metas : List SegmentMeta)
    (registered : ∀ c, P c → ∀ segMeta ∈ metas, P (c.handleRegisterSegment segMeta).2 ∧
      P ((c.handleRegisterSegment segMeta).2.remember segMeta.segmentId))
    {w : Linked dim numShards} (before : P w.cluster) :
    P (announceAll client net metas w).2.cluster ∧
      ((announceAll client net metas w).1 = .ok () →
        (announceAll client net metas w).2.cluster = metas.foldl Cluster.announce w.cluster) := by
  induction metas generalizing w with
  | nil => exact ⟨before, fun _ => rfl⟩
  | cons segMeta metas ih =>
      have later : ∀ c, P c → ∀ listed ∈ metas, P (c.handleRegisterSegment listed).2 ∧
          P ((c.handleRegisterSegment listed).2.remember listed.segmentId) :=
        fun c here listed member => registered c here listed (List.mem_cons_of_mem _ member)
      obtain ⟨once, added⟩ := registered w.cluster before segMeta List.mem_cons_self
      unfold announceAll
      rw [List.foldl_cons, Cluster.announce]
      split
      · exact ih later before
      · rcases ask_cases client net (Cluster.idempotent_registerSegment segMeta) w with
          ⟨sent, answered⟩ | ⟨e, c, sent, raised, either⟩
        · rw [answered]
          exact ih later added
        · rw [raised]
          refine ⟨?_, nofun⟩
          rcases either with rfl | rfl
          · exact once
          · exact before

/-! ### Coordinators that answer -/

section Reached

variable (reached : client.Reached net)

include reached

theorem ask_answered {α : Type} (handle : Cluster dim numShards → α × Cluster dim numShards)
    (w : Linked dim numShards) : ∃ a w', w.ask client net handle = (.ok a, w') := by
  have some : (retry handle (client.tries net w.sent) w.cluster).1.isSome :=
    retry_isSome_iff.mpr (reached w.sent)
  obtain ⟨a, answered⟩ := Option.isSome_iff_exists.mp some
  refine ⟨a, (w.ask client net handle).2, Prod.ext ?_ rfl⟩
  simp only [ask, CoordinatorClient.request, answered]
  rfl

theorem withdrawAll_answered (names : List String) (w : Linked dim numShards) :
    ∃ w', withdrawAll client net names w = (.ok (), w') := by
  induction names generalizing w with
  | nil => exact ⟨w, rfl⟩
  | cons name names ih =>
      obtain ⟨a, w', answered⟩ := ask_answered client net reached (Cluster.handleDeleteSegment name) w
      rw [withdrawAll, answered]
      exact ih _

theorem announceAll_answered (metas : List SegmentMeta) (w : Linked dim numShards) :
    ∃ w', announceAll client net metas w = (.ok (), w') := by
  induction metas generalizing w with
  | nil => exact ⟨w, rfl⟩
  | cons segMeta metas ih =>
      rw [announceAll]
      split
      · exact ih w
      · obtain ⟨a, w', answered⟩ :=
          ask_answered client net reached (Cluster.handleRegisterSegment segMeta) w
        rw [answered]
        exact ih _

/-- A pass whose requests are all answered comes to its end. -/
theorem register_answered (w : Linked dim numShards) :
    ∃ w', w.registerUnregisteredSegments client net = (.ok (), w') := by
  obtain ⟨remote, listed, answered⟩ := ask_answered client net reached Cluster.handleListSegments w
  obtain ⟨withdrawn, ranWithdraw⟩ := withdrawAll_answered client net reached
    ((Cluster.stale numShards (w.cluster.writer.segments.map Segment.segmentId) remote).map
      SegmentMeta.segmentId) listed
  obtain ⟨w', ranAnnounce⟩ := announceAll_answered client net reached
    (withdrawn.cluster.writer.segments.map Segment.segMeta) withdrawn
  refine ⟨w', ?_⟩
  unfold registerUnregisteredSegments
  simp only [answered, ranWithdraw, ranAnnounce]

end Reached

end Linked

/-! ## What a pass keeps -/

namespace Cluster

variable {env : Env} {c c' : Cluster dim numShards}

/-- What holds of the registry however the passes before went: it lists segments that the
engines have or had, among them those that the writer remembers. -/
structure Unharmed (env : Env) (c : Cluster dim numShards) : Prop where
  remembered : ∀ seg ∈ c.writer.segments, seg.segmentId ∈ c.writer.registeredSegments →
    seg.segMeta ∈ c.registry.listSegments
  listed : ∀ segMeta ∈ c.registry.listSegments,
    segMeta.shardId < numShards ∧ c.Accurate env segMeta
  named : ∀ name ∈ c.writer.registeredSegments, c.storage.Named env.uuid name

theorem Unharmed.deleteSegment (unharmed : c.Unharmed env) {name : String}
    (notLocal : name ∉ c.metas.map SegmentMeta.segmentId) :
    (c.handleDeleteSegment name).2.Unharmed env := by
  refine ⟨fun seg member known => ?_, fun segMeta listed => ?_, unharmed.named⟩
  · refine Registry.mem_listSegments_deleteSegment.mpr
      ⟨fun same => notLocal ?_, unharmed.remembered seg member known⟩
    rw [← same, ids_metas]
    exact List.mem_map_of_mem member
  · obtain ⟨own, accurate⟩ := unharmed.listed segMeta
      (Registry.mem_listSegments_deleteSegment.mp listed).2
    exact ⟨own, accurate.named, accurate.agrees⟩

theorem Unharmed.forget (unharmed : c.Unharmed env) (name : String) :
    (c.forget name).Unharmed env := by
  refine ⟨fun seg member known => ?_, fun segMeta listed => ?_, fun other known => ?_⟩
  · exact unharmed.remembered seg member (Finset.mem_of_mem_erase known)
  · obtain ⟨own, accurate⟩ := unharmed.listed segMeta listed
    exact ⟨own, accurate.named, accurate.agrees⟩
  · exact unharmed.named other (Finset.mem_of_mem_erase known)

theorem Unharmed.registerSegment (unharmed : c.Unharmed env) (sound : c.Sound env)
    {segMeta : SegmentMeta} (isLocal : segMeta ∈ c.metas) :
    (c.handleRegisterSegment segMeta).2.Unharmed env := by
  rcases mem_metas.mp isLocal with ⟨own, member, rfl⟩
  refine ⟨fun seg here known => ?_, fun listed after => ?_, unharmed.named⟩
  · refine Registry.mem_listSegments_registerSegment.mpr ?_
    split
    · next same => exact congrArg Segment.segMeta (sound.unique here member same.symm)
    · exact unharmed.remembered seg here known
  · rw [handleRegisterSegment, Registry.mem_listSegments_registerSegment] at after
    split at after
    · subst after
      have accurate := sound.accurate member
      exact ⟨sound.shard_lt member, accurate.named, accurate.agrees⟩
    · obtain ⟨own, accurate⟩ := unharmed.listed listed after
      exact ⟨own, accurate.named, accurate.agrees⟩

theorem Unharmed.remember (unharmed : c.Unharmed env) (sound : c.Sound env) {seg : Segment dim}
    (member : seg ∈ c.writer.segments) (listed : seg.segMeta ∈ c.registry.listSegments) :
    (c.remember seg.segmentId).Unharmed env := by
  refine ⟨fun other here known => ?_, fun segMeta inRegistry => ?_, fun name known => ?_⟩
  · rcases Finset.mem_insert.mp known with same | before
    · rw [sound.unique here member same]
      exact listed
    · exact unharmed.remembered other here before
  · obtain ⟨own, accurate⟩ := unharmed.listed segMeta inRegistry
    exact ⟨own, accurate.named, accurate.agrees⟩
  · rcases Finset.mem_insert.mp known with rfl | before
    · exact sound.named member
    · exact unharmed.named name before

/-- The engines go on under new names. -/
theorem Unharmed.step (unharmed : c.Unharmed env) (sound : c.Sound env) (sound' : c'.Sound env)
    (grows : SharedStorage.Grows env.uuid c.storage c'.storage) (registry : c'.registry = c.registry)
    (remembered : c'.writer.registeredSegments = c.writer.registeredSegments) :
    c'.Unharmed env := by
  refine ⟨fun seg member known => ?_, fun segMeta listed => ?_, fun name known => ?_⟩
  · rw [remembered] at known
    rw [registry]
    rcases sound.old_or_new sound' grows member with old | new
    · exact unharmed.remembered seg old known
    · exact absurd (unharmed.named _ known) new
  · rw [registry] at listed
    obtain ⟨own, accurate⟩ := unharmed.listed segMeta listed
    exact ⟨own, accurate.step sound sound' grows⟩
  · rw [remembered] at known
    exact (unharmed.named name known).mono grows

/-- A pass that comes to its end leaves the segments of the engines. -/
theorem Unharmed.mem_listSegments_register (unharmed : c.Unharmed env) (sound : c.Sound env)
    (segMeta : SegmentMeta) : segMeta ∈ c.registerUnregisteredSegments.registry.listSegments ↔
      ∃ seg ∈ c.writer.segments, seg.segMeta = segMeta := by
  have repairable : c.Repairable := by
    refine ⟨unharmed.remembered, fun listed here other => ?_⟩
    exact absurd (unharmed.listed listed here).1 (not_lt.mpr other)
  obtain ⟨own, others⟩ := repairable.repairs sound
  rw [← own]
  refine ⟨fun listed => ⟨listed, ?_⟩, fun both => both.1⟩
  by_contra other
  have before := (others segMeta (not_lt.mp other)).mp listed
  exact other (unharmed.listed segMeta before).1

end Cluster

namespace Linked

variable (client : CoordinatorClient) (net : Network) {env : Env}

/-- How a pass went. -/
structure Passed (env : Env) (c : Cluster dim numShards)
    (out : Except PyError Unit × Linked dim numShards) : Prop where
  engines : c.SameEngines out.2.cluster
  unharmed : out.2.cluster.Unharmed env
  returned : out.1 = .ok () → out.2.cluster = c.registerUnregisteredSegments

/-- **A pass does no harm**, however far it gets. -/
theorem passed_register {w : Linked dim numShards} (sound : w.cluster.Sound env)
    (unharmed : w.cluster.Unharmed env) :
    Passed env w.cluster (w.registerUnregisteredSegments client net) := by
  rcases w with ⟨c, sent⟩
  let P (d : Cluster dim numShards) : Prop := c.SameEngines d ∧ d.Unharmed env
  have here : P c := ⟨⟨rfl, rfl⟩, unharmed⟩
  have metas : ∀ {d}, P d → d.metas = c.metas := fun same =>
    congrArg (List.map Segment.segMeta) same.1.segments
  have deleted : ∀ d, P d → ∀ name ∈ c.gone, P (d.handleDeleteSegment name).2 := by
    intro d same name gone
    refine ⟨same.1.trans ⟨rfl, rfl⟩, same.2.deleteSegment fun isLocal => ?_⟩
    exact Cluster.not_mem_gone (metas same ▸ isLocal) gone
  have forgotten : ∀ d, P d → ∀ name, P (d.forget name) :=
    fun d same name => ⟨same.1.trans ⟨rfl, rfl⟩, same.2.forget name⟩
  have registered : ∀ d, P d → ∀ segMeta ∈ c.metas, P (d.handleRegisterSegment segMeta).2 ∧
      P ((d.handleRegisterSegment segMeta).2.remember segMeta.segmentId) := by
    intro d same segMeta member
    have soundD : d.Sound env := same.1.sound sound
    have isLocal : segMeta ∈ d.metas := (metas same).symm ▸ member
    have once : P (d.handleRegisterSegment segMeta).2 :=
      ⟨same.1.trans ⟨rfl, rfl⟩, same.2.registerSegment soundD isLocal⟩
    rcases Cluster.mem_metas.mp isLocal with ⟨seg, inEngine, rfl⟩
    refine ⟨once, once.1.trans ⟨rfl, rfl⟩, once.2.remember (once.1.sound sound) inEngine ?_⟩
    exact Registry.mem_listSegments_registerSegment.mpr ((if_pos rfl).mpr rfl)
  unfold registerUnregisteredSegments
  rcases ask_cases client net Cluster.idempotent_listSegments ⟨c, sent⟩ with
    ⟨sent, answered⟩ | ⟨e, d, sent, raised, either⟩
  · rw [answered]
    dsimp only [Cluster.handleListSegments]
    obtain ⟨afterLoop, allWithdrawn⟩ := withdrawAll_cases client net deleted
      forgotten (w := ⟨c, sent⟩) here
    rw [Cluster.gone] at afterLoop allWithdrawn
    split
    · next raised =>
        rw [raised] at afterLoop
        exact ⟨afterLoop.1, afterLoop.2, fun returned => by cases returned⟩
    · next answered =>
        rw [answered] at afterLoop allWithdrawn
        have withdrawn := allWithdrawn rfl
        dsimp only at withdrawn afterLoop
        obtain ⟨kept, allAnnounced⟩ := announceAll_cases client net c.metas registered afterLoop
        rw [← metas afterLoop] at kept allAnnounced
        refine ⟨kept.1, kept.2, fun returned => ?_⟩
        rw [Cluster.registerUnregisteredSegments_eq, ← metas afterLoop, Cluster.gone, ← withdrawn]
        exact allAnnounced returned
  · have same : d = c := either.elim id id
    rw [raised, same]
    exact ⟨here.1, here.2, fun returned => by cases returned⟩

end Linked

/-! ## The data -/

/-- Loops that differ by a map of their states. -/
theorem foldlM_map {σ τ α ε : Type} {f : σ → τ} {step : σ → α → Except ε σ}
    {step' : τ → α → Except ε τ} (commutes : ∀ s a, step' (f s) a = (step s a).map f)
    (items : List α) (s : σ) : items.foldlM step' (f s) = (items.foldlM step s).map f := by
  induction items generalizing s with
  | nil => rfl
  | cons a items ih =>
      rw [List.foldlM_cons, List.foldlM_cons, commutes]
      cases step s a with
      | error e => rfl
      | ok next => exact ih next

namespace Cluster

variable {env : Env} {c d : Cluster dim numShards}

/-- The engines of `c`, with what the coordinator and the writer of `d` know. -/
def under (d c : Cluster dim numShards) : Cluster dim numShards where
  writer := ⟨c.writer.engines, d.writer.registeredSegments⟩
  storage := c.storage
  registry := d.registry

theorem SameEngines.under_eq (same : c.SameEngines d) : d.under c = d := by
  rw [under, ← same.engines, ← same.storage]

theorem sameEngines_under (d c : Cluster dim numShards) : c.SameEngines (d.under c) := ⟨rfl, rfl⟩

theorem onShard_under {α : Type} (shard : Fin numShards)
    (call : Node dim → Except PyError (α × Node dim)) :
    (d.under c).onShard shard call =
      (c.onShard shard call).map fun done => (done.1, d.under done.2) := by
  unfold onShard
  have node : (d.under c).node shard = c.node shard := rfl
  rw [node]
  cases call (c.node shard) with
  | error e => rfl
  | ok done => rfl

variable [NeZero numShards]

variable (env) in
theorem insertOnShards_under (rows : List (Row dim)) :
    (d.under c).insertOnShards env rows =
      (c.insertOnShards env rows).map fun done => (done.1, d.under done.2) := by
  unfold insertOnShards
  split
  · exact onShard_under _ _
  · refine foldlM_map (f := fun state : LSMEngine.InsertResult × Cluster dim numShards =>
      (state.1, d.under state.2)) (fun state group => ?_) _ (_, c)
    unfold insertGroup
    rw [onShard_under]
    cases state.2.onShard group.1 (LSMEngine.insert env (batchIds group.2) (batchVectors group.2)) with
    | error e => rfl
    | ok done => rfl

theorem deleteOnShards_under (ids : List ℤ) : (d.under c).deleteOnShards env ids =
    (c.deleteOnShards env ids).map fun done => (done.1, d.under done.2) := by
  unfold deleteOnShards
  split
  · exact onShard_under _ _
  · refine foldlM_map (f := fun state : ℕ × Cluster dim numShards => (state.1, d.under state.2))
      (fun state group => ?_) _ (_, c)
    unfold deleteGroup
    rw [onShard_under]
    cases state.2.onShard group.1 (LSMEngine.delete env group.2) with
    | error e => rfl
    | ok done => rfl

variable (env) in
theorem delete_under (ids : List ℤ) : (d.under c).delete env ids =
    (c.delete env ids).map fun done => (done.1, d.under done.2) := by
  unfold delete
  rw [deleteOnShards_under]
  cases c.deleteOnShards env ids with
  | error e => rfl
  | ok done =>
      change (do let h ← done.2.health; _) = Except.map _ (do let h ← done.2.health; _)
      cases done.2.health with
      | error e => rfl
      | ok h => rfl

omit [NeZero numShards] in
theorem Sound.health (sound : c.Sound env) : ∃ h, c.health = .ok h := by
  have each : ∀ shard, ∃ live : Finset ℤ, LSMEngine.ntotal (c.node shard) = .ok live.card := by
    intro shard
    obtain ⟨old, recent, layout⟩ := sound.layout shard
    obtain ⟨live, counted, -⟩ := ntotal_of_layout layout
    exact ⟨live, counted⟩
  choose live counted using each
  obtain ⟨h, ran, -⟩ := ntotal_of_health counted
  exact ⟨h, ran⟩

omit [NeZero numShards] in
theorem SameEngines.symm (same : c.SameEngines d) : d.SameEngines c :=
  ⟨same.engines.symm, same.storage.symm⟩

theorem runParts_of_insertOnShards {rows : List (Row dim)}
    {written : LSMEngine.InsertResult × Cluster dim numShards}
    (ran : c.insertOnShards env rows = .ok written) :
    runAll (shardStep env) c ((Call.insert rows).parts numShards) = .ok written.2 := by
  unfold insertOnShards at ran
  split at ran
  · next one =>
      rw [Call.parts, if_pos one, runAll_cons (shardStep_of_onShard (fun n => rfl) ran)]
      rfl
  · next many =>
      rw [Call.parts, if_neg many]
      exact runAll_of_foldlM Call.insert
        (fun rows => LSMEngine.insert env (batchIds rows) (batchVectors rows)) addResult
        (fun rows n => rfl) ran

/-- A writer with the same engines takes the same rows. -/
theorem SameEngines.insert (same : c.SameEngines d) {rows : List (Row dim)}
    {written : LSMEngine.InsertResult × Cluster dim numShards}
    (ran : c.insertOnShards env rows = .ok written) (sound : written.2.Sound env) :
    d.call env (.insert rows) = .ok (d.under written.2).registerUnregisteredSegments ∧
      written.2.SameEngines (d.under written.2).registerUnregisteredSegments := by
  have ranOther := insertOnShards_under env (c := c) (d := d) rows
  rw [same.under_eq, ran] at ranOther
  change d.insertOnShards env rows = .ok (written.1, d.under written.2) at ranOther
  have after := (sameEngines_under d written.2).trans (sameEngines_register _)
  obtain ⟨h, counted⟩ := (after.sound sound).health
  refine ⟨?_, after⟩
  simp only [Cluster.call, Cluster.insert, prepareRows_batch, bind, Except.bind, ranOther, counted,
    Except.map]

/-- A writer with the same engines deletes the same ids. -/
theorem SameEngines.delete (same : c.SameEngines d) {ids : List ℤ} {reply : DeleteReply}
    {after : Cluster dim numShards} (ran : c.delete env ids = .ok (reply, after)) :
    d.call env (.delete ids) = .ok (d.under after) := by
  have ranOther := delete_under env (c := c) (d := d) ids
  rw [same.under_eq, ran] at ranOther
  change d.delete env ids = .ok (reply, d.under after) at ranOther
  rw [Cluster.call, ranOther]
  rfl

end Cluster

namespace Linked

variable {client : CoordinatorClient} {net : Network} {env : Env}

/-- The writer with coordinators that fail, next to one whose coordinators never do. -/
structure Beside (env : Env) (w : Linked dim numShards) (undisturbed : Cluster dim numShards) :
    Prop where
  engines : w.cluster.SameEngines undisturbed
  unharmed : w.cluster.Unharmed env
  sound : undisturbed.Sound env
  registered : undisturbed.Registered

variable {w w' : Linked dim numShards} {undisturbed : Cluster dim numShards}

theorem Beside.soundLinked (beside : Beside env w undisturbed) : w.cluster.Sound env :=
  beside.engines.symm.sound beside.sound

variable [NeZero numShards]

omit [NeZero numShards] in
/-- After a pass that returns, both registries list the same. -/
theorem Passed.listSegments {c : Cluster dim numShards}
    {out : Except PyError Unit × Linked dim numShards} (passed : Passed env c out)
    (sound : c.Sound env) (unharmed : c.Unharmed env) (same : out.2.cluster.SameEngines undisturbed)
    (registered : undisturbed.Registered) (returned : out.1 = .ok ()) :
    out.2.cluster.registry.listSegments = undisturbed.registry.listSegments := by
  apply Registry.eq_listSegments (Registry.pairwise_listSegments _)
  intro segMeta
  rw [passed.returned returned, unharmed.mem_listSegments_register sound, registered.2,
    same.segments, passed.engines.segments]

/-- **The step lemma.**  Whatever the coordinators do, the data are those of the writer
that is not disturbed, and a pass that returns catches up with its registry. -/
theorem Beside.serve (beside : Beside env w undisturbed) {turn : WriterTurn dim}
    {outcome : Except PyError Unit} (int64 : ∀ request ∈ turn.call?, request.Int64)
    (ran : w.serve client net env turn = .ok (outcome, w')) :
    ∃ undisturbed', runAll (Cluster.call env) undisturbed turn.call?.toList = .ok undisturbed' ∧
      Beside env w' undisturbed' ∧ (outcome = .ok () → turn.Passes →
        w'.cluster.registry.listSegments = undisturbed'.registry.listSegments) := by
  have sound := beside.soundLinked
  cases turn with
  | insert rows =>
      have int64 : (Call.insert rows).Int64 := int64 _ rfl
      have partsInt64 : ∀ part ∈ (Call.insert rows).parts numShards, part.2.Int64 :=
        fun part member x named => int64 x (mem_ids_of_part member named).1
      obtain ⟨done, inserted, same⟩ := ok_of_map ran
      obtain ⟨checked, prepared, rest⟩ := ok_of_bind inserted
      rw [prepareRows_batch, Except.ok.injEq] at prepared
      subst prepared
      obtain ⟨written, ranShards, rest⟩ := ok_of_bind rest
      obtain ⟨soundWritten, grows, registry, remembered⟩ :=
        sound.runParts partsInt64 (Cluster.runParts_of_insertOnShards ranShards)
      have unharmed := beside.unharmed.step sound soundWritten grows registry remembered
      have passed := passed_register client net (w := ⟨written.2, w.sent⟩)
        soundWritten unharmed
      -- the same rows go into the same engines of the other writer
      obtain ⟨called, sameRegistered⟩ := beside.engines.insert ranShards soundWritten
      obtain ⟨registered, soundOther, -⟩ := beside.registered.call beside.sound int64 called
      refine ⟨_, runAll_cons called [], ?_⟩
      have sameAfter := passed.engines.symm.trans sameRegistered
      generalize registerUnregisteredSegments client net ⟨written.2, w.sent⟩ = out
        at passed rest sameAfter
      have final : w' = out.2 ∧ (outcome = .ok () → out.1 = .ok ()) := by
        rcases out with ⟨outcome', after⟩
        cases outcome' with
        | error e =>
            cases rest
            cases same
            exact ⟨rfl, nofun⟩
        | ok _ =>
            obtain ⟨h, -, rest⟩ := ok_of_bind rest
            cases rest
            cases same
            exact ⟨rfl, fun _ => rfl⟩
      rw [final.1]
      exact ⟨⟨sameAfter, passed.unharmed, soundOther, registered⟩, fun returned _ =>
        passed.listSegments soundWritten unharmed sameAfter registered (final.2 returned)⟩
  | delete ids =>
      have int64 : (Call.delete ids : Call dim).Int64 := int64 _ rfl
      have partsInt64 : ∀ part ∈ (Call.delete ids : Call dim).parts numShards, part.2.Int64 :=
        fun part member x named => int64 x (mem_ids_of_part member named).1
      obtain ⟨done, deleted, same⟩ := ok_of_map ran
      obtain ⟨after, ranDelete, rest⟩ := ok_of_bind deleted
      cases rest
      cases same
      have here : Cluster.call env w.cluster (.delete ids) = .ok after.2 := by
        rw [Cluster.call, ranDelete]
        rfl
      obtain ⟨written, ranParts, finished⟩ := parts_of_call here
      obtain ⟨soundAfter, grows, registry, remembered⟩ := sound.runParts partsInt64 ranParts
      rw [show written = after.2 from finished.symm] at soundAfter grows registry remembered
      have called := beside.engines.delete ranDelete
      obtain ⟨registered, soundOther, -⟩ := beside.registered.call beside.sound int64 called
      refine ⟨_, runAll_cons called [], ⟨Cluster.sameEngines_under _ _, ?_, soundOther, registered⟩,
        fun _ passes => passes.elim⟩
      exact beside.unharmed.step sound soundAfter grows registry remembered
  | segmentRegistrationLoop =>
      have turn : w.registrationTurn client net = (outcome, w') := Except.ok.inj ran
      refine ⟨undisturbed, rfl, ?_⟩
      unfold registrationTurn registerSelf at turn
      rcases ask_cases client net Cluster.idempotent_register w with
        ⟨sent, answered⟩ | ⟨e, c, sent, raised, either⟩
      · rw [answered] at turn
        have passed := passed_register client net (w := ⟨w.cluster, sent⟩)
          sound beside.unharmed
        have turn : registerUnregisteredSegments client net ⟨w.cluster, sent⟩ = (outcome, w') := turn
        rw [turn] at passed
        have same := passed.engines.symm.trans beside.engines
        exact ⟨⟨same, passed.unharmed, beside.sound, beside.registered⟩, fun returned _ =>
          passed.listSegments sound beside.unharmed same beside.registered returned⟩
      · have same : c = w.cluster := either.elim id id
        rw [raised, same] at turn
        cases turn
        exact ⟨⟨beside.engines, beside.unharmed, beside.sound, beside.registered⟩, nofun⟩

omit [NeZero numShards] in
/-- The engines of a writer on empty directories, once they have started. -/
theorem started_of_startEngines {settings : Settings} {c : Cluster dim numShards}
    (ran : (List.finRange numShards).foldlM (Cluster.startEngine env)
      (Cluster.new settings .empty .empty) = .ok c) : Cluster.Started env settings c ∧
      Cluster.boot env settings = .ok c.loadRegisteredSegments.registerUnregisteredSegments := by
  obtain ⟨c', ran', storage, registry, fresh⟩ := Cluster.startEngines_fresh env settings
    (List.nodup_finRange numShards) (c := (Cluster.new settings .empty .empty : Cluster dim numShards))
    rfl (fun shard _ => rfl) (fun shard absent => absurd (List.mem_finRange shard) absent)
  rw [ran, Except.ok.injEq] at ran'
  subst ran'
  refine ⟨⟨storage, registry, fresh⟩, ?_⟩
  rw [Cluster.boot, Cluster.start, ran]
  rfl

omit [NeZero numShards] in
variable (client net) in
/-- On an empty registry nothing is remembered, whether it could be read or not. -/
theorem cluster_loadRegisteredSegments (empty : w.cluster.registry = .empty) :
    (w.loadRegisteredSegments client net).cluster = w.cluster.loadRegisteredSegments := by
  have listed : w.cluster.registry.listSegments = [] := by
    rw [empty]
    rfl
  unfold loadRegisteredSegments Cluster.loadRegisteredSegments
  rcases ask_cases client net Cluster.idempotent_listSegments w with
    ⟨sent, answered⟩ | ⟨e, c, sent, raised, either⟩
  · rw [answered]
    rfl
  · have same : c = w.cluster := either.elim id id
    rw [raised, same, listed]

omit [NeZero numShards] in
/-- A start that returns. -/
theorem beside_start {settings : Settings}
    (started : start client net env ⟨Cluster.new settings .empty .empty, 0⟩ = .ok (.ok (), w)) :
    ∃ boot, Cluster.boot env settings = .ok boot ∧ Beside env w boot := by
  unfold start registerSelf at started
  rcases ask_cases client net Cluster.idempotent_register
    (⟨Cluster.new settings .empty .empty, 0⟩ : Linked dim numShards) with
    ⟨sent, answered⟩ | ⟨e, c, sent, raised, -⟩
  · rw [answered] at started
    obtain ⟨begun, ranEngines, rest⟩ := ok_of_bind started
    obtain ⟨fresh, booted⟩ := started_of_startEngines ranEngines
    have loaded := cluster_loadRegisteredSegments client net
      (w := ⟨begun, sent⟩) fresh.registry
    have sound : begun.loadRegisteredSegments.Sound env := begun.sameEngines_load.sound fresh.sound
    have unharmed : begun.loadRegisteredSegments.Unharmed env := by
      have nothing : begun.registry.listSegments = [] := by
        rw [fresh.registry]
        rfl
      refine ⟨fun seg _ known => ?_, fun segMeta listed => ?_, fun name known => ?_⟩
      · simp [Cluster.loadRegisteredSegments, nothing] at known
      · change segMeta ∈ begun.registry.listSegments at listed
        simp [nothing] at listed
      · simp [Cluster.loadRegisteredSegments, nothing] at known
    rw [← loaded] at sound unharmed
    have passed := passed_register client net sound unharmed
    rw [Except.ok.inj rest, loaded] at passed
    have registered := fresh.registered
    rw [← passed.returned rfl] at booted registered
    exact ⟨_, booted, ⟨rfl, rfl⟩, passed.unharmed,
      passed.engines.sound (begun.sameEngines_load.sound fresh.sound), registered⟩
  · rw [raised] at started
    cases started

omit [NeZero numShards] in
/-- The calls of one more turn. -/
theorem runAll_turn {σ : Type} {call : σ → Call dim → Except PyError σ} {s middle final : σ}
    {history : List (WriterTurn dim)} {turn : WriterTurn dim}
    (before : runAll call s (history.filterMap WriterTurn.call?) = .ok middle)
    (after : runAll call middle turn.call?.toList = .ok final) :
    runAll call s ((history ++ [turn]).filterMap WriterTurn.call?) = .ok final := by
  have one : [turn].filterMap WriterTurn.call? = turn.call?.toList := by
    cases turn <;> rfl
  rw [List.filterMap_append, runAll_append before, one, after]

/-- What a run leaves, next to the writer that is not disturbed. -/
theorem beside_of_run {begun : Linked dim numShards} {boot : Cluster dim numShards}
    (beside : Beside env begun boot) {turns : List (WriterTurn dim)}
    (int64 : ∀ turn ∈ turns, ∀ request ∈ turn.call?, request.Int64)
    (ran : runAll (step client net env) begun turns = .ok w) : ∃ undisturbed,
      runAll (Cluster.call env) boot (turns.filterMap WriterTurn.call?) = .ok undisturbed ∧
        Beside env w undisturbed := by
  refine runAll_carries (C := fun _ turn => ∀ request ∈ turn.call?, request.Int64)
    (R := fun history (w : Linked dim numShards) => ∃ undisturbed,
      runAll (Cluster.call env) boot (history.filterMap WriterTurn.call?) = .ok undisturbed ∧
        Beside env w undisturbed) ?_ [] ⟨boot, rfl, beside⟩ (.of_forall int64 _) ran
  intro history w turn w' here int64 stepped
  obtain ⟨undisturbed, ranBefore, beside⟩ := here
  obtain ⟨⟨outcome, w'⟩, served, rfl⟩ := ok_of_map stepped
  obtain ⟨after, ranTurn, besideAfter, -⟩ := beside.serve int64 served
  exact ⟨after, runAll_turn ranBefore ranTurn, besideAfter⟩

/-- **Failures heal.**  The writer has started, and whatever then comes of its requests to
the coordinators: its engines and their files are those of a writer whose coordinators never
fail, the registry lists nothing but segments that the writer has or had, and whenever a
registration pass returns it lists what it lists when nothing has failed. -/
theorem failures_heal {settings : Settings} {begun : Linked dim numShards}
    (started : start client net env ⟨Cluster.new settings .empty .empty, 0⟩ = .ok (.ok (), begun))
    {turns : List (WriterTurn dim)} {last : WriterTurn dim}
    (int64 : ∀ turn ∈ turns ++ [last], ∀ request ∈ turn.call?, request.Int64)
    (ran : runAll (step client net env) begun turns = .ok w) {outcome : Except PyError Unit}
    (ended : w.serve client net env last = .ok (outcome, w')) :
    ∃ boot undisturbed, Cluster.boot env settings = .ok boot ∧
      runAll (Cluster.call env) boot ((turns ++ [last]).filterMap WriterTurn.call?) =
        .ok undisturbed ∧
      w'.cluster.SameEngines undisturbed ∧
      (∀ segMeta ∈ w'.cluster.registry.listSegments,
        segMeta.shardId < numShards ∧ w'.cluster.Accurate env segMeta) ∧
      (outcome = .ok () → last.Passes →
        w'.cluster.registry.listSegments = undisturbed.registry.listSegments) := by
  obtain ⟨boot, booted, beside⟩ := beside_start started
  obtain ⟨middle, ranBefore, besideMiddle⟩ := beside_of_run beside
    (fun turn member => int64 turn (List.mem_append_left _ member)) ran
  obtain ⟨undisturbed, ranLast, besideLast, listed⟩ :=
    besideMiddle.serve (int64 last (List.mem_append_right _ List.mem_cons_self)) ended
  exact ⟨boot, undisturbed, booted, runAll_turn ranBefore ranLast, besideLast.engines,
    besideLast.unharmed.listed, listed⟩

/-- Every try of the request that registers the first segment is handled and not answered. -/
def firstUnanswered : Network := fun n _ _ => if n = 4 then .unanswered else .answered

/-- An insert whose pass fails, a delete, and a turn of the loop that registers the segment
once more. -/
theorem failures_heal_firstUnanswered :
    ∃ (begun w w' : Linked 1 1) (boot undisturbed : Cluster 1 1),
      start ⟨["http://coordinator-0:8000"], by decide⟩ firstUnanswered Env.counted
        ⟨Cluster.new ⟨1, 1, 10⟩ .empty .empty, 0⟩ = .ok (.ok (), begun) ∧
      runAll (step ⟨["http://coordinator-0:8000"], by decide⟩ firstUnanswered Env.counted) begun
        [.insert [(1, zeroVec 1)], .delete [2]] = .ok w ∧
      w.cluster.writer.registeredSegments = ∅ ∧ w.cluster.writer.segments.length = 1 ∧
      Cluster.boot Env.counted ⟨1, 1, 10⟩ = .ok boot ∧
      runAll (Cluster.call Env.counted) boot [.insert [(1, zeroVec 1)], .delete [2]] =
        .ok undisturbed ∧
      w'.cluster.registry.listSegments = undisturbed.registry.listSegments := by
  let client : CoordinatorClient := ⟨["http://coordinator-0:8000"], by decide⟩
  have evaluated : (do
      let begun ← start client firstUnanswered Env.counted
        (⟨Cluster.new ⟨1, 1, 10⟩ .empty .empty, 0⟩ : Linked 1 1)
      let w ← runAll (step client firstUnanswered Env.counted) begun.2
        [.insert [(1, zeroVec 1)], .delete [2]]
      let ended ← w.serve client firstUnanswered Env.counted .segmentRegistrationLoop
      .ok (decide (begun.1.isOk ∧ ended.1.isOk ∧ w.cluster.writer.registeredSegments = ∅ ∧
        w.cluster.writer.segments.length = 1))) = .ok true := by
    decide +kernel
  obtain ⟨⟨outcome, begun⟩, started, rest⟩ := ok_of_bind evaluated
  obtain ⟨w, ran, rest⟩ := ok_of_bind rest
  obtain ⟨⟨outcome', w'⟩, ended, rest⟩ := ok_of_bind rest
  rw [Except.ok.injEq, decide_eq_true_eq] at rest
  obtain ⟨returned, returned', forgotten, flushed⟩ := rest
  obtain ⟨⟨⟩, rfl⟩ := exists_of_isOk returned
  obtain ⟨⟨⟩, rfl⟩ := exists_of_isOk returned'
  obtain ⟨boot, undisturbed, booted, ranUndisturbed, -, -, listed⟩ :=
    failures_heal started (by decide) ran ended
  exact ⟨begun, w, w', boot, undisturbed, started, ran, forgotten, flushed, booted,
    ranUndisturbed, listed rfl trivial⟩

end Linked

end VecScale
