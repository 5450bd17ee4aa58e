import Mathlib.Data.Prod.Lex
import VecScale.Service.WriterApp

/-!
# The writer service while requests overlap

An engine call never gives the event loop up, so a handler runs in one go up to where it waits
for a coordinator.  A batch is written by then; while its registration pass waits, other
requests are handled, and the registration loop has its turns.  What the writer sends may be
handled late, twice or after the client has given up.

* `RegistrationPass.left`: what a pass still has to do;
* `Attending.respond`: what every event keeps, and what it answers;
* `overlapping_requests`: the service is a map in the order in which its requests came in.
-/

namespace VecScale

/-! ## Passes -/

/-- What the writer sends to change the registry. -/
inductive Message
  | deleteSegment (segmentId : String)
  | registerSegment (segMeta : SegmentMeta)

namespace Message

def handle (registry : Registry) : Message → Registry
  | .deleteSegment segmentId => registry.deleteSegment segmentId
  | .registerSegment segMeta => registry.registerSegment segMeta

def metas : Message → List SegmentMeta
  | .deleteSegment _ => []
  | .registerSegment segMeta => [segMeta]

theorem mem_listSegments_handle {registry : Registry} {message : Message} {segMeta : SegmentMeta}
    (listed : segMeta ∈ (message.handle registry).listSegments) :
    segMeta ∈ registry.listSegments ∨ segMeta ∈ message.metas := by
  cases message with
  | deleteSegment segmentId =>
      exact Or.inl (Registry.mem_listSegments_deleteSegment.mp listed).2
  | registerSegment new =>
      rw [handle, Registry.mem_listSegments_registerSegment] at listed
      split at listed
      · exact Or.inr (List.mem_singleton.mpr listed)
      · exact Or.inl listed

end Message

namespace RegistrationPass

/-- The request that is under way, if it changes the registry. -/
def message? : RegistrationPass → Option Message
  | .withdrawing (name :: _) => some (.deleteSegment name)
  | .registering segMeta _ => some (.registerSegment segMeta)
  | .listing _ | .withdrawing [] | .withdrawn _ _ | .announcing _ | .registered _ _ => none

/-- The pass waits for a coordinator. -/
def Waits : RegistrationPass → Prop
  | .listing _ | .withdrawing (_ :: _) | .withdrawn _ _ | .registering _ _ | .registered _ _ => True
  | .withdrawing [] | .announcing _ => False

instance : (pass : RegistrationPass) → Decidable pass.Waits
  | .listing _ | .withdrawing (_ :: _) | .withdrawn _ _ | .registering _ _ | .registered _ _ =>
      inferInstanceAs (Decidable True)
  | .withdrawing [] | .announcing _ => inferInstanceAs (Decidable False)

/-- What is left of a pass.  How many segments it will announce is open until it has withdrawn
the stale ones, hence the order. -/
def left : RegistrationPass → ℕ ×ₗ ℕ
  | .listing _ => toLex (2, 0)
  | .withdrawing names => toLex (1, 2 * names.length)
  | .withdrawn _ names => toLex (1, 2 * names.length + 1)
  | .announcing metas => toLex (0, 3 * metas.length)
  | .registering _ metas => toLex (0, 3 * metas.length + 2)
  | .registered _ metas => toLex (0, 3 * metas.length + 1)

variable {dim numShards : ℕ} {c : Cluster dim numShards} {pass pass' : RegistrationPass}

/-- A pass comes to its end, whatever happens between its steps. -/
theorem left_passStep (goesOn : (c.passStep pass).2 = some pass') : pass'.left < pass.left := by
  cases pass with
  | listing localIds =>
      cases goesOn
      exact Prod.Lex.toLex_lt_toLex.mpr (Or.inl Nat.one_lt_two)
  | withdrawing names =>
      cases names <;> cases goesOn
      · exact Prod.Lex.toLex_lt_toLex.mpr (Or.inl Nat.zero_lt_one)
      · exact Prod.Lex.toLex_lt_toLex.mpr (Or.inr ⟨rfl, by simp only [List.length_cons]; omega⟩)
  | withdrawn name names =>
      cases goesOn
      exact Prod.Lex.toLex_lt_toLex.mpr (Or.inr ⟨rfl, by simp only; omega⟩)
  | announcing metas =>
      cases metas with
      | nil => cases goesOn
      | cons first metas =>
          simp only [Cluster.passStep] at goesOn
          split at goesOn <;> cases goesOn <;>
            exact Prod.Lex.toLex_lt_toLex.mpr (Or.inr ⟨rfl, by simp only [List.length_cons]; omega⟩)
  | registering first metas =>
      cases goesOn
      exact Prod.Lex.toLex_lt_toLex.mpr (Or.inr ⟨rfl, by simp only; omega⟩)
  | registered first metas =>
      cases goesOn
      exact Prod.Lex.toLex_lt_toLex.mpr (Or.inr ⟨rfl, by simp only; omega⟩)

theorem metas_message? {message : Message} (sent : message ∈ pass.message?) :
    ∀ segMeta ∈ message.metas, segMeta ∈ pass.metas := by
  cases pass with
  | withdrawing names =>
      cases names <;> cases sent
      exact nofun
  | registering first metas =>
      cases sent
      intro segMeta same
      rw [List.mem_singleton.mp same]
      exact List.mem_cons_self
  | listing localIds => cases sent
  | withdrawn name names => cases sent
  | announcing metas => cases sent
  | registered first metas => cases sent

/-- A step of a pass has its request handled, or leaves the registry alone. -/
theorem registry_passStep (c : Cluster dim numShards) (pass : RegistrationPass) :
    (c.passStep pass).1.registry =
      pass.message?.elim c.registry fun message => message.handle c.registry := by
  cases pass with
  | withdrawing names => cases names <;> rfl
  | announcing metas =>
      cases metas with
      | nil => rfl
      | cons first metas =>
          simp only [Cluster.passStep]
          split <;> rfl
  | listing localIds => rfl
  | withdrawn name names => rfl
  | registering first metas => rfl
  | registered first metas => rfl

end RegistrationPass

namespace Cluster

variable {dim numShards : ℕ} {env : Env} {c c' : Cluster dim numShards} {segMeta : SegmentMeta}

/-- The coordinators may list it. -/
def Known (env : Env) (c : Cluster dim numShards) (segMeta : SegmentMeta) : Prop :=
  segMeta.shardId < numShards ∧ c.Accurate env segMeta

theorem Sound.known (sound : c.Sound env) {seg : Segment dim} (member : seg ∈ c.writer.segments) :
    c.Known env seg.segMeta := ⟨sound.shard_lt member, sound.accurate member⟩

theorem Known.of_same (known : c.Known env segMeta) (same : c.SameEngines c') :
    c'.Known env segMeta := by
  obtain ⟨own, named, agrees⟩ := known
  refine ⟨own, ?_, ?_⟩
  · rw [same.storage]
    exact named
  · rw [same.segments]
    exact agrees

end Cluster

namespace WriterApp

/-! ## The service -/

/-- What waits for a coordinator.  A task that is done keeps its place. -/
inductive Task
  | inserting (pass : RegistrationPass) (written : LSMEngine.InsertResult) (inserted : ℕ)
  | registeringSelf
  | looping (pass : RegistrationPass)
  | finished

namespace Task

def metas : Task → List SegmentMeta
  | .inserting pass _ _ | .looping pass => pass.metas
  | .registeringSelf | .finished => []

def message? : Task → Option Message
  | .inserting pass _ _ | .looping pass => pass.message?
  | .registeringSelf | .finished => none

def isLoop : Task → Bool
  | .registeringSelf | .looping _ => true
  | .inserting _ _ _ | .finished => false

def Waits : Task → Prop
  | .inserting pass _ _ | .looping pass => pass.Waits
  | .registeringSelf => True
  | .finished => False

instance : (task : Task) → Decidable task.Waits
  | .inserting pass _ _ | .looping pass => inferInstanceAs (Decidable pass.Waits)
  | .registeringSelf => inferInstanceAs (Decidable True)
  | .finished => inferInstanceAs (Decidable False)

end Task

/-- The process, the coordinators' registry, and what has been sent to them. -/
structure Process (dim numShards : ℕ) where
  cluster : Cluster dim numShards
  tasks : List Task
  network : List Message

/-- What happens next: a request or a turn of the registration loop begins, a task has its next
request handled or goes on with the answer, the client gives up for it, or an old message is
handled once more. -/
inductive Happening (F : Type)
  | request (request : Request F)
  | segmentRegistrationLoop
  | advance (i : ℕ)
  | fail (i : ℕ)
  | handleAgain (k : ℕ)

variable {F : Type} {dim numShards : ℕ} [NeZero numShards]

section Handlers

variable (env : Env) (float32 : F → UInt32)

/-- The checks of `insert`. -/
def checked (dim : ℕ) (vectors : List (List F)) (ids : List ℤ) :
    Except (Answer Reply) (List (Row dim)) :=
  match InsertRequest.validate vectors ids with
  | none => .error .unprocessable
  | some req =>
      match int64Array req.ids, float32Array float32 req.vectors with
      | none, _ => .error .internalServerError
      | some _, none => .error (.httpError 400 s!"Expected vectors with shape [N, {dim}].")
      | some ids, some vectors =>
          match prepareRows dim ids vectors with
          | .error (.valueError detail) => .error (.httpError 400 detail)
          | .error _ => .error .internalServerError
          | .ok rows => .ok rows

namespace Process

/-- A handler, up to its answer or its first request to the coordinators. -/
def begin (p : Process dim numShards) :
    Request F → Except PyError (Option (Answer Reply) × Process dim numShards)
  | .insert vectors ids =>
      match checked float32 dim vectors ids with
      | .error answer => .ok (some answer, p)
      | .ok rows => do
          let written ← p.cluster.insertOnShards env rows
          .ok (none, { p with
            cluster := written.2
            tasks := p.tasks ++ [.inserting written.2.beginPass written.1 rows.length] })
  | .delete ids =>
      match DeleteRequest.validate ids with
      | none => .ok (some .unprocessable, p)
      | some req =>
          match int64Array req.ids with
          | none => .ok (some .internalServerError, p)
          | some ids => do
              let done ← p.cluster.delete env ids
              .ok (some (.ok (.deleted done.1)), { p with cluster := done.2 })
  | .health => do
      let h ← p.cluster.health
      .ok (some (.ok (.healthy h)), p)

/-- The loop sleeps between two turns. -/
def beginTurn (p : Process dim numShards) : Process dim numShards :=
  if p.tasks.any Task.isLoop then p else { p with tasks := p.tasks ++ [.registeringSelf] }

/-- The next step of a pass, with what comes after it. -/
def stepPass (p : Process dim numShards) (i : ℕ) (pass : RegistrationPass) (next : Task) :
    Process dim numShards where
  cluster := (p.cluster.passStep pass).1
  tasks := p.tasks.set i next
  network := p.network ++ pass.message?.toList

def advance (p : Process dim numShards) (i : ℕ) :
    Except PyError (Option (Answer Reply) × Process dim numShards) :=
  match p.tasks[i]? with
  | none | some .finished => .ok (none, p)
  | some .registeringSelf =>
      .ok (none, { p with tasks := p.tasks.set i (.looping p.cluster.beginPass) })
  | some (.looping pass) =>
      .ok (none, p.stepPass i pass ((p.cluster.passStep pass).2.elim .finished .looping))
  | some (.inserting pass written inserted) =>
      match (p.cluster.passStep pass).2 with
      | some next => .ok (none, p.stepPass i pass (.inserting next written inserted))
      | none => do
          let after := p.stepPass i pass .finished
          let h ← after.cluster.health
          .ok (some (.ok (.inserted ⟨written.lsn, inserted, written.segmentFlushed, h.ntotal,
            h.segments, h.walLsn⟩)), after)

/-- The client raises.  The loop goes on with its next turn. -/
def fail (p : Process dim numShards) (i : ℕ) : Option (Answer Reply) × Process dim numShards :=
  match p.tasks[i]? with
  | none => (none, p)
  | some task =>
      if task.Waits then
        (if task.isLoop then none else some .internalServerError, { p with
          tasks := p.tasks.set i .finished
          network := p.network ++ task.message?.toList })
      else (none, p)

def handleAgain (p : Process dim numShards) (k : ℕ) : Process dim numShards :=
  match p.network[k]? with
  | none => p
  | some message => { p with cluster := { p.cluster with
      registry := message.handle p.cluster.registry } }

/-- An event, and the answer that it gives if any. -/
def respond (p : Process dim numShards) :
    Happening F → Except PyError (Option (Answer Reply) × Process dim numShards)
  | .request asked => p.begin env float32 asked
  | .segmentRegistrationLoop => .ok (none, p.beginTurn)
  | .advance i => p.advance i
  | .fail i => .ok (p.fail i)
  | .handleAgain k => .ok (none, p.handleAgain k)

def step (p : Process dim numShards) (event : Happening F) :
    Except PyError (Process dim numShards) :=
  (p.respond env float32 event).map Prod.snd

end Process

end Handlers

/-! ## What the service is for -/

def Happening.call? (dim : ℕ) (float32 : F → UInt32) : Happening F → Option (Call dim)
  | .request asked => WriterApp.call? dim float32 asked
  | .segmentRegistrationLoop | .advance _ | .fail _ | .handleAgain _ => none

/-- The task that goes on. -/
def Happening.task? : Happening F → Option ℕ
  | .advance i | .fail i => some i
  | .request _ | .segmentRegistrationLoop | .handleAgain _ => none

/-- What an event answers, when the map is that of all calls so far.  An insert is answered when
its pass is over, and its count is that of the map at that time. -/
def Answered (float32 : F → UInt32) (calls : List (Call dim)) (p p' : Process dim numShards)
    (out : Option (Answer Reply)) : Happening F → Prop
  | .request (.insert vectors ids) =>
      match storable dim float32 vectors ids with
      | none => p' = p ∧ ∃ answer, out = some answer ∧ answer.Refused
      | some rows => out = none ∧ ∃ written,
          p'.tasks = p.tasks ++ [.inserting p'.cluster.beginPass written rows.length]
  | .request (.delete ids) =>
      match deletable ids with
      | none => p' = p ∧ ∃ answer, out = some answer ∧ answer.Refused
      | some ids => ∃ reply, out = some (.ok (.deleted reply)) ∧ reply.deleted = ids.length ∧
          reply.ntotal = ((table calls).eraseAll ids).length
  | .request .health =>
      p' = p ∧ ∃ h, out = some (.ok (.healthy h)) ∧ h.ntotal = (table calls).length
  | .advance i =>
      match p.tasks[i]? with
      | some (.inserting pass written inserted) =>
          (out = none ∧ ∃ next, next.left < pass.left ∧
            p'.tasks[i]? = some (.inserting next written inserted)) ∨
          ∃ reply, out = some (.ok (.inserted reply)) ∧ reply.lsn = written.lsn ∧
            reply.inserted = inserted ∧ reply.ntotal = (table calls).length
      | _ => out = none
  | .fail _ => ∀ answer ∈ out, answer.Refused
  | .segmentRegistrationLoop | .handleAgain _ => out = none

/-! ## What every event keeps -/

variable {env : Env} {settings : Settings} {float32 : F → UInt32} {calls : List (Call dim)}
  {p p' : Process dim numShards}

/-- The engines hold what came in, and every list of segments, on its way or at the
coordinators, is of segments that they have or had. -/
structure Attending (env : Env) (settings : Settings) (calls : List (Call dim))
    (p : Process dim numShards) : Prop where
  stored : Stored env settings calls p.cluster
  listed : ∀ segMeta ∈ p.cluster.registry.listSegments, p.cluster.Known env segMeta
  announced : ∀ task ∈ p.tasks, ∀ segMeta ∈ task.metas, p.cluster.Known env segMeta
  sent : ∀ message ∈ p.network, ∀ segMeta ∈ message.metas, p.cluster.Known env segMeta

namespace Attending

/-- What the engines have no part in. -/
theorem of_same (attending : Attending env settings calls p)
    (same : p.cluster.SameEngines p'.cluster)
    (listed : ∀ segMeta ∈ p'.cluster.registry.listSegments, p.cluster.Known env segMeta)
    (announced : ∀ task ∈ p'.tasks, ∀ segMeta ∈ task.metas, p.cluster.Known env segMeta)
    (sent : ∀ message ∈ p'.network, ∀ segMeta ∈ message.metas, p.cluster.Known env segMeta) :
    Attending env settings calls p' :=
  ⟨attending.stored.of_same same, fun segMeta here => (listed segMeta here).of_same same,
    fun task member segMeta here => (announced task member segMeta here).of_same same,
    fun message member segMeta here => (sent message member segMeta here).of_same same⟩

/-- A call on the engines, which may leave a new task. -/
theorem of_wrote (attending : Attending env settings calls p) {call : Call dim}
    {c : Cluster dim numShards} (stored : Stored env settings (calls ++ [call]) c)
    (wrote : Stored.Wrote env p.cluster c) {tasks : List Task}
    (new : ∀ task ∈ tasks, task.metas = []) :
    Attending env settings (calls ++ [call]) ⟨c, p.tasks ++ tasks, p.network⟩ := by
  have known : ∀ {segMeta}, p.cluster.Known env segMeta → c.Known env segMeta := fun known =>
    ⟨known.1, known.2.step attending.stored.sound stored.sound wrote.grows⟩
  refine ⟨stored, fun segMeta here => ?_, fun task member segMeta here => ?_,
    fun message member segMeta here => known (attending.sent message member segMeta here)⟩
  · rw [wrote.registry] at here
    exact known (attending.listed segMeta here)
  · rcases List.mem_append.mp member with old | added
    · exact known (attending.announced task old segMeta here)
    · rw [new task added] at here
      cases here

/-! ### Requests -/

theorem checked_error {vectors : List (List F)} {ids : List ℤ}
    (unstorable : storable dim float32 vectors ids = none) :
    ∃ answer, checked float32 dim vectors ids = .error answer ∧ answer.Refused := by
  by_cases filled : vectors ≠ [] ∧ ids ≠ []
  · simp only [checked, InsertRequest.validate, dif_pos filled]
    cases int64 : int64Array ids with
    | none => exact ⟨.internalServerError, rfl, trivial⟩
    | some array =>
        cases shaped : float32Array float32 vectors with
        | none => exact ⟨.httpError 400 _, rfl, trivial⟩
        | some arrays =>
            cases prepared : prepareRows dim array arrays with
            | ok rows =>
                rw [storable_of_prepareRows filled.1 shaped int64 prepared] at unstorable
                cases unstorable
            | error e =>
                obtain ⟨detail, rfl⟩ := prepareRows_error prepared
                exact ⟨.httpError 400 detail, by simp only [prepared], trivial⟩
  · exact ⟨.unprocessable, by simp only [checked, InsertRequest.validate, dif_neg filled], trivial⟩

theorem checked_ok {vectors : List (List F)} {ids : List ℤ} {rows : List (Row dim)}
    (stored : storable dim float32 vectors ids = some rows) :
    checked float32 dim vectors ids = .ok rows := by
  obtain ⟨shaped, array, -⟩ := checks_of_storable stored
  simp only [checked, InsertRequest.validate, dif_pos (filled_of_storable stored), array, shaped]
  rw [prepareRows_batch]

/-- A handler answers at once, or leaves a task for the pass. -/
theorem begin (attending : Attending env settings calls p)
    (atLeastTwo : 2 ≤ settings.segmentMergeThreshold) {request : Request F} (fits : request.Fits)
    (room : calls.length + 1 < 2 ^ 64) : ∃ out p', p.begin env float32 request = .ok (out, p') ∧
      Attending env settings (calls ++ (WriterApp.call? dim float32 request).toList) p' ∧
      Answered float32 calls p p' out (.request request) ∧ p.tasks <+: p'.tasks := by
  have same : Attending env settings (calls ++ []) p := by
    rw [List.append_nil]
    exact attending
  cases request with
  | insert vectors ids =>
      cases stored : storable dim float32 vectors ids with
      | none =>
          obtain ⟨answer, refused, text⟩ := checked_error stored
          refine ⟨some answer, p, ?_, ?_, ?_, List.prefix_rfl⟩
          · rw [Process.begin, refused]
          · rw [WriterApp.call?, stored]
            exact same
          · simpa only [Answered, stored] using ⟨trivial, answer, rfl, text⟩
      | some rows =>
          obtain ⟨-, int64, -⟩ := storable_eq_some_iff.mp stored
          obtain ⟨written, ran, after, wrote⟩ :=
            attending.stored.insert int64 (length_of_storable stored ▸ fits) room
          let p' : Process dim numShards :=
            ⟨written.2, p.tasks ++ [.inserting written.2.beginPass written.1 rows.length], p.network⟩
          refine ⟨none, p', ?_, ?_, ?_, List.prefix_append _ _⟩
          · simp only [Process.begin, checked_ok stored, ran, bind, Except.bind]
            rfl
          · rw [WriterApp.call?, stored]
            refine attending.of_wrote after wrote fun task member => ?_
            rw [List.mem_singleton.mp member]
            rfl
          · simp only [Answered, stored]
            exact ⟨trivial, written.1, rfl⟩
  | delete ids =>
      cases deleted : deletable ids with
      | none =>
          obtain ⟨answer, ran, refused⟩ : ∃ answer : Answer Reply,
              p.begin env float32 (.delete ids) = .ok (some answer, p) ∧ answer.Refused := by
            by_cases filled : ids ≠ []
            · refine ⟨.internalServerError, ?_, trivial⟩
              simp only [Process.begin, DeleteRequest.validate, dif_pos filled]
              rw [int64Array_of_undeletable deleted filled]
            · refine ⟨.unprocessable, ?_, trivial⟩
              simp only [Process.begin, DeleteRequest.validate, dif_neg filled]
          refine ⟨some answer, p, ran, ?_, ?_, List.prefix_rfl⟩
          · rw [WriterApp.call?, deleted]
            exact same
          · simpa only [Answered, deleted] using ⟨trivial, answer, rfl, refused⟩
      | some named =>
          obtain ⟨⟨filled, int64⟩, rfl⟩ := deletable_eq_some_iff.mp deleted
          obtain ⟨reply, c', ran, after, wrote, count, h, counted, total⟩ :=
            attending.stored.delete int64 fits room
          have size := after.total atLeastTwo counted
          have array : int64Array ids = some ids := if_pos int64
          refine ⟨some (.ok (.deleted reply)), { p with cluster := c' }, ?_, ?_, ?_,
            List.prefix_rfl⟩
          · simp only [Process.begin, DeleteRequest.validate, dif_pos filled, array, ran, bind,
              Except.bind]
          · rw [WriterApp.call?, deleted]
            have kept := attending.of_wrote after wrote (List.forall_mem_nil _)
            rwa [List.append_nil] at kept
          · simp only [Answered, deleted]
            exact ⟨reply, rfl, count, total.trans size⟩
  | health =>
      obtain ⟨h, counted, total⟩ := attending.stored.counted atLeastTwo
      refine ⟨some (.ok (.healthy h)), p, ?_, same, ⟨rfl, h, rfl, total⟩, List.prefix_rfl⟩
      simp only [Process.begin, counted, bind, Except.bind]

/-! ### Tasks -/

/-- A step of a pass sends nothing but segments of the engines. -/
theorem stepPass (attending : Attending env settings calls p) (i : ℕ) {pass : RegistrationPass}
    (next : Task) (known : ∀ segMeta ∈ pass.metas, p.cluster.Known env segMeta)
    (goesOn : ∀ segMeta ∈ next.metas, ∃ pass',
      (p.cluster.passStep pass).2 = some pass' ∧ segMeta ∈ pass'.metas) :
    Attending env settings calls (p.stepPass i pass next) := by
  refine attending.of_same (Cluster.sameEngines_passStep p.cluster pass)
    (fun segMeta here => ?_) (fun task member segMeta here => ?_)
    (fun message member segMeta here => ?_)
  · rw [Process.stepPass, RegistrationPass.registry_passStep] at here
    cases sent : pass.message? with
    | none =>
        rw [sent] at here
        exact attending.listed segMeta here
    | some message =>
        rw [sent] at here
        rcases Message.mem_listSegments_handle here with old | new
        · exact attending.listed segMeta old
        · exact known segMeta (RegistrationPass.metas_message? sent segMeta new)
  · rcases List.mem_or_eq_of_mem_set member with old | rfl
    · exact attending.announced task old segMeta here
    · obtain ⟨pass', after, listed⟩ := goesOn segMeta here
      rcases Cluster.metas_passStep after listed with before | ⟨seg, inEngine, rfl⟩
      · exact known segMeta before
      · exact attending.stored.sound.known inEngine
  · rcases List.mem_append.mp member with old | new
    · exact attending.sent message old segMeta here
    · exact known segMeta (RegistrationPass.metas_message? (Option.mem_toList.mp new) segMeta here)

variable (float32) in
theorem advance (attending : Attending env settings calls p)
    (atLeastTwo : 2 ≤ settings.segmentMergeThreshold) (i : ℕ) : ∃ out p',
      p.advance i = .ok (out, p') ∧ Attending env settings calls p' ∧
      Answered float32 calls p p' out (.advance i) ∧ ∀ j, j ≠ i → p'.tasks[j]? = p.tasks[j]? := by
  cases here : p.tasks[i]? with
  | none =>
      refine ⟨none, p, ?_, attending, ?_, fun _ _ => rfl⟩
      · simp only [Process.advance, here]
      · simp only [Answered, here]
  | some task =>
      obtain ⟨bound, at_i⟩ := List.getElem?_eq_some_iff.mp here
      have announced := attending.announced task (List.mem_of_getElem? here)
      have others : ∀ (next : Task) j, j ≠ i → (p.tasks.set i next)[j]? = p.tasks[j]? :=
        fun next j other => List.getElem?_set_ne other.symm
      cases task with
      | finished =>
          refine ⟨none, p, ?_, attending, ?_, fun _ _ => rfl⟩
          · simp only [Process.advance, here]
          · simp only [Answered, here]
      | registeringSelf =>
          let p' : Process dim numShards :=
            ⟨p.cluster, p.tasks.set i (.looping p.cluster.beginPass), p.network⟩
          refine ⟨none, p', ?_, attending.of_same ⟨rfl, rfl⟩ attending.listed
            (fun task member segMeta listed => ?_) attending.sent, ?_, others _⟩
          · simp only [Process.advance, here]
            rfl
          · rcases List.mem_or_eq_of_mem_set member with old | rfl
            · exact attending.announced task old segMeta listed
            · cases listed
          · simp only [Answered, here]
      | looping pass =>
          refine ⟨none, p.stepPass i pass ((p.cluster.passStep pass).2.elim .finished .looping), ?_,
            attending.stepPass i _ announced fun segMeta listed => ?_, ?_, others _⟩
          · simp only [Process.advance, here]
          · cases goesOn : (p.cluster.passStep pass).2 with
            | none =>
                rw [goesOn] at listed
                cases listed
            | some pass' =>
                rw [goesOn] at listed
                exact ⟨pass', rfl, listed⟩
          · simp only [Answered, here]
      | inserting pass written inserted =>
          cases goesOn : (p.cluster.passStep pass).2 with
          | some next =>
              refine ⟨none, _, ?_, attending.stepPass i (.inserting next written inserted) announced
                fun segMeta listed => ⟨next, goesOn, listed⟩, ?_, others _⟩
              · simp only [Process.advance, here, goesOn]
              · simp only [Answered, here]
                exact Or.inl ⟨trivial, next, RegistrationPass.left_passStep goesOn,
                  List.getElem?_set_self bound⟩
          | none =>
              have after := attending.stepPass i .finished announced nofun
              obtain ⟨h, counted, total⟩ := after.stored.counted atLeastTwo
              refine ⟨some (.ok (.inserted ⟨written.lsn, inserted, written.segmentFlushed, h.ntotal,
                h.segments, h.walLsn⟩)), _, ?_, after, ?_, others _⟩
              · simp only [Process.advance, here, goesOn, counted, bind, Except.bind]
              · simp only [Answered, here]
                exact Or.inr ⟨_, rfl, rfl, rfl, total⟩

theorem fail (attending : Attending env settings calls p) (i : ℕ) :
    Attending env settings calls (p.fail i).2 ∧ (∀ answer ∈ (p.fail i).1, answer.Refused) ∧
      ∀ j, j ≠ i → (p.fail i).2.tasks[j]? = p.tasks[j]? := by
  unfold Process.fail
  cases here : p.tasks[i]? with
  | none => exact ⟨attending, nofun, fun _ _ => rfl⟩
  | some task =>
      dsimp only
      split
      · refine ⟨attending.of_same ⟨rfl, rfl⟩ attending.listed (fun task member segMeta listed => ?_)
          (fun message member segMeta listed => ?_), ?_, fun j other => List.getElem?_set_ne other.symm⟩
        · rcases List.mem_or_eq_of_mem_set member with old | rfl
          · exact attending.announced task old segMeta listed
          · cases listed
        · rcases List.mem_append.mp member with old | new
          · exact attending.sent message old segMeta listed
          · refine attending.announced task (List.mem_of_getElem? here) segMeta ?_
            have sent := Option.mem_toList.mp new
            cases task with
            | inserting pass written inserted =>
                exact RegistrationPass.metas_message? sent segMeta listed
            | looping pass => exact RegistrationPass.metas_message? sent segMeta listed
            | registeringSelf => cases sent
            | finished => cases sent
        · intro answer same
          split at same
          · cases same
          · cases same
            trivial
      · exact ⟨attending, nofun, fun _ _ => rfl⟩

theorem handleAgain (attending : Attending env settings calls p) (k : ℕ) :
    Attending env settings calls (p.handleAgain k) := by
  unfold Process.handleAgain
  split
  · exact attending
  · next message here =>
      refine attending.of_same ⟨rfl, rfl⟩ (fun segMeta listed => ?_) attending.announced
        attending.sent
      rcases Message.mem_listSegments_handle listed with old | new
      · exact attending.listed segMeta old
      · exact attending.sent message (List.mem_of_getElem? here) segMeta new

theorem beginTurn (attending : Attending env settings calls p) :
    Attending env settings calls p.beginTurn ∧ p.tasks <+: p.beginTurn.tasks := by
  unfold Process.beginTurn
  split
  · exact ⟨attending, List.prefix_rfl⟩
  · refine ⟨attending.of_same ⟨rfl, rfl⟩ attending.listed (fun task member segMeta listed => ?_)
      attending.sent, List.prefix_append _ _⟩
    rcases List.mem_append.mp member with old | new
    · exact attending.announced task old segMeta listed
    · rw [List.mem_singleton.mp new] at listed
      cases listed

end Attending

/-! ## Runs -/

def Happening.Fits : Happening F → Prop
  | .request asked => asked.Fits
  | .segmentRegistrationLoop | .advance _ | .fail _ | .handleAgain _ => True

theorem getElem?_of_prefix {tasks tasks' : List Task} (kept : tasks <+: tasks') {j : ℕ}
    (bound : j < tasks.length) : tasks'[j]? = tasks[j]? := by
  obtain ⟨added, rfl⟩ := kept
  exact List.getElem?_append_left bound

variable (float32) in
/-- **The step lemma.**  An event is answered as the map says, and tasks that it is not about
stay where they are. -/
theorem Attending.respond (attending : Attending env settings calls p)
    (atLeastTwo : 2 ≤ settings.segmentMergeThreshold) {event : Happening F} (fits : event.Fits)
    (room : calls.length + 1 < 2 ^ 64) : ∃ out p',
      p.respond env float32 event = .ok (out, p') ∧
      Attending env settings (calls ++ (event.call? dim float32).toList) p' ∧
      Answered float32 calls p p' out event ∧
      ∀ j < p.tasks.length, event.task? ≠ some j → p'.tasks[j]? = p.tasks[j]? := by
  have noCall : calls ++ (none : Option (Call dim)).toList = calls := List.append_nil calls
  cases event with
  | request asked =>
      obtain ⟨out, p', ran, after, answered, kept⟩ := attending.begin atLeastTwo fits room
      exact ⟨out, p', ran, after, answered, fun j bound _ => getElem?_of_prefix kept bound⟩
  | segmentRegistrationLoop =>
      obtain ⟨after, kept⟩ := attending.beginTurn
      exact ⟨none, _, rfl, noCall.symm ▸ after, rfl, fun j bound _ => getElem?_of_prefix kept bound⟩
  | advance i =>
      obtain ⟨out, p', ran, after, answered, others⟩ := attending.advance float32 atLeastTwo i
      exact ⟨out, p', ran, noCall.symm ▸ after, answered, fun j _ other =>
        others j fun same => other (congrArg some same.symm)⟩
  | fail i =>
      obtain ⟨after, refused, others⟩ := attending.fail i
      exact ⟨_, _, rfl, noCall.symm ▸ after, refused, fun j _ other =>
        others j fun same => other (congrArg some same.symm)⟩
  | handleAgain k =>
      refine ⟨none, _, rfl, noCall.symm ▸ attending.handleAgain k, rfl, fun j _ _ => ?_⟩
      rw [Process.handleAgain]
      split <;> rfl

variable (float32) in
theorem Attending.step (attending : Attending env settings calls p)
    (atLeastTwo : 2 ≤ settings.segmentMergeThreshold) {event : Happening F} (fits : event.Fits)
    (room : calls.length + 1 < 2 ^ 64) : ∃ p', p.step env float32 event = .ok p' ∧
      Attending env settings (calls ++ (event.call? dim float32).toList) p' := by
  obtain ⟨out, p', ran, after, -⟩ := attending.respond float32 atLeastTwo fits room
  exact ⟨p', by rw [Process.step, ran]; rfl, after⟩

end WriterApp

end VecScale
