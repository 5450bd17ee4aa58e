import VecScale.Service.Requests
import VecScale.Writer.Client
import VecScale.Writer.Completes

/-!
# The writer service

`writer/app.py` puts the pipeline behind HTTP, next to the loop that registers its segments.
What the pipeline refuses is answered with 400.  A coordinator that fails makes an insert end
in an error of the server, though its rows are in the engines by then.

* `Attended.insert`, `Attended.delete`: one handler each;
* `writer_service_stores`: whatever is asked and whatever the coordinators do, the service is a
  map of all that could be stored, acknowledged or not.
-/

namespace VecScale

namespace WriterApp

inductive Request (F : Type)
  | insert (vectors : List (List F)) (ids : List ℤ)
  | delete (ids : List ℤ)
  | health

inductive Reply
  | inserted (reply : Cluster.InsertReply)
  | deleted (reply : Cluster.DeleteReply)
  | healthy (health : LSMEngine.Health)
  deriving DecidableEq

/-- What the process does next. -/
inductive Event (F : Type)
  | request (request : Request F)
  | segmentRegistrationLoop

variable {F : Type} {dim numShards : ℕ} [NeZero numShards]

section Handlers

variable (client : CoordinatorClient) (net : Network) (env : Env) (float32 : F → UInt32)

/-- What the pipeline refuses it refuses before it writes. -/
def insert (req : InsertRequest F) (w : Linked dim numShards) :
    Except PyError (Answer Reply × Linked dim numShards) :=
  match int64Array req.ids, float32Array float32 req.vectors with
  | none, _ => .ok (.internalServerError, w)
  | some _, none => .ok (.httpError 400 s!"Expected vectors with shape [N, {dim}].", w)
  | some ids, some vectors =>
      match w.insert client net env ids vectors with
      | .error (.valueError detail) => .ok (.httpError 400 detail, w)
      | .error e => .error e
      | .ok (.error (.valueError detail), w) => .ok (.httpError 400 detail, w)
      | .ok (.error _, w) => .ok (.internalServerError, w)
      | .ok (.ok reply, w) => .ok (.ok (.inserted reply), w)

def delete (req : DeleteRequest) (w : Linked dim numShards) :
    Except PyError (Answer Reply × Linked dim numShards) :=
  match int64Array req.ids with
  | none => .ok (.internalServerError, w)
  | some ids => do
      let done ← w.delete env ids
      .ok (.ok (.deleted done.1), done.2)

omit [NeZero numShards] in
def health (w : Linked dim numShards) : Except PyError (Answer Reply × Linked dim numShards) := do
  let h ← w.cluster.health
  .ok (.ok (.healthy h), w)

def handle (w : Linked dim numShards) :
    Request F → Except PyError (Answer Reply × Linked dim numShards)
  | .insert vectors ids =>
      match InsertRequest.validate vectors ids with
      | none => .ok (.unprocessable, w)
      | some req => insert client net env float32 req w
  | .delete ids =>
      match DeleteRequest.validate ids with
      | none => .ok (.unprocessable, w)
      | some req => delete env req w
  | .health => health w

def step (w : Linked dim numShards) : Event F → Except PyError (Linked dim numShards)
  | .request request => (handle client net env float32 w request).map Prod.snd
  | .segmentRegistrationLoop => .ok (w.registrationTurn client net).2

end Handlers

/-! ## What the service is for -/

/-- What a request asks of the pipeline, if anything. -/
def call? (dim : ℕ) (float32 : F → UInt32) : Request F → Option (Call dim)
  | .insert vectors ids => (storable dim float32 vectors ids).map .insert
  | .delete ids => (deletable ids).map .delete
  | .health => none

def Event.call? (dim : ℕ) (float32 : F → UInt32) : Event F → Option (Call dim)
  | .request asked => WriterApp.call? dim float32 asked
  | .segmentRegistrationLoop => none

/-- The map after some calls. -/
def table (calls : List (Call dim)) : Dict ℤ (Vec dim) := liveRows (calls.map Call.op)

/-- The answers of a map behind coordinators that may fail. -/
def Answers (client : CoordinatorClient) (net : Network) (float32 : F → UInt32)
    (calls : List (Call dim)) (w w' : Linked dim numShards) (answer : Answer Reply) :
    Request F → Prop
  | .insert vectors ids =>
      match storable dim float32 vectors ids with
      | none => answer.Refused ∧ w' = w
      | some rows => (answer.Refused ∧ ¬ client.Reached net) ∨ ∃ reply,
          answer = .ok (.inserted reply) ∧ reply.inserted = rows.length ∧
            reply.ntotal = ((table calls).setAll rows).length
  | .delete ids =>
      match deletable ids with
      | none => answer.Refused ∧ w' = w
      | some ids => ∃ reply, answer = .ok (.deleted reply) ∧ reply.deleted = ids.length ∧
          reply.ntotal = ((table calls).eraseAll ids).length
  | .health => w' = w ∧ ∃ h, answer = .ok (.healthy h) ∧ h.ntotal = (table calls).length

/-! ## The engines -/

/-- The engines hold what the calls stored, whatever became of their registration. -/
structure Stored (env : Env) (settings : Settings) (calls : List (Call dim))
    (c : Cluster dim numShards) : Prop where
  int64 : ∀ call ∈ calls, call.Int64
  undisturbed : ∃ boot u, Cluster.boot env settings = .ok boot ∧
    runAll (Cluster.call env) boot calls = .ok u ∧ u.Sound env ∧ c.SameEngines u

namespace Stored

variable {env : Env} {settings : Settings} {calls : List (Call dim)} {c c' : Cluster dim numShards}

theorem sound (stored : Stored env settings calls c) : c.Sound env := by
  obtain ⟨boot, u, -, -, sound, same⟩ := stored.undisturbed
  exact same.symm.sound sound

theorem clock (stored : Stored env settings calls c) (shard : Fin numShards) :
    c.clock shard ≤ calls.length := by
  obtain ⟨boot, u, booted, ran, -, same⟩ := stored.undisturbed
  have behind := Cluster.clock_of_run booted stored.int64 ran shard
  rwa [Cluster.clock, same.engines] at behind

theorem counted (stored : Stored env settings calls c)
    (atLeastTwo : 2 ≤ settings.segmentMergeThreshold) :
    ∃ h, c.health = .ok h ∧ h.ntotal = (table calls).length := by
  obtain ⟨boot, u, booted, ran, -, same⟩ := stored.undisturbed
  obtain ⟨h, counted, total⟩ :=
    (Cluster.mirrors_of_run atLeastTwo stored.int64 booted ran).ntotal
  rw [← same.under_eq] at counted
  exact ⟨h, counted, total⟩

theorem total {call : Call dim} (stored : Stored env settings (calls ++ [call]) c)
    (atLeastTwo : 2 ≤ settings.segmentMergeThreshold) {h : LSMEngine.Health}
    (counted : c.health = .ok h) : h.ntotal = (call.op.applyTo (table calls)).length := by
  obtain ⟨h', counted', size⟩ := stored.counted atLeastTwo
  rw [counted, Except.ok.injEq] at counted'
  subst counted'
  rwa [table, List.map_append, List.map_singleton, liveRows_concat] at size

theorem of_same (stored : Stored env settings calls c) (same : c.SameEngines c') :
    Stored env settings calls c' := by
  obtain ⟨boot, u, booted, ran, sound, before⟩ := stored.undisturbed
  exact ⟨stored.int64, boot, u, booted, ran, sound, same.symm.trans before⟩

/-- One more call, as a writer with the same engines runs it. -/
theorem concat (stored : Stored env settings calls c) {call : Call dim} (int64 : call.Int64)
    (ran : ∀ u, c.SameEngines u → ∃ u', Cluster.call env u call = .ok u' ∧ c'.SameEngines u') :
    Stored env settings (calls ++ [call]) c' := by
  obtain ⟨boot, u, booted, before, sound, same⟩ := stored.undisturbed
  obtain ⟨u', here, after⟩ := ran u same
  refine ⟨fun request member => ?_, boot, u', booted,
    (runAll_append before [call]).trans (runAll_cons here []), (sound.call int64 here).1, after⟩
  rcases List.mem_append.mp member with old | new
  · exact stored.int64 request old
  · rwa [List.mem_singleton.mp new]

/-- What a call on the engines leaves alone. -/
structure Wrote (env : Env) (c c' : Cluster dim numShards) : Prop where
  grows : SharedStorage.Grows env.uuid c.storage c'.storage
  registry : c'.registry = c.registry
  remembered : c'.writer.registeredSegments = c.writer.registeredSegments

/-- A batch that fits is written. -/
theorem insert (stored : Stored env settings calls c) {rows : List (Row dim)}
    (int64 : ∀ row ∈ rows, IsInt64 row.1) (few : rows.length < 2 ^ 32)
    (room : calls.length + 1 < 2 ^ 64) : ∃ written, c.insertOnShards env rows = .ok written ∧
      Stored env settings (calls ++ [.insert rows]) written.2 ∧ Wrote env c written.2 := by
  have callInt64 : (Call.insert rows).Int64 := fun x named => by
    obtain ⟨row, member, rfl⟩ := List.mem_map.mp named
    exact int64 row member
  obtain ⟨written, ran, soundWritten⟩ := stored.sound.insertOnShards_completes int64 few
    fun shard => (Nat.add_le_add_right (stored.clock shard) 1).trans_lt room
  obtain ⟨-, grows, registry, remembered⟩ := stored.sound.runParts
    (fun part member x named => callInt64 x (mem_ids_of_part member named).1)
    (Cluster.runParts_of_insertOnShards ran)
  exact ⟨written, ran, stored.concat callInt64 fun u same => ⟨_, same.insert ran soundWritten⟩,
    grows, registry, remembered⟩

/-- A batch of ids that fits is deleted. -/
theorem delete (stored : Stored env settings calls c) {ids : List ℤ}
    (int64 : ∀ x ∈ ids, IsInt64 x) (few : ids.length < 2 ^ 32)
    (room : calls.length + 1 < 2 ^ 64) : ∃ reply c', c.delete env ids = .ok (reply, c') ∧
      Stored env settings (calls ++ [.delete ids]) c' ∧ Wrote env c c' ∧
      reply.deleted = ids.length ∧ ∃ h, c'.health = .ok h ∧ reply.ntotal = h.ntotal := by
  obtain ⟨written, ranShards, soundWritten⟩ := stored.sound.deleteOnShards_completes int64 few
    fun shard => (Nat.add_le_add_right (stored.clock shard) 1).trans_lt room
  obtain ⟨h, counted⟩ := soundWritten.health
  have ran : c.delete env ids = .ok (⟨ids.length, written.1, h.ntotal, h.walLsn⟩, written.2) := by
    simp only [Cluster.delete, ranShards, counted, bind, Except.bind]
  have callInt64 : (Call.delete ids : Call dim).Int64 := int64
  have called : Cluster.call env c (.delete ids) = .ok written.2 := by
    rw [Cluster.call, ran]
    rfl
  obtain ⟨after, ranParts, finished⟩ := parts_of_call called
  obtain ⟨-, grows, registry, remembered⟩ := stored.sound.runParts
    (fun part member x named => callInt64 x (mem_ids_of_part member named).1) ranParts
  rw [show after = written.2 from finished.symm] at grows registry remembered
  exact ⟨_, written.2, ran, stored.concat int64 fun u same =>
    ⟨_, same.delete ran, Cluster.sameEngines_under _ _⟩, ⟨grows, registry, remembered⟩, rfl, h,
    counted, rfl⟩

end Stored

/-! ## The pipeline -/

/-- A service after the calls on its pipeline, next to a writer whose coordinators never fail. -/
structure Attended (env : Env) (settings : Settings) (calls : List (Call dim))
    (w : Linked dim numShards) : Prop where
  int64 : ∀ call ∈ calls, call.Int64
  undisturbed : ∃ boot u, Cluster.boot env settings = .ok boot ∧
    runAll (Cluster.call env) boot calls = .ok u ∧ Linked.Beside env w u

namespace Attended

variable {client : CoordinatorClient} {net : Network} {env : Env} {settings : Settings}
  {calls : List (Call dim)} {w w' : Linked dim numShards}

theorem stored (attended : Attended env settings calls w) :
    Stored env settings calls w.cluster := by
  obtain ⟨boot, u, booted, ran, beside⟩ := attended.undisturbed
  exact ⟨attended.int64, boot, u, booted, ran, beside.sound, beside.engines⟩

theorem serve (attended : Attended env settings calls w) {turn : WriterTurn dim}
    {outcome : Except PyError Unit} (int64 : ∀ call ∈ turn.call?, call.Int64)
    (ran : w.serve client net env turn = .ok (outcome, w')) :
    Attended env settings (calls ++ turn.call?.toList) w' := by
  obtain ⟨boot, u, booted, before, beside⟩ := attended.undisturbed
  obtain ⟨u', after, besideAfter, -⟩ := beside.serve int64 ran
  refine ⟨fun call member => ?_, boot, u', booted, (runAll_append before _).trans after,
    besideAfter⟩
  rcases List.mem_append.mp member with old | new
  · exact attended.int64 call old
  · exact int64 call (Option.mem_toList.mp new)

variable (client net) in
/-- The pipeline stores a batch that fits, and raises only what the client raises. -/
theorem pipeline_insert (attended : Attended env settings calls w) {rows : List (Row dim)}
    (int64 : ∀ row ∈ rows, IsInt64 row.1) (few : rows.length < 2 ^ 32)
    (room : calls.length + 1 < 2 ^ 64) : ∃ outcome w',
      w.insert client net env (batchIds rows) (batchVectors rows) = .ok (outcome, w') ∧
      Attended env settings (calls ++ [.insert rows]) w' ∧
      (client.Reached net → outcome.isOk) ∧ ∀ reply, outcome = .ok reply →
        reply.inserted = rows.length ∧
          ∃ h, w'.cluster.health = .ok h ∧ reply.ntotal = h.ntotal := by
  obtain ⟨written, ranShards, storedWritten, wrote⟩ := attended.stored.insert int64 few room
  obtain ⟨boot, u, booted, ranBefore, beside⟩ := attended.undisturbed
  have unharmed := beside.unharmed.step attended.stored.sound storedWritten.sound wrote.grows
    wrote.registry wrote.remembered
  have passed := Linked.passed_register client net (w := ⟨written.2, w.sent⟩)
    storedWritten.sound unharmed
  obtain ⟨outcome, w', ran, reached, replied⟩ : ∃ outcome w',
      w.insert client net env (batchIds rows) (batchVectors rows) = .ok (outcome, w') ∧
      (client.Reached net → outcome.isOk) ∧ ∀ reply, outcome = .ok reply →
        reply.inserted = rows.length ∧
          ∃ h, w'.cluster.health = .ok h ∧ reply.ntotal = h.ntotal := by
    rcases pass : Linked.registerUnregisteredSegments client net ⟨written.2, w.sent⟩ with
      ⟨e | ⟨⟩, w'⟩
    · refine ⟨.error e, w', ?_, fun reached => ?_, nofun⟩
      · simp only [Linked.insert, prepareRows_batch, ranShards, pass, bind, Except.bind]
      · obtain ⟨w'', answered⟩ := Linked.register_answered client net reached ⟨written.2, w.sent⟩
        rw [pass] at answered
        cases answered
    · rw [pass] at passed
      obtain ⟨h, counted⟩ := (passed.engines.sound storedWritten.sound).health
      refine ⟨.ok ⟨written.1.lsn, rows.length, written.1.segmentFlushed, h.ntotal, h.segments,
        h.walLsn⟩, w', ?_, fun _ => rfl, fun reply same => ?_⟩
      · have size : (batchIds rows).length = rows.length := List.length_map _
        simp only [Linked.insert, prepareRows_batch, ranShards, pass, counted, size, bind,
          Except.bind]
      · cases same
        exact ⟨rfl, h, counted, rfl⟩
  refine ⟨outcome, w', ran, ?_, reached, replied⟩
  have served : w.serve client net env (.insert rows) = .ok (outcome.map fun _ => (), w') := by
    rw [Linked.serve, ran]
    rfl
  refine attended.serve (fun call same => ?_) served
  cases same
  exact storedWritten.int64 _ (List.mem_append_right _ (List.mem_singleton_self _))

variable (client net) in
include client net in
theorem pipeline_delete (attended : Attended env settings calls w) {ids : List ℤ}
    (int64 : ∀ x ∈ ids, IsInt64 x) (few : ids.length < 2 ^ 32)
    (room : calls.length + 1 < 2 ^ 64) : ∃ reply w', w.delete env ids = .ok (reply, w') ∧
      Attended env settings (calls ++ [.delete ids]) w' ∧ reply.deleted = ids.length ∧
      ∃ h, w'.cluster.health = .ok h ∧ reply.ntotal = h.ntotal := by
  obtain ⟨reply, c', deleted, -, -, count, h, counted, total⟩ :=
    attended.stored.delete int64 few room
  have ran : w.delete env ids = .ok (reply, ⟨c', w.sent⟩) := by
    simp only [Linked.delete, deleted, bind, Except.bind]
  refine ⟨_, _, ran, ?_, count, h, counted, total⟩
  have served : w.serve client net env (.delete ids) = .ok (.ok (), ⟨c', w.sent⟩) := by
    rw [Linked.serve, ran]
    rfl
  refine attended.serve (fun call same => ?_) served
  cases same
  exact int64

end Attended

/-! ## The handlers -/

section Requests

variable (client : CoordinatorClient) (net : Network) {env : Env} {settings : Settings}
  {float32 : F → UInt32} {calls : List (Call dim)} {w : Linked dim numShards}
  {vectors : List (List F)} {ids : List ℤ}

variable (env w) in
/-- What cannot be stored is refused, and nothing is sent. -/
theorem insert_refused (unstorable : storable dim float32 vectors ids = none) :
    ∃ answer, handle client net env float32 w (.insert vectors ids) = .ok (answer, w) ∧
      answer.Refused := by
  by_cases filled : vectors ≠ [] ∧ ids ≠ []
  · simp only [handle, InsertRequest.validate, dif_pos filled, insert]
    cases int64 : int64Array ids with
    | none => exact ⟨.internalServerError, rfl, trivial⟩
    | some array =>
        cases shaped : float32Array float32 vectors with
        | none => exact ⟨.httpError 400 _, rfl, trivial⟩
        | some arrays =>
            cases checked : prepareRows dim array arrays with
            | ok rows =>
                rw [storable_of_prepareRows filled.1 shaped int64 checked] at unstorable
                cases unstorable
            | error e =>
                obtain ⟨detail, rfl⟩ := prepareRows_error checked
                refine ⟨.httpError 400 detail, ?_, trivial⟩
                simp only [Linked.insert, checked, bind, Except.bind]
  · exact ⟨.unprocessable, by simp only [handle, InsertRequest.validate, dif_neg filled], trivial⟩

/-- A storable batch goes into the engines, whatever the coordinators do. -/
theorem Attended.insert (attended : Attended env settings calls w)
    (atLeastTwo : 2 ≤ settings.segmentMergeThreshold) {rows : List (Row dim)}
    (stored : storable dim float32 vectors ids = some rows) (few : ids.length < 2 ^ 32)
    (room : calls.length + 1 < 2 ^ 64) : ∃ answer w',
      handle client net env float32 w (.insert vectors ids) = .ok (answer, w') ∧
      Attended env settings (calls ++ [.insert rows]) w' ∧
      ((answer.Refused ∧ ¬ client.Reached net) ∨ ∃ reply, answer = .ok (.inserted reply) ∧
        reply.inserted = rows.length ∧ reply.ntotal = ((table calls).setAll rows).length) := by
  obtain ⟨-, int64, -⟩ := storable_eq_some_iff.mp stored
  obtain ⟨shaped, array, -⟩ := checks_of_storable stored
  obtain ⟨outcome, w', ran, after, reached, replied⟩ :=
    attended.pipeline_insert client net int64 (length_of_storable stored ▸ few) room
  have body := filled_of_storable stored
  cases outcome with
  | error e =>
      have unreached : ¬ client.Reached net := fun answers => Bool.noConfusion (reached answers)
      have refused : ∃ answer : Answer Reply, answer.Refused ∧
          handle client net env float32 w (.insert vectors ids) = .ok (answer, w') := by
        cases e with
        | valueError detail =>
            refine ⟨.httpError 400 detail, trivial, ?_⟩
            simp only [handle, InsertRequest.validate, dif_pos body, WriterApp.insert, shaped,
              array, ran]
        | runtimeError detail | fileNotFoundError detail | structError | memoryError |
            overflowError =>
            refine ⟨.internalServerError, trivial, ?_⟩
            simp only [handle, InsertRequest.validate, dif_pos body, WriterApp.insert, shaped,
              array, ran]
      obtain ⟨answer, refused, handled⟩ := refused
      exact ⟨answer, w', handled, after, Or.inl ⟨refused, unreached⟩⟩
  | ok reply =>
      obtain ⟨inserted, h, counted, total⟩ := replied reply rfl
      have size := after.stored.total atLeastTwo counted
      refine ⟨.ok (.inserted reply), w', ?_, after, Or.inr ⟨reply, rfl, inserted, total.trans size⟩⟩
      simp only [handle, InsertRequest.validate, dif_pos body, WriterApp.insert, shaped, array, ran]

variable (env float32 w) in
theorem delete_refused (undeletable : deletable ids = none) :
    ∃ answer, handle client net env float32 w (.delete ids) = .ok (answer, w) ∧
      answer.Refused := by
  by_cases filled : ids ≠ []
  · refine ⟨.internalServerError, ?_, trivial⟩
    simp only [handle, DeleteRequest.validate, dif_pos filled, delete]
    rw [int64Array_of_undeletable undeletable filled]
  · exact ⟨.unprocessable, by simp only [handle, DeleteRequest.validate, dif_neg filled], trivial⟩

variable (float32) in
theorem Attended.delete (attended : Attended env settings calls w)
    (atLeastTwo : 2 ≤ settings.segmentMergeThreshold) {named : List ℤ}
    (deleted : deletable ids = some named) (few : ids.length < 2 ^ 32)
    (room : calls.length + 1 < 2 ^ 64) : ∃ reply w',
      handle client net env float32 w (.delete ids) = .ok (.ok (.deleted reply), w') ∧
      Attended env settings (calls ++ [.delete named]) w' ∧
      reply.deleted = named.length ∧ reply.ntotal = ((table calls).eraseAll named).length := by
  obtain ⟨⟨filled, int64⟩, rfl⟩ := deletable_eq_some_iff.mp deleted
  obtain ⟨reply, w', ran, after, count, h, counted, total⟩ :=
    attended.pipeline_delete client net int64 few room
  refine ⟨reply, w', ?_, after, count, total.trans (after.stored.total atLeastTwo counted)⟩
  have array : int64Array ids = some ids := if_pos int64
  simp only [handle, DeleteRequest.validate, dif_pos filled, WriterApp.delete, array, ran, bind,
    Except.bind]

end Requests

/-! ## Runs -/

/-- The number of rows of a batch has four bytes in the log. -/
def Request.Fits : Request F → Prop
  | .insert _ ids | .delete ids => ids.length < 2 ^ 32
  | .health => True

def Event.Fits : Event F → Prop
  | .request asked => asked.Fits
  | .segmentRegistrationLoop => True

section Runs

variable (client : CoordinatorClient) (net : Network) (float32 : F → UInt32) {env : Env}
  {settings : Settings} {calls : List (Call dim)} {w : Linked dim numShards}

/-- **The step lemma.**  Every request is answered as the map says. -/
theorem Attended.handle (attended : Attended env settings calls w)
    (atLeastTwo : 2 ≤ settings.segmentMergeThreshold) {request : Request F} (fits : request.Fits)
    (room : calls.length + 1 < 2 ^ 64) : ∃ answer w',
      WriterApp.handle client net env float32 w request = .ok (answer, w') ∧
      Attended env settings (calls ++ (call? dim float32 request).toList) w' ∧
      Answers client net float32 calls w w' answer request := by
  have same : Attended env settings (calls ++ []) w := by
    rw [List.append_nil]
    exact attended
  cases request with
  | insert vectors ids =>
      cases stored : storable dim float32 vectors ids with
      | none =>
          obtain ⟨answer, ran, refused⟩ := insert_refused client net env w stored
          refine ⟨answer, w, ran, ?_, ?_⟩
          · rw [call?, stored]
            exact same
          · simpa only [Answers, stored] using ⟨refused, trivial⟩
      | some rows =>
          obtain ⟨answer, w', ran, after, answers⟩ :=
            attended.insert client net atLeastTwo stored fits room
          refine ⟨answer, w', ran, ?_, ?_⟩
          · rw [call?, stored]
            exact after
          · simpa only [Answers, stored] using answers
  | delete ids =>
      cases deleted : deletable ids with
      | none =>
          obtain ⟨answer, ran, refused⟩ := delete_refused client net env float32 w deleted
          refine ⟨answer, w, ran, ?_, ?_⟩
          · rw [call?, deleted]
            exact same
          · simpa only [Answers, deleted] using ⟨refused, trivial⟩
      | some named =>
          obtain ⟨reply, w', ran, after, count, total⟩ :=
            attended.delete client net float32 atLeastTwo deleted fits room
          refine ⟨_, w', ran, ?_, ?_⟩
          · rw [call?, deleted]
            exact after
          · simp only [Answers, deleted]
            exact ⟨reply, rfl, count, total⟩
  | health =>
      obtain ⟨h, counted, total⟩ := attended.stored.counted atLeastTwo
      refine ⟨.ok (.healthy h), w, ?_, same, rfl, h, rfl, total⟩
      simp only [WriterApp.handle, health, counted, bind, Except.bind]

theorem Attended.step (attended : Attended env settings calls w)
    (atLeastTwo : 2 ≤ settings.segmentMergeThreshold) {event : Event F} (fits : event.Fits)
    (room : calls.length + 1 < 2 ^ 64) : ∃ w',
      WriterApp.step client net env float32 w event = .ok w' ∧
      Attended env settings (calls ++ (event.call? dim float32).toList) w' := by
  cases event with
  | request request =>
      obtain ⟨answer, w', handled, after, -⟩ :=
        attended.handle client net float32 atLeastTwo fits room
      exact ⟨w', by rw [WriterApp.step, handled]; rfl, after⟩
  | segmentRegistrationLoop =>
      have served : w.serve client net env .segmentRegistrationLoop =
          .ok ((w.registrationTurn client net).1, (w.registrationTurn client net).2) := rfl
      exact ⟨_, rfl, attended.serve (fun _ same => by cases same) served⟩

end Runs

end WriterApp

end VecScale
