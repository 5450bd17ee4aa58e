import VecScale.Reader.FilteredSearch
import VecScale.Service.Requests
import VecScale.Storage.Counters

/-!
# The single-node service

`node.py` puts one engine behind HTTP.  Its handlers check a body, pass its arrays to the engine
and answer with what the engine returned and with what it then counts.  An engine call never
gives the event loop up, so requests are served one after another.  A restart stops the engine
as the service shuts down and starts another one on its files.

* `Serving.insert`, `Serving.search`, `Serving.health`, `Serving.restart`: one handler each;
* `single_node_refines`: whatever is asked, the service is a map with a counter of its batches.
-/

namespace VecScale

inductive NodeReply (D : Type)
  | inserted (inserted : ℕ) (segmentFlushed : Bool) (ntotal lsn : ℕ)
  | found (ids : List ℤ) (distances : List D)
  | healthy (health : LSMEngine.Health)

/-- A request, or a shutdown with the next startup. -/
inductive NodeCall (F : Type)
  | insert (vectors : List (List F)) (ids : List ℤ)
  | search (query : List F) (topK nprobe : Option ℤ)
  | health
  | restart

variable {F D : Type} [LinearOrder D] {dim : ℕ}

namespace SingleNode

section Handlers

variable (env : Env) (config : EngineConfig) (faiss : Faiss dim D) (float32 : F → UInt32)

omit [LinearOrder D] in
def insert (req : InsertRequest F) (n : Node dim) :
    Except PyError (Answer (NodeReply D) × Node dim) :=
  match float32Array float32 req.vectors, int64Array req.ids with
  | none, _ => .ok (.httpError 400 s!"Expected vectors with shape [N, {dim}].", n)
  | some _, none => .ok (.internalServerError, n)
  | some vectors, some ids =>
      if width vectors ≠ dim then
        .ok (.httpError 400 s!"Expected vectors with shape [N, {dim}], got {width vectors}.", n)
      else if ids.length ≠ vectors.length then .ok (.httpError 400 "len(ids) != len(vectors)", n)
      else do
        let result ← LSMEngine.insert env ids vectors n
        let health ← LSMEngine.health result.2
        .ok (.ok (.inserted ids.length result.1.segmentFlushed health.ntotal result.1.lsn), result.2)

def search (req : SearchRequest F) (n : Node dim) :
    Except PyError (Answer (NodeReply D) × Node dim) :=
  if req.query.length ≠ dim then
    .ok (.httpError 400 s!"Expected query with {dim} numbers, got {req.query.length}.", n)
  else do
    let found ← LSMEngine.search faiss (req.query.map float32) req.topK req.nprobe none n
    .ok (.ok (.found (found.1.map Prod.fst) (found.1.map Prod.snd)), found.2)

omit [LinearOrder D] in
def health (n : Node dim) : Except PyError (Answer (NodeReply D) × Node dim) := do
  let engineHealth ← LSMEngine.health n
  .ok (.ok (.healthy engineHealth), n)

omit [LinearOrder D] in
/-- Both halves of `lifespan`; a started service logs its health. -/
def restart (n : Node dim) : Except PyError (Answer (NodeReply D) × Node dim) := do
  let started ← n.run env (.restart config.mergeThreshold)
  health started

def handle (n : Node dim) : NodeCall F → Except PyError (Answer (NodeReply D) × Node dim)
  | .insert vectors ids =>
      match InsertRequest.validate vectors ids with
      | none => .ok (.unprocessable, n)
      | some req => insert env float32 req n
  | .search query topK nprobe =>
      match SearchRequest.validate query topK nprobe with
      | none => .ok (.unprocessable, n)
      | some req => search faiss float32 req n
  | .health => health n
  | .restart => restart env config n

def step (n : Node dim) (call : NodeCall F) : Except PyError (Node dim) :=
  (handle env config faiss float32 n call).map Prod.snd

end Handlers

/-! ## What the service is for -/

/-- What a request does to the engine. -/
def op? (dim : ℕ) (config : EngineConfig) (float32 : F → UInt32) : NodeCall F → Option (Op dim)
  | .insert vectors ids => (storable dim float32 vectors ids).map .insert
  | .restart => some (.restart config.mergeThreshold)
  | .search _ _ _ | .health => none

/-- A search of a map: rows of the map, each once, in ascending distance.  They are the nearest
of all, negative ids aside, if the indexes are exact and either `topK` has room for every row
there is, or no row is out of date and no id negative. -/
structure Found (faiss : Faiss dim D) (table : Dict ℤ (Vec dim)) (n : Node dim) (q : Vec dim)
    (topK nprobe : ℕ) (hits : List (ℤ × D)) : Prop where
  few : hits.length ≤ topK
  nodup : (hits.map Prod.fst).Nodup
  ascending : hits.Pairwise fun a b => a.2 ≤ b.2
  stored : ∀ hit ∈ hits, ∃ v, table.get? hit.1 = some v ∧ hit.2 = faiss.l2 q v
  nearest : (∀ seg ∈ n.engine.segments, seg.index.ExactAt faiss q nprobe) →
    n.engine.storedRows.length ≤ topK ∨
      (n.engine.storedRows.length ≤ table.length ∧ ∀ x ∈ table.keys, 0 ≤ x) →
    NearestById topK (faiss.measure q (table.entries.filter fun row => 0 ≤ row.1)) hits

/-- The answers of a map, and of a counter of its batches. -/
def Answers (faiss : Faiss dim D) (float32 : F → UInt32) (ops : List (Op dim)) (n n' : Node dim)
    (answer : Answer (NodeReply D)) : NodeCall F → Prop
  | .insert vectors ids =>
      match storable dim float32 vectors ids with
      | none => answer.Refused ∧ n' = n
      | some rows => ∃ flushed, answer = .ok (.inserted rows.length flushed
          ((liveRows ops).setAll rows).length (writes ops + 1)) ∧
          (flushed = true ↔ n'.engine.memtable.ntotal = 0)
  | .search query topK nprobe =>
      n' = n ∧ match askable dim float32 query topK nprobe with
      | none => answer.Refused
      | some (q, topK, nprobe) => ∃ hits,
          answer = .ok (.found (hits.map Prod.fst) (hits.map Prod.snd)) ∧
            Found faiss (liveRows ops) n q topK nprobe hits
  | .health =>
      n' = n ∧ answer = .ok (.healthy ⟨(liveRows ops).length, n.engine.segments.length,
        n.engine.memtable.ntotal, writes ops, 0⟩)
  | .restart =>
      answer = .ok (.healthy ⟨(liveRows ops).length, n'.engine.segments.length, 0, writes ops, 0⟩)

/-! ## The handlers -/

/-- A service after the calls `ops` on its engine. -/
structure Serving (env : Env) (config : EngineConfig) (ops : List (Op dim)) (n : Node dim) :
    Prop where
  ran : Node.history env config ops = .ok n
  int64 : ∀ op ∈ ops, op.Int64
  keeps : ∀ op ∈ ops, op.Keeps config.mergeThreshold
  idle : n.engine.snapshots = SnapshotManager.init

namespace Serving

variable {env : Env} {config : EngineConfig} {faiss : Faiss dim D} {float32 : F → UInt32}
  {ops : List (Op dim)} {n n' : Node dim}

theorem concat (serving : Serving env config ops n) {op : Op dim} (int64 : op.Int64)
    (keeps : op.Keeps config.mergeThreshold) (ran : n.run env op = .ok n') :
    Serving env config (ops ++ [op]) n' := by
  obtain ⟨old, recent, layout⟩ := layout_of_history serving.int64 serving.ran
  obtain ⟨boot, booted, before⟩ := ok_of_bind serving.ran
  refine ⟨?_, ?_, ?_, idle_of_run layout int64 serving.idle ran⟩
  · rw [Node.history, booted]
    exact (runAll_append before [op]).trans (runAll_cons ran [])
  · simpa [or_imp, forall_and] using ⟨serving.int64, int64⟩
  · simpa [or_imp, forall_and] using ⟨serving.keeps, keeps⟩

theorem boot (env : Env) (config : EngineConfig) :
    ∃ boot : Node dim, Node.boot env config = .ok boot ∧ Serving env config [] boot := by
  obtain ⟨boot, booted, fresh⟩ := boot_fresh dim env config
  refine ⟨boot, booted, ⟨?_, nofun, nofun, ?_⟩⟩
  · rw [Node.history, booted]
    rfl
  · obtain ⟨segments, -, done⟩ := ok_of_bind booted
    cases done
    rfl

theorem engineHealth (serving : Serving env config ops n) (atLeastTwo : 2 ≤ config.mergeThreshold) :
    LSMEngine.health n = .ok ⟨(liveRows ops).length, n.engine.segments.length,
      n.engine.memtable.ntotal, writes ops, 0⟩ := by
  obtain ⟨old, recent, layout, mirrors⟩ :=
    lookup_of_history atLeastTwo serving.int64 serving.keeps serving.ran
  obtain ⟨live, total, iff⟩ := ntotal_of_layout layout
  have ids : live = (liveRows ops).keys.toFinset := by
    ext x
    rw [iff, mirrors.shown, List.mem_toFinset, Dict.mem_keys_iff, Option.ne_none_iff_exists']
  have size : live.card = (liveRows ops).length := by
    rw [ids, List.toFinset_card_of_nodup (Dict.keys_nodup _), Dict.keys, List.length_map,
      Dict.length]
  rw [LSMEngine.health, total, size, lastLsn_of_history serving.int64 serving.ran, serving.idle]
  rfl

omit [LinearOrder D] in
/-- An engine lists the row of an id that its last write left. -/
theorem lookupAt_eq (serving : Serving env config ops n) (atLeastTwo : 2 ≤ config.mergeThreshold) :
    n.engine.started = true ∧ SegmentsWf env n.engine n.storage ∧
      ∀ x, n.engine.lookupAt n.engine.wal.lastLsn x = (liveRows ops).get? x := by
  obtain ⟨old, recent, layout, mirrors⟩ :=
    lookup_of_history atLeastTwo serving.int64 serving.keeps serving.ran
  refine ⟨layout.started, layout.segments, fun x => ?_⟩
  rw [lookupAt_lastLsn layout.segments layout.settled, mirrors.shown]

end Serving

/-! ### Inserts -/

section Insert

variable {env : Env} {config : EngineConfig} {faiss : Faiss dim D} {float32 : F → UInt32}
  {ops : List (Op dim)} {n : Node dim} {vectors : List (List F)} {ids : List ℤ}

variable (env config faiss n) in
/-- What cannot be stored is refused, and leaves the engine alone. -/
theorem insert_refused (unstorable : storable dim float32 vectors ids = none) :
    ∃ answer, handle env config faiss float32 n (.insert vectors ids) = .ok (answer, n) ∧
      answer.Refused := by
  by_cases filled : vectors ≠ [] ∧ ids ≠ []
  · simp only [handle, InsertRequest.validate, dif_pos filled, insert]
    cases shaped : float32Array float32 vectors with
    | none => exact ⟨_, rfl, trivial⟩
    | some arrays =>
        cases int64 : int64Array ids with
        | none => exact ⟨_, rfl, trivial⟩
        | some array =>
            by_cases wide : width arrays = dim
            · by_cases same : array.length = arrays.length
              · exact absurd unstorable (storable_of_checks filled.1 shaped int64 wide same)
              · exact ⟨.httpError 400 "len(ids) != len(vectors)",
                  (if_neg (not_not.mpr wide)).trans (if_pos same), trivial⟩
            · exact ⟨.httpError 400 _, if_pos wide, trivial⟩
  · exact ⟨.unprocessable, by simp only [handle, InsertRequest.validate, dif_neg filled], trivial⟩

variable (faiss) in
/-- What can be stored is stored. -/
theorem Serving.insert (serving : Serving env config ops n)
    (atLeastTwo : 2 ≤ config.mergeThreshold) {rows : List (Row dim)}
    (stored : storable dim float32 vectors ids = some rows) (few : ids.length < 2 ^ 32)
    (room : writes ops + 1 < 2 ^ 64) : ∃ flushed n',
      handle env config faiss float32 n (.insert vectors ids) = .ok (.ok (.inserted rows.length
        flushed ((liveRows ops).setAll rows).length (writes ops + 1)), n') ∧
      Serving env config (ops ++ [.insert rows]) n' ∧
      (flushed = true ↔ n'.engine.memtable.ntotal = 0) := by
  obtain ⟨old, recent, layout⟩ := layout_of_history serving.int64 serving.ran
  obtain ⟨filled, int64, -⟩ := storable_eq_some_iff.mp stored
  obtain ⟨shaped, array, wide, same⟩ := checks_of_storable stored
  have clock := lastLsn_of_history serving.int64 serving.ran
  have packs : (Op.insert rows).Packs n := by
    rw [Op.Packs, clock]
    exact ⟨⟨room, Nat.lt_of_sub_eq_succ rfl, length_of_storable stored ▸ few⟩, int64⟩
  obtain ⟨flushed, n', ran, emptied⟩ := LSMEngine.insert_of_packs layout filled packs
  have after : Serving env config (ops ++ [.insert rows]) n' :=
    serving.concat int64 trivial (by rw [Node.run, ran]; rfl)
  refine ⟨flushed, n', ?_, after, emptied⟩
  have total := after.engineHealth atLeastTwo
  rw [liveRows_concat] at total
  have size : (batchIds rows).length = rows.length := List.length_map _
  simp only [handle, InsertRequest.validate, dif_pos (filled_of_storable stored),
    SingleNode.insert, shaped, array, wide, ← same, size, ne_eq, not_true_eq_false, if_false, ran,
    total, clock, bind, Except.bind, Op.applyTo]

end Insert

/-! ### Searches -/

section Search

variable {env : Env} {config : EngineConfig} {faiss : Faiss dim D} {float32 : F → UInt32}
  {ops : List (Op dim)} {n : Node dim} {query : List F} {topK nprobe : Option ℤ}

variable (env config faiss n) in
theorem search_refused (unaskable : askable dim float32 query topK nprobe = none) :
    ∃ answer, handle env config faiss float32 n (.search query topK nprobe) = .ok (answer, n) ∧
      answer.Refused := by
  by_cases valid : query ≠ [] ∧ 1 ≤ topK.getD 10 ∧ 1 ≤ nprobe.getD 32
  · refine ⟨.httpError 400 s!"Expected query with {dim} numbers, got {query.length}.", ?_, trivial⟩
    simp only [handle, SearchRequest.validate, dif_pos valid, SingleNode.search]
    rw [if_pos]
    intro shape
    rw [askable, dif_pos ((List.length_map _).trans shape), if_pos valid] at unaskable
    cases unaskable
  · refine ⟨.unprocessable, ?_, trivial⟩
    simp only [handle, SearchRequest.validate, dif_neg valid]

/-- What survives the filters of a search is the map. -/
theorem Serving.plan (serving : Serving env config ops n)
    (atLeastTwo : 2 ≤ config.mergeThreshold) :
    ∃ plan, LSMEngine.searchPlan n n.engine.wal.lastLsn = .ok plan ∧
      PlanAt n n.engine.wal.lastLsn plan ∧ plan.survivors.Perm (liveRows ops).entries := by
  obtain ⟨-, wf, shown⟩ := serving.lookupAt_eq atLeastTwo
  obtain ⟨plan, planned, atLast⟩ := searchPlan_of_wf wf n.engine.wal.lastLsn
  refine ⟨plan, planned, atLast, (List.perm_ext_iff_of_nodup
    (List.Nodup.of_map _ (atLast.nodup_survivors wf))
    (List.Nodup.of_map _ (liveRows ops).nodup)).mpr ?_⟩
  rintro ⟨x, v⟩
  rw [atLast.mem_survivors_iff wf, shown, Dict.mem_entries_iff]

variable (faiss) in
theorem Serving.search (serving : Serving env config ops n)
    (atLeastTwo : 2 ≤ config.mergeThreshold) {q : Vec dim} {k probes : ℕ}
    (asked : askable dim float32 query topK nprobe = some (q, k, probes)) : ∃ hits,
      handle env config faiss float32 n (.search query topK nprobe) =
        .ok (.ok (.found (hits.map Prod.fst) (hits.map Prod.snd)), n) ∧
      Found faiss (liveRows ops) n q k probes hits := by
  obtain ⟨started, wf, -⟩ := serving.lookupAt_eq atLeastTwo
  obtain ⟨plan, planned, atLast, perm⟩ := serving.plan atLeastTwo
  obtain ⟨after, searched⟩ := LSMEngine.search_eq faiss n q k probes none started
  have found : LSMEngine.search faiss q.toList k probes none n =
      .ok (mergeResults (LSMEngine.searchResults faiss plan n.engine.memtable q k probes
        n.engine.wal.lastLsn) k plan.deletedIds, after) := by
    have planned' : LSMEngine.searchPlan n (LSMEngine.snapshotOf n none) = .ok plan := planned
    rw [searched, planned']
    rfl
  have retrieved := LSMEngine.mem_survivors_of_retrieved faiss planned q k probes
  have near : NearestById k (LSMEngine.retrieved faiss n plan q k probes n.engine.wal.lastLsn)
      (mergeResults (LSMEngine.searchResults faiss plan n.engine.memtable q k probes
        n.engine.wal.lastLsn) k plan.deletedIds) := nearestById_mergeResults _ k _
  rw [LSMEngine.idle_of_search serving.idle found] at found
  refine ⟨_, ?_, near.length.trans_le (min_le_left _ _), near.nodup, near.ascending,
    fun hit selected => ?_, fun exact room => ?_⟩
  · obtain ⟨array, valid, rfl, rfl⟩ := askable_ok asked
    have width : query.length = dim := by rw [← q.toList_length, array, List.length_map]
    simp only [handle, SearchRequest.validate, dif_pos valid, SingleNode.search, width, ne_eq,
      not_true_eq_false, if_false, ← array, found, bind, Except.bind]
  · have survives := retrieved hit (near.least hit selected).1
    obtain ⟨v, row, measured⟩ := (Faiss.mem_measure faiss).mp survives
    exact ⟨v, Dict.mem_entries_iff.mp (perm.mem_iff.mp row), measured⟩
  · rcases room with room | ⟨fresh, natural⟩
    · refine (NearestById.congr fun hit => ?_).mp near
      rw [LSMEngine.mem_retrieved_iff faiss atLast exact room planned, Faiss.mem_measure,
        Faiss.mem_measure]
      simp only [perm.mem_iff, List.mem_filter, decide_eq_true_eq, and_comm, exists_and_left,
        and_assoc]
    · have answers : ∀ row ∈ (liveRows ops).entries, 0 ≤ row.1 := fun row live =>
        natural row.1 (List.mem_map_of_mem live)
      have all : (liveRows ops).entries.filter (fun row => 0 ≤ row.1) = (liveRows ops).entries :=
        List.filter_eq_self.mpr fun row live => decide_eq_true (answers row live)
      have visible : ∀ seg ∈ plan.segments, seg.index.ExactAt faiss q probes := by
        intro seg member
        rw [atLast.segments] at member
        exact exact seg (mem_visibleSegments.mp member).1
      have whole := (near.iff_covered retrieved).mpr <|
        LSMEngine.covered_of_length_le faiss wf atLast planned visible
          (fun row survives => answers row (perm.mem_iff.mp survives)) (perm.length_eq ▸ fresh) k
      rw [all]
      refine (NearestById.congr fun hit => ?_).mp whole
      rw [Faiss.mem_measure, Faiss.mem_measure]
      simp only [perm.mem_iff]

end Search

/-! ## Runs -/

/-- The number of rows of a batch has four bytes in the log. -/
def Fits : NodeCall F → Prop
  | .insert _ ids => ids.length < 2 ^ 32
  | .search _ _ _ | .health | .restart => True

instance : (call : NodeCall F) → Decidable (Fits call)
  | .insert _ ids => inferInstanceAs (Decidable (ids.length < 2 ^ 32))
  | .search _ _ _ | .health | .restart => inferInstanceAs (Decidable True)

section Runs

variable {env : Env} {config : EngineConfig} (faiss : Faiss dim D) (float32 : F → UInt32)
  {ops : List (Op dim)} {n : Node dim}

/-- A memtable that a restart has filled holds markers only. -/
theorem Serving.restart (serving : Serving env config ops n)
    (atLeastTwo : 2 ≤ config.mergeThreshold) : ∃ n',
      handle env config faiss float32 n .restart = .ok (.ok (.healthy
        ⟨(liveRows ops).length, n'.engine.segments.length, 0, writes ops, 0⟩), n') ∧
      Serving env config (ops ++ [.restart config.mergeThreshold]) n' := by
  obtain ⟨old, recent, layout⟩ := layout_of_history serving.int64 serving.ran
  have packs : (Op.restart config.mergeThreshold : Op dim).Packs n := trivial
  obtain ⟨n', ran⟩ := run_of_packs layout packs
  have after : Serving env config (ops ++ [.restart config.mergeThreshold]) n' :=
    serving.concat trivial rfl ran
  have empty : n'.engine.memtable.ntotal = 0 := by
    cases run_cases layout packs.int64 ran with
    | restart flushed stopped restarted =>
        have dead : n'.engine.memtable.Dead := fun x e entry =>
          stopped.markers x e ((restarted.memtable x).symm.trans entry)
        exact dead.ntotal_eq
  have counted := after.engineHealth atLeastTwo
  rw [liveRows_concat, writes_append, empty] at counted
  refine ⟨n', ?_, after⟩
  simp only [handle, SingleNode.restart, ran, SingleNode.health, counted, bind, Except.bind]
  rfl

/-- **The step lemma.**  Every request is answered as the map and the counter say. -/
theorem Serving.handle (serving : Serving env config ops n)
    (atLeastTwo : 2 ≤ config.mergeThreshold) {call : NodeCall F} (fits : Fits call)
    (room : writes ops + 1 < 2 ^ 64) : ∃ answer n',
      SingleNode.handle env config faiss float32 n call = .ok (answer, n') ∧
      Serving env config (ops ++ (op? dim config float32 call).toList) n' ∧
      Answers faiss float32 ops n n' answer call := by
  have same : Serving env config (ops ++ []) n := by
    rw [List.append_nil]
    exact serving
  cases call with
  | insert vectors ids =>
      cases stored : storable dim float32 vectors ids with
      | none =>
          obtain ⟨answer, ran, refused⟩ := insert_refused env config faiss n stored
          refine ⟨answer, n, ran, ?_, ?_⟩
          · rw [op?, stored]
            exact same
          · simpa only [Answers, stored] using ⟨refused, trivial⟩
      | some rows =>
          obtain ⟨flushed, n', ran, after, emptied⟩ :=
            serving.insert faiss atLeastTwo stored fits room
          refine ⟨_, n', ran, ?_, ?_⟩
          · rw [op?, stored]
            exact after
          · simp only [Answers, stored]
            exact ⟨flushed, rfl, emptied⟩
  | search query topK nprobe =>
      cases asked : askable dim float32 query topK nprobe with
      | none =>
          obtain ⟨answer, ran, refused⟩ := search_refused env config faiss n asked
          refine ⟨answer, n, ran, same, ?_⟩
          simpa only [Answers, asked] using ⟨trivial, refused⟩
      | some found =>
          rcases found with ⟨q, k, probes⟩
          obtain ⟨hits, ran, found⟩ := serving.search faiss atLeastTwo asked
          refine ⟨_, n, ran, same, ?_⟩
          simp only [Answers, asked]
          exact ⟨trivial, hits, rfl, found⟩
  | health =>
      refine ⟨_, n, ?_, same, rfl, rfl⟩
      simp only [SingleNode.handle, health, serving.engineHealth atLeastTwo, bind, Except.bind]
  | restart =>
      obtain ⟨n', ran, after⟩ := serving.restart faiss float32 atLeastTwo
      exact ⟨_, n', ran, after, rfl⟩

theorem Serving.step (serving : Serving env config ops n)
    (atLeastTwo : 2 ≤ config.mergeThreshold) {call : NodeCall F} (fits : Fits call)
    (room : ops.length + 1 < 2 ^ 64) : ∃ n', step env config faiss float32 n call = .ok n' ∧
      Serving env config (ops ++ (op? dim config float32 call).toList) n' := by
  have written := writes_le_length ops
  obtain ⟨answer, n', ran, after, -⟩ :=
    serving.handle faiss float32 atLeastTwo fits (by omega)
  exact ⟨n', by rw [SingleNode.step, ran]; rfl, after⟩

end Runs

end SingleNode

end VecScale
