import VecScale.Reader.FailedRefresh
import VecScale.Reader.Reach
import VecScale.Service.Requests

/-!
# The reader service

`reader/app.py` puts a segment cache behind HTTP, next to a loop that refreshes it with the
segments that the coordinators list.  Whatever fails on the way, the loop logs it and tries
again, and the service goes on with what the cache has.

* `SegmentCache.HoldsNewest.mem_keys_iff`: the segments of a cache by rank;
* `Reading.refreshTurn`, `Reading.handle`: what every event keeps;
* `reader_service_answers`: every answer, in terms of the last list that the reader worked on.
-/

namespace VecScale

/-- The settings of a reader. -/
structure ReaderConfig where
  readerShardId : ℕ
  readerMaxSegmentsInMemory : ℕ
  readerLoadAllShards : Bool

structure ReaderSearchRequest (F : Type) extends SearchRequest F where
  snapshotId : ℕ

def ReaderSearchRequest.validate {F : Type} (query : List F) (topK nprobe snapshotId : Option ℤ) :
    Option (ReaderSearchRequest F) := do
  let req ← SearchRequest.validate query topK nprobe
  let snapshotId ← (snapshotId.getD 0).toNat?
  some ⟨req, snapshotId⟩

/-- The cache, and whether a refresh has ever returned. -/
structure ReaderApp (dim : ℕ) where
  cache : SegmentCache dim
  firstRefreshComplete : Bool

variable {dim : ℕ}

namespace ReaderApp

structure HealthPayload where
  shardId : ℕ
  loadAllShards : Bool
  segmentsLoaded : ℕ
  ntotal : ℕ
  segmentIds : List String
  deriving DecidableEq

inductive Reply (D : Type)
  | found (ids : List ℤ) (distances : List D)
  | healthy (payload : HealthPayload)
  | ready (payload : HealthPayload)
  deriving DecidableEq

inductive Request (F : Type)
  | search (query : List F) (topK nprobe snapshotId : Option ℤ)
  | health
  | ready

/-- What the process does next, with the storage and the coordinators as it finds them. -/
inductive Event (F : Type) (dim : ℕ)
  | request (st : SharedStorage dim) (request : Request F)
  | refreshLoop (st : SharedStorage dim) (registered : Except PyError Unit)
      (listed : Except PyError (List SegmentMeta))

/-- What is seen of an event from outside: an answer, or the log. -/
inductive Outcome (D : Type)
  | answered (answer : Answer (Reply D))
  | refreshed (result : Except PyError Unit)

variable {F D : Type} [LinearOrder D]

section Handlers

variable (config : ReaderConfig) (faiss : Faiss dim D) (float32 : F → UInt32)

def search (req : ReaderSearchRequest F) (app : ReaderApp dim) :
    Answer (Reply D) × ReaderApp dim :=
  if shape : (req.query.map float32).length = dim then
    let found := app.cache.searchAll faiss ⟨_, shape⟩ req.topK req.nprobe req.snapshotId
    (.ok (.found (found.1.map Prod.fst) (found.1.map Prod.snd)), { app with cache := found.2 })
  else (.httpError 400 s!"Expected query with shape [{dim}].", app)

/-- `_health_payload`; the segments remember their ids. -/
def healthPayload (st : SharedStorage dim) (app : ReaderApp dim) :
    Except PyError HealthPayload × ReaderApp dim :=
  let counted := app.cache.ntotal st
  (counted.1.map fun ntotal => ⟨config.readerShardId, config.readerLoadAllShards,
    app.cache.segments.length, ntotal, app.cache.segments.keys⟩, { app with cache := counted.2 })

omit [LinearOrder D] in
/-- An answer that is made of the payload. -/
def report (reply : HealthPayload → Reply D) (st : SharedStorage dim) (app : ReaderApp dim) :
    Answer (Reply D) × ReaderApp dim :=
  let payload := healthPayload config st app
  (match payload.1 with
    | .error _ => .internalServerError
    | .ok payload => .ok (reply payload), payload.2)

omit [LinearOrder D] in
def health (st : SharedStorage dim) (app : ReaderApp dim) : Answer (Reply D) × ReaderApp dim :=
  report config .healthy st app

omit [LinearOrder D] in
def ready (st : SharedStorage dim) (app : ReaderApp dim) : Answer (Reply D) × ReaderApp dim :=
  if app.firstRefreshComplete then report config .ready st app
  else (.httpError 503 "Initial segment refresh is not complete.", app)

def handle (st : SharedStorage dim) (app : ReaderApp dim) :
    Request F → Answer (Reply D) × ReaderApp dim
  | .search query topK nprobe snapshotId =>
      match ReaderSearchRequest.validate query topK nprobe snapshotId with
      | none => (.unprocessable, app)
      | some req => search faiss float32 req app
  | .health => health config st app
  | .ready => ready config st app

end Handlers

/-- `_refresh_once`, after the coordinators were asked. -/
def refreshOnce (st : SharedStorage dim) (listed : Except PyError (List SegmentMeta))
    (app : ReaderApp dim) : Except PyError Unit × ReaderApp dim :=
  match listed with
  | .error e => (.error e, app)
  | .ok allSegments =>
      let refreshed := app.cache.refresh st allSegments
      match refreshed.1 with
      | .error e => (.error e, { app with cache := refreshed.2 })
      | .ok () => (.ok (), ⟨refreshed.2, true⟩)

/-- One turn of `_refresh_loop`. -/
def refreshTurn (st : SharedStorage dim) (registered : Except PyError Unit)
    (listed : Except PyError (List SegmentMeta)) (app : ReaderApp dim) :
    Except PyError Unit × ReaderApp dim :=
  match registered with
  | .error e => (.error e, app)
  | .ok () => refreshOnce st listed app

/-- `lifespan`, up to where it yields; a started service logs its health. -/
def start (config : ReaderConfig) (st st' : SharedStorage dim) (registered : Except PyError Unit)
    (listed : Except PyError (List SegmentMeta)) : Except PyError (ReaderApp dim) := do
  let cache ← SegmentCache.new config.readerShardId config.readerMaxSegmentsInMemory
    config.readerLoadAllShards
  let refreshed := refreshTurn st registered listed ⟨cache, false⟩
  refreshed.1
  let payload := healthPayload config st' refreshed.2
  let _ ← payload.1
  .ok payload.2

section Steps

variable (config : ReaderConfig) (faiss : Faiss dim D) (float32 : F → UInt32)

def respond (app : ReaderApp dim) : Event F dim → Outcome D × ReaderApp dim
  | .request st request =>
      let answer := handle config faiss float32 st app request
      (.answered answer.1, answer.2)
  | .refreshLoop st registered listed =>
      let refreshed := refreshTurn st registered listed app
      (.refreshed refreshed.1, refreshed.2)

def step (app : ReaderApp dim) (event : Event F dim) : Except PyError (ReaderApp dim) :=
  .ok (respond config faiss float32 app event).2

end Steps

end ReaderApp

/-! ## The newest segments -/

instance (library : Library dim) : DecidableRel library.Older :=
  fun _ _ => inferInstanceAs (Decidable (_ < _))

namespace ReaderConfig

/-- A reader with these settings serves the segments of a shard. -/
def Serves (config : ReaderConfig) (shardId : ℕ) : Prop :=
  config.readerLoadAllShards = true ∨ shardId = config.readerShardId

instance (config : ReaderConfig) (shardId : ℕ) : Decidable (config.Serves shardId) :=
  inferInstanceAs (Decidable (_ ∨ _))

/-- The names on a list that concern the reader. -/
def names (config : ReaderConfig) (allSegments : List SegmentMeta) : Finset String :=
  ((allSegments.filter (config.Serves ·.shardId)).map SegmentMeta.segmentId).toFinset

/-- Those of them that fewer than the limit are younger than. -/
def newest (config : ReaderConfig) (library : Library dim) (allSegments : List SegmentMeta) :
    Finset String :=
  (config.names allSegments).filter fun name =>
    ((config.names allSegments).filter (library.Older name)).card <
      config.readerMaxSegmentsInMemory

end ReaderConfig

/-- The newest segments by rank: a name is cached iff fewer than the limit are younger. -/
theorem SegmentCache.HoldsNewest.mem_keys_iff {library : Library dim} {cache : SegmentCache dim}
    {visible : Dict String SegmentMeta} (holds : cache.HoldsNewest library visible) {name : String} :
    name ∈ cache.segments.keys ↔ name ∈ visible.keys ∧
      (visible.keys.toFinset.filter (library.Older name)).card < cache.maxSegmentsInMemory := by
  have sizes : cache.segments.keys.toFinset.card = min visible.length cache.maxSegmentsInMemory := by
    rw [List.toFinset_card_of_nodup (Dict.keys_nodup _), ← holds.length, Dict.keys, List.length_map]
    rfl
  have inside : cache.segments.keys.toFinset ⊆ visible.keys.toFinset := fun other member =>
    List.mem_toFinset.mpr (holds.listed other (List.mem_toFinset.mp member))
  constructor
  · intro cached
    refine ⟨holds.listed name cached, ?_⟩
    have younger : visible.keys.toFinset.filter (library.Older name) ⊂
        cache.segments.keys.toFinset := by
      refine Finset.ssubset_iff.mpr ⟨name, fun member => ?_, ?_⟩
      · exact lt_irrefl _ (Finset.mem_filter.mp member).2
      · intro other member
        rw [List.mem_toFinset]
        rcases Finset.mem_insert.mp member with rfl | member
        · exact cached
        · rw [Finset.mem_filter, List.mem_toFinset] at member
          by_contra evicted
          exact lt_asymm member.2 (holds.newest other member.1 evicted name cached)
    exact (Finset.card_lt_card younger).trans_le (sizes.trans_le (min_le_right _ _))
  · rintro ⟨listed, few⟩
    by_contra evicted
    have older : cache.segments.keys.toFinset ⊆
        visible.keys.toFinset.filter (library.Older name) := fun other member =>
      Finset.mem_filter.mpr ⟨inside member,
        holds.newest name listed evicted other (List.mem_toFinset.mp member)⟩
    have room : visible.length ≤ cache.maxSegmentsInMemory := by
      have bound := (Finset.card_le_card older).trans_lt few
      rw [sizes] at bound
      omega
    have all : cache.segments.keys.toFinset = visible.keys.toFinset := by
      refine Finset.eq_of_subset_of_card_le inside ?_
      rw [sizes, min_eq_left room, List.toFinset_card_of_nodup (Dict.keys_nodup _), Dict.keys,
        List.length_map]
      rfl
    exact evicted (List.mem_toFinset.mp (all ▸ List.mem_toFinset.mpr listed))

/-! ## What the service is for -/

namespace ReaderApp

/-- The last list that a reader worked on, with the tombstones of that moment, and whether it
came to the end. -/
structure LastRefresh where
  tombstones : Finset ℤ
  allSegments : List SegmentMeta
  finished : Bool

variable {F D : Type} [LinearOrder D]

omit [LinearOrder D] in
/-- A turn of the loop that got a list. -/
def LastRefresh.note (last : LastRefresh) : Event F dim → Outcome D → LastRefresh
  | .refreshLoop st (.ok ()) (.ok allSegments), .refreshed result =>
      ⟨st.tombstonesJson.load, allSegments, result.isOk⟩
  | _, _ => last

section Spec

variable (config : ReaderConfig) (faiss : Faiss dim D) (float32 : F → UInt32)

/-- The last refresh after some events, as seen from outside. -/
def LastRefresh.after (last : LastRefresh) : ReaderApp dim → List (Event F dim) → LastRefresh
  | _, [] => last
  | app, event :: events =>
      let responded := respond config faiss float32 app event
      (last.note event responded.1).after responded.2 events

variable (library : Library dim)

/-- A hit that a search may list whatever became of the last refresh. -/
def Listable (last : LastRefresh) (q : Vec dim) (topK nprobe s : ℕ) (hit : ℤ × D) : Prop :=
  hit.1 ∉ last.tombstones ∧ ∃ name ∈ config.names last.allSegments,
    (library name).snapshotId ≤ s ∧ hit ∈ (library name).search faiss q topK nprobe

/-- A hit that a search chooses from when the last refresh is finished: one of the newest
segments has it, and none of them has a younger version. -/
def Candidate (last : LastRefresh) (q : Vec dim) (topK nprobe s : ℕ) (hit : ℤ × D) : Prop :=
  hit.1 ∉ last.tombstones ∧ ∃ name ∈ config.newest library last.allSegments,
    (library name).snapshotId ≤ s ∧ hit ∈ (library name).search faiss q topK nprobe ∧
    ∀ other ∈ config.newest library last.allSegments, hit.1 ∈ batchIds (library other).rows →
      (library other).snapshotId ≤ (library name).snapshotId

/-- What a report says of some cached segments. -/
def payloadOf (last : LastRefresh) (ids : List String) : HealthPayload :=
  ⟨config.readerShardId, config.readerLoadAllShards, ids.length,
    ((ids.flatMap fun name => batchIds (library name).rows).toFinset \ last.tombstones).card, ids⟩

omit [LinearOrder D] in
/-- A report counts what is cached, or fails since ids cannot be read. -/
def Reports (last : LastRefresh) (st : SharedStorage dim) (reply : HealthPayload → Reply D)
    (answer : Answer (Reply D)) : Prop :=
  (answer = .internalServerError ∧ ∃ name ∈ config.names last.allSegments,
    (st.files (library name).path).idsNpy = none) ∨
  ∃ ids : List String, answer = .ok (reply (payloadOf config library last ids)) ∧ ids.Nodup ∧
    (∀ name ∈ ids, name ∈ config.names last.allSegments) ∧
    (last.finished = true → ids.toFinset = config.newest library last.allSegments)

/-- What comes of an event when this was the last refresh. -/
def Answers (last : LastRefresh) (app app' : ReaderApp dim) (out : Outcome D) : Event F dim → Prop
  | .request _ (.search query topK nprobe snapshotId) =>
      match askable dim float32 query topK nprobe, (snapshotId.getD 0).toNat? with
      | some (q, topK, nprobe), some s => ∃ rows hits,
          out = .answered (.ok (.found (hits.map Prod.fst) (hits.map Prod.snd))) ∧
          NearestById topK rows hits ∧
          (∀ hit ∈ rows, Listable config faiss library last q topK nprobe s hit) ∧
          (last.finished = true → ∀ hit, hit ∈ rows ↔
            Candidate config faiss library last q topK nprobe s hit)
      | _, _ => app' = app ∧ ∃ answer, out = .answered answer ∧ answer.Refused
  | .request st .health =>
      ∃ answer, out = .answered answer ∧ Reports config library last st .healthy answer
  | .request st .ready =>
      ∃ answer, out = .answered answer ∧ Reports config library last st .ready answer
  | .refreshLoop st registered listed => ∃ result, out = .refreshed result ∧
      (registered ≠ .ok () ∨ listed.isOk = false → app' = app) ∧
      ∀ allSegments, registered = .ok () → listed = .ok allSegments →
        (∀ segMeta ∈ allSegments, config.Serves segMeta.shardId →
          (st.files segMeta.path).Whole) → result = .ok ()

end Spec

/-! ## What every event keeps -/

omit [LinearOrder D] in
/-- Segments are immutable, and what is registered of them is what is stored. -/
def Event.Told (library : Library dim) : Event F dim → Prop
  | .request st _ => library.Intact st
  | .refreshLoop st _ listed => library.Intact st ∧ ∀ allSegments, listed = .ok allSegments →
      library.Lists allSegments

/-- A refresh that has loaded its list does not raise while it builds the index. -/
def Builds (app : ReaderApp dim) : Event F dim → Prop
  | .refreshLoop st (.ok ()) (.ok allSegments) =>
      (app.cache.loadListed st allSegments).1 = .ok () →
        (app.cache.refresh st allSegments).1 = .ok ()
  | _ => True

instance (app : ReaderApp dim) : (event : Event F dim) → Decidable (Builds app event)
  | .refreshLoop _ (.ok ()) (.ok _) => inferInstanceAs (Decidable (_ → _))
  | .refreshLoop _ (.ok ()) (.error _) | .refreshLoop _ (.error _) _ | .request _ _ =>
      inferInstanceAs (Decidable True)

/-- A cache of a reader with these settings. -/
structure Tended (library : Library dim) (config : ReaderConfig) (cache : SegmentCache dim) :
    Prop where
  sound : library.Sound cache
  few : cache.segments.keys.length ≤ cache.maxSegmentsInMemory
  serves : ∀ shardId, cache.Serves shardId ↔ config.Serves shardId
  limit : cache.maxSegmentsInMemory = config.readerMaxSegmentsInMemory

/-- A reader with these settings, and its last refresh. -/
structure Reading (library : Library dim) (config : ReaderConfig) (last : LastRefresh)
    (app : ReaderApp dim) : Prop where
  tended : Tended library config app.cache
  tombstones : app.cache.tombstones = last.tombstones
  listed : ∀ name ∈ app.cache.segments.keys, name ∈ config.names last.allSegments
  finished : last.finished = true → app.cache.Current ∧
    app.cache.segments.keys.toFinset = config.newest library last.allSegments
  complete : app.firstRefreshComplete = true

variable {library : Library dim} {config : ReaderConfig} {cache : SegmentCache dim}
  {st : SharedStorage dim} {allSegments : List SegmentMeta} {app : ReaderApp dim}
  {last : LastRefresh}

theorem Tended.new (made : SegmentCache.new config.readerShardId
    config.readerMaxSegmentsInMemory config.readerLoadAllShards = .ok cache) :
    Tended library config cache := by
  have reach : ReaderReach library cache := ⟨_, _, _, cache, made, .refl⟩
  refine ⟨reach.sound, reach.few, ?_, ?_⟩ <;> unfold SegmentCache.new at made <;> split at made
  · cases made
    exact fun _ => Iff.rfl
  · cases made
  · cases made
    rfl
  · cases made

/-- The names that concern the reader, as `refresh` finds them. -/
theorem Tended.mem_listed (tended : Tended library config cache) {name : String} :
    name ∈ (cache.listed allSegments).keys ↔ name ∈ config.names allSegments := by
  simp only [mem_keys_listed, tended.serves, ReaderConfig.names, List.mem_toFinset, List.mem_map,
    List.mem_filter, decide_eq_true_eq, and_assoc]

/-- However far the loading loop gets, it loads what is listed. -/
theorem Tended.listed_of_loadListed (tended : Tended library config cache) {name : String}
    (member : name ∈ (cache.loadListed st allSegments).2.segments.keys) :
    name ∈ config.names allSegments := by
  have atTurn : ∀ i, name ∈ cache.cachedAt allSegments i → name ∈ config.names allSegments := by
    intro i held
    rw [SegmentCache.cachedAt, List.rtake,
      foldl_requeue (SegmentCache.nodup_namesByAge.sublist (List.take_sublist _ _))] at held
    rw [← tended.mem_listed]
    rcases List.mem_append.mp (List.mem_of_mem_drop held) with kept | used
    · exact of_decide_eq_true (List.mem_filter.mp (List.mem_of_mem_filter kept)).2
    · exact SegmentCache.perm_namesByAge.mem_iff.mp (List.mem_of_mem_take used)
  rcases @SegmentCache.loadListed_cases _ cache st allSegments tended.few with
    ⟨-, -, keys⟩ | ⟨-, i, -, -, keys⟩ <;> exact atTurn _ (keys ▸ member)

/-! ### Refreshes -/

/-- A refresh that returns leaves the newest segments. -/
theorem Tended.newest_of_refresh (tended : Tended library config cache)
    (lists : library.Lists allSegments) (returned : (cache.refresh st allSegments).1 = .ok ()) :
    (cache.refresh st allSegments).2.segments.keys.toFinset = config.newest library allSegments := by
  have holds := SegmentCache.holdsNewest_of_refresh lists tended.few returned
  have visible : (cache.listed allSegments).keys.toFinset = config.names allSegments := by
    ext name
    rw [List.mem_toFinset, tended.mem_listed]
  ext name
  rw [List.mem_toFinset, holds.mem_keys_iff, visible, SegmentCache.max_refresh, tended.limit,
    tended.mem_listed, ReaderConfig.newest, Finset.mem_filter]

theorem Tended.refresh (tended : Tended library config cache) (intact : library.Intact st)
    (lists : library.Lists allSegments) (builds : (cache.loadListed st allSegments).1 = .ok () →
      (cache.refresh st allSegments).1 = .ok ()) :
    Tended library config (cache.refresh st allSegments).2 := by
  have step : ReaderStep library cache (cache.refresh st allSegments).2 :=
    .refresh intact lists (or_iff_not_imp_right.mpr fun loaded => builds (not_not.mp loaded))
  exact ⟨step.sound tended.sound, step.few tended.few,
    fun shardId => SegmentCache.serves_refresh.trans (tended.serves shardId),
    SegmentCache.max_refresh.trans tended.limit⟩

/-- A refresh, finished or not. -/
theorem Tended.refreshOnce (tended : Tended library config app.cache) (intact : library.Intact st)
    (lists : library.Lists allSegments) (builds : (app.cache.loadListed st allSegments).1 = .ok () →
      (app.cache.refresh st allSegments).1 = .ok ())
    (complete : (app.cache.refresh st allSegments).1 = .ok () ∨ app.firstRefreshComplete = true) :
    Reading library config
      ⟨st.tombstonesJson.load, allSegments, (app.cache.refresh st allSegments).1.isOk⟩
      (refreshOnce st (.ok allSegments) app).2 := by
  have after := tended.refresh intact lists builds
  have tombstones : (app.cache.refresh st allSegments).2.tombstones = _ :=
    SegmentCache.tombstones_refresh
  unfold ReaderApp.refreshOnce
  cases returned : (app.cache.refresh st allSegments).1 with
  | ok done =>
      simp only [returned]
      have newest := tended.newest_of_refresh lists returned
      refine ⟨after, tombstones, fun name member => ?_, fun _ =>
        ⟨(sound_of_refresh intact lists tended.sound returned).2, newest⟩, rfl⟩
      rw [← List.mem_toFinset, newest] at member
      exact (Finset.mem_filter.mp member).1
  | error e =>
      simp only [returned]
      have stopped : (app.cache.loadListed st allSegments).1 ≠ .ok () := by
        intro loaded
        rw [builds loaded] at returned
        cases returned
      have same : (app.cache.refresh st allSegments).2 =
          (app.cache.loadListed st allSegments).2 := by
        unfold SegmentCache.refresh
        cases loaded : (app.cache.loadListed st allSegments).1 with
        | error e => simp only [loaded]
        | ok done => exact absurd loaded stopped
      refine ⟨after, tombstones, fun name member => ?_, nofun, complete.resolve_left ?_⟩
      · rw [same] at member
        exact tended.listed_of_loadListed member
      · rw [returned]
        exact nofun

/-- With all files there a refresh returns. -/
theorem Tended.returns (tended : Tended library config cache) (lists : library.Lists allSegments)
    (whole : ∀ segMeta ∈ allSegments, config.Serves segMeta.shardId →
      (st.files segMeta.path).Whole) : (cache.refresh st allSegments).1 = .ok () := by
  refine SegmentCache.InReach.refresh fun segMeta listed serves => ?_
  have files := whole segMeta listed ((tended.serves _).mp serves)
  refine ⟨fun seg cached => Or.inr ?_, Or.inl files⟩
  rw [(tended.sound.cached _ seg cached).2.path, (lists segMeta listed).2]
  exact files.2.2

theorem Reading.refreshTurn (reading : Reading library config last app)
    {registered : Except PyError Unit} {listed : Except PyError (List SegmentMeta)}
    (faiss : Faiss dim D) (float32 : F → UInt32)
    (told : (Event.refreshLoop (F := F) st registered listed).Told library)
    (builds : Builds app (.refreshLoop (F := F) st registered listed)) :
    let out := respond config faiss float32 app (.refreshLoop st registered listed)
    Reading library config (last.note (.refreshLoop (F := F) st registered listed) out.1) out.2 ∧
      Answers config faiss float32 library last app out.2 out.1
        (.refreshLoop st registered listed) := by
  intro out
  rcases told with ⟨intact, lists⟩
  cases registered with
  | error e => exact ⟨reading, _, rfl, fun _ => rfl, nofun⟩
  | ok registered =>
      cases listed with
      | error e => exact ⟨reading, _, rfl, fun _ => rfl, nofun⟩
      | ok allSegments =>
          have lists := lists allSegments rfl
          have result : (ReaderApp.refreshOnce st (.ok allSegments) app).1 =
              (app.cache.refresh st allSegments).1 := by
            unfold ReaderApp.refreshOnce
            cases returned : (app.cache.refresh st allSegments).1 <;> simp only [returned]
          have after := reading.tended.refreshOnce intact lists builds (Or.inr reading.complete)
          rw [← result] at after
          refine ⟨after, _, rfl, fun failed => ?_, fun allSegments' _ same whole => ?_⟩
          · rcases failed with other | failed
            · exact absurd rfl other
            · cases failed
          · cases same
            exact result.trans (reading.tended.returns lists whole)

/-! ### Requests -/

/-- A request may reorder the cache and read ids. -/
theorem Reading.of_perm (reading : Reading library config last app) {cache : SegmentCache dim}
    (sound : library.Sound cache) (keys : cache.segments.keys.Perm app.cache.segments.keys)
    (frame : cache = { app.cache with segments := cache.segments }) :
    Reading library config last { app with cache := cache } := by
  have signature : cache.visibilitySignature = app.cache.visibilitySignature := by rw [frame]
  have limit : cache.maxSegmentsInMemory = app.cache.maxSegmentsInMemory := by rw [frame]
  have serves : ∀ shardId, cache.Serves shardId ↔ app.cache.Serves shardId := by
    rw [frame]
    exact fun _ => Iff.rfl
  refine ⟨⟨sound, ?_, fun shardId => (serves shardId).trans (reading.tended.serves shardId),
    limit.trans reading.tended.limit⟩, ?_, fun name member => ?_, fun finished => ?_,
    reading.complete⟩
  · rw [keys.length_eq, limit]
    exact reading.tended.few
  · rw [frame]
    exact reading.tombstones
  · exact reading.listed name (keys.mem_iff.mp member)
  · obtain ⟨current, newest⟩ := reading.finished finished
    refine ⟨fun name => ?_, (List.toFinset_eq_of_perm _ _ keys).trans newest⟩
    rw [signature, keys.mem_iff]
    exact current name

section Requests

variable {faiss : Faiss dim D} {float32 : F → UInt32} {query : List F}
  {topK nprobe snapshotId : Option ℤ}

theorem handle_search {q : Vec dim} {k probes s : ℕ}
    (asked : askable dim float32 query topK nprobe = some (q, k, probes))
    (snapshot : (snapshotId.getD 0).toNat? = some s) :
    handle config faiss float32 st app (.search query topK nprobe snapshotId) =
      let found := app.cache.searchAll faiss q k probes s
      (.ok (.found (found.1.map Prod.fst) (found.1.map Prod.snd)),
        { app with cache := found.2 }) := by
  obtain ⟨array, valid, rfl, rfl⟩ := askable_ok asked
  have shape : (query.map float32).length = dim := by rw [← array, q.toList_length]
  have same : q = ⟨query.map float32, shape⟩ := Subtype.ext array
  simp only [handle, ReaderSearchRequest.validate, SearchRequest.validate, dif_pos valid, snapshot,
    bind, Option.bind, search, shape, ↓reduceDIte, same]

variable (config faiss st app) in
theorem handle_search_refused (unasked : askable dim float32 query topK nprobe = none ∨
    (snapshotId.getD 0).toNat? = none) :
    ∃ answer, handle config faiss float32 st app (.search query topK nprobe snapshotId) =
      (answer, app) ∧ answer.Refused := by
  unfold handle
  dsimp only
  split
  · exact ⟨_, rfl, trivial⟩
  · next req validated =>
      obtain ⟨body, passed, rest⟩ := Option.bind_eq_some_iff.mp validated
      obtain ⟨s, snapshot, made⟩ := Option.bind_eq_some_iff.mp rest
      cases made
      unfold SearchRequest.validate at passed
      split at passed
      · next valid =>
          cases passed
          refine ⟨.httpError 400 s!"Expected query with shape [{dim}].", dif_neg fun shape => ?_,
            trivial⟩
          rw [snapshot, askable, dif_pos shape, if_pos valid] at unasked
          rcases unasked with failed | failed <;> cases failed
      · cases passed

variable (st faiss) in
theorem Reading.search (reading : Reading library config last app) {q : Vec dim} {k probes s : ℕ}
    (asked : askable dim float32 query topK nprobe = some (q, k, probes))
    (snapshot : (snapshotId.getD 0).toNat? = some s) :
    ∃ rows hits, (handle config faiss float32 st app (.search query topK nprobe snapshotId)).1 =
        .ok (.found (hits.map Prod.fst) (hits.map Prod.snd)) ∧ NearestById k rows hits ∧
      (∀ hit ∈ rows, Listable config faiss library last q k probes s hit) ∧
      (last.finished = true → ∀ hit, hit ∈ rows ↔
        Candidate config faiss library last q k probes s hit) := by
  refine ⟨app.cache.retrieved faiss q k probes s, _,
    congrArg Prod.fst (handle_search asked snapshot), nearestById_mergeResults _ k _,
    fun hit retrieved => ?_, fun finished hit => ?_⟩
  · obtain ⟨name, cached, old, found, shown⟩ :=
      SegmentCache.exists_of_retrieved faiss reading.tended.sound.cached retrieved
    refine ⟨fun dead => shown ?_, name, reading.listed name cached, old, found⟩
    rw [SegmentCache.hiddenIds, reading.tombstones]
    exact Finset.mem_union_left _ dead
  · obtain ⟨current, newest⟩ := reading.finished finished
    rw [SegmentCache.mem_retrieved_iff_library faiss reading.tended.sound current,
      reading.tombstones, Candidate, ← newest]
    simp only [List.mem_toFinset]

/-- The count of a cache, which fails only if ids cannot be read. -/
theorem Reading.ntotal (reading : Reading library config last app) (intact : library.Intact st) :
    ((app.cache.ntotal st).1 = .ok ((app.cache.segments.keys.flatMap fun name =>
        batchIds (library name).rows).toFinset \ last.tombstones).card) ∨
      (∃ e, (app.cache.ntotal st).1 = .error e) ∧ ∃ name ∈ config.names last.allSegments,
        (st.files (library name).path).idsNpy = none := by
  have cached := reading.tended.sound.cached
  obtain ⟨-, -, read⟩ := readIds_spec intact cached fun _ member => member
  unfold SegmentCache.ntotal
  dsimp only
  cases ran : (SegmentCache.readIds st app.cache.segments app.cache.segments.keys).1 with
  | ok lists =>
      left
      rw [read lists ran, ← reading.tombstones, Except.map, List.flatMap_map]
      rfl
  | error e =>
      refine Or.inr ⟨⟨e, rfl⟩, ?_⟩
      by_contra readable
      have all : SegmentCache.Readable st app.cache.segments := by
        refine fun name seg found => SegmentCache.loadIds_of_canRead (Or.inr ?_)
        rw [(cached name seg found).2.path, Option.isSome_iff_ne_none]
        exact fun gone => readable
          ⟨name, reading.listed name (Dict.mem_keys_iff.mpr ⟨seg, found⟩), gone⟩
      obtain ⟨lists, returned⟩ := readIds_returns all app.cache.segments.keys
      rw [ran] at returned
      cases returned

omit [LinearOrder D] in
theorem Reading.report (reading : Reading library config last app) (intact : library.Intact st)
    (reply : HealthPayload → Reply D) :
    Reading library config last (report config reply st app).2 ∧
      Reports config library last st reply (report config reply st app).1 := by
  have keys : (app.cache.ntotal st).2.segments.keys = app.cache.segments.keys :=
    SegmentCache.keys_readIds
  refine ⟨reading.of_perm (reading.tended.sound.ntotal intact) (.of_eq keys) rfl, ?_⟩
  rcases reading.ntotal intact with counted | ⟨⟨e, failed⟩, gone⟩
  · refine Or.inr ⟨app.cache.segments.keys, ?_, Dict.keys_nodup _, reading.listed,
      fun finished => (reading.finished finished).2⟩
    have size : app.cache.segments.length = app.cache.segments.keys.length :=
      (List.length_map _).symm
    simp only [ReaderApp.report, healthPayload, counted, Except.map, payloadOf, size]
  · refine Or.inl ⟨?_, gone⟩
    simp only [ReaderApp.report, healthPayload, failed, Except.map]

/-- **The step lemma.** -/
theorem Reading.respond (reading : Reading library config last app) {event : Event F dim}
    (faiss : Faiss dim D) (float32 : F → UInt32) (told : event.Told library)
    (builds : Builds app event) :
    let out := respond config faiss float32 app event
    Reading library config (last.note event out.1) out.2 ∧
      Answers config faiss float32 library last app out.2 out.1 event := by
  cases event with
  | refreshLoop st registered listed => exact reading.refreshTurn faiss float32 told builds
  | request st request =>
      cases request with
      | health =>
          obtain ⟨after, reports⟩ := reading.report (D := D) told .healthy
          exact ⟨after, _, rfl, reports⟩
      | ready =>
          obtain ⟨after, reports⟩ := reading.report (D := D) told .ready
          have same : ready config st app = ReaderApp.report config (.ready (D := D)) st app :=
            if_pos reading.complete
          simp only [ReaderApp.respond, handle, same]
          exact ⟨after, _, rfl, reports⟩
      | search query topK nprobe snapshotId =>
          simp only [ReaderApp.respond, Answers]
          split
          · next q k probes s asked snapshot =>
              obtain ⟨rows, hits, found, answers⟩ := reading.search st faiss asked snapshot
              refine ⟨?_, rows, hits, congrArg Outcome.answered found, answers⟩
              rw [handle_search asked snapshot]
              exact reading.of_perm (reading.tended.sound.touch s)
                (SegmentCache.perm_keys_touch s) rfl
          · next unasked =>
              have unasked : askable dim float32 query topK nprobe = none ∨
                  (snapshotId.getD 0).toNat? = none := by
                by_contra both
                rw [not_or, ← ne_eq, ← ne_eq, Option.ne_none_iff_exists', Option.ne_none_iff_exists']
                  at both
                rcases both with ⟨⟨⟨q, k, probes⟩, asked⟩, s, snapshot⟩
                exact unasked q k probes s asked snapshot
              obtain ⟨answer, handled, refused⟩ :=
                handle_search_refused config st app faiss unasked
              rw [handled]
              exact ⟨reading, rfl, answer, rfl, refused⟩

end Requests

/-! ## Runs -/

theorem start_eq_ok {st' : SharedStorage dim} {registered : Except PyError Unit}
    {listed : Except PyError (List SegmentMeta)}
    (started : start config st st' registered listed = .ok app) :
    ∃ cache, SegmentCache.new config.readerShardId config.readerMaxSegmentsInMemory
        config.readerLoadAllShards = .ok cache ∧
      (refreshTurn st registered listed ⟨cache, false⟩).1 = .ok () ∧
      app = (healthPayload config st' (refreshTurn st registered listed ⟨cache, false⟩).2).2 := by
  obtain ⟨cache, made, started⟩ := ok_of_bind started
  obtain ⟨done, refreshed, started⟩ := ok_of_bind started
  obtain ⟨payload, -, started⟩ := ok_of_bind started
  exact ⟨cache, made, refreshed, (Except.ok.inj started).symm⟩

/-- A reader that has started has finished its first refresh. -/
theorem reading_start {st' : SharedStorage dim} {registered : Except PyError Unit}
    (intact : library.Intact st) (intact' : library.Intact st') (lists : library.Lists allSegments)
    (started : start config st st' registered (.ok allSegments) = .ok app) :
    Reading library config ⟨st.tombstonesJson.load, allSegments, true⟩ app := by
  obtain ⟨cache, made, refreshed, rfl⟩ := start_eq_ok started
  cases registered with
  | error e => cases refreshed
  | ok registered =>
      have returned : (cache.refresh st allSegments).1 = .ok () := by
        simp only [refreshTurn, ReaderApp.refreshOnce] at refreshed
        split at refreshed
        · cases refreshed
        · next returned => exact returned
      have new : Tended library config (ReaderApp.mk cache false).cache := .new made
      have reading := new.refreshOnce intact lists (fun _ => returned) (Or.inl returned)
      rw [returned] at reading
      exact (reading.report (D := ℕ) intact' .healthy).1

theorem Reading.run (reading : Reading library config last app) {events : List (Event F dim)}
    {event : Event F dim} (faiss : Faiss dim D) (float32 : F → UInt32)
    (told : ∀ e ∈ events ++ [event], e.Told library)
    (builds : StepsMeet (step config faiss float32) Builds app (events ++ [event])) :
    ∃ app', runAll (step config faiss float32) app events = .ok app' ∧ Builds app' event ∧
      Reading library config (last.after config faiss float32 app events) app' := by
  induction events generalizing app last with
  | nil => exact ⟨app, rfl, builds.1, reading⟩
  | cons first events ih =>
      obtain ⟨after, -⟩ := reading.respond faiss float32 (told first List.mem_cons_self) builds.1
      obtain ⟨app', ran, rest⟩ :=
        ih after (fun e member => told e (List.mem_cons_of_mem _ member)) (builds.2 _ rfl)
      exact ⟨app', (runAll_cons rfl events).trans ran, rest⟩

/-- **Answers of the last refresh.**  A reader has started.  Whatever then comes of its
refreshes, it is ready and answers every well-formed search: from the listed segments of the last
refresh, less the ids that were deleted by then, and when that refresh came to the end, from
the newest of the listed segments and by their newest versions; and a refresh that finds all
files there comes to the end. -/
theorem reader_service_answers (faiss : Faiss dim D) (float32 : F → UInt32)
    {st' : SharedStorage dim} {registered : Except PyError Unit} {begun : ReaderApp dim}
    (started : start config st st' registered (.ok allSegments) = .ok begun)
    (intact : library.Intact st) (intact' : library.Intact st') (lists : library.Lists allSegments)
    {events : List (Event F dim)} {event : Event F dim}
    (told : ∀ e ∈ events ++ [event], e.Told library)
    (builds : StepsMeet (step config faiss float32) Builds begun (events ++ [event])) :
    ∃ app, runAll (step config faiss float32) begun events = .ok app ∧
      let out := respond config faiss float32 app event
      let first : LastRefresh := ⟨st.tombstonesJson.load, allSegments, true⟩
      Answers config faiss float32 library (first.after config faiss float32 begun events)
        app out.2 out.1 event := by
  obtain ⟨app, ran, here, reading⟩ :=
    (reading_start intact intact' lists started).run faiss float32 told builds
  exact ⟨app, ran, (reading.respond faiss float32
    (told event (List.mem_append_right _ List.mem_cons_self)) here).2⟩

/-- A refresh loads the newer version and cannot load a third segment, the coordinators fail,
and a refresh comes to the end. -/
def halfLoadedThenWhole : List (Event UInt32 1) :=
  [.refreshLoop newerVersion.2 (.ok ()) (.ok threeListed), .request newerVersion.2 .health,
    .refreshLoop newerVersion.2 (.ok ()) (.error (.runtimeError "All coordinator requests failed.")),
    .refreshLoop newerVersion.2 (.ok ()) (.ok twoVersions)]

/-- A search by default settings, but for its snapshot. -/
def searchAtThree : Event UInt32 1 := .request newerVersion.2 (.search [0] none none (some 3))

theorem reader_service_answers_halfLoadedThenWhole :
    let config : ReaderConfig := ⟨0, 20, false⟩
    ∃ begun app last, start config newerVersion.2 newerVersion.2 (.ok ())
        (.ok [olderVersion.1.segMeta]) = .ok begun ∧
      runAll (step config (bruteForce 1) id) begun halfLoadedThenWhole = .ok app ∧
      last.finished = true ∧ last.allSegments = twoVersions ∧
      Answers config (bruteForce 1) id threeLibrary last app
        (respond config (bruteForce 1) id app searchAtThree).2
        (respond config (bruteForce 1) id app searchAtThree).1 searchAtThree := by
  intro config
  have intact : threeLibrary.Intact newerVersion.2 := intact_three (by decide +kernel)
  have lists : ∀ allSegments ⊆ threeListed, threeLibrary.Lists allSegments :=
    fun allSegments listed segMeta member => lists_three segMeta (listed member)
  have told : ∀ e ∈ halfLoadedThenWhole ++ [searchAtThree], e.Told threeLibrary := by
    simp only [halfLoadedThenWhole, searchAtThree, List.cons_append, List.nil_append,
      List.forall_mem_cons, Event.Told, intact, true_and, Except.ok.injEq, forall_eq',
      reduceCtorEq, false_implies, implies_true, List.not_mem_nil, and_true]
    exact ⟨lists _ (by decide +kernel), lists _ (by decide +kernel)⟩
  let first : LastRefresh := ⟨newerVersion.2.tombstonesJson.load, [olderVersion.1.segMeta], true⟩
  have evaluated : (do
      let begun ← start config newerVersion.2 newerVersion.2 (.ok ())
        (.ok [olderVersion.1.segMeta])
      let last := first.after config (bruteForce 1) id begun halfLoadedThenWhole
      .ok (decide (StepsMeet (step config (bruteForce 1) id) Builds begun
          (halfLoadedThenWhole ++ [searchAtThree]) ∧
        last.finished = true ∧ last.allSegments = twoVersions))) =
      (.ok true : Except PyError Bool) := by decide +kernel
  obtain ⟨begun, started, rest⟩ := ok_of_bind evaluated
  rw [Except.ok.injEq, decide_eq_true_eq] at rest
  obtain ⟨builds, finished, listed⟩ := rest
  obtain ⟨app, ran, answers⟩ := reader_service_answers (bruteForce 1) id started intact intact
    (lists _ (by decide +kernel)) told builds
  exact ⟨begun, app, _, started, ran, finished, listed, answers⟩

end ReaderApp

end VecScale
