import VecScale.Coordinator.Dispatch
import VecScale.Coordinator.ScatterGather

/-!
# Searches that some readers fail

The coordinator sends a search to the readers, drops those that fail, merges what the others
return, and says whether somebody was dropped.

* `gather_eq`: what the loop over the responses keeps;
* `partial_answer`: in scatter mode the hits are the nearest of what the answering readers
  retrieve, and the answer is marked as incomplete iff a live reader failed;
* `complete_answer`: an answer that is not marked is what a reader of all shards returns.
-/

namespace VecScale

variable {dim : ℕ} {D : Type} [LinearOrder D]

/-- What came of the request to a reader. -/
abbrev ReaderResponse (D : Type) := Except String (List (ℤ × D))

omit [LinearOrder D] in
/-- One turn of the loop over the responses. -/
def gatherResponse (gathered : List (List (ℤ × D)) × Bool) :
    ReaderResponse D → List (List (ℤ × D)) × Bool
  | .error _ => (gathered.1, true)
  | .ok hits => (gathered.1 ++ [hits], gathered.2)

/-- The results, and whether the answer is incomplete. -/
def gather (responses : List (ReaderResponse D)) : List (List (ℤ × D)) × Bool :=
  responses.foldl gatherResponse ([], false)

omit [LinearOrder D] in
theorem gather_eq (responses : List (ReaderResponse D)) :
    gather responses =
      (responses.filterMap Except.toOption, responses.any fun response => !response.isOk) := by
  induction responses using List.reverseRecOn with
  | nil => rfl
  | append_singleton responses response ih =>
      rw [gather, List.foldl_append, ← gather, ih]
      cases response <;>
        simp [gatherResponse, Except.toOption, Except.isOk, Except.toBool]

structure SearchReply (D : Type) where
  hits : List (ℤ × D)
  incomplete : Bool

namespace Coordinator

/-- `search`; `respond` is what comes of the request to a reader. -/
def searchReaders (env : CoordinatorEnv) (c : Coordinator)
    (respond : NodeInfo → ℕ → ReaderResponse D) (topK : ℕ) :
    Except CoordinatorReply (SearchReply D) × Coordinator :=
  let asked := c.search env
  match asked.1 with
  | .targets snapshotId readers =>
      if readers = [] then (.ok ⟨[], false⟩, asked.2)
      else
        let gathered := gather (readers.map fun reader => respond reader snapshotId)
        (.ok ⟨mergeResults gathered.1 topK ∅, gathered.2⟩, asked.2)
  | reply => (.error reply, asked.2)

/-- A reader that fails, or else searches what it has loaded. -/
def respondFrom (faiss : Faiss dim D) (caches : String → SegmentCache dim)
    (failing : String → Option String) (q : Vec dim) (topK nprobe : ℕ) (reader : NodeInfo)
    (snapshotId : ℕ) : ReaderResponse D :=
  match failing reader.nodeId with
  | some error => .error error
  | none => .ok ((caches reader.nodeId).searchAll faiss q topK nprobe snapshotId).1

/-- The registration of a reader runs. -/
def Live (metadata : Metadata) (now : ℕ) (nodeId : String) : Prop :=
  ∃ info, metadata.members.read now nodeId = some info ∧ info.role = "reader"

variable {env : CoordinatorEnv} {c : Coordinator} {metadata : Metadata}

/-- The live readers are those that a search finds. -/
theorem Serving.live_iff (serving : Serving env c metadata) {nodeId : String} :
    Live metadata (c.nextTime env) nodeId ↔ ∃ reader ∈ c.liveReaders env, reader.nodeId = nodeId := by
  obtain ⟨-, -, placed, known⟩ := serving.represents.refreshNodes serving.placed.ring
  constructor
  · rintro ⟨info, running, role⟩
    rw [← known] at running
    exact ⟨info, mem_readerNodes.mpr ⟨Dict.mem_values_iff.mpr ⟨nodeId, running⟩, role⟩,
      placed.filed nodeId info running⟩
  · rintro ⟨reader, listed, rfl⟩
    obtain ⟨member, role⟩ := mem_readerNodes.mp listed
    exact ⟨reader, (known _).symm.trans (placed.get?_of_mem member), role⟩

theorem Serving.search_scatter (serving : Serving env c metadata)
    (scatter : env.searchFanoutMode.toLower = "scatter") :
    (c.search env).1 = .targets metadata.registry.currentSnapshotId (c.liveReaders env) := by
  rw [serving.search_eq]
  unfold searchTargets
  simp only [scatter, true_or, if_true]
  split
  · next none => rw [none]
  · rfl

/-- What a search answers that goes to these readers. -/
theorem searchReaders_of_targets (respond : NodeInfo → ℕ → ReaderResponse D) (topK : ℕ) {s : ℕ}
    {readers : List NodeInfo} (targets : (c.search env).1 = .targets s readers) :
    (c.searchReaders env respond topK).1 = .ok
      ⟨mergeResults ((readers.map fun reader => respond reader s).filterMap Except.toOption) topK ∅,
        readers.any fun reader => !(respond reader s).isOk⟩ := by
  unfold searchReaders
  simp only [targets]
  split
  · next none =>
      have merged : mergeResults ([] : List (List (ℤ × D))) topK ∅ = [] := List.take_nil
      rw [none, List.map_nil, List.filterMap_nil, merged]
      rfl
  · rw [gather_eq, List.any_map]
    rfl

theorem filterMap_respondFrom (faiss : Faiss dim D) (caches : String → SegmentCache dim)
    (failing : String → Option String) (q : Vec dim) (topK nprobe s : ℕ)
    (readers : List NodeInfo) :
    (readers.map fun reader =>
      respondFrom faiss caches failing q topK nprobe reader s).filterMap Except.toOption =
      (readers.filter fun reader => (failing reader.nodeId).isNone).map fun reader =>
        ((caches reader.nodeId).searchAll faiss q topK nprobe s).1 := by
  induction readers with
  | nil => rfl
  | cons reader readers ih =>
      rw [List.map_cons, List.filterMap_cons, ih, List.filter_cons, respondFrom]
      cases failing reader.nodeId <;> rfl

/-- What a search answers in scatter mode, of rows that the readers that answer retrieve. -/
theorem Serving.searchReaders_scatter (serving : Serving env c metadata) (faiss : Faiss dim D)
    (scatter : env.searchFanoutMode.toLower = "scatter") (caches : String → SegmentCache dim)
    (failing : String → Option String) (q : Vec dim) (topK nprobe : ℕ) :
    ∃ reply rows, (c.searchReaders env (respondFrom faiss caches failing q topK nprobe) topK).1 =
      .ok reply ∧ (reply.incomplete = true ↔ ∃ nodeId, Live metadata (c.nextTime env) nodeId ∧
        failing nodeId ≠ none) ∧
      NearestById topK rows reply.hits ∧ ∀ hit, hit ∈ rows ↔ ∃ nodeId,
        Live metadata (c.nextTime env) nodeId ∧ failing nodeId = none ∧
        hit ∈ (caches nodeId).retrieved faiss q topK nprobe metadata.registry.currentSnapshotId := by
  let s := metadata.registry.currentSnapshotId
  let answering := (c.liveReaders env).filter fun reader => (failing reader.nodeId).isNone
  have answer := searchReaders_of_targets
    (respondFrom faiss caches failing q topK nprobe) topK (serving.search_scatter scatter)
  rw [filterMap_respondFrom] at answer
  refine ⟨_, answering.flatMap fun reader => (caches reader.nodeId).retrieved faiss q topK nprobe s,
    answer, ?_, ?_, fun hit => ?_⟩
  · simp only [serving.live_iff, List.any_eq_true]
    constructor
    · rintro ⟨reader, listed, failed⟩
      refine ⟨reader.nodeId, ⟨reader, listed, rfl⟩, fun answered => ?_⟩
      rw [respondFrom, answered] at failed
      cases failed
    · rintro ⟨nodeId, ⟨reader, listed, rfl⟩, failed⟩
      obtain ⟨error, failed⟩ := Option.ne_none_iff_exists'.mp failed
      refine ⟨reader, listed, ?_⟩
      rw [respondFrom, failed]
      rfl
  · have merged := nearestById_mergeResults (answering.map fun reader =>
      ((caches reader.nodeId).searchAll faiss q topK nprobe s).1) topK ∅
    have selected : ∀ reader ∈ answering, NearestById topK
        ((caches reader.nodeId).retrieved faiss q topK nprobe s)
        ((caches reader.nodeId).searchAll faiss q topK nprobe s).1 :=
      fun reader _ => nearestById_mergeResults _ topK _
    rw [undeleted_empty, ← List.flatMap_def] at merged
    exact merged.of_parts _ (fun hit => List.mem_flatMap) selected
  · simp only [serving.live_iff, List.mem_flatMap, answering, List.mem_filter,
      Option.isNone_iff_eq_none]
    constructor
    · rintro ⟨reader, ⟨listed, answered⟩, inside⟩
      exact ⟨reader.nodeId, ⟨reader, listed, rfl⟩, answered, inside⟩
    · rintro ⟨nodeId, ⟨reader, listed, rfl⟩, answered, inside⟩
      exact ⟨reader, ⟨listed, answered⟩, inside⟩

/-- **A partial answer is exact for whoever answered.**  In scatter mode, after any requests,
the hits of a search are the nearest of what the live readers that answered retrieve at the
registry's snapshot, and the answer says that it is incomplete iff a live reader failed. -/
theorem partial_answer (faiss : Faiss dim D) (env : CoordinatorEnv)
    (scatter : env.searchFanoutMode.toLower = "scatter") (now : ℕ) (calls : List CoordinatorCall)
    (caches : String → SegmentCache dim) (failing : String → Option String) (q : Vec dim)
    (topK nprobe : ℕ) :
    let c := (start env now).2.serve env calls
    let metadata := metadataAfter env now calls
    let live := Live metadata (c.nextTime env)
    ∃ reply rows, (c.searchReaders env (respondFrom faiss caches failing q topK nprobe) topK).1 =
      .ok reply ∧ (reply.incomplete = true ↔ ∃ nodeId, live nodeId ∧ failing nodeId ≠ none) ∧
      NearestById topK rows reply.hits ∧ ∀ hit, hit ∈ rows ↔ ∃ nodeId, live nodeId ∧
        failing nodeId = none ∧ hit ∈ (caches nodeId).retrieved faiss q topK nprobe
          metadata.registry.currentSnapshotId :=
  (serving_after env now calls).searchReaders_scatter faiss scatter caches failing q topK nprobe

/-- **A complete answer is what one reader of everything returns.**  When the live readers
have loaded the registered segments of their shards from one state of the storage, one reader
at least for each shard, a search that nobody fails is answered as by a reader that has loaded
them all from there, up to ties. -/
theorem complete_answer (faiss : Faiss dim D) {env : CoordinatorEnv}
    (scatter : env.searchFanoutMode.toLower = "scatter") {now : ℕ} {calls : List CoordinatorCall}
    {library : Library dim} {st : SharedStorage dim} {numShards : ℕ} {whole : SegmentCache dim}
    (intact : library.Intact st)
    (lists : library.Lists (metadataAfter env now calls).registry.listSegments)
    (homed : library.Homed numShards (metadataAfter env now calls).registry.listSegments)
    {caches : String → SegmentCache dim}
    (loaded : ∀ nodeId, Live (metadataAfter env now calls)
        (((start env now).2.serve env calls).nextTime env) nodeId →
      (caches nodeId).LoadedFrom library st (metadataAfter env now calls).registry.listSegments ∧
        (caches nodeId).loadAllShards = false ∧ (caches nodeId).shardId < numShards)
    (covers : ∀ shard < numShards, ∃ nodeId, Live (metadataAfter env now calls)
      (((start env now).2.serve env calls).nextTime env) nodeId ∧ (caches nodeId).shardId = shard)
    (loadedWhole : whole.LoadedFrom library st (metadataAfter env now calls).registry.listSegments)
    (all : whole.loadAllShards = true) (failing : String → Option String) (q : Vec dim)
    (topK nprobe : ℕ) :
    ∃ reply, (((start env now).2.serve env calls).searchReaders env
        (respondFrom faiss caches failing q topK nprobe) topK).1 = .ok reply ∧
      (reply.incomplete = false → AgreeUpToTies reply.hits (whole.searchAll faiss q topK nprobe
        (metadataAfter env now calls).registry.currentSnapshotId).1) := by
  obtain ⟨reply, rows, answer, incomplete, near, mem⟩ :=
    (serving_after env now calls).searchReaders_scatter faiss scatter caches failing q topK nprobe
  refine ⟨reply, answer, fun complete => ?_⟩
  have answered : ∀ nodeId, Live (metadataAfter env now calls)
      (((start env now).2.serve env calls).nextTime env) nodeId → failing nodeId = none := by
    intro nodeId live
    by_contra failed
    rw [incomplete.mpr ⟨nodeId, live, failed⟩] at complete
    cases complete
  let readers : {nodeId // Live (metadataAfter env now calls)
      (((start env now).2.serve env calls).nextTime env) nodeId} → SegmentCache dim :=
    fun reader => caches reader.1
  have retrieved : ∀ hit, hit ∈ whole.retrieved faiss q topK nprobe
      (metadataAfter env now calls).registry.currentSnapshotId ↔ hit ∈ rows := by
    intro hit
    have own : ∀ reader, (readers reader).loadAllShards = false := fun reader =>
      (loaded _ reader.2).2.1
    rw [mem, mem_retrieved_scatter faiss intact lists homed (fun reader => (loaded _ reader.2).1)
      own (fun shard inside => ?_) loadedWhole all hit]
    · constructor
      · rintro ⟨⟨nodeId, live⟩, found⟩
        exact ⟨nodeId, live, answered nodeId live, found⟩
      · rintro ⟨nodeId, live, -, found⟩
        exact ⟨⟨nodeId, live⟩, found⟩
    · obtain ⟨nodeId, live, home⟩ := covers shard inside
      exact ⟨⟨nodeId, live⟩, home⟩
  have nearWhole : NearestById topK rows (whole.searchAll faiss q topK nprobe
      (metadataAfter env now calls).registry.currentSnapshotId).1 := by
    have selected := nearestById_mergeResults (whole.searchResults faiss q topK nprobe
      (metadataAfter env now calls).registry.currentSnapshotId) topK whole.tombstones
    refine (NearestById.iff_covered selected fun hit => (retrieved hit).mp).mpr fun hit row => ?_
    exact Or.inl ⟨hit.2, (retrieved hit).mpr row, le_rfl⟩
  exact near.agree nearWhole

/-! ## A run -/

/-- A reader of each shard, and a segment for each. -/
def bothReaders : List CoordinatorCall :=
  [.register (readerInfo "reader-0"), .register (readerInfo "reader-1"),
    .registerSegment evenSegment.1.segMeta, .registerSegment oddSegment.1.segMeta]

def evenOdd : Library 1 :=
  fun name => if name = oddSegment.1.segmentId then oddSegment.1 else evenSegment.1

theorem evenOdd_intact : evenOdd.Intact oddSegment.2 := by
  apply Library.intact_of_stored
  intro name
  by_cases odd : name = oddSegment.1.segmentId
  · simp only [evenOdd, if_pos odd]
    exact Segment.create_stored _ _ _ _ _ _
  · simp only [evenOdd, if_neg odd]
    exact ⟨by decide +kernel, rfl, rfl, rfl⟩

theorem loadedReader_loadedFrom (i : Fin 2) (loadAllShards : Bool) :
    (loadedReader i loadAllShards).LoadedFrom evenOdd oddSegment.2 bothShards := by
  refine ⟨{ freshCache with shardId := i, loadAllShards }, ⟨i, 20, loadAllShards, _, rfl, .refl⟩, ?_,
    Prod.ext ?_ rfl⟩
  · decide +revert +kernel
  · decide +revert +kernel

theorem bothReaders_live (i : Fin 2) : Live (metadataAfter (soleCoordinator "scatter") 0 bothReaders)
    (((start (soleCoordinator "scatter") 0).2.serve (soleCoordinator "scatter") bothReaders).nextTime
      (soleCoordinator "scatter")) (if i = 1 then "reader-1" else "reader-0") := by
  apply Option.map_eq_some_iff.mp
  decide +revert +kernel

/-- The reader of the odd ids fails. -/
theorem partial_answer_bothReaders :
    let env := soleCoordinator "scatter"
    let c := (start env 0).2.serve env bothReaders
    let caches nodeId := loadedReader (if nodeId = "reader-1" then 1 else 0) false
    let failing nodeId := if nodeId = "reader-1" then some "503" else none
    let respond := respondFrom (bruteForce 1) caches failing (zeroVec 1) 2 1
    ∃ reply, (c.searchReaders env respond 2).1 = .ok reply ∧ reply.incomplete = true := by
  intro env c caches failing respond
  obtain ⟨reply, rows, answer, incomplete, -⟩ := partial_answer (bruteForce 1) env
    (by decide +kernel) 0 bothReaders caches failing (zeroVec 1) 2 1
  exact ⟨reply, answer, incomplete.mpr ⟨"reader-1", bothReaders_live 1, nofun⟩⟩

theorem complete_answer_bothReaders :
    let env := soleCoordinator "scatter"
    let c := (start env 0).2.serve env bothReaders
    let caches nodeId := loadedReader (if nodeId = "reader-1" then 1 else 0) false
    let respond := respondFrom (bruteForce 1) caches (fun _ => none) (zeroVec 1) 2 1
    ∃ reply, (c.searchReaders env respond 2).1 = .ok reply ∧
      AgreeUpToTies reply.hits ((loadedReader 0 true).searchAll (bruteForce 1) (zeroVec 1) 2 1
        (metadataAfter env 0 bothReaders).registry.currentSnapshotId).1 := by
  intro env c caches respond
  have listed : (metadataAfter env 0 bothReaders).registry.listSegments = bothShards := by
    decide +kernel
  have lists : evenOdd.Lists (metadataAfter env 0 bothReaders).registry.listSegments := by
    rw [listed]
    unfold Library.Lists
    decide +kernel
  have homed : evenOdd.Homed 2 (metadataAfter env 0 bothReaders).registry.listSegments := by
    rw [listed]
    unfold Library.Homed
    decide +kernel
  have loaded : ∀ (i : Fin 2) loadAllShards, (loadedReader i loadAllShards).LoadedFrom evenOdd
      oddSegment.2 (metadataAfter env 0 bothReaders).registry.listSegments := by
    rw [listed]
    exact loadedReader_loadedFrom
  have own : ∀ i : Fin 2, (loadedReader i false).loadAllShards = false ∧
      (loadedReader i false).shardId = i := by
    decide +kernel
  have loadedOwn : ∀ nodeId, (caches nodeId).LoadedFrom evenOdd oddSegment.2
      (metadataAfter env 0 bothReaders).registry.listSegments ∧
        (caches nodeId).loadAllShards = false ∧ (caches nodeId).shardId < 2 := by
    intro nodeId
    dsimp only [caches]
    split
    · exact ⟨loaded 1 false, (own 1).1, (own 1).2.trans_lt (by decide)⟩
    · exact ⟨loaded 0 false, (own 0).1, (own 0).2.trans_lt (by decide)⟩
  have covers : ∀ shard < 2, ∃ nodeId, Live (metadataAfter env 0 bothReaders) (c.nextTime env) nodeId ∧
      (caches nodeId).shardId = shard := by
    intro shard inside
    have either : shard = 0 ∨ shard = 1 := by omega
    rcases either with rfl | rfl
    · exact ⟨"reader-0", bothReaders_live 0, (own 0).2⟩
    · exact ⟨"reader-1", bothReaders_live 1, (own 1).2⟩
  have scatter : env.searchFanoutMode.toLower = "scatter" := by decide +kernel
  obtain ⟨reply, answer, agree⟩ := complete_answer (bruteForce 1) scatter evenOdd_intact lists homed
    (fun nodeId _ => loadedOwn nodeId) covers (loaded 0 true) (by decide +kernel) (fun _ => none)
    (zeroVec 1) 2 1
  -- nobody fails
  obtain ⟨reply', rows, answer', incomplete, -⟩ := (serving_after env 0 bothReaders).searchReaders_scatter
    (bruteForce 1) scatter caches (fun _ => none) (zeroVec 1) 2 1
  rw [answer, Except.ok.injEq] at answer'
  rw [← answer'] at incomplete
  refine ⟨reply, answer, agree (Bool.eq_false_iff.mpr fun marked => ?_)⟩
  obtain ⟨nodeId, -, failed⟩ := incomplete.mp marked
  exact failed rfl

end Coordinator

end VecScale
