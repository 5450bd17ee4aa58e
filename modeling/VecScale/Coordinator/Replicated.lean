import VecScale.Coordinator.Gather
import VecScale.Reader.Fleet

/-!
# Searches that one reader answers

In replicated mode the coordinator sends a search to one of the readers, and merges one
answer.

* `Serving.search_one`: whom a search is sent to;
* `Serving.searchReaders_one`: what it answers;
* `replicated_answer`: an answer holds rows that were in force at one moment, when the
  reader that gave it last refreshed.
-/

namespace VecScale

namespace Coordinator

variable {env : CoordinatorEnv} {c : Coordinator} {metadata : Metadata}

/-- In replicated mode a search goes to one reader, or to none when there is none. -/
theorem Serving.search_one (serving : Serving env c metadata)
    (replicated : env.searchFanoutMode.toLower = "replicated") :
    ((c.search env).1 = .targets metadata.registry.currentSnapshotId [] ∧ c.liveReaders env = []) ∨
      ∃ reader ∈ c.liveReaders env,
        (c.search env).1 = .targets metadata.registry.currentSnapshotId [reader] := by
  rw [serving.search_eq]
  dsimp only
  split
  · next none => exact Or.inl ⟨rfl, none⟩
  · next known =>
      have inside := Nat.mod_lt ((c.refreshNodes env).2.currentSnapshotId env).2.searchCounter
        (List.length_pos_iff.mpr known)
      refine Or.inr ⟨_, List.getElem_mem inside, ?_⟩
      rw [(searchTargets_replicated replicated known).1, List.getElem?_eq_getElem inside]
      rfl

/-- What a search answers in replicated mode. -/
theorem Serving.searchReaders_one {dim : ℕ} {D : Type} [LinearOrder D]
    (serving : Serving env c metadata) (faiss : Faiss dim D)
    (replicated : env.searchFanoutMode.toLower = "replicated") (caches : String → SegmentCache dim)
    (failing : String → Option String) (q : Vec dim) (topK nprobe : ℕ) :
    ∃ reply, (c.searchReaders env (respondFrom faiss caches failing q topK nprobe) topK).1 =
      .ok reply ∧
      (((¬ ∃ nodeId, Live metadata (c.nextTime env) nodeId) ∧ reply = ⟨[], false⟩) ∨
        ∃ nodeId, Live metadata (c.nextTime env) nodeId ∧
          ((failing nodeId ≠ none ∧ reply = ⟨[], true⟩) ∨ (failing nodeId = none ∧
            reply = ⟨((caches nodeId).searchAll faiss q topK nprobe
              metadata.registry.currentSnapshotId).1, false⟩))) := by
  have nothing : mergeResults ([] : List (List (ℤ × D))) topK ∅ = [] := List.take_nil
  rcases serving.search_one replicated with ⟨targets, none⟩ | ⟨reader, listed, targets⟩
  · refine ⟨_, searchReaders_of_targets _ _ targets, Or.inl ⟨?_, ?_⟩⟩
    · rintro ⟨nodeId, live⟩
      obtain ⟨reader, listed, -⟩ := serving.live_iff.mp live
      rw [none] at listed
      cases listed
    · exact congrArg (SearchReply.mk · false) nothing
  · refine ⟨_, searchReaders_of_targets _ _ targets,
      Or.inr ⟨reader.nodeId, serving.live_iff.mpr ⟨reader, listed, rfl⟩, ?_⟩⟩
    rw [filterMap_respondFrom]
    cases answered : failing reader.nodeId with
    | some error =>
        have failed : (respondFrom faiss caches failing q topK nprobe reader
            metadata.registry.currentSnapshotId).isOk = false := by
          rw [respondFrom, answered]
          rfl
        simp only [List.filter_cons, answered, Option.isNone_some, Bool.false_eq_true, if_false,
          List.filter_nil, List.map_nil, nothing, List.any_cons, failed, Bool.not_false,
          List.any_nil, Bool.or_false, ne_eq, reduceCtorEq, not_false_eq_true, and_self, true_or]
    | none =>
        have ok : (respondFrom faiss caches failing q topK nprobe reader
            metadata.registry.currentSnapshotId).isOk = true := by
          rw [respondFrom, answered]
          rfl
        simp only [List.filter_cons, answered, Option.isNone_none, if_true, List.filter_nil,
          List.map_cons, List.map_nil, merge_one_answer, List.any_cons, ok, Bool.not_true,
          List.any_nil, Bool.or_false, and_self, or_true]

/-- **In replicated mode an answer is of one moment.**  A search is answered whatever the
readers do.  With no live reader the answer is empty; else it is that of one of them, and
empty and marked when that one fails.  Every hit in it was in force when the reader last
refreshed, if every insert kept the old rows buried and the readers have room. -/
theorem replicated_answer {dim : ℕ} {D : Type} [LinearOrder D] (faiss : Faiss dim D)
    {engineEnv : Env} {settings : Settings} {boot : Cluster dim 1}
    (booted : Cluster.boot engineEnv settings = .ok boot) {limit : ℕ} {loadAllShards : Bool}
    {cache : SegmentCache dim} (made : SegmentCache.new 0 limit loadAllShards = .ok cache)
    {events : List (FleetEvent dim)} {f : Fleet dim}
    (meets : StepsMeet (Fleet.step engineEnv) (fun f event => event.Int64 ∧ f.Spares event)
      ⟨boot, fun _ => cache⟩ events)
    (ran : runAll (Fleet.step engineEnv) ⟨boot, fun _ => cache⟩ events = .ok f)
    {env : CoordinatorEnv} (replicated : env.searchFanoutMode.toLower = "replicated") (now : ℕ)
    (calls : List CoordinatorCall) (failing : String → Option String) (q : Vec dim)
    (topK nprobe : ℕ) :
    let c := (start env now).2.serve env calls
    let live := Live (metadataAfter env now calls) (c.nextTime env)
    ∃ reply, (c.searchReaders env (respondFrom faiss f.readers failing q topK nprobe) topK).1 =
      .ok reply ∧
      (((¬ ∃ nodeId, live nodeId) ∧ reply = ⟨[], false⟩) ∨ ∃ nodeId, live nodeId ∧
        ((failing nodeId ≠ none ∧ reply = ⟨[], true⟩) ∨ (failing nodeId = none ∧
          reply = ⟨((f.readers nodeId).searchAll faiss q topK nprobe
            (metadataAfter env now calls).registry.currentSnapshotId).1, false⟩ ∧
          ∀ hit ∈ reply.hits, ∃ v, (hit.1, v) ∈ inForce (FleetEvent.past nodeId events) ∧
            hit.2 = faiss.l2 q v))) := by
  intro c live
  obtain ⟨reply, answer, from_one⟩ := (serving_after env now calls).searchReaders_one faiss
    replicated f.readers failing q topK nprobe
  refine ⟨reply, answer, from_one.imp_right ?_⟩
  rintro ⟨nodeId, here, failed | ⟨answered, rfl⟩⟩
  · exact ⟨nodeId, here, Or.inl failed⟩
  · refine ⟨nodeId, here, Or.inr ⟨answered, rfl, ?_⟩⟩
    exact Fleet.hits_of_past faiss booted made meets ran nodeId q topK nprobe _

/-- A registration in the metadata was asked for, or is the coordinator's own. -/
theorem register_of_accepted {c : Coordinator} {calls : List CoordinatorCall} {info : NodeInfo}
    {expiry : ℕ} (written : .node info expiry ∈ c.accepted env calls) :
    .register info ∈ calls ∨ info = env.self := by
  induction calls generalizing c with
  | nil => cases written
  | cons call calls ih =>
      rcases List.mem_append.mp written with here | later
      · cases call with
        | register asked =>
            dsimp only [writes] at here
            split at here
            · cases List.mem_singleton.mp here
              exact Or.inl List.mem_cons_self
            · cases here
        | heartbeat =>
            cases List.mem_singleton.mp here
            exact Or.inr rfl
        | registerSegment segMeta =>
            dsimp only [writes] at here
            split at here
            · cases List.mem_singleton.mp here
            · cases here
        | deleteSegment segmentId =>
            dsimp only [writes] at here
            split at here
            · cases List.mem_singleton.mp here
            · cases here
        | _ => cases here
      · exact (ih later).imp_left (List.mem_cons_of_mem _)

/-- A node in the metadata was written there. -/
theorem node_of_member {metadata : Metadata} {writes : List MetadataWrite} {nodeId : String}
    {member : NodeInfo × Option ℕ}
    (found : (writes.foldl Metadata.write metadata).members nodeId = some member) :
    (∃ expiry, .node member.1 expiry ∈ writes ∧ member.1.nodeId = nodeId) ∨
      metadata.members nodeId = some member := by
  induction writes using List.reverseRecOn with
  | nil => exact Or.inr found
  | append_singleton writes last ih =>
      rw [List.foldl_append, List.foldl_cons, List.foldl_nil] at found
      generalize written : writes.foldl Metadata.write metadata = m at found
      rw [written] at ih
      have before : m.members nodeId = some member →
          (∃ expiry, .node member.1 expiry ∈ writes ++ [last] ∧ member.1.nodeId = nodeId) ∨
            metadata.members nodeId = some member := fun here =>
        (ih here).imp_left fun ⟨expiry, listed, named⟩ =>
          ⟨expiry, List.mem_append_left _ listed, named⟩
      cases last with
      | node info expiry =>
          have put : (m.write (.node info expiry)).members nodeId =
              if nodeId = info.nodeId then some (info, some expiry) else m.members nodeId :=
            Function.update_apply _ _ _ _
          rw [put] at found
          split at found
          · next same =>
              cases found
              exact Or.inl ⟨expiry, List.mem_append_right _ List.mem_cons_self, same.symm⟩
          · exact before found
      | segment segMeta => exact before found
      | withdraw segmentId => exact before found

/-- A live reader asked for its registration, unless the coordinator reads, too. -/
theorem register_of_live {now time : ℕ} {calls : List CoordinatorCall} {nodeId : String}
    (live : Live (metadataAfter env now calls) time nodeId) :
    ∃ info, (.register info ∈ calls ∨ info = env.self) ∧ info.nodeId = nodeId ∧
      info.role = "reader" := by
  rcases live with ⟨info, running, role⟩
  obtain ⟨expiry, found⟩ := Expiring.exists_of_read running
  rcases node_of_member found with ⟨expiry', written, named⟩ | own
  · exact ⟨info, register_of_accepted written, named, role⟩
  · have first : ([selfWrite env now].foldl Metadata.write .empty).members nodeId =
        some (info, expiry) := own
    rcases node_of_member first with ⟨expiry', written, named⟩ | none
    · cases List.mem_singleton.mp written
      exact ⟨env.self, Or.inr rfl, named, role⟩
    · cases none
/-! ## A run -/

/-- One reader refreshes before a delete, the other one after it. -/
def refreshedApart : List (FleetEvent 1) :=
  [.call (.insert [(1, zeroVec 1), (2, unitVec)]), .refresh "reader-0", .call (.delete [1]),
    .refresh "reader-1", .search "reader-0" 2]

/-- Whichever of the two readers is asked, it returns what was in force at its refresh. -/
theorem replicated_answer_refreshedApart :
    let env := soleCoordinator "Replicated"
    let c := (start env 0).2.serve env bothReaders
    ∃ (boot : Cluster 1 1) (cache : SegmentCache 1) (f : Fleet 1) (reply : SearchReply ℤ)
      (nodeId : String),
      Cluster.boot Env.counted ⟨1, 2, 2⟩ = .ok boot ∧ SegmentCache.new 0 20 false = .ok cache ∧
      runAll (Fleet.step Env.counted) ⟨boot, fun _ => cache⟩ refreshedApart = .ok f ∧
      (c.searchReaders env (respondFrom (bruteForce 1) f.readers (fun _ => none) (zeroVec 1) 2 1)
        2).1 = .ok reply ∧
      reply.hits ≠ [] ∧ reply.incomplete = false ∧ ∀ hit ∈ reply.hits, ∃ v,
        (hit.1, v) ∈ inForce (FleetEvent.past nodeId refreshedApart) ∧
          hit.2 = (bruteForce 1).l2 (zeroVec 1) v := by
  intro env c
  have snapshot : (metadataAfter env 0 bothReaders).registry.currentSnapshotId = 2 := by
    decide +kernel
  have evaluated : (do
      let boot : Cluster 1 1 ← Cluster.boot Env.counted ⟨1, 2, 2⟩
      let cache ← SegmentCache.new 0 20 false
      let f ← runAll (Fleet.step Env.counted) ⟨boot, fun _ => cache⟩ refreshedApart
      .ok (decide (StepsMeet (Fleet.step Env.counted) (fun f event => event.Int64 ∧ f.Spares event)
        ⟨boot, fun _ => cache⟩ refreshedApart ∧ ∀ nodeId ∈ ["reader-0", "reader-1"],
          ((f.readers nodeId).searchAll (bruteForce 1) (zeroVec 1) 2 1 2).1 ≠ []))) = .ok true := by
    decide +kernel
  obtain ⟨boot, booted, rest⟩ := ok_of_bind evaluated
  obtain ⟨cache, made, rest⟩ := ok_of_bind rest
  obtain ⟨f, ran, rest⟩ := ok_of_bind rest
  rw [Except.ok.injEq, decide_eq_true_eq] at rest
  rcases rest with ⟨meets, found⟩
  have replicated : env.searchFanoutMode.toLower = "replicated" := by decide +kernel
  have alive : ∃ nodeId, Live (metadataAfter env 0 bothReaders) (c.nextTime env) nodeId := by
    refine ⟨"reader-0", Option.map_eq_some_iff.mp ?_⟩
    decide +kernel
  obtain ⟨reply, answer, ⟨none, -⟩ | ⟨nodeId, live, ⟨failed, -⟩ | ⟨-, rfl, inPast⟩⟩⟩ :=
    replicated_answer (bruteForce 1) booted made meets ran replicated 0 bothReaders (fun _ => none)
      (zeroVec 1) 2 1
  · exact absurd alive none
  · exact absurd rfl failed
  · have asked : nodeId ∈ ["reader-0", "reader-1"] := by
      obtain ⟨info, registered | own, rfl, role⟩ := register_of_live live
      · simp only [bothReaders, List.mem_cons, CoordinatorCall.register.injEq, reduceCtorEq,
          List.not_mem_nil, or_false] at registered
        rcases registered with rfl | rfl
        · exact List.mem_cons_self
        · exact List.mem_cons_of_mem _ List.mem_cons_self
      · rw [own] at role
        exact absurd role (by decide)
    refine ⟨boot, cache, f, _, nodeId, booted, made, ran, answer, ?_, rfl, inPast⟩
    rw [snapshot]
    exact found nodeId asked

end Coordinator

end VecScale
