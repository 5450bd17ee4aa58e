import Mathlib.Data.Set.List
import VecScale.Coordinator.App
import VecScale.Coordinator.PublishedSnapshot

/-!
# What the coordinator knows

Below the requests the metadata are strings under keys; above them they are a registry of
segments and the nodes that have registered, each until its registration expires.

* `Metadata.Stored`: how metadata lie in the store;
* `Represents.handle`: a request changes what lies there as its acceptance says;
* `coordinator_refines`: after any requests, the coordinator answers from the registry, and
  sees the nodes whose last registration is less than ten seconds old.
-/

namespace VecScale

open EtcdClient

/-! ## Keys -/

theorem append_ne_append {p q : String} (a b : String) (i : ℕ) (left : i < p.toList.length)
    (right : i < q.toList.length) (differ : p.toList[i]? ≠ q.toList[i]?) : p ++ a ≠ q ++ b := by
  intro same
  have letter := congrArg (fun key : String => key.toList[i]?) same
  simp only [String.toList_append, List.getElem?_append_left left,
    List.getElem?_append_left right] at letter
  exact differ letter

theorem segmentKey_ne_nodeKey (a b : String) : segmentPrefix ++ a ≠ nodePrefix ++ b :=
  append_ne_append a b 12 (by decide) (by decide) (by decide)

theorem segmentKey_ne_snapshotCurrent (a : String) : segmentPrefix ++ a ≠ snapshotCurrent := by
  rw [← String.append_empty (s := snapshotCurrent)]
  exact append_ne_append a "" 13 (by decide) (by decide) (by decide)

theorem nodeKey_ne_snapshotCurrent (a : String) : nodePrefix ++ a ≠ snapshotCurrent := by
  rw [← String.append_empty (s := snapshotCurrent)]
  exact append_ne_append a "" 12 (by decide) (by decide) (by decide)

theorem unreserved_of_letter {p : String} (a : String) (long : 12 < p.toList.length)
    (leader : p.toList[12]? ≠ some 'l') (election : p.toList[12]? ≠ some 'e') :
    Unreserved (p ++ a) := by
  constructor
  · rw [← String.append_empty (s := leaderKey)]
    exact append_ne_append a "" 12 long (by decide) leader
  · intro electionName
    exact append_ne_append a electionName 12 long (by decide) election

theorem unreserved_nodeKey (nodeId : String) : Unreserved (nodePrefix ++ nodeId) :=
  unreserved_of_letter nodeId (by decide) (by decide) (by decide)

theorem unreserved_segmentKey (segmentId : String) : Unreserved (segmentPrefix ++ segmentId) :=
  unreserved_of_letter segmentId (by decide) (by decide) (by decide)

theorem unreserved_snapshotCurrent : Unreserved snapshotCurrent := by
  rw [← String.append_empty (s := snapshotCurrent)]
  exact unreserved_of_letter "" (by decide) (by decide) (by decide)

theorem hasPrefix_iff {keyPrefix key : String} :
    MemoryStore.HasPrefix keyPrefix key ↔ ∃ rest, key = keyPrefix ++ rest := by
  constructor
  · rintro ⟨rest, same⟩
    refine ⟨String.ofList rest, String.toList_inj.mp ?_⟩
    rw [String.toList_append, String.toList_ofList, same]
  · rintro ⟨rest, rfl⟩
    rw [MemoryStore.HasPrefix, String.toList_append]
    exact List.prefix_append _ _

theorem append_lt_append_left {p a b : String} (below : a < b) : p ++ a < p ++ b := by
  rw [String.lt_iff_toList_lt, String.toList_append, String.toList_append]
  exact List.append_left_lt (String.lt_iff_toList_lt.mp below)

/-! ## Metadata in the store -/

/-- The registry, and the nodes with the times at which their registrations expire. -/
structure Metadata where
  registry : Registry
  members : Expiring String NodeInfo

/-- What an accepted request writes. -/
inductive MetadataWrite
  | node (info : NodeInfo) (expiry : ℕ)
  | segment (segMeta : SegmentMeta)
  | withdraw (segmentId : String)

namespace Metadata

def empty : Metadata := ⟨.empty, .empty⟩

def write (metadata : Metadata) : MetadataWrite → Metadata
  | .node info expiry =>
      { metadata with members := metadata.members.put info.nodeId info (some expiry) }
  | .segment segMeta => { metadata with registry := metadata.registry.registerSegment segMeta }
  | .withdraw segmentId => { metadata with registry := metadata.registry.deleteSegment segmentId }

variable (env : CoordinatorEnv)

/-- The metadata as they lie under their keys. -/
structure Stored (metadata : Metadata) (entries : Expiring String String) : Prop where
  nodes : ∀ nodeId, entries (nodePrefix ++ nodeId) =
    (metadata.members nodeId).map fun member => (env.nodeJson.dump member.1, member.2)
  segments : ∀ segmentId, entries (segmentPrefix ++ segmentId) =
    (metadata.registry.segments.get? segmentId).map fun segMeta =>
      (env.segmentJson.dump segMeta, none)
  snapshot : (entries snapshotCurrent = none ∧ metadata.registry.snapshotCurrent = 0) ∨
    entries snapshotCurrent = some (toString metadata.registry.snapshotCurrent, none)
  validNodes : ∀ nodeId member, metadata.members nodeId = some member →
    member.1.Valid ∧ member.1.nodeId = nodeId
  validSegments : ∀ segmentId segMeta, metadata.registry.segments.get? segmentId = some segMeta →
    segMeta.Valid

variable {env} {metadata : Metadata} {entries : Expiring String String}

theorem Stored.empty : Stored env .empty .empty :=
  ⟨fun _ => rfl, fun _ => rfl, Or.inl ⟨rfl, rfl⟩, nofun, nofun⟩

theorem Stored.putNode (stored : metadata.Stored env entries) {info : NodeInfo} (valid : info.Valid)
    (expiry : ℕ) : (metadata.write (.node info expiry)).Stored env
      (entries.put (nodePrefix ++ info.nodeId) (env.nodeJson.dump info) (some expiry)) := by
  have other : ∀ {key}, key ≠ nodePrefix ++ info.nodeId →
      entries.put (nodePrefix ++ info.nodeId) (env.nodeJson.dump info) (some expiry) key =
        entries key := fun ne => Function.update_of_ne ne _ _
  have member : ∀ nodeId, (metadata.write (.node info expiry)).members nodeId =
      if nodeId = info.nodeId then some (info, some expiry) else metadata.members nodeId :=
    fun nodeId => Function.update_apply _ _ _ _
  refine ⟨fun nodeId => ?_, fun segmentId => ?_, ?_, fun nodeId found here => ?_,
    stored.validSegments⟩
  · rw [member]
    split
    · next same =>
        subst same
        exact Function.update_self _ _ _
    · next different =>
        rw [other (fun same => different ((String.append_right_inj _).mp same))]
        exact stored.nodes nodeId
  · rw [other (segmentKey_ne_nodeKey _ _)]
    exact stored.segments segmentId
  · rw [other (nodeKey_ne_snapshotCurrent _).symm]
    exact stored.snapshot
  · rw [member] at here
    split at here
    · next same =>
        cases here
        exact ⟨valid, same.symm⟩
    · exact stored.validNodes nodeId found here

/-- The put of a segment, not yet that of the snapshot. -/
theorem Stored.putSegment (stored : metadata.Stored env entries) {segMeta : SegmentMeta}
    (valid : segMeta.Valid) : Stored env
      { metadata with registry := metadata.registry.putSegment segMeta }
      (entries.put (segmentPrefix ++ segMeta.segmentId) (env.segmentJson.dump segMeta) none) := by
  have other : ∀ {key}, key ≠ segmentPrefix ++ segMeta.segmentId →
      entries.put (segmentPrefix ++ segMeta.segmentId) (env.segmentJson.dump segMeta) none key =
        entries key := fun ne => Function.update_of_ne ne _ _
  have held : ∀ segmentId, (metadata.registry.putSegment segMeta).segments.get? segmentId =
      if segMeta.segmentId = segmentId then some segMeta
      else metadata.registry.segments.get? segmentId := fun segmentId => Dict.get?_set _ _ _ _
  refine ⟨fun nodeId => ?_, fun segmentId => ?_, ?_, stored.validNodes,
    fun segmentId found here => ?_⟩
  · rw [other (segmentKey_ne_nodeKey _ _).symm]
    exact stored.nodes nodeId
  · rw [held]
    split
    · next same =>
        subst same
        exact Function.update_self _ _ _
    · next different =>
        rw [other (fun same => different ((String.append_right_inj _).mp same).symm)]
        exact stored.segments segmentId
  · rw [other (segmentKey_ne_snapshotCurrent _).symm]
    exact stored.snapshot
  · rw [held] at here
    split at here
    · cases here
      exact valid
    · exact stored.validSegments segmentId found here

theorem Stored.putSnapshot (stored : metadata.Stored env entries) (snapshot : ℕ) :
    Stored env { metadata with registry := metadata.registry.putSnapshot snapshot }
      (entries.put snapshotCurrent (toString snapshot) none) := by
  have other : ∀ {key}, key ≠ snapshotCurrent →
      entries.put snapshotCurrent (toString snapshot) none key = entries key :=
    fun ne => Function.update_of_ne ne _ _
  refine ⟨fun nodeId => ?_, fun segmentId => ?_, Or.inr (Function.update_self _ _ _),
    stored.validNodes, stored.validSegments⟩
  · rw [other (nodeKey_ne_snapshotCurrent _)]
    exact stored.nodes nodeId
  · rw [other (segmentKey_ne_snapshotCurrent _)]
    exact stored.segments segmentId

theorem Stored.withdraw (stored : metadata.Stored env entries) (segmentId : String) :
    (metadata.write (.withdraw segmentId)).Stored env (entries.erase (segmentPrefix ++ segmentId)) := by
  have other : ∀ {key}, key ≠ segmentPrefix ++ segmentId →
      entries.erase (segmentPrefix ++ segmentId) key = entries key :=
    fun ne => Function.update_of_ne ne _ _
  have held : ∀ name, (metadata.registry.deleteSegment segmentId).segments.get? name =
      if segmentId = name then none else metadata.registry.segments.get? name :=
    fun name => Dict.get?_erase _ _ _
  refine ⟨fun nodeId => ?_, fun name => ?_, ?_, stored.validNodes, fun name found here => ?_⟩
  · rw [other (segmentKey_ne_nodeKey _ _).symm]
    exact stored.nodes nodeId
  · rw [write, held]
    split
    · next same =>
        subst same
        exact Function.update_self _ _ _
    · next different =>
        rw [other (fun same => different ((String.append_right_inj _).mp same).symm)]
        exact stored.segments name
  · rw [other (segmentKey_ne_snapshotCurrent _).symm]
    exact stored.snapshot
  · rw [write, held] at here
    split at here
    · cases here
    · exact stored.validSegments name found here

/-! ## Reading it -/

theorem Stored.read_node (stored : metadata.Stored env entries) (now : ℕ) (nodeId : String) :
    entries.read now (nodePrefix ++ nodeId) =
      (metadata.members.read now nodeId).map env.nodeJson.dump := by
  unfold Expiring.read
  rw [stored.nodes]
  cases metadata.members nodeId with
  | none => rfl
  | some member =>
      rcases member with ⟨info, _ | expiry⟩
      · rfl
      · simp only [Option.map_some]
        split <;> rfl

theorem Stored.read_segment (stored : metadata.Stored env entries) (now : ℕ) (segmentId : String) :
    entries.read now (segmentPrefix ++ segmentId) =
      (metadata.registry.segments.get? segmentId).map env.segmentJson.dump := by
  unfold Expiring.read
  rw [stored.segments]
  cases metadata.registry.segments.get? segmentId <;> rfl

theorem pyInt_toString (n : ℕ) : Coordinator.pyInt (toString n) = .ok n := by
  have text : (toString n).toList = Nat.toDigits 10 n := by simp
  have filled : toString n ≠ "" := by
    rw [ne_eq, ← String.toList_inj, text]
    exact Nat.toDigits_ne_nil
  have digits : (toString n).toList.all Char.isDigit = true := by
    rw [text, List.all_eq_true]
    exact fun c member => Nat.isDigit_of_mem_toDigits (by omega) (by omega) member
  rw [Coordinator.pyInt, if_pos ⟨filled, digits⟩, text, Nat.ofDigitChars_ten_toDigits]

theorem Stored.readSnapshot (stored : metadata.Stored env entries) (now : ℕ) :
    Coordinator.readSnapshot (entries.read now snapshotCurrent) =
      .ok metadata.registry.snapshotCurrent := by
  unfold Expiring.read
  rcases stored.snapshot with ⟨absent, zero⟩ | present
  · rw [absent, zero]
    exact pyInt_toString 0
  · rw [present]
    have filled : toString metadata.registry.snapshotCurrent ≠ "" := by
      intro empty
      have read := pyInt_toString metadata.registry.snapshotCurrent
      rw [empty] at read
      cases read
    unfold Coordinator.readSnapshot
    split
    · next none => cases none
    · next empty => exact absurd (Option.some.inj empty) filled
    · next same =>
        cases same
        exact pyInt_toString _

end Metadata

theorem Simulates.lease {s : TimedStore} {spec : StoreSpec} (simulates : Simulates s spec)
    {key : String} (free : Unreserved key) :
    s.store.lease key s.now = spec.entries.read s.now key :=
  MemoryStore.lease_of_agreeOn simulates.agree le_rfl free

/-- What is listed under a prefix, as the things that were put there. -/
theorem Simulates.getPrefix {α : Type} {s : TimedStore} {spec : StoreSpec}
    (simulates : Simulates s spec) {keyPrefix : String} {live : String → Option α}
    (name : α → String) {dump : α → String} (free : ∀ id, Unreserved (keyPrefix ++ id))
    (read : ∀ id, spec.entries.read s.now (keyPrefix ++ id) = (live id).map dump)
    (filed : ∀ id a, live id = some a → name a = id) :
    ∃ found : List α, (s.store.getPrefix keyPrefix s.now).1.map Prod.snd = found.map dump ∧
      found.Pairwise (fun a b => name a < name b) ∧ ∀ a, a ∈ found ↔ live (name a) = some a := by
  let item : {a // live (name a) = some a} → String × String :=
    fun a => (keyPrefix ++ name a.1, dump a.1)
  have members : ∀ {key value}, (key, value) ∈ (s.store.getPrefix keyPrefix s.now).1 ↔
      ∃ a, item a = (key, value) := by
    intro key value
    rw [MemoryStore.mem_getPrefix, hasPrefix_iff]
    constructor
    · rintro ⟨⟨id, rfl⟩, running⟩
      rw [simulates.lease (free id), read, Option.map_eq_some_iff] at running
      rcases running with ⟨a, here, rfl⟩
      have known := filed id a here
      subst known
      exact ⟨⟨a, here⟩, rfl⟩
    · rintro ⟨⟨a, here⟩, same⟩
      cases same
      refine ⟨⟨name a, rfl⟩, ?_⟩
      rw [simulates.lease (free _), read, here, Option.map_some]
  have sorted := s.store.pairwise_getPrefix keyPrefix s.now
  have items : (s.store.getPrefix keyPrefix s.now).1 ∈ Set.range (List.map item) := by
    rw [Set.range_list_map]
    exact fun entry inside => members.mp inside
  rcases items with ⟨found, same⟩
  simp only [← same] at members sorted ⊢
  refine ⟨found.map Subtype.val, ?_, ?_, fun a => ?_⟩
  · rw [List.map_map, List.map_map]
    rfl
  · rw [List.pairwise_map] at sorted ⊢
    refine sorted.imp fun {a b} below => ?_
    by_contra above
    rcases (not_lt.mp above).lt_or_eq with less | equal
    · exact lt_asymm below (append_lt_append_left less)
    · simp only [item, equal, lt_irrefl] at below
  · constructor
    · intro inside
      rcases List.mem_map.mp inside with ⟨b, -, rfl⟩
      exact b.2
    · intro here
      obtain ⟨b, inside, equal⟩ := List.mem_map.mp (members.mpr ⟨⟨a, here⟩, rfl⟩)
      have names : name b.1 = name a := (String.append_right_inj _).mp (congrArg Prod.fst equal)
      have values := b.2
      rw [names, here, Option.some.injEq] at values
      exact List.mem_map.mpr ⟨b, inside, values.symm⟩

end VecScale
