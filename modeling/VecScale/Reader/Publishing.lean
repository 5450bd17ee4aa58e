import VecScale.Reader.VisibilityIndex
import VecScale.Writer.Registration

/-!
# What a writer publishes

The names of a writer's segments stand for one segment each for as long as the
writer works: there is a library that it publishes, and a call only adds to it.

* `Library.Publishes.extend`: a call adds names and changes none;
* `Library.Sound.extend`: a reader's cache stays sound when the library grows;
* `Cluster.Registered.lists`: the coordinator lists what the library says.
-/

namespace VecScale

variable {dim numShards : ℕ} {env : Env} {library library' : Library dim}
  {cache : SegmentCache dim} {st : SharedStorage dim}

/-- The library says what the segments of a writer are, and no name that is still to
be drawn stands for anything. -/
structure Library.Publishes (env : Env) (library : Library dim) (segments : List (Segment dim))
    (st : SharedStorage dim) : Prop where
  intact : library.Intact st
  named : ∀ seg ∈ segments, library seg.segmentId = seg
  path : ∀ name, (library name).path = segmentPath (library name).segmentId
  drawn : ∀ name shard snapshot draw,
    (library name).segmentId = segmentName shard snapshot (env.uuid.hex draw) → draw < st.uuids

/-- A new writer publishes nothing. -/
theorem Library.exists_publishes (dim : ℕ) (env : Env) :
    ∃ library : Library dim, library.Publishes env [] SharedStorage.empty := by
  let blank : Segment dim := ⟨⟨"", 0, 0, 0, segmentPath ""⟩, segmentPath "", ⟨none, []⟩, none⟩
  refine ⟨fun _ => blank, ⟨?_, ?_, ?_⟩, by simp, fun _ => rfl, ?_⟩
  · intro name found member
    cases member
  · intro name found member
    cases member
  · intro name found member
    cases member
  · intro name shard snapshot draw same
    have lengths := congrArg String.length same
    have dash : "-".length = 1 := rfl
    simp only [segmentName, String.length_append, dash] at lengths
    change 0 = _ at lengths
    omega

/-- What a directory holds, if anything, is what `published` says. -/
def Segment.Explains (published : Segment dim) (files : SegmentFiles dim) : Prop :=
  (∀ segMeta ∈ files.metaJson, segMeta = published.segMeta) ∧
    (∀ index ∈ files.indexFaiss, index = published.index) ∧
    ∀ ids ∈ files.idsNpy, ids = batchIds published.rows

theorem Library.intact_iff : library.Intact st ↔ ∀ name files,
    st.segmentDirs.get? (library name).path = some files → (library name).Explains files := by
  constructor
  · intro intact name files here
    have found : st.files (library name).path = files := by
      rw [SharedStorage.files, here, Option.getD_some]
    exact ⟨found ▸ intact.metaJson name, found ▸ intact.indexFaiss name, found ▸ intact.idsNpy name⟩
  · intro explains
    have all : ∀ name, (library name).Explains (st.files (library name).path) := by
      intro name
      unfold SharedStorage.files
      cases here : st.segmentDirs.get? (library name).path with
      | none => exact ⟨by simp, by simp, by simp⟩
      | some files => exact explains name files here
    exact ⟨fun name => (all name).1, fun name => (all name).2.1, fun name => (all name).2.2⟩

theorem Segment.Stored.explains {seg : Segment dim} (stored : seg.Stored st)
    {files : SegmentFiles dim} (here : st.segmentDirs.get? seg.path = some files) :
    seg.Explains files := by
  rw [stored.files, Option.some.injEq] at here
  subst here
  simp only [Explains, Segment.files, Option.mem_some_iff]
  exact ⟨fun _ same => same.symm, fun _ same => same.symm, fun _ same => same.symm⟩

/-- The library with some segments added, under names that are not in use. -/
def Library.grown (library : Library dim) (added : List (Segment dim)) : Library dim := fun name =>
  if (library name).segmentId = name then library name
  else (added.find? fun seg => seg.segmentId = name).getD (library name)

/-- A name is the library's own, or that of a segment that was added. -/
theorem Library.grown_cases (library : Library dim) (added : List (Segment dim)) (name : String) :
    library.grown added name = library name ∨
      library.grown added name ∈ added ∧ (library.grown added name).segmentId = name := by
  unfold Library.grown
  split
  · exact Or.inl rfl
  · cases here : added.find? fun seg => seg.segmentId = name with
    | none => exact Or.inl rfl
    | some seg =>
        exact Or.inr ⟨List.mem_of_find?_eq_some here, by simpa using List.find?_some here⟩

theorem Library.grown_segmentId {added : List (Segment dim)} {seg : Segment dim}
    (member : seg ∈ added)
    (unique : ∀ other ∈ added, other.segmentId = seg.segmentId → other = seg)
    (unused : (library seg.segmentId).segmentId ≠ seg.segmentId) :
    library.grown added seg.segmentId = seg := by
  rw [Library.grown, if_neg unused]
  cases here : added.find? fun other => other.segmentId = seg.segmentId with
  | none => simpa using List.find?_eq_none.mp here seg member
  | some other =>
      have same : other.segmentId = seg.segmentId := by simpa using List.find?_some here
      exact unique other (List.mem_of_find?_eq_some here) same

/-- Storage that grows draws no name that the library uses. -/
theorem Library.Publishes.dir_before {segments : List (Segment dim)} {st' : SharedStorage dim}
    (publishes : library.Publishes env segments st) (grows : SharedStorage.Grows env.uuid st st')
    {name : String} {files : SegmentFiles dim}
    (here : st'.segmentDirs.get? (library name).path = some files) :
    st.segmentDirs.get? (library name).path = some files := by
  rcases grows.dirs _ _ here with kept | ⟨shard, snapshot, draw, new, -, named⟩
  · exact kept
  · rw [publishes.path] at named
    have old := publishes.drawn name shard snapshot draw (segmentPath_injective named)
    omega

/-- New segments add names to the library and change none that are in use. -/
theorem Library.Publishes.grow {segments segments' : List (Segment dim)}
    {st' : SharedStorage dim} (publishes : library.Publishes env segments st)
    (stored : ∀ seg ∈ segments', seg.Stored st' ∧ st'.Drawn env.uuid)
    (old : ∀ seg ∈ segments', seg.Stored st → seg ∈ segments)
    (grows : SharedStorage.Grows env.uuid st st') :
    ∃ library' : Library dim, library'.Publishes env segments' st' ∧
      ∀ name, (library name).segmentId = name → library' name = library name := by
  have origin := library.grown_cases segments'
  refine ⟨library.grown segments', ⟨Library.intact_iff.mpr fun name files here => ?_,
    fun seg member => ?_, fun name => ?_, fun name shard snapshot draw named => ?_⟩,
    fun name used => if_pos used⟩
  · rcases origin name with old | ⟨new, -⟩
    · rw [old] at here ⊢
      exact Library.intact_iff.mp publishes.intact name files (publishes.dir_before grows here)
    · exact (stored _ new).1.explains here
  · have here := (stored seg member).1
    by_cases used : (library seg.segmentId).segmentId = seg.segmentId
    · -- a segment under a name that is in use was there before
      have path : (library seg.segmentId).path = seg.path := by
        rw [publishes.path, used, here.path]
      have before := publishes.dir_before grows (path.symm ▸ here.files)
      rw [path] at before
      rw [Library.grown, if_pos used]
      exact publishes.named seg
        (old seg member ⟨before, here.path, here.metaPath, here.uncached⟩)
    · exact Library.grown_segmentId member
        (fun other listed same => (stored other listed).1.unique_name here same) used
  · rcases origin name with old | ⟨new, -⟩
    · rw [old]
      exact publishes.path name
    · exact (stored _ new).1.path
  · rcases origin name with old | ⟨new, -⟩
    · rw [old] at named
      exact (publishes.drawn name shard snapshot draw named).trans_le grows.uuids
    · obtain ⟨here, drawn⟩ := stored _ new
      obtain ⟨shard', snapshot', draw', made, path⟩ :=
        drawn _ (Dict.mem_keys_iff.mpr ⟨_, here.files⟩)
      rw [here.path, named] at path
      rwa [segmentName_hex env.uuid (segmentPath_injective path)]

/-- A call of the writer. -/
theorem Library.Publishes.extend {c c' : Cluster dim numShards}
    (publishes : library.Publishes env c.writer.segments c.storage) (sound : c.Sound env)
    (sound' : c'.Sound env) (grows : SharedStorage.Grows env.uuid c.storage c'.storage) :
    ∃ library' : Library dim, library'.Publishes env c'.writer.segments c'.storage ∧
      ∀ name, (library name).segmentId = name → library' name = library name :=
  publishes.grow (fun _ member => sound'.stored member)
    (fun _ member stored => sound.mem_of_stored stored (sound'.shard_lt member)) grows

/-- A cache stays sound when the library grows. -/
theorem Library.Sound.extend (sound : library.Sound cache) (current : cache.Current)
    (kept : ∀ name, (library name).segmentId = name → library' name = library name) :
    library'.Sound cache := by
  have same : ∀ name, name ∈ cache.visibilitySignature.map Prod.fst →
      library' name = library name := by
    intro name member
    obtain ⟨seg, found⟩ := Dict.mem_keys_iff.mp ((current name).mp member)
    exact kept name (sound.cached name seg found).1
  refine ⟨fun name seg found => ?_, fun name x => ?_⟩
  · obtain ⟨named, copies⟩ := sound.cached name seg found
    rw [kept name named]
    exact ⟨named, copies⟩
  · rw [sound.indexes name x]
    refine and_congr_right fun listed => ?_
    rw [same name listed]
    refine and_congr_right fun _ => exists_congr fun other => and_congr_right fun listed' => ?_
    rw [same other listed']

/-- The coordinator lists what the library says. -/
theorem Cluster.Registered.lists {c : Cluster dim numShards} (registered : c.Registered)
    (sound : c.Sound env) (publishes : library.Publishes env c.writer.segments c.storage) :
    library.Lists c.registry.listSegments := by
  intro segMeta listed
  obtain ⟨seg, member, rfl⟩ := (registered.2 segMeta).mp listed
  rw [publishes.named seg member]
  exact ⟨rfl, (sound.stored member).1.metaPath.symm⟩

end VecScale
