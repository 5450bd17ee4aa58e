import VecScale.Storage.Visible
import VecScale.Writer.ShardTombstones

/-!
# The rows in force

A row is in force from its insert to the next delete of its id.  A reader that goes
by the segments and the tombstones of an engine is served rows in force as long as
the tombstone of an id outlives the id's old rows in the segments.

* `Call.KeepsBuried`: the condition on one call;
* `Served.ran`: a call that meets it keeps the old rows out of reach.
-/

namespace VecScale

variable {dim : ℕ} {env : Env} {n n' : Node dim} {old recent : List (WALRecord dim)}

/-- What a call does to the rows in force. -/
def Call.enforce (rows : List (Row dim)) : Call dim → List (Row dim)
  | .insert new => rows ++ new
  | .delete ids => rows.filter fun row => row.1 ∉ ids

/-- The rows inserted and not deleted since. -/
def inForce (calls : List (Call dim)) : List (Row dim) := calls.foldl Call.enforce []

theorem inForce_concat (calls : List (Call dim)) (request : Call dim) :
    inForce (calls ++ [request]) = request.enforce (inForce calls) := by
  rw [inForce, List.foldl_append]
  rfl

/-- An insert that leaves its rows in the memtable names no tombstoned id with rows in
a segment; one that starts a merge leaves no row of an id whose tombstone the merge
drops. -/
def Call.KeepsBuried (engine : LSMEngine dim) : Call dim → Prop
  | .insert rows =>
      (¬ engine.Fills rows → ∀ x ∈ batchIds rows, x ∈ engine.tombstones →
        x ∉ segmentIds engine.segments) ∧
      (engine.Fills rows → engine.FlushMerges (engine.written rows) → ∀ x ∈ engine.tombstones,
        x ∉ batchIds rows → x ∈ segmentIds engine.toMerge → x ∉ segmentIds engine.remaining)
  | .delete _ => True

instance (engine : LSMEngine dim) : (request : Call dim) → Decidable (request.KeepsBuried engine)
  | .insert _ => inferInstanceAs (Decidable (_ ∧ _))
  | .delete _ => inferInstanceAs (Decidable True)

/-- What readers can be served of an engine is in force. -/
structure Served (n : Node dim) (rows : List (Row dim)) : Prop where
  persisted : n.storage.tombstonesJson.load = n.engine.tombstones
  marked : n.engine.Marked
  memtable : ∀ x e v, n.engine.memtable.entries.get? x = some e → e.vector = some v → (x, v) ∈ rows
  segments : ∀ x v, x ∉ n.engine.tombstones → newestRow n.engine.segments x = some v →
    (x, v) ∈ rows

/-! ## Flush -/

theorem entry_or_segment {x : ℤ} {v : Vec dim}
    (found : ((n.engine.memtable.entries.get? x).bind MemTableEntry.vector).or
      (newestRow n.engine.segments x) = some v) :
    (∃ e, n.engine.memtable.entries.get? x = some e ∧ e.vector = some v) ∨
      ((∀ e, n.engine.memtable.entries.get? x = some e → e.vector = none) ∧
        newestRow n.engine.segments x = some v) := by
  rcases Option.or_eq_some_iff.mp found with here | ⟨nothing, before⟩
  · exact Or.inl (Option.bind_eq_some_iff.mp here)
  · refine Or.inr ⟨fun e entry => ?_, before⟩
    rw [entry] at nothing
    exact nothing

/-- A merge right after a flush leaves what it would leave before, and the new segment if
that is not among the first. -/
theorem remaining_sealMemtable (marked : n.engine.Marked)
    (segments : (LSMEngine.sealMemtable env (LSMEngine.captureDeletes n)).2.engine.segments =
      n.engine.segments ++ [(LSMEngine.sealMemtable env (LSMEngine.captureDeletes n)).1]) :
    (LSMEngine.sealMemtable env (LSMEngine.captureDeletes n)).2.engine.remaining =
      n.engine.remaining ++ [(LSMEngine.sealMemtable env (LSMEngine.captureDeletes n)).1].drop
        (n.engine.mergeThreshold - n.engine.segments.length) := by
  obtain ⟨engine, -⟩ := LSMEngine.captureDeletes_of_marked marked
  have threshold : (LSMEngine.sealMemtable env
      (LSMEngine.captureDeletes n)).2.engine.mergeThreshold = n.engine.mergeThreshold := by
    rw [LSMEngine.sealMemtable_mergeThreshold, engine]
  rw [LSMEngine.remaining, segments, threshold, List.drop_append]
  rfl

/-- Where the newest row of an id comes from after a flush: the memtable, the segments,
or a segment that a merge left while it dropped the tombstone of the id. -/
theorem Flushed.source_of_row {out : Option (Segment dim)} (flushed : Flushed env n out n')
    (layout : Layout env n old recent) (marked : n.engine.Marked) {x : ℤ} {v : Vec dim}
    (live : x ∉ n'.engine.tombstones) (row : newestRow n'.engine.segments x = some v) :
    (∃ e, n.engine.memtable.entries.get? x = some e ∧ e.vector = some v) ∨
      ((∀ e, n.engine.memtable.entries.get? x = some e → e.vector = none) ∧
        x ∉ n.engine.tombstones ∧ newestRow n.engine.segments x = some v) ∨
      (x ∈ n.engine.tombstones ∧ n.engine.FlushMerges n.engine.memtable ∧
        x ∈ segmentIds n.engine.toMerge ∧ x ∈ segmentIds n.engine.remaining) := by
  obtain ⟨tombstones, -, -⟩ := flushed.leaves layout marked
  obtain ⟨engine, -⟩ := LSMEngine.captureDeletes_of_marked marked
  have captured := layout.captureDeletes
  cases flushed with
  | nothing dead =>
      rw [engine] at dead
      have kept : newestRow n.engine.segments x = some v := engine ▸ row
      have untombstoned : x ∉ n.engine.tombstones := engine ▸ live
      exact Or.inr (Or.inl ⟨dead x, untombstoned, kept⟩)
  | sealedOnly sealable few =>
      obtain ⟨y, e, entry⟩ := MemTable.exists_of_live sealable
      obtain ⟨segments, -⟩ := captured.sealMemtable entry
      have untombstoned : x ∉ n.engine.tombstones := engine ▸ live
      rw [segments, newestRow_sealed, engine] at row
      exact (entry_or_segment row).imp_right fun before =>
        Or.inl ⟨before.1, untombstoned, before.2⟩
  | merged sealable enough merged =>
      obtain ⟨y, e, entry⟩ := MemTable.exists_of_live sealable
      obtain ⟨segments, -⟩ := captured.sealMemtable entry
      rw [engine] at segments sealable
      have merges : n.engine.FlushMerges n.engine.memtable :=
        ⟨fun none => sealable (MemTable.toArrays_eq_nil_iff.mp none), enough⟩
      have kept : (LSMEngine.sealMemtable env (LSMEngine.captureDeletes n)).2.engine.tombstones =
          n.engine.tombstones := by
        rw [LSMEngine.sealMemtable_tombstones, engine]
      rw [merged.newestRow_segments, kept] at row
      by_cases tombstoned : x ∈ n.engine.tombstones
      · right
        right
        rw [if_pos tombstoned, Option.or_none] at row
        rw [tombstones, if_pos merges, Finset.mem_sdiff, not_and_not_right,
          List.mem_toFinset] at live
        refine ⟨tombstoned, merges, live tombstoned, mem_segmentIds.mpr fun none => ?_⟩
        -- the sealed memtable has no row of a tombstoned id either
        rw [remaining_sealMemtable marked segments, newestRow_append, none, Option.or_none] at row
        rw [newestRow_eq_none_iff.mpr fun seg member => ?_] at row
        · cases row
        · rw [List.mem_singleton.mp (List.mem_of_mem_drop member)]
          exact LSMEngine.notMem_sealed captured (engine ▸ tombstoned)
      · rw [if_neg tombstoned, ← newestRow_append, LSMEngine.toMerge_append_remaining, segments,
          newestRow_sealed, engine] at row
        exact (entry_or_segment row).imp_right fun before =>
          Or.inl ⟨before.1, tombstoned, before.2⟩

/-! ## One call -/

/-- The live memtable rows after an insert are those of the batch and of before. -/
theorem Served.inserted {rows : List (Row dim)} (served : Served n rows) {batch : List (Row dim)}
    {lsn : ℕ} {x : ℤ} {e : MemTableEntry dim} {v : Vec dim}
    (entry : (n.engine.memtable.insert batch lsn).entries.get? x = some e)
    (vector : e.vector = some v) : (x, v) ∈ rows ++ batch := by
  rw [MemTable.get?_insert] at entry
  rw [List.mem_append]
  rcases Option.or_eq_some_iff.mp entry with here | ⟨-, before⟩
  · rcases Option.map_eq_some_iff.mp here with ⟨w, written, rfl⟩
    cases vector
    exact Or.inr (Dict.mem_of_lastWrite written)
  · exact Or.inl (served.memtable x e v before vector)

/-- The live rows of the memtable stay in force. -/
theorem Served.memtable_ran {rows : List (Row dim)} {request : Call dim} (served : Served n rows)
    (layout : Layout env n old recent) (ran : Ran env n (old ++ recent) request.op n') {x : ℤ}
    {e : MemTableEntry dim} {v : Vec dim} (entry : n'.engine.memtable.entries.get? x = some e)
    (vector : e.vector = some v) : (x, v) ∈ request.enforce rows := by
  cases request with
  | insert batch =>
      cases ran with
      | insert appended room =>
          rw [LSMEngine.applyInsert_engine] at entry
          exact served.inserted entry vector
      | insertFlush appended full flushed =>
          obtain ⟨log, after⟩ := flushed.layout
            (layout.applyInsert appended.holds appended.opened appended.lastLsn)
          rw [after.memtable x] at entry
          cases entry
  | delete ids =>
      cases ran with
      | delete appended =>
          change (n.engine.memtable.delete ids _).entries.get? x = some e at entry
          rw [MemTable.get?_delete] at entry
          split at entry
          · cases entry
            cases vector
          · next spared =>
              have before := served.memtable x e v entry vector
              exact List.mem_filter.mpr ⟨before, decide_eq_true spared⟩

/-- A row that an insert with a flush brings up is of the batch, or was in force. -/
theorem Served.segments_insertFlush {rows batch : List (Row dim)} (served : Served n rows)
    {wal : WAL} {out : Option (Segment dim)}
    (layout : Layout env (LSMEngine.applyInsert n wal (n.engine.wal.lastLsn + 1) batch) old recent)
    (full : n.engine.Fills batch)
    (flushed : Flushed env (LSMEngine.applyInsert n wal (n.engine.wal.lastLsn + 1) batch) out n')
    (keeps : (Call.insert batch).KeepsBuried n.engine) {x : ℤ} {v : Vec dim}
    (live : x ∉ n'.engine.tombstones) (row : newestRow n'.engine.segments x = some v) :
    (x, v) ∈ rows ++ batch := by
  obtain ⟨-, marked⟩ := applyInsert_leaves served.marked wal batch (n.engine.wal.lastLsn + 1)
  have source := flushed.source_of_row layout marked live row
  rw [LSMEngine.applyInsert_engine] at source
  rcases source with ⟨e, entry, vector⟩ | ⟨dead, untombstoned, before⟩ |
      ⟨tombstoned, merges, taken, left⟩
  · exact served.inserted entry vector
  · refine List.mem_append_left _ (served.segments x v (fun tombstoned => ?_) before)
    rw [Finset.mem_sdiff, List.mem_toFinset, not_and_not_right] at untombstoned
    obtain ⟨w, last⟩ := Option.isSome_iff_exists.mp
      (Dict.lastWrite_isSome_iff.mpr (untombstoned tombstoned))
    cases dead (.live w _) (by rw [MemTable.get?_insert, last]; rfl)
  · rw [Finset.mem_sdiff, List.mem_toFinset] at tombstoned
    exact absurd left (keeps.2 full merges x tombstoned.1 tombstoned.2 taken)

/-- **The step lemma.**  A call that keeps the old rows buried leaves only rows in
force to be served. -/
theorem Served.ran {rows : List (Row dim)} {request : Call dim} (served : Served n rows)
    (layout : Layout env n old recent) (ran : Ran env n (old ++ recent) request.op n')
    (keeps : request.KeepsBuried n.engine) : Served n' (request.enforce rows) := by
  have leaves := leaves_of_run ran layout served.marked
  have persisted : n'.storage.tombstonesJson.load = n'.engine.tombstones := by
    rw [leaves.file]
    unfold rewritten
    split
    · rfl
    · next quiet => rw [served.persisted, leaves.tombstones, tombstonesLeft_of_quiet quiet]
  refine ⟨persisted, leaves.marked, ?_, ?_⟩
  · intro x e v entry vector
    exact served.memtable_ran layout ran entry vector
  · intro x v live row
    cases request with
    | insert batch =>
        cases ran with
        | insert appended room =>
            rw [LSMEngine.applyInsert_engine] at live row
            rw [Finset.mem_sdiff, List.mem_toFinset, not_and_not_right] at live
            refine List.mem_append_left _ (served.segments x v (fun tombstoned => ?_) row)
            have named := live tombstoned
            refine keeps.1 (Bool.eq_false_iff.mp room) x named tombstoned (mem_segmentIds.mpr ?_)
            rw [row]
            exact Option.some_ne_none v
        | insertFlush appended full flushed =>
            have written := layout.applyInsert appended.holds appended.opened appended.lastLsn
            exact served.segments_insertFlush written full flushed keeps live row
    | delete ids =>
        cases ran with
        | delete appended =>
            change x ∉ n.engine.tombstones ∪ ids.toFinset at live
            rw [Finset.mem_union, List.mem_toFinset, not_or] at live
            have before := served.segments x v live.1 row
            exact List.mem_filter.mpr ⟨before, decide_eq_true live.2⟩

end VecScale
