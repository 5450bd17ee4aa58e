import VecScale.Storage.Merging

/-!
# What each call does

`Ran` lists, over a node with a layout, which pieces a completed call ran and the
node it ended on; `run_cases` is the inversion lemma of `Node.run`.

* `Ran.layout`: every completed call keeps the layout;
* `run_of_packs`: a call whose record packs completes;
* `boot_fresh` and `start_reborn`: a start on empty directories, and one on
  whatever a node with a layout left;
* `history_carries`: the run rule for the runs of a new engine.
-/

namespace VecScale

variable {dim : ℕ} {env : Env} {n n' : Node dim} {old recent : List (WALRecord dim)}

namespace LSMEngine

theorem ensureStarted_of_started (started : n.engine.started = true) :
    ensureStarted n = .ok () := by
  rw [ensureStarted, if_pos started]

end LSMEngine

/-- Every memtable entry is a delete marker. -/
def MemTable.Dead (mem : MemTable dim) : Prop :=
  ∀ x e, mem.entries.get? x = some e → e.vector = none

theorem MemTable.toArrays_eq_nil_iff {mem : MemTable dim} : mem.toArrays none = [] ↔ mem.Dead := by
  rw [List.eq_nil_iff_forall_not_mem]
  constructor
  · intro empty x e entry
    cases vector : e.vector with
    | none => rfl
    | some v => exact absurd (mem_toArrays.mpr ⟨e, entry, rfl, vector⟩) (empty (x, v))
  · rintro dead ⟨x, v⟩ listed
    rcases mem_toArrays.mp listed with ⟨e, entry, -, vector⟩
    rw [dead x e entry] at vector
    cases vector

/-- How a flush went: nothing to write, a new segment, or a new segment and a merge. -/
inductive Flushed (env : Env) (n : Node dim) : Option (Segment dim) → Node dim → Prop
  | nothing (dead : (LSMEngine.captureDeletes n).engine.memtable.Dead) :
      Flushed env n none (LSMEngine.clearMemtable (LSMEngine.captureDeletes n))
  | sealedOnly (live : ¬ (LSMEngine.captureDeletes n).engine.memtable.Dead)
      (few : n.engine.segments.length + 1 < n.engine.mergeThreshold) :
      Flushed env n (some (LSMEngine.sealMemtable env (LSMEngine.captureDeletes n)).1)
        (LSMEngine.sealMemtable env (LSMEngine.captureDeletes n)).2
  | merged (live : ¬ (LSMEngine.captureDeletes n).engine.memtable.Dead) {n' : Node dim}
      {front : List (Segment dim)}
      (enough : n.engine.mergeThreshold ≤ n.engine.segments.length + 1)
      (merged : Merged env (LSMEngine.sealMemtable env (LSMEngine.captureDeletes n)).2 n' front) :
      Flushed env n (some (LSMEngine.sealMemtable env (LSMEngine.captureDeletes n)).1) n'

/-- A memtable that is not dead has an entry. -/
theorem MemTable.exists_of_live {mem : MemTable dim} (live : ¬ mem.Dead) :
    ∃ x e, mem.entries.get? x = some e := by
  simp only [Dead, not_forall] at live
  rcases live with ⟨x, e, entry, -⟩
  exact ⟨x, e, entry⟩

theorem flush_cases (layout : Layout env n old recent) :
    ∃ out n', LSMEngine.flush env n = .ok (out, n') ∧ Flushed env n out n' := by
  let captured := LSMEngine.captureDeletes n
  have capturedLayout := layout.captureDeletes
  have unfolded : LSMEngine.flush env n =
      if captured.engine.memtable.toArrays none = [] ∨ captured.engine.memtable.maxLsn = 0 then
        .ok (none, LSMEngine.clearMemtable captured)
      else
        let sealedMem := LSMEngine.sealMemtable env captured
        if sealedMem.2.engine.mergeThreshold ≤ sealedMem.2.engine.segments.length then
          (LSMEngine.merge env sealedMem.2).bind fun merged => .ok (some sealedMem.1, merged.2)
        else .ok (some sealedMem.1, sealedMem.2) := by
    simp only [LSMEngine.flush, LSMEngine.ensureStarted_of_started layout.started]
    rfl
  by_cases dead : captured.engine.memtable.Dead
  · have nothing := MemTable.toArrays_eq_nil_iff.mpr dead
    exact ⟨none, _, unfolded.trans (if_pos (Or.inl nothing)), .nothing dead⟩
  · obtain ⟨x, e, entry⟩ := MemTable.exists_of_live dead
    obtain ⟨segments, tail, sealedLayout, -⟩ := capturedLayout.sealMemtable entry
    have threshold : (LSMEngine.sealMemtable env captured).2.engine.mergeThreshold =
        n.engine.mergeThreshold := by
      simp only [captured, LSMEngine.sealMemtable_mergeThreshold, LSMEngine.captureDeletes_engine]
    have capturedSegments : captured.engine.segments = n.engine.segments := by
      simp only [captured, LSMEngine.captureDeletes_engine]
    have something : ¬ (captured.engine.memtable.toArrays none = [] ∨
        captured.engine.memtable.maxLsn = 0) := by
      rintro (empty | zero)
      · exact dead (MemTable.toArrays_eq_nil_iff.mp empty)
      · obtain ⟨record, member, lsn⟩ := capturedLayout.maxLsn entry
        have positive := layout.positive record (List.mem_append_right _ member)
        rw [lsn] at positive
        exact absurd zero positive.ne'
    rw [if_neg something] at unfolded
    rcases merge_cases sealedLayout.started sealedLayout.segments with
      ⟨few, -⟩ | ⟨enough, out, n', front, ran, merged⟩
    · refine ⟨_, _, unfolded.trans (if_neg (not_le.mpr few)), .sealedOnly dead ?_⟩
      rw [threshold, segments, List.length_append, capturedSegments] at few
      exact few
    · refine ⟨_, n', (unfolded.trans (if_pos enough)).trans ?_, .merged dead ?_ merged⟩
      · rw [ran]
        rfl
      · rw [threshold, segments, List.length_append, capturedSegments] at enough
        exact enough

theorem Flushed.layout {out : Option (Segment dim)} (flushed : Flushed env n out n')
    (layout : Layout env n old recent) : ∃ log, Layout env n' log [] := by
  have captured := layout.captureDeletes
  cases flushed with
  | nothing dead => exact ⟨_, captured.clearMemtable dead⟩
  | sealedOnly live few =>
      obtain ⟨x, e, entry⟩ := MemTable.exists_of_live live
      obtain ⟨-, tail, after, -⟩ := captured.sealMemtable entry
      exact ⟨tail, after⟩
  | merged live enough merged =>
      obtain ⟨x, e, entry⟩ := MemTable.exists_of_live live
      obtain ⟨-, tail, after, -⟩ := captured.sealMemtable entry
      exact ⟨tail, after.merged merged⟩

/-! ## Start -/

/-- What a new process finds on the files of a node. -/
structure Restarted (env : Env) (n : Node dim) (log : List (WALRecord dim)) (mergeThreshold : ℕ)
    (n' : Node dim) : Prop where
  started : n'.engine.started = true
  opened : n'.engine.wal.isOpen = true
  wal : n'.engine.wal.Holds env.crc32 log
  lastLsn : n'.engine.wal.lastLsn = n.engine.wal.lastLsn
  segments : n'.engine.segments = n.engine.segments
  shardId : n'.engine.shardId = n.engine.shardId
  nlist : n'.engine.nlist = n.engine.nlist
  mergeThreshold : n'.engine.mergeThreshold = mergeThreshold
  flushThreshold : n'.engine.memtable.flushThreshold = n.engine.memtable.flushThreshold
  memtable : ∀ x, n'.engine.memtable.entries.get? x = replayEntry log x
  tombstones : n'.engine.tombstones = n.storage.tombstonesJson.load ∪ deletedIn log
  storage : n'.storage = n.storage

/-- A start replays the records that are newer than every segment it finds. -/
theorem start_of_segments {left : Node dim} {segments : List (Segment dim)}
    (loaded : LSMEngine.loadExistingSegments left.engine.shardId left.storage = .ok segments)
    {records : List (WALRecord dim)}
    (newer : (WAL.recover env.crc32 dim (WAL.init left.engine.wal.files)).filter
      (fun r => maxSnapshot segments < r.lsn) = records) (mergeThreshold : ℕ) :
    ∃ n', LSMEngine.start env (left.reborn mergeThreshold) = .ok n' ∧
      n' = LSMEngine.startedOn env (left.reborn mergeThreshold) segments ∧
      (∀ x, n'.engine.memtable.entries.get? x = replayEntry records x) ∧
      n'.engine.memtable.flushThreshold = left.engine.memtable.flushThreshold ∧
      n'.engine.tombstones = left.storage.tombstonesJson.load ∪ deletedIn records := by
  obtain ⟨entries, threshold, tombstones⟩ := foldl_replayRecord records
    (MemTable.init left.engine.memtable.flushThreshold).clear left.storage.tombstonesJson.load
  let found := LSMEngine.startedOn env (left.reborn mergeThreshold) segments
  have ran : LSMEngine.start env (left.reborn mergeThreshold) = .ok found := by
    rw [LSMEngine.start, Node.reborn, LSMEngine.new, loaded]
    rfl
  have replayed : (found.engine.memtable, found.engine.tombstones) =
      records.foldl LSMEngine.replayRecord
        ((MemTable.init left.engine.memtable.flushThreshold).clear,
          left.storage.tombstonesJson.load) := by
    simp only [found, LSMEngine.startedOn, Node.reborn, LSMEngine.new, WAL.recover_openFiles, newer]
  refine ⟨found, ran, rfl, fun x => ?_, ?_, ?_⟩
  · have entry := (congrArg (fun state => state.1.entries.get? x) replayed).trans (entries x)
    rwa [MemTable.get?_clear, Option.or_none] at entry
  · exact (congrArg (fun state => state.1.flushThreshold) replayed).trans threshold
  · exact (congrArg Prod.snd replayed).trans tombstones

/-- A start on files from which it loads the segments of the node. -/
theorem start_of_loaded {log : List (WALRecord dim)} (wal : n.engine.wal.Holds env.crc32 log)
    (loaded : LSMEngine.loadExistingSegments n.engine.shardId n.storage = .ok n.engine.segments)
    (newer : ∀ record ∈ log, maxSnapshot n.engine.segments < record.lsn) (mergeThreshold : ℕ) :
    ∃ n', LSMEngine.start env (n.reborn mergeThreshold) = .ok n' ∧
      Restarted env n log mergeThreshold n' := by
  obtain ⟨holds, lastLsn⟩ := WAL.openFiles_of_holds wal
  have all : (WAL.recover env.crc32 dim (WAL.init n.engine.wal.files)).filter
      (fun r => maxSnapshot n.engine.segments < r.lsn) = log := by
    have recovered := WAL.recover_of_holds holds
    rw [WAL.recover_openFiles] at recovered
    rw [recovered]
    exact List.filter_eq_self.mpr fun record member => decide_eq_true (newer record member)
  obtain ⟨n', ran, rfl, entries, threshold, tombstones⟩ := start_of_segments loaded all mergeThreshold
  exact ⟨_, ran, ⟨rfl, rfl, holds, lastLsn, rfl, rfl, rfl, rfl, threshold, entries, tombstones, rfl⟩⟩

/-- A start on whatever files a node with a layout left. -/
theorem start_reborn (layout : Layout env n old recent) (mergeThreshold : ℕ) :
    ∃ n', LSMEngine.start env (n.reborn mergeThreshold) = .ok n' ∧
      Restarted env n (old ++ recent) mergeThreshold n' := by
  refine start_of_loaded layout.wal (loadExistingSegments_of_wf layout.segments) ?_ mergeThreshold
  intro record member
  by_cases none : n.engine.segments = []
  · rw [none]
    exact layout.positive record member
  · obtain ⟨seg, listed, age⟩ := exists_maxSnapshot none
    rw [← age]
    exact layout.above record member seg listed

/-- The node that a graceful restart starts on has replayed nothing but markers. -/
theorem Restarted.layout {log : List (WALRecord dim)} {mergeThreshold : ℕ}
    (restarted : Restarted env n log mergeThreshold n') (layout : Layout env n log []) :
    Layout env n' [] log := by
  have whole := layout
  rw [← List.nil_append log] at whole
  have logEq : log ++ [] = [] ++ log := by rw [List.append_nil, List.nil_append]
  have wf : SegmentsWf env n'.engine n'.storage := by
    rw [restarted.storage]
    exact layout.segments.frame restarted.segments restarted.shardId restarted.lastLsn.ge rfl rfl
  refine ⟨restarted.started, restarted.opened, restarted.wal, ?_, ?_, ?_, ?_, restarted.memtable, ?_,
    ?_, wf⟩
  · exact logEq ▸ layout.ordered
  · exact logEq ▸ layout.positive
  · exact logEq ▸ layout.known
  · rw [restarted.segments]
    exact logEq ▸ layout.above
  · intro x e entry
    cases entry
  · intro x _ e entry
    exact layout.markers x e ((restarted.memtable x).symm.trans entry)

/-- A new engine on empty directories. -/
structure Fresh (env : Env) (config : EngineConfig) (n : Node dim) : Prop where
  layout : Layout env n [] []
  segments : n.engine.segments = []
  tombstones : n.engine.tombstones = ∅
  storage : n.storage = SharedStorage.empty
  mergeThreshold : n.engine.mergeThreshold = config.mergeThreshold
  shardId : n.engine.shardId = config.shardId
  lastLsn : n.engine.wal.lastLsn = 0

/-- A start on empty directories replays nothing. -/
theorem boot_replayed {config : EngineConfig} (booted : Node.boot env config = .ok n) :
    n.engine.memtable = (MemTable.init config.flushThreshold).clear ∧ n.engine.tombstones = ∅ := by
  have recovered := WAL.recover_of_holds (WAL.openFiles_empty env.crc32 dim).1
  let begun : Node dim := ⟨LSMEngine.new config ⟨none, .absent⟩, SharedStorage.empty⟩
  have found : n = LSMEngine.startedOn env begun [] := (Except.ok.inj booted).symm
  have replayed : (n.engine.memtable, n.engine.tombstones) =
      ((MemTable.init config.flushThreshold).clear, ∅) := by
    simp only [found, begun, LSMEngine.startedOn, LSMEngine.new, recovered, List.filter_nil,
      List.foldl_nil]
    rfl
  exact ⟨congrArg Prod.fst replayed, congrArg Prod.snd replayed⟩

variable (dim) in
theorem boot_fresh (env : Env) (config : EngineConfig) :
    ∃ n : Node dim, Node.boot env config = .ok n ∧ Fresh env config n := by
  obtain ⟨holds, lastLsn⟩ := WAL.openFiles_empty env.crc32 dim
  let begun : Node dim := ⟨LSMEngine.new config ⟨none, .absent⟩, SharedStorage.empty⟩
  let found := LSMEngine.startedOn env begun []
  have booted : Node.boot env config = .ok found := rfl
  obtain ⟨memtable, tombstones⟩ := boot_replayed booted
  refine ⟨found, booted, ⟨⟨rfl, rfl, holds, by simp, by simp, by simp, by simp, ?_, ?_, ?_, ?_⟩, rfl,
    tombstones, rfl, rfl, rfl, lastLsn⟩⟩
  · intro x
    exact congrArg (fun mem => mem.entries.get? x) memtable
  · intro x e entry
    cases entry
  · intro x member
    rw [tombstones] at member
    cases member
  · exact ⟨Stocked.empty env config.shardId, List.Pairwise.nil,
      fun seg member => (List.not_mem_nil member).elim⟩

/-! ## Every call -/

/-- The log after a call appended `record`. -/
structure Appended (env : Env) (n : Node dim) (log : List (WALRecord dim))
    (record : WALRecord dim) (wal : WAL) : Prop where
  holds : wal.Holds env.crc32 (log ++ [record])
  opened : wal.isOpen = true
  lastLsn : wal.lastLsn = n.engine.wal.lastLsn + 1
  appended : wal = (n.engine.wal.append env.crc32 dim record.opType (batchIds record.rows)
    (batchVectors record.rows)).2

/-- How a completed call went, from a node whose log is `log`. -/
inductive Ran (env : Env) (n : Node dim) (log : List (WALRecord dim)) : Op dim → Node dim → Prop
  | insert {rows : List (Row dim)} {wal : WAL}
      (appended : Appended env n log ⟨n.engine.wal.lastLsn + 1, OP_INSERT, rows⟩ wal)
      (room : (n.engine.memtable.insert rows (n.engine.wal.lastLsn + 1)).shouldFlush = false) :
      Ran env n log (.insert rows) (LSMEngine.applyInsert n wal (n.engine.wal.lastLsn + 1) rows)
  | insertFlush {rows : List (Row dim)} {wal : WAL} {out : Option (Segment dim)} {n' : Node dim}
      (appended : Appended env n log ⟨n.engine.wal.lastLsn + 1, OP_INSERT, rows⟩ wal)
      (full : (n.engine.memtable.insert rows (n.engine.wal.lastLsn + 1)).shouldFlush = true)
      (flushed : Flushed env (LSMEngine.applyInsert n wal (n.engine.wal.lastLsn + 1) rows) out n') :
      Ran env n log (.insert rows) n'
  | delete {ids : List ℤ} {wal : WAL}
      (appended : Appended env n log
        ⟨n.engine.wal.lastLsn + 1, OP_DELETE, LSMEngine.deleteRows dim ids⟩ wal) :
      Ran env n log (.delete ids) (LSMEngine.applyDelete n wal (n.engine.wal.lastLsn + 1) ids)
  | flush {out : Option (Segment dim)} {n' : Node dim} (flushed : Flushed env n out n') :
      Ran env n log .flush n'
  | mergeFew (few : n.engine.segments.length < n.engine.mergeThreshold) : Ran env n log .merge n
  | merge {n' : Node dim} {front : List (Segment dim)}
      (enough : n.engine.mergeThreshold ≤ n.engine.segments.length)
      (merged : Merged env n n' front) : Ran env n log .merge n'
  | restart {mergeThreshold : ℕ} {out : Option (Segment dim)} {stopped n' : Node dim}
      {left : List (WALRecord dim)} (flushed : Flushed env n out stopped)
      (layout : Layout env stopped left [])
      (restarted : Restarted env stopped left mergeThreshold n') :
      Ran env n log (.restart mergeThreshold) n'

/-- The ids of a call are int64. -/
def Op.Int64 : Op dim → Prop
  | .insert rows => ∀ row ∈ rows, IsInt64 row.1
  | .delete ids => ∀ x ∈ ids, IsInt64 x
  | _ => True

instance : (op : Op dim) → Decidable op.Int64
  | .insert rows => inferInstanceAs (Decidable (∀ row ∈ rows, IsInt64 row.1))
  | .delete ids => inferInstanceAs (Decidable (∀ x ∈ ids, IsInt64 x))
  | .flush | .merge | .restart _ => inferInstanceAs (Decidable True)

variable (dim) in
theorem prepareRows_deleteRows (ids : List ℤ) :
    prepareRows dim ids (batchVectors (LSMEngine.deleteRows dim ids)) =
      .ok (LSMEngine.deleteRows dim ids) := by
  have prepared := prepareRows_batch (LSMEngine.deleteRows dim ids)
  rwa [batchIds_deleteRows] at prepared

/-- An append that returned, on a log in good order. -/
theorem appended_of_ok (layout : Layout env n old recent) {opType : ℕ} {rows : List (Row dim)}
    (int64 : ∀ row ∈ rows, IsInt64 row.1) {lsn : ℕ} (returned : (n.engine.wal.append env.crc32 dim
      opType (batchIds rows) (batchVectors rows)).1 = .ok lsn) :
    lsn = n.engine.wal.lastLsn + 1 ∧
      Appended env n (old ++ recent) ⟨n.engine.wal.lastLsn + 1, opType, rows⟩
        (n.engine.wal.append env.crc32 dim opType (batchIds rows) (batchVectors rows)).2 := by
  have whole : n.engine.wal.append env.crc32 dim opType (batchIds rows) (batchVectors rows) =
      (.ok lsn,
        (n.engine.wal.append env.crc32 dim opType (batchIds rows) (batchVectors rows)).2) := by
    rw [← returned]
  obtain ⟨opened, rfl, rows', prepared', packs, -⟩ := WAL.append_ok whole
  rw [prepareRows_batch, Except.ok.injEq] at prepared'
  subst prepared'
  obtain ⟨wal, appended, holds, lastLsn, stillOpen⟩ :=
    WAL.append_of_holds layout.wal opened (prepareRows_batch rows) ⟨packs, int64⟩
  refine ⟨rfl, ?_, ?_, ?_, rfl⟩ <;> rw [appended]
  · exact holds
  · exact stillOpen
  · exact lastLsn

/-- The inversion lemma of `Node.run`. -/
theorem run_cases {op : Op dim} (layout : Layout env n old recent) (int64 : op.Int64)
    (ran : n.run env op = .ok n') : Ran env n (old ++ recent) op n' := by
  have started := LSMEngine.ensureStarted_of_started layout.started
  cases op with
  | insert rows =>
      obtain ⟨out, inserted, rfl⟩ := ok_of_map ran
      simp only [LSMEngine.insert, started, prepareRows_batch, bind, Except.bind] at inserted
      cases returned : (n.engine.wal.append env.crc32 dim OP_INSERT (batchIds rows)
          (batchVectors rows)).1 with
      | error e => rw [returned] at inserted; cases inserted
      | ok lsn =>
          obtain ⟨rfl, appended⟩ := appended_of_ok layout int64 returned
          have written := layout.applyInsert appended.holds appended.opened appended.lastLsn
          rw [returned] at inserted
          have memtable : ∀ wal lsn, (LSMEngine.applyInsert n wal lsn rows).engine.memtable =
              n.engine.memtable.insert rows lsn := fun wal lsn => by
            rw [LSMEngine.applyInsert_engine]
          simp only [memtable] at inserted
          split at inserted
          · next full =>
              obtain ⟨seg, after, ranFlush, flushed⟩ := flush_cases written
              rw [ranFlush] at inserted
              cases inserted
              exact .insertFlush appended full flushed
          · next room =>
              cases inserted
              exact .insert appended (Bool.eq_false_iff.mpr room)
  | delete ids =>
      have recordInt64 : ∀ row ∈ LSMEngine.deleteRows dim ids, IsInt64 row.1 := by
        intro row member
        rcases List.mem_map.mp member with ⟨x, listed, rfl⟩
        exact int64 x listed
      cases returned : (n.engine.wal.append env.crc32 dim OP_DELETE
          (batchIds (LSMEngine.deleteRows dim ids))
          (batchVectors (LSMEngine.deleteRows dim ids))).1 with
      | error e =>
          rw [batchIds_deleteRows] at returned
          simp only [Node.run, LSMEngine.delete, started, returned, bind, Except.bind] at ran
          cases ran
      | ok lsn =>
          obtain ⟨rfl, appended⟩ := appended_of_ok layout recordInt64 returned
          rw [batchIds_deleteRows] at returned appended
          simp only [Node.run, LSMEngine.delete, started, returned, bind, Except.bind] at ran
          cases ran
          exact .delete appended
  | flush =>
      obtain ⟨seg, after, ranFlush, flushed⟩ := flush_cases layout
      rw [Node.run, ranFlush] at ran
      cases ran
      exact .flush flushed
  | merge =>
      rcases merge_cases layout.started layout.segments with
        ⟨few, ranMerge⟩ | ⟨enough, out, after, front, ranMerge, merged⟩
      · rw [Node.run, ranMerge] at ran
        cases ran
        exact .mergeFew few
      · rw [Node.run, ranMerge] at ran
        cases ran
        exact .merge enough merged
  | restart mergeThreshold =>
      obtain ⟨seg, stopped, ranFlush, flushed⟩ := flush_cases layout
      obtain ⟨left, leftLayout⟩ := flushed.layout layout
      obtain ⟨found, ranStart, restarted⟩ := start_reborn leftLayout mergeThreshold
      have reborn : n.run env (.restart mergeThreshold) =
          LSMEngine.start env (stopped.reborn mergeThreshold) := by
        simp only [Node.run, LSMEngine.stop, ranFlush, bind, Except.bind]
        rfl
      rw [reborn, ranStart] at ran
      cases ran
      rw [List.append_nil] at restarted
      exact .restart flushed leftLayout restarted

/-- **The step lemma.**  Every completed call keeps the layout. -/
theorem Ran.layout {op : Op dim} (ran : Ran env n (old ++ recent) op n')
    (layout : Layout env n old recent) : ∃ old' recent', Layout env n' old' recent' := by
  cases ran with
  | insert appended room =>
      exact ⟨_, _, layout.applyInsert appended.holds appended.opened appended.lastLsn⟩
  | insertFlush appended full flushed =>
      obtain ⟨log, after⟩ := flushed.layout
        (layout.applyInsert appended.holds appended.opened appended.lastLsn)
      exact ⟨log, [], after⟩
  | delete appended =>
      exact ⟨_, _, layout.applyDelete appended.holds appended.opened appended.lastLsn⟩
  | flush flushed =>
      obtain ⟨log, after⟩ := flushed.layout layout
      exact ⟨log, [], after⟩
  | mergeFew few => exact ⟨old, recent, layout⟩
  | merge enough merged => exact ⟨old, recent, layout.merged merged⟩
  | restart flushed stopped restarted => exact ⟨[], _, restarted.layout stopped⟩

/-! ## Other shards -/

/-- A call leaves the shard, and the stored segments of every other shard. -/
structure Apart (env : Env) (n n' : Node dim) : Prop where
  shardId : n'.engine.shardId = n.engine.shardId
  others : ∀ seg : Segment dim, seg.shardId ≠ n.engine.shardId →
    (seg.Stored n'.storage ↔ seg.Stored n.storage)
  grows : SharedStorage.Grows env.uuid n.storage n'.storage

theorem Apart.of_dirs (shardId : n'.engine.shardId = n.engine.shardId)
    (dirs : n'.storage.segmentDirs = n.storage.segmentDirs)
    (uuids : n'.storage.uuids = n.storage.uuids) : Apart env n n' :=
  ⟨shardId, fun _ _ => Segment.stored_congr dirs, .of_dirs env.uuid dirs uuids⟩

theorem Apart.trans {middle : Node dim} (first : Apart env n middle) (second : Apart env middle n') :
    Apart env n n' := by
  refine ⟨second.shardId.trans first.shardId, fun seg other => ?_, first.grows.trans second.grows⟩
  rw [second.others seg (first.shardId ▸ other), first.others seg other]

theorem Merged.apart {front : List (Segment dim)} (merged : Merged env n n' front) :
    Apart env n n' := by
  refine ⟨?_, merged.others, merged.grows⟩
  rw [merged.engine]

theorem Flushed.apart {out : Option (Segment dim)} (flushed : Flushed env n out n')
    (layout : Layout env n old recent) : Apart env n n' := by
  have captured : Apart env n (LSMEngine.captureDeletes n) := by
    obtain ⟨dirs, uuids⟩ := LSMEngine.captureDeletes_dirs n
    refine .of_dirs ?_ dirs uuids
    rw [LSMEngine.captureDeletes_engine]
  have sealedApart : Apart env (LSMEngine.captureDeletes n)
      (LSMEngine.sealMemtable env (LSMEngine.captureDeletes n)).2 :=
    ⟨LSMEngine.sealMemtable_shardId env _, fun seg other =>
      layout.captureDeletes.segments.toStocked.create_others _ _ _ other,
      SharedStorage.grows_create _ _ _ _ _ _⟩
  cases flushed with
  | nothing dead => exact captured.trans (.of_dirs rfl rfl rfl)
  | sealedOnly live few => exact captured.trans sealedApart
  | merged live enough merged => exact (captured.trans sealedApart).trans merged.apart

theorem Ran.apart {op : Op dim} {log : List (WALRecord dim)} (ran : Ran env n log op n')
    (layout : Layout env n old recent) (whole : log = old ++ recent) : Apart env n n' := by
  subst whole
  have inserted : ∀ wal lsn rows, Apart env n (LSMEngine.applyInsert n wal lsn rows) := by
    intro wal lsn rows
    obtain ⟨dirs, uuids⟩ := LSMEngine.applyInsert_dirs n wal lsn rows
    refine .of_dirs ?_ dirs uuids
    rw [LSMEngine.applyInsert_engine]
  cases ran with
  | insert appended room => exact inserted _ _ _
  | insertFlush appended full flushed =>
      have written := layout.applyInsert appended.holds appended.opened appended.lastLsn
      exact (inserted _ _ _).trans (flushed.apart written)
  | delete appended => exact .of_dirs rfl rfl rfl
  | flush flushed => exact flushed.apart layout
  | mergeFew few => exact .of_dirs rfl rfl rfl
  | merge enough merged => exact merged.apart
  | restart flushed stopped restarted =>
      refine (flushed.apart layout).trans (.of_dirs restarted.shardId ?_ ?_) <;>
        rw [restarted.storage]

/-- A node keeps its layout while another shard works on the same storage. -/
theorem Layout.of_apart {engine : LSMEngine dim} {worker worker' : Node dim}
    {theirs theirs' : List (WALRecord dim)} (layout : Layout env ⟨engine, worker.storage⟩ old recent)
    (different : engine.shardId ≠ worker.engine.shardId) (apart : Apart env worker worker')
    (after : Layout env worker' theirs theirs') :
    Layout env ⟨engine, worker'.storage⟩ old recent := by
  have stocked := layout.segments.toStocked.of_others (by rwa [apart.shardId])
    after.segments.toStocked (by rw [apart.shardId]; exact apart.others)
  exact { layout with segments := ⟨stocked, layout.segments.sorted, layout.segments.bounded⟩ }

/-- The record of the call packs. -/
def Op.Packs (n : Node dim) : Op dim → Prop
  | .insert rows => (⟨n.engine.wal.lastLsn + 1, OP_INSERT, rows⟩ : WALRecord dim).Valid
  | .delete ids =>
      (⟨n.engine.wal.lastLsn + 1, OP_DELETE, LSMEngine.deleteRows dim ids⟩ : WALRecord dim).Valid
  | _ => True

/-- A call whose record packs completes. -/
theorem run_of_packs (layout : Layout env n old recent) {op : Op dim} (packs : op.Packs n) :
    ∃ n', n.run env op = .ok n' := by
  have started := LSMEngine.ensureStarted_of_started layout.started
  cases op with
  | insert rows =>
      obtain ⟨wal, appended, holds, lastLsn, opened⟩ :=
        WAL.append_of_holds layout.wal layout.opened (prepareRows_batch rows) packs
      obtain ⟨seg, after, ranFlush, -⟩ := flush_cases (layout.applyInsert holds opened lastLsn)
      simp only [Node.run, LSMEngine.insert, started, prepareRows_batch, appended, bind, Except.bind]
      split
      · rw [ranFlush]
        exact ⟨after, rfl⟩
      · exact ⟨_, rfl⟩
  | delete ids =>
      obtain ⟨wal, appended, -⟩ :=
        WAL.append_of_holds layout.wal layout.opened (prepareRows_deleteRows dim ids) packs
      simp only [Node.run, LSMEngine.delete, started, appended, bind, Except.bind]
      exact ⟨_, rfl⟩
  | flush =>
      obtain ⟨seg, after, ranFlush, -⟩ := flush_cases layout
      exact ⟨after, by rw [Node.run, ranFlush]; rfl⟩
  | merge =>
      rcases merge_cases layout.started layout.segments with
        ⟨-, ranMerge⟩ | ⟨-, out, after, front, ranMerge, -⟩
      · exact ⟨n, by rw [Node.run, ranMerge]; rfl⟩
      · exact ⟨after, by rw [Node.run, ranMerge]; rfl⟩
  | restart mergeThreshold =>
      obtain ⟨seg, stopped, ranFlush, flushed⟩ := flush_cases layout
      obtain ⟨left, leftLayout⟩ := flushed.layout layout
      obtain ⟨found, ranStart, -⟩ := start_reborn leftLayout mergeThreshold
      refine ⟨found, Eq.trans ?_ ranStart⟩
      simp only [Node.run, LSMEngine.stop, ranFlush, bind, Except.bind]
      rfl

/-! ## Runs -/

/-- The node that a new engine on empty directories becomes. -/
def Node.history (env : Env) (config : EngineConfig) (ops : List (Op dim)) :
    Except PyError (Node dim) := do
  let boot ← Node.boot env config
  runAll (Node.run env) boot ops

/-- **The run rule for a new engine.**  It follows a layout, and whatever relation
of the calls made to that layout every completed call carries on. -/
theorem history_carries_from_boot {C : Op dim → Prop}
    {R : List (Op dim) → Node dim → List (WALRecord dim) → List (WALRecord dim) → Prop}
    {config : EngineConfig} (int64 : ∀ op, C op → op.Int64)
    (fresh : ∀ n, Node.boot env config = .ok n → Fresh env config n → R [] n [] [])
    (carries : ∀ history n old recent op n', Layout env n old recent → R history n old recent →
      C op → Ran env n (old ++ recent) op n' →
      ∃ old' recent', Layout env n' old' recent' ∧ R (history ++ [op]) n' old' recent')
    {ops : List (Op dim)} (all : ∀ op ∈ ops, C op) {final : Node dim}
    (ran : Node.history env config ops = .ok final) :
    ∃ old recent, Layout env final old recent ∧ R ops final old recent := by
  obtain ⟨boot, booted, new⟩ := boot_fresh dim env config
  have whole : runAll (Node.run env) boot ops = .ok final := by
    rw [← ran, Node.history, booted]
    rfl
  refine runAll_carries (R := fun history n => ∃ old recent, Layout env n old recent ∧
    R history n old recent) ?_ [] ⟨[], [], new.layout, fresh boot booted new⟩
    (StepsMeet.of_forall all boot) whole
  rintro history n op n' ⟨old, recent, layout, related⟩ meets step
  exact carries history n old recent op n' layout related meets (run_cases layout (int64 op meets) step)

/-- The run rule for a relation that any new engine meets. -/
theorem history_carries {C : Op dim → Prop}
    {R : List (Op dim) → Node dim → List (WALRecord dim) → List (WALRecord dim) → Prop}
    {config : EngineConfig} (int64 : ∀ op, C op → op.Int64)
    (fresh : ∀ n, Fresh env config n → R [] n [] [])
    (carries : ∀ history n old recent op n', Layout env n old recent → R history n old recent →
      C op → Ran env n (old ++ recent) op n' →
      ∃ old' recent', Layout env n' old' recent' ∧ R (history ++ [op]) n' old' recent')
    {ops : List (Op dim)} (all : ∀ op ∈ ops, C op) {final : Node dim}
    (ran : Node.history env config ops = .ok final) :
    ∃ old recent, Layout env final old recent ∧ R ops final old recent :=
  history_carries_from_boot int64 (fun n _ new => fresh n new) carries all ran

/-- Every completed run keeps a layout. -/
theorem layout_of_history {config : EngineConfig} {ops : List (Op dim)}
    (int64 : ∀ op ∈ ops, op.Int64) {final : Node dim}
    (ran : Node.history env config ops = .ok final) :
    ∃ old recent, Layout env final old recent := by
  obtain ⟨old, recent, layout, -⟩ := history_carries (C := Op.Int64) (R := fun _ _ _ _ => True)
    (fun _ int64 => int64) (fun _ _ => trivial)
    (fun _ n old recent op n' layout _ _ step => by
      obtain ⟨old', recent', after⟩ := step.layout layout
      exact ⟨old', recent', after, trivial⟩) int64 ran
  exact ⟨old, recent, layout⟩

theorem Op.Packs.int64 {n : Node dim} {op : Op dim} (packs : op.Packs n) : op.Int64 := by
  cases op with
  | insert rows => exact packs.2
  | delete ids =>
      intro x listed
      refine packs.2 (x, zeroVec dim) ?_
      exact List.mem_map_of_mem listed
  | flush => trivial
  | merge => trivial
  | restart mergeThreshold => trivial

/-- A run whose records all pack completes. -/
theorem history_completes {config : EngineConfig} {ops : List (Op dim)}
    (packs : ∀ boot, Node.boot env config = .ok boot →
      StepsMeet (Node.run env) (fun n op => op.Packs n) boot ops) :
    ∃ final, Node.history env config ops = .ok final := by
  obtain ⟨boot, booted, new⟩ := boot_fresh dim env config
  obtain ⟨final, ran⟩ := runAll_completes (P := fun n => ∃ old recent, Layout env n old recent)
    (fun n op ⟨old, recent, layout⟩ here => by
      obtain ⟨n', step⟩ := run_of_packs layout here
      exact ⟨n', step, (run_cases layout here.int64 step).layout layout⟩)
    ⟨[], [], new.layout⟩ (packs boot booted)
  refine ⟨final, ?_⟩
  rw [Node.history, booted]
  exact ran

end VecScale
