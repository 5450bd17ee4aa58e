import VecScale.Storage.Retrieval
import VecScale.Storage.SnapshotView

/-!
# Which calls leave a snapshot alone

`Op.KeepsAt env s n op` is the condition under which a call on `n` shows the same
rows at the older snapshot `s` as before.

* `Ran.lookupAt`: a call that meets it keeps the view at `s`;
* `snapshot_stable`: after any run of such calls a search at `s` returns what it
  returned when `s` was taken.
-/

namespace VecScale

variable {dim : ℕ} {env : Env} {config : EngineConfig} {n n' : Node dim} {s : ℕ}
  {old recent log : List (WALRecord dim)}

/-! ## The conditions -/

/-- A flush keeps the view at `s`: it tombstones no id that `s` shows, it takes no
row that `s` sees into a segment above `s`, and the merge it runs keeps the view. -/
def Node.FlushKeepsAt (env : Env) (s : ℕ) (n : Node dim) : Prop :=
  let captured := LSMEngine.captureDeletes n
  (∀ x ∈ n.engine.memtable.visibleDeletedIds none, n.engine.lookupAt s x = none) ∧
  (¬ captured.engine.memtable.Dead →
    (s < captured.engine.memtable.maxLsn → ∀ x ∉ captured.engine.tombstones,
      captured.engine.lookupAt s x = captured.engine.segmentRowAt s x) ∧
    (n.engine.mergeThreshold ≤ n.engine.segments.length + 1 →
      ∀ x, (LSMEngine.sealMemtable env captured).2.engine.MergeKeepsId s x))

/-- The node of an insert before it flushes. -/
def Node.written (env : Env) (n : Node dim) (rows : List (Row dim)) : Node dim :=
  LSMEngine.applyInsert n
    (n.engine.wal.append env.crc32 dim OP_INSERT (batchIds rows) (batchVectors rows)).2
    (n.engine.wal.lastLsn + 1) rows

/-- A call keeps the view at `s`.  An insert does if what `s` shows of its ids comes
from the segments, a delete if `s` shows none of its ids. -/
def Op.KeepsAt (env : Env) (s : ℕ) (n : Node dim) : Op dim → Prop
  | .insert rows =>
      (∀ x ∈ batchIds rows, n.engine.lookupAt s x = n.engine.segmentRowAt s x) ∧
        ((n.written env rows).engine.memtable.shouldFlush = true →
          (n.written env rows).FlushKeepsAt env s)
  | .delete ids => ∀ x ∈ ids, n.engine.lookupAt s x = none
  | .flush => n.FlushKeepsAt env s
  | .merge => n.engine.mergeThreshold ≤ n.engine.segments.length →
      ∀ x, n.engine.MergeKeepsId s x
  | .restart _ => False

/-! ## The step -/

theorem Flushed.lookupAt {out : Option (Segment dim)} (flushed : Flushed env n out n')
    (layout : Layout env n old recent) (keeps : n.FlushKeepsAt env s) :
    n'.engine.wal.lastLsn = n.engine.wal.lastLsn ∧
      ∀ x, n'.engine.lookupAt s x = n.engine.lookupAt s x := by
  rcases keeps with ⟨markers, keepsLive⟩
  have captured := layout.captureDeletes
  have engine := LSMEngine.captureDeletes_engine n
  have capturedView : ∀ x, (LSMEngine.captureDeletes n).engine.lookupAt s x =
      n.engine.lookupAt s x := by
    intro x
    rw [lookupAt_captureDeletes]
    split
    · next marked => exact (markers x marked).symm
    · rfl
  have capturedLsn : (LSMEngine.captureDeletes n).engine.wal.lastLsn = n.engine.wal.lastLsn := by
    rw [engine]
  have sealedView : ¬ (LSMEngine.captureDeletes n).engine.memtable.Dead →
      ∀ x, (LSMEngine.sealMemtable env (LSMEngine.captureDeletes n)).2.engine.lookupAt s x =
        n.engine.lookupAt s x := by
    intro live x
    obtain ⟨y, e, entry⟩ := MemTable.exists_of_live live
    obtain ⟨segments, -⟩ := captured.sealMemtable entry
    rw [lookupAt_sealMemtable (fun _ _ => captured_of_marker) segments, ← capturedView]
    split
    · rfl
    · next young =>
        rw [not_le] at young
        split
        · next tombstoned => rw [LSMEngine.lookupAt_eq, if_pos tombstoned]
        · next shown => exact ((keepsLive live).1 young x shown).symm
  cases flushed with
  | nothing dead =>
      refine ⟨capturedLsn, fun x => ?_⟩
      rw [lookupAt_clearMemtable (fun x e entry => captured_of_marker entry (dead x e entry)),
        capturedView]
  | sealedOnly live few => exact ⟨capturedLsn, sealedView live⟩
  | merged live enough merged =>
      obtain ⟨y, e, entry⟩ := MemTable.exists_of_live live
      obtain ⟨-, tail, after, -⟩ := captured.sealMemtable entry
      refine ⟨?_, fun x => ?_⟩
      · rw [merged.engine]
        exact capturedLsn
      · rw [(merged.lookupAt_eq_iff after.segments after.buried x).mpr
          ((keepsLive live).2 enough x), sealedView live]

/-- **The step lemma.**  A call that meets its condition keeps the view at `s`. -/
theorem Ran.lookupAt {op : Op dim} (ran : Ran env n (old ++ recent) op n')
    (layout : Layout env n old recent) (taken : s ≤ n.engine.wal.lastLsn)
    (keeps : op.KeepsAt env s n) :
    n.engine.wal.lastLsn ≤ n'.engine.wal.lastLsn ∧
      ∀ x, n'.engine.lookupAt s x = n.engine.lookupAt s x := by
  have insertView : ∀ (wal : WAL) (rows : List (Row dim)),
      (∀ x ∈ batchIds rows, n.engine.lookupAt s x = n.engine.segmentRowAt s x) →
      ∀ x, (LSMEngine.applyInsert n wal (n.engine.wal.lastLsn + 1) rows).engine.lookupAt s x =
        n.engine.lookupAt s x := by
    intro wal rows fromSegments x
    rw [lookupAt_applyInsert n wal (Nat.lt_succ_of_le taken)]
    split
    · next listed => exact (fromSegments x listed).symm
    · rfl
  have insertLsn : ∀ {rows : List (Row dim)} {wal : WAL} (_ : Appended env n (old ++ recent)
      ⟨n.engine.wal.lastLsn + 1, OP_INSERT, rows⟩ wal),
      (LSMEngine.applyInsert n wal (n.engine.wal.lastLsn + 1) rows).engine.wal.lastLsn =
        n.engine.wal.lastLsn + 1 := by
    intro rows wal appended
    rw [LSMEngine.applyInsert_engine]
    exact appended.lastLsn
  cases ran with
  | @insert rows wal appended room =>
      refine ⟨?_, insertView wal rows keeps.1⟩
      rw [insertLsn appended]
      exact Nat.le_succ _
  | @insertFlush rows wal out _ appended full flushed =>
      have written : LSMEngine.applyInsert n wal (n.engine.wal.lastLsn + 1) rows =
          n.written env rows := by
        rw [Node.written, appended.appended]
      have filled : (n.written env rows).engine.memtable.shouldFlush = true := by
        rw [← written, LSMEngine.applyInsert_engine]
        exact full
      have flushKeeps := keeps.2 filled
      rw [← written] at flushKeeps
      have after := layout.applyInsert appended.holds appended.opened appended.lastLsn
      obtain ⟨lastLsn, view⟩ := flushed.lookupAt after flushKeeps
      refine ⟨?_, fun x => ?_⟩
      · rw [lastLsn, insertLsn appended]
        exact Nat.le_succ _
      · rw [view, insertView wal rows keeps.1]
  | @delete ids wal appended =>
      refine ⟨?_, fun x => ?_⟩
      · change n.engine.wal.lastLsn ≤ wal.lastLsn
        rw [appended.lastLsn]
        exact Nat.le_succ _
      · rw [lookupAt_applyDelete]
        split
        · next listed => exact (keeps x listed).symm
        · rfl
  | flush flushed =>
      obtain ⟨lastLsn, view⟩ := flushed.lookupAt layout keeps
      exact ⟨lastLsn.ge, view⟩
  | mergeFew few => exact ⟨le_rfl, fun _ => rfl⟩
  | merge enough merged =>
      refine ⟨?_, fun x => (merged.lookupAt_eq_iff layout.segments layout.buried x).mpr
        (keeps enough x)⟩
      rw [merged.engine]
  | restart flushed stopped restarted => exact keeps.elim

/-! ## The run -/

/-- What a run of such calls keeps. -/
theorem lookupAt_of_run {taken later : Node dim} (layout : Layout env taken old recent)
    {more : List (Op dim)} (meets : StepsMeet (Node.run env)
      (fun n op => op.Int64 ∧ op.KeepsAt env taken.engine.wal.lastLsn n) taken more)
    (ran : runAll (Node.run env) taken more = .ok later) :
    (∃ old' recent', Layout env later old' recent') ∧
      ∀ x, later.engine.lookupAt taken.engine.wal.lastLsn x =
        taken.engine.lookupAt taken.engine.wal.lastLsn x := by
  obtain ⟨laid, -, view⟩ := runAll_preserves (P := fun n => (∃ old recent, Layout env n old recent) ∧
    taken.engine.wal.lastLsn ≤ n.engine.wal.lastLsn ∧
    ∀ x, n.engine.lookupAt taken.engine.wal.lastLsn x =
      taken.engine.lookupAt taken.engine.wal.lastLsn x)
    (fun n op n' kept meets step => by
      rcases kept with ⟨⟨old, recent, here⟩, later, view⟩
      have inverted := run_cases here meets.1 step
      obtain ⟨grows, same⟩ := inverted.lookupAt here later meets.2
      exact ⟨inverted.layout here, later.trans grows, fun x => (same x).trans (view x)⟩)
    ⟨⟨old, recent, layout⟩, le_rfl, fun _ => rfl⟩ meets ran
  exact ⟨laid, view⟩

/-- **Snapshots are stable under calls that keep them.**  With room for every row and
indexes that read their nearest rows at both times, a search at the snapshot returns
after the calls the ids and distances that it returned when the snapshot was taken:
the same hits, in the same order but for hits of equal distance. -/
theorem snapshot_stable {D : Type} [LinearOrder D] (faiss : Faiss dim D) {ops more : List (Op dim)}
    (int64 : ∀ op ∈ ops, op.Int64) {taken later : Node dim}
    (history : Node.history env config ops = .ok taken)
    (meets : StepsMeet (Node.run env)
      (fun n op => op.Int64 ∧ op.KeepsAt env taken.engine.wal.lastLsn n) taken more)
    (ran : runAll (Node.run env) taken more = .ok later) {q : Vec dim} {topK nprobe : ℕ}
    (exactThen : ∀ seg ∈ taken.engine.segments, seg.index.ExactAt faiss q nprobe)
    (exactNow : ∀ seg ∈ later.engine.segments, seg.index.ExactAt faiss q nprobe)
    (roomThen : taken.engine.storedRows.length ≤ topK)
    (roomNow : later.engine.storedRows.length ≤ topK) :
    ∃ hits hits' after after',
      LSMEngine.search faiss q.toList topK nprobe (some taken.engine.wal.lastLsn) taken =
        .ok (hits, after) ∧
      LSMEngine.search faiss q.toList topK nprobe (some taken.engine.wal.lastLsn) later =
        .ok (hits', after') ∧
      hits.Perm hits' ∧ hits.map Prod.snd = hits'.map Prod.snd ∧
      ((hits.map Prod.snd).Nodup → hits = hits') := by
  obtain ⟨old, recent, layout⟩ := layout_of_history int64 history
  obtain ⟨⟨old', recent', layout'⟩, view⟩ := lookupAt_of_run layout meets ran
  obtain ⟨hits, after, rows, searched, near, fits, shown⟩ := LSMEngine.search_exact faiss
    layout.started layout.segments exactThen roomThen taken.engine.wal.lastLsn
  obtain ⟨hits', after', rows', searched', near', fits', shown'⟩ := LSMEngine.search_exact faiss
    layout'.started layout'.segments exactNow roomNow taken.engine.wal.lastLsn
  have same : ∀ x d, Least rows x d ↔ Least rows' x d := by
    intro x d
    rw [shown, shown', LSMEngine.ShownAt, LSMEngine.ShownAt, view]
  have perm := near.perm_of_least_iff near' fits fits' same
  exact ⟨hits, hits', after, after', searched, searched', perm,
    near.distances_eq_of_perm near' perm, near.eq_of_perm near' perm⟩

/-- An overwrite takes away the version that an older snapshot saw. -/
theorem overwrite_changes_snapshot :
    (do
      let taken : Node 1 ← Node.history Env.counted ⟨0, 1, 10, 2⟩ [.insert [(1, zeroVec 1)]]
      let first ← LSMEngine.search (bruteForce 1) (zeroVec 1).toList 5 1 (some 1) taken
      let later ← runAll (Node.run Env.counted) taken [.insert [(1, unitVec)]]
      let second ← LSMEngine.search (bruteForce 1) (zeroVec 1).toList 5 1 (some 1) later
      .ok (taken.engine.wal.lastLsn, first.1, second.1)) = .ok (1, [(1, 0)], []) := by
  decide +kernel

theorem snapshot_stable_newId :
    ∃ taken later : Node 1,
      Node.history Env.counted ⟨0, 1, 10, 2⟩ [.insert [(1, zeroVec 1)], .flush] = .ok taken ∧
      runAll (Node.run Env.counted) taken [.insert [(2, unitVec)], .delete [3]] = .ok later ∧
      ∃ hits hits' after after',
        LSMEngine.search (bruteForce 1) (zeroVec 1).toList 5 1 (some taken.engine.wal.lastLsn)
          taken = .ok (hits, after) ∧
        LSMEngine.search (bruteForce 1) (zeroVec 1).toList 5 1 (some taken.engine.wal.lastLsn)
          later = .ok (hits', after') ∧
        hits.Perm hits' ∧ hits.map Prod.snd = hits'.map Prod.snd ∧
        ((hits.map Prod.snd).Nodup → hits = hits') := by
  have evaluated : (do
      let taken : Node 1 ← Node.history Env.counted ⟨0, 1, 10, 2⟩ [.insert [(1, zeroVec 1)], .flush]
      let middle ← taken.run Env.counted (.insert [(2, unitVec)])
      let later ← middle.run Env.counted (.delete [3])
      .ok (decide (
        (taken.engine.lookupAt taken.engine.wal.lastLsn 2 =
            taken.engine.segmentRowAt taken.engine.wal.lastLsn 2 ∧
          (taken.written Env.counted [(2, unitVec)]).engine.memtable.shouldFlush = false ∧
          middle.engine.lookupAt taken.engine.wal.lastLsn 3 = none) ∧
        ((∀ seg ∈ taken.engine.segments, seg.index.ivf = none) ∧
          ∀ seg ∈ later.engine.segments, seg.index.ivf = none) ∧
        taken.engine.storedRows.length ≤ 5 ∧ later.engine.storedRows.length ≤ 5))) = .ok true := by
    decide +kernel
  obtain ⟨taken, history, rest⟩ := ok_of_bind evaluated
  obtain ⟨middle, inserted, rest⟩ := ok_of_bind rest
  obtain ⟨later, deleted, rest⟩ := ok_of_bind rest
  rw [Except.ok.injEq, decide_eq_true_eq] at rest
  rcases rest with ⟨⟨unseen, room, absent⟩, ⟨flat, flat'⟩, fits, fits'⟩
  have ran : runAll (Node.run Env.counted) taken [.insert [(2, unitVec)], .delete [3]] =
      .ok later := by
    rw [runAll_cons inserted, runAll_cons deleted]
    rfl
  have insertKeeps : Op.KeepsAt Env.counted taken.engine.wal.lastLsn taken
      (.insert [(2, unitVec)]) := by
    refine ⟨fun x listed => ?_, fun full => ?_⟩
    · rw [List.mem_singleton.mp listed]
      exact unseen
    · rw [room] at full
      cases full
  have deleteKeeps : Op.KeepsAt Env.counted taken.engine.wal.lastLsn middle (.delete [3]) := by
    intro x listed
    rw [List.mem_singleton.mp listed]
    exact absent
  have meets : StepsMeet (Node.run Env.counted) (fun n op => op.Int64 ∧
      op.KeepsAt Env.counted taken.engine.wal.lastLsn n) taken
      [.insert [(2, unitVec)], .delete [3]] := by
    refine .cons inserted ⟨by decide, insertKeeps⟩ (.cons deleted ⟨by decide, deleteKeeps⟩ ?_)
    trivial
  exact ⟨taken, later, history, ran, snapshot_stable (bruteForce 1) (by decide) history meets ran
    (fun seg member => IVFFlatIndex.exactAt_flat _ (flat seg member) _ _)
    (fun seg member => IVFFlatIndex.exactAt_flat _ (flat' seg member) _ _) fits fits'⟩

end VecScale
