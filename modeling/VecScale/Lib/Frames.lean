import Mathlib.Data.List.Basic

/-!
# Streams of self-delimiting frames

A `FrameCodec` writes a frame as a non-empty string and reads the first frame
off a string: it reads back what it wrote, whatever follows, and only ever
reads what it could have written.  A log is a concatenation of frames, and
`scan` is the loop that reads frames until the first one it cannot read.

* `scan_encodeAll_append`: whole frames at the front are read back;
* `scan_eq_iff`: the loop returns exactly `frames` iff the string is their
  encoding followed by something that starts with no frame;
* `next_eq_none_of_torn`: a proper prefix of a frame is no frame;
* `scan_cut`: of a string that is cut, the loop returns the frames before the cut;
* `scanRaising_eq_ok_iff`: a loop whose reads can raise returns the same, or raises.
-/

/-- How frames `α` are written as strings over `β` and read back. -/
structure FrameCodec (α β : Type) where
  encode : α → List β
  next : List β → Option (α × List β)
  Valid : α → Prop
  next_encode : ∀ a rest, Valid a → next (encode a ++ rest) = some (a, rest)
  next_sound : ∀ {bytes a rest}, next bytes = some (a, rest) →
    Valid a ∧ bytes = encode a ++ rest
  encode_ne_nil : ∀ a, encode a ≠ []

namespace FrameCodec

variable {α β : Type} (codec : FrameCodec α β)

/-- The frames one after another. -/
def encodeAll (frames : List α) : List β := frames.flatMap codec.encode

/-- Read frames until one cannot be read; every frame uses up one unit of fuel. -/
def scanFrom : ℕ → List β → List α
  | 0, _ => []
  | fuel + 1, bytes =>
      match codec.next bytes with
      | none => []
      | some (frame, rest) => frame :: scanFrom fuel rest

/-- The reading loop; a frame is at least one byte, so the length is fuel enough. -/
def scan (bytes : List β) : List α := codec.scanFrom bytes.length bytes

theorem next_shorter {bytes rest : List β} {a : α} (read : codec.next bytes = some (a, rest)) :
    rest.length < bytes.length := by
  have written := (codec.next_sound read).2
  have positive := List.length_pos_iff.mpr (codec.encode_ne_nil a)
  rw [written, List.length_append]
  omega

theorem next_nil : codec.next [] = none := by
  cases read : codec.next [] with
  | none => rfl
  | some found => exact absurd (codec.next_shorter read) (by simp)

/-- Any fuel from the length on gives the same frames. -/
theorem scanFrom_congr {fuel fuel' : ℕ} {bytes : List β} (enough : bytes.length ≤ fuel)
    (enough' : bytes.length ≤ fuel') : codec.scanFrom fuel bytes = codec.scanFrom fuel' bytes := by
  induction fuel generalizing fuel' bytes with
  | zero =>
      obtain rfl := List.length_eq_zero_iff.mp (Nat.le_zero.mp enough)
      cases fuel' <;> simp [scanFrom, codec.next_nil]
  | succ fuel ih =>
      cases fuel' with
      | zero =>
          obtain rfl := List.length_eq_zero_iff.mp (Nat.le_zero.mp enough')
          simp [scanFrom, codec.next_nil]
      | succ fuel' =>
          simp only [scanFrom]
          cases read : codec.next bytes with
          | none => rfl
          | some found =>
              have shorter := codec.next_shorter read
              exact congrArg _ (ih (by omega) (by omega))

/-- One turn of the loop. -/
theorem scan_eq (bytes : List β) :
    codec.scan bytes = match codec.next bytes with
      | none => []
      | some (frame, rest) => frame :: codec.scan rest := by
  rcases bytes with _ | ⟨b, bytes⟩
  · simp [scan, scanFrom, codec.next_nil]
  · simp only [scan, List.length_cons, scanFrom]
    cases read : codec.next (b :: bytes) with
    | none => rfl
    | some found =>
        have shorter := codec.next_shorter read
        simp only [List.length_cons] at shorter
        exact congrArg _ (codec.scanFrom_congr (by omega) (Nat.le_refl _))

/-- Whole frames at the front are read back unchanged. -/
theorem scan_encodeAll_append {frames : List α} (valid : ∀ a ∈ frames, codec.Valid a)
    (rest : List β) : codec.scan (codec.encodeAll frames ++ rest) = frames ++ codec.scan rest := by
  induction frames with
  | nil => rfl
  | cons a frames ih =>
      have here := codec.next_encode a (codec.encodeAll frames ++ rest) (valid a List.mem_cons_self)
      rw [scan_eq, encodeAll, List.flatMap_cons, List.append_assoc]
      rw [encodeAll] at here ih
      rw [here]
      simp only [List.cons_append, List.cons.injEq, true_and]
      exact ih fun b member => valid b (List.mem_cons_of_mem _ member)

/-- What the loop returns was written at the front, and no frame follows it. -/
theorem scan_sound (bytes : List β) :
    (∀ a ∈ codec.scan bytes, codec.Valid a) ∧
      ∃ rest, bytes = codec.encodeAll (codec.scan bytes) ++ rest ∧ codec.next rest = none := by
  induction size : bytes.length using Nat.strongRecOn generalizing bytes with
  | _ n ih =>
      rw [scan_eq]
      cases read : codec.next bytes with
      | none => exact ⟨by simp, bytes, rfl, read⟩
      | some found =>
          rcases found with ⟨a, rest⟩
          obtain ⟨valid, written⟩ := codec.next_sound read
          obtain ⟨restValid, tail, restWritten, stopped⟩ :=
            ih rest.length (size ▸ codec.next_shorter read) rest rfl
          refine ⟨?_, tail, ?_, stopped⟩
          · rintro b (_ | ⟨_, member⟩)
            · exact valid
            · exact restValid b member
          · rw [written, encodeAll, List.flatMap_cons, List.append_assoc]
            rw [encodeAll] at restWritten
            exact congrArg _ restWritten

/-- **What the loop returns.**  It returns `frames` exactly when the string is
their encoding followed by a string that starts with no frame. -/
theorem scan_eq_iff {frames : List α} (valid : ∀ a ∈ frames, codec.Valid a) {bytes : List β} :
    codec.scan bytes = frames ↔
      ∃ rest, bytes = codec.encodeAll frames ++ rest ∧ codec.next rest = none := by
  constructor
  · rintro rfl
    exact (codec.scan_sound bytes).2
  · rintro ⟨rest, rfl, stopped⟩
    rw [codec.scan_encodeAll_append valid, scan_eq, stopped, List.append_nil]

/-- A proper prefix of a frame holds no frame. -/
theorem next_eq_none_of_torn {a : α} {torn : List β} (valid : codec.Valid a)
    (pref : torn <+: codec.encode a) (proper : torn ≠ codec.encode a) :
    codec.next torn = none := by
  cases read : codec.next torn with
  | none => rfl
  | some found =>
      rcases found with ⟨b, rest⟩
      obtain ⟨bValid, written⟩ := codec.next_sound read
      rcases pref with ⟨missing, whole⟩
      -- read off the whole frame, `b` and `a` are the same frame
      have readA : codec.next (codec.encode a) = some (a, []) := by
        simpa using codec.next_encode a [] valid
      have readB : codec.next (codec.encode a) = some (b, rest ++ missing) := by
        rw [← whole, written, List.append_assoc]
        exact codec.next_encode b _ bValid
      rw [readA, Option.some.injEq, Prod.mk.injEq] at readB
      obtain ⟨-, rfl⟩ := List.append_eq_nil_iff.mp readB.2.symm
      exact absurd (by simpa using whole) proper

/-- **A string that is cut** anywhere holds the frames that end before the cut, and the
loop returns these. -/
theorem scan_cut {frames : List α} (valid : ∀ a ∈ frames, codec.Valid a) {bytes : List β}
    (pref : bytes <+: codec.encodeAll frames) :
    ∃ count ≤ frames.length, codec.scan bytes = frames.take count ∧
      ∀ j ≤ frames.length, codec.encodeAll (frames.take j) <+: bytes ↔ j ≤ count := by
  induction frames generalizing bytes with
  | nil =>
      have empty : bytes = [] := List.prefix_nil.mp pref
      subst empty
      refine ⟨0, Nat.le_refl 0, by rw [scan_eq, codec.next_nil]; rfl, fun j bound => ?_⟩
      simp only [encodeAll, List.take_nil, List.flatMap_nil, List.prefix_rfl, true_iff]
      exact bound
  | cons a frames ih =>
      have headed : codec.encodeAll (a :: frames) = codec.encode a ++ codec.encodeAll frames :=
        List.flatMap_cons
      by_cases whole : codec.encode a <+: bytes
      · -- the first frame is whole, and the rest is a cut of the other frames
        rcases whole with ⟨rest, rfl⟩
        rw [headed, List.prefix_append_right_inj] at pref
        obtain ⟨count, bound, scanned, inside⟩ :=
          ih (fun b member => valid b (List.mem_cons_of_mem _ member)) pref
        refine ⟨count + 1, Nat.succ_le_succ bound, ?_, fun j most => ?_⟩
        · rw [scan_eq, codec.next_encode a rest (valid a List.mem_cons_self)]
          exact congrArg (List.cons a) scanned
        · cases j with
          | zero => simp [encodeAll]
          | succ j =>
              have later : codec.encodeAll (a :: frames.take j) =
                  codec.encode a ++ codec.encodeAll (frames.take j) := List.flatMap_cons
              rw [List.take_succ_cons, later, List.prefix_append_right_inj,
                inside j (Nat.succ_le_succ_iff.mp most), Nat.succ_le_succ_iff]
      · have torn : bytes <+: codec.encode a := by
          rw [headed] at pref
          rcases List.prefix_or_prefix_of_prefix pref (List.prefix_append _ _) with short | long
          · exact short
          · exact absurd long whole
        have proper : bytes ≠ codec.encode a := fun same => whole (same ▸ List.prefix_rfl)
        refine ⟨0, Nat.zero_le _, ?_, fun j most => ?_⟩
        · rw [scan_eq, codec.next_eq_none_of_torn (valid a List.mem_cons_self) torn proper]
          rfl
        · cases j with
          | zero => simp [encodeAll]
          | succ j =>
              refine iff_of_false (fun found => whole ?_) (Nat.not_succ_le_zero j)
              rw [List.take_succ_cons, encodeAll, List.flatMap_cons] at found
              exact (List.prefix_append _ _).trans found

/-! ## Reads that raise

Before it looks at a frame, the loop can ask for more than it is given, and raise. -/

section Raising

variable {ε : Type} (raises : List β → Option ε)

/-- The reading loop, when the read at the front can raise. -/
def scanRaisingFrom : ℕ → List β → Except ε (List α)
  | 0, _ => .ok []
  | fuel + 1, bytes =>
      match raises bytes with
      | some e => .error e
      | none =>
          match codec.next bytes with
          | none => .ok []
          | some (frame, rest) => (scanRaisingFrom fuel rest).map (frame :: ·)

/-- Every frame uses up a byte, and the loop looks once more at what is left. -/
def scanRaising (bytes : List β) : Except ε (List α) :=
  codec.scanRaisingFrom raises (bytes.length + 1) bytes

/-- No read raises, whatever whole frames stand before it. -/
def Clear (bytes : List β) : Prop :=
  ∀ frames rest, (∀ a ∈ frames, codec.Valid a) → bytes = codec.encodeAll frames ++ rest →
    raises rest = none

variable {raises}

theorem clear_of_next_eq_none {bytes : List β} (stopped : codec.next bytes = none) :
    codec.Clear raises bytes ↔ raises bytes = none := by
  constructor
  · intro clear
    exact clear [] bytes (by simp) rfl
  · intro quiet frames rest valid written
    cases frames with
    | nil =>
        have same : bytes = rest := written
        rwa [← same]
    | cons a frames =>
        rw [written, encodeAll, List.flatMap_cons, List.append_assoc,
          codec.next_encode a _ (valid a List.mem_cons_self)] at stopped
        cases stopped

theorem clear_of_next_eq_some {bytes rest : List β} {a : α}
    (read : codec.next bytes = some (a, rest)) :
    codec.Clear raises bytes ↔ raises bytes = none ∧ codec.Clear raises rest := by
  obtain ⟨aValid, front⟩ := codec.next_sound read
  constructor
  · intro clear
    refine ⟨clear [] bytes (by simp) rfl, fun frames tail valid written => ?_⟩
    refine clear (a :: frames) tail (List.forall_mem_cons.mpr ⟨aValid, valid⟩) ?_
    rw [front, written, encodeAll, encodeAll, List.flatMap_cons, List.append_assoc]
  · rintro ⟨quiet, clear⟩ frames tail valid written
    cases frames with
    | nil =>
        have same : bytes = tail := written
        rwa [← same]
    | cons b frames =>
        -- the first frame is the one that was read
        rw [encodeAll, List.flatMap_cons, List.append_assoc] at written
        rw [written, codec.next_encode b _ (valid b List.mem_cons_self), Option.some.injEq,
          Prod.mk.injEq] at read
        exact clear frames tail (fun c member => valid c (List.mem_cons_of_mem _ member))
          read.2.symm

variable (raises) in
theorem scanRaisingFrom_cases {fuel : ℕ} {bytes : List β} (enough : bytes.length < fuel) :
    (codec.Clear raises bytes ∧ codec.scanRaisingFrom raises fuel bytes = .ok (codec.scan bytes)) ∨
      (¬ codec.Clear raises bytes ∧ ∃ e, codec.scanRaisingFrom raises fuel bytes = .error e) := by
  induction fuel generalizing bytes with
  | zero => exact absurd enough (Nat.not_lt_zero _)
  | succ fuel ih =>
      cases raised : raises bytes with
      | some e =>
          refine Or.inr ⟨fun clear => ?_, e, by simp only [scanRaisingFrom, raised]⟩
          have quiet := clear [] bytes (by simp) rfl
          rw [raised] at quiet
          cases quiet
      | none =>
          rw [scan_eq]
          cases read : codec.next bytes with
          | none =>
              refine Or.inl ⟨(codec.clear_of_next_eq_none read).mpr raised, ?_⟩
              simp only [scanRaisingFrom, raised, read]
          | some found =>
              rcases found with ⟨a, rest⟩
              have shorter := codec.next_shorter read
              have step : codec.Clear raises bytes ↔ raises bytes = none ∧ codec.Clear raises rest :=
                codec.clear_of_next_eq_some read
              simp only [scanRaisingFrom, raised, read, step, true_and]
              rcases ih (by omega : rest.length < fuel) with ⟨clear, scanned⟩ | ⟨unclear, e, failed⟩
              · exact Or.inl ⟨clear, by rw [scanned]; rfl⟩
              · exact Or.inr ⟨unclear, e, by rw [failed]; rfl⟩

/-- **When the loop returns.**  It raises unless every read goes through, and then it
returns the frames that it would have returned anyhow. -/
theorem scanRaising_eq_ok_iff {bytes : List β} {frames : List α} :
    codec.scanRaising raises bytes = .ok frames ↔
      codec.scan bytes = frames ∧ codec.Clear raises bytes := by
  rcases codec.scanRaisingFrom_cases raises (Nat.lt_succ_self bytes.length) with
    ⟨clear, scanned⟩ | ⟨unclear, e, failed⟩
  · rw [scanRaising, scanned, Except.ok.injEq, and_iff_left clear]
  · rw [scanRaising, failed]
    exact iff_of_false (fun same => by cases same) fun both => unclear both.2

end Raising

end FrameCodec
