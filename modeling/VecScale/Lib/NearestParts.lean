import Mathlib.Data.Prod.Lex
import VecScale.Lib.Nearest

/-!
# Selecting in parts, with ties

Selecting from every part first, and then from what was selected, is selecting from all
parts at once: the same distances come out, and when no key is in two parts, so do the
same rows, ties included.

* `nsmallest_congr`: a stable sort compares two items only in the order they stand in;
* `nsmallest_flatten`: the cut of the cuts of the parts;
* `entries_leastRows_flatten`: parts without a common key keep their least rows.
-/

/-! ## Stable sorting -/

section Sorting

variable {α β : Type} {r r' : α → α → Prop} [DecidableRel r] [DecidableRel r']

theorem orderedInsert_congr {a : α} {items : List α} (same : ∀ b ∈ items, r a b ↔ r' a b) :
    items.orderedInsert r a = items.orderedInsert r' a := by
  induction items with
  | nil => rfl
  | cons b items ih =>
      have here := same b List.mem_cons_self
      have rest := ih fun c member => same c (List.mem_cons_of_mem _ member)
      simp only [List.orderedInsert, here, rest]

theorem insertionSort_congr {items : List α}
    (same : items.Pairwise fun a b => r a b ↔ r' a b) :
    items.insertionSort r = items.insertionSort r' := by
  induction items with
  | nil => rfl
  | cons a items ih =>
      rw [List.pairwise_cons] at same
      rw [List.insertionSort_cons, List.insertionSort_cons, ih same.2]
      apply orderedInsert_congr
      intro b member
      exact same.1 b ((List.mem_insertionSort r').mp member)

/-- A function that tells the members of a list apart tells the lists apart. -/
theorem eq_of_map_eq {f : α → β} {items items' : List α}
    (apart : ∀ a ∈ items, ∀ b, f a = f b → a = b) (same : items.map f = items'.map f) :
    items = items' := by
  induction items generalizing items' with
  | nil => exact (List.map_eq_nil_iff.mp same.symm).symm
  | cons a items ih =>
      cases items' with
      | nil => cases same
      | cons b items' =>
          rw [List.map_cons, List.map_cons, List.cons.injEq] at same
          rw [apart a List.mem_cons_self b same.1,
            ih (fun c member => apart c (List.mem_cons_of_mem _ member)) same.2]

variable {δ δ' : Type} [LinearOrder δ] [LinearOrder δ'] {k : ℕ} {items : List α}

/-- A stable cut compares two items only in the order they stand in. -/
theorem nsmallest_congr {key : α → δ} {key' : α → δ'}
    (same : items.Pairwise fun a b => key a ≤ key b ↔ key' a ≤ key' b) :
    nsmallest k items key = nsmallest k items key' := by
  rw [nsmallest, nsmallest, insertionSort_congr same]

theorem map_nsmallest (f : α → β) (key : β → δ) :
    (nsmallest k items fun a => key (f a)).map f = nsmallest k (items.map f) key := by
  rw [nsmallest, nsmallest, List.map_take,
    List.map_insertionSort _ (fun a b => key a ≤ key b) f items fun _ _ _ _ => Iff.rfl]

theorem mem_of_nsmallest {key : α → δ} {a : α} (selected : a ∈ nsmallest k items key) :
    a ∈ items :=
  (List.mem_insertionSort _).mp (List.mem_of_mem_take selected)

end Sorting

/-! ## Rows of distinct keys -/

section Parts

variable {κ δ : Type} [LinearOrder δ] [DecidableEq κ]

theorem nearestById_of_nodup {rows : List (κ × δ)} (nodup : (rows.map Prod.fst).Nodup) (k : ℕ) :
    NearestById k rows (nsmallest k rows Prod.snd) := by
  have near := nearestById_nsmallest k rows
  rwa [leastRows_of_nodup nodup] at near

/-! Ties are broken by the place of a key, so that the rank of a row is its own. -/

/-- The place of a key among some rows. -/
def placeIn (rows : List (κ × δ)) (x : κ) : ℕ := (rows.map Prod.fst).idxOf x

def rankIn (rows : List (κ × δ)) (p : κ × δ) : δ ×ₗ ℕ := toLex (p.2, placeIn rows p.1)

omit [LinearOrder δ] in
theorem pairwise_placeIn {rows : List (κ × δ)} (nodup : (rows.map Prod.fst).Nodup) :
    rows.Pairwise fun a b => placeIn rows a.1 < placeIn rows b.1 := by
  have place : ∀ (n : ℕ) (bound : n < rows.length), placeIn rows (rows[n]).1 = n := by
    intro n bound
    have index := nodup.idxOf_getElem n (by rwa [List.length_map])
    rwa [List.getElem_map] at index
  rw [List.pairwise_iff_getElem]
  intro i j low high before
  rw [place i low, place j high]
  exact before

theorem le_iff_rankIn {rows : List (κ × δ)} {a b : κ × δ}
    (before : placeIn rows a.1 < placeIn rows b.1) : a.2 ≤ b.2 ↔ rankIn rows a ≤ rankIn rows b := by
  rw [rankIn, rankIn, Prod.Lex.toLex_le_toLex, le_iff_lt_or_eq]
  simp only [before.le, and_true]

omit [LinearOrder δ] in
theorem eq_of_rankIn {rows : List (κ × δ)} {a b : κ × δ} (member : a ∈ rows)
    (same : rankIn rows a = rankIn rows b) : a = b := by
  have fields := Prod.mk.injEq _ _ _ _ ▸ toLex.injective same
  exact Prod.ext ((List.idxOf_inj (List.mem_map_of_mem member)).mp fields.2) fields.1

/-- Rows in the order of their places are cut by rank. -/
theorem nsmallest_rankIn {all rows : List (κ × δ)}
    (ordered : rows.Pairwise fun a b => placeIn all a.1 < placeIn all b.1) (k : ℕ) :
    nsmallest k rows Prod.snd = nsmallest k rows (rankIn all) :=
  nsmallest_congr (ordered.imp le_iff_rankIn)

/-- A row with its rank in place of its distance. -/
def ranked (all : List (κ × δ)) (p : κ × δ) : κ × (δ ×ₗ ℕ) := (p.1, rankIn all p)

theorem nearestById_ranked (all : List (κ × δ)) {rows : List (κ × δ)}
    (nodup : (rows.map Prod.fst).Nodup) (k : ℕ) : NearestById k (rows.map (ranked all))
      ((nsmallest k rows (rankIn all)).map (ranked all)) := by
  have keys : (rows.map (ranked all)).map Prod.fst = rows.map Prod.fst := by
    rw [List.map_map]
    rfl
  have near := nearestById_of_nodup (keys.symm ▸ nodup) k
  rwa [← map_nsmallest (ranked all)] at near

/-- The cuts of parts in the order of their places are cut by rank, too. -/
theorem nsmallest_cuts_rankIn {all : List (κ × δ)} {parts : List (List (κ × δ))}
    (placed : parts.flatten.Pairwise fun a b => placeIn all a.1 < placeIn all b.1) (k : ℕ) :
    nsmallest k (parts.map fun rows => nsmallest k rows Prod.snd).flatten Prod.snd =
      nsmallest k (parts.map fun rows => nsmallest k rows Prod.snd).flatten (rankIn all) := by
  rcases List.pairwise_flatten.mp placed with ⟨each, across⟩
  apply nsmallest_congr
  rw [List.pairwise_flatten, List.pairwise_map]
  constructor
  · intro rows cut
    rcases List.mem_map.mp cut with ⟨part, member, rfl⟩
    have ascending := pairwise_nsmallest k part (Prod.snd : κ × δ → δ)
    have rising := pairwise_nsmallest k part (rankIn all)
    rw [← nsmallest_rankIn (each part member) k] at rising
    exact ascending.imp₂ (fun _ _ le le' => iff_of_true le le') rising
  · apply across.imp
    intro part part' before a inside b inside'
    exact le_iff_rankIn (before a (mem_of_nsmallest inside) b (mem_of_nsmallest inside'))

/-- Rows of distinct keys still have distinct keys when every part is cut. -/
theorem nodup_cuts {parts : List (List (κ × δ))} (nodup : (parts.flatten.map Prod.fst).Nodup)
    (k : ℕ) : ((parts.map fun rows => nsmallest k rows Prod.snd).flatten.map Prod.fst).Nodup := by
  rw [List.map_flatten, List.nodup_flatten] at nodup ⊢
  rcases nodup with ⟨each, across⟩
  constructor
  · intro keys listed
    rcases List.mem_map.mp listed with ⟨cut, isCut, rfl⟩
    rcases List.mem_map.mp isCut with ⟨rows, part, rfl⟩
    exact (nearestById_of_nodup (each _ (List.mem_map_of_mem part)) k).nodup
  · rw [List.map_map, List.pairwise_map]
    rw [List.pairwise_map] at across
    apply across.imp
    intro rows rows' disjoint x inside inside'
    rcases List.mem_map.mp inside with ⟨p, selected, rfl⟩
    rcases List.mem_map.mp inside' with ⟨q, selected', same⟩
    exact disjoint (List.mem_map_of_mem (mem_of_nsmallest selected))
      (same ▸ List.mem_map_of_mem (mem_of_nsmallest selected'))

/-- **Cutting in parts.**  Cutting every part and then the cuts is cutting all of it. -/
theorem nsmallest_flatten {parts : List (List (κ × δ))}
    (nodup : (parts.flatten.map Prod.fst).Nodup) (k : ℕ) :
    nsmallest k (parts.map fun rows => nsmallest k rows Prod.snd).flatten Prod.snd =
      nsmallest k parts.flatten Prod.snd := by
  let all := parts.flatten
  let cuts := (parts.map fun rows => nsmallest k rows Prod.snd).flatten
  have placed : all.Pairwise fun a b => placeIn all a.1 < placeIn all b.1 := pairwise_placeIn nodup
  have partsNodup : ∀ rows ∈ parts, (rows.map Prod.fst).Nodup := fun rows member =>
    nodup.sublist ((List.sublist_flatten_of_mem member).map _)
  have whole : NearestById k (all.map (ranked all))
      ((nsmallest k all (rankIn all)).map (ranked all)) := nearestById_ranked all nodup k
  have inParts : NearestById k (all.map (ranked all))
      ((nsmallest k cuts (rankIn all)).map (ranked all)) := by
    have outputs : cuts.map (ranked all) =
        parts.flatMap fun rows => (nsmallest k rows (rankIn all)).map (ranked all) := by
      rw [List.map_flatten, List.map_map, List.flatMap_def]
      congr 1
      apply List.map_congr_left
      intro rows member
      exact congrArg (List.map (ranked all))
        (nsmallest_rankIn ((List.pairwise_flatten.mp placed).1 rows member) k)
    have near : NearestById k (cuts.map (ranked all))
        ((nsmallest k cuts (rankIn all)).map (ranked all)) :=
      nearestById_ranked all (nodup_cuts nodup k) k
    rw [outputs] at near
    apply near.of_parts (fun rows => rows.map (ranked all))
    · intro p
      constructor
      · intro listed
        rcases List.mem_map.mp listed with ⟨row, member, rfl⟩
        rcases List.mem_flatten.mp member with ⟨rows, part, inside⟩
        exact ⟨rows, part, List.mem_map_of_mem inside⟩
      · intro listed
        rcases listed with ⟨rows, part, inside⟩
        rcases List.mem_map.mp inside with ⟨row, member, rfl⟩
        exact List.mem_map_of_mem (List.mem_flatten_of_mem part member)
    · exact fun rows member => nearestById_ranked all (partsNodup rows member) k
  have ranks := inParts.distances_unique whole
  rw [List.map_map, List.map_map] at ranks
  rw [nsmallest_rankIn placed, nsmallest_cuts_rankIn placed]
  refine eq_of_map_eq (fun a selected b same => eq_of_rankIn ?_ same) ranks
  obtain ⟨cut, listed, inside⟩ := List.mem_flatten.mp (mem_of_nsmallest selected)
  rcases List.mem_map.mp listed with ⟨part, member, rfl⟩
  exact List.mem_flatten_of_mem member (mem_of_nsmallest inside)

/-! ## Least rows of parts -/

theorem entries_keepLeast {seen tail : Dict κ δ} {front : List (κ × δ)}
    (parted : seen.entries = front ++ tail.entries) {p : κ × δ}
    (absent : p.1 ∉ front.map Prod.fst) :
    (keepLeast seen p).entries = front ++ (keepLeast tail p).entries := by
  have found : seen.get? p.1 = tail.get? p.1 := by
    change assocGet seen.entries p.1 = assocGet tail.entries p.1
    rw [parted, assocGet_append_of_absent absent]
  have written : (seen.set p.1 p.2).entries = front ++ (tail.set p.1 p.2).entries := by
    change assocSet seen.entries p.1 p.2 = front ++ assocSet tail.entries p.1 p.2
    rw [parted, assocSet_append_of_absent absent]
  unfold keepLeast
  rw [found]
  split
  · exact written
  · split
    · exact written
    · exact parted

/-- Parts without a common key keep their least rows. -/
theorem entries_leastRows_append {rows rows' : List (κ × δ)}
    (apart : ∀ p ∈ rows, ∀ q ∈ rows', p.1 ≠ q.1) :
    (leastRows (rows ++ rows')).entries = (leastRows rows).entries ++ (leastRows rows').entries := by
  induction rows' using List.reverseRecOn with
  | nil =>
      rw [List.append_nil]
      exact (List.append_nil _).symm
  | append_singleton rows' p ih =>
      have last : p ∈ rows' ++ [p] := List.mem_append_right _ List.mem_cons_self
      have absent : p.1 ∉ (leastRows rows).entries.map Prod.fst := by
        intro listed
        obtain ⟨q, member, same⟩ := List.mem_map.mp ((mem_keys_leastRows rows p.1).mp listed)
        exact apart q member p last same
      have before := ih fun q member q' member' => apart q member q' (List.mem_append_left _ member')
      have whole : leastRows (rows ++ (rows' ++ [p])) = keepLeast (leastRows (rows ++ rows')) p := by
        rw [leastRows, ← List.append_assoc, List.foldl_append]
        rfl
      have part : leastRows (rows' ++ [p]) = keepLeast (leastRows rows') p := by
        rw [leastRows, List.foldl_append]
        rfl
      rw [whole, part, entries_keepLeast before absent]

theorem entries_leastRows_flatten {parts : List (List (κ × δ))}
    (apart : parts.Pairwise fun rows rows' => ∀ p ∈ rows, ∀ q ∈ rows', p.1 ≠ q.1) :
    (leastRows parts.flatten).entries = (parts.map fun rows => (leastRows rows).entries).flatten := by
  induction parts with
  | nil => rfl
  | cons rows parts ih =>
      rw [List.pairwise_cons] at apart
      rw [List.flatten_cons, List.map_cons, List.flatten_cons, entries_leastRows_append, ih apart.2]
      intro p member q listed
      rcases List.mem_flatten.mp listed with ⟨rows', part, inside⟩
      exact apart.1 rows' part p member q inside

end Parts
