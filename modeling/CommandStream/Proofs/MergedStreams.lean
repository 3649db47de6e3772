import CommandStream.Proofs.RegularTransfers
import CommandStream.Proofs.SortedRuns

/-! # Merged streams

What a merge leaves has no skipped tails and no rectangles that could be rows, and its runs are in
address order. Merging it once more changes it exactly if neighbours can be combined in host order
or in local order, and then it takes fewer records.
-/

namespace CommandStream

/-! ## Steps that change nothing -/

namespace Transfer

/-- Neither a gapless rectangle that could be a row nor a rectangle of one row. -/
def Flattened (maxElements : Nat) (t : Transfer) : Prop :=
  t.isRect = true → t.flattenable maxElements = false ∧ t.height ≠ 1

def Apart (a b : Transfer) : Prop :=
  a.sameCommand b = false ∧ a.joinRow b = .ok none ∧ a.joinRect b = .ok none

variable {a b joined t : Transfer} {maxElements : Nat}

theorem flattened_of_not_isRect (h : t.isRect = false) : t.Flattened maxElements := by
  intro hrect
  rw [h] at hrect
  cases hrect

theorem Flattened.flattenSegment (h : t.Flattened maxElements) :
    Merging.flattenSegment maxElements (.transfer t) = .transfer t ∧
      Merging.flattens maxElements (.transfer t) = false := by
  rw [Merging.flattenSegment, Merging.flattens]
  cases hrect : t.isRect with
  | false => exact ⟨rfl, rfl⟩
  | true =>
    obtain ⟨hflat, hheight⟩ := h hrect
    rw [hflat, if_neg (by decide), if_neg (by decide), if_neg hheight]
    exact ⟨rfl, rfl⟩

theorem flattened_flattenSegment {u : Transfer}
    (h : Merging.flattenSegment maxElements (.transfer t) = .transfer u) :
    u.Flattened maxElements := by
  rw [Merging.flattenSegment] at h
  split at h
  · rename_i hrow
    obtain rfl := Segment.transfer.inj h
    exact flattened_of_not_isRect (by simpa using hrow)
  · split at h
    · obtain rfl := Segment.transfer.inj h
      exact flattened_of_not_isRect (by simp [isRect])
    · rename_i hflat
      split at h
      · obtain rfl := Segment.transfer.inj h
        exact flattened_of_not_isRect (by simp [isRect])
      · rename_i hheight
        obtain rfl := Segment.transfer.inj h
        exact fun _ => ⟨by simpa using hflat, hheight⟩

theorem Flattened.joinRow (h : joinRow a b = .ok (some joined)) : joined.Flattened maxElements := by
  obtain ⟨hrow, hdirection, -⟩ := joinRow_shape h
  apply flattened_of_not_isRect
  rw [isRect, hdirection]
  exact hrow

theorem flattenable_iff :
    t.flattenable maxElements = true ↔
      1 < t.height.toNat ∧ t.leap = 1 ∧ t.padding.isEmpty = true ∧
        t.width.toNat * t.height.toNat ≤ min maxElements 65535 := by
  simp only [flattenable, Bool.and_eq_true, decide_eq_true_eq, beq_iff_eq, and_assoc,
    UInt16.lt_iff_toNat_lt]
  rfl

theorem leap_joinRect (h : Transfer.joinRect a b = .ok (some joined)) : joined.leap = a.leap := by
  obtain ⟨-, -, -, -, -, hstart⟩ := joinRect_eq_some h
  rcases startOfJoin_cases hstart with ⟨-, rfl⟩ | ⟨-, rfl⟩
  · rfl
  · rfl

theorem Flattened.joinRect (ha : a.Flattened maxElements) (hb : b.Flattened maxElements)
    (h : joinRect a b = .ok (some joined)) : joined.Flattened maxElements := by
  obtain ⟨hrect, hsame, hleap, hwidth, -, -⟩ := joinRect_eq_some h
  obtain ⟨hdirection, htarget, -, -⟩ := sameTarget_iff.mp hsame
  obtain ⟨-, htarget', hwidth', hheight', -⟩ := joinRect_shape h
  have hpadding : a.padding = b.padding := by
    simp only [target, Prod.mk.injEq] at htarget
    exact htarget.2.2.2.1
  have hpadding' : joined.padding = a.padding := by
    simp only [target, Prod.mk.injEq] at htarget'
    exact htarget'.2.2.2.1
  have hne {h : UInt16} (hh : h ≠ 1) : h.toNat ≠ 1 := fun heq => hh (UInt16.toNat_inj.mp heq)
  obtain ⟨hflatA, hheightA⟩ := ha hrect
  obtain ⟨hflatB, hheightB⟩ := hb (by rw [isRect, ← hdirection]; exact hrect)
  have hA := hne hheightA
  have hB := hne hheightB
  intro _
  constructor
  · by_contra hflat
    obtain ⟨htall, hleap', hempty, harea⟩ := flattenable_iff.mp (by simpa using hflat)
    rw [leap_joinRect h] at hleap'
    rw [hpadding'] at hempty
    rw [hwidth', hheight', Nat.mul_add] at harea
    rw [hheight'] at htall
    rcases Nat.lt_or_ge 1 a.height.toNat with hlt | hle
    · have hfits : a.flattenable maxElements = true :=
        flattenable_iff.mpr ⟨hlt, hleap', hempty, by omega⟩
      rw [hflatA] at hfits
      cases hfits
    · have hfits : b.flattenable maxElements = true := by
        refine flattenable_iff.mpr ⟨by omega, hleap ▸ hleap', hpadding ▸ hempty, ?_⟩
        rw [← hwidth]
        omega
      rw [hflatB] at hfits
      cases hfits
  · intro hone
    rw [hone] at hheight'
    have hsum : a.height.toNat + b.height.toNat = 1 := hheight'.symm
    omega

end Transfer

def Segment.SameKind (s s' : Segment) : Prop :=
  s' = s ∨ ∃ t u, s = .transfer t ∧ s' = .transfer u

theorem recordCount_eq_of_sameKind {xs ys : List Segment}
    (h : List.Forall₂ Segment.SameKind xs ys) : recordCount ys = recordCount xs := by
  induction h with
  | nil => rfl
  | cons hs _ ih =>
    rw [recordCount_cons, recordCount_cons, ih]
    obtain rfl | ⟨t, u, rfl, rfl⟩ := hs <;> rfl

namespace Merging

variable {m : Merging}

theorem dropDuplicates_eq_self
    (h : Neighbours (fun a b => a.sameCommand b = false) m.segments) :
    m.dropDuplicates = .ok m := by
  have hout : absorb (fun a b => return if a.sameCommand b then some a else none) m.segments =
      (.ok ⟨m.segments, []⟩ : Checked Absorbed) := by
    refine absorb_of_neighbours (h.imp fun a b hab => ?_)
    rw [hab]
    rfl
  rw [dropDuplicates, hout]
  rfl

theorem joinRows_eq_self (h : Neighbours (fun a b => a.joinRow b = .ok none) m.segments) :
    m.joinRows = .ok m := by
  rw [joinRows, absorb_of_neighbours h]
  rfl

theorem joinRects_eq_self (h : Neighbours (fun a b => a.joinRect b = .ok none) m.segments) :
    m.joinRects = .ok m := by
  rw [joinRects, absorb_of_neighbours h]
  rfl

theorem flatten_eq_self {maxElements : Nat}
    (h : ∀ t, .transfer t ∈ m.segments → t.Flattened maxElements) : m.flatten maxElements = m := by
  have hsame : m.segments.map (flattenSegment maxElements) = m.segments := by
    conv_rhs => rw [← List.map_id m.segments]
    refine List.map_congr_left fun s hs => ?_
    cases s with
    | transfer t => exact (h t hs).flattenSegment.1
    | loop _ | compute _ | block _ | sync _ | padding _ | scatter _ => rfl
  have hnone : m.segments.countP (flattens maxElements) = 0 := by
    refine List.countP_eq_zero.mpr fun s hs => ?_
    cases s with
    | transfer t => simp [(h t hs).flattenSegment.2]
    | loop _ | compute _ | block _ | sync _ | padding _ | scatter _ => exact Bool.false_ne_true
  rw [flatten, hsame, hnone]
  rfl

theorem trim_eq_self (h : Unskipped m.segments) : m.trim = .ok m := by
  have hsame : m.segments.zipIdx.mapM trimSegment = .ok m.segments := by
    rw [mapM_eq_ok_iff]
    conv => arg 3; rw [← List.zipIdx_map_fst 0 m.segments]
    rw [List.forall₂_map_right_iff, List.forall₂_same]
    intro x hx
    have hmem := List.fst_mem_of_mem_zipIdx hx
    obtain ⟨s, index⟩ := x
    cases s with
    | transfer t => exact if_pos (h t hmem)
    | loop _ | compute _ | block _ | sync _ | padding _ | scatter _ => rfl
  rw [trim, hsame]
  rfl

/-! ### Steps that keep the number of records -/

variable {m' : Merging}

theorem dropDuplicates_cases (h : m.dropDuplicates = .ok m') :
    recordCount m'.segments ≤ recordCount m.segments ∧
      (recordCount m'.segments = recordCount m.segments → m'.segments = m.segments ∧
        Neighbours (fun a b => a.sameCommand b = false) m.segments) := by
  obtain ⟨out, hout, h⟩ := bind_eq_ok_iff.mp h
  obtain ⟨dropped, -, h⟩ := bind_eq_ok_iff.mp h
  obtain rfl := pure_eq_ok_iff.mp h
  obtain ⟨hle, hsame⟩ := absorb_cases hout
  refine ⟨hle, fun hcount => ⟨(hsame hcount).1, (hsame hcount).2.imp fun a b hab => ?_⟩⟩
  by_contra hcommand
  rw [Bool.not_eq_false] at hcommand
  rw [hcommand] at hab
  cases hab

theorem Joins.cases {join : Transfer → Transfer → Checked (Option Transfer)}
    (h : Joins join m m') :
    recordCount m'.segments ≤ recordCount m.segments ∧
      (recordCount m'.segments = recordCount m.segments → m'.segments = m.segments ∧
        Neighbours (fun a b => join a b = .ok none) m.segments) := by
  obtain ⟨out, hout, hkept, -⟩ := h.absorb
  rw [hkept]
  exact absorb_cases hout

theorem sameKind_flatten (m : Merging) (maxElements : Nat) :
    List.Forall₂ Segment.SameKind m.segments (m.flatten maxElements).segments := by
  rw [flatten, List.forall₂_map_right_iff, List.forall₂_same]
  intro s _
  cases s with
  | transfer t =>
    obtain ⟨u, hu, -⟩ := t.flattenSegment_transfer maxElements
    exact .inr ⟨t, u, rfl, hu⟩
  | loop _ | compute _ | block _ | sync _ | padding _ | scatter _ => exact .inl rfl

theorem sameKind_trim (h : m.trim = .ok m') :
    List.Forall₂ Segment.SameKind m.segments m'.segments := by
  refine (forall₂_trim h).imp ?_
  rintro s s' ⟨index, hs⟩
  cases s with
  | transfer t =>
    obtain ⟨u, hu, -⟩ := Transfer.trimSegment_eq_transfer hs
    exact .inr ⟨t, u, rfl, hu⟩
  | loop _ | compute _ | block _ | sync _ | padding _ | scatter _ =>
    exact .inl (Except.ok.inj hs).symm

end Merging

/-! ## Sorting runs -/

structure PlaceKey (key : Transfer → List Nat) : Prop where
  length_eq : ∀ t u, (key t).length = (key u).length
  eq_iff : ∀ t u, key t = key u ↔ t.hostKey = u.hostKey

theorem placeKey_hostKey : PlaceKey Transfer.hostKey := ⟨fun _ _ => rfl, fun _ _ => Iff.rfl⟩

theorem placeKey_localKey : PlaceKey Transfer.localKey where
  length_eq _ _ := rfl
  eq_iff t u := by
    simp only [Transfer.localKey, Transfer.hostKey, List.cons.injEq, and_true]
    tauto

theorem placeKey_addressKey : PlaceKey Transfer.addressKey where
  length_eq _ _ := rfl
  eq_iff t u := by
    simp only [Transfer.addressKey, Transfer.hostKey, List.cons.injEq, and_true]
    tauto

def sortRuns (key : Transfer → List Nat) (segments : List Segment) : List Segment :=
  permuteRuns Transfer.sameClass (sortOn key) segments

section SortRuns

variable {key key' : Transfer → List Nat} {segments : List Segment}

theorem sortRuns_sortRuns (h : PlaceKey key) (h' : PlaceKey key') (segments : List Segment) :
    sortRuns key' (sortRuns key segments) = sortRuns key' segments := by
  have hsort : sortOn key' ∘ sortOn key = sortOn key' := by
    funext run
    refine sortOn_sortOn h.length_eq h'.length_eq (fun t u => ?_) run
    rw [h.eq_iff, h'.eq_iff]
  rw [sortRuns, sortRuns, permuteRuns_permuteRuns (sortOn_perm key) (sortOn_perm key'), hsort]
  rfl

theorem mem_sortRuns {s : Segment} : s ∈ sortRuns key segments ↔ s ∈ segments :=
  mem_permuteRuns (sortOn_perm key)

/-- Neighbours of one class in a sorted stream come from one run, in the order of their keys. -/
theorem neighbours_sortRuns {R : Transfer → Transfer → Prop} (hkey : PlaceKey key)
    (h : ∀ first rest, .run first rest ∈ pieces Transfer.sameClass segments →
      ∀ t ∈ first :: rest, ∀ u ∈ first :: rest, keyLe (key t) (key u) = true → R t u) :
    Neighbours (fun a b => a.isStore = b.isStore → R a b) (sortRuns key segments) := by
  have hperm := sortOn_perm key
  rw [sortRuns, permuteRuns_eq_flatMap hperm]
  refine ((alternates_pieces segments).permute hperm).neighbours ?_
  intro low high hrun
  obtain ⟨p, hp, hpermute⟩ := List.mem_map.mp hrun
  cases p with
  | barrier s => cases hpermute
  | run first rest =>
    obtain ⟨low', high', hsorted, hpermute'⟩ := Piece.exists_permute_run hperm first rest
    obtain ⟨rfl, rfl⟩ := Piece.run.inj (hpermute'.symm.trans hpermute)
    have hpairs := pairwise_sortOn key hkey.length_eq (first :: rest)
    have hmem (t : Transfer) (ht : t ∈ low' :: high') : t ∈ first :: rest := by
      rw [← hsorted] at ht
      exact (hperm _).mem_iff.mp ht
    rw [hsorted] at hpairs
    refine List.Pairwise.isChain (hpairs.imp_of_mem ?_)
    intro t u ht hu hle
    exact h first rest hp t (hmem t ht) u (hmem u hu) hle

theorem recordCount_sortRuns : recordCount (sortRuns key segments) = recordCount segments :=
  ((permuteRuns_perm (sortOn_perm key) segments).map Segment.records).sum_eq

end SortRuns

/-! ## What a merge leaves -/

/-- What every merged stream is. -/
structure Merged (maxElements : Nat) (segments : List Segment) : Prop where
  unskipped : Unskipped segments
  flattened : ∀ t, .transfer t ∈ segments → t.Flattened maxElements
  sorted : refreshBlocks (sortRuns Transfer.addressKey segments) = segments
  words : elementTotal segments < 2 ^ 64

theorem flattened_absorb {ε : Type} {join : Transfer → Transfer → Except ε (Option Transfer)}
    {maxElements : Nat} {segments : List Segment} {out : Absorbed}
    (h : absorb join segments = .ok out)
    (hjoin : ∀ {a b joined}, a.Flattened maxElements → b.Flattened maxElements →
      join a b = .ok (some joined) → joined.Flattened maxElements)
    (hs : ∀ t, .transfer t ∈ segments → t.Flattened maxElements) :
    ∀ t, .transfer t ∈ out.kept → t.Flattened maxElements :=
  (absorbs_of_eq_ok h).forall_transfer (fun ha hb hj => hjoin ha hb hj) hs (by simp)

namespace Merging

variable {m m' : Merging} {maxElements : Nat}

theorem flattened_flatten :
    ∀ t, .transfer t ∈ (m.flatten maxElements).segments → t.Flattened maxElements := by
  intro t ht
  obtain ⟨s, -, hst⟩ := List.mem_map.mp ht
  cases s with
  | transfer u => exact Transfer.flattened_flattenSegment hst
  | loop _ | compute _ | block _ | sync _ | padding _ | scatter _ => cases hst

theorem flattened_trim (h : m.trim = .ok m')
    (hs : ∀ t, .transfer t ∈ m.segments → t.Flattened maxElements) :
    ∀ t, .transfer t ∈ m'.segments → t.Flattened maxElements := by
  intro t ht
  obtain ⟨s, hmem, index, hst⟩ := exists_of_mem_forall₂ (forall₂_trim h) ht
  cases s with
  | transfer u =>
    rw [trimSegment] at hst
    split at hst
    · obtain rfl := Segment.transfer.inj (Except.ok.inj hst)
      exact hs u hmem
    · split at hst
      · cases hst
      · rename_i hrow
        obtain rfl := Segment.transfer.inj (Except.ok.inj hst)
        exact Transfer.flattened_of_not_isRect (Bool.eq_false_iff.mpr hrow)
  | loop _ | compute _ | block _ | sync _ | padding _ | scatter _ => cases hst

theorem flattened_dropDuplicates (h : m.dropDuplicates = .ok m')
    (hs : ∀ t, .transfer t ∈ m.segments → t.Flattened maxElements) :
    ∀ t, .transfer t ∈ m'.segments → t.Flattened maxElements := by
  obtain ⟨out, hout, h⟩ := bind_eq_ok_iff.mp h
  obtain ⟨dropped, -, h⟩ := bind_eq_ok_iff.mp h
  obtain rfl := pure_eq_ok_iff.mp h
  refine flattened_absorb hout (fun {a b joined} ha _ hj => ?_) hs
  have hj := pure_eq_ok_iff.mp hj
  split at hj
  · exact Option.some.inj hj ▸ ha
  · cases hj

theorem Joins.flattened {join : Transfer → Transfer → Checked (Option Transfer)}
    (h : Joins join m m') (hs : ∀ t, .transfer t ∈ m.segments → t.Flattened maxElements) :
    ∀ t, .transfer t ∈ m'.segments → t.Flattened maxElements := by
  obtain ⟨out, hout, hkept, -⟩ := h.absorb
  rw [hkept]
  refine flattened_absorb hout (fun ha hb hj => ?_) hs
  obtain rfl | rfl := h.isJoin
  · exact Transfer.Flattened.joinRow hj
  · exact ha.joinRect hb hj

end Merging

theorem elementTotal_lt_of_merge {segments out : List Segment} {maxElements : Nat}
    (h : merge segments maxElements = .ok out) : elementTotal out < 2 ^ 64 := by
  obtain ⟨stats, hstats⟩ := merge_eq_ok h
  unfold mergeWithStats at hstats
  simp only [bind_eq_ok_iff, liftM_checked_eq_ok_iff, liftM_fault_eq_ok_iff] at hstats
  obtain ⟨_, _, _, _, _, _, _, _, _, _, _, _, _, _, m, _, after, hafter, _, _, hout⟩ := hstats
  obtain ⟨rfl, hlt⟩ := countElements_eq_ok_iff.mp hafter
  split at hout
  · simp at hout
  · rw [pure_eq_ok_iff, Prod.mk.injEq] at hout
    have hsorted : Conserves m.segments (m.reorder Transfer.addressKey).segments :=
      conserves_permuteRuns (sortOn_perm Transfer.addressKey) m.segments
    rw [← hout.1, (hsorted.trans (conserves_refreshBlocks _)).words]
    exact hlt

theorem merged_of_merge {segments out : List Segment} {maxElements : Nat}
    (h : merge segments maxElements = .ok out) : Merged maxElements out := by
  have hwords := elementTotal_lt_of_merge h
  obtain ⟨-, -, hunskipped, -⟩ := meaning_merge_of_dropDuplicates h
  obtain ⟨stats, h⟩ := merge_eq_ok h
  obtain ⟨m₁, m₂, m₃, m₄, m₅, m₆, m₇, -, -, -, -, -, h₆, h₇, rfl, -⟩ := mergeWithStats_eq_ok h
  refine ⟨hunskipped, ?_, ?_, hwords⟩
  · have hflat := (Merging.joins_of_joinRects h₇).flattened
      ((Merging.joins_of_joinRows h₆).flattened Merging.flattened_flatten)
    exact fun t ht => hflat t (Merging.mem_reorder.mp ((mem_refreshBlocks rfl).mp ht))
  · rw [sortRuns, refreshBlocks_permuteRuns_refreshBlocks]
    exact congrArg refreshBlocks
      (sortRuns_sortRuns placeKey_addressKey placeKey_addressKey m₇.segments)

/-! ## Merging a merged stream -/

/-- No two neighbours can be combined, neither in host order nor in local order. -/
structure Irreducible (segments : List Segment) : Prop where
  hostOrder : Neighbours Transfer.Apart (sortRuns Transfer.hostKey segments)
  localOrder : Neighbours Transfer.Apart (sortRuns Transfer.localKey segments)

namespace Merged

variable {segments out : List Segment} {maxElements : Nat} {key : Transfer → List Nat}

theorem flatten_eq_self (h : Merged maxElements segments) {m : Merging}
    (hm : m.segments = sortRuns key segments) : m.flatten maxElements = m := by
  apply Merging.flatten_eq_self
  intro t ht
  rw [hm] at ht
  exact h.flattened t (mem_sortRuns.mp ht)

theorem trim_eq_self (h : Merged maxElements segments) {m : Merging}
    (hm : m.segments = sortRuns key segments) : m.trim = .ok m := by
  apply Merging.trim_eq_self
  intro t ht
  rw [hm] at ht
  exact h.unskipped t (mem_sortRuns.mp ht)

theorem sweeps_eq_self {m : Merging} (hm : m.segments = sortRuns key segments)
    (hapart : Neighbours Transfer.Apart (sortRuns key segments)) :
    m.dropDuplicates = .ok m ∧ m.joinRows = .ok m ∧ m.joinRects = .ok m := by
  rw [← hm] at hapart
  refine ⟨?_, ?_, ?_⟩
  · exact Merging.dropDuplicates_eq_self (hapart.imp fun _ _ hab => hab.1)
  · exact Merging.joinRows_eq_self (hapart.imp fun _ _ hab => hab.2.1)
  · exact Merging.joinRects_eq_self (hapart.imp fun _ _ hab => hab.2.2)

theorem mergeWithStats_of_irreducible (h : Merged maxElements segments)
    (hi : Irreducible segments) : mergeWithStats segments maxElements = .ok (segments, {}) := by
  let start : Merging := { segments := segments }
  have htotal : countElements segments = .ok (elementTotal segments) :=
    countElements_eq_ok_iff.mpr ⟨rfl, h.words⟩
  have hhostRuns : (start.reorder Transfer.hostKey).segments =
      sortRuns Transfer.hostKey segments := rfl
  have hlocalRuns : (start.reorder Transfer.localKey).segments =
      sortRuns Transfer.localKey segments := rfl
  obtain ⟨hdrop, hrows, hrects⟩ := sweeps_eq_self hhostRuns hi.hostOrder
  obtain ⟨hdrop', hrows', hrects'⟩ := sweeps_eq_self hlocalRuns hi.localOrder
  have hlocal : (start.reorder Transfer.hostKey).reorder Transfer.localKey =
      start.reorder Transfer.localKey :=
    congrArg (fun s => ({ start with segments := s } : Merging))
      (sortRuns_sortRuns placeKey_hostKey placeKey_localKey segments)
  have hafter : countElements (start.reorder Transfer.localKey).segments =
      .ok (elementTotal segments) := by
    refine countElements_eq_ok_iff.mpr ⟨?_, h.words⟩
    exact (conserves_permuteRuns (sortOn_perm Transfer.localKey) segments).words
  have hlast : refreshBlocks ((start.reorder Transfer.localKey).reorder
      Transfer.addressKey).segments = segments :=
    (congrArg refreshBlocks
      (sortRuns_sortRuns placeKey_localKey placeKey_addressKey segments)).trans h.sorted
  unfold mergeWithStats
  simp only [bind_eq_ok_iff, liftM_checked_eq_ok_iff, liftM_fault_eq_ok_iff]
  refine ⟨_, htotal, start.reorder Transfer.hostKey, hdrop, start.reorder Transfer.hostKey, ?_,
    _, hrows, _, hrects, start.reorder Transfer.localKey, ?_, start.reorder Transfer.localKey, ?_,
    _, hrects', _, hafter, _, if_pos (Nat.zero_le _), ?_⟩
  · rw [h.flatten_eq_self hhostRuns, h.trim_eq_self hhostRuns]
  · rw [hlocal, hdrop']
  · rw [h.flatten_eq_self hlocalRuns, hrows']
  · have hsame : elementTotal segments - (start.reorder Transfer.localKey).dropped =
        elementTotal segments := Nat.sub_zero _
    rw [if_neg (not_not.mpr hsame), hlast]
    rfl

/-- A merged stream that is merged again takes no more records, and as many only if it is
irreducible. -/
theorem merge_cases (h : Merged maxElements segments)
    (hout : merge segments maxElements = .ok out) :
    recordCount out ≤ recordCount segments ∧
      (recordCount out = recordCount segments → Irreducible segments) := by
  obtain ⟨stats, hout⟩ := merge_eq_ok hout
  obtain ⟨m₁, m₂, m₃, m₄, m₅, m₆, m₇, h₁, h₂, h₃, h₄, h₅, h₆, h₇, rfl, -⟩ :=
    mergeWithStats_eq_ok hout
  obtain ⟨le₁, same₁⟩ := Merging.dropDuplicates_cases h₁
  have eq₁ := recordCount_eq_of_sameKind (m₁.sameKind_flatten maxElements)
  have eq₂ := recordCount_eq_of_sameKind (Merging.sameKind_trim h₂)
  obtain ⟨le₃, same₃⟩ := (Merging.joins_of_joinRows h₃).cases
  obtain ⟨le₄, same₄⟩ := (Merging.joins_of_joinRects h₄).cases
  obtain ⟨le₅, same₅⟩ := Merging.dropDuplicates_cases h₅
  obtain ⟨le₆, same₆⟩ := (Merging.joins_of_joinRows h₆).cases
  obtain ⟨le₇, same₇⟩ := (Merging.joins_of_joinRects h₇).cases
  have hhost : recordCount (({ segments := segments } : Merging).reorder
      Transfer.hostKey).segments = recordCount segments := recordCount_sortRuns
  have hlocal : recordCount (m₄.reorder Transfer.localKey).segments = recordCount m₄.segments :=
    recordCount_sortRuns
  have hflat := recordCount_eq_of_sameKind (m₅.sameKind_flatten maxElements)
  have hlast : recordCount (refreshBlocks (m₇.reorder Transfer.addressKey).segments) =
      recordCount m₇.segments := (recordCount_refreshBlocks _).trans recordCount_sortRuns
  refine ⟨by omega, fun hcount => ?_⟩
  obtain ⟨seg₁, apart₁⟩ := same₁ (by omega)
  rw [h.flatten_eq_self seg₁, h.trim_eq_self seg₁] at h₂
  obtain rfl := Except.ok.inj h₂
  obtain ⟨seg₃, apart₃⟩ := same₃ (by omega)
  obtain ⟨seg₄, apart₄⟩ := same₄ (by omega)
  rw [seg₃] at seg₄ apart₄
  rw [seg₁] at apart₃ apart₄ seg₄
  obtain ⟨seg₅, apart₅⟩ := same₅ (by omega)
  have hsorted : (m₄.reorder Transfer.localKey).segments = sortRuns Transfer.localKey segments := by
    change sortRuns Transfer.localKey m₄.segments = _
    rw [seg₄]
    exact sortRuns_sortRuns placeKey_hostKey placeKey_localKey segments
  rw [hsorted] at seg₅ apart₅
  rw [h.flatten_eq_self seg₅] at same₆
  obtain ⟨seg₆, apart₆⟩ := same₆ (by omega)
  obtain ⟨seg₇, apart₇⟩ := same₇ (by omega)
  rw [seg₆] at apart₇
  rw [seg₅] at apart₆ apart₇
  exact ⟨apart₁.and (apart₃.and apart₄), apart₅.and (apart₆.and apart₇)⟩

theorem merge_eq_self_iff (h : Merged maxElements segments) :
    merge segments maxElements = .ok segments ↔ Irreducible segments := by
  constructor
  · intro hmerge
    exact (h.merge_cases hmerge).2 rfl
  · intro hi
    rw [merge, h.mergeWithStats_of_irreducible hi]
    rfl

end Merged

end CommandStream
