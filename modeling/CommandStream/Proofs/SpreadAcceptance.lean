import CommandStream.Proofs.StoreRotation
import CommandStream.Proofs.StoreSpans

/-! # Accepting spread stores

Streams are compared by sorting their plain transfers by direction, addresses, targets and size.
Transfers that agree in all of these tie, and ties stay in the order in which they come. So the
comparison finds the same transfers only if their ties come in the same order, while rotating stores
turns the order of ties around.
-/

namespace CommandStream

/-! ## Ties -/

/-- The two are not told apart by what transfers are sorted by. They can still differ in their
offsets, padding, leap and skipped tail. -/
@[mk_iff]
structure Transfer.Ties (t u : Transfer) : Prop where
  direction : t.direction = u.direction
  hostAddr : t.hostAddr = u.hostAddr
  localAddr : t.localAddr = u.localAddr
  cluster : t.cluster = u.cluster
  unit : t.unit = u.unit
  width : t.width = u.width
  height : t.height = u.height

theorem Direction.toNat_code_inj {d e : Direction} : d.code.toNat = e.code.toNat ↔ d = e := by
  constructor
  · intro h
    have hcode := congrArg ofCode? (UInt8.toNat_inj.mp h)
    rwa [ofCode?_code, ofCode?_code, Option.some_inj] at hcode
  · rintro rfl
    rfl

theorem Transfer.identityKey_eq_iff {t u : Transfer} :
    t.identityKey = u.identityKey ↔ t.Ties u := by
  simp only [identityKey, List.cons.injEq, and_true, Direction.toNat_code_inj, UInt16.toNat_inj,
    UInt32.toNat_inj, UInt64.toNat_inj, Transfer.ties_iff]

instance (t u : Transfer) : Decidable (t.Ties u) :=
  decidable_of_iff _ Transfer.identityKey_eq_iff

theorem Transfer.Ties.isStore {t u : Transfer} (h : t.Ties u) : t.isStore = u.isStore :=
  congrArg Direction.isStore h.direction

def tiesWith (t : Transfer) (segments : List Segment) : List Transfer :=
  (segments.filterMap Segment.transfer?).filter (·.Ties t)

/-- The comparison is about the order of ties. -/
theorem sameTransfers_iff {a b : List Segment} :
    sameTransfers a b = true ↔ ∀ t, tiesWith t a = tiesWith t b := by
  rw [sameTransfers, beq_iff_eq, sortOn_eq_sortOn_iff fun _ _ => rfl]
  simp only [Transfer.identityKey_eq_iff]
  rfl

theorem perm_of_sameTransfers {a b : List Segment} (h : sameTransfers a b = true) :
    (a.filterMap Segment.transfer?).Perm (b.filterMap Segment.transfer?) := by
  rw [sameTransfers, beq_iff_eq] at h
  have hsorted := sortOn_perm Transfer.identityKey (a.filterMap Segment.transfer?)
  rw [h] at hsorted
  exact hsorted.symm.trans (sortOn_perm _ _)

/-! ## Ties among rotated stores -/

theorem filter_eq_of_imp {α : Type} {p q : α → Bool} {xs ys : List α}
    (h : xs.filter q = ys.filter q) (himp : ∀ x, p x = true → q x = true) :
    xs.filter p = ys.filter p := by
  have hboth (zs : List α) : zs.filter p = (zs.filter q).filter p := by
    rw [List.filter_filter]
    apply List.filter_congr
    intro x _
    rw [Bool.eq_iff_iff, Bool.and_eq_true]
    exact ⟨fun hp => ⟨hp, himp x hp⟩, And.left⟩
  rw [hboth, h, ← hboth]

/-- Ties wait on one pile, at one address, and a pile is popped from its end. -/
theorem filter_ties_rotateStores (t : Transfer) (stores : List Transfer) :
    (rotateStores stores).filter (·.Ties t) = (stores.filter (·.Ties t)).reverse := by
  have hpile (i : Fin stores.length) (hi : decide ((stores.get i).Ties t) = true) :
      decide (pileOf stores i = t.cluster.highest) = true := by
    rw [decide_eq_true_eq] at hi ⊢
    exact congrArg Mask.highest hi.cluster
  have haddress (i : Fin stores.length) (hi : decide ((stores.get i).Ties t) = true) :
      decide ([addressOf stores i] = [t.hostAddr.toNat]) = true := by
    rw [decide_eq_true_eq] at hi ⊢
    rw [addressOf, hi.hostAddr]
  have hturns := filter_eq_of_imp
    (filter_turnOrder (pileOf stores) (popOrder stores) t.cluster.highest) hpile
  have hsorted := filter_eq_of_imp
    (filter_sortOn (fun i => [addressOf stores i]) (fun _ _ => rfl)
      (List.finRange stores.length) [t.hostAddr.toNat]) haddress
  calc (rotateStores stores).filter (·.Ties t)
    _ = ((turnOrder (pileOf stores) (popOrder stores)).filter
          fun i => (stores.get i).Ties t).map stores.get := by
      rw [rotateStores_eq_turnOrder, List.filter_map]
      rfl
    _ = (((List.finRange stores.length).filter
          fun i => (stores.get i).Ties t).map stores.get).reverse := by
      rw [hturns, popOrder, List.filter_reverse, hsorted, List.map_reverse]
    _ = (stores.filter (·.Ties t)).reverse := by
      conv_rhs => rw [← List.map_get_finRange stores, List.filter_map]
      rfl

/-! ## Ties in a span -/

theorem filter_filterMap_transfer? (q : Segment → Bool) (segments : List Segment) :
    (segments.filterMap Segment.transfer?).filter (fun t => q (.transfer t)) =
      (segments.filter q).filterMap Segment.transfer? := by
  induction segments with
  | nil => rfl
  | cons s rest ih =>
    cases s with
    | transfer t => cases hq : q (.transfer t) <;> simp [Segment.transfer?, hq, ih]
    | loop _ | compute _ | block _ | sync _ | padding _ | scatter _ =>
      rw [List.filterMap_cons_none rfl, ih, List.filter_cons]
      split
      · rw [List.filterMap_cons_none rfl]
      · rfl

theorem spanStores_eq_filter (span : List Segment) :
    spanStores span = (span.filterMap Segment.transfer?).filter Transfer.isStore :=
  (filter_filterMap_transfer? Segment.isStore span).symm

theorem tiesWith_of_isStore {t : Transfer} (ht : t.isStore = true) (segments : List Segment) :
    tiesWith t segments = (spanStores segments).filter (·.Ties t) := by
  rw [spanStores_eq_filter]
  refine filter_eq_of_imp (q := Transfer.isStore) ?_ ?_
  · rw [List.filter_filter]
    simp only [Bool.and_self]
  · intro u hu
    rw [(of_decide_eq_true hu).isStore, ht]

/-- Ties of a load keep their order when stores are held back. -/
theorem HeldBack.tiesWith_eq {late : List Transfer} {a b : List Segment} (h : HeldBack late a b)
    {t : Transfer} (ht : t.isStore = false) : tiesWith t a = tiesWith t b := by
  have hloads (c : List Segment) : (c.filterMap Segment.transfer?).filter (!·.isStore) =
      ((c.filter (!·.isStore)).map Segment.eraseCount).filterMap Segment.transfer? := by
    rw [filterMap_transfer?_eraseCount]
    exact filter_filterMap_transfer? (!·.isStore) c
  refine filter_eq_of_imp (q := (!·.isStore)) ?_ ?_
  · rw [hloads, hloads, h.others]
  · intro u hu
    rw [(of_decide_eq_true hu).isStore, ht]
    rfl

/-- Where stores of the span tie, they read the same backwards. -/
def TiesSymmetric (span : List Segment) : Prop :=
  ∀ t ∈ spanStores span, (tiesWith t span).Palindrome

instance (span : List Segment) : Decidable (TiesSymmetric span) :=
  inferInstanceAs (Decidable (∀ t ∈ spanStores span, (tiesWith t span).Palindrome))

theorem TiesSymmetric.reverse_tiesWith {span : List Segment} (h : TiesSymmetric span)
    {t : Transfer} (ht : t.isStore = true) : (tiesWith t span).reverse = tiesWith t span := by
  cases hties : tiesWith t span with
  | nil => rfl
  | cons u rest =>
    have hu : u ∈ tiesWith t span := by simp [hties]
    rw [tiesWith_of_isStore ht, List.mem_filter, decide_eq_true_eq,
      ← Transfer.identityKey_eq_iff] at hu
    have hsame : tiesWith u span = tiesWith t span := by
      simp only [tiesWith, ← Transfer.identityKey_eq_iff, hu.2]
    rw [← hties, ← hsame]
    exact (h u hu.1).reverse_eq

/-! ## Acceptance -/

/-- The span with its stores dealt out if that keeps the order of ties, or else the span itself. -/
def spreadIfSymmetric (span : List Segment) : List Segment :=
  if TiesSymmetric span then (spreadSpan? span).getD span else span

section Span

variable {count : UInt32} {body candidate : List Segment}
  (h : spreadSpan? (.block count :: body) = some candidate)

include h

theorem spanStores_spreadSpan? :
    spanStores candidate = rotateStores (spanStores (.block count :: body)) := by
  obtain ⟨rest, -, hrest, hall, rfl⟩ := spreadSpan?_eq_some h
  have hrotated := isStore_of_mem_rotateStores (isStore_of_mem_spanStores (.block count :: body))
  have hothers : ∀ s ∈ Segment.block count :: rest, s.isStore = false :=
    List.forall_mem_cons.mpr ⟨rfl, hrest⟩
  rw [spanStores, filter_isStore_eq_of_eraseCount (map_eraseCount_refreshBlocks _),
    filter_isStore_dealStores hrotated hothers,
    List.take_of_length_le (by rwa [(rotateStores_perm _).length_eq]), List.filterMap_map]
  exact List.filterMap_some

theorem tiesWith_spreadSpan? {t : Transfer} (ht : t.isStore = true) :
    tiesWith t candidate = (tiesWith t (.block count :: body)).reverse := by
  rw [tiesWith_of_isStore ht, tiesWith_of_isStore ht, spanStores_spreadSpan? h,
    filter_ties_rotateStores]

theorem sameTransfers_spreadSpan?_iff :
    sameTransfers (.block count :: body) candidate = true ↔
      TiesSymmetric (.block count :: body) := by
  rw [sameTransfers_iff]
  constructor
  · intro hsame t ht
    have hstore := isStore_of_mem_spanStores _ t ht
    rw [List.Palindrome.iff_reverse_eq, ← tiesWith_spreadSpan? h hstore, hsame]
  · intro hsymmetric t
    cases ht : t.isStore with
    | false => exact (heldBack_spreadSpan? h).tiesWith_eq ht
    | true => rw [tiesWith_spreadSpan? h ht, hsymmetric.reverse_tiesWith ht]

theorem sameTransfers_spreadSpan?_eq :
    sameTransfers (.block count :: body) candidate =
      decide (TiesSymmetric (.block count :: body)) := by
  rw [Bool.eq_iff_iff, decide_eq_true_iff, sameTransfers_spreadSpan?_iff h]

theorem acceptsSpread_spreadSpan?_iff {accepted : Bool} :
    acceptsSpread (.block count :: body) candidate = .ok accepted ↔
      elementTotal (.block count :: body) < 2 ^ 64 ∧
        accepted = decide (TiesSymmetric (.block count :: body)) := by
  rcases Nat.lt_or_ge (elementTotal (.block count :: body)) (2 ^ 64) with hlt | hle
  · rw [acceptsSpread_of_lt h hlt, sameTransfers_spreadSpan?_eq h, Except.ok.injEq, eq_comm]
    exact ⟨fun haccepted => ⟨hlt, haccepted⟩, And.right⟩
  · rw [acceptsSpread_of_le h hle]
    exact ⟨fun haccepted => (nomatch haccepted), fun hlt => absurd hlt.1 (Nat.not_lt.mpr hle)⟩

end Span

section Span

variable {span : List Segment} (hspan : ∃ count body, span = .block count :: body)

include hspan

theorem Wrapping.spreadSpan_eq : Wrapping.spreadSpan span = spreadIfSymmetric span := by
  obtain ⟨count, body, rfl⟩ := hspan
  unfold Wrapping.spreadSpan spreadIfSymmetric
  cases hcandidate : spreadSpan? (.block count :: body) with
  | none => simp
  | some candidate =>
    simp [Wrapping.acceptsSpread_eq hcandidate, sameTransfers_spreadSpan?_eq hcandidate]

theorem not_overfull_iff :
    ¬Overfull span ↔ ((spreadSpan? span).isSome = true → elementTotal span < 2 ^ 64) := by
  obtain ⟨count, body, rfl⟩ := hspan
  rw [Option.isSome_iff_exists, exists_spreadSpan?_iff]
  constructor
  · exact fun h hlead => Nat.not_le.mp fun hle => h ⟨hlead, hle⟩
  · exact fun h hfull => Nat.not_le.mpr (h hfull.toStoresLead) hfull.words

end Span

theorem spreadStores_eq_ok_iff {segments first out : List Segment} {spans : List (List Segment)}
    (hparts : storeSpans 0 segments = .ok (first, spans)) :
    spreadStores segments = .ok out ↔
      (∀ span ∈ spans, (spreadSpan? span).isSome = true → elementTotal span < 2 ^ 64) ∧
        out = first ++ spans.flatMap spreadIfSymmetric := by
  have hmarkers := (storeSpans_flatten hparts).2
  have hspans : spans.flatMap Wrapping.spreadSpan = spans.flatMap spreadIfSymmetric :=
    List.flatMap_congr fun span hspan => Wrapping.spreadSpan_eq (hmarkers span hspan)
  by_cases hfull : ∃ span ∈ spans, Overfull span
  · rw [spreadStores_of_overfull hparts hfull]
    obtain ⟨span, hspan, hfull⟩ := hfull
    exact ⟨fun h => (nomatch h), fun h =>
      absurd hfull ((not_overfull_iff (hmarkers span hspan)).mpr (h.1 span hspan))⟩
  · push Not at hfull
    rw [spreadStores_of_not_overfull hparts hfull, hspans, Except.ok.injEq, eq_comm]
    exact ⟨fun h => ⟨fun span hspan =>
      (not_overfull_iff (hmarkers span hspan)).mp (hfull span hspan), h⟩, And.right⟩

/-- Two streams pass for the same exactly if they hold the same plain transfers and ties come in the
same order. When the stores of a span are dealt out it keeps its transfers, and it is accepted
exactly if its words can be counted and the ties among its stores read the same backwards. Spans
that are not accepted stay as they are. -/
theorem compared_and_accepted_iff (a b segments : List Segment) :
    (sameTransfers a b = true ↔
      (a.filterMap Segment.transfer?).Perm (b.filterMap Segment.transfer?) ∧
        ∀ t, tiesWith t a = tiesWith t b) ∧
    ∀ first spans, storeSpans 0 segments = .ok (first, spans) →
      (∀ span ∈ spans, ∀ candidate, spreadSpan? span = some candidate →
        (span.filterMap Segment.transfer?).Perm (candidate.filterMap Segment.transfer?) ∧
        ∀ accepted, acceptsSpread span candidate = .ok accepted ↔
          elementTotal span < 2 ^ 64 ∧ accepted = decide (TiesSymmetric span)) ∧
      ∀ out, spreadStores segments = .ok out ↔
        (∀ span ∈ spans, (spreadSpan? span).isSome = true → elementTotal span < 2 ^ 64) ∧
          out = first ++ spans.flatMap spreadIfSymmetric := by
  refine ⟨⟨fun h => ⟨perm_of_sameTransfers h, sameTransfers_iff.mp h⟩,
    fun h => sameTransfers_iff.mpr h.2⟩, fun first spans hparts => ⟨?_, ?_⟩⟩
  · intro span hspan candidate hcandidate
    obtain ⟨count, body, rfl⟩ := (storeSpans_flatten hparts).2 span hspan
    exact ⟨(heldBack_spreadSpan? hcandidate).transfers_perm,
      fun accepted => acceptsSpread_spreadSpan?_iff hcandidate⟩
  · exact fun out => spreadStores_eq_ok_iff hparts

def rowsAtLeap (leap : UInt16) : Segment := .transfer (.rect .store2d 1 1 0x100 0 4 2 leap)

def mirroredTies : List Segment :=
  [.block 4, rowsAtLeap 5, rowsAtLeap 13, rowsAtLeap 5, .transfer (.row .load1d 1 1 0x1000 16 8),
    .block 1, .transfer (.row .load1d 1 1 0x2000 24 8)]

def mirroredTiesSpread : List Segment :=
  [.block 3, rowsAtLeap 5, rowsAtLeap 13, .transfer (.row .load1d 1 1 0x1000 16 8),
    .block 2, rowsAtLeap 5, .transfer (.row .load1d 1 1 0x2000 24 8)]

theorem spreadSpan?_mirroredTies : spreadSpan? mirroredTies = some mirroredTiesSpread := by
  delta spreadSpan? rotateStores
  simp only [sortOn_eq_insertionSort (fun t : Transfer => [t.hostAddr.toNat]) fun _ _ => rfl]
  decide +kernel

theorem accepted_mirroredTies :
    TiesSymmetric mirroredTies ∧ acceptsSpread mirroredTies mirroredTiesSpread = .ok true ∧
      spreadStores mirroredTies = .ok mirroredTiesSpread := by
  have hparts : storeSpans 0 mirroredTies = .ok ([], [mirroredTies]) := by decide +kernel
  have hsymmetric : TiesSymmetric mirroredTies := by decide +kernel
  have hwords : elementTotal mirroredTies < 2 ^ 64 := by decide +kernel
  obtain ⟨-, hspread⟩ := compared_and_accepted_iff mirroredTies mirroredTiesSpread mirroredTies
  obtain ⟨haccepts, hout⟩ := hspread [] [mirroredTies] hparts
  obtain ⟨-, haccepts⟩ := haccepts mirroredTies (by simp) mirroredTiesSpread
    spreadSpan?_mirroredTies
  refine ⟨hsymmetric, (haccepts true).mpr ⟨hwords, by simp [hsymmetric]⟩,
    (hout _).mpr ⟨by simpa using fun _ => hwords, ?_⟩⟩
  simp [spreadIfSymmetric, hsymmetric, spreadSpan?_mirroredTies]

def turnedTies : List Segment :=
  [.block 3, rowsAtLeap 5, rowsAtLeap 13, .transfer (.row .load1d 1 1 0x1000 16 8),
    .block 1, .transfer (.row .load1d 1 1 0x2000 24 8)]

def turnedTiesSpread : List Segment :=
  [.block 2, rowsAtLeap 13, .transfer (.row .load1d 1 1 0x1000 16 8),
    .block 2, rowsAtLeap 5, .transfer (.row .load1d 1 1 0x2000 24 8)]

/-- The stores can be dealt out, and no transfer is lost or added. Still the streams do not pass for
the same, and the stores stay where they are. -/
theorem rejected_turnedTies :
    spreadSpan? turnedTies = some turnedTiesSpread ∧
      (turnedTies.filterMap Segment.transfer?).Perm
        (turnedTiesSpread.filterMap Segment.transfer?) ∧
      sameTransfers turnedTies turnedTiesSpread = false ∧
      acceptsSpread turnedTies turnedTiesSpread = .ok false ∧
      spreadStores turnedTies = .ok turnedTies := by
  have hparts : storeSpans 0 turnedTies = .ok ([], [turnedTies]) := by decide +kernel
  have hturned : ¬TiesSymmetric turnedTies := by decide +kernel
  have hwords : elementTotal turnedTies < 2 ^ 64 := by decide +kernel
  have hcandidate : spreadSpan? turnedTies = some turnedTiesSpread := by
    delta spreadSpan? rotateStores
    simp only [sortOn_eq_insertionSort (fun t : Transfer => [t.hostAddr.toNat]) fun _ _ => rfl]
    decide +kernel
  refine ⟨hcandidate, (heldBack_spreadSpan? hcandidate).transfers_perm, ?_, ?_, ?_⟩
  · rw [← Bool.not_eq_true]
    exact fun hsame => hturned ((sameTransfers_spreadSpan?_iff hcandidate).mp hsame)
  · exact (acceptsSpread_spreadSpan?_iff hcandidate).mpr ⟨hwords, (decide_eq_false hturned).symm⟩
  · refine (spreadStores_eq_ok_iff hparts).mpr ⟨by simpa using fun _ => hwords, ?_⟩
    simp [spreadIfSymmetric, hturned]

end CommandStream
