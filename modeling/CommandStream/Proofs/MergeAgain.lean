import CommandStream.Proofs.MergedStreams

/-! # Merging again

A merge looks for neighbours in host order and then in local order. What it joins in local order may
uncover neighbours in host order, so a second merge can still find something to join. It finds
nothing if the two orders agree on the stream that was merged first.
-/

namespace CommandStream

/-! ## Transfers in both orders -/

namespace Transfer

def place (t : Transfer) : Bool × Mask × Mask × UInt64 × UInt32 :=
  (t.isStore, t.cluster, t.unit, t.hostAddr, t.localAddr)

/-- If both are of one class, `a` is not behind `b` in host order, and not in local order. -/
def Ordered (a b : Transfer) : Prop :=
  a.isStore = b.isStore →
    keyLe a.hostKey b.hostKey = true ∧ keyLe a.localKey b.localKey = true

variable {a b c a' b' x joined : Transfer}

theorem place_eq_iff :
    a.place = b.place ↔ a.isStore = b.isStore ∧ a.cluster = b.cluster ∧ a.unit = b.unit ∧
      a.hostAddr = b.hostAddr ∧ a.localAddr = b.localAddr := by
  simp only [place, Prod.mk.injEq]

theorem Ordered.congr (ha : a'.place = a.place) (hb : b'.place = b.place) (h : a.Ordered b) :
    a'.Ordered b' := by
  obtain ⟨hstore, hcluster, hunit, hhost, hlocal⟩ := place_eq_iff.mp ha
  obtain ⟨hstore', hcluster', hunit', hhost', hlocal'⟩ := place_eq_iff.mp hb
  intro hclass
  rw [hstore, hstore'] at hclass
  have hkeys := h hclass
  simp only [hostKey, localKey] at hkeys ⊢
  rwa [hcluster, hunit, hhost, hlocal, hcluster', hunit', hhost', hlocal']

theorem Ordered.trans (hab : a.Ordered b) (hbc : b.Ordered c) (hclass : a.isStore = b.isStore) :
    a.Ordered c := by
  intro hac
  obtain ⟨hhost, hlocal⟩ := hab hclass
  obtain ⟨hhost', hlocal'⟩ := hbc (hclass.symm.trans hac)
  exact ⟨keyLe_on_trans hostKey placeKey_hostKey.length_eq a b c hhost hhost',
    keyLe_on_trans localKey placeKey_localKey.length_eq a b c hlocal hlocal'⟩

theorem Ordered.addr_le (h : a.Ordered b) (hsame : a.target = b.target) :
    a.hostAddr.toNat ≤ b.hostAddr.toNat ∧ a.localAddr.toNat ≤ b.localAddr.toNat := by
  obtain ⟨hcluster, hunit⟩ := masks_of_target hsame
  have hclass : a.isStore = b.isStore := congrArg Prod.fst hsame
  obtain ⟨hhost, hlocal⟩ := h hclass
  simp only [hostKey, localKey, keyLe_cons_iff, hcluster, hunit, lt_self_iff_false, true_and,
    false_or] at hhost hlocal
  exact ⟨by omega, by omega⟩

/-! ## Joining ordered transfers -/

/-- Of two ordered transfers that are joined the first one stays where it is: the second one can
only go before it if it takes no room. -/
theorem place_startOfJoin {whole : Transfer} (ho : a.Ordered b) (hsame : a.target = b.target)
    (h : startOfJoin a b whole = .ok (some joined)) (hwhole : whole.place = a.place) :
    joined.place = a.place := by
  rcases startOfJoin_cases h with ⟨-, rfl⟩ | ⟨hback, rfl⟩
  · exact hwhole
  · obtain ⟨⟨span, -, hhost⟩, hlocal⟩ := hback
    obtain ⟨hle, hle'⟩ := ho.addr_le hsame
    have hhostAddr : b.hostAddr = a.hostAddr := UInt64.toNat_inj.mp (by omega)
    have hlocalAddr : b.localAddr = a.localAddr := UInt32.toNat_inj.mp (by omega)
    obtain ⟨hstore, hcluster, hunit, -, -⟩ := place_eq_iff.mp hwhole
    exact place_eq_iff.mpr ⟨hstore, hcluster, hunit, hhostAddr, hlocalAddr⟩

theorem place_joinRow (ho : a.Ordered b) (h : joinRow a b = .ok (some joined)) :
    joined.place = a.place ∧ a.isStore = b.isStore := by
  obtain ⟨-, hsame, -, hstart⟩ := joinRow_eq_some h
  obtain ⟨hdirection, htarget, -, -⟩ := sameTarget_iff.mp hsame
  exact ⟨place_startOfJoin ho htarget hstart rfl, congrArg Direction.isStore hdirection⟩

theorem place_joinRect (ho : a.Ordered b) (h : joinRect a b = .ok (some joined)) :
    joined.place = a.place ∧ a.isStore = b.isStore := by
  obtain ⟨-, hsame, -, -, -, hstart⟩ := joinRect_eq_some h
  obtain ⟨hdirection, htarget, -, -⟩ := sameTarget_iff.mp hsame
  exact ⟨place_startOfJoin ho htarget hstart rfl, congrArg Direction.isStore hdirection⟩

theorem startOfJoin_eq_none_iff {whole : Transfer} :
    startOfJoin a b whole = .ok none ↔
      a.continuedBy b = .ok false ∧ b.continuedBy a = .ok false := by
  unfold startOfJoin
  cases a.continuedBy b with
  | error e => simp [bind, Except.bind]
  | ok forward =>
    cases forward with
    | true => simp [bind, Except.bind, pure, Except.pure]
    | false =>
      cases b.continuedBy a with
      | error e => simp [bind, Except.bind]
      | ok backward => cases backward <;> simp [bind, Except.bind, pure, Except.pure]

theorem continuedBy_eq_false_iff :
    a.continuedBy b = .ok false ↔ ∃ span, a.hostSpan = .ok span ∧
      ¬(a.hostAddr.toNat + span = b.hostAddr.toNat ∧
        a.localAddr.toNat + a.localSpan = b.localAddr.toNat) := by
  unfold continuedBy
  cases a.hostSpan with
  | error e => simp [bind, Except.bind]
  | ok span => simp [bind, Except.bind, pure, Except.pure]

/-- `t` in place of `a`, with no less room behind it. -/
structure Grows (a t : Transfer) : Prop where
  place : t.place = a.place
  host : ∀ span, a.hostSpan = .ok span → ∃ span', t.hostSpan = .ok span' ∧ span ≤ span'
  words : a.localSpan ≤ t.localSpan

/-- A transfer that does not join `a` does not join what `a` has grown into. -/
theorem startOfJoin_grown {whole whole' : Transfer} (ho : x.Ordered a)
    (hsame : x.target = a.target) (hgrows : a.Grows joined)
    (h : startOfJoin x a whole = .ok none) : startOfJoin x joined whole' = .ok none := by
  obtain ⟨-, -, -, hhostAddr, hlocalAddr⟩ := place_eq_iff.mp hgrows.place
  obtain ⟨hforward, hback⟩ := startOfJoin_eq_none_iff.mp h
  obtain ⟨hle, hle'⟩ := ho.addr_le hsame
  refine startOfJoin_eq_none_iff.mpr ⟨?_, ?_⟩
  · rw [continuedBy_eq_false_iff] at hforward ⊢
    rwa [hhostAddr, hlocalAddr]
  · obtain ⟨span, hspan, hback⟩ := continuedBy_eq_false_iff.mp hback
    obtain ⟨span', hspan', hroom⟩ := hgrows.host span hspan
    have hroom' := hgrows.words
    refine continuedBy_eq_false_iff.mpr ⟨span', hspan', ?_⟩
    rw [hhostAddr, hlocalAddr]
    -- `x` is not behind `joined`, so it could only be reached by something that takes no room
    rintro ⟨hend, hend'⟩
    exact hback ⟨by omega, by omega⟩

theorem sameTarget_grown (hdirection : joined.direction = a.direction)
    (htarget : joined.target = a.target) (ha : a.skipped = 0) (hjoined : joined.skipped = 0) :
    x.sameTarget joined = x.sameTarget a := by
  rw [Bool.eq_iff_iff, sameTarget_iff, sameTarget_iff, hdirection, htarget, ha, hjoined]

theorem joinRow_eq_none_iff :
    joinRow a b = .ok none ↔
      a.isRect = true ∨ a.sameTarget b = false ∨ 65535 < a.width.toNat + b.width.toNat ∨
        startOfJoin a b { a with width := a.width + b.width } = .ok none := by
  unfold joinRow
  split
  · rename_i hguard
    simp only [Bool.or_eq_true, Bool.not_eq_true', decide_eq_true_eq] at hguard
    exact ⟨fun _ => by tauto, fun _ => rfl⟩
  · rename_i hguard
    simp only [Bool.or_eq_true, Bool.not_eq_true', decide_eq_true_eq, not_or] at hguard
    tauto

theorem hostSpan_of_not_isRect {t : Transfer} (h : t.isRect = false) :
    t.hostSpan = .ok (t.width.toNat * 2) := by
  rw [hostSpan, h]
  rfl

theorem grows_joinRow (hab : a.Ordered b) (h : joinRow a b = .ok (some joined)) :
    a.Grows joined := by
  obtain ⟨hrow, hdirection, -, hwidth, -⟩ := joinRow_shape h
  have hrow' : joined.isRect = false := by
    rw [isRect, hdirection]
    exact hrow
  refine ⟨(place_joinRow hab h).1, ?_, ?_⟩
  · rw [hostSpan_of_not_isRect hrow, hostSpan_of_not_isRect hrow']
    rintro _ ⟨⟩
    exact ⟨_, rfl, by omega⟩
  · simp only [localSpan, hrow, hrow', Bool.false_eq_true, if_false]
    omega

theorem joinRow_grown (ho : x.Ordered a) (hnone : joinRow x a = .ok none) (hab : a.Ordered b)
    (h : joinRow a b = .ok (some joined)) : joinRow x joined = .ok none := by
  obtain ⟨-, hdirection, htarget, hwidth, -, hskipped⟩ := joinRow_shape h
  obtain ⟨-, hsame, -, -⟩ := joinRow_eq_some h
  obtain ⟨-, -, ha, -⟩ := sameTarget_iff.mp hsame
  rw [joinRow_eq_none_iff] at hnone ⊢
  rw [sameTarget_grown hdirection htarget ha hskipped, hwidth]
  rcases hnone with hrect | hother | hwide | hstart
  · exact .inl hrect
  · exact .inr (.inl hother)
  · exact .inr (.inr (.inl (by omega)))
  · cases hx : x.sameTarget a with
    | false => exact .inr (.inl rfl)
    | true =>
      obtain ⟨-, hxa, -, -⟩ := sameTarget_iff.mp hx
      exact .inr (.inr (.inr (startOfJoin_grown ho hxa (grows_joinRow hab h) hstart)))

theorem joinRect_eq_none_iff :
    joinRect a b = .ok none ↔
      a.isRect = false ∨ a.sameTarget b = false ∨ a.leap ≠ b.leap ∨ a.width ≠ b.width ∨
        65535 < a.height.toNat + b.height.toNat ∨
        startOfJoin a b { a with height := a.height + b.height } = .ok none := by
  unfold joinRect
  split
  · rename_i hguard
    simp only [Bool.or_eq_true, Bool.not_eq_true', decide_eq_true_eq, bne_iff_ne] at hguard
    exact ⟨fun _ => by tauto, fun _ => rfl⟩
  · rename_i hguard
    simp only [Bool.or_eq_true, Bool.not_eq_true', decide_eq_true_eq, bne_iff_ne, not_or] at hguard
    tauto

theorem grows_joinRect (hab : a.Ordered b) (h : joinRect a b = .ok (some joined)) :
    a.Grows joined := by
  obtain ⟨hrect, -⟩ := joinRect_eq_some h
  obtain ⟨hdirection, -, hwidth, hheight, -⟩ := joinRect_shape h
  have hrect' : joined.isRect = true := by
    rw [isRect, hdirection]
    exact hrect
  refine ⟨(place_joinRect hab h).1, fun span hspan => ?_, ?_⟩
  · unfold hostSpan at hspan ⊢
    rw [if_pos hrect] at hspan
    rw [if_pos hrect', hwidth, leap_joinRect h, hheight]
    obtain ⟨pitch, hpitch, hspan⟩ := bind_eq_ok_iff.mp hspan
    obtain rfl := pure_eq_ok_iff.mp hspan
    rw [hpitch]
    refine ⟨_, rfl, ?_⟩
    gcongr
    omega
  · simp only [localSpan, hrect, hrect', if_true, area, hwidth, hheight]
    gcongr
    omega

theorem joinRect_grown (ho : x.Ordered a) (hnone : joinRect x a = .ok none) (hab : a.Ordered b)
    (h : joinRect a b = .ok (some joined)) : joinRect x joined = .ok none := by
  obtain ⟨hdirection, htarget, hwidth, hheight, hskipped⟩ := joinRect_shape h
  obtain ⟨-, hsame, -, -⟩ := joinRect_eq_some h
  obtain ⟨-, -, ha, -⟩ := sameTarget_iff.mp hsame
  rw [joinRect_eq_none_iff] at hnone ⊢
  rw [sameTarget_grown hdirection htarget ha hskipped, leap_joinRect h, hwidth, hheight]
  rcases hnone with hrow | hother | hleap | hwide | htall | hstart
  · exact .inl hrow
  · exact .inr (.inl hother)
  · exact .inr (.inr (.inl hleap))
  · exact .inr (.inr (.inr (.inl hwide)))
  · exact .inr (.inr (.inr (.inr (.inl (by omega)))))
  · cases hx : x.sameTarget a with
    | false => exact .inr (.inl rfl)
    | true =>
      obtain ⟨-, hxa, -, -⟩ := sameTarget_iff.mp hx
      refine .inr (.inr (.inr (.inr (.inr ?_))))
      exact startOfJoin_grown ho hxa (grows_joinRect hab h) hstart

end Transfer

/-! ## Steps on ordered streams -/

section Steps

open Transfer

variable {a b c joined : Transfer} {m m' : Merging} {maxElements : Nat}

theorem Transfer.Ordered.of_place (hab : a.Ordered b) (hplace : joined.place = a.place)
    (hclass : a.isStore = b.isStore) (hbc : b.Ordered c) : joined.Ordered c :=
  (hab.trans hbc hclass).congr hplace rfl

namespace Merging

theorem neighbours_joinRows (h : m.joinRows = .ok m') (hm : Neighbours Ordered m.segments) :
    Neighbours (fun a b => a.Ordered b ∧ a.joinRow b = .ok none) m'.segments := by
  obtain ⟨out, hout, h⟩ := bind_eq_ok_iff.mp h
  obtain rfl := pure_eq_ok_iff.mp h
  refine (Absorbs.neighbours ?_ ?_ (absorbs_of_eq_ok hout) hm).1
  · intro a b joined c hab hj hbc
    obtain ⟨hplace, hclass⟩ := place_joinRow hab hj
    exact hab.of_place hplace hclass hbc
  · intro x a b joined hxa hnone hab hj
    exact ⟨hxa.congr rfl (place_joinRow hab hj).1, joinRow_grown hxa hnone hab hj⟩

theorem neighbours_joinRects (h : m.joinRects = .ok m')
    (hm : Neighbours (fun a b => a.Ordered b ∧ a.joinRow b = .ok none) m.segments) :
    Neighbours (fun a b => (a.Ordered b ∧ a.joinRow b = .ok none) ∧ a.joinRect b = .ok none)
      m'.segments := by
  obtain ⟨out, hout, h⟩ := bind_eq_ok_iff.mp h
  obtain rfl := pure_eq_ok_iff.mp h
  refine (Absorbs.neighbours ?_ ?_ (absorbs_of_eq_ok hout) hm).1
  · intro a b joined c hab hj hbc
    obtain ⟨hplace, hclass⟩ := place_joinRect hab.1 hj
    obtain ⟨hrect, -⟩ := joinRect_eq_some hj
    obtain ⟨hdirection, -⟩ := joinRect_shape hj
    refine ⟨hab.1.of_place hplace hclass hbc.1, joinRow_eq_none_iff.mpr (.inl ?_)⟩
    rw [isRect, hdirection]
    exact hrect
  · intro x a b joined hxa hnone hab hj
    obtain ⟨hrect, hsame, -⟩ := joinRect_eq_some hj
    obtain ⟨-, -, ha, -⟩ := sameTarget_iff.mp hsame
    obtain ⟨hdirection, htarget, -, -, hskipped⟩ := joinRect_shape hj
    refine ⟨⟨hxa.1.congr rfl (place_joinRect hab.1 hj).1, ?_⟩, joinRect_grown hxa.1 hnone hab.1 hj⟩
    rw [joinRow_eq_none_iff, sameTarget_grown hdirection htarget ha hskipped]
    cases hx : x.isRect with
    | true => exact .inl rfl
    | false =>
      refine .inr (.inl (Bool.eq_false_iff.mpr fun htarget => ?_))
      obtain ⟨hsame, -⟩ := sameTarget_iff.mp htarget
      rw [isRect, hsame] at hx
      rw [isRect, hx] at hrect
      cases hrect

theorem neighbours_dropDuplicates {N : Transfer → Transfer → Prop}
    (hN : ∀ {a b c}, N a b → a.sameCommand b = true → N b c → N a c)
    (h : m.dropDuplicates = .ok m') (hm : Neighbours N m.segments) :
    Neighbours (fun a b => N a b ∧ a.sameCommand b = false) m'.segments := by
  obtain ⟨out, hout, h⟩ := bind_eq_ok_iff.mp h
  obtain ⟨dropped, -, h⟩ := bind_eq_ok_iff.mp h
  obtain rfl := pure_eq_ok_iff.mp h
  have hsome {a b joined : Transfer}
      (hj : (return if a.sameCommand b then some a else none : Checked _) = .ok (some joined)) :
      a.sameCommand b = true ∧ a = joined := by
    have hj := pure_eq_ok_iff.mp hj
    split at hj
    · exact ⟨‹_›, Option.some.inj hj⟩
    · cases hj
  have hkept := (Absorbs.neighbours (N := N) ?_ ?_ (absorbs_of_eq_ok hout) hm).1
  · refine hkept.imp fun a b hab => ⟨hab.1, ?_⟩
    by_contra hsame
    rw [Bool.not_eq_false] at hsame
    rw [hsame] at hab
    cases hab.2
  · intro a b joined c hab hj hbc
    obtain ⟨hsame, rfl⟩ := hsome hj
    exact hN hab hsame hbc
  · intro x a b joined hxa hnone hab hj
    obtain ⟨-, rfl⟩ := hsome hj
    exact ⟨hxa, hnone⟩

end Merging

theorem Transfer.place_flattenSegment {t u : Transfer}
    (h : Merging.flattenSegment maxElements (.transfer t) = .transfer u) : u.place = t.place := by
  rw [Merging.flattenSegment] at h
  split at h
  · exact Segment.transfer.inj h ▸ rfl
  · split at h
    · exact Segment.transfer.inj h ▸ place_eq_iff.mpr ⟨by simp [isStore], rfl, rfl, rfl, rfl⟩
    · split at h
      · exact Segment.transfer.inj h ▸ place_eq_iff.mpr ⟨by simp [isStore], rfl, rfl, rfl, rfl⟩
      · exact Segment.transfer.inj h ▸ rfl

theorem Transfer.place_trimSegment {t u : Transfer} {index : Nat}
    (h : Merging.trimSegment (.transfer t, index) = .ok (.transfer u)) : u.place = t.place := by
  rw [Merging.trimSegment] at h
  split at h
  · exact Segment.transfer.inj (Except.ok.inj h) ▸ rfl
  · split at h
    · cases h
    · exact Segment.transfer.inj (Except.ok.inj h) ▸ rfl

namespace Merging

theorem neighbours_flatten (hm : Neighbours Ordered m.segments) :
    Neighbours Ordered (m.flatten maxElements).segments := by
  refine hm.forall₂ (P := fun a b => b.place = a.place) (fun ha hb hab => hab.congr ha hb) ?_
  rw [flatten, List.forall₂_map_right_iff, List.forall₂_same]
  intro s _ u hu
  cases s with
  | transfer t => exact ⟨t, rfl, place_flattenSegment hu⟩
  | loop _ | compute _ | block _ | sync _ | padding _ | scatter _ => cases hu

theorem neighbours_trim (h : m.trim = .ok m') (hm : Neighbours Ordered m.segments) :
    Neighbours Ordered m'.segments := by
  refine hm.forall₂ (P := fun a b => b.place = a.place) (fun ha hb hab => hab.congr ha hb)
    ((forall₂_trim h).imp ?_)
  rintro s _ ⟨index, hs'⟩ u rfl
  cases s with
  | transfer t => exact ⟨t, rfl, place_trimSegment hs'⟩
  | loop _ | compute _ | block _ | sync _ | padding _ | scatter _ => cases hs'

end Merging

end Steps

/-! ## Streams on which the orders agree -/

/-- In every run, transfers of one target do not go up in host memory and down in local memory. -/
def OrdersAgree (segments : List Segment) : Prop :=
  ∀ first rest, .run first rest ∈ pieces Transfer.sameClass segments →
    ∀ t ∈ first :: rest, ∀ u ∈ first :: rest, t.cluster = u.cluster → t.unit = u.unit →
      t.hostAddr < u.hostAddr → t.localAddr ≤ u.localAddr

section OrdersAgree

open Transfer

variable {segments : List Segment} {key : Transfer → List Nat}

theorem keyLe_localKey {t u : Transfer} (hhost : keyLe t.hostKey u.hostKey = true)
    (hagree : t.cluster = u.cluster → t.unit = u.unit → t.hostAddr < u.hostAddr →
      t.localAddr ≤ u.localAddr) : keyLe t.localKey u.localKey = true := by
  simp only [hostKey, localKey, keyLe_cons_iff] at hhost ⊢
  rcases hhost with hcluster | ⟨hcluster, hunit | ⟨hunit, hhost | ⟨hhost, hlocal⟩⟩⟩
  · exact .inl hcluster
  · exact .inr ⟨hcluster, .inl hunit⟩
  · have hle := UInt32.le_iff_toNat_le.mp (hagree (UInt32.toNat_inj.mp hcluster)
      (UInt32.toNat_inj.mp hunit) (UInt64.lt_iff_toNat_lt.mpr hhost))
    refine .inr ⟨hcluster, .inr ⟨hunit, ?_⟩⟩
    rcases Nat.lt_or_eq_of_le hle with hlt | heq
    · exact .inl hlt
    · exact .inr ⟨heq, .inl hhost⟩
  · refine .inr ⟨hcluster, .inr ⟨hunit, ?_⟩⟩
    rcases hlocal with hlt | ⟨heq, hnil⟩
    · exact .inl hlt
    · exact .inr ⟨heq, .inr ⟨hhost, hnil⟩⟩

theorem OrdersAgree.neighbours (h : OrdersAgree segments) :
    Neighbours Ordered (sortRuns hostKey segments) := by
  apply neighbours_sortRuns placeKey_hostKey
  intro first rest hrun t ht u hu hle
  exact ⟨hle, keyLe_localKey hle (h first rest hrun t ht u hu)⟩

theorem sortRuns_eq_self (hkey : PlaceKey key)
    (h : Neighbours (fun a b => a.isStore = b.isStore → keyLe (key a) (key b) = true) segments) :
    sortRuns key segments = segments := by
  refine permuteRuns_eq_self fun first rest hrun => sortOn_of_pairwise ?_
  have hclass {t : Transfer} (ht : t ∈ first :: rest) : t.isStore = first.isStore := by
    rcases List.mem_cons.mp ht with rfl | ht
    · rfl
    · exact (alternates_pieces segments).uniform first rest hrun t ht
  have htrans : IsTrans Transfer fun a b => keyLe (key a) (key b) = true :=
    ⟨keyLe_on_trans key hkey.length_eq⟩
  refine List.IsChain.pairwise ((h.isChain_run hrun).imp_of_mem_imp ?_)
  intro a b ha hb hab
  exact hab ((hclass ha).trans (hclass hb).symm)

theorem Transfer.place_eq_of_sameCommand {a b : Transfer} (h : a.sameCommand b = true) :
    a.place = b.place := by
  have hcommand := congrArg place (sameCommand_iff.mp h)
  exact hcommand

theorem Transfer.eq_of_sameCommand {a b : Transfer} (ha : a.skipped = 0) (hb : b.skipped = 0)
    (h : a.sameCommand b = true) : a = b := by
  have hcommand := sameCommand_iff.mp h
  cases a
  cases b
  simp_all

theorem Unskipped.neighbours (h : Unskipped segments) :
    Neighbours (fun a b => a.skipped = 0 ∧ b.skipped = 0) segments := by
  refine List.Pairwise.isChain (List.pairwise_of_forall_mem_list ?_)
  rintro _ hs _ hu a b rfl rfl
  exact ⟨h a hs, h b hu⟩

/-- Sorting by address hides the neighbours, and sorting in either order brings them back. -/
theorem irreducible_of_neighbours (h : Neighbours (fun a b => a.Ordered b ∧ a.Apart b) segments) :
    Irreducible (refreshBlocks (sortRuns addressKey segments)) := by
  have hback {key : Transfer → List Nat} (hkey : PlaceKey key)
      (hsorted : ∀ a b : Transfer, a.Ordered b → a.isStore = b.isStore →
        keyLe (key a) (key b) = true) :
      Neighbours Apart (sortRuns key (refreshBlocks (sortRuns addressKey segments))) := by
    rw [sortRuns, neighbours_permuteRuns_refreshBlocks]
    change Neighbours Apart (sortRuns key (sortRuns addressKey segments))
    rw [sortRuns_sortRuns placeKey_addressKey hkey,
      sortRuns_eq_self hkey (h.imp fun a b hab => hsorted a b hab.1)]
    exact h.imp fun _ _ hab => hab.2
  exact ⟨hback placeKey_hostKey fun _ _ hab hclass => (hab hclass).1,
    hback placeKey_localKey fun _ _ hab hclass => (hab hclass).2⟩

/-- Where the orders agree, the second half of a merge only drops repeated transfers. -/
theorem OrdersAgree.irreducible {once : List Segment} {maxElements : Nat}
    (h : OrdersAgree segments) (hmerge : merge segments maxElements = .ok once) :
    Irreducible once := by
  obtain ⟨stats, hmerge⟩ := merge_eq_ok hmerge
  obtain ⟨m₁, m₂, m₃, m₄, m₅, m₆, m₇, h₁, h₂, h₃, h₄, h₅, h₆, h₇, rfl, -⟩ :=
    mergeWithStats_eq_ok hmerge
  have o₁ : Neighbours Ordered m₁.segments := by
    refine (Merging.neighbours_dropDuplicates ?_ h₁ h.neighbours).imp fun _ _ hab => hab.1
    intro a b c _ hsame hbc
    exact hbc.congr (place_eq_of_sameCommand hsame) rfl
  have o₂ := Merging.neighbours_trim h₂ (Merging.neighbours_flatten o₁)
  have o₄ := Merging.neighbours_joinRects h₄ (Merging.neighbours_joinRows h₃ o₂)
  have u₂ := (Merging.meaning_trim ∅ h₂).2
  have j₃ := Merging.joins_of_joinRows h₃
  have j₄ := Merging.joins_of_joinRects h₄
  have u₄ := (j₄.meaning ∅ (j₃.meaning ∅ u₂).1).1
  have f₂ := Merging.flattened_trim h₂ Merging.flattened_flatten
  have f₄ := j₄.flattened (j₃.flattened f₂)
  have hsorted : m₄.reorder localKey = m₄ := by
    have hruns : sortRuns localKey m₄.segments = m₄.segments :=
      sortRuns_eq_self placeKey_localKey (o₄.imp fun a b hab hclass => (hab.1.1 hclass).2)
    exact congrArg (fun s => ({ m₄ with segments := s } : Merging)) hruns
  rw [hsorted] at h₅
  have o₅ := Merging.neighbours_dropDuplicates ?_ h₅ (o₄.and u₄.neighbours)
  · have f₅ := Merging.flattened_dropDuplicates h₅ f₄
    rw [Merging.flatten_eq_self f₅,
      Merging.joinRows_eq_self (o₅.imp fun _ _ hab => hab.1.1.1.2)] at h₆
    obtain rfl := Except.ok.inj h₆
    rw [Merging.joinRects_eq_self (o₅.imp fun _ _ hab => hab.1.1.2)] at h₇
    obtain rfl := Except.ok.inj h₇
    refine irreducible_of_neighbours (o₅.imp fun a b hab => ?_)
    obtain ⟨⟨⟨⟨hordered, hrow⟩, hrect⟩, -⟩, hsame⟩ := hab
    exact ⟨hordered, hsame, hrow, hrect⟩
  · rintro a b c ⟨-, ha, hb⟩ hsame hbc
    rwa [eq_of_sameCommand ha hb hsame]

end OrdersAgree

/-! ## Merging twice -/

/-- A second merge takes no more records, and it takes as many exactly if no neighbours are left to
combine in host order or in local order. Then it changes nothing at all, which is so whenever the
two orders agree on the stream that was merged first. -/
theorem merge_again_recordCount_iff {segments once : List Segment} {maxElements : Nat}
    (h : merge segments maxElements = .ok once) :
    ((∃ twice, merge once maxElements = .ok twice ∧ recordCount twice = recordCount once) ↔
      Irreducible once) ∧
    (Irreducible once → mergeWithStats once maxElements = .ok (once, {})) ∧
    (OrdersAgree segments → Irreducible once) ∧
    ∀ twice, merge once maxElements = .ok twice → recordCount twice ≤ recordCount once := by
  have hmerged := merged_of_merge h
  refine ⟨⟨?_, fun hi => ?_⟩, hmerged.mergeWithStats_of_irreducible, fun ho => ho.irreducible h,
    fun twice htwice => (hmerged.merge_cases htwice).1⟩
  · rintro ⟨twice, htwice, hcount⟩
    exact (hmerged.merge_cases htwice).2 hcount
  · exact ⟨once, hmerged.merge_eq_self_iff.mpr hi, rfl⟩

def threeRows : List Segment :=
  [.transfer (.row .load1d 1 1 40 20 10), .transfer (.row .load1d 1 1 0 0 10),
    .transfer (.row .load1d 1 1 20 10 10), .block 2, .transfer (.row .store1d 1 1 64 8 4),
    .transfer (.row .store1d 1 1 64 8 4)]

theorem merge_threeRows :
    merge threeRows 8192 = .ok [.transfer (.row .load1d 1 1 0 0 30), .block 1,
      .transfer (.row .store1d 1 1 64 8 4)] := by
  delta merge mergeWithStats
  simp only [Merging.reorder, sortOn_eq_insertionSort Transfer.hostKey fun _ _ => rfl,
    sortOn_eq_insertionSort Transfer.localKey fun _ _ => rfl,
    sortOn_eq_insertionSort Transfer.addressKey fun _ _ => rfl]
  decide +kernel

theorem ordersAgree_threeRows : OrdersAgree threeRows := by
  have hruns : ∀ p ∈ pieces Transfer.sameClass threeRows, ∀ s ∈ p.segments, ∀ s' ∈ p.segments,
      ∀ t ∈ s.transfer?, ∀ u ∈ s'.transfer?, t.hostAddr < u.hostAddr →
        t.localAddr ≤ u.localAddr := by
    decide +kernel
  intro first rest hrun t ht u hu _ _ hlt
  exact hruns _ hrun (.transfer t) (List.mem_map_of_mem ht) (.transfer u) (List.mem_map_of_mem hu)
    t rfl u rfl hlt

theorem merge_again_recordCount_threeRows :
    OrdersAgree threeRows ∧ ∃ once, merge threeRows 8192 = .ok once ∧ Irreducible once ∧
      mergeWithStats once 8192 = .ok (once, {}) ∧ recordCount once = 3 := by
  obtain ⟨-, hsame, hagree, -⟩ := merge_again_recordCount_iff merge_threeRows
  have hi := hagree ordersAgree_threeRows
  exact ⟨ordersAgree_threeRows, _, merge_threeRows, hi, hsame hi, rfl⟩

/-- Two rows that continue each other, and three more that keep them apart in both orders until two
of these are joined in local order. -/
def crossedRows : List Segment :=
  [.transfer (.row .load1d 1 1 0x1000 0 8), .transfer (.row .load1d 1 1 0x1010 8 8),
    .transfer (.row .load1d 1 1 0x1004 0x100 2), .transfer (.row .load1d 1 1 0xF04 0x80 0x80),
    .transfer (.row .load1d 1 1 0x5000 4 1)]

/-- The first merge leaves four rows and the second one three. -/
theorem merge_again_joins_crossedRows :
    ∃ once twice, merge crossedRows 8192 = .ok once ∧ merge once 8192 = .ok twice ∧
      recordCount once = 4 ∧ recordCount twice = 3 := by
  refine ⟨[.transfer (.row .load1d 1 1 0xF04 0x80 130), .transfer (.row .load1d 1 1 0x1000 0 8),
      .transfer (.row .load1d 1 1 0x1010 8 8), .transfer (.row .load1d 1 1 0x5000 4 1)],
    [.transfer (.row .load1d 1 1 0xF04 0x80 130), .transfer (.row .load1d 1 1 0x1000 0 16),
      .transfer (.row .load1d 1 1 0x5000 4 1)], ?_, ?_, rfl, rfl⟩
  all_goals
    delta merge mergeWithStats
    simp only [Merging.reorder, sortOn_eq_insertionSort Transfer.hostKey fun _ _ => rfl,
      sortOn_eq_insertionSort Transfer.localKey fun _ _ => rfl,
      sortOn_eq_insertionSort Transfer.addressKey fun _ _ => rfl]
    decide +kernel

end CommandStream
