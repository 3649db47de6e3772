import CommandStream.Proofs.Conservation
import CommandStream.Proofs.Gathering

/-! # Merging regular transfers

Rows of one line and rectangles with a pitch can always be compared with their neighbours, and
joining them adds their words up. So merging them fails on nothing but a rectangle with a skipped
tail, and what it drops is all that its result lacks.
-/

namespace CommandStream

/-! ## Words of joined transfers -/

theorem Mask.setBits_or (n : Nat) {x y : Nat} (h : x &&& y = 0) :
    setBits n (x ||| y) = setBits n x + setBits n y := by
  induction n generalizing x y with
  | zero => rfl
  | succ n ih =>
    have hhalf : x / 2 &&& y / 2 = 0 := by rw [← Nat.and_div_two, h]
    have hor : (x ||| y) % 2 = 1 ↔ x % 2 = 1 ∨ y % 2 = 1 := Nat.or_mod_two_eq_one
    have hand : (x &&& y) % 2 = 1 ↔ x % 2 = 1 ∧ y % 2 = 1 := Nat.and_mod_two_eq_one
    rw [h] at hand
    rw [setBits, setBits, setBits, Nat.or_div_two, ih hhalf]
    omega

theorem Mask.count_or {a b : Mask} (h : a &&& b = 0) : (a ||| b).count = a.count + b.count := by
  unfold count
  rw [UInt32.toNat_or]
  exact setBits_or 32 (by rw [← UInt32.toNat_and, h]; rfl)

theorem Mask.setBits_le (n x : Nat) : setBits n x ≤ n := by
  induction n generalizing x with
  | zero => exact Nat.zero_le _
  | succ n ih =>
    have := ih (x / 2)
    rw [setBits]
    omega

theorem Mask.count_le (mask : Mask) : mask.count ≤ 32 := setBits_le 32 _

namespace Transfer

variable {tails : Set UInt8} {a b joined t u : Transfer}

theorem elements_lt (t : Transfer) : t.elements < 2 ^ 43 := by
  have hwidth := t.width.toNat_lt
  have hheight := t.height.toNat_lt
  calc t.elements ≤ (2 ^ 16 * 2 ^ 16) * 32 * 32 := by
        unfold elements area
        gcongr
        · exact (Nat.sub_le _ _).trans (Nat.mul_le_mul hwidth.le hheight.le)
        · exact t.cluster.count_le
        · exact t.unit.count_le
    _ < 2 ^ 43 := by norm_num

theorem masks_of_target (h : a.target = b.target) : a.cluster = b.cluster ∧ a.unit = b.unit := by
  simp only [target, Prod.mk.injEq] at h
  exact ⟨h.2.2.2.2.1, h.2.2.2.2.2⟩

theorem elements_congr (htarget : u.target = t.target)
    (hwords : u.area - u.skipped.toNat = t.area - t.skipped.toNat) : u.elements = t.elements := by
  obtain ⟨hcluster, hunit⟩ := masks_of_target htarget
  rw [elements, elements, hcluster, hunit, hwords]

theorem elements_of_area_add (ha : joined.target = a.target) (hb : a.target = b.target)
    (hsa : a.skipped = 0) (hsb : b.skipped = 0) (hs : joined.skipped = 0)
    (harea : joined.area = a.area + b.area) : joined.elements = a.elements + b.elements := by
  obtain ⟨hcluster, hunit⟩ := masks_of_target ha
  obtain ⟨hcluster', hunit'⟩ := masks_of_target hb
  simp only [elements, hcluster, hunit, ← hcluster', ← hunit', hsa, hsb, hs, harea]
  simp only [UInt8.toNat_zero, Nat.sub_zero]
  ring

theorem elements_broadcast (h : (a.broadcast b).run = some joined) :
    joined.elements = a.elements + b.elements := by
  obtain ⟨hsibling, rfl⟩ := broadcast_eq_some h
  simp only [isSibling, Bool.and_eq_true, beq_iff_eq] at hsibling
  obtain ⟨hdisjoint, hsame⟩ := hsibling
  have hb : b = { a with cluster := b.cluster } :=
    (congrArg (fun t : Transfer => { t with cluster := b.cluster }) hsame).symm
  rw [hb]
  simp only [elements, area, Mask.count_or hdisjoint]
  ring

/-! ## Regular transfers -/

/-- A row has one line, a rectangle has a pitch, and its skipped tail is one of the given ones. -/
structure Regular (tails : Set UInt8) (t : Transfer) : Prop where
  row : t.isRect = false → t.height = 1
  rect : t.isRect = true → ¬(t.width = 0 ∧ t.leap = 0)
  tail : t.isRect = true → t.skipped = 0 ∨ t.skipped ∈ tails

theorem Regular.broadcast (h : (a.broadcast b).run = some joined) (ha : a.Regular tails) :
    joined.Regular tails := by
  obtain ⟨-, rfl⟩ := broadcast_eq_some h
  exact ⟨ha.row, ha.rect, ha.tail⟩

theorem Regular.exists_hostSpan (h : t.Regular tails) : ∃ span, t.hostSpan = .ok span := by
  unfold hostSpan
  split
  · rename_i hrect
    have hpitch : 1 ≤ t.width.toNat + t.leap.toNat := by
      have hne := h.rect hrect
      rw [← UInt16.toNat_inj, ← UInt16.toNat_inj, UInt16.toNat_zero] at hne
      omega
    rw [Checked.sub, if_pos hpitch]
    exact ⟨_, rfl⟩
  · exact ⟨_, rfl⟩

theorem Regular.exists_continuedBy (h : a.Regular tails) (b : Transfer) :
    ∃ r, a.continuedBy b = .ok r := by
  obtain ⟨span, hspan⟩ := h.exists_hostSpan
  unfold continuedBy
  rw [hspan]
  exact ⟨_, rfl⟩

theorem Regular.exists_startOfJoin (ha : a.Regular tails) (hb : b.Regular tails)
    (whole : Transfer) : ∃ r, startOfJoin a b whole = .ok r := by
  obtain ⟨forward, hforward⟩ := ha.exists_continuedBy b
  obtain ⟨backward, hbackward⟩ := hb.exists_continuedBy a
  unfold startOfJoin
  rw [hforward, ok_bind, hbackward, ok_bind]
  cases forward with
  | true => exact ⟨_, rfl⟩
  | false => cases backward <;> exact ⟨_, rfl⟩

theorem exists_joinRow (a b : Transfer) : ∃ r, Transfer.joinRow a b = .ok r := by
  unfold joinRow
  split
  · exact ⟨_, rfl⟩
  · rename_i hrow
    simp only [Bool.or_eq_true, Bool.not_eq_true', not_or, Bool.not_eq_false, Bool.not_eq_true]
      at hrow
    obtain ⟨⟨hrow, hsame⟩, -⟩ := hrow
    obtain ⟨hdirection, -⟩ := sameTarget_iff.mp hsame
    have hrow' : b.isRect = false := by rw [isRect, ← hdirection]; exact hrow
    unfold startOfJoin continuedBy hostSpan
    rw [hrow, hrow', if_neg Bool.false_ne_true, if_neg Bool.false_ne_true]
    simp only [pure_bind]
    split
    · exact ⟨_, rfl⟩
    · split <;> exact ⟨_, rfl⟩

theorem Regular.joinRow (ha : a.Regular tails) (hb : b.Regular tails) :
    ∃ r, Transfer.joinRow a b = .ok r ∧ ∀ joined ∈ r,
      joined.Regular tails ∧ joined.elements = a.elements + b.elements := by
  obtain ⟨r, hr⟩ := exists_joinRow a b
  refine ⟨r, hr, ?_⟩
  rintro joined rfl
  obtain ⟨hrow, hdirection, htarget, hwidth, hheight, hskipped⟩ := joinRow_shape hr
  obtain ⟨-, hsame, -⟩ := joinRow_eq_some hr
  obtain ⟨hdirection', htarget', hsa, hsb⟩ := sameTarget_iff.mp hsame
  have hjoined : joined.isRect = false := by rw [isRect, hdirection]; exact hrow
  have hrow' : b.isRect = false := by rw [isRect, ← hdirection']; exact hrow
  refine ⟨⟨fun _ => hheight.trans (ha.row hrow), fun h => ?_, fun _ => .inl hskipped⟩, ?_⟩
  · rw [hjoined] at h
    cases h
  · refine elements_of_area_add htarget htarget' hsa hsb hskipped ?_
    rw [area, area, area, hheight, hwidth, ha.row hrow, hb.row hrow', Nat.add_mul]

theorem Regular.joinRect (ha : a.Regular tails) (hb : b.Regular tails) :
    ∃ r, Transfer.joinRect a b = .ok r ∧ ∀ joined ∈ r,
      joined.Regular tails ∧ joined.elements = a.elements + b.elements := by
  obtain ⟨r, hr⟩ : ∃ r, Transfer.joinRect a b = .ok r := by
    unfold Transfer.joinRect
    split
    · exact ⟨_, rfl⟩
    · exact ha.exists_startOfJoin hb _
  refine ⟨r, hr, ?_⟩
  rintro joined rfl
  obtain ⟨hdirection, htarget, hwidth, hheight, hskipped⟩ := joinRect_shape hr
  obtain ⟨hrect, hsame, -, hwidth', -, hstart⟩ := joinRect_eq_some hr
  obtain ⟨-, htarget', hsa, hsb⟩ := sameTarget_iff.mp hsame
  have hjoined : joined.isRect = true := by rw [isRect, hdirection]; exact hrect
  have hleap : joined.leap = a.leap := by
    rcases startOfJoin_cases hstart with ⟨-, rfl⟩ | ⟨-, rfl⟩ <;> rfl
  refine ⟨⟨fun h => ?_, fun _ => ?_, fun _ => .inl hskipped⟩, ?_⟩
  · rw [hjoined] at h
    cases h
  · rw [hwidth, hleap]
    exact ha.rect hrect
  · refine elements_of_area_add htarget htarget' hsa hsb hskipped ?_
    rw [area, area, area, hheight, hwidth, hwidth', Nat.mul_add]

theorem Regular.flatten (h : t.Regular tails) (maxElements : Nat) :
    ∃ u : Transfer, Merging.flattenSegment maxElements (.transfer t) = .transfer u ∧
      u.Regular tails ∧ u.elements = t.elements := by
  obtain ⟨u, hu, htarget, hskipped, harea, -⟩ := t.flattenSegment_transfer maxElements
  refine ⟨u, hu, ?_, elements_congr htarget (by rw [harea, hskipped])⟩
  have hrow : ∀ v : Transfer, v.direction = t.direction.toRow → v.isRect ≠ true := by
    intro v hv
    simp [isRect, hv]
  rw [Merging.flattenSegment] at hu
  split at hu
  · exact Segment.transfer.inj hu ▸ h
  · split at hu
    · obtain rfl := Segment.transfer.inj hu
      exact ⟨fun _ => rfl, fun h => absurd h (hrow _ rfl), fun h => absurd h (hrow _ rfl)⟩
    · split at hu
      · rename_i hone
        obtain rfl := Segment.transfer.inj hu
        exact ⟨fun _ => hone, fun h => absurd h (hrow _ rfl), fun h => absurd h (hrow _ rfl)⟩
      · exact Segment.transfer.inj hu ▸ h

theorem Regular.trim_cases (h : t.Regular tails) (index : Nat) :
    (∃ u : Transfer, Merging.trimSegment (.transfer t, index) = .ok (.transfer u) ∧
      u.Regular ∅ ∧ u.elements = t.elements) ∨
    (t.skipped ∈ tails ∧ t.skipped ≠ 0 ∧
      Merging.trimSegment (.transfer t, index) = .error (.discardOnRect index t.skipped)) := by
  rw [Merging.trimSegment]
  by_cases hnone : t.skipped = 0
  · exact .inl ⟨t, if_pos hnone, ⟨h.row, h.rect, fun _ => .inl hnone⟩, rfl⟩
  rw [if_neg hnone]
  by_cases hrect : t.isRect = true
  · exact .inr ⟨(h.tail hrect).resolve_left hnone, hnone, if_pos hrect⟩
  rw [if_neg hrect]
  have hheight : t.height = 1 := h.row (by simpa using hrect)
  refine .inl ⟨_, rfl, ⟨fun _ => hheight, fun hu => absurd hu hrect, fun hu => absurd hu hrect⟩,
    elements_congr rfl ?_⟩
  have hlt : t.width.toNat - t.skipped.toNat < 2 ^ 16 := by have := t.width.toNat_lt; omega
  simp only [area, hheight, UInt16.toNat_ofNat_of_lt' hlt, UInt16.toNat_one, Nat.mul_one,
    UInt8.toNat_zero, Nat.sub_zero]

end Transfer

/-! ## Steps of the merge -/

theorem Conserves.of_forall₂ {a b : List Segment}
    (h : List.Forall₂ (fun s s' => Conserves [s] [s']) a b) : Conserves a b := by
  induction h with
  | nil => exact .refl []
  | cons hs _ ih => exact hs.append ih

theorem conserves_transfer {t u : Transfer} (h : u.elements = t.elements) :
    Conserves [.transfer t] [.transfer u] where
  words := by rw [elementTotal_transfer_cons, elementTotal_transfer_cons, h]
  records := le_rfl

namespace Merging

variable {tails : Set UInt8} {words records : Nat} {m : Merging}

/-- The transfers are regular, and the words of the stream and those dropped make up the given
number. -/
structure Accounted (tails : Set UInt8) (words records : Nat) (m : Merging) : Prop where
  regular : ∀ t, .transfer t ∈ m.segments → t.Regular tails
  words : elementTotal m.segments + m.dropped = words
  records : dmaRecords m.segments ≤ records

theorem Accounted.of_conserves {tails' : Set UInt8} {m' : Merging}
    (h : Accounted tails words records m) (hc : Conserves m.segments m'.segments)
    (hdropped : m'.dropped = m.dropped)
    (hregular : ∀ t, .transfer t ∈ m'.segments → t.Regular tails') :
    Accounted tails' words records m' where
  regular := hregular
  words := by rw [hc.words, hdropped, h.words]
  records := hc.records.trans h.records

theorem Accounted.reorder (h : Accounted tails words records m) (key : Transfer → List Nat) :
    Accounted tails words records (m.reorder key) :=
  h.of_conserves (conserves_permuteRuns (sortOn_perm key) m.segments) rfl
    fun t ht => h.regular t (mem_reorder.mp ht)

theorem addElements_eq {start : Nat} {ts : List Transfer}
    (h : start + total (ts.map Transfer.elements) < 2 ^ 64) :
    ts.foldlM (fun n t => Checked.add 64 n t.elements) start =
      .ok (start + total (ts.map Transfer.elements)) := by
  have hstart : start < 2 ^ 64 := (Nat.le_add_right _ _).trans_lt h
  have hstep : ∀ (n : Nat) (t : Transfer) (sum : Nat),
      Checked.add 64 n t.elements = .ok sum ↔ n + t.elements = sum ∧ sum < 2 ^ 64 :=
    fun _ _ _ => Checked.add_eq_ok_iff
  exact (foldlM_eq_ok_iff_total Transfer.elements hstep ts hstart).mpr ⟨rfl, h⟩

theorem Accounted.exists_dropDuplicates (h : Accounted tails words records m)
    (hwords : words < 2 ^ 64) :
    ∃ m', m.dropDuplicates = .ok m' ∧ Accounted tails words records m' := by
  have hjoin : ∀ a b : Transfer, a.Regular tails → b.Regular tails →
      ∃ r, (return if a.sameCommand b then some a else none : Checked (Option Transfer)) = .ok r ∧
        ∀ joined ∈ r, joined.Regular tails ∧
          joined.elements + b.elements = a.elements + b.elements := by
    intro a b ha _
    refine ⟨_, rfl, fun joined hjoined => ?_⟩
    split at hjoined
    · obtain rfl := Option.some.inj hjoined
      exact ⟨ha, rfl⟩
    · cases hjoined
  obtain ⟨out, hout, hswept⟩ := absorb_eq_pure hjoin h.regular
  have hsum := hswept.words
  have hbefore := h.words
  have hdropped := @addElements_eq m.dropped out.absorbed (by omega)
  refine ⟨_, bind_eq_ok_iff.mpr ⟨out, hout, bind_eq_ok_iff.mpr ⟨_, hdropped, rfl⟩⟩, hswept.kept, ?_,
    hswept.records.trans h.records⟩
  change elementTotal out.kept + (m.dropped + total (out.absorbed.map Transfer.elements)) = words
  omega

theorem Accounted.exists_joinRows (h : Accounted tails words records m) :
    ∃ m', m.joinRows = .ok m' ∧ Accounted tails words records m' := by
  obtain ⟨out, hout, hregular, hconserves⟩ := absorb_conserves Transfer.Regular.joinRow h.regular
  exact ⟨_, bind_eq_ok_iff.mpr ⟨out, hout, rfl⟩, h.of_conserves hconserves rfl hregular⟩

theorem Accounted.exists_joinRects (h : Accounted tails words records m) :
    ∃ m', m.joinRects = .ok m' ∧ Accounted tails words records m' := by
  obtain ⟨out, hout, hregular, hconserves⟩ := absorb_conserves Transfer.Regular.joinRect h.regular
  exact ⟨_, bind_eq_ok_iff.mpr ⟨out, hout, rfl⟩, h.of_conserves hconserves rfl hregular⟩

theorem Accounted.flatten (h : Accounted tails words records m) (maxElements : Nat) :
    Accounted tails words records (m.flatten maxElements) := by
  refine h.of_conserves (.of_forall₂ ?_) rfl ?_
  · rw [Merging.flatten, List.forall₂_map_right_iff, List.forall₂_same]
    intro s hs
    cases s with
    | transfer t =>
      obtain ⟨u, hu, -, hwords⟩ := (h.regular t hs).flatten maxElements
      rw [hu]
      exact conserves_transfer hwords
    | loop _ | compute _ | block _ | sync _ | padding _ | scatter _ => exact .refl _
  · intro t ht
    obtain ⟨s, hs, hst⟩ := List.mem_map.mp ht
    cases s with
    | transfer t' =>
      obtain ⟨u, hu, hregular, -⟩ := (h.regular t' hs).flatten maxElements
      exact Segment.transfer.inj (hu.symm.trans hst) ▸ hregular
    | loop _ | compute _ | block _ | sync _ | padding _ | scatter _ => cases hst

theorem Accounted.trim_cases (h : Accounted tails words records m) :
    (∃ m', m.trim = .ok m' ∧ Accounted ∅ words records m') ∨
    ∃ index, ∃ n ∈ tails, n ≠ 0 ∧ m.trim = .error (.discardOnRect index n) := by
  cases htrim : m.segments.zipIdx.mapM trimSegment with
  | ok segments =>
    have hstep : ∀ (x : Segment × Nat) (s' : Segment),
        x.1 ∈ m.segments ∧ trimSegment x = .ok s' →
          Conserves [x.1] [s'] ∧ ∀ t, s' = .transfer t → t.Regular ∅ := by
      rintro ⟨s, index⟩ s' ⟨hs, hs'⟩
      cases s with
      | transfer t =>
        obtain ⟨u, hu, hregular, hwords⟩ | ⟨-, -, herror⟩ := (h.regular t hs).trim_cases index
        · obtain rfl := Except.ok.inj (hu.symm.trans hs')
          exact ⟨conserves_transfer hwords, fun v hv => Segment.transfer.inj hv ▸ hregular⟩
        · cases herror.symm.trans hs'
      | loop _ | compute _ | block _ | sync _ | padding _ | scatter _ =>
        obtain rfl := Except.ok.inj hs'
        refine ⟨.refl _, ?_⟩
        rintro t ht
        cases ht
    have hforall := (List.forall₂_and_left _ _).mpr
      ⟨fun x hx => List.fst_mem_of_mem_zipIdx hx, mapM_eq_ok_iff.mp htrim⟩
    have hconserves : Conserves m.segments segments := by
      refine .of_forall₂ ?_
      rw [← List.zipIdx_map_fst 0 m.segments, List.forall₂_map_left_iff]
      exact hforall.imp fun x s' hx => (hstep x s' hx).1
    refine .inl ⟨_, bind_eq_ok_iff.mpr ⟨segments, htrim, rfl⟩, h.of_conserves hconserves rfl ?_⟩
    intro t ht
    obtain ⟨x, hx, hxt⟩ := exists_of_mem_mapM htrim ht
    exact (hstep x _ ⟨List.fst_mem_of_mem_zipIdx hx, hxt⟩).2 t rfl
  | error f =>
    obtain ⟨⟨s, index⟩, hmem, hf⟩ := exists_of_mapM_eq_error htrim
    have hs : s ∈ m.segments := List.fst_mem_of_mem_zipIdx hmem
    cases s with
    | transfer t =>
      obtain ⟨u, hu, -⟩ | ⟨htail, hne, herror⟩ := (h.regular t hs).trim_cases index
      · cases hu.symm.trans hf
      · obtain rfl := Except.error.inj (herror.symm.trans hf)
        exact .inr ⟨index, t.skipped, htail, hne, by rw [trim, htrim]; rfl⟩
    | loop _ | compute _ | block _ | sync _ | padding _ | scatter _ => cases hf

end Merging

/-! ## Merging -/

/-- Words can be counted in a word of 64 bits, and records of transfers and loops in one of 32. -/
structure FitsCounters (segments : List Segment) : Prop where
  words : elementTotal segments < 2 ^ 64
  records : dmaRecords segments < 2 ^ 32

theorem FitsCounters.of_conserves {a b : List Segment} (h : FitsCounters a) (hc : Conserves a b) :
    FitsCounters b :=
  ⟨hc.words ▸ h.words, hc.records.trans_lt h.records⟩

theorem FitsCounters.countElements {segments : List Segment} (h : FitsCounters segments) :
    countElements segments = .ok (elementTotal segments) :=
  countElements_eq_ok_iff.mpr ⟨rfl, h.words⟩

theorem elementTotal_le {segments : List Segment} (h : ∀ l, .loop l ∉ segments) :
    elementTotal segments ≤ segments.length * 2 ^ 43 := by
  induction segments with
  | nil => exact le_rfl
  | cons s rest ih =>
    have hrest := ih fun l hl => h l (List.mem_cons_of_mem s hl)
    rw [List.length_cons, Nat.succ_mul]
    cases s with
    | transfer t =>
      have := t.elements_lt
      rw [elementTotal_transfer_cons]
      omega
    | loop l => exact absurd List.mem_cons_self (h l)
    | compute _ | block _ | sync _ | padding _ | scatter _ => exact Nat.le_add_right_of_le hrest

theorem recordCount_le (segments : List Segment) : recordCount segments ≤ 2 * segments.length := by
  induction segments with
  | nil => exact le_rfl
  | cons s rest ih =>
    have hs : s.records ≤ 2 := by cases s <;> simp [Segment.records]
    rw [recordCount_cons, List.length_cons]
    omega

theorem fitsCounters_of_length {segments : List Segment} (hloops : ∀ l, .loop l ∉ segments)
    (hlength : segments.length < 2 ^ 20) : FitsCounters segments where
  words := by
    have := elementTotal_le hloops
    omega
  records := by
    have hdma := dmaRecords_le_recordCount segments
    have hrecords := recordCount_le segments
    omega

structure Settled (segments : List Segment) : Prop extends FitsCounters segments where
  markers : UpToDate segments

theorem FitsCounters.settled_refreshBlocks {segments : List Segment} (h : FitsCounters segments) :
    Settled (refreshBlocks segments) where
  toFitsCounters := h.of_conserves (conserves_refreshBlocks segments)
  markers := upToDate_refreshBlocks ((largestBlock_le segments).trans_lt h.records)

structure RegularStream (tails : Set UInt8) (segments : List Segment) : Prop
    extends FitsCounters segments where
  transfers : ∀ t, .transfer t ∈ segments → t.Regular tails

/-- Merging a regular stream succeeds, and no rectangle of the result has a tail; or a rectangle of
the stream has one. -/
theorem merge_cases {tails : Set UInt8} {segments : List Segment} (h : RegularStream tails segments)
    (maxElements : Nat) :
    (∃ out, merge segments maxElements = .ok out ∧ RegularStream ∅ out ∧ Settled out) ∨
    ∃ index, ∃ n ∈ tails, n ≠ 0 ∧
      merge segments maxElements = .error (.fault (.discardOnRect index n)) := by
  have hstart : ({ segments := segments } : Merging).Accounted tails (elementTotal segments)
      (dmaRecords segments) := ⟨h.transfers, rfl, le_rfl⟩
  have hbefore := h.countElements
  obtain ⟨m₁, h₁, a₁⟩ := (hstart.reorder Transfer.hostKey).exists_dropDuplicates h.words
  obtain ⟨m₂, h₂, a₂⟩ | ⟨index, n, hn, hne, herror⟩ := (a₁.flatten maxElements).trim_cases
  · obtain ⟨m₃, h₃, a₃⟩ := a₂.exists_joinRows
    obtain ⟨m₄, h₄, a₄⟩ := a₃.exists_joinRects
    obtain ⟨m₅, h₅, a₅⟩ := (a₄.reorder Transfer.localKey).exists_dropDuplicates h.words
    obtain ⟨m₆, h₆, a₆⟩ := (a₅.flatten maxElements).exists_joinRows
    obtain ⟨m₇, h₇, a₇⟩ := a₆.exists_joinRects
    have hwords := h.words
    have hsum := a₇.words
    have hafter : countElements m₇.segments = .ok (elementTotal m₇.segments) :=
      countElements_eq_ok_iff.mpr ⟨rfl, by omega⟩
    have hexpected : Checked.sub (elementTotal segments) m₇.dropped =
        .ok (elementTotal m₇.segments) := by
      rw [Checked.sub, if_pos (by omega)]
      congr 1
      omega
    have hmerge : merge segments maxElements =
        .ok (refreshBlocks (m₇.reorder Transfer.addressKey).segments) := by
      refine bind_eq_ok_iff.mpr ⟨(_, m₇.stats), ?_, rfl⟩
      unfold mergeWithStats
      simp only [bind_eq_ok_iff, liftM_checked_eq_ok_iff, liftM_fault_eq_ok_iff]
      exact ⟨_, hbefore, m₁, h₁, m₂, h₂, m₃, h₃, m₄, h₄, m₅, h₅, m₆, h₆, m₇, h₇, _, hafter, _,
        hexpected, if_neg (by simp)⟩
    have hlast := a₇.reorder Transfer.addressKey
    have hlastSum := hlast.words
    have hfits : FitsCounters (m₇.reorder Transfer.addressKey).segments :=
      ⟨by omega, hlast.records.trans_lt h.records⟩
    have hsettled := hfits.settled_refreshBlocks
    exact .inl ⟨_, hmerge, ⟨hsettled.toFitsCounters,
      fun t ht => hlast.regular t ((mem_refreshBlocks rfl).mp ht)⟩, hsettled⟩
  · refine .inr ⟨index, n, hn, hne, ?_⟩
    unfold merge mergeWithStats
    simp only [hbefore, h₁, herror, liftM_checked_ok, ok_bind]
    rfl

end CommandStream
