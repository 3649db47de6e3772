import CommandStream.Proofs.MergeArithmetic

/-! # Numbers that leave their word in a merge

A rectangle of empty rows without a leap has no pitch, so it has no end either. Where two of them
meet that could be joined, the merge fails. It fails as well if more words were dropped than there
had been, since rows stated to be several lines high gain words by being joined. Nothing else in the
merge of a short stream without loops leaves its word.
-/

namespace CommandStream

/-! ## Rectangles without pitch -/

namespace Transfer

variable {a b joined t : Transfer} {o : Overflow}

/-- A rectangle of empty rows without a leap. -/
def Pitchless (t : Transfer) : Prop := t.isRect = true ∧ t.width = 0 ∧ t.leap = 0

structure Clash (a b : Transfer) : Prop where
  left : a.Pitchless
  right : b.Pitchless
  target : a.sameTarget b = true
  height : a.height.toNat + b.height.toNat ≤ 65535

theorem hostSpan_eq_error_iff : t.hostSpan = .error o ↔ o = .difference ∧ t.Pitchless := by
  unfold hostSpan Pitchless
  cases t.isRect with
  | false =>
    constructor
    · intro h
      cases h
    · rintro ⟨-, h, -⟩
      cases h
  | true =>
    rw [if_pos rfl, bind_pure_eq_error_iff, Checked.sub_eq_error_iff, ← UInt16.toNat_inj,
      ← UInt16.toNat_inj, UInt16.toNat_zero]
    constructor
    · rintro ⟨rfl, hpitch⟩
      exact ⟨rfl, rfl, by omega, by omega⟩
    · rintro ⟨rfl, -, hwidth, hleap⟩
      exact ⟨rfl, by omega⟩

theorem continuedBy_eq_error_iff :
    a.continuedBy b = .error o ↔ o = .difference ∧ a.Pitchless := by
  rw [continuedBy, bind_pure_eq_error_iff, hostSpan_eq_error_iff]

theorem startOfJoin_eq_error_iff {whole : Transfer} (h : b.Pitchless → a.Pitchless) :
    startOfJoin a b whole = .error o ↔ o = .difference ∧ a.Pitchless := by
  rw [startOfJoin, bind_eq_error_iff, continuedBy_eq_error_iff]
  constructor
  · rintro (herror | ⟨forward, -, herror⟩)
    · exact herror
    · cases forward with
      | true => cases herror
      | false =>
        obtain hback | ⟨backward, -, hback⟩ := bind_eq_error_iff.mp herror
        · obtain ⟨rfl, hb⟩ := continuedBy_eq_error_iff.mp hback
          exact ⟨rfl, h hb⟩
        · cases backward <;> cases hback
  · exact .inl

theorem pitchless_congr (hsame : a.sameTarget b = true) (hleap : a.leap = b.leap)
    (hwidth : a.width = b.width) : a.Pitchless ↔ b.Pitchless := by
  obtain ⟨hdirection, -⟩ := sameTarget_iff.mp hsame
  rw [Pitchless, Pitchless, isRect, isRect, hdirection, hleap, hwidth]

theorem joinRect_eq_error_iff : a.joinRect b = .error o ↔ o = .difference ∧ a.Clash b := by
  unfold joinRect
  split
  · rename_i hout
    constructor
    · intro h
      cases h
    · rintro ⟨-, hclash⟩
      obtain ⟨⟨hrect, hwidth, hleap⟩, ⟨-, hwidth', hleap'⟩, hsame, hheight⟩ := hclash
      simp [hrect, hsame, hwidth, hwidth', hleap, hleap'] at hout
      omega
  · rename_i hin
    simp only [Bool.or_eq_true, Bool.not_eq_true', bne_iff_ne, decide_eq_true_eq, not_or,
      Bool.not_eq_false, not_not, not_lt] at hin
    obtain ⟨⟨⟨⟨hrect, hsame⟩, hleap⟩, hwidth⟩, hheight⟩ := hin
    have hboth := pitchless_congr hsame hleap hwidth
    rw [startOfJoin_eq_error_iff hboth.mpr]
    constructor
    · rintro ⟨rfl, ha⟩
      exact ⟨rfl, ha, hboth.mp ha, hsame, hheight⟩
    · rintro ⟨rfl, hclash⟩
      exact ⟨rfl, hclash.left⟩

theorem not_pitchless_of_joinRect (h : a.joinRect b = .ok (some joined)) :
    ¬b.Pitchless ∧ ¬joined.Pitchless := by
  obtain ⟨hrect, hsame, hleap, hwidth, hheight, -⟩ := joinRect_eq_some h
  obtain ⟨-, -, hwidth', -⟩ := joinRect_shape h
  have hboth := pitchless_congr hsame hleap hwidth
  have hlt := (a.height + b.height).toNat_lt
  have ha : ¬a.Pitchless := by
    intro ha
    have hclash : a.Clash b := ⟨ha, hboth.mp ha, hsame, by omega⟩
    cases (joinRect_eq_error_iff.mpr ⟨rfl, hclash⟩).symm.trans h
  constructor
  · exact fun hb => ha (hboth.mpr hb)
  · rintro ⟨-, hzero, hzero'⟩
    rw [leap_joinRect h] at hzero'
    exact ha ⟨hrect, hwidth' ▸ hzero, hzero'⟩

end Transfer

/-! ## Joining rectangles -/

theorem absorbWith_eq_error_iff_of_ok {ε : Type}
    {join : Transfer → Transfer → Except ε (Option Transfer)} {last t : Transfer}
    {joined? : Option Transfer} (h : join last t = .ok joined?) {rest : List Segment} {e : ε} :
    absorbWith join (some last) (.transfer t :: rest) = .error e ↔
      absorbWith join (some (joined?.getD t)) rest = .error e := by
  rw [absorbWith, h, ok_bind]
  cases joined? with
  | none => exact bind_pure_eq_error_iff
  | some joined => exact bind_pure_eq_error_iff

/-- Rectangles without pitch are never joined, so each meets the neighbour it has in the stream. -/
theorem absorbWith_joinRect_eq_error_iff {pending : Option Transfer} {segments : List Segment}
    {o : Overflow} :
    absorbWith Transfer.joinRect pending segments = .error o ↔ o = .difference ∧
      ¬Neighbours (fun a b => ¬a.Clash b) (pending.toList.map .transfer ++ segments) := by
  induction segments generalizing pending with
  | nil =>
    rw [absorbWith, List.append_nil]
    constructor
    · intro h
      cases h
    · rintro ⟨-, hnot⟩
      exact absurd (neighbours_pending pending) hnot
  | cons s rest ih =>
    cases hst : s.transfer? with
    | none =>
      rw [absorbWith_barrier hst, bind_pure_eq_error_iff, neighbours_before_barrier hst,
        and_iff_right (neighbours_pending pending), ih]
      rfl
    | some t =>
      obtain rfl := Segment.transfer?_eq_some_iff.mp hst
      cases pending with
      | none => exact @ih (some t)
      | some last =>
        simp only [Option.toList_some, List.map_cons, List.map_nil, List.singleton_append]
        rw [neighbours_transfers]
        cases hjoin : last.joinRect t with
        | error e =>
          obtain ⟨rfl, hclash⟩ := Transfer.joinRect_eq_error_iff.mp hjoin
          rw [absorbWith, hjoin]
          constructor
          · rintro ⟨⟩
            exact ⟨rfl, fun hboth => hboth.1 hclash⟩
          · rintro ⟨rfl, -⟩
            rfl
        | ok joined? =>
          have hapart : ¬last.Clash t := by
            intro hclash
            cases (Transfer.joinRect_eq_error_iff.mpr ⟨rfl, hclash⟩).symm.trans hjoin
          rw [absorbWith_eq_error_iff_of_ok hjoin, and_iff_right hapart, ih]
          cases joined? with
          | none => rfl
          | some joined =>
            obtain ⟨ht, hjoined⟩ := Transfer.not_pitchless_of_joinRect hjoin
            rw [neighbours_of_forall_left fun b hclash => ht hclash.left]
            exact and_congr_right fun _ =>
              not_congr (neighbours_of_forall_left fun b hclash => hjoined hclash.left)

namespace Merging

variable {m : Merging} {o : Overflow}

/-- Two rectangles without pitch stand side by side and could be joined. -/
def Clashes (m : Merging) : Prop :=
  ∃ front a b back, m.segments = front ++ .transfer a :: .transfer b :: back ∧ a.Clash b

theorem clashes_iff : m.Clashes ↔ ¬Neighbours (fun a b => ¬a.Clash b) m.segments := by
  rw [Neighbours, List.isChain_iff_forall_rel_of_append_cons_cons]
  constructor
  · rintro ⟨front, a, b, back, hsplit, hclash⟩ h
    exact h hsplit a b rfl rfl hclash
  · intro h
    by_contra hnone
    refine h fun s u front back hsplit a b hs hu hclash => hnone ?_
    subst hs hu
    exact ⟨front, a, b, back, hsplit, hclash⟩

theorem joinRects_eq_error_iff : m.joinRects = .error o ↔ o = .difference ∧ m.Clashes := by
  rw [joinRects, bind_pure_eq_error_iff, absorb, absorbWith_joinRect_eq_error_iff, clashes_iff]
  rfl

/-! ## The two halves -/

def hostRows (segments : List Segment) (maxElements : Nat) : Outcome Merging := do
  let start : Merging := { segments := segments }
  let m ← (start.reorder Transfer.hostKey).dropDuplicates
  let m ← (m.flatten maxElements).trim
  m.joinRows

def localRows (m : Merging) (maxElements : Nat) : Outcome Merging := do
  let m ← (m.reorder Transfer.localKey).dropDuplicates
  (m.flatten maxElements).joinRows

def combine (segments : List Segment) (maxElements : Nat) : Outcome Merging := do
  let m ← hostRows segments maxElements
  let m ← m.joinRects
  let m ← m.localRows maxElements
  m.joinRects

/-- A stream of the merge whose rectangles are joined next. -/
inductive BeforeRects (segments : List Segment) (maxElements : Nat) : Merging → Prop where
  | first {m : Merging} (h : hostRows segments maxElements = .ok m) :
      BeforeRects segments maxElements m
  | second {m m' n : Merging} (h : hostRows segments maxElements = .ok m)
      (hm : m.joinRects = .ok m') (hn : m'.localRows maxElements = .ok n) :
      BeforeRects segments maxElements n

theorem mergeWithStats_eq_combine (segments : List Segment) (maxElements : Nat) :
    mergeWithStats segments maxElements = (do
      let before ← countElements segments
      let m ← combine segments maxElements
      let after ← countElements m.segments
      let expected ← Checked.sub before m.dropped
      if expected ≠ after then
        refuse (.elementCountMismatch .merge expected after)
      else
        return (refreshBlocks (m.reorder Transfer.addressKey).segments, m.stats)) := by
  simp only [mergeWithStats, combine, hostRows, localRows, bind_assoc]

end Merging

namespace Merging.Few

variable {segments : List Segment} {maxElements : Nat} {m : Merging} {o : Overflow}

theorem hostRows_cases (h : Few 0 { segments := segments }) (maxElements : Nat) :
    (∀ o, hostRows segments maxElements ≠ .error (.overflow o)) ∧
      ∀ m, hostRows segments maxElements = .ok m → Few 1 m := by
  obtain ⟨m₁, h₁, -, f₁⟩ := (h.reorder Transfer.hostKey).exists_dropDuplicates
  obtain ⟨-, f₂⟩ := f₁.flatten maxElements (by decide)
  have hrows : hostRows segments maxElements =
      (do let m ← (m₁.flatten maxElements).trim; m.joinRows) := by
    rw [hostRows, h₁]
    rfl
  rw [hrows]
  constructor
  · intro o herror
    obtain herror | ⟨m₃, h₃, herror⟩ := bind_eq_error_iff.mp herror
    · exact liftM_fault_ne_overflow herror
    · obtain ⟨m₄, h₄, -⟩ := (f₂.trim (liftM_fault_eq_ok_iff.mp h₃)).exists_joinRows
      rw [h₄] at herror
      cases herror
  · intro m hm
    obtain ⟨m₃, h₃, h₄⟩ := bind_eq_ok_iff.mp hm
    obtain ⟨m₄, h₄', -, f₄⟩ := (f₂.trim (liftM_fault_eq_ok_iff.mp h₃)).exists_joinRows
    obtain rfl := Except.ok.inj (h₄'.symm.trans (liftM_checked_eq_ok_iff.mp h₄))
    exact f₄

theorem exists_localRows (h : Few 1 m) (maxElements : Nat) :
    ∃ n, m.localRows maxElements = .ok n ∧ Few 2 n := by
  obtain ⟨m₁, h₁, -, f₁⟩ := (h.reorder Transfer.localKey).exists_dropDuplicates
  obtain ⟨-, f₂⟩ := f₁.flatten maxElements (by decide)
  obtain ⟨n, hn, -, fn⟩ := f₂.exists_joinRows
  refine ⟨n, ?_, fn⟩
  rw [localRows, h₁, liftM_checked_ok, ok_bind, hn]
  rfl

/-- Of the two halves only the joining of rectangles can leave a word. -/
theorem combine_eq_overflow_iff (h : Few 0 { segments := segments }) :
    combine segments maxElements = .error (.overflow o) ↔
      o = .difference ∧ ∃ m, BeforeRects segments maxElements m ∧ m.Clashes := by
  obtain ⟨hhost, hfew⟩ := h.hostRows_cases maxElements
  constructor
  · intro herror
    obtain herror | ⟨m, hm, herror⟩ := bind_eq_error_iff.mp herror
    · exact absurd herror (hhost o)
    obtain herror | ⟨m', hm', herror⟩ := bind_eq_error_iff.mp herror
    · obtain ⟨rfl, hclash⟩ := joinRects_eq_error_iff.mp (liftM_checked_eq_overflow_iff.mp herror)
      exact ⟨rfl, m, .first hm, hclash⟩
    rw [liftM_checked_eq_ok_iff] at hm'
    obtain ⟨n, hn, -⟩ := ((hfew m hm).joinRects_cases.2 m' hm').exists_localRows maxElements
    rw [hn, ok_bind] at herror
    obtain ⟨rfl, hclash⟩ := joinRects_eq_error_iff.mp (liftM_checked_eq_overflow_iff.mp herror)
    exact ⟨rfl, n, .second hm hm' hn, hclash⟩
  · rintro ⟨rfl, n, hbefore, hclash⟩
    have herror := liftM_checked_eq_overflow_iff.mpr (joinRects_eq_error_iff.mpr ⟨rfl, hclash⟩)
    cases hbefore with
    | first hn =>
      rw [combine, hn, ok_bind]
      exact bind_eq_error_iff.mpr (.inl herror)
    | @second m m' _ hm hm' hn =>
      rw [combine, hm, ok_bind, hm', liftM_checked_ok, ok_bind, hn, ok_bind]
      exact herror

theorem of_combine (h : Few 0 { segments := segments })
    (hm : combine segments maxElements = .ok m) : Few 2 m := by
  obtain ⟨m₁, h₁, hm⟩ := bind_eq_ok_iff.mp hm
  obtain ⟨m₂, h₂, hm⟩ := bind_eq_ok_iff.mp hm
  have f₂ := ((h.hostRows_cases maxElements).2 m₁ h₁).joinRects_cases.2 m₂
    (liftM_checked_eq_ok_iff.mp h₂)
  obtain ⟨m₃, h₃, f₃⟩ := f₂.exists_localRows maxElements
  rw [h₃, ok_bind] at hm
  exact f₃.joinRects_cases.2 m (liftM_checked_eq_ok_iff.mp hm)

end Merging.Few

theorem merge_eq_error_iff {segments : List Segment} {maxElements : Nat} {e : Failure} :
    merge segments maxElements = .error e ↔ mergeWithStats segments maxElements = .error e := by
  rw [merge, bind_pure_eq_error_iff]

/-- In the merge of fewer than 2²⁰ segments without loops no sum, difference or product leaves its
word but two: the pitch of rectangles that clash, and the words that must be left. Neither happens
if rows are one line high and rectangles have a pitch. -/
theorem merge_overflow_iff {segments : List Segment} {maxElements : Nat}
    (hlength : segments.length < 2 ^ 20) (hloops : ∀ l, .loop l ∉ segments) :
    Sized.merge segments maxElements = merge segments maxElements ∧
    (∀ o, merge segments maxElements = .error (.overflow o) ↔ o = .difference ∧
      ((∃ m, Merging.BeforeRects segments maxElements m ∧ m.Clashes) ∨
        ∃ m, Merging.combine segments maxElements = .ok m ∧ elementTotal segments < m.dropped)) ∧
    ((∀ t, .transfer t ∈ segments → (t.isRect = false → t.height = 1) ∧
        (t.isRect = true → ¬(t.width = 0 ∧ t.leap = 0))) →
      ∀ o, merge segments maxElements ≠ .error (.overflow o)) := by
  have hstart := Merging.few_start hlength hloops
  have hfits := fitsCounters_of_length hloops hlength
  refine ⟨Sized.merge_eq hlength hloops, fun o => ?_, fun hregular o => ?_⟩
  · rw [merge_eq_error_iff, Merging.mergeWithStats_eq_combine, hfits.countElements,
      liftM_checked_ok, ok_bind, bind_eq_error_iff, hstart.combine_eq_overflow_iff]
    constructor
    · rintro (⟨rfl, hclash⟩ | ⟨m, hm, herror⟩)
      · exact ⟨rfl, .inl hclash⟩
      · rw [(hstart.of_combine hm).countElements, liftM_checked_ok, ok_bind] at herror
        obtain herror | ⟨expected, -, herror⟩ := bind_eq_error_iff.mp herror
        · obtain ⟨rfl, hlt⟩ :=
            Checked.sub_eq_error_iff.mp (liftM_checked_eq_overflow_iff.mp herror)
          exact ⟨rfl, .inr ⟨m, hm, hlt⟩⟩
        · split at herror <;> cases herror
    · rintro ⟨rfl, hclash | ⟨m, hm, hlt⟩⟩
      · exact .inl ⟨rfl, hclash⟩
      · refine .inr ⟨m, hm, ?_⟩
        rw [(hstart.of_combine hm).countElements, liftM_checked_ok, ok_bind]
        refine bind_eq_error_iff.mpr (.inl (liftM_checked_eq_overflow_iff.mpr ?_))
        exact Checked.sub_eq_error_iff.mpr ⟨rfl, hlt⟩
  · have hstream : RegularStream Set.univ segments :=
      ⟨hfits, fun t ht => ⟨(hregular t ht).1, (hregular t ht).2, fun _ => .inr trivial⟩⟩
    obtain ⟨out, hout, -⟩ | ⟨index, n, -, -, hfault⟩ := merge_cases hstream maxElements
    · rw [hout]
      intro h
      cases h
    · rw [hfault]
      intro h
      cases h

def extremes : List Segment :=
  [.transfer (.rect .load1d 0xffffffff 0xffffffff 0xffffffffffffffff 0xffffffff 65535 32767 65535),
    .transfer (.rect .load1d 0xffffffff 0xffffffff 0xfffffffffffffffe 0xffffffff 65535 32768 65535),
    .transfer (.row .store1d 0xffffffff 0xffffffff 0xffffffffffffffff 0xffffffff 65535),
    .transfer (.row .store1d 0xffffffff 0xffffffff 0xffffffffffffffff 0xffffffff 0),
    .transfer (.rect .store1d 0 0 0xffffffffffffffff 0 0 65535 1),
    .transfer (.rect .store1d 0 0 0xffffffffffffffff 0 0 0 1)]

theorem merge_overflow_iff_extremes : extremes.length < 2 ^ 20 ∧
    Sized.merge extremes 0xffffffff = merge extremes 0xffffffff ∧
    ∀ o, merge extremes 0xffffffff ≠ .error (.overflow o) := by
  have hloops : ∀ l, .loop l ∉ extremes := by simp [extremes]
  obtain ⟨hsized, -, hnever⟩ := @merge_overflow_iff extremes 0xffffffff (by decide) hloops
  refine ⟨by decide, hsized, hnever ?_⟩
  intro t ht
  simp only [extremes, List.mem_cons, Segment.transfer.injEq, List.not_mem_nil, or_false] at ht
  rcases ht with rfl | rfl | rfl | rfl | rfl | rfl <;> decide

def withoutPitch : List Segment :=
  [.transfer (.rect .load1d 1 1 0x1000 0 0 2 0), .transfer (.rect .load1d 1 1 0x2000 64 0 2 0)]

/-- Rows of two lines or none. The first two become one row of two words in two lines, which repeats
what comes of the others. -/
def oddHeights : List Segment :=
  [.transfer { Transfer.row .load1d 1 1 0x1000 0 0 with height := 2 },
    .transfer { Transfer.row .load1d 1 1 0x1000 0 2 with height := 0 },
    .transfer { Transfer.row .load1d 1 1 0x1000 0 1 with height := 2 },
    .transfer { Transfer.row .load1d 1 1 0x1002 1 1 with height := 0 }]

/-- Neither stream can be merged: the rectangles of one have no pitch, and of the other more words
are dropped than it has. -/
theorem merge_overflows : merge withoutPitch 8192 = .error (.overflow .difference) ∧
    merge oddHeights 8192 = .error (.overflow .difference) ∧
    elementTotal oddHeights = 2 ∧
    (Merging.combine oddHeights 8192).map (·.dropped) = .ok 4 := by
  delta merge mergeWithStats Merging.combine Merging.hostRows Merging.localRows
  simp only [Merging.reorder, sortOn_eq_insertionSort Transfer.hostKey fun _ _ => rfl,
    sortOn_eq_insertionSort Transfer.localKey fun _ _ => rfl,
    sortOn_eq_insertionSort Transfer.addressKey fun _ _ => rfl]
  decide +kernel

end CommandStream
