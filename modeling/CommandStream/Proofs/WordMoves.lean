import Mathlib
import CommandStream.Optimize.Batch

/-! # Word moves

A transfer moves single words, one for each selected engine and each index. Flattening a rectangle,
cutting a skipped tail, joining neighbours and broadcasting to more clusters keep these moves.
-/

namespace CommandStream

def Mask.engines (m : Mask) : List Nat := (List.range 32).filter (m.toNat.testBit ·)

theorem Mask.mem_engines {m : Mask} {e : Nat} : e ∈ m.engines ↔ m.toNat.testBit e = true := by
  simp only [engines, List.mem_filter, List.mem_range, and_iff_right_iff_imp]
  intro h
  by_contra hge
  have hlt : m.toNat < 2 ^ e :=
    m.toNat_lt.trans_le (Nat.pow_le_pow_right (by decide) (Nat.le_of_not_lt hge))
  simp [Nat.testBit_lt_two_pow hlt] at h

theorem Mask.mem_engines_or {a b : Mask} {e : Nat} :
    e ∈ (a ||| b).engines ↔ e ∈ a.engines ∨ e ∈ b.engines := by
  simp [mem_engines]

/-- One word between a host byte address and a local word address, moved by one unit of one
cluster. Addresses do not wrap. -/
structure WordMove where
  isStore : Bool
  biasOffset : Bool
  kernelOffset : Bool
  padding : EdgeSet
  cluster : Nat
  unit : Nat
  hostAddr : Int
  localAddr : Int
  deriving DecidableEq, Repr

@[simp] theorem Direction.isStore_toRow (d : Direction) : d.toRow.isStore = d.isStore := by
  cases d <;> rfl

@[simp] theorem Direction.isRect_toRow (d : Direction) : d.toRow.isRect = false := by
  cases d <;> rfl

namespace Transfer

def words (t : Transfer) : Nat := t.localSpan - t.skipped.toNat

def hostOf (t : Transfer) (i : Nat) : Int :=
  if t.isRect then
    let row : Nat := i / t.width.toNat
    let column : Nat := i % t.width.toNat
    t.hostAddr.toNat + 2 * (row * ((t.width.toNat : Int) + t.leap.toNat - 1) + column)
  else t.hostAddr.toNat + 2 * i

def localOf (t : Transfer) (i : Nat) : Int := t.localAddr.toNat + i

def move (t : Transfer) (cluster unit i : Nat) : WordMove where
  isStore := t.isStore
  biasOffset := t.biasOffset
  kernelOffset := t.kernelOffset
  padding := t.padding
  cluster := cluster
  unit := unit
  hostAddr := t.hostOf i
  localAddr := t.localOf i

def moves (t : Transfer) : List WordMove :=
  t.cluster.engines.flatMap fun c =>
    t.unit.engines.flatMap fun u => (List.range t.words).map (t.move c u)

theorem mem_moves {t : Transfer} {w : WordMove} :
    w ∈ t.moves ↔ ∃ c ∈ t.cluster.engines, ∃ u ∈ t.unit.engines, ∃ i < t.words,
      t.move c u i = w := by
  simp [moves]

theorem isStore_of_mem_moves {t : Transfer} {w : WordMove} (h : w ∈ t.moves) :
    w.isStore = t.isStore := by
  obtain ⟨c, -, u, -, i, -, rfl⟩ := mem_moves.mp h
  rfl

/-- Everything about a move that does not depend on its index or on the addresses. -/
def target (t : Transfer) : Bool × Bool × Bool × EdgeSet × Mask × Mask :=
  (t.isStore, t.biasOffset, t.kernelOffset, t.padding, t.cluster, t.unit)

theorem move_congr {a b : Transfer} (h : a.target = b.target) {c u i j : Nat}
    (hh : a.hostOf i = b.hostOf j) (hl : a.localOf i = b.localOf j) :
    a.move c u i = b.move c u j := by
  simp only [target, Prod.mk.injEq] at h
  simp only [move, h, hh, hl]

theorem moves_congr {a b : Transfer} (h : a.target = b.target) (hw : a.words = b.words)
    (hm : ∀ i < a.words, a.hostOf i = b.hostOf i ∧ a.localOf i = b.localOf i) :
    a.moves = b.moves := by
  have hmap : ∀ c u,
      (List.range a.words).map (a.move c u) = (List.range b.words).map (b.move c u) := by
    intro c u
    rw [← hw]
    refine List.map_congr_left fun i hi => ?_
    obtain ⟨hh, hl⟩ := hm i (List.mem_range.mp hi)
    exact move_congr h hh hl
  simp only [target, Prod.mk.injEq] at h
  obtain ⟨-, -, -, -, hc, hu⟩ := h
  simp only [moves, hc, hu, hmap]

/-- The moves of a transfer whose indices run through those of two others in turn. -/
theorem mem_moves_append {a b whole : Transfer} (ha : a.target = whole.target)
    (hb : b.target = whole.target) (hw : whole.words = a.words + b.words)
    (hfront : ∀ i < a.words, whole.hostOf i = a.hostOf i ∧ whole.localOf i = a.localOf i)
    (hback : ∀ j < b.words, whole.hostOf (a.words + j) = b.hostOf j ∧
      whole.localOf (a.words + j) = b.localOf j) {w : WordMove} :
    w ∈ whole.moves ↔ w ∈ a.moves ∨ w ∈ b.moves := by
  have hea := ha
  have heb := hb
  simp only [target, Prod.mk.injEq] at hea heb
  simp only [mem_moves, hea.2.2.2.2.1, hea.2.2.2.2.2, heb.2.2.2.2.1, heb.2.2.2.2.2]
  constructor
  · rintro ⟨c, hc, u, hu, i, hi, rfl⟩
    rcases Nat.lt_or_ge i a.words with hlt | hge
    · obtain ⟨hh, hl⟩ := hfront i hlt
      exact .inl ⟨c, hc, u, hu, i, hlt, move_congr ha hh.symm hl.symm⟩
    · obtain ⟨j, rfl⟩ := Nat.exists_eq_add_of_le hge
      obtain ⟨hh, hl⟩ := hback j (by omega)
      exact .inr ⟨c, hc, u, hu, j, by omega, move_congr hb hh.symm hl.symm⟩
  · rintro (⟨c, hc, u, hu, i, hi, rfl⟩ | ⟨c, hc, u, hu, j, hj, rfl⟩)
    · obtain ⟨hh, hl⟩ := hfront i hi
      exact ⟨c, hc, u, hu, i, by omega, move_congr ha.symm hh hl⟩
    · obtain ⟨hh, hl⟩ := hback j hj
      exact ⟨c, hc, u, hu, a.words + j, by omega, move_congr hb.symm hh hl⟩

theorem words_of_isRect {t : Transfer} (h : t.isRect = true) :
    t.words = t.area - t.skipped.toNat := by
  simp [words, localSpan, h]

theorem words_of_not_isRect {t : Transfer} (h : t.isRect = false) :
    t.words = t.width.toNat - t.skipped.toNat := by
  simp [words, localSpan, h]

theorem hostOf_of_not_isRect {t : Transfer} (h : t.isRect = false) (i : Nat) :
    t.hostOf i = t.hostAddr.toNat + 2 * i := by
  simp [hostOf, h]

theorem moves_eq_of_gapless {row t : Transfer} (h : row.target = t.target)
    (hr : row.isRect = false) (hw : row.words = t.words) (hh : row.hostAddr = t.hostAddr)
    (hl : row.localAddr = t.localAddr)
    (hgap : ∀ i < t.words, t.hostOf i = t.hostAddr.toNat + 2 * i) : row.moves = t.moves := by
  refine moves_congr h hw fun i hi => ⟨?_, ?_⟩
  · rw [hostOf_of_not_isRect hr, hh, hgap i (hw ▸ hi)]
  · rw [localOf, localOf, hl]

theorem moves_flatten {t : Transfer} (hr : t.isRect = true) {maxElements : Nat}
    (h : t.flattenable maxElements = true) :
    ({ t with direction := t.direction.toRow, width := UInt16.ofNat t.area, height := 1 } :
      Transfer).moves = t.moves := by
  simp only [flattenable, Bool.and_eq_true, beq_iff_eq, decide_eq_true_eq] at h
  obtain ⟨⟨⟨-, hleap⟩, -⟩, harea⟩ := h
  have hwidth : (UInt16.ofNat t.area).toNat = t.area :=
    UInt16.toNat_ofNat_of_lt' (by change t.area < 65536; omega)
  refine moves_eq_of_gapless (by simp [target, isStore]) (by simp [isRect]) ?_ rfl rfl fun i _ => ?_
  · simp only [words_of_isRect hr]
    simp [words, localSpan, isRect, hwidth]
  · have hi : ((i / t.width.toNat * t.width.toNat + i % t.width.toNat : Nat) : Int) = i :=
      congrArg _ (Nat.div_add_mod' i t.width.toNat)
    push_cast at hi
    simp only [hostOf, hr, if_true, hleap]
    simp only [UInt16.toNat_one, Nat.cast_one, add_sub_cancel_right, Int.natCast_ediv,
      Int.natCast_emod, hi]

theorem moves_oneRow {t : Transfer} (hr : t.isRect = true) (h : t.height = 1) :
    ({ t with direction := t.direction.toRow } : Transfer).moves = t.moves := by
  have harea : t.area = t.width.toNat := by simp [area, h]
  refine moves_eq_of_gapless (by simp [target, isStore]) (by simp [isRect]) ?_ rfl rfl
    fun i hi => ?_
  · simp only [words_of_isRect hr, harea]
    simp [words, localSpan, isRect]
  · have hlt : i < t.width.toNat := by rw [words_of_isRect hr] at hi; omega
    simp [hostOf, hr, Nat.div_eq_of_lt hlt, Nat.mod_eq_of_lt hlt]

theorem moves_trim {t : Transfer} (hr : t.isRect = false) :
    ({ t with width := UInt16.ofNat (t.width.toNat - t.skipped.toNat), skipped := 0 } :
      Transfer).moves = t.moves := by
  have hlt : t.width.toNat - t.skipped.toNat < 65536 := by have := t.width.toNat_lt; omega
  refine moves_eq_of_gapless rfl hr ?_ rfl rfl fun i _ => hostOf_of_not_isRect hr i
  rw [words_of_not_isRect hr, words_of_not_isRect (by exact hr)]
  simp [UInt16.toNat_ofNat_of_lt' hlt]

/-- `b` starts where `a` ends, in host and in local memory. -/
structure Continues (a b : Transfer) : Prop where
  hostEnd : ∃ span, a.hostSpan = .ok span ∧ a.hostAddr.toNat + span = b.hostAddr.toNat
  localEnd : a.localAddr.toNat + a.localSpan = b.localAddr.toNat

theorem continues_of_continuedBy {a b : Transfer} (h : a.continuedBy b = .ok true) :
    a.Continues b := by
  unfold continuedBy at h
  cases hs : a.hostSpan with
  | error e => simp [hs, bind, Except.bind] at h
  | ok span =>
    simp only [hs, bind, Except.bind, pure, Except.pure, Except.ok.injEq, Bool.and_eq_true,
      beq_iff_eq] at h
    exact ⟨⟨span, hs, h.1⟩, h.2⟩

theorem startOfJoin_cases {a b whole joined : Transfer}
    (h : startOfJoin a b whole = .ok (some joined)) :
    (a.Continues b ∧ joined = whole) ∨
      (b.Continues a ∧
        joined = { whole with hostAddr := b.hostAddr, localAddr := b.localAddr }) := by
  unfold startOfJoin at h
  cases hab : a.continuedBy b with
  | error e => simp [hab, bind, Except.bind] at h
  | ok forward =>
    cases forward with
    | true =>
      simp only [hab, bind, Except.bind, if_true, pure, Except.pure, Except.ok.injEq,
        Option.some.injEq] at h
      exact .inl ⟨continues_of_continuedBy hab, h.symm⟩
    | false =>
      cases hba : b.continuedBy a with
      | error e => simp [hab, hba, bind, Except.bind] at h
      | ok backward =>
        cases backward with
        | false => simp [hab, hba, bind, Except.bind, pure, Except.pure] at h
        | true =>
          simp only [hab, hba, bind, Except.bind, Bool.false_eq_true, if_false, if_true, pure,
            Except.pure, Except.ok.injEq, Option.some.injEq] at h
          exact .inr ⟨continues_of_continuedBy hba, h.symm⟩

theorem sameTarget_iff {a b : Transfer} :
    a.sameTarget b = true ↔ a.direction = b.direction ∧ a.target = b.target ∧
      a.skipped = 0 ∧ b.skipped = 0 := by
  simp only [sameTarget, Bool.and_eq_true, beq_iff_eq, target, isStore, Prod.mk.injEq]
  constructor
  · rintro ⟨⟨⟨⟨⟨⟨⟨hd, hb⟩, hk⟩, hc⟩, hu⟩, hp⟩, ha⟩, hs⟩
    exact ⟨hd, ⟨by rw [hd], hb, hk, hp, hc, hu⟩, ha, hs⟩
  · rintro ⟨hd, ⟨-, hb, hk, hp, hc, hu⟩, ha, hs⟩
    exact ⟨⟨⟨⟨⟨⟨⟨hd, hb⟩, hk⟩, hc⟩, hu⟩, hp⟩, ha⟩, hs⟩

/-- One row in place of two, the second of which continues the first. -/
theorem mem_moves_of_row_continues {a b whole : Transfer} (h : a.Continues b)
    (ha : a.target = whole.target) (hb : b.target = whole.target)
    (hra : a.isRect = false) (hrb : b.isRect = false) (hr : whole.isRect = false)
    (hsa : a.skipped = 0) (hsb : b.skipped = 0) (hs : whole.skipped = 0)
    (hw : whole.width.toNat = a.width.toNat + b.width.toNat)
    (hh : whole.hostAddr = a.hostAddr) (hl : whole.localAddr = a.localAddr) {w : WordMove} :
    w ∈ whole.moves ↔ w ∈ a.moves ∨ w ∈ b.moves := by
  obtain ⟨⟨span, hspan, hhost⟩, hlocal⟩ := h
  have hwa : a.words = a.width.toNat := by simp [words_of_not_isRect hra, hsa]
  have hwb : b.words = b.width.toNat := by simp [words_of_not_isRect hrb, hsb]
  have hsp : span = a.width.toNat * 2 := by
    simpa [hostSpan, hra, pure, Except.pure, eq_comm] using hspan
  have hls : a.localSpan = a.width.toNat := by simp [localSpan, hra]
  refine mem_moves_append ha hb ?_ (fun i _ => ?_) (fun j _ => ?_)
  · simp [words_of_not_isRect hr, hs, hw, hwa, hwb]
  · simp [hostOf_of_not_isRect hr, hostOf_of_not_isRect hra, localOf, hh, hl]
  · rw [hostOf_of_not_isRect hr, hostOf_of_not_isRect hrb, localOf, localOf, hh, hl, hwa]
    omega

theorem hostOf_of_isRect {t : Transfer} (h : t.isRect = true) (i : Nat) :
    t.hostOf i = t.hostAddr.toNat + 2 * ((i / t.width.toNat : Nat) *
      ((t.width.toNat : Int) + t.leap.toNat - 1) + (i % t.width.toNat : Nat)) := by
  simp [hostOf, h]

theorem hostSpan_of_isRect {t : Transfer} (h : t.isRect = true) {span : Nat}
    (hs : t.hostSpan = .ok span) :
    (span : Int) = 2 * (t.height.toNat * ((t.width.toNat : Int) + t.leap.toNat - 1)) := by
  unfold hostSpan at hs
  simp only [h, if_true, Checked.sub] at hs
  by_cases hp : 1 ≤ t.width.toNat + t.leap.toNat
  · simp only [hp, if_true, bind, Except.bind, pure, Except.pure, Except.ok.injEq] at hs
    rw [← hs]
    push_cast [Nat.cast_sub hp]
    ring
  · simp [hp, bind, Except.bind] at hs

theorem mem_moves_of_rect_continues {a b whole : Transfer} (h : a.Continues b)
    (ha : a.target = whole.target) (hb : b.target = whole.target)
    (hra : a.isRect = true) (hrb : b.isRect = true) (hr : whole.isRect = true)
    (hsa : a.skipped = 0) (hsb : b.skipped = 0) (hs : whole.skipped = 0)
    (hwa : a.width = whole.width) (hwb : b.width = whole.width)
    (hla : a.leap = whole.leap) (hlb : b.leap = whole.leap)
    (hheight : whole.height.toNat = a.height.toNat + b.height.toNat)
    (hh : whole.hostAddr = a.hostAddr) (hl : whole.localAddr = a.localAddr) {w : WordMove} :
    w ∈ whole.moves ↔ w ∈ a.moves ∨ w ∈ b.moves := by
  obtain ⟨⟨span, hspan, hhost⟩, hlocal⟩ := h
  have hsp := hostSpan_of_isRect hra hspan
  have hnum : a.words = whole.width.toNat * a.height.toNat := by
    simp [words_of_isRect hra, hsa, area, hwa]
  have hls : a.localSpan = whole.width.toNat * a.height.toNat := by
    simp [localSpan, hra, area, hwa]
  refine mem_moves_append ha hb ?_ (fun i _ => ?_) (fun j hj => ?_)
  · simp [words_of_isRect hr, words_of_isRect hra, words_of_isRect hrb, hs, hsa, hsb, area, hheight,
      hwa, hwb, Nat.mul_add]
  · simp [hostOf_of_isRect hr, hostOf_of_isRect hra, localOf, hh, hl, hwa, hla]
  · have hpos : 0 < whole.width.toNat := by
      rw [words_of_isRect hrb, area, hwb] at hj
      exact Nat.pos_of_ne_zero fun h0 => by simp [h0] at hj
    have hrow : (a.words + j) / whole.width.toNat = a.height.toNat + j / whole.width.toNat := by
      rw [hnum, Nat.mul_add_div hpos]
    have hcol : (a.words + j) % whole.width.toNat = j % whole.width.toNat := by
      rw [hnum, Nat.mul_add_mod]
    constructor
    · have hhost' : (b.hostAddr.toNat : Int) = a.hostAddr.toNat + span := by
        exact_mod_cast hhost.symm
      rw [hostOf_of_isRect hr, hostOf_of_isRect hrb, hrow, hcol, hwb, hlb, hh, hhost', hsp, hwa,
        hla]
      push_cast
      ring
    · rw [localOf, localOf, hl, ← hlocal, hls, hnum]
      push_cast
      ring

theorem joinRow_eq_some {a b joined : Transfer} (h : joinRow a b = .ok (some joined)) :
    a.isRect = false ∧ a.sameTarget b = true ∧
      (a.width + b.width).toNat = a.width.toNat + b.width.toNat ∧
      startOfJoin a b { a with width := a.width + b.width } = .ok (some joined) := by
  unfold joinRow at h
  split at h
  · simp [pure, Except.pure] at h
  · rename_i hn
    simp only [Bool.or_eq_true, Bool.not_eq_true', decide_eq_true_eq, not_or, Bool.not_eq_true,
      Bool.not_eq_false, Nat.not_lt] at hn
    obtain ⟨⟨hrect, htarget⟩, hfit⟩ := hn
    have hwidth : (a.width + b.width).toNat = a.width.toNat + b.width.toNat :=
      (UInt16.toNat_add _ _).trans (Nat.mod_eq_of_lt (by omega))
    exact ⟨hrect, htarget, hwidth, h⟩

theorem joinRect_eq_some {a b joined : Transfer} (h : joinRect a b = .ok (some joined)) :
    a.isRect = true ∧ a.sameTarget b = true ∧ a.leap = b.leap ∧ a.width = b.width ∧
      (a.height + b.height).toNat = a.height.toNat + b.height.toNat ∧
      startOfJoin a b { a with height := a.height + b.height } = .ok (some joined) := by
  unfold joinRect at h
  split at h
  · simp [pure, Except.pure] at h
  · rename_i hn
    simp only [Bool.or_eq_true, Bool.not_eq_true', decide_eq_true_eq, not_or, Bool.not_eq_false,
      Nat.not_lt, bne_iff_ne, ne_eq, Decidable.not_not] at hn
    obtain ⟨⟨⟨⟨hrect, htarget⟩, hleap⟩, hwidth⟩, hfit⟩ := hn
    have hheight : (a.height + b.height).toNat = a.height.toNat + b.height.toNat :=
      (UInt16.toNat_add _ _).trans (Nat.mod_eq_of_lt (by omega))
    exact ⟨hrect, htarget, hleap, hwidth, hheight, h⟩

theorem broadcast_eq_some {a b joined : Transfer} (h : (a.broadcast b).run = some joined) :
    a.isSibling b = true ∧ joined = { a with cluster := a.cluster ||| b.cluster } := by
  change (if a.isSibling b then some { a with cluster := a.cluster ||| b.cluster } else none) =
    some joined at h
  split at h
  · exact ⟨‹_›, (Option.some.inj h).symm⟩
  · cases h

theorem mem_moves_joinRow {a b joined : Transfer} (h : joinRow a b = .ok (some joined))
    {w : WordMove} : w ∈ joined.moves ↔ w ∈ a.moves ∨ w ∈ b.moves := by
  obtain ⟨hr, htarget, hwidth, h⟩ := joinRow_eq_some h
  obtain ⟨hd, ht, hsa, hsb⟩ := sameTarget_iff.mp htarget
  have hrb : b.isRect = false := by rwa [isRect, hd] at hr
  rcases startOfJoin_cases h with ⟨hc, rfl⟩ | ⟨hc, rfl⟩
  · apply mem_moves_of_row_continues hc
    exacts [rfl, ht.symm, hr, hrb, hr, hsa, hsb, hsa, hwidth, rfl, rfl]
  · rw [or_comm]
    apply mem_moves_of_row_continues hc
    exacts [ht.symm, rfl, hrb, hr, hr, hsb, hsa, hsa, hwidth.trans (Nat.add_comm _ _), rfl, rfl]

theorem mem_moves_joinRect {a b joined : Transfer} (h : joinRect a b = .ok (some joined))
    {w : WordMove} : w ∈ joined.moves ↔ w ∈ a.moves ∨ w ∈ b.moves := by
  obtain ⟨hr, htarget, hleap, hwidth, hheight, h⟩ := joinRect_eq_some h
  obtain ⟨hd, ht, hsa, hsb⟩ := sameTarget_iff.mp htarget
  have hrb : b.isRect = true := by rwa [isRect, hd] at hr
  rcases startOfJoin_cases h with ⟨hc, rfl⟩ | ⟨hc, rfl⟩
  · apply mem_moves_of_rect_continues hc
    exacts [rfl, ht.symm, hr, hrb, hr, hsa, hsb, hsa, rfl, hwidth.symm, rfl, hleap.symm, hheight,
      rfl, rfl]
  · rw [or_comm]
    apply mem_moves_of_rect_continues hc
    exacts [ht.symm, rfl, hrb, hr, hr, hsb, hsa, hsa, hwidth.symm, rfl, hleap.symm, rfl,
      hheight.trans (Nat.add_comm _ _), rfl, rfl]

/-- A broadcast reaches the clusters of both transfers. -/
theorem mem_moves_broadcast {a b joined : Transfer} (h : (a.broadcast b).run = some joined)
    {w : WordMove} : w ∈ joined.moves ↔ w ∈ a.moves ∨ w ∈ b.moves := by
  obtain ⟨hs, rfl⟩ := broadcast_eq_some h
  simp only [isSibling, Bool.and_eq_true, beq_iff_eq] at hs
  obtain ⟨-, heq⟩ := hs
  have hb : b = { a with cluster := b.cluster } := by
    simpa using congrArg (fun t : Transfer => { t with cluster := b.cluster }) heq.symm
  have hmem : ∀ m : Mask, w ∈ ({ a with cluster := m } : Transfer).moves ↔
      ∃ c ∈ m.engines, ∃ u ∈ a.unit.engines, ∃ i < a.words, a.move c u i = w := fun m => mem_moves
  have hma : w ∈ a.moves ↔ _ := hmem a.cluster
  have hmb := hmem b.cluster
  rw [← hb] at hmb
  rw [hmem, hma, hmb]
  simp only [Mask.mem_engines_or, or_and_right, exists_or]

end Transfer

end CommandStream
