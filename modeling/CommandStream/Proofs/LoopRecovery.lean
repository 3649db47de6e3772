import Mathlib
import CommandStream.Proofs.LoopExpansion
import CommandStream.Proofs.MaskMoves
import CommandStream.Proofs.PipelineFaults

/-! # Rolled loops are found again

A loop whose masks lose no engine and whose addresses do not wrap is recovered from its transfers.
The progression that reads them has a closed form at each position of the three counters.
-/

namespace CommandStream

/-! ## Addresses that do not wrap -/

section Words

theorem toNat_hostProgress (a : UInt64) (n : Nat) (step : Int32)
    (h : 0 ≤ a.toNat + n * step.toInt ∧ a.toNat + n * step.toInt < 2 ^ 64) :
    ((a + UInt64.ofNat n * step.toInt64.toUInt64).toNat : Int) = a.toNat + n * step.toInt := by
  rw [hostProgress_eq, ← UInt64.toNat_toBitVec, toBitVec_ofInt64, BitVec.toNat_ofInt]
  exact (Int.toNat_of_nonneg (Int.emod_nonneg _ (by decide))).trans (Int.emod_eq_of_lt h.1 h.2)

theorem toNat_localProgress (a : UInt32) (n : Nat) (step : Int16)
    (h : 0 ≤ a.toNat + n * step.toInt ∧ a.toNat + n * step.toInt < 2 ^ 32) :
    ((a + UInt32.ofNat n * step.toInt32.toUInt32).toNat : Int) = a.toNat + n * step.toInt := by
  rw [localProgress_eq, ← UInt32.toNat_toBitVec, toBitVec_ofInt32, BitVec.toNat_ofInt]
  exact (Int.toNat_of_nonneg (Int.emod_nonneg _ (by decide))).trans (Int.emod_eq_of_lt h.1 h.2)

theorem toNat_eq_zero_iff {x : UInt8} : x.toNat = 0 ↔ x = 0 := by
  rw [← UInt8.toNat_inj]
  rfl

end Words

namespace TransferLoop

/-! ## Loops that can be recovered -/

/-- A counter of `len` further rounds moves a mask that is not empty, and no round loses an
engine. -/
structure Moves (mask : Mask) (len : UInt8) (step : Int8) : Prop where
  step_ne : step ≠ 0
  mask_ne : mask ≠ 0
  keeps : ∀ k ≤ len.toNat, mask.Keeps (k * step.toInt)

/-- The loop states its number of transfers, each counter that is used shows in the transfers, the
local step fits its field, and no address wraps. -/
structure Recoverable (l : TransferLoop) : Prop where
  count : l.count.toNat = l.rounds
  cluster : l.clusterLen ≠ 0 → Moves l.base.cluster l.clusterLen l.clusterShift
  unit : l.unitLen ≠ 0 → Moves l.base.unit l.unitLen l.unitShift
  localStep : l.innerLen ≠ 0 → localStepFits l.localStep.toInt
  hostAddrs : ∀ k < l.rounds, 0 ≤ l.base.hostAddr.toNat + k * l.hostStep.toInt ∧
    l.base.hostAddr.toNat + k * l.hostStep.toInt < 2 ^ 64
  localAddrs : ∀ k ≤ l.innerLen.toNat, 0 ≤ l.base.localAddr.toNat + k * l.localStep.toInt ∧
    l.base.localAddr.toNat + k * l.localStep.toInt < 2 ^ 32

/-- The loop without the steps of counters that are not used. -/
def normal (l : TransferLoop) : TransferLoop :=
  { l with
    clusterShift := if l.clusterLen = 0 then 0 else l.clusterShift
    unitShift := if l.unitLen = 0 then 0 else l.unitShift
    localStep := if l.innerLen = 0 then 0 else l.localStep }

variable {l : TransferLoop} {cluster unit inner : Nat}

theorem transferAt_normal (h : l.InRange cluster unit inner) :
    l.normal.transferAt cluster unit inner = l.transferAt cluster unit inner := by
  obtain ⟨hc, hu, hi⟩ := h
  have hcluster : (Mask.shift · l.normal.clusterShift)^[cluster] l.base.cluster =
      (Mask.shift · l.clusterShift)^[cluster] l.base.cluster := by
    by_cases hzero : l.clusterLen = 0
    · obtain rfl : cluster = 0 := by simpa [hzero] using hc
      rfl
    · simp [normal, hzero]
  have hunit : (Mask.shift · l.normal.unitShift)^[unit] l.base.unit =
      (Mask.shift · l.unitShift)^[unit] l.base.unit := by
    by_cases hzero : l.unitLen = 0
    · obtain rfl : unit = 0 := by simpa [hzero] using hu
      rfl
    · simp [normal, hzero]
  have hlocal : UInt32.ofNat inner * l.normal.localStep.toInt32.toUInt32 =
      UInt32.ofNat inner * l.localStep.toInt32.toUInt32 := by
    by_cases hzero : l.innerLen = 0
    · obtain rfl : inner = 0 := by simpa [hzero] using hi
      simp
    · simp [normal, hzero]
  unfold transferAt
  rw [show l.normal.base = l.base from rfl, hcluster, hunit, hlocal]
  rfl

theorem nth_normal {k : Nat} (h : k < l.rounds) : l.normal.nth k = l.nth k := by
  obtain ⟨cluster, unit, inner, hrange, rfl⟩ := exists_number_eq h
  rw [hrange.nth_number, ← transferAt_normal hrange]
  exact InRange.nth_number (l := l.normal) hrange

theorem expand_normal (l : TransferLoop) : l.normal.expand = l.expand := by
  rw [expand_eq_map_range, expand_eq_map_range]
  apply List.map_congr_left
  intro k hk
  exact nth_normal ((List.mem_range.mp hk).trans_le (min_le_right _ _))

theorem Recoverable.expand (h : l.Recoverable) :
    l.expand = (List.range l.rounds).map l.nth := by
  rw [expand_eq_map_range, h.count, min_self]

theorem eq_zero_of_number_eq_one (h : l.number cluster unit inner = 1) :
    cluster = 0 ∨ unit = 0 := by
  by_contra hne
  push Not at hne
  have hrounds : cluster ≤ cluster * l.unitRounds := Nat.le_mul_of_pos_right _ l.unitRounds_pos
  have hnumber : cluster * l.unitRounds + unit ≤ l.number cluster unit inner :=
    (Nat.le_mul_of_pos_right _ l.innerRounds_pos).trans (Nat.le_add_right _ _)
  omega

/-! ## What the progression sees of a transfer -/

theorem shiftTo?_rounds {mask : Mask} {len : UInt8} {step : Int8}
    (h : len ≠ 0 → Moves mask len step) {k : Nat} (hk : k ≤ len.toNat) :
    Mask.shiftTo? mask ((Mask.shift · step)^[k] mask) = some (k * step.toInt) := by
  by_cases hzero : len = 0
  · obtain rfl : k = 0 := by simpa [hzero] using hk
    simpa using Mask.shiftTo?_self mask
  · obtain ⟨-, hmask, hkeeps⟩ := h hzero
    rw [Mask.iterate_shift fun j hj => hkeeps j (hj.le.trans hk)]
    exact Mask.shiftTo?_move hmask (hkeeps k hk)

theorem Recoverable.amounts? (h : l.Recoverable) (hrange : l.InRange cluster unit inner) :
    Progression.amounts? l.base (l.transferAt cluster unit inner) =
      some (cluster * l.clusterShift.toInt, unit * l.unitShift.toInt) := by
  rw [Progression.amounts?, transferAt, shiftTo?_rounds h.cluster hrange.1,
    shiftTo?_rounds h.unit hrange.2.1]
  rfl

theorem Recoverable.hostAddr (h : l.Recoverable) (hrange : l.InRange cluster unit inner) :
    ((l.transferAt cluster unit inner).hostAddr.toNat : Int) =
      l.base.hostAddr.toNat + l.number cluster unit inner * l.hostStep.toInt :=
  toNat_hostProgress _ _ _ (h.hostAddrs _ (number_lt_rounds hrange))

theorem Recoverable.localAddr (h : l.Recoverable) (hi : inner ≤ l.innerLen.toNat) :
    ((l.transferAt cluster unit inner).localAddr.toNat : Int) =
      l.base.localAddr.toNat + inner * l.localStep.toInt :=
  toNat_localProgress _ _ _ (h.localAddrs _ hi)

theorem Recoverable.hostDistance? (h : l.Recoverable) {cluster' unit' inner' : Nat}
    (hrange : l.InRange cluster unit inner) (hrange' : l.InRange cluster' unit' inner')
    (hnumber : l.number cluster' unit' inner' = l.number cluster unit inner + 1) :
    Progression.hostDistance? (l.transferAt cluster unit inner)
      (l.transferAt cluster' unit' inner') = some l.hostStep.toInt := by
  have hdistance : ((l.transferAt cluster' unit' inner').hostAddr.toNat : Int) -
      (l.transferAt cluster unit inner).hostAddr.toNat = l.hostStep.toInt := by
    rw [h.hostAddr hrange, h.hostAddr hrange', hnumber]
    push_cast
    ring
  have hlow := l.hostStep.le_toInt
  have hhigh := l.hostStep.toInt_lt
  rw [Progression.hostDistance?, hdistance]
  exact if_pos (by omega)

theorem Recoverable.localDistance (h : l.Recoverable) (hi : inner < l.innerLen.toNat) :
    Progression.localDistance (l.transferAt cluster unit inner)
      (l.transferAt cluster unit (inner + 1)) = l.localStep.toInt := by
  rw [Progression.localDistance, h.localAddr hi.le, h.localAddr hi]
  push_cast
  ring

theorem toInt_step_ne {mask : Mask} {len : UInt8} {step : Int8}
    (h : len ≠ 0 → Moves mask len step) (hlen : 0 < len.toNat) : step.toInt ≠ 0 := by
  have hne : len ≠ 0 := by
    rintro rfl
    exact absurd hlen (Nat.lt_irrefl 0)
  intro hzero
  exact (h hne).step_ne (Int8.toInt_inj.mp hzero)

theorem rounds_amount_ne {mask : Mask} {len : UInt8} {step : Int8}
    (h : len ≠ 0 → Moves mask len step) {k : Nat} (hne : k ≠ 0) (hk : k ≤ len.toNat) :
    (k : Int) * step.toInt ≠ 0 :=
  mul_ne_zero (Nat.cast_ne_zero.mpr hne) (toInt_step_ne h (by omega))

end TransferLoop

/-! ## What one more transfer does to a progression -/

namespace Progression

variable {p : Progression} {next : Transfer} {cluster unit : Int}

theorem ite_eq_none (seen : Option Int) (amount : Int) :
    (if seen = none then some amount else seen) = some (seen.getD amount) := by
  cases seen with
  | none => rfl
  | some _ => rfl

theorem push?_inner (hlevel : p.level = .inner) (hamounts : amounts? p.first next = some (0, 0))
    (hhost : hostDistance? p.last next = some p.hostStep)
    (hlocal : localDistance p.last next = p.localStep) :
    p.push? next = some { p with innerLen := p.innerLen + 1, others := next :: p.others } := by
  simp [push?, hamounts, hhost, stepInner?, hlevel, hlocal, stepUnit?, stepCluster, noteShifts]

theorem push?_unit (hlevel : p.level ≠ .cluster)
    (hamounts : amounts? p.first next = some (0, unit)) (hne : unit ≠ 0)
    (hmoved : unit ≠ p.unitLast)
    (hsign : (unit - p.unitLast).sign = (p.unitShift.getD unit).sign)
    (hhost : hostDistance? p.last next = some p.hostStep) :
    p.push? next = some
      { p with
        level := .unit, unitLast := unit, unitLen := p.unitLen + 1
        unitShift := some (p.unitShift.getD unit), others := next :: p.others } := by
  cases hp : p.level with
  | cluster => exact absurd hp hlevel
  | inner | unit =>
    simp [push?, hamounts, hhost, stepInner?, hp, hne, stepUnit?, hmoved, hsign, stepCluster,
      noteShifts, ite_eq_none]

theorem push?_cluster (hamounts : amounts? p.first next = some (cluster, unit))
    (hne : cluster ≠ 0) (hmoved : cluster ≠ p.clusterLast)
    (hhost : hostDistance? p.last next = some p.hostStep) :
    p.push? next = some
      { p with
        level := .cluster, clusterLast := cluster, clusterLen := p.clusterLen + 1
        clusterShift := some (p.clusterShift.getD cluster), others := next :: p.others } := by
  cases hp : p.level with
  | inner | unit | cluster =>
    simp [push?, hamounts, hhost, stepInner?, hp, hne, stepUnit?, hmoved, stepCluster,
      noteShifts, ite_eq_none]

theorem push?_within_unit (hlevel : p.level = .unit)
    (hamounts : amounts? p.first next = some (0, p.unitLast)) (hshift : p.unitShift ≠ none)
    (hhost : hostDistance? p.last next = some p.hostStep) :
    p.push? next = some { p with others := next :: p.others } := by
  simp [push?, hamounts, hhost, stepInner?, hlevel, stepUnit?, stepCluster, noteShifts, hshift]

theorem push?_within_cluster (hlevel : p.level = .cluster)
    (hamounts : amounts? p.first next = some (p.clusterLast, unit)) (hne : p.clusterLast ≠ 0)
    (hshift : p.clusterShift ≠ none) (hhost : hostDistance? p.last next = some p.hostStep) :
    p.push? next = some { p with others := next :: p.others } := by
  simp [push?, hamounts, hhost, stepInner?, hlevel, stepUnit?, stepCluster, noteShifts, hshift, hne]

def fresh (first second : Transfer) (hostStep : Int) : Progression where
  first := first
  others := []
  hostStep := hostStep
  localStep := localDistance first second
  clusterLast := 0
  unitLast := 0
  level := .inner

/-- Two transfers start a progression as the second would carry on one of the first, unless both
masks have moved. -/
theorem start?_eq_push? {first second : Transfer} {hostStep : Int}
    (hamounts : amounts? first second = some (cluster, unit)) (hone : cluster = 0 ∨ unit = 0)
    (hhost : hostDistance? first second = some hostStep) :
    start? first second = (fresh first second hostStep).push? second := by
  by_cases hc : cluster = 0
  · subst hc
    by_cases hu : unit = 0
    · subst hu
      rw [push?_inner (p := fresh first second hostStep) rfl hamounts hhost rfl]
      simp [start?, hamounts, hhost, noteShifts, fresh]
    · rw [push?_unit (p := fresh first second hostStep) (by simp [fresh]) hamounts hu hu
        (by simp [fresh]) hhost]
      simp [start?, hamounts, hhost, noteShifts, fresh, hu]
  · obtain rfl : unit = 0 := hone.resolve_left hc
    rw [push?_cluster (p := fresh first second hostStep) hamounts hc hc hhost]
    simp [start?, hamounts, hhost, noteShifts, fresh, hc]

/-! ## What has been read of a loop -/

variable {l : TransferLoop} {c u i : Nat}

/-- The progression has read the transfers of a loop up to the one at the given counters. Counters
inside the outermost one that has advanced were seen to run to their ends. -/
structure HasRead (p : Progression) (l : TransferLoop) (c u i : Nat) : Prop where
  first : p.first = l.base
  last : p.last = l.transferAt c u i
  transfers : p.transfers = (List.range (l.number c u i + 1)).map l.nth
  hostStep : p.hostStep = l.hostStep.toInt
  localStep : p.localStep = if l.innerLen = 0 then 0 else l.localStep.toInt
  clusterLen : p.clusterLen = c
  unitLen : p.unitLen = if c = 0 then u else l.unitLen.toNat
  innerLen : p.innerLen = if c = 0 ∧ u = 0 then i else l.innerLen.toNat
  clusterShift : p.clusterShift = if c = 0 then none else some l.clusterShift.toInt
  unitShift : p.unitShift = if p.unitLen = 0 then none else some l.unitShift.toInt
  clusterLast : p.clusterLast = c * l.clusterShift.toInt
  unitLast : p.unitLast = p.unitLen * l.unitShift.toInt
  level : p.level = if c ≠ 0 then .cluster else if u ≠ 0 then .unit else .inner

theorem HasRead.transfers_push? {c' u' i' : Nat} {p' : Progression} (h : p.HasRead l c u i)
    (hrange : l.InRange c' u' i') (hnumber : l.number c' u' i' = l.number c u i + 1)
    (hpush : p.push? (l.transferAt c' u' i') = some p') :
    p'.transfers = (List.range (l.number c' u' i' + 1)).map l.nth := by
  rw [Progression.transfers_push? hpush, h.transfers, hnumber, List.range_succ (n := _ + 1),
    List.map_append, ← hnumber, List.map_singleton, hrange.nth_number]

theorem HasRead.distances (hl : l.Recoverable) (h : p.HasRead l c u i) (hrange : l.InRange c u i)
    {c' u' i' : Nat} (hrange' : l.InRange c' u' i')
    (hnumber : l.number c' u' i' = l.number c u i + 1) :
    amounts? p.first (l.transferAt c' u' i') =
        some (c' * l.clusterShift.toInt, u' * l.unitShift.toInt) ∧
      hostDistance? p.last (l.transferAt c' u' i') = some p.hostStep := by
  rw [h.first, h.last, h.hostStep]
  exact ⟨hl.amounts? hrange', hl.hostDistance? hrange hrange' hnumber⟩

theorem HasRead.push_within_cluster (hl : l.Recoverable) (h : p.HasRead l c u i) (hc : c ≠ 0)
    (hrange : l.InRange c u i) {u' i' : Nat} (hrange' : l.InRange c u' i')
    (hnumber : l.number c u' i' = l.number c u i + 1) :
    ∃ p', p.push? (l.transferAt c u' i') = some p' ∧ p'.HasRead l c u' i' := by
  obtain ⟨hamounts, hhost⟩ := h.distances hl hrange hrange' hnumber
  have hpush : p.push? (l.transferAt c u' i') = some _ :=
    push?_within_cluster (by simp [h.level, hc]) (by rw [hamounts, h.clusterLast])
      (by rw [h.clusterLast]; exact TransferLoop.rounds_amount_ne hl.cluster hc hrange.1)
      (by simp [h.clusterShift, hc]) hhost
  refine ⟨_, hpush, { h with
    last := rfl
    transfers := h.transfers_push? hrange' hnumber hpush
    unitLen := ?_
    innerLen := ?_
    level := ?_ }⟩
  · simp [h.unitLen, hc]
  · simp [h.innerLen, hc]
  · simp [h.level, hc]

theorem HasRead.push_inner (hl : l.Recoverable) (h : p.HasRead l c u i) (hrange : l.InRange c u i)
    (hi : i < l.innerLen.toNat) :
    ∃ p', p.push? (l.transferAt c u (i + 1)) = some p' ∧ p'.HasRead l c u (i + 1) := by
  have hrange' : l.InRange c u (i + 1) := ⟨hrange.1, hrange.2.1, hi⟩
  have hnumber : l.number c u (i + 1) = l.number c u i + 1 := TransferLoop.number_succ_inner
  by_cases hc : c = 0
  · obtain ⟨hamounts, hhost⟩ := h.distances hl hrange hrange' hnumber
    subst hc
    rw [Nat.cast_zero, Int.zero_mul] at hamounts
    by_cases hu : u = 0
    · subst hu
      rw [Nat.cast_zero, Int.zero_mul] at hamounts
      have hne : l.innerLen ≠ 0 := by
        rintro hzero
        simp [hzero] at hi
      have hpush : p.push? (l.transferAt 0 0 (i + 1)) = some _ :=
        push?_inner (by simp [h.level]) hamounts hhost
          (by rw [h.last, hl.localDistance hi, h.localStep, if_neg hne])
      refine ⟨_, hpush, { h with
        last := rfl
        transfers := h.transfers_push? hrange' hnumber hpush
        innerLen := ?_ }⟩
      simp [h.innerLen]
    · have hpush : p.push? (l.transferAt 0 u (i + 1)) = some _ :=
        push?_within_unit (by simp [h.level, hu]) (by rw [hamounts, h.unitLast, h.unitLen]; simp)
          (by simp [h.unitShift, h.unitLen, hu]) hhost
      refine ⟨_, hpush, { h with
        last := rfl
        transfers := h.transfers_push? hrange' hnumber hpush
        innerLen := ?_ }⟩
      simp [h.innerLen, hu]
  · exact h.push_within_cluster hl hc hrange hrange' hnumber

theorem HasRead.push_unit (hl : l.Recoverable) (h : p.HasRead l c u l.innerLen.toNat)
    (hrange : l.InRange c u l.innerLen.toNat) (hu : u < l.unitLen.toNat) :
    ∃ p', p.push? (l.transferAt c (u + 1) 0) = some p' ∧ p'.HasRead l c (u + 1) 0 := by
  have hrange' : l.InRange c (u + 1) 0 := ⟨hrange.1, hu, Nat.zero_le _⟩
  have hnumber : l.number c (u + 1) 0 = l.number c u l.innerLen.toNat + 1 :=
    TransferLoop.number_succ_unit
  by_cases hc : c = 0
  · obtain ⟨hamounts, hhost⟩ := h.distances hl hrange hrange' hnumber
    subst hc
    rw [Nat.cast_zero, Int.zero_mul] at hamounts
    have hstep := TransferLoop.toInt_step_ne hl.unit (Nat.zero_lt_of_lt hu)
    have hlen : p.unitLen = u := by simp [h.unitLen]
    have hshift : p.unitShift.getD ((u + 1 : Nat) * l.unitShift.toInt) = l.unitShift.toInt := by
      by_cases hzero : u = 0
      · simp [h.unitShift, hlen, hzero]
      · simp [h.unitShift, hlen, hzero]
    have hmoved : (u + 1 : Nat) * l.unitShift.toInt - p.unitLast = l.unitShift.toInt := by
      rw [h.unitLast, hlen]
      push_cast
      ring
    have hlevel : p.level ≠ .cluster := by
      rw [h.level, if_neg (by simp)]
      split <;> simp
    have hpush : p.push? (l.transferAt 0 (u + 1) 0) = some _ :=
      push?_unit hlevel hamounts (TransferLoop.rounds_amount_ne hl.unit u.succ_ne_zero hu)
        (sub_ne_zero.mp (by rw [hmoved]; exact hstep)) (by rw [hmoved, hshift]) hhost
    refine ⟨_, hpush, { h with
      last := rfl
      transfers := h.transfers_push? hrange' hnumber hpush
      unitLen := ?_
      innerLen := ?_
      unitShift := ?_
      unitLast := ?_
      level := ?_ }⟩
    · simp [hlen]
    · simp [h.innerLen]
    · simpa using hshift
    · simp [hlen]
    · simp
  · exact h.push_within_cluster hl hc hrange hrange' hnumber

theorem HasRead.push_cluster (hl : l.Recoverable)
    (h : p.HasRead l c l.unitLen.toNat l.innerLen.toNat)
    (hrange : l.InRange c l.unitLen.toNat l.innerLen.toNat) (hc : c < l.clusterLen.toNat) :
    ∃ p', p.push? (l.transferAt (c + 1) 0 0) = some p' ∧ p'.HasRead l (c + 1) 0 0 := by
  have hrange' : l.InRange (c + 1) 0 0 := ⟨hc, Nat.zero_le _, Nat.zero_le _⟩
  have hnumber : l.number (c + 1) 0 0 = l.number c l.unitLen.toNat l.innerLen.toNat + 1 :=
    TransferLoop.number_succ_cluster
  obtain ⟨hamounts, hhost⟩ := h.distances hl hrange hrange' hnumber
  have hshift :
      p.clusterShift.getD ((c + 1 : Nat) * l.clusterShift.toInt) = l.clusterShift.toInt := by
    by_cases hzero : c = 0
    · simp [h.clusterShift, hzero]
    · simp [h.clusterShift, hzero]
  have hmoved : (c + 1 : Nat) * l.clusterShift.toInt - p.clusterLast = l.clusterShift.toInt := by
    rw [h.clusterLast]
    push_cast
    ring
  have hstep := TransferLoop.toInt_step_ne hl.cluster (Nat.zero_lt_of_lt hc)
  have hpush : p.push? (l.transferAt (c + 1) 0 0) = some _ :=
    push?_cluster hamounts (TransferLoop.rounds_amount_ne hl.cluster c.succ_ne_zero hc)
      (sub_ne_zero.mp (by rw [hmoved]; exact hstep)) hhost
  refine ⟨_, hpush, { h with
    last := rfl
    transfers := h.transfers_push? hrange' hnumber hpush
    clusterLen := ?_
    unitLen := ?_
    innerLen := ?_
    clusterShift := ?_
    clusterLast := rfl
    level := ?_ }⟩
  · simp [h.clusterLen]
  · simp [h.unitLen]
  · simp [h.innerLen]
  · simpa using hshift
  · simp

/-- A step reads on to the next transfer, or the whole loop has been read. -/
theorem HasRead.advance (hl : l.Recoverable) (h : p.HasRead l c u i) (hrange : l.InRange c u i) :
    (c = l.clusterLen.toNat ∧ u = l.unitLen.toNat ∧ i = l.innerLen.toNat) ∨
    ∃ c' u' i', l.InRange c' u' i' ∧ l.number c' u' i' = l.number c u i + 1 ∧
      ∃ p', p.push? (l.transferAt c' u' i') = some p' ∧ p'.HasRead l c' u' i' := by
  obtain ⟨hc, hu, hi⟩ := id hrange
  obtain hi' | rfl := Nat.lt_or_eq_of_le hi
  · exact .inr ⟨c, u, i + 1, ⟨hc, hu, hi'⟩, TransferLoop.number_succ_inner,
      h.push_inner hl hrange hi'⟩
  obtain hu' | rfl := Nat.lt_or_eq_of_le hu
  · exact .inr ⟨c, u + 1, 0, ⟨hc, hu', Nat.zero_le _⟩, TransferLoop.number_succ_unit,
      h.push_unit hl hrange hu'⟩
  obtain hc' | rfl := Nat.lt_or_eq_of_le hc
  · exact .inr ⟨c + 1, 0, 0, ⟨hc', Nat.zero_le _, Nat.zero_le _⟩,
      TransferLoop.number_succ_cluster, h.push_cluster hl hrange hc'⟩
  · exact .inl ⟨rfl, rfl, rfl⟩

theorem localDistance_nth_one (hl : l.Recoverable) :
    localDistance l.base (l.nth 1) = if l.innerLen = 0 then 0 else l.localStep.toInt := by
  by_cases hzero : l.innerLen = 0
  · simp [localDistance, TransferLoop.nth, TransferLoop.transferAt, TransferLoop.innerRounds, hzero]
  · have hlen : 1 ≤ l.innerLen.toNat := by
      apply Nat.one_le_iff_ne_zero.mpr
      intro h
      exact hzero (UInt8.toNat_inj.mp h)
    have hrange : l.InRange 0 0 1 := ⟨Nat.zero_le _, Nat.zero_le _, hlen⟩
    have hnth : l.nth 1 = l.transferAt 0 0 1 := by
      simpa [TransferLoop.number] using hrange.nth_number
    rw [if_neg hzero, hnth, ← l.transferAt_zero]
    exact hl.localDistance hlen

theorem hasRead_fresh (hl : l.Recoverable) :
    (fresh l.base (l.nth 1) l.hostStep.toInt).HasRead l 0 0 0 where
  first := rfl
  last := l.transferAt_zero.symm
  transfers := by simp [fresh, transfers, TransferLoop.nth]
  hostStep := rfl
  localStep := localDistance_nth_one hl
  clusterLen := rfl
  unitLen := rfl
  innerLen := rfl
  clusterShift := rfl
  unitShift := rfl
  clusterLast := by simp [fresh]
  unitLast := by simp [fresh]
  level := rfl

theorem loop?_eq_some (hfits : TransferLoop.localStepFits l.localStep.toInt)
    (hfirst : p.first = l.base) (hlength : p.length = l.count.toNat)
    (hclusterLen : p.clusterLen = l.clusterLen.toNat) (hunitLen : p.unitLen = l.unitLen.toNat)
    (hinnerLen : p.innerLen = l.innerLen.toNat)
    (hcluster : p.clusterShift.getD 0 = l.clusterShift.toInt)
    (hunit : p.unitShift.getD 0 = l.unitShift.toInt)
    (hlocal : (if p.innerLen = 0 then 0 else p.localStep) = l.localStep.toInt)
    (hhost : p.hostStep = l.hostStep.toInt) : p.loop? = some l := by
  have hlens : l.clusterLen.toNat < 256 ∧ l.unitLen.toNat < 256 ∧ l.innerLen.toNat < 256 ∧
      l.count.toNat < 65536 :=
    ⟨l.clusterLen.toNat_lt, l.unitLen.toNat_lt, l.innerLen.toNat_lt, l.count.toNat_lt⟩
  have hsteps : -0x80000000 ≤ l.hostStep.toInt ∧ l.hostStep.toInt < 0x80000000 :=
    ⟨l.hostStep.le_toInt, l.hostStep.toInt_lt⟩
  have hshifts : -128 ≤ l.clusterShift.toInt ∧ l.clusterShift.toInt < 128 ∧
      -128 ≤ l.unitShift.toInt ∧ l.unitShift.toInt < 128 :=
    ⟨l.clusterShift.le_toInt, l.clusterShift.toInt_lt, l.unitShift.le_toInt, l.unitShift.toInt_lt⟩
  rw [loop?, hlocal, hcluster, hunit, hclusterLen, hunitLen, hinnerLen, hlength, hhost, hfirst]
  simp [hfits, hlens, hsteps, hshifts]

/-- The loop that was read, without the steps of counters that are not used. -/
theorem HasRead.loop? (hl : l.Recoverable)
    (h : p.HasRead l l.clusterLen.toNat l.unitLen.toNat l.innerLen.toNat) :
    p.loop? = some l.normal := by
  have hunitLen : p.unitLen = l.unitLen.toNat := by simp [h.unitLen]
  have hinnerLen : p.innerLen = l.innerLen.toNat := by simp [h.innerLen]
  apply loop?_eq_some
  case hfits =>
    rw [TransferLoop.normal]
    dsimp only
    split
    · decide
    · rename_i hne
      exact hl.localStep hne
  case hlength =>
    rw [← length_transfers, h.transfers, TransferLoop.number_last, ← hl.count, List.length_map,
      List.length_range]
    rfl
  case hcluster =>
    rw [h.clusterShift, TransferLoop.normal]
    simp only [toNat_eq_zero_iff]
    split <;> rfl
  case hunit =>
    rw [h.unitShift, hunitLen, TransferLoop.normal]
    simp only [toNat_eq_zero_iff]
    split <;> rfl
  case hlocal =>
    rw [hinnerLen, h.localStep, TransferLoop.normal]
    simp only [toNat_eq_zero_iff]
    split <;> rfl
  case hfirst => exact h.first
  case hclusterLen => exact h.clusterLen
  case hunitLen => exact hunitLen
  case hinnerLen => exact hinnerLen
  case hhost => exact h.hostStep

theorem HasRead.finish (hl : l.Recoverable)
    (h : p.HasRead l l.clusterLen.toNat l.unitLen.toNat l.innerLen.toNat) {minLen : Nat}
    (hmin : minLen ≤ l.rounds) : p.finish minLen = [.loop l.normal] := by
  have htransfers : p.transfers = l.expand := by
    rw [h.transfers, TransferLoop.number_last, hl.expand]
  have hlength : p.length = l.rounds := by
    rw [← length_transfers, htransfers, hl.expand, List.length_map, List.length_range]
  rw [Progression.finish, h.loop? hl]
  simp [hlength, hmin, TransferLoop.expand_normal, htransfers]

end Progression

section Rolling

variable {minLen : Nat} {t next : Transfer} {rest : List Transfer} {p p' : Progression}

theorem rollFrom_of_start? (h : Progression.start? t next = some p) :
    rollFrom minLen (.single t) (next :: rest) = rollFrom minLen (.progression p) rest := by
  conv_lhs => unfold rollFrom
  simp only [h]

theorem rollFrom_of_push? (h : p.push? next = some p') :
    rollFrom minLen (.progression p) (next :: rest) = rollFrom minLen (.progression p') rest := by
  conv_lhs => unfold rollFrom
  simp only [h]

end Rolling

theorem rollFrom_progression {l : TransferLoop} (hl : l.Recoverable) {minLen : Nat}
    (hmin : minLen ≤ l.rounds) {p : Progression} {c u i : Nat} (h : p.HasRead l c u i)
    (hrange : l.InRange c u i) (n : Nat) (hn : l.number c u i + 1 + n = l.rounds) :
    rollFrom minLen (.progression p) ((List.range' (l.number c u i + 1) n).map l.nth) =
      [.loop l.normal] := by
  induction n generalizing p c u i with
  | zero =>
    obtain ⟨rfl, rfl, rfl⟩ | ⟨_, _, _, hrange', hnumber, -⟩ := h.advance hl hrange
    · exact h.finish hl hmin
    · have := TransferLoop.number_lt_rounds hrange'
      omega
  | succ n ih =>
    obtain ⟨rfl, rfl, rfl⟩ | ⟨c', u', i', hrange', hnumber, p', hpush, h'⟩ := h.advance hl hrange
    · have := l.number_last
      omega
    · rw [List.range'_succ, List.map_cons, ← hnumber, hrange'.nth_number, rollFrom_of_push? hpush]
      exact ih h' hrange' (by omega)

theorem rollRun_expand {l : TransferLoop} (hl : l.Recoverable) {minLen : Nat}
    (hmin : minLen ≤ l.rounds) (htwo : 2 ≤ l.rounds) :
    rollRun minLen l.expand = [.loop l.normal] := by
  obtain ⟨n, hn⟩ := Nat.exists_eq_add_of_le htwo
  have hbase : l.nth 0 = l.base := by simp [TransferLoop.nth]
  have hexpand : l.expand = l.base :: l.nth 1 :: (List.range' 2 n).map l.nth := by
    rw [hl.expand, hn, List.range_eq_range', Nat.add_comm, List.range'_succ, List.range'_succ,
      List.map_cons, List.map_cons, hbase]
  have hrange : l.InRange 0 0 0 := ⟨Nat.zero_le _, Nat.zero_le _, Nat.zero_le _⟩
  have hzero := l.number_zero
  obtain ⟨hc, hu, hi⟩ | ⟨c, u, i, hrange', hnumber, p, hpush, h⟩ :=
    (Progression.hasRead_fresh hl).advance hl hrange
  · have := l.number_last
    rw [← hc, ← hu, ← hi] at this
    omega
  · have hnth := hrange'.nth_number
    rw [hnumber, hzero] at hnth
    obtain ⟨hamounts, hhost⟩ := (Progression.hasRead_fresh hl).distances hl hrange hrange' hnumber
    have hone : c * l.clusterShift.toInt = 0 ∨ u * l.unitShift.toInt = 0 := by
      obtain rfl | rfl := TransferLoop.eq_zero_of_number_eq_one (hnumber.trans (by rw [hzero]))
      · simp
      · simp
    rw [← hnth] at hpush hamounts hhost
    have hstart : Progression.start? l.base (l.nth 1) = some p :=
      (Progression.start?_eq_push? hamounts hone hhost).trans hpush
    rw [hexpand, rollRun, rollFrom_of_start? hstart]
    have := rollFrom_progression hl hmin h hrange' n (by omega)
    rw [hnumber, hzero] at this
    exact this

/-! ## The whole pass -/

theorem fitsCounters_map_transfer {transfers : List Transfer} (h : transfers.length < 2 ^ 16) :
    FitsCounters (transfers.map .transfer) :=
  fitsCounters_of_length (by simp) (by rw [List.length_map]; omega)

theorem sameShape_nth (l : TransferLoop) (j k : Nat) : (l.nth j).sameShape (l.nth k) = true := by
  simp [Transfer.sameShape, TransferLoop.nth, TransferLoop.transferAt]

/-- Rolling the transfers of a loop gives the loop back, in its normal form. -/
theorem rollLoops_expand {l : TransferLoop} (hl : l.Recoverable) {minLen : Nat}
    (hmin : max minLen 2 ≤ l.count.toNat) :
    rollLoops (l.expand.map .transfer) minLen = .ok [.loop l.normal] := by
  rw [hl.count] at hmin
  have htwo : 2 ≤ l.rounds := (le_max_right _ _).trans hmin
  have hne : l.expand ≠ [] := by
    rw [hl.expand, Ne, List.map_eq_nil_iff, List.range_eq_nil]
    omega
  have hchain : l.expand.IsChain (Transfer.sameShape · · = true) := by
    rw [hl.expand, List.isChain_map]
    apply List.Pairwise.isChain
    exact List.pairwise_of_forall fun j k => sameShape_nth l j k
  have hlength : l.expand.length < 2 ^ 16 := by
    rw [hl.expand, List.length_map, List.length_range, ← hl.count]
    exact l.count.toNat_lt
  have hsettled : Settled (l.expand.map .transfer) := by
    refine ⟨fitsCounters_map_transfer hlength, ?_⟩
    rw [← List.append_nil (l.expand.map _), upToDate_append_of_no_block (by simp [Segment.isBlock])]
    trivial
  obtain ⟨out, hout, -⟩ := hsettled.exists_rollLoops minLen
  rw [hout, rollLoops_eq_ok hout, mapRuns_of_isChain _ hne hchain, rollRun_expand hl hmin htwo]
  rfl

/-- Clusters 2 and 3, then 0 and 1; for both, three pairs of units upwards, with two rows each. -/
def pairwiseSweep : TransferLoop where
  clusterLen := 1
  clusterShift := -2
  unitLen := 2
  unitShift := 3
  innerLen := 1
  localStep := -8
  hostStep := -64
  count := 12
  base := .row .load1d 0b1100 0b101 0x1000 8 4

theorem rollLoops_expand_pairwiseSweep :
    pairwiseSweep.Recoverable ∧ max 4 2 ≤ pairwiseSweep.count.toNat ∧
      rollLoops (pairwiseSweep.expand.map .transfer) 4 = .ok [.loop pairwiseSweep] := by
  have hcluster : TransferLoop.Moves pairwiseSweep.base.cluster pairwiseSweep.clusterLen
      pairwiseSweep.clusterShift := ⟨by decide, by decide, by decide⟩
  have hunit : TransferLoop.Moves pairwiseSweep.base.unit pairwiseSweep.unitLen
      pairwiseSweep.unitShift := ⟨by decide, by decide, by decide⟩
  have hl : pairwiseSweep.Recoverable :=
    ⟨by decide, fun _ => hcluster, fun _ => hunit, by decide, by decide, by decide⟩
  exact ⟨hl, by decide, rollLoops_expand hl (by decide)⟩

end CommandStream
