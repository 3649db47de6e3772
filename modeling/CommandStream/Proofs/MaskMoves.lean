import Mathlib
import CommandStream.Word.Mask

/-! # Moved masks

Moving a mask moves each of its engines. As long as no engine is lost, moves add up, and the amount
of a move can be read off the lowest engines. The amount is looked for by moving the second mask
back, so a mask that loses its upper engines on the way back passes for a moved copy.
-/

namespace CommandStream

namespace Mask

variable {m : Mask} {amount : Int}

/-- No engine is lost when the mask is moved by the amount. -/
def Keeps (m : Mask) (amount : Int) : Prop :=
  ∀ e : Nat, m.toNat.testBit e = true → 0 ≤ e + amount ∧ e + amount < 32

theorem lt_of_testBit {e : Nat} (h : m.toNat.testBit e = true) : e < 32 := by
  by_contra hle
  have hpow : 2 ^ 32 ≤ 2 ^ e := Nat.pow_le_pow_right (by decide) (by omega)
  rw [Nat.testBit_lt_two_pow (m.toNat_lt.trans_le hpow)] at h
  cases h

instance : Decidable (m.Keeps amount) :=
  decidable_of_iff
    (∀ e < 32, m.toNat.testBit e = true → 0 ≤ (e : Int) + amount ∧ (e : Int) + amount < 32)
    ⟨fun h e he => h e (lt_of_testBit he) he, fun h e _ => h e⟩

theorem eq_of_testBit {a b : Mask}
    (h : ∀ e : Nat, a.toNat.testBit e = true ↔ b.toNat.testBit e = true) : a = b := by
  apply UInt32.toNat_inj.mp
  apply Nat.eq_of_testBit_eq
  intro e
  rw [Bool.eq_iff_iff]
  exact h e

theorem testBit_move (m : Mask) (amount : Int) (e : Nat) :
    (m.move amount).toNat.testBit e = true ↔
      e < 32 ∧ ∃ d : Nat, m.toNat.testBit d = true ∧ (d : Int) + amount = e := by
  unfold move
  split
  · rename_i h
    rw [UInt32.toNat_ofNat', Nat.testBit_mod_two_pow, Nat.testBit_shiftLeft]
    simp only [Bool.and_eq_true, decide_eq_true_eq, and_congr_right_iff]
    intro _
    constructor
    · rintro ⟨hle, hbit⟩
      exact ⟨e - amount.toNat, hbit, by omega⟩
    · rintro ⟨d, hbit, hd⟩
      have : d = e - amount.toNat := by omega
      exact ⟨by omega, this ▸ hbit⟩
  · rename_i h
    have hlt : m.toNat >>> amount.natAbs < UInt32.size :=
      (Nat.shiftRight_le _ _).trans_lt m.toNat_lt
    rw [UInt32.toNat_ofNat_of_lt' hlt, Nat.testBit_shiftRight]
    constructor
    · intro hbit
      have hlt := lt_of_testBit hbit
      exact ⟨by omega, _, hbit, by omega⟩
    · rintro ⟨-, d, hbit, hd⟩
      have : amount.natAbs + e = d := by omega
      exact this ▸ hbit

@[simp] theorem move_zero (m : Mask) : m.move 0 = m := by
  apply eq_of_testBit
  intro e
  rw [testBit_move]
  constructor
  · rintro ⟨-, d, hbit, hd⟩
    have : d = e := by omega
    exact this ▸ hbit
  · intro hbit
    exact ⟨lt_of_testBit hbit, e, hbit, by omega⟩

/-- Moves add up if the first one loses nothing. -/
theorem move_move (h : m.Keeps amount) (more : Int) :
    (m.move amount).move more = m.move (amount + more) := by
  apply eq_of_testBit
  intro e
  simp only [testBit_move]
  constructor
  · rintro ⟨he, d, ⟨-, d', hbit, hd'⟩, hd⟩
    exact ⟨he, d', hbit, by omega⟩
  · rintro ⟨he, d, hbit, hd⟩
    obtain ⟨hlow, hhigh⟩ := h d hbit
    exact ⟨he, (d + amount).toNat, ⟨by omega, d, hbit, by omega⟩, by omega⟩

theorem iterate_shift {step : Int8} {n : Nat} (h : ∀ k < n, m.Keeps (k * step.toInt)) :
    (Mask.shift · step)^[n] m = m.move (n * step.toInt) := by
  induction n with
  | zero => simp
  | succ n ih =>
    rw [Function.iterate_succ_apply', ih fun k hk => h k (by omega), shift,
      move_move (h n (Nat.lt_succ_self n))]
    congr 1
    push_cast
    ring

/-! ## The lowest engine -/

theorem lowestBit_le {n x e : Nat} (h : x.testBit e = true) (he : e < n) : lowestBit n x ≤ e := by
  induction n generalizing x e with
  | zero => omega
  | succ n ih =>
    rw [lowestBit]
    split
    · exact Nat.zero_le e
    · rename_i hx
      cases e with
      | zero => simp [Nat.testBit_zero] at h; omega
      | succ e =>
        rw [Nat.testBit_succ] at h
        exact Nat.succ_le_succ (ih h (by omega))

theorem testBit_lowestBit {n x : Nat} (h : lowestBit n x < n) :
    x.testBit (lowestBit n x) = true := by
  induction n generalizing x with
  | zero => cases h
  | succ n ih =>
    rw [lowestBit] at h ⊢
    split at h
    · rename_i hx
      simp [hx]
    · rename_i hx
      rw [if_neg hx, Nat.testBit_succ]
      exact ih (by omega)

theorem lowest_spec (h : m ≠ 0) :
    m.toNat.testBit m.lowest = true ∧ ∀ e : Nat, m.toNat.testBit e = true → m.lowest ≤ e := by
  have hle (e : Nat) (he : m.toNat.testBit e = true) : m.lowest ≤ e :=
    lowestBit_le he (lt_of_testBit he)
  have hne : m.toNat ≠ 0 := fun hzero => h (UInt32.toNat_inj.mp hzero)
  obtain ⟨e, he⟩ := Nat.exists_testBit_of_ne_zero hne
  exact ⟨testBit_lowestBit ((hle e he).trans_lt (lt_of_testBit he)), hle⟩

theorem lowest_move (h : m ≠ 0) (hkeeps : m.Keeps amount) :
    ((m.move amount).lowest : Int) = m.lowest + amount := by
  obtain ⟨hbit, hle⟩ := lowest_spec h
  obtain ⟨hlow, hhigh⟩ := hkeeps _ hbit
  have hmoved : (m.move amount).toNat.testBit (m.lowest + amount).toNat = true :=
    (testBit_move m amount _).mpr ⟨by omega, m.lowest, hbit, by omega⟩
  have hne : m.move amount ≠ 0 := by
    intro hzero
    rw [hzero] at hmoved
    simp at hmoved
  obtain ⟨hbit', hle'⟩ := lowest_spec hne
  obtain ⟨-, d, hd, hsum⟩ := (testBit_move m amount _).mp hbit'
  have := hle d hd
  have := hle' _ hmoved
  omega

theorem shiftTo?_self (m : Mask) : shiftTo? m m = some 0 := by
  simp [shiftTo?]

theorem shiftTo?_move (h : m ≠ 0) (hkeeps : m.Keeps amount) :
    shiftTo? m (m.move amount) = some amount := by
  have hamount : ((m.move amount).lowest : Int) - m.lowest = amount := by
    rw [lowest_move h hkeeps]
    ring
  have hback : (m.move amount).move (-amount) = m := by
    rw [move_move hkeeps, Int.add_right_neg, move_zero]
  rw [shiftTo?, hamount, hback]
  exact if_pos rfl

/-! ## Detected amounts -/

section Detection

variable {base other : Mask}

theorem lowestBit_le_bits (n x : Nat) : lowestBit n x ≤ n := by
  induction n generalizing x with
  | zero => exact le_rfl
  | succ n ih =>
    rw [lowestBit]
    split
    · exact Nat.zero_le _
    · exact Nat.succ_le_succ (ih _)

theorem shiftTo?_eq_some_iff :
    shiftTo? base other = some amount ↔
      (other.lowest : Int) - base.lowest = amount ∧ other.move (-amount) = base := by
  rw [shiftTo?, Option.ite_none_right_eq_some, Option.some_inj]
  constructor
  · rintro ⟨hback, rfl⟩
    exact ⟨rfl, hback⟩
  · rintro ⟨rfl, hback⟩
    exact ⟨hback, rfl⟩

/-- The detected amount is that of a move exactly if the way back loses nothing. -/
theorem move_eq_iff_keeps (h : shiftTo? base other = some amount) :
    base.move amount = other ↔ other.Keeps (-amount) := by
  obtain ⟨-, hback⟩ := shiftTo?_eq_some_iff.mp h
  constructor
  · rintro hmove e he
    rw [← hmove, testBit_move] at he
    obtain ⟨-, d, hd, hsum⟩ := he
    have := lt_of_testBit hd
    omega
  · intro hkeeps
    rw [← hback, move_move hkeeps, Int.add_left_neg, move_zero]

/-- On the way back engines can be lost only at the upper end: the lowest one of `other` arrives at
the lowest one of `base`. -/
theorem keeps_neg_iff (h : shiftTo? base other = some amount) :
    other.Keeps (-amount) ↔ 0 ≤ amount ∨ other.toNat < 2 ^ (32 + amount).toNat := by
  obtain ⟨hamount, -⟩ := shiftTo?_eq_some_iff.mp h
  have hbase : base.lowest ≤ 32 := lowestBit_le_bits 32 _
  constructor
  · intro hkeeps
    refine or_iff_not_imp_left.mpr fun hneg => Nat.lt_pow_two_of_testBit _ fun e he => ?_
    by_contra hbit
    rw [Bool.not_eq_false] at hbit
    have := hkeeps e hbit
    omega
  · intro hsmall e he
    have hlow : other.lowest ≤ e := lowestBit_le he (lt_of_testBit he)
    have hlt := lt_of_testBit he
    refine ⟨by omega, ?_⟩
    rcases hsmall with hnonneg | hsmall
    · omega
    · have hexp := (Nat.pow_lt_pow_iff_right (by decide)).mp
        ((Nat.ge_two_pow_of_testBit he).trans_lt hsmall)
      omega

theorem exists_step_of_shiftTo? (h : shiftTo? base other = some amount) :
    ∃ step : Int8, step.toInt = amount := by
  obtain ⟨hamount, -⟩ := shiftTo?_eq_some_iff.mp h
  have hbase : base.lowest ≤ 32 := lowestBit_le_bits 32 _
  have hother : other.lowest ≤ 32 := lowestBit_le_bits 32 _
  exact ⟨Int8.ofInt amount, Int8.toInt_ofInt_of_le (by simp; omega) (by simp; omega)⟩

/-- A detected amount fits a signed byte. It takes `base` to `other` exactly if it moves up or
`other` has no engine so high that moving back would lose it. Every amount that takes a mask to
another one without loss is detected. -/
theorem detected_shift_iff (base other : Mask) (amount : Int) :
    (shiftTo? base other = some amount → ∃ step : Int8, step.toInt = amount ∧
      (base.shift step = other ↔ 0 ≤ amount ∨ other.toNat < 2 ^ (32 + amount).toNat)) ∧
    (base ≠ 0 → other ≠ 0 → ∀ step : Int8, step.toInt = amount → base.Keeps amount →
      base.shift step = other → shiftTo? base other = some amount) := by
  constructor
  · intro h
    obtain ⟨step, hstep⟩ := exists_step_of_shiftTo? h
    refine ⟨step, hstep, ?_⟩
    rw [shift, hstep, move_eq_iff_keeps h, keeps_neg_iff h]
  · rintro hbase - step rfl hkeeps rfl
    exact shiftTo?_move hbase hkeeps

theorem detected_shift_to_topEngines :
    (6 : Mask).Keeps 29 ∧ (6 : Mask).shift 29 = 0xC0000000 ∧
      shiftTo? 6 0xC0000000 = some 29 ∧
      ∃ step : Int8, step.toInt = 29 ∧ (6 : Mask).shift step = 0xC0000000 := by
  have hshift : (6 : Mask).shift 29 = 0xC0000000 := by decide
  have hkeeps : (6 : Mask).Keeps 29 := by decide
  have hfound : shiftTo? 6 0xC0000000 = some 29 :=
    (detected_shift_iff 6 0xC0000000 29).2 (by decide) (by decide) 29 rfl hkeeps hshift
  obtain ⟨step, hstep, hiff⟩ := (detected_shift_iff 6 0xC0000000 29).1 hfound
  exact ⟨hkeeps, hshift, hfound, step, hstep, hiff.mpr (.inl (by decide))⟩

/-- Engine 31 is lost on the way back, and what is left is `base`. An empty mask is found to be
moved to any other one. -/
theorem detected_shift_misses :
    (shiftTo? 2 0x80000001 = some (-1) ∧ (2 : Mask).shift (-1) ≠ 0x80000001) ∧
      (shiftTo? 0 1 = some (-32) ∧ (0 : Mask).shift (-32) ≠ 1) := by
  decide

end Detection

end Mask

end CommandStream
