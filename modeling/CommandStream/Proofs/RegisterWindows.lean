import CommandStream.Proofs.Plans

/-! # Windows of the register file

Below the discard register lie the kernels of all parallel outputs, then their biases, then the
clipping constant. The registers of one kernel are counted in an unsigned word and read as a signed
one before anything is checked. So the windows lie where they should exactly if a kernel takes fewer
than 2^31 registers, or if there are no parallel outputs.
-/

namespace CommandStream

namespace Checked

theorem fitsSigned_iff {n : Int} : fitsSigned n = true ↔ -2 ^ 31 ≤ n ∧ n < 2 ^ 31 := by
  simp [fitsSigned]

theorem subSigned_eq_ok_iff {a b n : Int} :
    subSigned a b = .ok n ↔ a - b = n ∧ -2 ^ 31 ≤ n ∧ n < 2 ^ 31 := by
  unfold subSigned
  simp only [fitsSigned_iff]
  grind

theorem mulSigned_eq_ok_iff {a b n : Int} :
    mulSigned a b = .ok n ↔ a * b = n ∧ -2 ^ 31 ≤ n ∧ n < 2 ^ 31 := by
  unfold mulSigned
  simp only [fitsSigned_iff]
  grind

end Checked

theorem toInt_toInt32_ofNat {n : Nat} (h : n < 2 ^ 32) :
    (UInt32.ofNat n).toInt32.toInt = if n < 2 ^ 31 then (n : Int) else n - 2 ^ 32 := by
  have hn : (UInt32.ofNat n).toBitVec.toNat = n := UInt32.toNat_ofNat_of_lt' h
  change (UInt32.ofNat n).toBitVec.toInt = _
  rw [BitVec.toInt_eq_toNat_cond, hn]
  split <;> split <;> omega

/-! ## The size of a kernel -/

namespace LayerParams

def kernelColumns (p : LayerParams) : Nat :=
  (if p.kind.kernelSpansChannels then p.inChannels else p.kernelLength).toNat

def kernelArea (p : LayerParams) : Nat := p.kernelColumns * p.kernelLength.toNat

theorem kernelArea_lt (p : LayerParams) : p.kernelArea < 2 ^ 32 := by
  have hcolumns : p.kernelColumns < 2 ^ 16 := UInt16.toNat_lt _
  have hrows : p.kernelLength.toNat < 2 ^ 16 := UInt16.toNat_lt _
  rw [kernelArea, show 2 ^ 32 = 2 ^ 16 * 2 ^ 16 from rfl]
  exact Nat.mul_lt_mul'' hcolumns hrows

end LayerParams

/-! ## Windows -/

namespace RegisterLayout

variable {p : LayerParams} {discard : Int} {l : RegisterLayout}

def kernelWindow (l : RegisterLayout) (p : LayerParams) : Set Int :=
  Set.Ico l.kernelBase (l.kernelBase + l.kernelX * l.kernelY * p.parallelOut.toNat)

def biasWindow (l : RegisterLayout) (p : LayerParams) : Set Int :=
  Set.Ico l.biasBase (l.biasBase + p.parallelOut.toNat)

/-- Each base lies below the one before it by what its window takes. -/
structure Stacked (l : RegisterLayout) (p : LayerParams) (discard : Int) : Prop where
  kernelBase : l.kernelBase = discard - l.kernelX * l.kernelY * p.parallelOut.toNat
  biasBase : l.biasBase = l.kernelBase - p.parallelOut.toNat
  relu6Base : l.relu6Base = l.biasBase - 1

/-- No two of the windows share a register, and all of them lie below the discard register. -/
structure Separate (l : RegisterLayout) (p : LayerParams) (discard : Int) : Prop where
  kernel_bias : Disjoint (l.kernelWindow p) (l.biasWindow p)
  relu6_kernel : l.relu6Base ∉ l.kernelWindow p
  relu6_bias : l.relu6Base ∉ l.biasWindow p
  kernel_lt : ∀ register ∈ l.kernelWindow p, register < discard
  bias_lt : ∀ register ∈ l.biasWindow p, register < discard
  relu6_lt : l.relu6Base < discard

theorem Stacked.separate (h : l.Stacked p discard) : l.Separate p discard := by
  obtain ⟨hkernel, hbias, hrelu6⟩ := h
  have hcount : (0 : Int) ≤ l.kernelX * l.kernelY * p.parallelOut.toNat := by positivity
  constructor
  case kernel_bias =>
    refine Set.disjoint_left.mpr fun register hk hb => ?_
    simp only [kernelWindow, biasWindow, Set.mem_Ico] at hk hb
    omega
  case relu6_lt => omega
  all_goals
    simp only [kernelWindow, biasWindow, Set.mem_Ico]
    omega

theorem windows_eq_ok (h : windows p discard = .ok l) :
    l.kernelX = p.kernelColumns ∧ l.kernelY = p.kernelLength.toNat ∧
      l.kernelBase = discard -
        (UInt32.ofNat p.kernelArea).toInt32.toInt * p.parallelOut.toNat ∧
      l.biasBase = l.kernelBase - p.parallelOut.toNat ∧ l.relu6Base = l.biasBase - 1 := by
  unfold windows at h
  simp only [bind_eq_ok_iff, pure_eq_ok_iff, Checked.mulSigned_eq_ok_iff,
    Checked.subSigned_eq_ok_iff] at h
  obtain ⟨_, ⟨rfl, -⟩, _, ⟨rfl, -⟩, _, ⟨rfl, -⟩, _, ⟨rfl, -⟩, rfl⟩ := h
  exact ⟨rfl, rfl, rfl, rfl, rfl⟩

theorem stacked_windows (h : windows p discard = .ok l)
    (hfits : p.kernelArea < 2 ^ 31 ∨ p.parallelOut = 0) : l.Stacked p discard := by
  obtain ⟨hx, hy, hkernel, hbias, hrelu6⟩ := windows_eq_ok h
  refine ⟨?_, hbias, hrelu6⟩
  rw [hkernel, hx, hy, ← Nat.cast_mul, ← LayerParams.kernelArea]
  rcases hfits with hlt | hnone
  · rw [toInt_toInt32_ofNat p.kernelArea_lt, if_pos hlt]
  · rw [hnone, UInt16.toNat_zero, Nat.cast_zero, mul_zero, mul_zero]

/-- Larger ones are taken as negative, so that their window starts above the discard register. -/
theorem kernelBase_windows (h : windows p discard = .ok l) (hlarge : 2 ^ 31 ≤ p.kernelArea) :
    l.kernelBase = discard + (2 ^ 32 - p.kernelArea) * p.parallelOut.toNat := by
  obtain ⟨-, -, hkernel, -⟩ := windows_eq_ok h
  rw [hkernel, toInt_toInt32_ofNat p.kernelArea_lt, if_neg (Nat.not_lt.mpr hlarge)]
  ring

theorem not_separate_windows (h : windows p discard = .ok l) (hlarge : 2 ^ 31 ≤ p.kernelArea)
    (houtputs : p.parallelOut ≠ 0) : ¬l.Separate p discard := by
  intro hseparate
  obtain ⟨hx, hy, -⟩ := windows_eq_ok h
  have hout : 0 < p.parallelOut.toNat := Nat.pos_of_ne_zero fun h0 =>
    houtputs (UInt16.toNat_inj.mp h0)
  have hcount : 0 < p.kernelArea * p.parallelOut.toNat := Nat.mul_pos (by omega) hout
  have hfirst : l.kernelBase ∈ l.kernelWindow p := by
    rw [kernelWindow, hx, hy, ← Nat.cast_mul, ← LayerParams.kernelArea, ← Nat.cast_mul]
    exact Set.left_mem_Ico.mpr (by omega)
  have hbelow := hseparate.kernel_lt _ hfirst
  have hnonneg : (0 : Int) ≤ (2 ^ 32 - p.kernelArea) * p.parallelOut.toNat := by
    have harea := p.kernelArea_lt
    exact mul_nonneg (by omega) (by omega)
  rw [kernelBase_windows h hlarge] at hbelow
  omega

end RegisterLayout

/-! ## Contexts -/

/-- Kinds of layers that keep kernels of all parallel outputs in the register file. -/
def LayerKind.keepsKernels : LayerKind → Bool
  | .conv1 | .conv2 | .conv2Transpose | .pointPillars | .maxPool2d => true
  | _ => false

theorem RegisterLayout.ofParams_eq_windows {p : LayerParams} (h : p.kind.keepsKernels = true)
    (discard : Int) : ofParams p discard = windows p discard := by
  unfold ofParams
  cases hkind : p.kind <;> first | rfl | (rw [hkind] at h; cases h)

theorem Context.windows_of_ofLayer {p : LayerParams} {hw : Hardware} {ctx : Context}
    (hkind : p.kind.keepsKernels = true) (hsize : hw.registerFileSize.toNat < 2 ^ 31)
    (h : Context.ofLayer p hw = .ok ctx) :
    RegisterLayout.windows p (hw.registerFileSize.toNat - 1) = .ok ctx.registers := by
  obtain ⟨discard, hdiscard, hregisters⟩ := (Context.ofLayer_eq_ok_iff.mp h).registers
  obtain ⟨rfl, -⟩ := Checked.subSigned_eq_ok_iff.mp hdiscard
  rw [RegisterLayout.ofParams_eq_windows hkind] at hregisters
  have hread : hw.registerFileSize.toInt32.toInt = hw.registerFileSize.toNat := by
    have h := toInt_toInt32_ofNat hw.registerFileSize.toNat_lt
    rwa [UInt32.ofNat_toNat, if_pos hsize] at h
  rwa [hread] at hregisters

/-- The windows of a layer are stacked below the discard register, and keep apart, exactly if the
registers of one kernel can be counted in a signed word or there are no outputs to hold them for.
Otherwise the kernels start above the discard register. -/
theorem Context.windows_stacked_iff {p : LayerParams} {hw : Hardware} {ctx : Context}
    (hkind : p.kind.keepsKernels = true) (hsize : hw.registerFileSize.toNat < 2 ^ 31)
    (h : Context.ofLayer p hw = .ok ctx) :
    let discard : Int := hw.registerFileSize.toNat - 1
    let countable := p.kernelArea < 2 ^ 31 ∨ p.parallelOut = 0
    ctx.registers.kernelX = p.kernelColumns ∧ ctx.registers.kernelY = p.kernelLength.toNat ∧
      (ctx.registers.Stacked p discard ↔ countable) ∧
      (ctx.registers.Separate p discard ↔ countable) ∧
      (¬countable → ctx.registers.kernelBase =
        discard + (2 ^ 32 - p.kernelArea) * p.parallelOut.toNat) := by
  intro discard countable
  have hwindows := windows_of_ofLayer hkind hsize h
  obtain ⟨hx, hy, -⟩ := RegisterLayout.windows_eq_ok hwindows
  have hstacked := RegisterLayout.stacked_windows hwindows
  have hlarge : ¬countable → 2 ^ 31 ≤ p.kernelArea ∧ p.parallelOut ≠ 0 := by
    intro hcount
    rw [not_or, Nat.not_lt] at hcount
    exact hcount
  have happart : ctx.registers.Separate p discard → countable := by
    intro hseparate
    by_contra hcount
    obtain ⟨harea, houtputs⟩ := hlarge hcount
    exact RegisterLayout.not_separate_windows hwindows harea houtputs hseparate
  exact ⟨hx, hy, ⟨fun hs => happart hs.separate, hstacked⟩,
    ⟨happart, fun hcount => (hstacked hcount).separate⟩,
    fun hcount => RegisterLayout.kernelBase_windows hwindows (hlarge hcount).1⟩

def largestKernel : LayerParams where
  kind := .conv1
  inChannels := 65535
  kernelLength := 32768

theorem windows_stacked_largestKernel :
    ∃ ctx, Context.ofLayer largestKernel {} = .ok ctx ∧ ctx.registers.Stacked largestKernel 1023 ∧
      ctx.registers.Separate largestKernel 1023 := by
  have hkind : largestKernel.kind.keepsKernels = true := rfl
  have hcount : largestKernel.kernelArea < 2 ^ 31 := by decide
  obtain ⟨ctx, hctx⟩ : ∃ ctx, Context.ofLayer largestKernel {} = .ok ctx := ⟨_, rfl⟩
  obtain ⟨-, -, hstacked, hseparate, -⟩ := Context.windows_stacked_iff hkind (by decide) hctx
  exact ⟨ctx, hctx, hstacked.mpr (.inl hcount), hseparate.mpr (.inl hcount)⟩

def squareKernel : LayerParams where
  kind := .conv2
  kernelLength := 65535

theorem not_stacked_squareKernel :
    ∃ ctx, Context.ofLayer squareKernel {} = .ok ctx ∧ ctx.registers.kernelBase = 132094 ∧
      ¬ctx.registers.Stacked squareKernel 1023 ∧
      ¬ctx.registers.Separate squareKernel 1023 := by
  refine ⟨_, rfl, by decide, fun h => ?_, fun h => ?_⟩
  · exact absurd h.kernelBase (by decide)
  · exact absurd (h.kernel_lt 132094 ⟨by decide, by decide⟩) (by decide)

end CommandStream
