import CommandStream.Optimize.Pipeline
import CommandStream.Proofs.BatchMeaning
import CommandStream.Proofs.RollMeaning
import CommandStream.Proofs.SpreadMeaning

/-! # The optimiser keeps the meaning

Every stage but the spreading of stores keeps the meaning of a stream. Spreading keeps what is not a
store where it is and moves stores to later stretches at most.
-/

namespace CommandStream

variable {keep : Set WordMove}

def Ran (enabled : Bool) (run : List Segment → Outcome (List Segment))
    (a b : List Segment) : Prop :=
  if enabled then run a = .ok b else b = a

theorem Optimized.ran_of_stage {o o' : Optimized} {pass : Pass} {enabled : Bool}
    {run : List Segment → Outcome (List Segment)} (h : o.stage pass enabled run = .ok o') :
    Ran enabled run o.segments o'.segments := by
  unfold stage at h
  cases enabled with
  | false => exact congrArg segments (pure_eq_ok_iff.mp h).symm
  | true =>
    simp only [Bool.not_true, Bool.false_eq_true, if_false, bind_eq_ok_iff] at h
    obtain ⟨out, hrun, _, -, _, -, h⟩ := h
    rw [← pure_eq_ok_iff.mp h]
    exact hrun

theorem Ran.rel {R : List Segment → List Segment → Prop} {enabled : Bool}
    {run : List Segment → Outcome (List Segment)} {a b : List Segment} (h : Ran enabled run a b)
    (hrefl : ∀ c, R c c) (hrun : enabled = true → run a = .ok b → R a b) : R a b := by
  unfold Ran at h
  split at h
  · rename_i henabled
    exact hrun henabled h
  · exact h ▸ hrefl a

theorem Ran.meaning_eq {enabled : Bool} {run : List Segment → Outcome (List Segment)}
    {a b : List Segment} (h : Ran enabled run a b)
    (hrun : ∀ {b}, run a = .ok b → meaning keep b = meaning keep a) :
    meaning keep b = meaning keep a :=
  h.rel (R := fun a b => meaning keep b = meaning keep a) (fun _ => rfl) fun _ => hrun

/-- Spread or not, the first stretches gain no move, and the stream loses none. -/
theorem Ran.moves_spread {enabled : Bool} {a b : List Segment} (h : Ran enabled spreadStores a b) :
    streamMoves b = streamMoves a ∧
      ∀ n, streamMoves ((stretchList b).take n).flatten ⊆
        streamMoves ((stretchList a).take n).flatten :=
  h.rel (R := fun a b => streamMoves b = streamMoves a ∧
      ∀ n, streamMoves ((stretchList b).take n).flatten ⊆
        streamMoves ((stretchList a).take n).flatten)
    (fun _ => ⟨rfl, fun _ => subset_rfl⟩)
    fun _ hrun => ⟨streamMoves_spreadStores hrun, leadingMoves_spreadStores hrun⟩

theorem ran_of_optimize {segments : List Segment} {pad : PadWidths} {cfg : Settings} {o : Optimized}
    (h : optimize segments pad cfg = .ok o) :
    ∃ merged batched remerged spread rolled,
      Ran cfg.pipeline.merge (merge · cfg.hardware.maxTransferElements.toNat) segments merged ∧
      Ran cfg.pipeline.blocks (batch · cfg.pipeline.blockSplit) merged batched ∧
      Ran (cfg.pipeline.blocks && cfg.pipeline.merge)
        (merge · cfg.hardware.maxTransferElements.toNat) batched remerged ∧
      Ran cfg.pipeline.splitStores spreadStores remerged spread ∧
      Ran cfg.pipeline.loops (rollLoops · cfg.pipeline.minLoopLen) spread rolled ∧
      Ran cfg.pipeline.balance (fun s => return balance s cfg.pipeline.balanceLoads)
        rolled o.segments := by
  unfold optimize at h
  simp only [bind_eq_ok_iff] at h
  obtain ⟨-, -, o₁, h₁, o₂, h₂, o₃, h₃, o₄, h₄, o₅, h₅, h₆⟩ := h
  exact ⟨_, _, _, _, _, Optimized.ran_of_stage h₁, Optimized.ran_of_stage h₂,
    Optimized.ran_of_stage h₃, Optimized.ran_of_stage h₄, Optimized.ran_of_stage h₅,
    Optimized.ran_of_stage h₆⟩

section Optimize

variable {segments : List Segment} {pad : PadWidths} {cfg : Settings} {o : Optimized}

theorem meaning_around_spread (h : optimize segments pad cfg = .ok o) :
    ∃ before after, Ran cfg.pipeline.splitStores spreadStores before after ∧
      ∀ keep, (RepeatsAgree keep segments → meaning keep before = meaning keep segments) ∧
        meaning keep o.segments = meaning keep after := by
  obtain ⟨merged, batched, remerged, spread, rolled, h₁, h₂, h₃, h₄, h₅, h₆⟩ := ran_of_optimize h
  refine ⟨remerged, spread, h₄, fun keep => ⟨fun hr => ?_, ?_⟩⟩
  · have hmerged := h₁.meaning_eq fun hrun => (meaning_merge hr hrun).2
    have hbatched : meaning keep batched = meaning keep merged := h₂.meaning_eq meaning_batch
    refine (Eq.trans ?_ hbatched).trans hmerged
    cases hm : cfg.pipeline.merge with
    | false =>
      rw [hm, Bool.and_false] at h₃
      exact congrArg (meaning keep) h₃
    | true =>
      rw [hm] at h₁
      have hu : Unskipped batched := by
        have hu := (meaning_merge hr h₁).1
        cases hb : cfg.pipeline.blocks with
        | false => rw [hb] at h₂; rwa [show batched = merged from h₂]
        | true => rw [hb] at h₂; exact unskipped_batch hu h₂
      exact h₃.meaning_eq fun hrun => (meaning_merge hu.repeatsAgree hrun).2
  · have hrolled : meaning keep rolled = meaning keep spread := h₅.meaning_eq meaning_rollLoops
    have hbalanced : meaning keep o.segments = meaning keep rolled :=
      h₆.meaning_eq fun hrun => by rw [← pure_eq_ok_iff.mp hrun]; exact meaning_balance rolled _
    exact hbalanced.trans hrolled

/-- Where stores do not count, the optimiser keeps the meaning. -/
theorem meaning_optimize (hk : ∀ w ∈ keep, w.isStore = false) (hr : RepeatsAgree keep segments)
    (h : optimize segments pad cfg = .ok o) : meaning keep o.segments = meaning keep segments := by
  obtain ⟨before, after, hspread, hmeaning⟩ := meaning_around_spread h
  obtain ⟨hbefore, hafter⟩ := hmeaning keep
  rw [hafter, ← hbefore hr]
  exact hspread.meaning_eq (meaning_spreadStores hk)

theorem repeatsAgree_of_unique
    (h : ∀ t u, .transfer t ∈ segments → .transfer u ∈ segments →
      ({ t with skipped := 0 } : Transfer) = { u with skipped := 0 } → t = u) :
    RepeatsAgree keep segments := by
  intro t u ht hu hs w _
  rw [h t u ht hu (beq_iff_eq.mp hs)]

def loadMoves : Set WordMove := {w | w.isStore = false}

/-- If no two transfers differ only in their skipped tails, optimising keeps the moves of a stream
and its boundaries, and between the boundaries its load moves and compute commands; a store move
stays in its stretch or goes to a later one, which only the spreading of stores can cause. -/
theorem optimize_keeps_moves
    (hunique : ∀ t u, .transfer t ∈ segments → .transfer u ∈ segments →
      ({ t with skipped := 0 } : Transfer) = { u with skipped := 0 } → t = u)
    (h : optimize segments pad cfg = .ok o) :
    streamMoves o.segments = streamMoves segments ∧
    boundaries o.segments = boundaries segments ∧
    (stretchList o.segments).map (loadMoves ∩ streamMoves ·) =
      (stretchList segments).map (loadMoves ∩ streamMoves ·) ∧
    (stretchList o.segments).map (·.filterMap Segment.compute?) =
      (stretchList segments).map (·.filterMap Segment.compute?) ∧
    (∀ n, streamMoves ((stretchList o.segments).take n).flatten ⊆
      streamMoves ((stretchList segments).take n).flatten) ∧
    (cfg.pipeline.splitStores = false →
      (stretchList o.segments).map streamMoves = (stretchList segments).map streamMoves) := by
  have hloads : meaning loadMoves o.segments = meaning loadMoves segments :=
    meaning_optimize (fun _ hw => hw) (repeatsAgree_of_unique hunique) h
  obtain ⟨before, after, hspread, hmeaning⟩ := meaning_around_spread h
  obtain ⟨hbefore, hafter⟩ := hmeaning Set.univ
  replace hbefore := hbefore (repeatsAgree_of_unique hunique)
  obtain ⟨hmoves, hleading⟩ := hspread.moves_spread
  refine ⟨?_, boundaries_eq_of_meaning hloads, stretchMoves_eq_of_meaning hloads,
    computes_eq_of_meaning hloads, fun n => ?_, fun hoff => ?_⟩
  · have hout := streamMoves_eq_of_meaning hafter
    have hin := streamMoves_eq_of_meaning hbefore
    simp only [Set.univ_inter] at hout hin
    rw [hout, hmoves, hin]
  · have hout := leadingMoves_eq_of_meaning hafter n
    have hin := leadingMoves_eq_of_meaning hbefore n
    simp only [Set.univ_inter] at hout hin
    rw [hout, ← hin]
    exact hleading n
  · rw [hoff] at hspread
    have hsame : after = before := hspread
    rw [hsame] at hafter
    simpa using stretchMoves_eq_of_meaning (hafter.trans hbefore)

end Optimize

def twoStretches : List Segment :=
  [.transfer (.row .store1d 1 1 0x100 16 8), .compute { op := .add },
    .transfer (.row .store1d 1 1 0x200 32 8), .sync .dma, .transfer (.row .load1d 1 1 0x1000 0 8),
    .transfer (.row .load1d 1 1 0x1010 8 8),
    .transfer { Transfer.row .load1d 2 1 0x1000 0 18 with skipped := 2 }]

def twoStretchesOptimized : List Segment :=
  [.block 1, .transfer (.row .store1d 1 1 0x200 32 8), .compute { op := .add }, .sync .dma,
    .block 2, .transfer (.row .store1d 1 1 0x100 16 8), .transfer (.row .load1d 3 1 0x1000 0 16)]

theorem area_trans (a b c : Segment) (hab : decide (b.area ≤ a.area) = true)
    (hbc : decide (c.area ≤ b.area) = true) : decide (c.area ≤ a.area) = true :=
  decide_eq_true ((of_decide_eq_true hbc).trans (of_decide_eq_true hab))

theorem area_total (a b : Segment) :
    (decide (b.area ≤ a.area) || decide (a.area ≤ b.area)) = true := by
  simpa using Nat.le_total b.area a.area

theorem area_mergeSort (xs : List Segment) :
    xs.mergeSort (fun a b => b.area ≤ a.area) =
      xs.insertionSort fun a b => decide (b.area ≤ a.area) = true :=
  mergeSort_eq_insertionSort area_trans area_total xs

theorem optimize_twoStretches :
    Optimized.segments <$> optimize twoStretches {} {} = .ok twoStretchesOptimized := by
  delta optimize merge mergeWithStats batch batchStretch arrange arrangeWindow spreadStores
    spreadSpan acceptsSpread sameTransfers spreadSpan? rotateStores balance balanceRun interleave
  simp only [Merging.reorder, area_mergeSort,
    sortOn_eq_insertionSort Transfer.identityKey fun _ _ => rfl,
    sortOn_eq_insertionSort Transfer.hostKey fun _ _ => rfl,
    sortOn_eq_insertionSort Transfer.localKey fun _ _ => rfl,
    sortOn_eq_insertionSort Transfer.addressKey fun _ _ => rfl,
    sortOn_eq_insertionSort (fun t : Transfer => [t.hostAddr.toNat]) fun _ _ => rfl,
    sortOn_eq_insertionSort (fun t : Transfer => [t.cluster.toNat]) fun _ _ => rfl,
    sortOn_eq_insertionSort Segment.addressKey fun a b => by cases a <;> cases b <;> rfl]
  decide +kernel

theorem optimize_keeps_moves_twoStretches :
    ∃ o, optimize twoStretches {} {} = .ok o ∧
      streamMoves o.segments = streamMoves twoStretches := by
  obtain ⟨o, ho, -⟩ := map_eq_ok_iff.mp optimize_twoStretches
  have hunique : ∀ t ∈ twoStretches.filterMap Segment.transfer?,
      ∀ u ∈ twoStretches.filterMap Segment.transfer?,
        ({ t with skipped := 0 } : Transfer) = { u with skipped := 0 } → t = u := by decide
  refine ⟨o, ho, (optimize_keeps_moves (fun t u ht hu => ?_) ho).1⟩
  exact hunique t (List.mem_filterMap.mpr ⟨_, ht, rfl⟩) u (List.mem_filterMap.mpr ⟨_, hu, rfl⟩)

end CommandStream
