import CommandStream.Proofs.Gathering
import CommandStream.Proofs.MaskRange

/-! # Which layers stay valid

The optimiser keeps masks on configured engines and blocks consistent. Padding is another matter:
cutting a skipped tail off can leave a row narrower than the columns it pads, and spreading can
carry a store to a place where other widths are in effect. Everything else keeps covering what it
pads.
-/

namespace CommandStream

/-! ## What the check asks for -/

namespace Transfer

def paddedColumns (t : Transfer) (pad : PadWidths) : Nat :=
  t.padded .left pad.left + t.padded .right pad.right

def paddedRows (t : Transfer) (pad : PadWidths) : Nat :=
  t.padded .top pad.top + t.padded .bottom pad.bottom

/-- If it pads at all, the transfer is as wide as the columns it pads, `spare` columns apart, and as
high as the rows. -/
def CoversPadding (t : Transfer) (spare : Nat) (pad : PadWidths) : Prop :=
  t.padding.isEmpty = false →
    t.paddedColumns pad + spare ≤ t.width.toNat ∧ t.paddedRows pad ≤ t.height.toNat

instance (t : Transfer) (spare : Nat) (pad : PadWidths) : Decidable (t.CoversPadding spare pad) :=
  inferInstanceAs (Decidable (_ → _))

theorem checkMasks_eq_ok_iff {t : Transfer} {index : Nat} {hw : Hardware} :
    t.checkMasks index hw = .ok () ↔ t.fits hw = true := by
  unfold checkMasks fits
  split
  · simp_all
  · split <;> simp_all

theorem checkPadding_eq_ok_iff {t : Transfer} {index : Nat} {pad : PadWidths} :
    t.checkPadding index pad = .ok () ↔
      t.paddedColumns pad ≤ t.width.toNat ∧ t.paddedRows pad ≤ t.height.toNat := by
  unfold checkPadding paddedColumns paddedRows
  dsimp only
  split
  · simp only [reduceCtorEq, false_iff]
    omega
  · split
    · simp only [reduceCtorEq, false_iff]
      omega
    · simp only [true_iff]
      omega

theorem check_eq_ok_iff {t : Transfer} {index : Nat} {hw : Hardware} {pad : PadWidths} :
    t.check index hw pad = .ok () ↔ t.fits hw = true ∧ t.CoversPadding 0 pad := by
  unfold check CoversPadding
  rw [check_bind_eq_ok_iff, checkMasks_eq_ok_iff]
  cases hempty : t.padding.isEmpty with
  | true => simp
  | false => simp [checkPadding_eq_ok_iff]

end Transfer

/-- What the check asks of a segment under the given widths. -/
def Segment.IsValid (hw : Hardware) (pad : PadWidths) : Segment → Prop
  | .transfer t => t.fits hw = true ∧ t.CoversPadding 0 pad
  | .loop l => l.base.fits hw = true ∧ l.base.CoversPadding 0 pad
  | _ => True

theorem checkTransfersFrom_eq_ok_iff {hw : Hardware} {index : Nat} {pad : PadWidths}
    {segments : List Segment} :
    checkTransfersFrom hw index pad segments = .ok () ↔
      Everywhere (Segment.IsValid hw) pad segments := by
  induction segments generalizing index pad with
  | nil => simp [checkTransfersFrom]
  | cons s rest ih =>
    rw [everywhere_cons]
    cases s with
    | transfer t =>
      rw [checkTransfersFrom, check_bind_eq_ok_iff, Transfer.check_eq_ok_iff, ih]
      rfl
    | loop l =>
      rw [checkTransfersFrom, check_bind_eq_ok_iff, Transfer.check_eq_ok_iff, ih]
      rfl
    | padding widths => simp [checkTransfersFrom, ih, Segment.IsValid, Segment.widthsBehind]
    | compute _ | block _ | sync _ | scatter _ =>
      simp [checkTransfersFrom, ih, Segment.IsValid, Segment.widthsBehind]

theorem Layer.validate_eq_ok_iff {layer : Layer} {hw : Hardware} :
    layer.validate hw = .ok () ↔
      Everywhere (Segment.IsValid hw) layer.params.pad layer.segments ∧
        checkBlocks layer.segments = .ok () := by
  unfold validate checkTransfers
  rw [check_bind_eq_ok_iff, checkTransfersFrom_eq_ok_iff]

/-! ## Blocks -/

theorem Optimized.checkBlocks_of_stage {o o' : Optimized} {pass : Pass} {enabled : Bool}
    {run : List Segment → Outcome (List Segment)} (h : o.stage pass enabled run = .ok o')
    (ho : checkBlocks o.segments = .ok ()) : checkBlocks o'.segments = .ok () := by
  unfold stage at h
  cases enabled with
  | false => exact pure_eq_ok_iff.mp h ▸ ho
  | true =>
    simp only [Bool.not_true, Bool.false_eq_true, if_false, bind_eq_ok_iff] at h
    obtain ⟨out, -, _, hblocks, _, -, h⟩ := h
    rw [← pure_eq_ok_iff.mp h]
    exact liftM_fault_eq_ok_iff.mp hblocks

theorem checkBlocks_of_optimize {segments : List Segment} {pad : PadWidths} {cfg : Settings}
    {o : Optimized} (h : optimize segments pad cfg = .ok o)
    (hblocks : checkBlocks segments = .ok ()) : checkBlocks o.segments = .ok () := by
  unfold optimize at h
  simp only [bind_eq_ok_iff] at h
  obtain ⟨-, -, o₁, h₁, o₂, h₂, o₃, h₃, o₄, h₄, o₅, h₅, h₆⟩ := h
  have b₁ := Optimized.checkBlocks_of_stage h₁ hblocks
  have b₂ := Optimized.checkBlocks_of_stage h₂ b₁
  have b₃ := Optimized.checkBlocks_of_stage h₃ b₂
  have b₄ := Optimized.checkBlocks_of_stage h₄ b₃
  have b₅ := Optimized.checkBlocks_of_stage h₅ b₄
  exact Optimized.checkBlocks_of_stage h₆ b₅

/-! ## What no pass breaks -/

theorem Mask.within_or {a b allowed : Mask} (ha : a.within allowed = true)
    (hb : b.within allowed = true) : (a ||| b).within allowed = true := by
  simp only [within, beq_iff_eq] at ha hb ⊢
  have hdistrib : (a ||| b) &&& ~~~allowed = (a &&& ~~~allowed) ||| (b &&& ~~~allowed) := by
    apply UInt32.toBitVec_inj.mp
    ext i
    simp [Bool.and_or_distrib_right]
  rw [hdistrib, ha, hb]
  rfl

theorem Transfer.fits_congr {t u : Transfer} {hw : Hardware} (h : u.target = t.target) :
    u.fits hw = t.fits hw := by
  simp only [target, Prod.mk.injEq] at h
  simp only [fits, h]

theorem Transfer.padded_congr {t u : Transfer} (h : u.target = t.target) (pad : PadWidths) :
    u.paddedColumns pad = t.paddedColumns pad ∧ u.paddedRows pad = t.paddedRows pad := by
  simp only [target, Prod.mk.injEq] at h
  simp only [paddedColumns, paddedRows, padded, h, and_self]

/-- Masks are within the hardware's, a padded load is as high as the rows it pads and, as a
rectangle, as wide as the columns. Loops are valid as they are. -/
def Segment.IsSound (hw : Hardware) (pad : PadWidths) : Segment → Prop
  | .transfer t => t.fits hw = true ∧ (t.isStore = false → t.padding.isEmpty = false →
      t.paddedRows pad ≤ t.height.toNat ∧ (t.isRect = true → t.paddedColumns pad ≤ t.width.toNat))
  | .loop l => l.base.fits hw = true ∧ l.base.CoversPadding 0 pad
  | _ => True

theorem Segment.IsValid.isSound {hw : Hardware} {pad : PadWidths} {s : Segment}
    (h : s.IsValid hw pad) : s.IsSound hw pad := by
  cases s with
  | transfer t =>
    refine ⟨h.1, fun _ hpad => ?_⟩
    obtain ⟨hcolumns, hrows⟩ := h.2 hpad
    exact ⟨hrows, fun _ => hcolumns⟩
  | loop l => exact h
  | compute _ | block _ | sync _ | padding _ | scatter _ => trivial

/-- The rest of what makes a transfer valid: a row is as wide as the columns it pads, and a store
covers all it pads. -/
def Segment.CoversPadding (pad : PadWidths) : Segment → Prop
  | .transfer t =>
    (t.isStore = true → t.CoversPadding 0 pad) ∧
      (t.isRect = false → t.padding.isEmpty = false → t.paddedColumns pad ≤ t.width.toNat)
  | _ => True

theorem Segment.isValid_iff_of_isSound {hw : Hardware} {pad : PadWidths} {s : Segment}
    (h : s.IsSound hw pad) : s.IsValid hw pad ↔ s.CoversPadding pad := by
  cases s with
  | transfer t =>
    constructor
    · rintro ⟨-, hcovers⟩
      exact ⟨fun _ => hcovers, fun _ hpad => (hcovers hpad).1⟩
    · rintro ⟨hstore, hrow⟩
      refine ⟨h.1, ?_⟩
      cases hclass : t.isStore with
      | true => exact hstore hclass
      | false =>
        intro hpad
        obtain ⟨hrows, hcolumns⟩ := h.2 hclass hpad
        cases hshape : t.isRect with
        | true => exact ⟨hcolumns hshape, hrows⟩
        | false => exact ⟨hrow hshape hpad, hrows⟩
  | loop l => exact ⟨fun _ => trivial, fun _ => h⟩
  | compute _ | block _ | sync _ | padding _ | scatter _ => exact Iff.rfl

theorem Transfer.fits_broadcast {a b joined : Transfer} {hw : Hardware}
    (h : (a.broadcast b).run = some joined) (ha : a.fits hw = true) (hb : b.fits hw = true) :
    joined.fits hw = true := by
  rw [(broadcast_eq_some h).2]
  simp only [fits, Bool.and_eq_true] at ha hb ⊢
  exact ⟨Mask.within_or ha.1 hb.1, ha.2⟩

variable {hw : Hardware}

theorem broadcastInvariant_isSound : BroadcastInvariant (Segment.IsSound hw) := by
  intro pad a b joined h ha hb
  refine ⟨Transfer.fits_broadcast h ha.1 hb.1, ?_⟩
  rw [(Transfer.broadcast_eq_some h).2]
  exact ha.2

theorem Segment.IsSound.of_larger {pad : PadWidths} {t u : Transfer}
    (h : (Segment.transfer t).IsSound hw pad) (htarget : u.target = t.target)
    (hheight : t.padding.isEmpty = false → t.height.toNat ≤ u.height.toNat)
    (hwidth : t.padding.isEmpty = false → u.isRect = true →
      t.isRect = true ∧ t.width.toNat ≤ u.width.toNat) :
    (Segment.transfer u).IsSound hw pad := by
  refine ⟨(Transfer.fits_congr htarget).trans h.1, fun hclass hpad => ?_⟩
  obtain ⟨hcolumns, hrows⟩ := Transfer.padded_congr htarget pad
  simp only [Transfer.target, Prod.mk.injEq] at htarget
  rw [htarget.1] at hclass
  rw [htarget.2.2.2.1] at hpad
  obtain ⟨hheight', hwidth'⟩ := h.2 hclass hpad
  rw [hcolumns, hrows]
  refine ⟨hheight'.trans (hheight hpad), fun hrect => ?_⟩
  obtain ⟨hrect', hle⟩ := hwidth hpad hrect
  exact (hwidth' hrect').trans hle

theorem reshapeInvariant_isSound : ReshapeInvariant (Segment.IsSound hw) where
  flatten := by
    intro pad t maxElements h
    obtain ⟨u, hu, htarget, -, -, hshape, hrect⟩ := t.flattenSegment_transfer maxElements
    rw [hu]
    refine h.of_larger htarget (fun hpad => ?_) (fun hpad hr => ?_)
    · rw [(hshape hpad).2]
    · rw [(hshape hpad).1]
      exact ⟨hrect hr, le_rfl⟩
  trim := by
    intro pad t s index hs h
    obtain ⟨u, rfl, hdirection, htarget, hwidth, hheight, -, hnone⟩ :=
      Transfer.trimSegment_eq_transfer hs
    refine h.of_larger htarget (fun _ => ?_) (fun _ hr => ?_)
    · rw [hheight]
    · have hrect : t.isRect = true := by rwa [Transfer.isRect, hdirection] at hr
      refine ⟨hrect, ?_⟩
      rw [hwidth, hnone hrect]
      exact le_rfl

theorem joinInvariant_isSound : JoinInvariant (Segment.IsSound hw) where
  row := by
    intro pad a b joined h ha _
    obtain ⟨hrow, hdirection, htarget, -, hheight, -⟩ := Transfer.joinRow_shape h
    refine ha.of_larger htarget (fun _ => ?_) (fun _ hr => ?_)
    · rw [hheight]
    · rw [Transfer.isRect, hdirection] at hr
      rw [Transfer.isRect, hr] at hrow
      cases hrow
  rect := by
    intro pad a b joined h ha _
    obtain ⟨hdirection, htarget, hwidth, hheight, -⟩ := Transfer.joinRect_shape h
    refine ha.of_larger htarget (fun _ => ?_) (fun _ hr => ?_)
    · rw [hheight]
      exact Nat.le_add_right _ _
    · rw [Transfer.isRect, hdirection] at hr
      exact ⟨hr, by rw [hwidth]⟩

/-- Up to the spreading of stores, masks, loops and padded load rectangles stay right. -/
theorem carries_isSound {segments gathered spread : List Segment} {cfg : Settings} {joins : Nat}
    (hgather : gather segments cfg = .ok (gathered, joins))
    (hspread : Ran cfg.pipeline.splitStores spreadStores gathered spread) :
    Carries (Segment.IsSound hw) segments spread := by
  have hblock : ∀ pad count, (Segment.block count).IsSound hw pad := fun _ _ => trivial
  refine (carries_gather hgather hblock broadcastInvariant_isSound
    (fun _ => reshapeInvariant_isSound) (fun _ => joinInvariant_isSound)).trans ?_
  refine hspread.rel .refl fun _ hrun => carries_spreadStores hrun hblock ?_
  intro t hstore pad h pad'
  refine ⟨h.1, fun hload => ?_⟩
  rw [hstore] at hload
  cases hload

/-! ## Rolling and balancing -/

/-- The part of validity that depends on nothing but the shape of a transfer. -/
def Segment.FitsPadding (pad : PadWidths) : Segment → Prop
  | .transfer t => t.CoversPadding 0 pad
  | .loop l => l.base.CoversPadding 0 pad
  | _ => True

theorem Segment.IsValid.fitsPadding {pad : PadWidths} {s : Segment} (h : s.IsValid hw pad) :
    s.FitsPadding pad := by
  cases s with
  | transfer t => exact h.2
  | loop l => exact h.2
  | compute _ | block _ | sync _ | padding _ | scatter _ => trivial

theorem Segment.FitsPadding.isValid {pad : PadWidths} {s : Segment} (h : s.FitsPadding pad)
    (hsound : s.IsSound hw pad) : s.IsValid hw pad := by
  cases s with
  | transfer t => exact ⟨hsound.1, h⟩
  | loop l => exact ⟨hsound.1, h⟩
  | compute _ | block _ | sync _ | padding _ | scatter _ => trivial

theorem TransferLoop.coversPadding_of_mem_expand {l : TransferLoop} {t : Transfer} {pad : PadWidths}
    (ht : t ∈ l.expand) (h : l.base.CoversPadding 0 pad) : t.CoversPadding 0 pad := by
  obtain ⟨cluster, unit, inner, -, -, rfl⟩ := mem_expand_iff.mp ht
  exact h

/-- Rolling loops and balancing change no shapes, so they make a stream neither valid nor
invalid. -/
theorem everywhere_isValid_iff {spread rolled out : List Segment} {cfg : Settings}
    {pad : PadWidths}
    (hroll : Ran cfg.pipeline.loops (rollLoops · cfg.pipeline.minLoopLen) spread rolled)
    (hbalance : Ran cfg.pipeline.balance (fun s => return balance s cfg.pipeline.balanceLoads)
      rolled out) (hsound : Everywhere (Segment.IsSound hw) pad spread) :
    Everywhere (Segment.IsValid hw) pad out ↔ Everywhere Segment.CoversPadding pad spread := by
  have hspread : Everywhere (Segment.IsValid hw) pad spread ↔
      Everywhere Segment.CoversPadding pad spread :=
    forall₂_congr fun p hp => Segment.isValid_iff_of_isSound (hsound p hp)
  have hforth : Carries (Segment.IsValid hw) spread out :=
    (hroll.rel .refl fun _ hrun => carries_rollLoops hrun (fun _ _ => trivial) id).trans
      (hbalance.rel .refl fun _ hrun => pure_eq_ok_iff.mp hrun ▸ carries_balance rolled _)
  have hback : Carries Segment.FitsPadding out spread :=
    (hbalance.rel (R := fun a b => Carries Segment.FitsPadding b a) .refl fun _ hrun =>
      pure_eq_ok_iff.mp hrun ▸ carries_of_balance rolled _).trans
    (hroll.rel (R := fun a b => Carries Segment.FitsPadding b a) .refl fun _ hrun =>
      carries_of_rollLoops hrun (fun _ _ => trivial) TransferLoop.coversPadding_of_mem_expand)
  rw [← hspread]
  constructor
  · intro hout p hp
    have hfits := hback.holds pad (hout.imp fun _ _ h => h.fitsPadding)
    exact (hfits p hp).isValid (hsound p hp)
  · exact hforth.holds pad

/-! ## Layers that stay valid -/

/-- How many columns merging may cut off a transfer. -/
def Settings.spare (cfg : Settings) (t : Transfer) : Nat :=
  if cfg.pipeline.merge then t.skipped.toNat else 0

def Segment.padding? : Segment → Option PadWidths
  | .padding widths => some widths
  | _ => none

def widthsOf (pad : PadWidths) (segments : List Segment) : List PadWidths :=
  pad :: segments.filterMap Segment.padding?

/-- The widths under which a transfer may end up: those at its place, or any of the given ones if it
is a store and stores are spread. -/
def Settings.reach (cfg : Settings) (all : List PadWidths) (pad : PadWidths) (t : Transfer) :
    List PadWidths :=
  if cfg.pipeline.splitStores && t.isStore then all else [pad]

/-- A plain transfer covers what it pads without its tail and wherever it may end up. -/
def Segment.IsRobust (cfg : Settings) (all : List PadWidths) (pad : PadWidths) : Segment → Prop
  | .transfer t => ∀ widths ∈ cfg.reach all pad t, t.CoversPadding (cfg.spare t) widths
  | _ => True

/-- What a robust segment and all that is made of it have. A loop may have been rolled from stores
that were spread. -/
def Segment.IsSafe (cfg : Settings) (all : List PadWidths) (pad : PadWidths) : Segment → Prop
  | .transfer t => t.fits cfg.hardware = true ∧
      ∀ widths ∈ cfg.reach all pad t, t.CoversPadding (cfg.spare t) widths
  | .loop l => l.base.fits cfg.hardware = true ∧
      (l.base.CoversPadding 0 pad ∨ ∀ widths ∈ all, l.base.CoversPadding 0 widths)
  | _ => True

theorem Transfer.CoversPadding.of_larger {t u : Transfer} {n m : Nat} {pad : PadWidths}
    (h : t.CoversPadding n pad) (htarget : u.target = t.target)
    (hwidth : t.padding.isEmpty = false → t.width.toNat + m ≤ u.width.toNat + n)
    (hheight : t.padding.isEmpty = false → t.height.toNat ≤ u.height.toNat) :
    u.CoversPadding m pad := by
  intro hpad
  obtain ⟨hcolumns, hrows⟩ := padded_congr htarget pad
  simp only [target, Prod.mk.injEq] at htarget
  rw [htarget.2.2.2.1] at hpad
  obtain ⟨hcolumns', hrows'⟩ := h hpad
  have hwidth' := hwidth hpad
  have hheight' := hheight hpad
  constructor
  · omega
  · omega

section Safe

variable {cfg : Settings} {all : List PadWidths}

theorem Segment.IsSafe.of_larger {pad : PadWidths} {t u : Transfer}
    (h : (Segment.transfer t).IsSafe cfg all pad) (htarget : u.target = t.target)
    (hwidth : t.padding.isEmpty = false →
      t.width.toNat + cfg.spare u ≤ u.width.toNat + cfg.spare t)
    (hheight : t.padding.isEmpty = false → t.height.toNat ≤ u.height.toNat) :
    (Segment.transfer u).IsSafe cfg all pad := by
  refine ⟨(Transfer.fits_congr htarget).trans h.1, fun widths hwidths => ?_⟩
  have hreach : cfg.reach all pad u = cfg.reach all pad t := by
    simp only [Transfer.target, Prod.mk.injEq] at htarget
    rw [Settings.reach, Settings.reach, htarget.1]
  rw [hreach] at hwidths
  exact (h.2 widths hwidths).of_larger htarget hwidth hheight

theorem broadcastInvariant_isSafe : BroadcastInvariant (Segment.IsSafe cfg all) := by
  intro pad a b joined h ha hb
  refine ⟨Transfer.fits_broadcast h ha.1 hb.1, ?_⟩
  rw [(Transfer.broadcast_eq_some h).2]
  exact ha.2

theorem Settings.spare_of_skipped {t : Transfer} (h : t.skipped = 0) : cfg.spare t = 0 := by
  simp [spare, h]

theorem reshapeInvariant_isSafe (hmerge : cfg.pipeline.merge = true) :
    ReshapeInvariant (Segment.IsSafe cfg all) where
  flatten := by
    intro pad t maxElements h
    obtain ⟨u, hu, htarget, hskipped, -, hshape, -⟩ := t.flattenSegment_transfer maxElements
    rw [hu]
    refine h.of_larger htarget (fun hpad => ?_) (fun hpad => ?_)
    · rw [(hshape hpad).1, Settings.spare, Settings.spare, hskipped]
    · rw [(hshape hpad).2]
  trim := by
    intro pad t s index hs h
    obtain ⟨u, rfl, -, htarget, hwidth, hheight, hnone, -⟩ := Transfer.trimSegment_eq_transfer hs
    refine h.of_larger htarget (fun _ => ?_) (fun _ => ?_)
    · have hspare : cfg.spare t = t.skipped.toNat := if_pos hmerge
      rw [Settings.spare_of_skipped hnone, hspare, hwidth]
      omega
    · rw [hheight]

theorem joinInvariant_isSafe : JoinInvariant (Segment.IsSafe cfg all) where
  row := by
    intro pad a b joined h ha _
    obtain ⟨-, -, htarget, hwidth, hheight, hnone⟩ := Transfer.joinRow_shape h
    refine ha.of_larger htarget (fun _ => ?_) (fun _ => ?_)
    · rw [Settings.spare_of_skipped hnone, hwidth]
      omega
    · rw [hheight]
  rect := by
    intro pad a b joined h ha _
    obtain ⟨-, htarget, hwidth, hheight, hnone⟩ := Transfer.joinRect_shape h
    refine ha.of_larger htarget (fun _ => ?_) (fun _ => ?_)
    · rw [Settings.spare_of_skipped hnone, hwidth]
      omega
    · rw [hheight]
      exact Nat.le_add_right _ _

/-- Every pass keeps safe what is safe. -/
theorem carries_isSafe {segments : List Segment} {pad : PadWidths} {o : Optimized}
    (h : optimize segments pad cfg = .ok o) :
    Carries (Segment.IsSafe cfg all) segments o.segments := by
  obtain ⟨gathered, joins, spread, rolled, hgather, hspread, hroll, hbalance⟩ := gather_of_optimize h
  have hblock : ∀ pad count, (Segment.block count).IsSafe cfg all pad := fun _ _ => trivial
  have c₁ : Carries (Segment.IsSafe cfg all) segments gathered :=
    carries_gather hgather hblock broadcastInvariant_isSafe reshapeInvariant_isSafe
      (fun _ => joinInvariant_isSafe)
  have c₂ : Carries (Segment.IsSafe cfg all) gathered spread := by
    refine hspread.rel .refl fun hsplit hrun => carries_spreadStores hrun hblock ?_
    intro t hstore pad hsafe pad'
    refine ⟨hsafe.1, ?_⟩
    simpa [Settings.reach, hsplit, hstore] using hsafe.2
  have c₃ : Carries (Segment.IsSafe cfg all) spread rolled := by
    refine hroll.rel .refl fun _ hrun => carries_rollLoops hrun hblock ?_
    intro pad l hsafe
    refine ⟨hsafe.1, ?_⟩
    have hzero : ∀ widths ∈ cfg.reach all pad l.base, l.base.CoversPadding 0 widths :=
      fun widths hw => (hsafe.2 widths hw).of_larger rfl (fun _ => by omega) (fun _ => le_rfl)
    unfold Settings.reach at hzero
    split at hzero
    · exact .inr hzero
    · exact .inl (hzero pad (List.mem_singleton_self pad))
  have c₄ : Carries (Segment.IsSafe cfg all) rolled o.segments :=
    hbalance.rel .refl fun _ hrun => pure_eq_ok_iff.mp hrun ▸ carries_balance rolled _
  exact c₁.trans (c₂.trans (c₃.trans c₄))

theorem Segment.IsRobust.isSafe {pad : PadWidths} {s : Segment} (h : s.IsRobust cfg all pad)
    (hvalid : s.IsValid cfg.hardware pad) : s.IsSafe cfg all pad := by
  cases s with
  | transfer t => exact ⟨hvalid.1, h⟩
  | loop l => exact ⟨hvalid.1, .inl hvalid.2⟩
  | compute _ | block _ | sync _ | padding _ | scatter _ => trivial

theorem Segment.IsSafe.isValid {pad : PadWidths} {s : Segment} (h : s.IsSafe cfg all pad)
    (hpad : pad ∈ all) : s.IsValid cfg.hardware pad := by
  cases s with
  | transfer t =>
    refine ⟨h.1, ?_⟩
    have hreach : pad ∈ cfg.reach all pad t := by
      unfold Settings.reach
      split
      · exact hpad
      · exact List.mem_singleton_self pad
    exact (h.2 pad hreach).of_larger rfl (fun _ => by omega) (fun _ => le_rfl)
  | loop l =>
    refine ⟨h.1, ?_⟩
    rcases h.2 with hhere | hall
    · exact hhere
    · exact hall pad hpad
  | compute _ | block _ | sync _ | padding _ | scatter _ => trivial

end Safe

theorem mem_widthsOf_of_mem_placed {pad : PadWidths} {segments : List Segment}
    {p : PadWidths × Segment} (h : p ∈ placed pad segments) : p.1 ∈ widthsOf pad segments := by
  induction segments generalizing pad with
  | nil => cases h
  | cons s rest ih =>
    rcases List.mem_cons.mp h with rfl | h
    · exact List.mem_cons_self
    · have hrest := ih h
      cases s with
      | padding widths => exact List.mem_cons_of_mem _ hrest
      | transfer _ | loop _ | compute _ | block _ | sync _ | scatter _ => exact hrest

theorem widthsOf_eq_of_boundaries {pad : PadWidths} {a b : List Segment}
    (h : boundaries a = boundaries b) : widthsOf pad a = widthsOf pad b := by
  have hfilter : ∀ c : List Segment,
      c.filterMap Segment.padding? = (boundaries c).filterMap Segment.padding? := by
    intro c
    rw [boundaries, List.filterMap_filter]
    congr 1
    ext s
    cases s <;> simp [Segment.padding?, Segment.isBoundary]
  rw [widthsOf, widthsOf, hfilter, h, ← hfilter]

theorem boundaries_optimize {segments : List Segment} {pad : PadWidths} {cfg : Settings}
    {o : Optimized} (h : optimize segments pad cfg = .ok o) :
    boundaries o.segments = boundaries segments := by
  have hmeaning : meaning ∅ o.segments = meaning ∅ segments :=
    meaning_optimize (by simp) (by simp [RepeatsAgree]) h
  exact boundaries_eq_of_meaning hmeaning

/-- An optimised layer is valid exactly if, once stores are spread, rows are still as wide as the
columns they pad and stores cover what they pad at their places. It is valid if every transfer of
the layer covers what it pads without its tail and wherever it may end up. -/
theorem optimize_validate_iff {layer out : Layer} {cfg : Settings} {stats : List PassStats}
    (hvalid : layer.validate cfg.hardware = .ok ())
    (h : layer.optimize cfg = .ok (out, stats)) :
    (∃ gathered joins spread, gather layer.segments cfg = .ok (gathered, joins) ∧
      Ran cfg.pipeline.splitStores spreadStores gathered spread ∧
      (out.validate cfg.hardware = .ok () ↔
        Everywhere Segment.CoversPadding layer.params.pad spread)) ∧
    (Everywhere (Segment.IsRobust cfg (widthsOf layer.params.pad layer.segments)) layer.params.pad
      layer.segments → out.validate cfg.hardware = .ok ()) := by
  obtain ⟨o, ho, h⟩ := bind_eq_ok_iff.mp h
  obtain ⟨rfl, rfl⟩ := Prod.mk.inj (pure_eq_ok_iff.mp h)
  rw [Layer.validate_eq_ok_iff] at hvalid
  have hblocks := checkBlocks_of_optimize ho hvalid.2
  have hout : ({ layer with segments := o.segments } : Layer).validate cfg.hardware = .ok () ↔
      Everywhere (Segment.IsValid cfg.hardware) layer.params.pad o.segments := by
    rw [Layer.validate_eq_ok_iff]
    exact and_iff_left hblocks
  rw [hout]
  constructor
  · obtain ⟨gathered, joins, spread, rolled, hgather, hspread, hroll, hbalance⟩ :=
      gather_of_optimize ho
    have hsound := (carries_isSound hgather hspread).holds _ (hvalid.1.imp fun _ _ h => h.isSound)
    exact ⟨gathered, joins, spread, hgather, hspread,
      everywhere_isValid_iff hroll hbalance hsound⟩
  · intro hrobust
    have hsafe : Everywhere (Segment.IsSafe cfg (widthsOf layer.params.pad layer.segments))
        layer.params.pad layer.segments :=
      fun p hp => (hrobust p hp).isSafe (hvalid.1 p hp)
    intro p hp
    refine ((carries_isSafe ho).holds _ hsafe p hp).isValid ?_
    rw [← widthsOf_eq_of_boundaries (boundaries_optimize ho)]
    exact mem_widthsOf_of_mem_placed hp

def tailedRow (hostAddr : UInt64) : Transfer :=
  { Transfer.row .load1d 1 1 hostAddr 0 8 with padding := ⟨Edge.left.bit⟩, skipped := 4 }

def tailedRows (left : Int32) : Layer where
  params := { pad := { left } }
  segments := [.transfer (tailedRow 0x1000), .padding { left := 4 }, .transfer (tailedRow 0x2000)]

theorem optimize_tailedRows (left : Int32) (h : left = 2 ∨ left = 6) :
    Optimized.segments <$> optimize (tailedRows left).segments { left } (mergingOnly 8192) =
      .ok [.transfer { tailedRow 0x1000 with width := 4, skipped := 0 }, .padding { left := 4 },
        .transfer { tailedRow 0x2000 with width := 4, skipped := 0 }] := by
  delta optimize merge mergeWithStats
  simp only [Merging.reorder, sortOn_eq_insertionSort Transfer.hostKey fun _ _ => rfl,
    sortOn_eq_insertionSort Transfer.localKey fun _ _ => rfl,
    sortOn_eq_insertionSort Transfer.addressKey fun _ _ => rfl]
  rcases h with rfl | rfl
  · decide +kernel
  · decide +kernel

theorem Layer.optimize_of_segments {layer : Layer} {cfg : Settings} {segments : List Segment}
    (h : Optimized.segments <$> CommandStream.optimize layer.segments layer.params.pad cfg =
      .ok segments) : ∃ stats, layer.optimize cfg = .ok ({ layer with segments }, stats) := by
  obtain ⟨o, ho, rfl⟩ := map_eq_ok_iff.mp h
  refine ⟨o.stats, ?_⟩
  rw [optimize, ho]
  rfl

/-- Under narrow widths both rows do without their tails. -/
theorem optimize_validate_tailedRows :
    (tailedRows 2).validate {} = .ok () ∧
    ∃ out stats, (tailedRows 2).optimize (mergingOnly 8192) = .ok (out, stats) ∧
      out.validate {} = .ok () := by
  have hvalid : (tailedRows 2).validate {} = .ok () := by decide +kernel
  obtain ⟨stats, hout⟩ := Layer.optimize_of_segments (optimize_tailedRows 2 (.inl rfl))
  have hrobust : Everywhere (Segment.IsRobust (mergingOnly 8192)
      (widthsOf (tailedRows 2).params.pad (tailedRows 2).segments)) (tailedRows 2).params.pad
      (tailedRows 2).segments := by
    simp only [tailedRows, everywhere_cons, everywhere_nil, and_true]
    refine ⟨fun widths hwidths => ?_, trivial, fun widths hwidths => ?_⟩
    · obtain rfl := List.mem_singleton.mp hwidths
      decide +kernel
    · obtain rfl := List.mem_singleton.mp hwidths
      decide +kernel
  exact ⟨hvalid, _, stats, hout, (optimize_validate_iff hvalid hout).2 hrobust⟩

def spreadingOnly : Settings where
  pipeline := { merge := false, blocks := false, loops := false, balance := false }

def widenedPadding : Layer where
  params := { pad := { left := 1 } }
  segments :=
    [.block 2, .transfer { Transfer.row .store1d 1 1 0x100 0 8 with padding := ⟨Edge.left.bit⟩ },
      .transfer { Transfer.row .store1d 1 1 0x200 16 8 with padding := ⟨Edge.left.bit⟩ },
      .padding { left := 9 }, .block 1, .transfer (.row .load1d 1 1 0x1000 0 8)]

theorem optimize_widenedPadding :
    Optimized.segments <$> optimize widenedPadding.segments widenedPadding.params.pad
      spreadingOnly = .ok
      [.block 1, .transfer { Transfer.row .store1d 1 1 0x200 16 8 with padding := ⟨Edge.left.bit⟩ },
        .padding { left := 9 }, .block 2,
        .transfer { Transfer.row .store1d 1 1 0x100 0 8 with padding := ⟨Edge.left.bit⟩ },
        .transfer (.row .load1d 1 1 0x1000 0 8)] := by
  delta optimize spreadStores spreadSpan acceptsSpread sameTransfers spreadSpan? rotateStores
  simp only [sortOn_eq_insertionSort Transfer.identityKey fun _ _ => rfl,
    sortOn_eq_insertionSort (fun t : Transfer => [t.hostAddr.toNat]) fun _ _ => rfl]
  decide +kernel

/-- Without its tail a row can be narrower than the columns it pads, and a store that is spread can
come behind a command that widens the padding. Either pass alone makes an invalid layer. -/
theorem optimize_invalidates_layer :
    (∃ (layer out : Layer) (stats : List PassStats), layer.validate {} = .ok () ∧
      layer.optimize (mergingOnly 8192) = .ok (out, stats) ∧ out.validate {} ≠ .ok ()) ∧
    ∃ (layer out : Layer) (stats : List PassStats), layer.validate {} = .ok () ∧
      layer.optimize spreadingOnly = .ok (out, stats) ∧ out.validate {} ≠ .ok () := by
  obtain ⟨stats, hout⟩ := Layer.optimize_of_segments (optimize_tailedRows 6 (.inr rfl))
  obtain ⟨stats', hout'⟩ := Layer.optimize_of_segments optimize_widenedPadding
  refine ⟨⟨_, _, stats, ?_, hout, ?_⟩, _, _, stats', ?_, hout', ?_⟩
  all_goals decide +kernel

end CommandStream
