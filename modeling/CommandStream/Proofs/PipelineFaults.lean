import CommandStream.Proofs.RegularTransfers

/-! # What the optimiser refuses

A stream of regular transfers that passes its check is refused for nothing but the skipped tail of a
rectangle. Batching writes its own markers and merging refreshes those it finds, so behind either of
them all markers are up to date, and the later stages keep them so.
-/

namespace CommandStream

theorem elementTotal_le_of_sublist {a b : List Segment} (hab : a.Sublist b) :
    elementTotal a ≤ elementTotal b := by
  rw [elementTotal_eq, elementTotal_eq]
  exact (hab.map _).sum_le_sum fun _ _ => Nat.zero_le _

theorem FitsCounters.of_sublist {a b : List Segment} (h : FitsCounters b) (hab : a.Sublist b) :
    FitsCounters a where
  words := (elementTotal_le_of_sublist hab).trans_lt h.words
  records := (recordCount_le_of_sublist (hab.filter _)).trans_lt h.records

theorem RegularStream.of_sublist {tails : Set UInt8} {a b : List Segment}
    (h : RegularStream tails b) (hab : a.Sublist b) : RegularStream tails a :=
  ⟨h.toFitsCounters.of_sublist hab, fun t ht => h.transfers t (hab.subset ht)⟩

/-! ## Batching -/

section Batching

variable {tails : Set UInt8} {window stretch segments : List Segment}

theorem regular_arrangeWindow (h : ∀ t, .transfer t ∈ window → t.Regular tails) :
    ∀ t, .transfer t ∈ arrangeWindow window → t.Regular tails :=
  (arrangeWindow_moves ∅ (fun ha _ hjoined => ha.broadcast hjoined) h).1

/-- Siblings have no cluster in common, so a broadcast moves the words of both. -/
theorem conserves_arrangeWindow (window : List Segment) :
    Conserves window (arrangeWindow window) := by
  have hsort := sortOn_perm Segment.addressKey window
  have hjoin : ∀ {a b : Transfer}, True → True → ∃ r, a.broadcast b = pure r ∧
      ∀ joined ∈ r, True ∧ joined.elements = a.elements + b.elements :=
    fun _ _ => ⟨_, rfl, fun joined hjoined => ⟨trivial, Transfer.elements_broadcast hjoined⟩⟩
  obtain ⟨out, hout, -, hconserves⟩ := absorb_conserves hjoin
    fun t (_ : .transfer t ∈ sortOn Segment.addressKey window) => trivial
  have harrange : (arrangeWindow window).Perm out.kept := by
    rw [arrangeWindow, hout]
    exact List.mergeSort_perm _ _
  exact (Conserves.of_perm (hsort.symm.filter _)).trans
    (hconserves.trans (.of_perm (harrange.symm.filter _)))

theorem conserves_arrange (stretch : List Segment) : Conserves stretch (arrange stretch) := by
  have hflatten : ((stretch.filter Segment.isDma).splitBy
      fun a b => a.isStore == b.isStore).flatMap id = stretch.filter Segment.isDma := by
    rw [List.flatMap_id, List.flatten_splitBy]
  have hdma : Conserves stretch (stretch.filter Segment.isDma) := by
    refine .of_perm (.of_eq ?_)
    rw [List.filter_filter]
    simp
  rw [← hflatten] at hdma
  exact hdma.trans (.flatMap fun window _ => conserves_arrangeWindow window)

theorem filter_isDma_asBlock {dma : List Segment} (h : ∀ s ∈ dma, s.isDma = true) :
    (asBlock dma).filter Segment.isDma = dma := by
  unfold asBlock
  split
  · rename_i hempty
    exact (List.isEmpty_iff.mp hempty).symm
  · rw [List.filter_cons_of_neg (by simp [Segment.isDma]), List.filter_eq_self.mpr h]

theorem filter_isDma_batchStretch (ahead : Nat) :
    (batchStretch ahead stretch).filter Segment.isDma = arrange stretch := by
  have hdma : ∀ s ∈ arrange stretch, s.isDma = true := fun s => isDma_of_mem_arrange
  unfold batchStretch
  dsimp only
  split
  · exact filter_isDma_asBlock hdma
  · have hcompute : (stretch.filter Segment.isCompute).filter Segment.isDma = [] := by
      rw [List.filter_filter, List.filter_eq_nil_iff]
      intro s _
      cases s <;> simp [Segment.isDma, Segment.isCompute]
    rw [List.filter_append, List.filter_append, hcompute,
      filter_isDma_asBlock fun s hs => hdma s (List.mem_of_mem_take hs),
      filter_isDma_asBlock fun s hs => hdma s (List.mem_of_mem_drop hs), List.append_nil,
      List.take_append_drop]

theorem upToDate_asBlock {dma : List Segment} (h : ∀ s ∈ dma, s.isDma = true)
    (hrecords : recordCount dma < 2 ^ 32) : UpToDate (asBlock dma) := by
  have hblock : ∀ s ∈ dma, s.isBlock = false := by
    intro s hs
    have := h s hs
    cases s <;> simp_all [Segment.isDma, Segment.isBlock]
  have hrun : dmaRun dma = dma := List.takeWhile_eq_self_iff.mpr h
  unfold asBlock
  split
  · trivial
  · refine ⟨?_, by simpa using (upToDate_append_of_no_block hblock []).mpr trivial⟩
    rw [hrun]
    exact UInt32.toNat_ofNat_of_lt' hrecords

theorem upToDate_batchStretch (h : dmaRecords (arrange stretch) < 2 ^ 32) (ahead : Nat) :
    UpToDate (batchStretch ahead stretch) := by
  have hdma : ∀ s ∈ arrange stretch, s.isDma = true := fun s => isDma_of_mem_arrange
  rw [dmaRecords_of_forall_isDma hdma] at h
  have hsplit := recordCount_append ((arrange stretch).take ahead) ((arrange stretch).drop ahead)
  rw [List.take_append_drop] at hsplit
  unfold batchStretch
  dsimp only
  split
  · exact upToDate_asBlock hdma h
  · rename_i hcompute
    have hblock : ∀ s ∈ stretch.filter Segment.isCompute, s.isBlock = false := by
      intro s hs
      have := (List.mem_filter.mp hs).2
      cases s <;> simp_all [Segment.isCompute, Segment.isBlock]
    have hrun : ∀ rest, dmaRun (stretch.filter Segment.isCompute ++ rest) = [] := by
      intro rest
      obtain ⟨c, cs, hcs⟩ := List.exists_cons_of_ne_nil (mt List.isEmpty_iff.mpr hcompute)
      have hc : c.isCompute = true :=
        (List.mem_filter.mp (hcs ▸ List.mem_cons_self : c ∈ stretch.filter Segment.isCompute)).2
      rw [hcs]
      refine List.takeWhile_cons_of_neg ?_
      cases c <;> simp_all [Segment.isCompute, Segment.isDma]
    rw [List.append_assoc, upToDate_append (hrun _), upToDate_append_of_no_block hblock]
    exact ⟨upToDate_asBlock (fun s hs => hdma s (List.mem_of_mem_take hs)) (by omega),
      upToDate_asBlock (fun s hs => hdma s (List.mem_of_mem_drop hs)) (by omega)⟩

theorem conserves_batchStretch (ahead : Nat) (stretch : List Segment) :
    Conserves stretch (batchStretch ahead stretch) := by
  have hdma : ∀ s ∈ arrange stretch, s.isDma = true := fun s => isDma_of_mem_arrange
  refine (conserves_arrange stretch).trans (.of_perm (.of_eq ?_))
  rw [filter_isDma_batchStretch, List.filter_eq_self.mpr hdma]

theorem regular_batchStretch (h : ∀ t, .transfer t ∈ stretch → t.Regular tails) (ahead : Nat) :
    ∀ t, .transfer t ∈ batchStretch ahead stretch → t.Regular tails := by
  intro t ht
  have hmem : .transfer t ∈ arrange stretch := by
    rw [← filter_isDma_batchStretch ahead]
    exact List.mem_filter.mpr ⟨ht, rfl⟩
  obtain ⟨window, hw, ht⟩ := List.mem_flatMap.mp hmem
  exact regular_arrangeWindow (fun u hu => h u (isDma_of_mem_window hw hu).1) t ht

theorem isBoundary_of_mem_stretches {p : Segment × List Segment} (h : p ∈ (stretches segments).2) :
    p.1.isBoundary = true := by
  have hmem : p.1 ∈ boundaries segments := by
    rw [boundaries_eq_map_stretches]
    exact List.mem_map_of_mem h
  exact (List.mem_filter.mp hmem).2

theorem upToDate_cons_of_isBoundary {s : Segment} (h : s.isBoundary = true) (rest : List Segment) :
    dmaRun (s :: rest) = [] ∧ (UpToDate (s :: rest) ↔ UpToDate rest) := by
  cases s with
  | sync _ | padding _ | scatter _ => exact ⟨rfl, Iff.rfl⟩
  | transfer _ | loop _ | compute _ | block _ => cases h

theorem sublist_of_mem_stretches {p : Segment × List Segment} (h : p ∈ (stretches segments).2) :
    p.2.Sublist segments := by
  have hpiece : (p.1 :: p.2).Sublist ((stretches segments).2.flatMap fun p => p.1 :: p.2) :=
    List.sublist_flatten_of_mem (List.mem_map_of_mem h)
  rw [← flatten_stretches segments]
  exact ((List.sublist_cons_self _ _).trans hpiece).trans (List.sublist_append_right _ _)

theorem sublist_first_stretch (segments : List Segment) :
    (stretches segments).1.Sublist segments := by
  conv_rhs => rw [← flatten_stretches segments]
  exact List.sublist_append_left _ _

theorem FitsCounters.exists_batch (h : FitsCounters segments) (ahead : Nat) :
    ∃ out, batch segments ahead = .ok out ∧ Settled out := by
  set first := (stretches segments).1
  set more := (stretches segments).2
  have hparts : first ++ more.flatMap (fun p => p.1 :: p.2) = segments := flatten_stretches segments
  have hmarkers : ∀ {stretch}, stretch.Sublist segments → UpToDate (batchStretch ahead stretch) :=
    fun hsub => upToDate_batchStretch
      ((conserves_arrange _).records.trans_lt (h.of_sublist hsub).records) ahead
  set out := batchStretch ahead first ++ more.flatMap fun p => p.1 :: batchStretch ahead p.2
    with hout
  have hwhole : Conserves segments out := by
    rw [← hparts]
    exact (conserves_batchStretch ahead first).append
      (.flatMap fun p _ => (Conserves.refl [p.1]).append (conserves_batchStretch ahead p.2))
  have hfits := h.of_conserves hwhole
  refine ⟨out, ?_, hfits, ?_⟩
  · refine bind_eq_ok_iff.mpr ⟨_, liftM_checked_eq_ok_iff.mpr h.countElements,
      bind_eq_ok_iff.mpr ⟨_, liftM_checked_eq_ok_iff.mpr hfits.countElements, ?_⟩⟩
    exact if_neg (by rw [hwhole.words]; simp)
  · have hstart : ∀ piece ∈ more.map (fun p => p.1 :: batchStretch ahead p.2),
        dmaRun piece = [] ∧ UpToDate piece := by
      intro piece hmem
      obtain ⟨p, hp, rfl⟩ := List.mem_map.mp hmem
      obtain ⟨hrun, hmarker⟩ := upToDate_cons_of_isBoundary (isBoundary_of_mem_stretches hp)
        (batchStretch ahead p.2)
      exact ⟨hrun, hmarker.mpr (hmarkers (sublist_of_mem_stretches hp))⟩
    have hrun := dmaRun_flatten_of_nil fun piece hmem => (hstart piece hmem).1
    have hiff := upToDate_flatten fun piece hmem => (hstart piece hmem).1
    rw [hout, List.flatMap_def, upToDate_append hrun]
    exact ⟨hmarkers (sublist_first_stretch segments),
      hiff.mpr fun piece hmem => (hstart piece hmem).2⟩

theorem exists_batch (h : RegularStream tails segments) (ahead : Nat) :
    ∃ out, batch segments ahead = .ok out ∧ RegularStream tails out ∧ Settled out := by
  obtain ⟨out, hout, hsettled⟩ := h.toFitsCounters.exists_batch ahead
  refine ⟨out, hout, ⟨hsettled.toFitsCounters, ?_⟩, hsettled⟩
  have hregular : ∀ {stretch}, stretch.Sublist segments →
      ∀ t, .transfer t ∈ batchStretch ahead stretch → t.Regular tails :=
    fun hsub => regular_batchStretch (h.of_sublist hsub).transfers ahead
  intro t ht
  rw [batch_eq_ok hout, List.mem_append, List.mem_flatMap] at ht
  obtain ht | ⟨p, hp, ht⟩ := ht
  · exact hregular (sublist_first_stretch segments) t ht
  · obtain ht | ht := List.mem_cons.mp ht
    · have hboundary := isBoundary_of_mem_stretches hp
      rw [← ht] at hboundary
      cases hboundary
    · exact hregular (sublist_of_mem_stretches hp) t ht

end Batching

/-! ## Spreading stores -/

section Spreading

variable {segments span span' : List Segment}

variable (hspan : ∃ count body, span = .block count :: body)

include hspan

theorem exists_spreadSpan (h : elementTotal span < 2 ^ 64) :
    ∃ span', spreadSpan span = .ok span' := by
  obtain ⟨count, body, rfl⟩ := hspan
  unfold spreadSpan
  cases hcandidate : spreadSpan? (.block count :: body) with
  | none => exact ⟨_, rfl⟩
  | some candidate =>
    have hwords := (heldBack_spreadSpan? hcandidate).conserves.words
    have haccepts : ∃ b, acceptsSpread (.block count :: body) candidate = .ok b := by
      unfold acceptsSpread
      cases checkBlocks candidate with
      | error f => exact ⟨_, rfl⟩
      | ok =>
        dsimp only
        rw [countElements_eq_ok_iff.mpr ⟨rfl, h⟩, ok_bind,
          countElements_eq_ok_iff.mpr ⟨hwords, h⟩, ok_bind]
        exact ⟨_, rfl⟩
    obtain ⟨b, hb⟩ := haccepts
    dsimp only
    rw [hb]
    exact ⟨_, rfl⟩

theorem dmaRun_spreadSpan (h : spreadSpan span = .ok span') : dmaRun span' = [] := by
  obtain ⟨count, body, rfl⟩ := hspan
  obtain ⟨-, rfl⟩ | ⟨-, hsome⟩ := spreadSpan_cases h
  · rfl
  · obtain ⟨rest, -, -, -, rfl⟩ := spreadSpan?_eq_some hsome
    rw [dmaRun_refreshBlocks]
    rfl

theorem upToDate_spreadSpan? (h : FitsCounters span) {candidate : List Segment}
    (hsome : spreadSpan? span = some candidate) : UpToDate candidate := by
  obtain ⟨count, body, rfl⟩ := hspan
  have hcandidate := h.of_conserves (heldBack_spreadSpan? hsome).conserves
  obtain ⟨rest, -, -, -, rfl⟩ := spreadSpan?_eq_some hsome
  have hfits := hcandidate.of_conserves
    (.of_eraseCount_perm (.of_eq (map_eraseCount_refreshBlocks _)))
  exact hfits.settled_refreshBlocks.markers

theorem upToDate_spreadSpan (h : Settled span) (hspread : spreadSpan span = .ok span') :
    UpToDate span' := by
  obtain ⟨-, rfl⟩ | ⟨-, hsome⟩ := spreadSpan_cases hspread
  · exact h.markers
  · exact upToDate_spreadSpan? hspan h.toFitsCounters hsome

omit hspan

section Spans

variable {index : Nat} {first : List Segment} {spans : List (List Segment)}
  (hparts : storeSpans index segments = .ok (first, spans))

include hparts

theorem sublist_of_mem_storeSpans (hspan : span ∈ spans) : span.Sublist segments := by
  rw [← (storeSpans_flatten hparts).1]
  exact (List.sublist_flatten_of_mem hspan).trans (List.sublist_append_right _ _)

theorem dmaRun_of_mem_storeSpans : ∀ span ∈ spans, dmaRun span = [] := by
  intro span hspan
  obtain ⟨count, rest, rfl⟩ := (storeSpans_flatten hparts).2 span hspan
  rfl

theorem exists_mapM_spreadSpan (hwords : elementTotal segments < 2 ^ 64) :
    ∃ spans', spans.mapM spreadSpan = .ok spans' := by
  apply exists_mapM_eq_ok_iff.mpr
  intro span hspan
  have hle := elementTotal_le_of_sublist (sublist_of_mem_storeSpans hparts hspan)
  exact exists_spreadSpan ((storeSpans_flatten hparts).2 span hspan) (hle.trans_lt hwords)

theorem dmaRun_of_mem_mapM_spreadSpan {spans' : List (List Segment)}
    (h : spans.mapM spreadSpan = .ok spans') : ∀ span' ∈ spans', dmaRun span' = [] := by
  intro span' hspan'
  obtain ⟨span, hspan, hspread⟩ := exists_of_mem_mapM h hspan'
  exact dmaRun_spreadSpan ((storeSpans_flatten hparts).2 span hspan) hspread

end Spans

/-- Spreading the stores of a stream whose markers are up to date succeeds. -/
theorem Settled.exists_spreadStores (h : Settled segments) :
    ∃ out, spreadStores segments = .ok out ∧ Settled out := by
  have hchecked := h.markers.checkBlocksFrom 0
  rw [checkBlocksFrom_eq_map_storeSpans] at hchecked
  obtain ⟨⟨first, spans⟩, hparts, -⟩ := map_eq_ok_iff.mp hchecked
  obtain ⟨hflatten, hblocks⟩ := storeSpans_flatten hparts
  have hmarkers := h.markers
  have hstart := dmaRun_of_mem_storeSpans hparts
  rw [← hflatten, upToDate_append (dmaRun_flatten_of_nil hstart),
    upToDate_flatten hstart] at hmarkers
  obtain ⟨spans', hspans'⟩ := exists_mapM_spreadSpan hparts h.words
  have hout := spreadStores_of_spans hparts hspans'
  refine ⟨_, hout, h.toFitsCounters.of_conserves (heldBack_spreadStores hout).conserves, ?_⟩
  have hstart' := dmaRun_of_mem_mapM_spreadSpan hparts hspans'
  rw [upToDate_append (dmaRun_flatten_of_nil hstart'), upToDate_flatten hstart']
  constructor
  · exact hmarkers.1
  · intro span' hspan'
    obtain ⟨span, hspan, hspread⟩ := exists_of_mem_mapM hspans' hspan'
    have hfits := h.toFitsCounters.of_sublist (sublist_of_mem_storeSpans hparts hspan)
    exact upToDate_spreadSpan (hblocks span hspan) ⟨hfits, hmarkers.2 span hspan⟩ hspread

end Spreading

/-! ## Rolling and balancing -/

section Rearranging

variable {segments : List Segment}

theorem Settled.exists_rollLoops (h : Settled segments) (minLen : Nat) :
    ∃ out, rollLoops segments minLen = .ok out ∧ Settled out := by
  have hmin := le_max_right minLen 2
  have hconserves := conserves_rolled hmin segments
  have hrolls := rolls_mapRuns hmin segments
  set rolled := mapRuns Transfer.sameShape (rollRun (max minLen 2)) segments with hrolled
  have hsettled := (h.toFitsCounters.of_conserves hconserves).settled_refreshBlocks
  have hcount : unrolledCount (refreshBlocks rolled) = unrolledCount segments := by
    rw [unrolledCount_refreshBlocks, hrolls.unrolledCount_eq]
  have hafter := hsettled.toFitsCounters.countElements
  rw [(hconserves.trans (conserves_refreshBlocks rolled)).words] at hafter
  refine ⟨_, ?_, hsettled⟩
  unfold rollLoops
  rw [h.toFitsCounters.countElements, liftM_checked_ok]
  simp [← hrolled, hcount, hafter, liftM_checked_ok]

def Segment.outline : Segment → Segment
  | .transfer _ => .transfer (.row .load1d 0 0 0 0 0)
  | s => s

theorem recordCount_dmaRun_map_outline (segments : List Segment) :
    recordCount (dmaRun (segments.map Segment.outline)) = recordCount (dmaRun segments) := by
  induction segments with
  | nil => rfl
  | cons s rest ih =>
    cases s with
    | transfer _ | loop _ => exact congrArg (_ + ·) ih
    | compute _ | block _ | sync _ | padding _ | scatter _ => rfl

theorem upToDate_map_outline (segments : List Segment) :
    UpToDate (segments.map Segment.outline) ↔ UpToDate segments := by
  induction segments with
  | nil => rfl
  | cons s rest ih =>
    cases s with
    | block count => exact and_congr (by rw [recordCount_dmaRun_map_outline]) ih
    | transfer _ | loop _ | compute _ | sync _ | padding _ | scatter _ => exact ih

theorem map_outline_balance (segments : List Segment) (loads : Bool) :
    (CommandStream.balance segments loads).map Segment.outline = segments.map Segment.outline := by
  unfold CommandStream.balance permuteRuns
  refine mapRuns_rel (R := fun a b => a.map Segment.outline = b.map Segment.outline)
    (fun _ => rfl) (fun ha hb => by rw [List.map_append, List.map_append, ha, hb]) ?_ segments
  intro run
  simp [Segment.outline, Function.comp_def, (balanceRun_perm loads run).length_eq]

theorem Settled.balance (h : Settled segments) (loads : Bool) :
    Settled (CommandStream.balance segments loads) where
  toFitsCounters := h.toFitsCounters.of_conserves (conserves_permuteRuns (balanceRun_perm loads) _)
  markers := by
    rw [← upToDate_map_outline, map_outline_balance, upToDate_map_outline]
    exact h.markers

end Rearranging

/-! ## Stages -/

namespace Optimized

variable {o : Optimized} {pass : Pass} {run : List Segment → Outcome (List Segment)}

theorem exists_stage {enabled : Bool} {Q : List Segment → Prop}
    (hskip : enabled = false → Q o.segments)
    (hrun : enabled = true → ∃ out, run o.segments = .ok out ∧ Settled out ∧ Q out) :
    ∃ o', o.stage pass enabled run = .ok o' ∧ Q o'.segments := by
  cases enabled with
  | false => exact ⟨o, rfl, hskip rfl⟩
  | true =>
    obtain ⟨out, hout, hsettled, hQ⟩ := hrun rfl
    have hblocks : checkBlocks out = .ok () := hsettled.markers.checkBlocksFrom 0
    refine ⟨_, bind_eq_ok_iff.mpr ⟨out, hout, bind_eq_ok_iff.mpr ⟨(),
      liftM_fault_eq_ok_iff.mpr hblocks, bind_eq_ok_iff.mpr ⟨_,
        liftM_checked_eq_ok_iff.mpr hsettled.toFitsCounters.countElements, rfl⟩⟩⟩, hQ⟩

theorem exists_stage_of_settled {enabled : Bool} (h : Settled o.segments)
    (hrun : ∀ {segments}, Settled segments → ∃ out, run segments = .ok out ∧ Settled out) :
    ∃ o', o.stage pass enabled run = .ok o' ∧ Settled o'.segments := by
  refine exists_stage (fun _ => h) fun _ => ?_
  obtain ⟨out, hout, hsettled⟩ := hrun h
  exact ⟨out, hout, hsettled, hsettled⟩

theorem stage_eq_error {e : Failure} (h : run o.segments = .error e) :
    o.stage pass true run = .error e := by
  unfold stage
  rw [h]
  rfl

theorem stage_merge_cases {tails : Set UInt8} (h : RegularStream tails o.segments) (enabled : Bool)
    (maxElements : Nat) :
    (∃ o' kept, o.stage .merge enabled (merge · maxElements) = .ok o' ∧
      RegularStream kept o'.segments ∧ (enabled = true → kept = ∅ ∧ Settled o'.segments)) ∨
    (enabled = true ∧ ∃ index, ∃ n ∈ tails, n ≠ 0 ∧
      o.stage .merge enabled (merge · maxElements) = .error (.fault (.discardOnRect index n))) := by
  cases enabled with
  | false => exact .inl ⟨o, tails, rfl, h, fun h => nomatch h⟩
  | true =>
    obtain ⟨out, hout, hregular, hsettled⟩ | ⟨index, n, hn, hne, herror⟩ :=
      merge_cases h maxElements
    · have hstage : ∃ o', o.stage .merge true (merge · maxElements) = .ok o' ∧
          (RegularStream ∅ o'.segments ∧ Settled o'.segments) :=
        exists_stage (Q := fun s => RegularStream ∅ s ∧ Settled s) (fun h => nomatch h)
          fun _ => ⟨out, hout, hsettled, hregular, hsettled⟩
      obtain ⟨o', ho', hregular, hsettled⟩ := hstage
      exact .inl ⟨o', ∅, ho', hregular, fun _ => ⟨rfl, hsettled⟩⟩
    · exact .inr ⟨rfl, index, n, hn, hne, stage_eq_error herror⟩

end Optimized

/-! ## The whole pipeline -/

/-- The faults of a transfer that does not fit the hardware or the pad widths. -/
def Fault.isPrecondition : Fault → Bool
  | .maskOutOfRange .. | .paddingExceedsTransfer .. => true
  | _ => false

theorem Transfer.isPrecondition_of_check {t : Transfer} {index : Nat} {hw : Hardware}
    {pad : PadWidths} {f : Fault} (h : t.check index hw pad = .error f) :
    f.isPrecondition = true := by
  obtain h | ⟨-, -, h⟩ := bind_eq_error_iff.mp h
  · unfold checkMasks at h
    split at h
    · cases h; rfl
    · split at h
      · cases h; rfl
      · cases h
  · split at h
    · unfold checkPadding at h
      dsimp only at h
      split at h
      · cases h; rfl
      · split at h
        · cases h; rfl
        · cases h
    · cases h

theorem isPrecondition_of_checkTransfersFrom {hw : Hardware} {index : Nat} {pad : PadWidths}
    {segments : List Segment} {f : Fault}
    (h : checkTransfersFrom hw index pad segments = .error f) : f.isPrecondition = true := by
  induction segments generalizing index pad with
  | nil => cases h
  | cons s rest ih =>
    cases s with
    | transfer t =>
      obtain h | ⟨-, -, h⟩ := bind_eq_error_iff.mp h
      · exact Transfer.isPrecondition_of_check h
      · exact ih h
    | loop l =>
      obtain h | ⟨-, -, h⟩ := bind_eq_error_iff.mp h
      · exact Transfer.isPrecondition_of_check h
      · exact ih h
    | compute _ | block _ | sync _ | padding _ | scatter _ => exact ih h

/-- A stream whose rows have one line and whose rectangles have a pitch is optimised under any
markers, unless its check or the tail of a rectangle stands against it. -/
theorem optimize_refuses_only {segments : List Segment} {pad : PadWidths} {cfg : Settings}
    (hrows : ∀ t, .transfer t ∈ segments → t.isRect = false → t.height = 1)
    (hrects : ∀ t, .transfer t ∈ segments → t.isRect = true → ¬(t.width = 0 ∧ t.leap = 0))
    (hrecords : recordCount segments < 2 ^ 32) (hwords : elementTotal segments < 2 ^ 64)
    (hcfg : cfg.pipeline.merge = true ∨ cfg.pipeline.blocks = true) :
    (∃ o, optimize segments pad cfg = .ok o) ∨
    (∃ f, checkTransfers segments cfg.hardware pad = .error f ∧ f.isPrecondition = true ∧
      optimize segments pad cfg = .error (.fault f)) ∨
    (cfg.pipeline.merge = true ∧ ∃ index t, .transfer t ∈ segments ∧ t.isRect = true ∧
      t.skipped ≠ 0 ∧
      optimize segments pad cfg = .error (.fault (.discardOnRect index t.skipped))) := by
  cases hcheck : checkTransfers segments cfg.hardware pad with
  | error f =>
    refine .inr (.inl ⟨f, rfl, isPrecondition_of_checkTransfersFrom hcheck, ?_⟩)
    unfold optimize
    dsimp only
    rw [hcheck]
    rfl
  | ok =>
    have hregular : RegularStream
        {n | ∃ t, .transfer t ∈ segments ∧ t.isRect = true ∧ t.skipped = n}
        ({ segments := segments } : Optimized).segments := {
      words := hwords
      records := (dmaRecords_le_recordCount segments).trans_lt hrecords
      transfers := fun t ht => ⟨hrows t ht, hrects t ht, fun hrect => .inr ⟨t, ht, hrect, rfl⟩⟩ }
    obtain ⟨o₁, kept, h₁, hregular₁, hmerged⟩ |
        ⟨hmerge, index, _, ⟨t, ht, hrect, rfl⟩, hne, herror⟩ :=
      Optimized.stage_merge_cases hregular cfg.pipeline.merge
        cfg.hardware.maxTransferElements.toNat
    · obtain ⟨o₂, h₂, hregular₂, hsettled₂⟩ : ∃ o₂,
          o₁.stage .blocks cfg.pipeline.blocks (batch · cfg.pipeline.blockSplit) = .ok o₂ ∧
            RegularStream kept o₂.segments ∧ Settled o₂.segments := by
        refine Optimized.exists_stage (Q := fun s => RegularStream kept s ∧ Settled s)
          (fun hoff => ⟨hregular₁, (hmerged (hcfg.resolve_right (by simp [hoff]))).2⟩) fun _ => ?_
        obtain ⟨out, hout, hregular, hsettled⟩ := exists_batch hregular₁ cfg.pipeline.blockSplit
        exact ⟨out, hout, hsettled, hregular, hsettled⟩
      obtain ⟨o₃, h₃, hsettled₃⟩ : ∃ o₃,
          o₂.stage .merge (cfg.pipeline.blocks && cfg.pipeline.merge)
            (merge · cfg.hardware.maxTransferElements.toNat) = .ok o₃ ∧ Settled o₃.segments := by
        refine Optimized.exists_stage (fun _ => hsettled₂) fun hon => ?_
        obtain ⟨rfl, -⟩ := hmerged (Bool.and_eq_true_iff.mp hon).2
        obtain ⟨out, hout, -, hsettled⟩ | ⟨_, _, htail, -⟩ := merge_cases hregular₂ _
        · exact ⟨out, hout, hsettled, hsettled⟩
        · exact htail.elim
      obtain ⟨o₄, h₄, hsettled₄⟩ := Optimized.exists_stage_of_settled hsettled₃
        Settled.exists_spreadStores
      obtain ⟨o₅, h₅, hsettled₅⟩ := Optimized.exists_stage_of_settled hsettled₄
        (Settled.exists_rollLoops · cfg.pipeline.minLoopLen)
      obtain ⟨o₆, h₆, -⟩ := Optimized.exists_stage_of_settled hsettled₅
        fun h => ⟨_, rfl, h.balance cfg.pipeline.balanceLoads⟩
      refine .inl ⟨o₆, ?_⟩
      unfold optimize
      simp only [bind_eq_ok_iff, liftM_fault_eq_ok_iff]
      exact ⟨(), hcheck, o₁, h₁, o₂, h₂, o₃, h₃, o₄, h₄, o₅, h₅, h₆⟩
    · refine .inr (.inr ⟨hmerge, index, t, ht, hrect, hne, ?_⟩)
      unfold optimize
      dsimp only
      rw [hcheck, herror]
      rfl

def staleMarkers : List Segment :=
  [.block 7, .transfer (.row .load1d 1 1 0x1000 0 8),
    .transfer (.rect .load2d 1 3 0x2000 8 4 2 9), .sync .dma,
    .block 0, .transfer (.row .store1d 1 1 0x4000 0 8)]

theorem optimize_refuses_only_staleMarkers :
    checkBlocks staleMarkers = .error (.malformedBlock 0 7 2) ∧
      ∃ o, optimize staleMarkers {} {} = .ok o := by
  refine ⟨by decide, ?_⟩
  have hcheck : checkTransfers staleMarkers ({} : Settings).hardware {} = .ok () := by decide
  have htails : ∀ t, .transfer t ∈ staleMarkers → t.skipped = 0 := by
    simp [staleMarkers, Transfer.row, Transfer.rect]
  obtain h | ⟨f, herror, -⟩ | ⟨-, _, t, ht, -, hne, -⟩ :=
    @optimize_refuses_only staleMarkers {} {}
      (by simp [staleMarkers, Transfer.row, Transfer.rect, Transfer.isRect, Direction.toRect,
        Direction.isRect, Direction.isStore])
      (by simp [staleMarkers, Transfer.row, Transfer.rect, Transfer.isRect])
      (by decide) (by decide +kernel) (.inl rfl)
  · exact h
  · cases hcheck.symm.trans herror
  · exact absurd (htails t ht) hne

end CommandStream
