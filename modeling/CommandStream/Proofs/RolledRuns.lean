import CommandStream.Proofs.Dispatch
import CommandStream.Proofs.LoopExpansion
import CommandStream.Proofs.MaskMoves

/-! # Rolling loops is invisible at run time

A marker that is up to date takes the whole run behind it. So what the scheduler does at a run does
not depend on how its transfers are written: unrolling a stream unrolls its primitives one by one,
and an unrolled primitive books what the primitive books, record counts of blocks apart. Where the
records behind a marker cannot be counted in a word, a block can lose transfers.
-/

namespace CommandStream

/-! ## Runs that lose records -/

/-- No more records stand at the front of the first stream and behind its markers. -/
structure NoLarger (x y : List Segment) : Prop where
  front : recordCount (dmaRun x) ≤ recordCount (dmaRun y)
  blocks : largestBlock x ≤ largestBlock y

theorem NoLarger.cons {x y : List Segment} (h : NoLarger x y) (s : Segment) :
    NoLarger (s :: x) (s :: y) := by
  cases s with
  | transfer _ | loop _ => exact ⟨Nat.add_le_add_left h.front _, h.blocks⟩
  | block count => exact ⟨le_rfl, max_le_max h.front h.blocks⟩
  | compute _ | sync _ | padding _ | scatter _ => exact ⟨le_rfl, h.blocks⟩

/-- Whatever stands behind, the first stream may take the place of the second. A run may go on in
what stands behind it, so the two cannot be compared on their own. -/
def Shrinks (a b : List Segment) : Prop := ∀ x y, NoLarger x y → NoLarger (a ++ x) (b ++ y)

namespace Shrinks

theorem refl (a : List Segment) : Shrinks a a := by
  intro x y h
  induction a with
  | nil => exact h
  | cons s a ih => exact ih.cons s

theorem append {a a' b b' : List Segment} (ha : Shrinks a a') (hb : Shrinks b b') :
    Shrinks (a ++ b) (a' ++ b') := by
  intro x y h
  rw [List.append_assoc, List.append_assoc]
  exact ha _ _ (hb _ _ h)

theorem of_isDma {a b : List Segment} (ha : ∀ s ∈ a, s.isDma = true) (hb : ∀ s ∈ b, s.isDma = true)
    (h : recordCount a ≤ recordCount b) : Shrinks a b := by
  rintro x y ⟨hfront, hblocks⟩
  constructor
  · rw [dmaRun_append ha, dmaRun_append hb, recordCount_append, recordCount_append]
    exact Nat.add_le_add h hfront
  · rwa [largestBlock_append ha, largestBlock_append hb]

end Shrinks

theorem shrinks_rollRun {minLen : Nat} (hmin : 2 ≤ minLen) (run : List Transfer) :
    Shrinks (rollRun minLen run) (run.map .transfer) := by
  have hrolled : ∀ s ∈ rollRun minLen run, s.isDma = true := fun s hs =>
    (isRolled_of_mem_rollRun hs).isDma
  exact .of_isDma hrolled (by simp [Segment.isDma]) (rolls_rollRun hmin run).records_le

theorem largestBlock_mapRuns_le {minLen : Nat} (hmin : 2 ≤ minLen) (segments : List Segment) :
    largestBlock (mapRuns Transfer.sameShape (rollRun minLen) segments) ≤
      largestBlock segments := by
  have hshrinks : Shrinks (mapRuns Transfer.sameShape (rollRun minLen) segments) segments :=
    mapRuns_rel Shrinks.refl Shrinks.append (shrinks_rollRun hmin) segments
  have h := hshrinks [] [] ⟨le_rfl, le_rfl⟩
  rw [List.append_nil, List.append_nil] at h
  exact h.blocks

/-! ## Walks -/

section Walk

variable (ctx : Context) (p : LayerParams) (points : List UInt16)

/-- The primitives for a stream in which each marker takes the whole run behind it. If `batched`
holds, the run at the front has been taken. -/
def walk : Bool → Extent → List Segment → List Primitive
  | _, _, [] => []
  | batched, e, s :: rest =>
    match s with
    | .block _ => .dmaBlock (dmaRun rest) :: walk true (ctx.extentAtBlock e (dmaRun rest)) rest
    | .transfer _ | .loop _ =>
      if batched then walk true e rest else .dmaIssue s :: walk false e rest
    | .compute c =>
      ctx.primitives p (ctx.resolve e c) ++ walk false (Context.extentAfter e points c) rest
    | .sync kind => .wait kind :: walk false e rest
    | .padding widths => .setPad widths :: walk false e rest
    | .scatter _ => walk false e rest

variable {ctx p points}

theorem primitives_planFrom {segments : List Segment} (h : UpToDate segments) (index : Nat)
    (batched : Bool) (e : Extent) :
    (planFrom ctx p points index (if batched then (dmaRun segments).length else 0) e
      segments).primitives = walk ctx p points batched e segments := by
  -- What is still to be skipped is the run at the front, if the last marker took it.
  induction segments generalizing index batched e with
  | nil => cases batched <;> rfl
  | cons s rest ih =>
    cases s with
    | transfer _ | loop _ =>
      cases batched with
      | true => exact ih h (index + 1) true e
      | false => exact congrArg (_ :: ·) (ih h (index + 1) false e)
    | block count =>
      have hfetched : (if batched then (dmaRun (.block count :: rest)).length else 0) = 0 :=
        ite_self 0
      rw [hfetched, planFrom, blockBody_of_eq h.1]
      exact congrArg (_ :: ·) (ih h.2 (index + 1) true _)
    | compute c => cases batched <;> exact congrArg (_ ++ ·) (ih h (index + 1) false _)
    | sync kind => cases batched <;> exact congrArg (_ :: ·) (ih h (index + 1) false e)
    | padding widths => cases batched <;> exact congrArg (_ :: ·) (ih h (index + 1) false e)
    | scatter _ => cases batched <;> exact ih h (index + 1) false e

/-! ## Unrolled primitives -/

theorem isDma_of_mem_unroll {s u : Segment} (hs : s.isDma = true) (hu : u ∈ s.unroll) :
    u.isDma = true := by
  cases s with
  | transfer t =>
    obtain rfl := List.mem_singleton.mp hu
    rfl
  | loop l =>
    obtain ⟨t, -, rfl⟩ := List.mem_map.mp hu
    rfl
  | compute _ | block _ | sync _ | padding _ | scatter _ => cases hs

theorem dmaRun_unroll (segments : List Segment) :
    dmaRun (unroll segments) = unroll (dmaRun segments) := by
  induction segments with
  | nil => rfl
  | cons s rest ih =>
    cases hs : s.isDma with
    | true =>
      have hrun : dmaRun (s :: rest) = s :: dmaRun rest := List.takeWhile_cons_of_pos hs
      rw [hrun, unroll, List.flatMap_cons, dmaRun_append fun u => isDma_of_mem_unroll hs]
      exact congrArg (s.unroll ++ ·) ih
    | false =>
      cases s with
      | transfer _ | loop _ => cases hs
      | compute _ | block _ | sync _ | padding _ | scatter _ => rfl

theorem map_eraseCount_unroll_loop (l : TransferLoop) (rest : List Segment) :
    (unroll (.loop l :: rest)).map Segment.eraseCount =
      l.expand.map .transfer ++ (unroll rest).map Segment.eraseCount := by
  simp [unroll, Segment.unroll, Segment.eraseCount]

theorem dmaRun_map_eraseCount (segments : List Segment) :
    dmaRun (segments.map Segment.eraseCount) = dmaRun segments := by
  induction segments with
  | nil => rfl
  | cons s rest ih =>
    cases s with
    | transfer _ | loop _ => exact congrArg (_ :: ·) ih
    | compute _ | block _ | sync _ | padding _ | scatter _ => rfl

theorem flatMap_transfers_unroll (body : List Segment) :
    (unroll body).flatMap Segment.transfers = body.flatMap Segment.transfers :=
  issued_unroll body

def Primitive.unroll : Primitive → List Primitive
  | .dmaBlock body => [.dmaBlock (CommandStream.unroll body)]
  | .dmaIssue s => s.unroll.map .dmaIssue
  | q => [q]

/-- The transfers of a run that a marker has not taken are issued, and those of a run that it has
taken are not issued again. -/
theorem walk_transfers (batched : Bool) (e : Extent) (ts : List Transfer) (rest : List Segment) :
    walk ctx p points batched e (ts.map .transfer ++ rest) =
      (if batched then [] else (ts.map .transfer).map .dmaIssue) ++
        walk ctx p points batched e rest := by
  induction ts with
  | nil => cases batched <;> rfl
  | cons t ts ih =>
    cases batched with
    | true => exact ih
    | false => exact congrArg (_ :: ·) ih

theorem Context.extentAtBlock_unroll (ctx : Context) (e : Extent) (body : List Segment) :
    ctx.extentAtBlock e (unroll body) = ctx.extentAtBlock e body := by
  unfold extentAtBlock longestRow
  rw [flatMap_transfers_unroll]

theorem Quiet.flatMap_unroll {qs : List Primitive} (h : Quiet qs) :
    qs.flatMap Primitive.unroll = qs := by
  have hself : ∀ q ∈ qs, q.unroll = [q] := by
    intro q hq
    have hdma := h q hq
    cases q with
    | dmaBlock _ | dmaIssue _ => cases hdma
    | _ => rfl
  rw [List.flatMap_congr hself, List.flatMap_singleton']

/-- Unrolling a stream unrolls its primitives, and the counts of its markers do not matter. -/
theorem walk_unroll (batched : Bool) (e : Extent) (segments : List Segment) :
    walk ctx p points batched e ((unroll segments).map Segment.eraseCount) =
      (walk ctx p points batched e segments).flatMap Primitive.unroll := by
  induction segments generalizing batched e with
  | nil => rfl
  | cons s rest ih =>
    cases s with
    | transfer t =>
      cases batched with
      | true => exact ih true e
      | false => exact congrArg (_ :: ·) (ih false e)
    | loop l =>
      rw [map_eraseCount_unroll_loop, walk_transfers, ih]
      cases batched <;> rfl
    | block count =>
      change .dmaBlock (dmaRun ((unroll rest).map Segment.eraseCount)) :: walk ctx p points true
        (ctx.extentAtBlock e (dmaRun ((unroll rest).map Segment.eraseCount)))
        ((unroll rest).map Segment.eraseCount) = _
      rw [dmaRun_map_eraseCount, dmaRun_unroll, ctx.extentAtBlock_unroll, ih]
      rfl
    | compute c =>
      change ctx.primitives p (ctx.resolve e c) ++
          walk ctx p points false _ ((unroll rest).map Segment.eraseCount) =
        (ctx.primitives p (ctx.resolve e c) ++ walk ctx p points false _ rest).flatMap _
      rw [List.flatMap_append, (ctx.quiet_primitives _ _).flatMap_unroll, ih]
    | sync kind => exact congrArg (_ :: ·) (ih false e)
    | padding widths => exact congrArg (_ :: ·) (ih false e)
    | scatter _ => exact ih false e

theorem unroll_planFrom {segments : List Segment} (h : UpToDate segments) :
    (planFrom ctx p points 0 0 {} segments).primitives.flatMap Primitive.unroll =
      walk ctx p points false {} ((unroll segments).map Segment.eraseCount) := by
  rw [walk_unroll, ← primitives_planFrom h 0 false {}]
  rfl

end Walk

theorem Primitive.charges_unroll (model : CycleModel) (q : Primitive) :
    q.unroll.flatMap (charges model) = q.charges model := by
  cases q with
  | dmaBlock body => simp [unroll, charges, flatMap_transfers_unroll]
  | dmaIssue s =>
    cases s <;> simp [unroll, charges, Segment.unroll, Segment.transfers, List.flatMap_map]
  | _ => simp [unroll]

def Event.eraseRecords : Event → Event
  | .block _ transfers => .block 0 transfers
  | e => e

theorem Primitive.events_unroll (q : Primitive) :
    (q.unroll.flatMap events).map Event.eraseRecords = q.events.map Event.eraseRecords := by
  cases q with
  | dmaBlock body => simp [unroll, events, Event.eraseRecords, flatMap_transfers_unroll]
  | dmaIssue s =>
    cases s with
    | loop l =>
      simp [unroll, events, Segment.unroll, Segment.transfers, List.flatMap_map,
        ← List.map_eq_flatMap]
    | _ => simp [unroll, events, Segment.unroll, Segment.transfers]
  | _ => simp [unroll]

theorem charges_eq_of_unroll {a b : List Primitive}
    (h : a.flatMap Primitive.unroll = b.flatMap Primitive.unroll) (model : CycleModel) :
    a.flatMap (Primitive.charges model) = b.flatMap (Primitive.charges model) := by
  have hunroll : ∀ qs : List Primitive,
      (qs.flatMap Primitive.unroll).flatMap (Primitive.charges model) =
        qs.flatMap (Primitive.charges model) := by
    intro qs
    rw [List.flatMap_assoc]
    exact List.flatMap_congr fun q _ => q.charges_unroll model
  rw [← hunroll a, h, hunroll b]

theorem events_eq_of_unroll {a b : List Primitive}
    (h : a.flatMap Primitive.unroll = b.flatMap Primitive.unroll) :
    (a.flatMap Primitive.events).map Event.eraseRecords =
      (b.flatMap Primitive.events).map Event.eraseRecords := by
  have hunroll : ∀ qs : List Primitive,
      ((qs.flatMap Primitive.unroll).flatMap Primitive.events).map Event.eraseRecords =
        (qs.flatMap Primitive.events).map Event.eraseRecords := by
    intro qs
    rw [List.flatMap_assoc, List.map_flatMap, List.map_flatMap]
    exact List.flatMap_congr fun q _ => q.events_unroll
  rw [← hunroll a, h, hunroll b]

/-! ## Layers -/

theorem filterMap_scatter?_unroll (segments : List Segment) :
    ((unroll segments).map Segment.eraseCount).filterMap Segment.scatter? =
      segments.filterMap Segment.scatter? := by
  induction segments with
  | nil => rfl
  | cons s rest ih =>
    cases s with
    | loop l =>
      rw [map_eraseCount_unroll_loop, List.filterMap_append, ih]
      simp [Segment.scatter?, Function.comp_def, List.filterMap_cons]
    | transfer _ | compute _ | block _ | sync _ | padding _ => exact ih
    | scatter c => exact congrArg (c :: ·) ih

theorem unrolledCount_eq_add (segments : List Segment) :
    unrolledCount segments = total (segments.map Segment.statedTransfers) +
      ((unroll segments).map Segment.eraseCount).countP (!·.isDma) := by
  induction segments with
  | nil => rfl
  | cons s rest ih =>
    have hcount : unrolledCount (s :: rest) = s.unrolledCount + unrolledCount rest := rfl
    have htotal : total ((s :: rest).map Segment.statedTransfers) =
      s.statedTransfers + total (rest.map Segment.statedTransfers) := rfl
    rw [hcount, htotal, ih]
    cases s with
    | loop l =>
      have htransfers : (l.expand.map Segment.transfer).countP (!·.isDma) = 0 := by
        simp [List.countP_eq_zero, Segment.isDma]
      rw [map_eraseCount_unroll_loop, List.countP_append, htransfers, Nat.zero_add, Nat.add_assoc]
      rfl
    | transfer _ => exact (Nat.add_assoc _ _ _).symm
    | compute _ | block _ | sync _ | padding _ | scatter _ =>
      change 1 + _ = 0 + _ + List.countP _ (_ :: (unroll rest).map Segment.eraseCount)
      rw [List.countP_cons_of_pos rfl]
      omega

/-- The same layer with its runs of transfers written in another way. -/
structure Rewritten (a b : Layer) : Prop where
  params : b.params = a.params
  upToDate : UpToDate a.segments
  upToDate' : UpToDate b.segments
  unroll_eq : (unroll b.segments).map Segment.eraseCount =
    (unroll a.segments).map Segment.eraseCount
  unrolledCount_eq : unrolledCount b.segments = unrolledCount a.segments

theorem rewritten_rollLoops {layer : Layer} {minLen : Nat} {out : List Segment}
    (hfresh : UpToDate layer.segments) (hroll : rollLoops layer.segments minLen = .ok out) :
    Rewritten layer { layer with segments := out } := by
  have hmin := le_max_right minLen 2
  have hwords := (upToDate_iff.mp hfresh).2
  obtain rfl := rollLoops_eq_ok hroll
  refine ⟨rfl, hfresh, ?_, unroll_refreshBlocks_mapRuns minLen layer.segments, ?_⟩
  · exact upToDate_refreshBlocks ((largestBlock_mapRuns_le hmin _).trans_lt hwords)
  · exact (unrolledCount_refreshBlocks _).trans (rolls_mapRuns hmin _).unrolledCount_eq

namespace Rewritten

variable {a b : Layer}

theorem symm (h : Rewritten a b) : Rewritten b a :=
  ⟨h.params.symm, h.upToDate', h.upToDate, h.unroll_eq.symm, h.unrolledCount_eq.symm⟩

theorem plan (h : Rewritten a b) (hw : Hardware) (points : List UInt16) :
    (b.plan hw points).failure = (a.plan hw points).failure ∧
      (b.plan hw points).primitives.flatMap Primitive.unroll =
        (a.plan hw points).primitives.flatMap Primitive.unroll := by
  cases hwalks : a.params.kind.bypassesStream with
  | true =>
    have hscatter : b.segments.filterMap Segment.scatter? =
        a.segments.filterMap Segment.scatter? := by
      rw [← filterMap_scatter?_unroll, h.unroll_eq, filterMap_scatter?_unroll]
    have hplan : b.plan hw points = a.plan hw points := by
      unfold Layer.plan
      rw [h.params, hscatter]
      obtain hkind | hkind := LayerKind.bypassesStream_iff.mp hwalks <;> simp only [hkind]
    rw [hplan]
    exact ⟨rfl, rfl⟩
  | false =>
    have hwalks' : b.params.kind.bypassesStream = false := by rw [h.params, hwalks]
    cases hctx : Context.ofLayer a.params hw with
    | error o =>
      rw [a.plan_of_error hwalks hctx, b.plan_of_error hwalks' (h.params ▸ hctx), h.params]
      exact ⟨rfl, rfl⟩
    | ok ctx =>
      rw [a.plan_of_ok hwalks hctx, b.plan_of_ok hwalks' (h.params ▸ hctx), h.params]
      constructor
      · rw [Plan.failure_after, Plan.failure_after, failure_planFrom (h.upToDate.checkBlocksFrom 0),
          failure_planFrom (h.upToDate'.checkBlocksFrom 0)]
      · unfold Plan.after
        rw [List.flatMap_append, List.flatMap_append, unroll_planFrom h.upToDate,
          unroll_planFrom h.upToDate', h.unroll_eq]

theorem statedTransfers (h : Rewritten a b) :
    total (b.walked.map Segment.statedTransfers) =
      total (a.walked.map Segment.statedTransfers) := by
  unfold Layer.walked
  rw [h.params]
  split
  · rfl
  · have ha := unrolledCount_eq_add a.segments
    have hb := unrolledCount_eq_add b.segments
    rw [h.unroll_eq, h.unrolledCount_eq] at hb
    omega

/-- A run of the one layer is a run of the other. -/
theorem run (h : Rewritten a b) {hw : Hardware} {r r₁ : Recorder} {stats : LayerStats}
    (hrun : Succeeds (runLayer a hw) r stats r₁) :
    ∃ stats' es es' r₂, Succeeds (runLayer b hw) r stats' r₂ ∧
      r₁.events = r.events ++ es ∧ r₂.events = r.events ++ es' ∧
      es'.map Event.eraseRecords = es.map Event.eraseRecords ∧ r₂.clock = r₁.clock ∧
      stats'.cycles = stats.cycles ∧ stats'.transfers = stats.transfers := by
  obtain ⟨hplan, rfl⟩ := succeeds_runLayer_iff.mp hrun
  obtain ⟨hfailure, hfits, rfl⟩ := succeeds_carryOut_iff.mp hplan
  obtain ⟨hfailure', hunroll⟩ := h.plan hw r.pillarPoints
  rw [hfailure] at hfailure'
  have hcharges : (b.plan hw r.pillarPoints).charges r.model =
      (a.plan hw r.pillarPoints).charges r.model := charges_eq_of_unroll hunroll r.model
  refine ⟨_, _, _, _, succeeds_runLayer_iff.mpr ⟨succeeds_carryOut_iff.mpr
    ⟨hfailure', hcharges ▸ hfits, rfl⟩, rfl⟩, r.events_after _ _, r.events_after _ _,
    events_eq_of_unroll hunroll, ?_, ?_, ?_⟩
  · rw [Recorder.clock_after, Recorder.clock_after, hcharges]
  · exact congrArg (fun qs => (r.clock.chargeAll qs).now - r.now) hcharges
  · simp only [Layer.stats, a.counted_plan hfailure, b.counted_plan hfailure', h.statedTransfers]

end Rewritten

/-- Rolling the loops of a layer does not show when the layer runs. Refreshing must not change its
markers, no marker may have `2 ^ 32` records or more behind it, and the words must be countable. If
then the numbers of the run stay in range, the layer and the layer with its loops rolled both
succeed with the same log, record counts of blocks apart, the same times, and the same cycles and
transfers in their statistics; otherwise both leave their words. -/
theorem runLayer_rollLoops {layer : Layer} (hfresh : refreshBlocks layer.segments = layer.segments)
    (hblocks : largestBlock layer.segments < 2 ^ 32) (hwords : elementTotal layer.segments < 2 ^ 64)
    (minLen : Nat) (hw : Hardware) (r : Recorder) :
    ∃ out, rollLoops layer.segments minLen = .ok out ∧
      ((¬layer.InRange hw r ∧ (∃ o r₁, Fails (runLayer layer hw) r (.overflow o) r₁) ∧
        ∃ o r₂, Fails (runLayer { layer with segments := out } hw) r (.overflow o) r₂) ∨
      ∃ stats stats' es es' r₁ r₂, Succeeds (runLayer layer hw) r stats r₁ ∧
        Succeeds (runLayer { layer with segments := out } hw) r stats' r₂ ∧
        r₁.events = r.events ++ es ∧ r₂.events = r.events ++ es' ∧
        es'.map Event.eraseRecords = es.map Event.eraseRecords ∧ r₂.clock = r₁.clock ∧
        stats'.cycles = stats.cycles ∧ stats'.transfers = stats.transfers) := by
  have hroll := rollLoops_of_lt hwords minLen
  have hrewritten := rewritten_rollLoops (upToDate_iff.mpr ⟨hfresh, hblocks⟩) hroll
  refine ⟨_, hroll, ?_⟩
  rcases succeeds_or_fails (runLayer layer hw) r with ⟨stats, r₁, hrun⟩ | ⟨e, r₁, hfails⟩
  · obtain ⟨stats', es, es', r₂, hrun', hsame⟩ := hrewritten.run hrun
    exact .inr ⟨stats, stats', es, es', r₁, r₂, hrun, hrun', hsame⟩
  · obtain ⟨⟨o, rfl⟩, hrange⟩ :=
      overflow_of_fails_runLayer (hrewritten.upToDate.checkBlocksFrom 0) hfails
    refine .inl ⟨hrange, ⟨o, r₁, hfails⟩, ?_⟩
    rcases succeeds_or_fails (runLayer { layer with segments := _ } hw) r with
      ⟨stats', r₂, hrun'⟩ | ⟨e', r₂, hfails'⟩
    · obtain ⟨stats, _, _, r₃, hrun, -⟩ := hrewritten.symm.run hrun'
      exact absurd hfails hrun.not_fails
    · obtain ⟨⟨o', rfl⟩, -⟩ :=
        overflow_of_fails_runLayer (hrewritten.upToDate'.checkBlocksFrom 0) hfails'
      exact ⟨o', r₂, hfails'⟩

def pillarSweep : Layer where
  params := { kind := .pointPillars, number := 3 }
  segments := refreshBlocks (unitSweep ++ .sync .dma :: unitSweep ++
    [.compute { op := .conv1dStart }, .sync .both])

theorem runLayer_rollLoops_pillarSweep :
    refreshBlocks pillarSweep.segments = pillarSweep.segments ∧
    largestBlock pillarSweep.segments < 2 ^ 32 ∧ elementTotal pillarSweep.segments < 2 ^ 64 ∧
    ∃ out, rollLoops pillarSweep.segments 5 = .ok out ∧
      recordCount out < recordCount pillarSweep.segments ∧
      ∃ stats stats' es es' r₁ r₂, Succeeds (runLayer pillarSweep {}) { now := 5 } stats r₁ ∧
        Succeeds (runLayer { pillarSweep with segments := out } {}) { now := 5 } stats' r₂ ∧
        r₁.events = es ∧ r₂.events = es' ∧
        es'.map Event.eraseRecords = es.map Event.eraseRecords ∧ r₂.clock = r₁.clock ∧
        stats'.cycles = stats.cycles ∧ stats'.transfers = stats.transfers := by
  have hfresh : refreshBlocks pillarSweep.segments = pillarSweep.segments := by decide +kernel
  have hblocks : largestBlock pillarSweep.segments < 2 ^ 32 := by decide +kernel
  have hwords : elementTotal pillarSweep.segments < 2 ^ 64 := by decide +kernel
  obtain ⟨out, hroll, hsame⟩ := runLayer_rollLoops hfresh hblocks hwords 5 {} { now := 5 }
  have hout := rollLoops_eq_ok hroll
  refine ⟨hfresh, hblocks, hwords, out, hroll, by rw [hout]; decide +kernel, ?_⟩
  rcases hsame with ⟨-, ⟨o, r₁, hfails⟩, -⟩ | h
  · obtain ⟨stats, r, hrun⟩ : ∃ stats r, Succeeds (runLayer pillarSweep {}) { now := 5 } stats r :=
      exists_succeeds (by decide +kernel)
    exact absurd hfails hrun.not_fails
  · exact h

/-! ## Streams that are too long -/

theorem mapRuns_of_isLoop {joins : Transfer → Transfer → Bool} {f : List Transfer → List Segment}
    {segments : List Segment} (h : ∀ s ∈ segments, s.isLoop = true) :
    mapRuns joins f segments = segments := by
  induction segments with
  | nil => rfl
  | cons s rest ih =>
    rw [List.forall_mem_cons] at h
    cases s with
    | loop l => exact congrArg (_ :: ·) (ih h.2)
    | transfer _ | compute _ | block _ | sync _ | padding _ | scatter _ => cases h.1

theorem mapRuns_block_cons (joins : Transfer → Transfer → Bool) (f : List Transfer → List Segment)
    (count : UInt32) (rest : List Segment) :
    mapRuns joins f (.block count :: rest) = .block count :: mapRuns joins f rest := rfl

theorem refreshBlocks_block_of_isDma {run : List Segment} (h : ∀ s ∈ run, s.isDma = true)
    (count : UInt32) :
    refreshBlocks (.block count :: run) = .block (UInt32.ofNat (recordCount run)) :: run := by
  have hrun := dmaRun_append h []
  have hkeeps := refreshBlocks_append_of_no_block (fun s hs => Segment.isBlock_of_isDma (h s hs)) []
  rw [List.append_nil] at hrun hkeeps
  rw [refreshBlocks, hkeeps, hrun]
  simp [dmaRun, refreshBlocks]

theorem primitives_planFrom_of_isDma {segments : List Segment}
    (h : ∀ s ∈ segments, s.isDma = true) (ctx : Context) (p : LayerParams) (points : List UInt16)
    (index fetched : Nat) (e : Extent) :
    (planFrom ctx p points index fetched e segments).primitives =
      (segments.drop fetched).map .dmaIssue := by
  induction segments generalizing index fetched with
  | nil => rw [List.drop_nil]; rfl
  | cons s rest ih =>
    rw [List.forall_mem_cons] at h
    cases fetched with
    | succ fetched => exact ih h.2 (index + 1) fetched
    | zero =>
      cases s with
      | transfer _ | loop _ => exact congrArg (_ :: ·) (ih h.2 (index + 1) 0)
      | compute _ | block _ | sync _ | padding _ | scatter _ => cases h.1

theorem events_map_dmaIssue (segments : List Segment) :
    (segments.map Primitive.dmaIssue).flatMap Primitive.events = (issued segments).map .dma := by
  simp [issued, List.flatMap_map, List.map_flatMap, Primitive.events]

theorem charges_map_dmaIssue (model : CycleModel) (segments : List Segment) :
    (segments.map Primitive.dmaIssue).flatMap (Primitive.charges model) =
      (issued segments).flatMap fun t => [model.writes 8, model.moving [t]] := by
  simp [issued, List.flatMap_map, List.flatMap_assoc, Primitive.charges]

/-- A layer with nothing in its header: a block, and transfers and loops outside of it. -/
def oneBlock (count : UInt32) (body others : List Segment) : Layer where
  params := {}
  segments := .block count :: (body ++ others)

section OneBlock

variable {count : UInt32} {body others : List Segment} (hbody : ∀ s ∈ body, s.isDma = true)
  (hothers : ∀ s ∈ others, s.isDma = true) (hcount : recordCount body = count.toNat)

include hbody hothers hcount

theorem plan_oneBlock :
    ((oneBlock count body others).plan {} []).failure = none ∧
      ((oneBlock count body others).plan {} []).primitives =
        .setPad {} :: .dmaBlock body :: others.map .dmaIssue := by
  have hdma : ∀ s ∈ body ++ others, s.isDma = true := List.forall_mem_append.mpr ⟨hbody, hothers⟩
  have htaken := blockBody_front hbody hcount 0 others
  have hmarkers := (upToDate_append_of_no_block
    (fun s hs => Segment.isBlock_of_isDma (hdma s hs)) []).mpr trivial
  rw [List.append_nil] at hmarkers
  obtain ⟨ctx, hctx, hsetup⟩ : ∃ ctx, Context.ofLayer {} {} = .ok ctx ∧ ctx.setup = [] :=
    ⟨_, rfl, rfl⟩
  rw [(oneBlock count body others).plan_of_ok rfl hctx, hsetup]
  constructor
  · exact failure_planFrom (bind_eq_ok_iff.mpr ⟨body, htaken, hmarkers.checkBlocksFrom 1⟩)
  · have hissue := primitives_planFrom_of_isDma hdma ctx {} [] 1 body.length
      (ctx.extentAtBlock {} body)
    rw [List.drop_left] at hissue
    change _ :: (planFrom ctx {} [] 0 0 {} (.block count :: (body ++ others))).primitives = _
    rw [planFrom, htaken]
    exact congrArg (_ :: _ :: ·) hissue

theorem succeeds_oneBlock
    (hfits : (Recorder.clock {}).FitsAll (CycleModel.writes {} 5 :: CycleModel.writes {} 2 ::
      CycleModel.moving {} (issued body) :: (issued others).flatMap fun t =>
        [CycleModel.writes {} 8, CycleModel.moving {} [t]])) :
    ∃ stats r, Succeeds (runLayer (oneBlock count body others) {}) {} stats r ∧
      r.events = .pad {} :: .block (recordCount body) (issued body) ::
        (issued others).map .dma := by
  obtain ⟨hfailure, hprimitives⟩ := plan_oneBlock hbody hothers hcount
  refine ⟨_, _, succeeds_runLayer_iff.mpr ⟨succeeds_carryOut_iff.mpr ⟨hfailure, ?_, rfl⟩, rfl⟩, ?_⟩
  · unfold Plan.charges
    rw [hprimitives, List.flatMap_cons, List.flatMap_cons, charges_map_dmaIssue]
    exact hfits
  · unfold Plan.events
    rw [Recorder.events_after, hprimitives, List.flatMap_cons, List.flatMap_cons,
      events_map_dmaIssue]
    rfl

end OneBlock

/-- Loops that take two records each and stand for no transfer. -/
def emptyLoops (n : Nat) : List Segment := List.replicate n (.loop loop)
where
  loop : TransferLoop := {
    clusterLen := 0, clusterShift := 0, unitLen := 0, unitShift := 0, innerLen := 0, localStep := 0
    hostStep := 0, count := 0, base := .row .load1d 1 1 0 0 8 }

theorem forall_mem_emptyLoops {p : Segment → Bool} (h : p (.loop emptyLoops.loop) = true)
    (n : Nat) : ∀ s ∈ emptyLoops n, p s = true := by
  intro s hs
  rw [List.eq_of_mem_replicate hs]
  exact h

theorem recordCount_emptyLoops (n : Nat) : recordCount (emptyLoops n) = 2 * n := by
  simp [emptyLoops, recordCount, total_eq_sum, Segment.records, Nat.mul_comm]

theorem issued_emptyLoops (n : Nat) : issued (emptyLoops n) = [] := by
  have hnone : (Segment.loop emptyLoops.loop).transfers = [] := rfl
  simp [emptyLoops, issued, List.flatMap_replicate, hnone]

def unitLoads : List Transfer :=
  (List.range 6).map fun unit =>
    .row .load1d 1 (UInt32.ofNat (2 ^ unit)) (UInt64.ofNat (0x1000 + 64 * unit)) 0 32

def unitLoop : TransferLoop where
  clusterLen := 0
  clusterShift := 0
  unitLen := 5
  unitShift := 1
  innerLen := 0
  localStep := 0
  hostStep := 64
  count := 6
  base := .row .load1d 1 1 0x1000 0 32

def twoLoads : List Segment :=
  [.transfer (.row .load1d 1 1 0x100 0 8), .transfer (.row .load1d 1 1 0x200 64 8)]

/-- A marker with `2 * n + 14` records behind it, of which it states eight. -/
def crowdedLayer (n : Nat) : Layer :=
  oneBlock 8 (emptyLoops 2 ++ twoLoads ++ emptyLoops 1) (emptyLoops n ++ unitLoads.map .transfer)

def crowdedRolled (n : Nat) : Layer :=
  oneBlock 4 (emptyLoops 2) (twoLoads ++ (emptyLoops (n + 1) ++ [.loop unitLoop]))

section Crowded

variable (n : Nat)

theorem segments_crowdedLayer :
    (crowdedLayer n).segments = .block 8 :: (emptyLoops 2 ++ twoLoads ++ emptyLoops 1 ++
      (emptyLoops n ++ unitLoads.map .transfer)) := rfl

theorem isDma_of_mem_crowdedLayer :
    (∀ s ∈ emptyLoops 2 ++ twoLoads ++ emptyLoops 1, s.isDma = true) ∧
      ∀ s ∈ emptyLoops n ++ unitLoads.map .transfer, s.isDma = true :=
  ⟨by decide, List.forall_mem_append.mpr ⟨forall_mem_emptyLoops rfl n, by decide⟩⟩

theorem isDma_of_mem_crowdedRolled :
    (∀ s ∈ emptyLoops 2, s.isDma = true) ∧
      ∀ s ∈ twoLoads ++ (emptyLoops (n + 1) ++ [.loop unitLoop]), s.isDma = true :=
  ⟨forall_mem_emptyLoops rfl 2, List.forall_mem_append.mpr ⟨by decide,
    List.forall_mem_append.mpr ⟨forall_mem_emptyLoops rfl (n + 1), by decide⟩⟩⟩

theorem issued_crowdedLayer : issued (emptyLoops n ++ unitLoads.map .transfer) = unitLoads := by
  rw [issued_append, issued_emptyLoops]
  rfl

theorem issued_crowdedRolled :
    issued (twoLoads ++ (emptyLoops (n + 1) ++ [.loop unitLoop])) =
      issued twoLoads ++ unitLoads := by
  rw [issued_append, issued_append, issued_emptyLoops]
  decide +kernel

theorem succeeds_crowdedLayer :
    ∃ stats r, Succeeds (runLayer (crowdedLayer n) {}) {} stats r ∧
      r.events = .pad {} :: .block 8 (issued twoLoads) :: unitLoads.map .dma := by
  obtain ⟨hbody, hothers⟩ := isDma_of_mem_crowdedLayer n
  have hrun := succeeds_oneBlock hbody hothers (rfl : _ = (8 : UInt32).toNat)
  rw [issued_crowdedLayer] at hrun
  exact hrun (by decide +kernel)

theorem succeeds_crowdedRolled :
    ∃ stats r, Succeeds (runLayer (crowdedRolled n) {}) {} stats r ∧
      r.events = .pad {} :: .block 4 [] :: (issued twoLoads ++ unitLoads).map .dma := by
  obtain ⟨hbody, hothers⟩ := isDma_of_mem_crowdedRolled n
  have hrun := succeeds_oneBlock hbody hothers (rfl : _ = (4 : UInt32).toNat)
  rw [issued_crowdedRolled] at hrun
  exact hrun (by decide +kernel)

theorem refreshBlocks_crowdedLayer (h : UInt32.ofNat (2 * n + 14) = 8) :
    refreshBlocks (crowdedLayer n).segments = (crowdedLayer n).segments := by
  have hcount : recordCount (emptyLoops 2 ++ twoLoads ++ emptyLoops 1 ++
      (emptyLoops n ++ unitLoads.map .transfer)) = 2 * n + 14 := by
    have hbody : recordCount (emptyLoops 2 ++ twoLoads ++ emptyLoops 1) = 8 := rfl
    have hloads : recordCount (unitLoads.map .transfer) = 6 := rfl
    rw [recordCount_append, recordCount_append (emptyLoops n), recordCount_emptyLoops, hbody,
      hloads]
    omega
  rw [segments_crowdedLayer, refreshBlocks_block_of_isDma
    (List.forall_mem_append.mpr (isDma_of_mem_crowdedLayer n)), hcount, h]

theorem mapRuns_crowdedLayer :
    mapRuns Transfer.sameShape (rollRun 5) (emptyLoops 2 ++ twoLoads ++ emptyLoops 1 ++
        (emptyLoops n ++ unitLoads.map .transfer)) =
      emptyLoops 2 ++ (twoLoads ++ (emptyLoops (n + 1) ++ [.loop unitLoop])) := by
  have hsplit : emptyLoops 2 ++ twoLoads ++ emptyLoops 1 ++
      (emptyLoops n ++ unitLoads.map .transfer) =
        emptyLoops 2 ++ twoLoads ++ (emptyLoops (n + 1) ++ unitLoads.map .transfer) := by
    simp [emptyLoops, List.replicate_succ]
  have hfront : mapRuns Transfer.sameShape (rollRun 5) (emptyLoops 2 ++ twoLoads) =
      emptyLoops 2 ++ twoLoads := by decide +kernel
  have hlast : mapRuns Transfer.sameShape (rollRun 5) (unitLoads.map .transfer) =
      [.loop unitLoop] := by decide +kernel
  rw [hsplit, mapRuns_append, hfront, mapRuns_append,
    mapRuns_of_isLoop (forall_mem_emptyLoops rfl _), hlast, List.append_assoc]
  · intro t u ht
    simp [emptyLoops, List.getLast?_replicate] at ht
  · intro t u _ hu
    simp [emptyLoops, List.replicate_succ] at hu

theorem rollLoops_crowdedLayer (h : UInt32.ofNat (2 * n + 10) = 4) :
    rollLoops (crowdedLayer n).segments 5 = .ok (crowdedRolled n).segments := by
  have hwords : elementTotal (crowdedLayer n).segments < 2 ^ 64 := by
    have hissued : issued (crowdedLayer n).segments = issued twoLoads ++ unitLoads := by
      change issued (emptyLoops 2 ++ twoLoads ++ emptyLoops 1 ++
        (emptyLoops n ++ unitLoads.map .transfer)) = _
      rw [issued_append, issued_crowdedLayer]
      rfl
    rw [elementTotal, hissued]
    decide +kernel
  have hcount : recordCount (emptyLoops 2 ++
      (twoLoads ++ (emptyLoops (n + 1) ++ [.loop unitLoop]))) = 2 * n + 10 := by
    have htwo : recordCount twoLoads = 2 := rfl
    have hloop : recordCount [.loop unitLoop] = 2 := rfl
    rw [recordCount_append, recordCount_append, recordCount_append, recordCount_emptyLoops,
      recordCount_emptyLoops, htwo, hloop]
    omega
  rw [rollLoops_of_lt hwords, segments_crowdedLayer, mapRuns_block_cons, max_eq_left (by decide),
    mapRuns_crowdedLayer, refreshBlocks_block_of_isDma
    (List.forall_mem_append.mpr (isDma_of_mem_crowdedRolled n)), hcount, h]
  rfl

/-- The block of the layer holds the two loads, and that of the rolled layer does not. -/
theorem rolled_crowdedLayer_differs (h : UInt32.ofNat (2 * n + 14) = 8)
    (h' : UInt32.ofNat (2 * n + 10) = 4) :
    refreshBlocks (crowdedLayer n).segments = (crowdedLayer n).segments ∧
      ∃ out stats stats' r r', rollLoops (crowdedLayer n).segments 5 = .ok out ∧
        Succeeds (runLayer (crowdedLayer n) {}) {} stats r ∧
        Succeeds (runLayer { crowdedLayer n with segments := out } {}) {} stats' r' ∧
        r'.events.map Event.eraseRecords ≠ r.events.map Event.eraseRecords := by
  obtain ⟨stats, r, hrun, hevents⟩ := succeeds_crowdedLayer n
  obtain ⟨stats', r', hrun', hevents'⟩ := succeeds_crowdedRolled n
  refine ⟨refreshBlocks_crowdedLayer n h, (crowdedRolled n).segments, stats, stats', r, r',
    rollLoops_crowdedLayer n h', hrun, hrun', ?_⟩
  rw [hevents, hevents']
  decide +kernel

end Crowded

theorem TransferLoop.elements_nth {l : TransferLoop} (hcluster : l.clusterShift = 0)
    (hunit : l.unitShift = 0) (i : Nat) : (l.nth i).elements = l.base.elements := by
  have hfixed (m : Mask) (n : Nat) : (Mask.shift · 0)^[n] m = m :=
    Function.iterate_fixed (Mask.move_zero m) n
  unfold nth transferAt
  rw [hcluster, hunit]
  simp only [hfixed]
  rfl

theorem TransferLoop.total_elements_expand {l : TransferLoop} (hcluster : l.clusterShift = 0)
    (hunit : l.unitShift = 0) :
    total (l.expand.map Transfer.elements) = min l.count.toNat l.rounds * l.base.elements := by
  have hsame : Transfer.elements ∘ l.nth = fun _ => l.base.elements :=
    funext (elements_nth hcluster hunit)
  rw [l.expand_eq_map_range, List.map_map, hsame]
  simp [total_eq_sum]

def vastLoop : TransferLoop where
  clusterLen := 255
  clusterShift := 0
  unitLen := 255
  unitShift := 0
  innerLen := 0
  localStep := 0
  hostStep := 0
  count := 65535
  base := .rect .load2d 0xFFFFFFFF 0xFFFFFFFF 0 0 65535 65535 1

theorem le_elementTotal_vastLoops :
    2 ^ 64 ≤ elementTotal (List.replicate 65 (.loop vastLoop)) := by
  have hloop : total (vastLoop.expand.map Transfer.elements) = 65535 * (65535 * 65535 * 1024) := by
    rw [TransferLoop.total_elements_expand rfl rfl]
    decide +kernel
  rw [elementTotal_eq, List.map_replicate, Segment.transfers, hloop, total_eq_sum,
    List.sum_replicate]
  decide

/-- Without the bounds rolling loops can show. A marker with more than `2 ^ 32` records behind it
states the low bits of their number, takes another block when records are saved, and yet refreshing
does not change it. And 65 large loops have too many words for rolling to count. -/
theorem rolling_shows_beyond_words :
    (refreshBlocks (crowdedLayer (2 ^ 31 - 3)).segments = (crowdedLayer (2 ^ 31 - 3)).segments ∧
      ∃ out stats stats' r r', rollLoops (crowdedLayer (2 ^ 31 - 3)).segments 5 = .ok out ∧
        Succeeds (runLayer (crowdedLayer (2 ^ 31 - 3)) {}) {} stats r ∧
        Succeeds (runLayer { crowdedLayer (2 ^ 31 - 3) with segments := out } {}) {} stats' r' ∧
        r'.events.map Event.eraseRecords ≠ r.events.map Event.eraseRecords) ∧
    refreshBlocks (List.replicate 65 (.loop vastLoop)) = List.replicate 65 (.loop vastLoop) ∧
      rollLoops (List.replicate 65 (.loop vastLoop)) 5 = .error (.overflow .sum) :=
  ⟨rolled_crowdedLayer_differs (2 ^ 31 - 3) (by decide) (by decide), rfl,
    rollLoops_of_le le_elementTotal_vastLoops 5⟩

end CommandStream
