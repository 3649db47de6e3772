import CommandStream.Proofs.Charges

/-! # What a plan asks for

A plan that does not end early hands every transfer of its stream to the engines, in order. What it
asks of the lanes depends on the compute commands and boundaries of the stream alone, unless the
layer counts points.
-/

namespace CommandStream

/-- Everything but the events of the transfer engines. -/
def Event.isComputeSide : Event → Bool
  | .block _ _ | .dma _ => false
  | _ => true

theorem Event.transfers_of_isComputeSide {e : Event} (h : e.isComputeSide = true) :
    e.transfers = [] := by
  cases e <;> first | rfl | cases h

/-! ## Compute commands -/

def Primitive.isDma : Primitive → Bool
  | .dmaBlock _ | .dmaIssue _ => true
  | _ => false

theorem Primitive.isComputeSide_of_mem_events {q : Primitive} (h : q.isDma = false) :
    ∀ e ∈ q.events, e.isComputeSide = true := by
  cases q with
  | dmaBlock _ | dmaIssue _ => cases h
  | setPad _ | wait _ | configure _ | nops _ | kernel _ | dynamicShape _ | scatter _ _ _
  | preLayer _ _ | postLayer _ _ => exact List.forall_mem_singleton.mpr rfl

def Quiet (qs : List Primitive) : Prop := ∀ q ∈ qs, q.isDma = false

namespace Quiet

theorem cons_iff {q : Primitive} {qs : List Primitive} :
    Quiet (q :: qs) ↔ q.isDma = false ∧ Quiet qs := by
  simp [Quiet]

variable {qs : List Primitive}

theorem filter_events (h : Quiet qs) :
    (qs.flatMap Primitive.events).filter Event.isComputeSide = qs.flatMap Primitive.events :=
  List.filter_eq_self.mpr fun e he => by
    obtain ⟨q, hq, he⟩ := List.mem_flatMap.mp he
    exact Primitive.isComputeSide_of_mem_events (h q hq) e he

theorem transfers_events (h : Quiet qs) :
    (qs.flatMap Primitive.events).flatMap Event.transfers = [] :=
  List.flatMap_eq_nil_iff.mpr fun e he => by
    obtain ⟨q, hq, he⟩ := List.mem_flatMap.mp he
    exact Event.transfers_of_isComputeSide (Primitive.isComputeSide_of_mem_events (h q hq) e he)

end Quiet

namespace Context

variable (ctx : Context) (p : LayerParams) (c : Compute)

theorem forall_mem_primitives {P : Primitive → Prop} (hwait : ∀ kind, P (.wait kind))
    (hconfigure : ∀ setting, P (.configure setting)) (hnops : ∀ count, P (.nops count))
    (hcall : ∀ kernel, P (ctx.call c kernel)) : ∀ q ∈ ctx.primitives p c, P q := by
  have hidle : ∀ q ∈ idle c, P q := by
    unfold idle
    split
    · simp
    · exact List.forall_mem_singleton.mpr (hnops _)
  unfold primitives
  cases c.op with
  | mul =>
    dsimp only
    unfold multiply
    split <;> simpa [reshift, or_imp, forall_and, hwait, hconfigure, hcall] using hidle
  | activationFused =>
    dsimp only
    split
    · exact hidle
    · simpa [or_imp, forall_and, hcall] using hidle
  | reluPoolScatter | add | shiftStore | shiftStoreUpsample | maxPool2x2Fused =>
    simpa [or_imp, forall_and, hcall] using hidle
  | _ => simp [biasLoads, kernelLoads, deformBlocks, hwait, hconfigure, hcall]

theorem quiet_primitives : Quiet (ctx.primitives p c) :=
  ctx.forall_mem_primitives p c (fun _ => rfl) (fun _ => rfl) (fun _ => rfl) fun _ => rfl

end Context

/-! ## Blocks -/

theorem fillBlock_append {stated filled reached : Nat} {rest body : List Segment}
    (h : fillBlock stated filled rest = (reached, body)) :
    body <+: rest ∧ ∀ s ∈ body, s.isDma = true := by
  induction rest generalizing filled reached body with
  | nil =>
    obtain ⟨-, rfl⟩ := Prod.mk.inj h
    exact ⟨List.prefix_rfl, by simp⟩
  | cons s rest ih =>
    rw [fillBlock] at h
    split at h
    · rename_i hs
      obtain ⟨-, rfl⟩ := Prod.mk.inj h
      obtain ⟨hfront, hdma⟩ := ih rfl
      have hs : s.isDma = true := (Bool.and_eq_true_iff.mp hs).2
      exact ⟨(List.prefix_cons_inj s).mpr hfront, List.forall_mem_cons.mpr ⟨hs, hdma⟩⟩
    · obtain ⟨-, rfl⟩ := Prod.mk.inj h
      exact ⟨List.nil_prefix, by simp⟩

theorem blockBody_eq_ok {index : Nat} {count : UInt32} {rest body : List Segment}
    (h : blockBody index count rest = .ok body) :
    body <+: rest ∧ ∀ s ∈ body, s.isDma = true := by
  unfold blockBody at h
  dsimp only at h
  split at h
  · obtain rfl := Except.ok.inj h
    exact fillBlock_append rfl
  · cases h

/-! ## Streams -/

@[simp] theorem Plan.failure_after (plan : Plan) (first : List Primitive) :
    (plan.after first).failure = plan.failure := rfl

@[simp] theorem Plan.events_after (plan : Plan) (first : List Primitive) :
    (plan.after first).events = first.flatMap Primitive.events ++ plan.events := by
  simp [after, events]

@[simp] theorem Plan.failure_counting (plan : Plan) (first : List Segment) :
    (plan.counting first).failure = plan.failure := rfl

@[simp] theorem Plan.events_counting (plan : Plan) (first : List Segment) :
    (plan.counting first).events = plan.events := rfl

@[simp] theorem Plan.counted_after (plan : Plan) (first : List Primitive) :
    (plan.after first).counted = plan.counted := rfl

@[simp] theorem Plan.counted_counting (plan : Plan) (first : List Segment) :
    (plan.counting first).counted = first ++ plan.counted := rfl

section PlanFrom

variable {ctx : Context} {p : LayerParams} {points : List UInt16}

/-- Every transfer that has not been issued with its block is issued, in order. -/
theorem transfers_planFrom {index fetched : Nat} {e : Extent} {segments : List Segment}
    (h : (planFrom ctx p points index fetched e segments).failure = none) :
    (planFrom ctx p points index fetched e segments).events.flatMap Event.transfers =
      (segments.drop fetched).flatMap Segment.transfers := by
  fun_induction planFrom ctx p points index fetched e segments with
  | case1 => simp [Plan.events]
  | case2 index fetched e s rest ih => simpa using ih h
  | case3 index e rest count f hbody => simp at h
  | case4 index e rest count body hbody ih =>
    obtain ⟨tail, rfl⟩ := (blockBody_eq_ok hbody).1
    simp [ih h, Primitive.events, Event.transfers, Segment.transfers]
  | case5 index e rest t ih =>
    simp [ih h, Primitive.events, Event.transfers, Segment.transfers]
  | case6 index e rest l ih =>
    have hdma : (l.expand.map Event.dma).flatMap Event.transfers = l.expand := by
      simp [List.flatMap_map, Event.transfers]
    simp [ih h, Primitive.events, Segment.transfers, hdma]
  | case7 index e rest c ih =>
    simp [ih h, (ctx.quiet_primitives p (ctx.resolve e c)).transfers_events, Segment.transfers]
  | case8 index e rest kind ih =>
    simp [ih h, Primitive.events, Event.transfers, Segment.transfers]
  | case9 index e rest widths ih =>
    simp [ih h, Primitive.events, Event.transfers, Segment.transfers]
  | case10 index e rest s ih =>
    simp [ih h, Segment.transfers]

variable (ctx p) in
/-- What a segment asks of the lanes, if the layer does not count points. -/
def controlEvents : Segment → List Event
  | .compute c => (ctx.primitives p c).flatMap Primitive.events
  | .sync kind => [.wait kind]
  | .padding widths => [.pad widths]
  | _ => []

theorem controlEvents_of_isDma {s : Segment} (h : s.isDma = true) : controlEvents ctx p s = [] := by
  cases s <;> first | rfl | cases h

theorem Context.resolve_eq_self (hkind : ctx.kind ≠ .pointPillars) (e : Extent) (c : Compute) :
    ctx.resolve e c = c := by
  simp [resolve, isDynamic, hkind]

/-- Blocks and transfers leave no trace on the compute side. -/
theorem computeSide_planFrom (hkind : ctx.kind ≠ .pointPillars) {index fetched : Nat} {e : Extent}
    {segments : List Segment} (hfetched : ∀ s ∈ segments.take fetched, s.isDma = true)
    (h : (planFrom ctx p points index fetched e segments).failure = none) :
    (planFrom ctx p points index fetched e segments).events.filter Event.isComputeSide =
      segments.flatMap (controlEvents ctx p) := by
  fun_induction planFrom ctx p points index fetched e segments with
  | case1 => simp [Plan.events]
  | case2 index fetched e s rest ih =>
    rw [List.take_succ_cons, List.forall_mem_cons] at hfetched
    simpa [controlEvents_of_isDma hfetched.1] using ih hfetched.2 h
  | case3 index e rest count f hbody => simp at h
  | case4 index e rest count body hbody ih =>
    obtain ⟨⟨tail, rfl⟩, hdma⟩ := blockBody_eq_ok hbody
    simp [ih (by simpa using hdma) h, Primitive.events, Event.isComputeSide, controlEvents]
  | case5 index e rest t ih =>
    simp [ih (by simp) h, Primitive.events, Event.isComputeSide, Segment.transfers, controlEvents]
  | case6 index e rest l ih =>
    simp [ih (by simp) h, Primitive.events, Segment.transfers, controlEvents, Function.comp_def,
      List.filter_map, Event.isComputeSide]
  | case7 index e rest c ih =>
    simp [ih (by simp) h, Context.resolve_eq_self hkind,
      (ctx.quiet_primitives p c).filter_events, controlEvents]
  | case8 index e rest kind ih =>
    simp [ih (by simp) h, Primitive.events, Event.isComputeSide, List.filter_cons, controlEvents]
  | case9 index e rest widths ih =>
    simp [ih (by simp) h, Primitive.events, Event.isComputeSide, List.filter_cons, controlEvents]
  | case10 index e rest s ih =>
    simp [ih (by simp) h, controlEvents]

end PlanFrom

/-! ## Layers -/

theorem LayerKind.bypassesStream_iff {kind : LayerKind} :
    kind.bypassesStream = true ↔ kind = .dynamicAxis ∨ kind = .scatterToGrid := by
  cases kind <;> simp [bypassesStream]

/-- What a layer and the hardware fix about a context. -/
structure Context.Serves (ctx : Context) (p : LayerParams) (hw : Hardware) : Prop where
  kind : ctx.kind = p.kind
  activation : ctx.activation = activationOf p
  registers : ∃ discard, Checked.subSigned hw.registerFileSize.toInt32.toInt 1 = .ok discard ∧
    RegisterLayout.ofParams p discard = .ok ctx.registers
  vectorLength : p.vectorLength = .ok ctx.vectorLength
  compensate : ctx.compensate = hw.minVectorLength.toNat - ctx.vectorLength
  leakyShift : ctx.leakyShift = leakyShiftOf p
  convShift : ctx.convShift = p.resultShiftRight
  writeReadBubble : ctx.writeReadBubble = hw.writeReadBubble.toNat
  setup : ctx.setup = setupOf p ctx.registers.relu6Base

theorem Context.ofLayer_eq_ok_iff {p : LayerParams} {hw : Hardware} {ctx : Context} :
    Context.ofLayer p hw = .ok ctx ↔ ctx.Serves p hw := by
  unfold Context.ofLayer
  simp only [bind_eq_ok_iff, pure_eq_ok_iff]
  constructor
  · rintro ⟨discard, hdiscard, _, hlength, registers, hregisters, rfl⟩
    exact ⟨rfl, rfl, ⟨discard, hdiscard, hregisters⟩, hlength, rfl, rfl, rfl, rfl, rfl⟩
  · intro h
    obtain ⟨discard, hdiscard, hregisters⟩ := h.registers
    refine ⟨discard, hdiscard, _, h.vectorLength, _, hregisters, ?_⟩
    rw [← h.kind, ← h.activation, ← h.compensate, ← h.leakyShift, ← h.convShift,
      ← h.writeReadBubble, ← h.setup]

namespace Layer

variable {layer : Layer} {hw : Hardware} {points : List UInt16}

theorem plan_of_error (layer : Layer) (hwalks : layer.params.kind.bypassesStream = false)
    {o : Overflow} (h : Context.ofLayer layer.params hw = .error o) :
    layer.plan hw points =
      { primitives := [.setPad layer.params.pad], failure := some (.overflow o) } := by
  unfold plan
  dsimp only
  split
  · rename_i hkind
    rw [hkind] at hwalks
    cases hwalks
  · rename_i hkind
    rw [hkind] at hwalks
    cases hwalks
  · rw [h]

theorem plan_of_ok (layer : Layer) (hwalks : layer.params.kind.bypassesStream = false)
    {ctx : Context} (h : Context.ofLayer layer.params hw = .ok ctx) :
    layer.plan hw points =
      (planFrom ctx layer.params (if layer.params.kind = .pointPillars then points else []) 0 0 {}
        layer.segments).after (.setPad layer.params.pad :: ctx.setup.map .configure) := by
  unfold plan
  dsimp only
  split
  · rename_i hkind
    rw [hkind] at hwalks
    cases hwalks
  · rename_i hkind
    rw [hkind] at hwalks
    cases hwalks
  · rw [h]

theorem plan_eq (hwalks : layer.params.kind.bypassesStream = false)
    (h : (layer.plan hw points).failure = none) :
    ∃ ctx points', Context.ofLayer layer.params hw = .ok ctx ∧
      layer.plan hw points = (planFrom ctx layer.params points' 0 0 {} layer.segments).after
        (.setPad layer.params.pad :: ctx.setup.map .configure) := by
  cases hctx : Context.ofLayer layer.params hw with
  | error o =>
    rw [layer.plan_of_error hwalks hctx] at h
    cases h
  | ok ctx => exact ⟨ctx, _, rfl, layer.plan_of_ok hwalks hctx⟩

def issued (layer : Layer) : List Transfer :=
  if layer.params.kind.bypassesStream then [] else layer.segments.flatMap Segment.transfers

theorem quiet_setup (p : LayerParams) (ctx : Context) :
    Quiet (.setPad p.pad :: ctx.setup.map .configure) := by
  refine Quiet.cons_iff.mpr ⟨rfl, ?_⟩
  rintro q hq
  obtain ⟨setting, -, rfl⟩ := List.mem_map.mp hq
  rfl

theorem transfers_plan (h : (layer.plan hw points).failure = none) :
    (layer.plan hw points).events.flatMap Event.transfers = layer.issued := by
  unfold issued
  cases hwalks : layer.params.kind.bypassesStream with
  | true =>
    unfold plan
    obtain hkind | hkind := LayerKind.bypassesStream_iff.mp hwalks <;> simp only [hkind] <;> rfl
  | false =>
    obtain ⟨ctx, points', -, hplan⟩ := plan_eq hwalks h
    rw [hplan] at h ⊢
    rw [Plan.events_after, List.flatMap_append, (quiet_setup _ _).transfers_events,
      transfers_planFrom h]
    rfl

end Layer

end CommandStream
