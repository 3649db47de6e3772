import CommandStream.Proofs.CommandEvents

/-! # The shared multiplier shift

Products and the leaky activation read the same shift of the multiplier. The setup of a layer writes
it, and a product swaps it for its own and back again where the two differ. Between any two commands
the shift is one that both users can start from: this is what each command preserves, and so every
kernel of a run finds the shift that it needs.
-/

namespace CommandStream

/-! ## Events of the multiplier -/

def Event.mulShift? : Event → Option Int16
  | .config (.mulShift amount) => some amount
  | _ => none

/-- The multiplier shift in effect behind some events is the one set last. -/
def shiftBehind (es : List Event) : Option Int16 := (es.filterMap Event.mulShift?).getLast?

def Event.product? : Event → Option Compute
  | .kernel call => if call.kernel = .elementwise ∧ call.cmd.op = .mul then some call.cmd else none
  | _ => none

def Event.leaky? : Event → Option Compute
  | .kernel call => if call.kernel = .activation .leaky then some call.cmd else none
  | _ => none

structure Event.IgnoresShift (e : Event) : Prop where
  mulShift? : e.mulShift? = none
  product? : e.product? = none
  leaky? : e.leaky? = none

theorem Event.product?_of_call? {e : Event} (h : e.call? = none) : e.product? = none := by
  cases e <;> first | rfl | cases h

theorem Event.leaky?_of_call? {e : Event} (h : e.call? = none) : e.leaky? = none := by
  cases e <;> first | rfl | cases h

theorem shiftBehind_append (a b : List Event) :
    shiftBehind (a ++ b) = (shiftBehind b).or (shiftBehind a) := by
  simp [shiftBehind, List.getLast?_append]

theorem shiftBehind_append_of_unset {es : List Event} (h : ∀ e ∈ es, e.mulShift? = none)
    (before : List Event) : shiftBehind (before ++ es) = shiftBehind before := by
  rw [shiftBehind_append, shiftBehind, List.filterMap_eq_nil_iff.mpr h]
  rfl

theorem shiftBehind_concat_set (before : List Event) (amount : Int16) :
    shiftBehind (before ++ [.config (.mulShift amount)]) = some amount := by
  simp [shiftBehind, Event.mulShift?]

/-! ## Conditions on events and what came before -/

/-- Every event satisfies a condition together with the events before it. -/
def Throughout (P : List Event → Event → Prop) : List Event → List Event → Prop
  | _, [] => True
  | before, e :: es => P before e ∧ Throughout P (before ++ [e]) es

namespace Throughout

variable {P : List Event → Event → Prop} {before a b es : List Event}

theorem append_iff :
    Throughout P before (a ++ b) ↔ Throughout P before a ∧ Throughout P (before ++ a) b := by
  induction a generalizing before with
  | nil => simp [Throughout]
  | cons e a ih => simp [Throughout, ih, and_assoc]

theorem of_forall (h : ∀ e ∈ es, ∀ front, P front e) : Throughout P before es := by
  induction es generalizing before with
  | nil => trivial
  | cons e es ih =>
    rw [List.forall_mem_cons] at h
    exact ⟨h.1 before, ih h.2⟩

theorem iff_forall_split : Throughout P before es ↔
    ∀ front e back, es = front ++ e :: back → P (before ++ front) e := by
  constructor
  · rintro h front e back rfl
    exact (append_iff.mp h).2.1
  · intro h
    induction es generalizing before with
    | nil => trivial
    | cons e es ih =>
      refine ⟨by simpa using h [] e es rfl, ih fun front e' back hes => ?_⟩
      have hlast := h (e :: front) e' back (congrArg (e :: ·) hes)
      rwa [← List.append_cons]

theorem front (h : Throughout P before es) (hfront : a <+: es) : Throughout P before a := by
  obtain ⟨back, rfl⟩ := hfront
  exact (append_iff.mp h).1

end Throughout

/-! ## Commands -/

def Primitive.IgnoresShift (q : Primitive) : Prop := ∀ e ∈ q.events, e.IgnoresShift

namespace Context

variable {ctx : Context} {p : LayerParams} {c : Compute}

theorem ignoresShift_idle (c : Compute) : ∀ q ∈ idle c, q.IgnoresShift := by
  unfold idle
  split
  · simp
  · exact List.forall_mem_singleton.mpr (List.forall_mem_singleton.mpr ⟨rfl, rfl, rfl⟩)

theorem ignoresShift_idleEvents (c : Compute) :
    ∀ e ∈ (idle c).flatMap Primitive.events, e.IgnoresShift := by
  intro e he
  obtain ⟨q, hq, he⟩ := List.mem_flatMap.mp he
  exact ignoresShift_idle c q hq e he

theorem ignoresShift_call (hmul : c.op ≠ .mul) {kernel : Kernel}
    (hkernel : kernel ≠ .activation .leaky) : (ctx.call c kernel).IgnoresShift :=
  List.forall_mem_singleton.mpr ⟨rfl, if_neg fun h => hmul h.2, if_neg hkernel⟩

theorem ignoresShift_commandEvents (hmul : c.op ≠ .mul) (hfused : c.op ≠ .activationFused) :
    ∀ e ∈ ctx.commandEvents p c, e.IgnoresShift := by
  have hidle := ignoresShift_idle c
  have hcall : ∀ kernel, kernel ≠ .activation .leaky → (ctx.call c kernel).IgnoresShift :=
    fun _ => ignoresShift_call hmul
  have hwait : ∀ kind, (Primitive.wait kind).IgnoresShift :=
    fun _ => List.forall_mem_singleton.mpr ⟨rfl, rfl, rfl⟩
  have hconfigure : ∀ setting, (∀ amount, setting ≠ .mulShift amount) →
      (Primitive.configure setting).IgnoresShift := by
    intro setting hsetting
    refine List.forall_mem_singleton.mpr ⟨?_, rfl, rfl⟩
    cases setting with
    | mulShift amount => exact absurd rfl (hsetting amount)
    | _ => rfl
  have hprimitives : ∀ q ∈ ctx.primitives p c, q.IgnoresShift := by
    unfold primitives
    cases hop : c.op with
    | mul => exact absurd hop hmul
    | activationFused => exact absurd hop hfused
    | reluPoolScatter | add | shiftStore | shiftStoreUpsample | maxPool2x2Fused =>
      simpa [or_imp, forall_and, hcall] using hidle
    | _ => simp [biasLoads, kernelLoads, deformBlocks, hwait, hconfigure, hcall]
  intro e he
  obtain ⟨q, hq, he⟩ := List.mem_flatMap.mp he
  exact hprimitives q hq e he

/-- The events of a product: where the two shifts differ, its own is set before it and the other one
behind it, each time with the lanes at rest. -/
theorem commandEvents_mul (hop : c.op = .mul) :
    ctx.commandEvents p c = (idle c).flatMap Primitive.events ++
      if ctx.activation = .leaky ∧ ctx.convShift ≠ ctx.leakyShift then
        [.wait .lanes, .config (.mulShift ctx.convShift),
          .kernel { kernel := .elementwise, cmd := c, compensate := ctx.compensate },
          .wait .lanes, .config (.mulShift ctx.leakyShift)]
      else [.kernel { kernel := .elementwise, cmd := c, compensate := ctx.compensate }] := by
  simp only [commandEvents, primitives, hop, multiply, Bool.and_eq_true, decide_eq_true_eq]
  split <;> simp [reshift, call, Primitive.events]

theorem commandEvents_activationFused (hop : c.op = .activationFused) :
    ctx.commandEvents p c = (idle c).flatMap Primitive.events ++
      if ctx.activation = .none then []
      else [.kernel { kernel := .activation ctx.activation, cmd := c,
                      compensate := ctx.compensate }] := by
  simp only [commandEvents, primitives, hop]
  split <;> simp [call, Primitive.events]

theorem products_commandEvents (ctx : Context) (p : LayerParams) (c : Compute) :
    (ctx.commandEvents p c).filterMap Event.product? = [c].filter (·.op = .mul) := by
  have hidle : ((idle c).flatMap Primitive.events).filterMap Event.product? = [] :=
    List.filterMap_eq_nil_iff.mpr fun e he => (ignoresShift_idleEvents c e he).product?
  by_cases hmul : c.op = .mul
  · rw [commandEvents_mul hmul, List.filterMap_append, hidle]
    split <;> simp [Event.product?, hmul, List.filterMap_cons]
  · rw [List.filter_eq_nil_iff.mpr (List.forall_mem_singleton.mpr (by simpa using hmul))]
    by_cases hfused : c.op = .activationFused
    · rw [commandEvents_activationFused hfused, List.filterMap_append, hidle]
      split <;> simp [Event.product?]
    · exact List.filterMap_eq_nil_iff.mpr fun e he =>
        (ignoresShift_commandEvents hmul hfused e he).product?

end Context

/-! ## What commands preserve -/

/-- The shift is right where it is used: a product finds the shift of the results, the leaky
activation its own, and behind the setup the shift is changed with the lanes at rest only. -/
structure ShiftFits (p : LayerParams) (ctx : Context) (before : List Event) (e : Event) : Prop where
  product : e.product?.isSome → p.kind = .mul ∨ p.activation = .leaky →
    shiftBehind before = some p.resultShiftRight
  leaky : e.leaky?.isSome → p.kind ≠ .deform →
    (p.kind = .mul → ∃ earlier ∈ before, earlier.product?.isSome) →
    shiftBehind before = some ctx.leakyShift
  change : e.mulShift?.isSome → ctx.setupEvents p <+: before → before.getLast? = some (.wait .lanes)

/-- Between commands the shift is that of the leaky activation, once it has been set, and that of
the results if the activation has none of its own. -/
structure ShiftSettled (p : LayerParams) (ctx : Context) (before : List Event) : Prop where
  leaky : p.activation = .leaky → p.kind ≠ .deform →
    (p.kind = .mul → ∃ earlier ∈ before, earlier.product?.isSome) →
    shiftBehind before = some ctx.leakyShift
  results : p.kind = .mul ∨ p.activation = .leaky →
    (p.activation = .leaky → p.resultShiftRight = ctx.leakyShift) →
    shiftBehind before = some p.resultShiftRight

theorem ShiftSettled.append {p : LayerParams} {ctx : Context} {before es : List Event}
    (h : ShiftSettled p ctx before) (hunset : ∀ e ∈ es, e.mulShift? = none)
    (hproducts : ∀ e ∈ es, e.product? = none) : ShiftSettled p ctx (before ++ es) := by
  have hshift := shiftBehind_append_of_unset hunset before
  constructor
  · intro hleaky hkind hearlier
    rw [hshift]
    refine h.leaky hleaky hkind fun hmul => ?_
    obtain ⟨earlier, hmem, hsome⟩ := hearlier hmul
    rcases List.mem_append.mp hmem with hmem | hmem
    · exact ⟨earlier, hmem, hsome⟩
    · simp [hproducts earlier hmem] at hsome
  · intro huser hequal
    rw [hshift]
    exact h.results huser hequal

/-- From a settled shift on, the events find it right and leave it settled. -/
def KeepsShift (p : LayerParams) (ctx : Context) (es : List Event) : Prop :=
  ∀ before, ShiftSettled p ctx before →
    Throughout (ShiftFits p ctx) before es ∧ ShiftSettled p ctx (before ++ es)

theorem Event.IgnoresShift.fits {e : Event} (h : e.IgnoresShift) (p : LayerParams) (ctx : Context)
    (before : List Event) : ShiftFits p ctx before e where
  product hsome := by simp [h.product?] at hsome
  leaky hsome := by simp [h.leaky?] at hsome
  change hsome := by simp [h.mulShift?] at hsome

namespace KeepsShift

variable {p : LayerParams} {ctx : Context} {a b es : List Event}

theorem append (ha : KeepsShift p ctx a) (hb : KeepsShift p ctx b) : KeepsShift p ctx (a ++ b) := by
  intro before h
  obtain ⟨hfits, h⟩ := ha before h
  obtain ⟨hfits', h⟩ := hb _ h
  rw [← List.append_assoc]
  exact ⟨Throughout.append_iff.mpr ⟨hfits, hfits'⟩, h⟩

theorem of_ignores (hes : ∀ e ∈ es, e.IgnoresShift) : KeepsShift p ctx es := by
  intro before h
  exact ⟨.of_forall fun e he front => (hes e he).fits p ctx front,
    h.append (fun e he => (hes e he).mulShift?) fun e he => (hes e he).product?⟩

theorem product (hequal : p.activation = .leaky → p.resultShiftRight = ctx.leakyShift)
    (c : Compute) (compensate : Nat) :
    KeepsShift p ctx [.kernel { kernel := .elementwise, cmd := c, compensate }] := by
  intro before h
  have hshift : shiftBehind (before ++
      [.kernel { kernel := .elementwise, cmd := c, compensate }]) = shiftBehind before :=
    shiftBehind_append_of_unset (List.forall_mem_singleton.mpr rfl) before
  refine ⟨⟨⟨fun _ huser => h.results huser hequal, ?_, ?_⟩, trivial⟩, ⟨?_, ?_⟩⟩
  · simp [Event.leaky?]
  · simp [Event.mulShift?]
  · intro hleaky _ _
    rw [hshift, h.results (.inr hleaky) hequal, hequal hleaky]
  · intro huser _
    rw [hshift, h.results huser hequal]

theorem swap (hleaky : p.activation = .leaky) (hdiffer : p.resultShiftRight ≠ ctx.leakyShift)
    (c : Compute) (compensate : Nat) :
    KeepsShift p ctx
      [.wait .lanes, .config (.mulShift p.resultShiftRight),
        .kernel { kernel := .elementwise, cmd := c, compensate },
        .wait .lanes, .config (.mulShift ctx.leakyShift)] := by
  intro before h
  have hwait : ∀ front, ShiftFits p ctx front (.wait .lanes) :=
    Event.IgnoresShift.fits ⟨rfl, rfl, rfl⟩ p ctx
  have hset : ∀ front amount,
      ShiftFits p ctx (front ++ [.wait .lanes]) (.config (.mulShift amount)) :=
    fun front amount => ⟨by simp [Event.product?], by simp [Event.leaky?],
      fun _ _ => List.getLast?_concat⟩
  have hkernel : ∀ front, ShiftFits p ctx (front ++ [.config (.mulShift p.resultShiftRight)])
      (.kernel { kernel := .elementwise, cmd := c, compensate }) :=
    fun front => ⟨fun _ _ => shiftBehind_concat_set front _, by simp [Event.leaky?],
      by simp [Event.mulShift?]⟩
  have hbehind : shiftBehind (before ++ [.wait .lanes, .config (.mulShift p.resultShiftRight),
      .kernel { kernel := .elementwise, cmd := c, compensate }, .wait .lanes,
      .config (.mulShift ctx.leakyShift)]) = some ctx.leakyShift := by
    simp [shiftBehind, Event.mulShift?, List.filterMap_cons]
  refine ⟨⟨hwait _, hset _ _, hkernel _, hwait _, hset _ _, trivial⟩, ⟨fun _ _ _ => hbehind, ?_⟩⟩
  intro _ hequal
  exact absurd (hequal hleaky) hdiffer

theorem activation {a : Activation} (hleaky : a = .leaky → p.activation = .leaky) (c : Compute)
    (compensate : Nat) :
    KeepsShift p ctx [.kernel { kernel := .activation a, cmd := c, compensate }] := by
  intro before h
  refine ⟨⟨⟨?_, ?_, ?_⟩, trivial⟩,
    h.append (List.forall_mem_singleton.mpr rfl) (List.forall_mem_singleton.mpr ?_)⟩
  · simp [Event.product?]
  · intro hsome hkind hearlier
    have ha : a = .leaky := by simpa [Event.leaky?] using hsome
    exact h.leaky (hleaky ha) hkind hearlier
  · simp [Event.mulShift?]
  · simp [Event.product?]

end KeepsShift

/-! ## Layers -/

theorem Context.shiftBehind_kindSetup (p : LayerParams) :
    shiftBehind ((kindSetup p).map .config) =
      if p.kind = .mul ∨ p.kind = .deform then some p.resultShiftRight else none := by
  unfold kindSetup
  cases p.kind <;> simp [convSetup, shiftBehind, Event.mulShift?, List.filterMap_cons]

theorem Context.throughout_setupEvents (p : LayerParams) (ctx : Context) :
    Throughout (ShiftFits p ctx) [] (ctx.setupEvents p) := by
  rw [Throughout.iff_forall_split]
  intro front e back hsplit
  have hcall := call?_of_mem_setupEvents (hsplit ▸ List.mem_append_right front List.mem_cons_self)
  refine ⟨?_, ?_, fun _ hsetup => ?_⟩
  · simp [Event.product?_of_call? hcall]
  · simp [Event.leaky?_of_call? hcall]
  · have hle := hsetup.length_le
    simp [hsplit] at hle

namespace Context.Serves

variable {ctx : Context} {p : LayerParams} {hw : Hardware}

theorem activation_eq_leaky_iff (h : ctx.Serves p hw) :
    ctx.activation = .leaky ↔ p.activation = .leaky := by
  rw [h.activation]
  unfold activationOf
  grind

theorem keepsShift_commandEvents (h : ctx.Serves p hw) (c : Compute) :
    KeepsShift p ctx (ctx.commandEvents p c) := by
  have hidle : KeepsShift p ctx ((idle c).flatMap Primitive.events) :=
    .of_ignores (ignoresShift_idleEvents c)
  by_cases hmul : c.op = .mul
  · rw [commandEvents_mul hmul, h.convShift]
    refine hidle.append ?_
    split
    · rename_i hswap
      exact .swap (h.activation_eq_leaky_iff.mp hswap.1) hswap.2 c _
    · rename_i hswap
      refine .product (fun hleaky => ?_) c _
      exact not_not.mp fun hdiffer => hswap ⟨h.activation_eq_leaky_iff.mpr hleaky, hdiffer⟩
  · by_cases hfused : c.op = .activationFused
    · rw [commandEvents_activationFused hfused]
      refine hidle.append ?_
      split
      · exact .of_ignores (by simp)
      · exact .activation h.activation_eq_leaky_iff.mp c _
    · exact .of_ignores (ignoresShift_commandEvents hmul hfused)

theorem keepsShift_planFrom (h : ctx.Serves p hw) (points : List UInt16) (index fetched : Nat)
    (e : Extent) (segments : List Segment) :
    KeepsShift p ctx (planFrom ctx p points index fetched e segments).events := by
  have hafter : ∀ (q : Primitive) (plan : Plan), q.IgnoresShift → KeepsShift p ctx plan.events →
      KeepsShift p ctx (plan.after [q]).events := by
    intro q plan hq hplan
    rw [Plan.events_after, List.flatMap_singleton]
    exact (KeepsShift.of_ignores hq).append hplan
  have hissue : ∀ s : Segment, (Primitive.dmaIssue s).IgnoresShift := by
    intro s e he
    obtain ⟨t, -, rfl⟩ := List.mem_map.mp he
    exact ⟨rfl, rfl, rfl⟩
  fun_induction planFrom ctx p points index fetched e segments with
  | case1 | case3 => exact .of_ignores (by simp [Plan.events])
  | case2 index fetched e s rest ih => exact ih
  | case4 index e rest count body hbody ih =>
    exact hafter (.dmaBlock body) _ (List.forall_mem_singleton.mpr ⟨rfl, rfl, rfl⟩) ih
  | case5 index e rest t ih => exact hafter _ _ (hissue (.transfer t)) ih
  | case6 index e rest l ih => exact hafter _ _ (hissue (.loop l)) ih
  | case7 index e rest c ih =>
    rw [Plan.events_counting, Plan.events_after]
    exact (h.keepsShift_commandEvents (ctx.resolve e c)).append ih
  | case8 index e rest kind ih =>
    exact hafter (.wait kind) _ (List.forall_mem_singleton.mpr ⟨rfl, rfl, rfl⟩) ih
  | case9 index e rest widths ih =>
    exact hafter (.setPad widths) _ (List.forall_mem_singleton.mpr ⟨rfl, rfl, rfl⟩) ih
  | case10 index e rest s ih => exact ih

theorem shiftBehind_setupEvents (h : ctx.Serves p hw) :
    shiftBehind (ctx.setupEvents p) =
      if p.kind = .mul ∨ p.kind = .deform then some p.resultShiftRight
      else if p.activation = .leaky then some ctx.leakyShift else none := by
  have hleaky : shiftBehind ((if p.activation = .leaky then [.mulShift (leakyShiftOf p)]
      else []).map .config) = if p.activation = .leaky then some ctx.leakyShift else none := by
    rw [h.leakyShift]
    split <;> rfl
  have hclip : shiftBehind ((if activationOf p = .relu6 then
      [.relu6Constant p.relu6ShiftLeft ctx.registers.relu6Base] else []).map .config) = none := by
    split <;> rfl
  have hpad : ctx.setupEvents p = [.pad p.pad] ++ ctx.setup.map .config := rfl
  rw [hpad, h.setup, setupOf, List.map_append, List.map_append, shiftBehind_append,
    shiftBehind_append, shiftBehind_append, hclip, shiftBehind_kindSetup, hleaky]
  split <;> simp [shiftBehind, Event.mulShift?]

theorem shiftSettled_setupEvents (h : ctx.Serves p hw) :
    ShiftSettled p ctx (ctx.setupEvents p) := by
  have hshift := h.shiftBehind_setupEvents
  constructor
  · intro hleaky hdeform hearlier
    have hmul : p.kind ≠ .mul := by
      intro hmul
      obtain ⟨e, he, hsome⟩ := hearlier hmul
      simp [Event.product?_of_call? (call?_of_mem_setupEvents he)] at hsome
    rw [hshift, if_neg (not_or.mpr ⟨hmul, hdeform⟩), if_pos hleaky]
  · intro huser hequal
    rw [hshift]
    split
    · rfl
    · rename_i hkind
      have hleaky : p.activation = .leaky := huser.resolve_left fun hmul => hkind (.inl hmul)
      rw [if_pos hleaky, hequal hleaky]

theorem activations_commandEvents (h : ctx.Serves p hw) (c : Compute) :
    (ctx.commandEvents p c).filterMap Event.leaky? =
      [c].filter fun c => c.op = .activationFused ∧ p.activation = .leaky := by
  have hidle : ((idle c).flatMap Primitive.events).filterMap Event.leaky? = [] :=
    List.filterMap_eq_nil_iff.mpr fun e he => (ignoresShift_idleEvents c e he).leaky?
  by_cases hfused : c.op = .activationFused
  · rw [commandEvents_activationFused hfused, List.filterMap_append, hidle]
    by_cases hleaky : p.activation = .leaky
    · simp [h.activation_eq_leaky_iff.mpr hleaky, hleaky, hfused, Event.leaky?]
    · have hother : ctx.activation ≠ .leaky := mt h.activation_eq_leaky_iff.mp hleaky
      split <;> simp [hleaky, hother, Event.leaky?]
  · rw [List.filter_eq_nil_iff.mpr (List.forall_mem_singleton.mpr (by simp [hfused]))]
    by_cases hmul : c.op = .mul
    · rw [commandEvents_mul hmul, List.filterMap_append, hidle]
      split <;> simp [Event.leaky?, List.filterMap_cons]
    · exact List.filterMap_eq_nil_iff.mpr fun e he =>
        (ignoresShift_commandEvents hmul hfused e he).leaky?

end Context.Serves

section Layers

variable {layer : Layer} {hw : Hardware} {ctx : Context}

def Layer.products (layer : Layer) : List Compute :=
  (layer.segments.filterMap Segment.compute?).filter (·.op = .mul)

def Layer.leakyActivations (layer : Layer) : List Compute :=
  (layer.segments.filterMap Segment.compute?).filter
    fun c => c.op = .activationFused ∧ layer.params.activation = .leaky

theorem Layer.throughout_plan (hwalks : layer.params.kind.bypassesStream = false)
    (hctx : Context.ofLayer layer.params hw = .ok ctx) (points : List UInt16) :
    Throughout (ShiftFits layer.params ctx) [] (layer.plan hw points).events := by
  have h := Context.ofLayer_eq_ok_iff.mp hctx
  obtain ⟨points', -, -, hevents⟩ := layer.exists_stream_plan hwalks hctx points
  rw [hevents, Throughout.append_iff]
  exact ⟨Context.throughout_setupEvents _ ctx,
    (h.keepsShift_planFrom points' 0 0 {} layer.segments _ h.shiftSettled_setupEvents).1⟩

theorem Layer.picks_plan_of_static {f : Event → Option Compute} {q : Compute → Bool}
    (hkernels : ∀ e, e.call? = none → f e = none)
    (hcommand : ∀ c, (ctx.commandEvents layer.params c).filterMap f = [c].filter q)
    (hstatic : ∀ c, q c = true → ctx.isDynamic c.op = false)
    (hwalks : layer.params.kind.bypassesStream = false)
    (hctx : Context.ofLayer layer.params hw = .ok ctx) (points : List UInt16) :
    (layer.plan hw points).Picks f ((layer.segments.filterMap Segment.compute?).filter q) := by
  obtain ⟨points', -, hpicks⟩ := layer.exists_picks_plan hkernels hwalks hctx points
  have hfilter : ∀ cs : List Compute, cs.flatMap (fun c => [c].filter q) = cs.filter q := by
    intro cs
    rw [← List.filter_flatMap, List.flatMap_singleton']
  simpa only [hcommand, hfilter, ctx.filter_commands hstatic] using hpicks

theorem Layer.picks_products (hwalks : layer.params.kind.bypassesStream = false)
    (hctx : Context.ofLayer layer.params hw = .ok ctx) (points : List UInt16) :
    (layer.plan hw points).Picks Event.product? layer.products := by
  refine layer.picks_plan_of_static (fun _ => Event.product?_of_call?)
    (Context.products_commandEvents ctx layer.params) (fun c hc => ?_) hwalks hctx points
  rw [of_decide_eq_true hc]
  simp [Context.isDynamic]

theorem Layer.picks_leakyActivations (hwalks : layer.params.kind.bypassesStream = false)
    (hctx : Context.ofLayer layer.params hw = .ok ctx) (points : List UInt16) :
    (layer.plan hw points).Picks Event.leaky? layer.leakyActivations := by
  refine layer.picks_plan_of_static (fun _ => Event.leaky?_of_call?)
    (Context.ofLayer_eq_ok_iff.mp hctx).activations_commandEvents (fun c hc => ?_) hwalks hctx
    points
  rw [(of_decide_eq_true hc).1]
  simp [Context.isDynamic]

end Layers

/-- The run of a layer up to any point, whether it comes to its end or not: products and leaky
activations are carried out as the stream has them, and each finds the shift that it needs. -/
theorem runLayer_multiplier_shift {layer : Layer} {hw : Hardware} {ctx : Context}
    (hwalks : layer.params.kind.bypassesStream = false)
    (hctx : Context.ofLayer layer.params hw = .ok ctx) (r : Recorder) :
    ∃ es, (leaves (runLayer layer hw) r).events = r.events ++ es ∧
      (∀ front e back, es = front ++ e :: back → ShiftFits layer.params ctx front e) ∧
      es.filterMap Event.product? <+: layer.products ∧
      es.filterMap Event.leaky? <+: layer.leakyActivations ∧
      ∀ stats r', Succeeds (runLayer layer hw) r stats r' →
        es.filterMap Event.product? = layer.products ∧
          es.filterMap Event.leaky? = layer.leakyActivations := by
  obtain ⟨es, hevents, hfront, hall⟩ := exists_log_runLayer layer hw r
  have hfits := (layer.throughout_plan hwalks hctx r.pillarPoints).front hfront
  have hproducts := layer.picks_products hwalks hctx r.pillarPoints
  have hleaky := layer.picks_leakyActivations hwalks hctx r.pillarPoints
  refine ⟨es, hevents, Throughout.iff_forall_split.mp hfits,
    (hfront.filterMap _).trans hproducts.front, (hfront.filterMap _).trans hleaky.front, ?_⟩
  intro stats r' h
  have hfailure := (succeeds_carryOut_iff.mp (succeeds_runLayer_iff.mp h).1).1
  rw [hall stats r' h]
  exact ⟨hproducts.all hfailure, hleaky.all hfailure⟩

def leakyProducts : Layer where
  params := { kind := .mul, activation := .leaky, alpha := 3, alphaShiftRight := 10
              resultShiftRight := 4 }
  segments :=
    [.compute { op := .mul, zEnd := 1 }, .compute { op := .activationFused, zEnd := 2 },
      .sync .lanes, .compute { op := .mul, zEnd := 3 }, .compute { op := .mul, zEnd := 4 },
      .compute { op := .activationFused, zEnd := 5 }]

theorem runLayer_multiplier_shift_leakyProducts :
    ∃ ctx es, Context.ofLayer leakyProducts.params {} = .ok ctx ∧
      (leaves (runLayer leakyProducts {}) {}).events = es ∧
      (∀ front e back, es = front ++ e :: back → ShiftFits leakyProducts.params ctx front e) ∧
      (es.filterMap Event.product?).map (·.zEnd) = [1, 3, 4] ∧
      (es.filterMap Event.leaky?).map (·.zEnd) = [2, 5] := by
  rcases hctx : Context.ofLayer leakyProducts.params {} with o | ctx
  · have hok : (Context.ofLayer leakyProducts.params {}).isOk = true := by decide +kernel
    rw [hctx] at hok
    cases hok
  rcases succeeds_or_fails (runLayer leakyProducts {}) {} with ⟨stats, r', h⟩ | ⟨e, r', h⟩
  · obtain ⟨es, hevents, hfits, -, -, hall⟩ := runLayer_multiplier_shift rfl hctx {}
    obtain ⟨hproducts, hleaky⟩ := hall stats r' h
    refine ⟨ctx, es, rfl, hevents, hfits, ?_, ?_⟩
    · rw [hproducts]
      decide
    · rw [hleaky]
      decide
  · have hok : ((runLayer leakyProducts {}).run.run {}).run.1.isOk = true := by decide +kernel
    rw [h] at hok
    cases hok

end CommandStream
