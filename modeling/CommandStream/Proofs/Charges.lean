import CommandStream.Proofs.Recording
import CommandStream.Schedule.Run

/-! # What a recorder keeps

Every primitive books events in the log and charges on the clocks of the recorder. It succeeds
exactly if no charge takes a clock out of its word, and does nothing else to the recorder. So a run
leaves what the plans of its layers book.
-/

namespace CommandStream

variable {α : Type}

/-! ## Clocks -/

structure Clock where
  dmaBusy : Nat
  lanesBusy : Nat
  now : Nat
  deriving DecidableEq, Repr

/-- Time of the control processor, work queued on the engines or the lanes, or waiting. -/
inductive Charge where
  | control (cycles : Nat)
  | dma (cycles : Nat)
  | lanes (cycles : Nat)
  | wait (kind : SyncKind)
  deriving DecidableEq, Repr

namespace Clock

def deadline (c : Clock) : SyncKind → Nat
  | .dma => c.dmaBusy
  | .lanes => c.lanesBusy
  | .both => max c.dmaBusy c.lanesBusy

/-- Work is queued behind what its side is busy with, and starts now at the earliest. -/
def charge (c : Clock) : Charge → Clock
  | .control cycles => { c with now := c.now + cycles }
  | .dma cycles => { c with dmaBusy := max c.dmaBusy c.now + cycles }
  | .lanes cycles => { c with lanesBusy := max c.lanesBusy c.now + cycles }
  | .wait kind => { c with now := max c.now (c.deadline kind) }

def Fits (c : Clock) : Charge → Prop
  | .control cycles => c.now + cycles < 2 ^ 64
  | .dma cycles => max c.dmaBusy c.now + cycles < 2 ^ 64
  | .lanes cycles => max c.lanesBusy c.now + cycles < 2 ^ 64
  | .wait _ => True

def chargeAll (c : Clock) (qs : List Charge) : Clock := qs.foldl charge c

def FitsAll (c : Clock) : List Charge → Prop
  | [] => True
  | q :: qs => c.Fits q ∧ (c.charge q).FitsAll qs

instance (c : Clock) (q : Charge) : Decidable (c.Fits q) := by
  cases q <;> unfold Fits <;> infer_instance

instance decidableFitsAll : ∀ (c : Clock) (qs : List Charge), Decidable (c.FitsAll qs)
  | _, [] => .isTrue trivial
  | c, q :: qs =>
    have := decidableFitsAll (c.charge q) qs
    inferInstanceAs (Decidable (c.Fits q ∧ (c.charge q).FitsAll qs))

theorem chargeAll_append (c : Clock) (a b : List Charge) :
    c.chargeAll (a ++ b) = (c.chargeAll a).chargeAll b :=
  List.foldl_append

theorem fitsAll_append_iff {c : Clock} {a b : List Charge} :
    c.FitsAll (a ++ b) ↔ c.FitsAll a ∧ (c.chargeAll a).FitsAll b := by
  induction a generalizing c with
  | nil => simp [FitsAll, chargeAll]
  | cons q a ih => simp only [List.cons_append, FitsAll, ih, and_assoc]; rfl

theorem fitsAll_singleton_iff {c : Clock} {q : Charge} : c.FitsAll [q] ↔ c.Fits q := by
  simp [FitsAll]

end Clock

namespace Recorder

def clock (r : Recorder) : Clock where
  dmaBusy := r.dmaBusy
  lanesBusy := r.lanesBusy
  now := r.now

def after (r : Recorder) (es : List Event) (qs : List Charge) : Recorder :=
  { r with
    log := es.reverse ++ r.log
    dmaBusy := (r.clock.chargeAll qs).dmaBusy
    lanesBusy := (r.clock.chargeAll qs).lanesBusy
    now := (r.clock.chargeAll qs).now }

@[simp] theorem after_nil (r : Recorder) : r.after [] [] = r := rfl

@[simp] theorem clock_after (r : Recorder) (es : List Event) (qs : List Charge) :
    (r.after es qs).clock = r.clock.chargeAll qs := rfl

@[simp] theorem model_after (r : Recorder) (es : List Event) (qs : List Charge) :
    (r.after es qs).model = r.model := rfl

@[simp] theorem pillarPoints_after (r : Recorder) (es : List Event) (qs : List Charge) :
    (r.after es qs).pillarPoints = r.pillarPoints := rfl

@[simp] theorem events_after (r : Recorder) (es : List Event) (qs : List Charge) :
    (r.after es qs).events = r.events ++ es := by
  simp [after, events]

theorem after_after (r : Recorder) (es es' : List Event) (qs qs' : List Charge) :
    (r.after es qs).after es' qs' = r.after (es ++ es') (qs ++ qs') := by
  simp only [after, List.reverse_append, List.append_assoc, Clock.chargeAll_append]
  rfl

end Recorder

/-! ## Primitives -/

/-- The work succeeds exactly if its charges fit, and then it logs its events and makes its charges.
What it charges may depend on the cycle model. -/
def Books (x : Recording Unit) (es : List Event) (qs : CycleModel → List Charge) : Prop :=
  ∀ r u r', Succeeds x r u r' ↔ r.clock.FitsAll (qs r.model) ∧ r' = r.after es (qs r.model)

namespace Books

theorem bind {x y : Recording Unit} {es es' : List Event} {qs qs' : CycleModel → List Charge}
    (hx : Books x es qs) (hy : Books y es' qs') :
    Books (x >>= fun _ => y) (es ++ es') fun model => qs model ++ qs' model := by
  intro r u r'
  rw [succeeds_bind_iff, Clock.fitsAll_append_iff, ← Recorder.after_after]
  constructor
  · rintro ⟨_, r₁, h, h'⟩
    obtain ⟨hfits, rfl⟩ := (hx _ _ _).mp h
    obtain ⟨hfits', rfl⟩ := (hy _ _ _).mp h'
    exact ⟨⟨hfits, hfits'⟩, rfl⟩
  · rintro ⟨⟨hfits, hfits'⟩, rfl⟩
    exact ⟨(), _, (hx _ _ _).mpr ⟨hfits, rfl⟩, (hy _ _ _).mpr ⟨hfits', rfl⟩⟩

theorem forM {f : α → Recording Unit} {es : α → List Event} {qs : α → CycleModel → List Charge}
    (h : ∀ x, Books (f x) (es x) (qs x)) (xs : List α) :
    Books (xs.forM f) (xs.flatMap es) fun model => xs.flatMap (qs · model) := by
  induction xs with
  | nil =>
    intro r u r'
    change Succeeds (pure ()) r u r' ↔ True ∧ r' = r
    rw [succeeds_pure_iff, true_and, and_iff_right rfl, eq_comm]
  | cons x xs ih => exact (h x).bind ih

end Books

def Primitive.events : Primitive → List Event
  | .setPad widths => [.pad widths]
  | .dmaBlock records => [.block (recordCount records) (records.flatMap Segment.transfers)]
  | .dmaIssue s => s.transfers.map .dma
  | .wait kind => [.wait kind]
  | .configure setting => [.config setting]
  | .nops count => [.nops count]
  | .kernel call => [.kernel call]
  | .dynamicShape layer => [.dynamicShape layer]
  | .scatter layer commands viaDma => [.scatter layer commands.length viaDma]
  | .preLayer entry layer => [.preLayer entry layer]
  | .postLayer entry layer => [.postLayer entry layer]

namespace CycleModel

def writes (model : CycleModel) (count : Nat) : Charge := .control (count * model.registerWrite)

def transferCost (model : CycleModel) (t : Transfer) : Nat :=
  model.perTransfer + t.elements * model.perElement

def moving (model : CycleModel) (transfers : List Transfer) : Charge :=
  .dma (total (transfers.map model.transferCost))

end CycleModel

def Primitive.charges (model : CycleModel) : Primitive → List Charge
  | .setPad _ => [model.writes 5]
  | .dmaBlock records => [model.writes 2, model.moving (records.flatMap Segment.transfers)]
  | .dmaIssue s => s.transfers.flatMap fun t => [model.writes 8, model.moving [t]]
  | .wait kind => [.wait kind]
  | .configure _ => [model.writes 1]
  | .nops count => [.lanes count]
  | .kernel call =>
    [model.writes 1,
      .lanes (Recorder.vectorSize call.cmd * model.perKernelElement + call.compensate)]
  | .scatter _ commands viaDma =>
    let cost := total (commands.map (·.copySize.toNat)) * model.perElement
    [if viaDma then .dma cost else .control cost]
  | .dynamicShape _ | .preLayer _ _ | .postLayer _ _ => []

namespace Recorder

theorem books_record (e : Event) : Books (record e) [e] fun _ => [] := by
  intro r u r'
  change Succeeds (modify _) r u r' ↔ True ∧ r' = _
  rw [succeeds_modify_iff, true_and, eq_comm]
  rfl

theorem books_chargeWrites (count : Nat) :
    Books (chargeWrites count) [] fun model => [model.writes count] := by
  intro r u r'
  unfold chargeWrites
  simp only [succeeds_bind_iff, succeeds_get_iff, succeeds_checked_iff, succeeds_set_iff,
    Checked.mul_eq_ok_iff, Checked.add_eq_ok_iff, Clock.fitsAll_singleton_iff]
  constructor
  · rintro ⟨_, _, ⟨rfl, rfl⟩, _, _, ⟨⟨rfl, -⟩, rfl⟩, _, _, ⟨⟨rfl, hfits⟩, rfl⟩, rfl⟩
    exact ⟨hfits, rfl⟩
  · rintro ⟨hfits, rfl⟩
    exact ⟨r, r, ⟨rfl, rfl⟩, _, r, ⟨⟨rfl, (Nat.le_add_left _ _).trans_lt hfits⟩, rfl⟩, _, r,
      ⟨⟨rfl, hfits⟩, rfl⟩, rfl⟩

theorem dmaCost_eq_ok_iff {model : CycleModel} {transfers : List Transfer} {n : Nat} :
    dmaCost model transfers = .ok n ↔
      total (transfers.map model.transferCost) = n ∧ n < 2 ^ 64 := by
  have hstep : ∀ (start : Nat) (t : Transfer) (m : Nat),
      (do
        let moving ← Checked.mul 64 t.elements model.perElement
        let cost ← Checked.add 64 model.perTransfer moving
        Checked.add 64 start cost : Checked Nat) = .ok m ↔
      start + model.transferCost t = m ∧ m < 2 ^ 64 := by
    intro start t m
    simp only [bind_eq_ok_iff, Checked.mul_eq_ok_iff, Checked.add_eq_ok_iff]
    constructor
    · rintro ⟨_, ⟨rfl, -⟩, _, ⟨rfl, -⟩, h⟩
      exact h
    · rintro ⟨rfl, hlt⟩
      unfold CycleModel.transferCost at hlt ⊢
      exact ⟨_, ⟨rfl, by omega⟩, _, ⟨rfl, by omega⟩, rfl, hlt⟩
  have h := foldlM_eq_ok_iff_total (n := n) _ hstep transfers (Nat.two_pow_pos 64)
  rwa [Nat.zero_add] at h

theorem books_queueDma (transfers : List Transfer) :
    Books (queueDma transfers) [] fun model => [model.moving transfers] := by
  intro r u r'
  unfold queueDma
  simp only [succeeds_bind_iff, succeeds_get_iff, succeeds_checked_iff, succeeds_set_iff,
    dmaCost_eq_ok_iff, Checked.add_eq_ok_iff, Clock.fitsAll_singleton_iff]
  constructor
  · rintro ⟨_, _, ⟨rfl, rfl⟩, _, _, ⟨⟨rfl, -⟩, rfl⟩, _, _, ⟨⟨rfl, hfits⟩, rfl⟩, rfl⟩
    exact ⟨hfits, rfl⟩
  · rintro ⟨hfits, rfl⟩
    exact ⟨r, r, ⟨rfl, rfl⟩, _, r, ⟨⟨rfl, (Nat.le_add_left _ _).trans_lt hfits⟩, rfl⟩, _, r,
      ⟨⟨rfl, hfits⟩, rfl⟩, rfl⟩

theorem books_dmaTransfer (t : Transfer) :
    Books (dmaTransfer t) [.dma t] fun model => [model.writes 8, model.moving [t]] :=
  (books_chargeWrites 8).bind ((books_queueDma [t]).bind (books_record (.dma t)))

theorem books_wait (kind : SyncKind) : Books (wait kind) [.wait kind] fun _ => [.wait kind] := by
  intro r u r'
  unfold wait
  simp only [succeeds_bind_iff, succeeds_modify_iff, Clock.fitsAll_singleton_iff]
  constructor
  · rintro ⟨_, _, rfl, h⟩
    obtain ⟨-, rfl⟩ := (books_record _ _ _ _).mp h
    cases kind <;> exact ⟨trivial, rfl⟩
  · rintro ⟨-, rfl⟩
    refine ⟨(), _, rfl, (books_record _ _ _ _).mpr ⟨trivial, ?_⟩⟩
    cases kind <;> rfl

theorem books_nops (count : Nat) : Books (nops count) [.nops count] fun _ => [.lanes count] := by
  intro r u r'
  unfold nops
  simp only [succeeds_bind_iff, succeeds_get_iff, succeeds_checked_iff, succeeds_set_iff,
    Checked.add_eq_ok_iff, Clock.fitsAll_singleton_iff]
  constructor
  · rintro ⟨_, _, ⟨rfl, rfl⟩, _, _, ⟨⟨rfl, hfits⟩, rfl⟩, _, _, rfl, h⟩
    obtain ⟨-, rfl⟩ := (books_record _ _ _ _).mp h
    exact ⟨hfits, rfl⟩
  · rintro ⟨hfits, rfl⟩
    exact ⟨r, r, ⟨rfl, rfl⟩, _, r, ⟨⟨rfl, hfits⟩, rfl⟩, (), _, rfl,
      (books_record _ _ _ _).mpr ⟨trivial, rfl⟩⟩

theorem books_queueLanes (call : KernelCall) : Books (queueLanes call) [] fun model =>
    [.lanes (vectorSize call.cmd * model.perKernelElement + call.compensate)] := by
  intro r u r'
  unfold queueLanes
  simp only [succeeds_bind_iff, succeeds_get_iff, succeeds_checked_iff, succeeds_set_iff,
    Checked.mul_eq_ok_iff, Checked.add_eq_ok_iff, Clock.fitsAll_singleton_iff]
  constructor
  · rintro ⟨_, _, ⟨rfl, rfl⟩, _, _, ⟨⟨rfl, -⟩, rfl⟩, _, _, ⟨⟨rfl, -⟩, rfl⟩, _, _,
      ⟨⟨rfl, hfits⟩, rfl⟩, rfl⟩
    rw [Nat.add_assoc] at hfits ⊢
    exact ⟨hfits, rfl⟩
  · rintro ⟨hfits, rfl⟩
    change max r.lanesBusy r.now + _ < _ at hfits
    exact ⟨r, r, ⟨rfl, rfl⟩, _, r, ⟨⟨rfl, by omega⟩, rfl⟩, _, r, ⟨⟨rfl, by omega⟩, rfl⟩, _, r,
      ⟨⟨Nat.add_assoc _ _ _, hfits⟩, rfl⟩, rfl⟩

theorem books_scatter (layer : UInt16) (commands : List Scatter) (viaDma : Bool) :
    Books (scatter layer commands viaDma) [.scatter layer commands.length viaDma] fun model =>
      (Primitive.scatter layer commands viaDma).charges model := by
  intro r u r'
  unfold scatter Primitive.charges
  cases viaDma
  all_goals
    simp only [if_true, Bool.false_eq_true, if_false, succeeds_bind_iff, succeeds_get_iff,
      succeeds_checked_iff, succeeds_set_iff, Checked.mul_eq_ok_iff, Checked.add_eq_ok_iff,
      Clock.fitsAll_singleton_iff]
    constructor
    · rintro ⟨_, _, ⟨rfl, rfl⟩, _, _, ⟨⟨rfl, -⟩, rfl⟩, _, _, ⟨⟨rfl, hfits⟩, rfl⟩, _, _, rfl, h⟩
      obtain ⟨-, rfl⟩ := (books_record _ _ _ _).mp h
      exact ⟨hfits, rfl⟩
    · rintro ⟨hfits, rfl⟩
      exact ⟨r, r, ⟨rfl, rfl⟩, _, r, ⟨⟨rfl, (Nat.le_add_left _ _).trans_lt hfits⟩, rfl⟩, _, r,
        ⟨⟨rfl, hfits⟩, rfl⟩, (), _, rfl, (books_record _ _ _ _).mpr ⟨trivial, rfl⟩⟩

theorem books_issue (p : Primitive) : Books (issue p) p.events fun model => p.charges model := by
  cases p with
  | setPad widths => exact (books_chargeWrites 5).bind (books_record (.pad widths))
  | configure setting => exact (books_chargeWrites 1).bind (books_record (.config setting))
  | dmaBlock records =>
    exact (books_chargeWrites 2).bind ((books_queueDma _).bind (books_record _))
  | dmaIssue s =>
    have hall := Books.forM books_dmaTransfer s.transfers
    rwa [← List.map_eq_flatMap] at hall
  | wait kind => exact books_wait kind
  | nops count => exact books_nops count
  | kernel call =>
    exact (books_chargeWrites 1).bind ((books_queueLanes call).bind (books_record _))
  | scatter layer commands viaDma => exact books_scatter layer commands viaDma
  | dynamicShape layer => exact books_record _
  | preLayer entry layer => exact books_record _
  | postLayer entry layer => exact books_record _

end Recorder

/-! ## Plans -/

namespace Plan

def events (plan : Plan) : List Event := plan.primitives.flatMap Primitive.events

def charges (plan : Plan) (model : CycleModel) : List Charge :=
  plan.primitives.flatMap (Primitive.charges model)

end Plan

/-- A plan is carried out exactly if it does not end early and its charges fit. -/
theorem succeeds_carryOut_iff {plan : Plan} {r r' : Recorder} {u : Unit} :
    Succeeds (Recorder.carryOut plan) r u r' ↔ plan.failure = none ∧
      r.clock.FitsAll (plan.charges r.model) ∧ r' = r.after plan.events (plan.charges r.model) := by
  have hissue := Books.forM Recorder.books_issue plan.primitives
  unfold Recorder.carryOut
  rw [succeeds_bind_iff]
  cases hfailure : plan.failure with
  | some f => simp
  | none =>
    simp only [succeeds_pure_iff, hissue r _ _, true_and]
    constructor
    · rintro ⟨_, _, h, rfl⟩
      exact h
    · intro h
      exact ⟨(), r', h, rfl⟩

/-! ## Failures -/

namespace Recorder

theorem onlyOverflows_record (e : Event) : OnlyOverflows (record e) := onlyOverflows_modify _

theorem onlyOverflows_chargeWrites (count : Nat) : OnlyOverflows (chargeWrites count) :=
  onlyOverflows_get.bind fun _ => (onlyOverflows_checked _).bind fun _ =>
    (onlyOverflows_checked _).bind fun _ => onlyOverflows_set _

theorem onlyOverflows_queueDma (transfers : List Transfer) : OnlyOverflows (queueDma transfers) :=
  onlyOverflows_get.bind fun _ => (onlyOverflows_checked _).bind fun _ =>
    (onlyOverflows_checked _).bind fun _ => onlyOverflows_set _

theorem onlyOverflows_queueLanes (call : KernelCall) : OnlyOverflows (queueLanes call) :=
  onlyOverflows_get.bind fun _ => (onlyOverflows_checked _).bind fun _ =>
    (onlyOverflows_checked _).bind fun _ => (onlyOverflows_checked _).bind fun _ =>
      onlyOverflows_set _

theorem onlyOverflows_scatter (layer : UInt16) (commands : List Scatter) (viaDma : Bool) :
    OnlyOverflows (scatter layer commands viaDma) := by
  refine onlyOverflows_get.bind fun _ => (onlyOverflows_checked _).bind fun _ => ?_
  cases viaDma <;>
    exact (onlyOverflows_checked _).bind fun _ => (onlyOverflows_set _).bind fun _ =>
      onlyOverflows_record _

theorem onlyOverflows_issue (p : Primitive) : OnlyOverflows (issue p) := by
  cases p with
  | setPad _ | configure _ =>
    exact (onlyOverflows_chargeWrites _).bind fun _ => onlyOverflows_record _
  | dmaBlock _ =>
    exact (onlyOverflows_chargeWrites _).bind fun _ => (onlyOverflows_queueDma _).bind fun _ =>
      onlyOverflows_record _
  | dmaIssue s =>
    refine OnlyOverflows.forM (fun t => ?_) s.transfers
    exact (onlyOverflows_chargeWrites _).bind fun _ => (onlyOverflows_queueDma _).bind fun _ =>
      onlyOverflows_record _
  | wait _ => exact (onlyOverflows_modify _).bind fun _ => onlyOverflows_record _
  | nops _ =>
    exact onlyOverflows_get.bind fun _ => (onlyOverflows_checked _).bind fun _ =>
      (onlyOverflows_set _).bind fun _ => onlyOverflows_record _
  | kernel _ =>
    exact (onlyOverflows_chargeWrites _).bind fun _ => (onlyOverflows_queueLanes _).bind fun _ =>
      onlyOverflows_record _
  | scatter _ _ _ => exact onlyOverflows_scatter _ _ _
  | dynamicShape _ | preLayer _ _ | postLayer _ _ => exact onlyOverflows_record _

theorem onlyOverflows_carryOut {plan : Plan} (h : ∀ f, plan.failure ≠ some (.fault f)) :
    OnlyOverflows (carryOut plan) := by
  refine (OnlyOverflows.forM onlyOverflows_issue _).bind fun _ => ?_
  cases hfailure : plan.failure with
  | none => exact onlyOverflows_pure ()
  | some e =>
    cases e with
    | fault f => exact absurd hfailure (h f)
    | overflow o => exact onlyOverflows_throw o

end Recorder

/-! ## Runs -/

section Run

variable {hw : Hardware} {r r' : Recorder}

theorem succeeds_runLayer_iff {layer : Layer} {stats : LayerStats} :
    Succeeds (runLayer layer hw) r stats r' ↔
      Succeeds (Recorder.carryOut (layer.plan hw r.pillarPoints)) r () r' ∧
        stats = layer.stats (layer.plan hw r.pillarPoints).counted (r'.now - r.now) := by
  unfold runLayer
  simp only [succeeds_bind_iff, succeeds_get_iff, succeeds_pure_iff]
  constructor
  · rintro ⟨_, _, ⟨rfl, rfl⟩, _, _, h, _, _, ⟨rfl, rfl⟩, rfl, rfl⟩
    exact ⟨h, rfl⟩
  · rintro ⟨h, rfl⟩
    exact ⟨r, r, ⟨rfl, rfl⟩, (), r', h, r', r', ⟨rfl, rfl⟩, rfl, rfl⟩

theorem succeeds_runEntry_iff {layer : Layer} {entry : Nat} {stats : LayerStats} :
    Succeeds (runEntry hw layer entry) r stats r' ↔ ∃ stats₁ r₁,
      Succeeds (runLayer layer hw) (r.after [.preLayer entry layer.params.number] []) stats₁ r₁ ∧
      r' = r₁.after [.wait .both, .postLayer entry layer.params.number] [.wait .both] ∧
      stats = { stats₁ with cycles := stats₁.cycles + (r'.now - r₁.now) } := by
  unfold runEntry
  simp only [succeeds_bind_iff, succeeds_get_iff, succeeds_pure_iff, Recorder.books_issue _ _ _ _]
  constructor
  · rintro ⟨_, _, ⟨-, rfl⟩, stats₁, r₁, h, _, _, ⟨rfl, rfl⟩, _, _, ⟨-, rfl⟩, _, _, ⟨rfl, rfl⟩, _, _,
      ⟨-, rfl⟩, rfl, rfl⟩
    exact ⟨stats₁, r₁, h, rfl, rfl⟩
  · rintro ⟨stats₁, r₁, h, rfl, rfl⟩
    exact ⟨(), _, ⟨trivial, rfl⟩, stats₁, r₁, h, r₁, r₁, ⟨rfl, rfl⟩, (), _,
      ⟨⟨trivial, trivial⟩, rfl⟩, _, _, ⟨rfl, rfl⟩, (), _, ⟨trivial, rfl⟩, rfl, rfl⟩

def entryEvents (hw : Hardware) (points : List UInt16) (layer : Layer) (entry : Nat) : List Event :=
  .preLayer entry layer.params.number :: (layer.plan hw points).events ++
    [.wait .both, .postLayer entry layer.params.number]

theorem after_of_runEntry {layer : Layer} {entry : Nat} {stats : LayerStats}
    (h : Succeeds (runEntry hw layer entry) r stats r') :
    (layer.plan hw r.pillarPoints).failure = none ∧
      r' = r.after (entryEvents hw r.pillarPoints layer entry)
        ((layer.plan hw r.pillarPoints).charges r.model ++ [.wait .both]) := by
  obtain ⟨_, _, hlayer, rfl, -⟩ := succeeds_runEntry_iff.mp h
  obtain ⟨hplan, -⟩ := succeeds_runLayer_iff.mp hlayer
  obtain ⟨hfailure, -, rfl⟩ := succeeds_carryOut_iff.mp hplan
  rw [Recorder.after_after, Recorder.after_after]
  exact ⟨hfailure, rfl⟩

/-- From one recorder to the other these events were logged; the point counts have not changed. -/
structure Emits (es : List Event) (r r' : Recorder) : Prop where
  events : r'.events = r.events ++ es
  points : r'.pillarPoints = r.pillarPoints

namespace Emits

theorem refl (r : Recorder) : Emits [] r r := ⟨by simp, rfl⟩

theorem after (r : Recorder) (es : List Event) (qs : List Charge) : Emits es r (r.after es qs) :=
  ⟨r.events_after es qs, rfl⟩

theorem trans {a b : List Event} {r r' r'' : Recorder} (h : Emits a r r') (h' : Emits b r' r'') :
    Emits (a ++ b) r r'' :=
  ⟨by rw [h'.events, h.events, List.append_assoc], h'.points.trans h.points⟩

end Emits

theorem emits_mapM_runEntry {layers : List (Layer × Nat)} {stats : List LayerStats}
    (h : Succeeds (layers.mapM fun (layer, entry) => runEntry hw layer entry) r stats r') :
    (∀ x ∈ layers, (x.1.plan hw r.pillarPoints).failure = none) ∧
      Emits (layers.flatMap fun (layer, entry) => entryEvents hw r.pillarPoints layer entry)
        r r' := by
  induction layers generalizing r stats with
  | nil =>
    rw [List.mapM_nil, succeeds_pure_iff] at h
    obtain ⟨-, rfl⟩ := h
    exact ⟨by simp, .refl r⟩
  | cons x layers ih =>
    simp only [List.mapM_cons, succeeds_bind_iff, succeeds_pure_iff] at h
    obtain ⟨_, _, hx, _, _, hlayers, -, rfl⟩ := h
    obtain ⟨hfailure, rfl⟩ := after_of_runEntry hx
    obtain ⟨hfailures, hrest⟩ := ih hlayers
    exact ⟨List.forall_mem_cons.mpr ⟨hfailure, hfailures⟩, (Emits.after r _ _).trans hrest⟩

/-- A run that succeeds logs the plans of the scheduled layers in order. -/
theorem emits_runNet {bytes : List UInt8} {stats : List LayerStats}
    (h : Succeeds (runNet bytes hw) r stats r') :
    ∃ layers, Blob.schedule bytes hw = .ok layers ∧
      (∀ layer ∈ layers, (layer.plan hw r.pillarPoints).failure = none) ∧
      Emits (layers.zipIdx.flatMap fun (layer, entry) =>
        entryEvents hw r.pillarPoints layer entry) r r' := by
  unfold runNet at h
  simp only [succeeds_bind_iff, succeeds_fault_iff] at h
  obtain ⟨layers, _, ⟨hschedule, rfl⟩, hrun⟩ := h
  obtain ⟨hfailures, hemits⟩ := emits_mapM_runEntry hrun
  refine ⟨layers, hschedule, fun layer hlayer => ?_, hemits⟩
  rw [← List.zipIdx_map_fst 0 layers] at hlayer
  obtain ⟨x, hx, rfl⟩ := List.mem_map.mp hlayer
  exact hfailures x hx

end Run

end CommandStream
