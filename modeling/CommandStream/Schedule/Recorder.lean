import CommandStream.Schedule.Plan

/-! # The recorder

An accelerator that carries nothing out: it keeps a log of what is asked of it and charges cycles.
The transfer engines and the lanes work in the background; each has a time until which it is busy.
-/

namespace CommandStream

structure CycleModel where
  registerWrite : Nat := 1
  perElement : Nat := 1
  perTransfer : Nat := 8
  perKernelElement : Nat := 1
  deriving DecidableEq, Repr

inductive Event where
  | pad (widths : PadWidths)
  | block (records : Nat) (transfers : List Transfer)
  | dma (t : Transfer)
  | wait (kind : SyncKind)
  | config (setting : LaneSetting)
  | nops (count : Nat)
  | kernel (call : KernelCall)
  | dynamicShape (layer : UInt16)
  | scatter (layer : UInt16) (commands : Nat) (viaDma : Bool)
  | preLayer (entry : Nat) (layer : UInt16)
  | postLayer (entry : Nat) (layer : UInt16)
  deriving DecidableEq, Repr

structure Recorder where
  /-- The events, the last one first. -/
  log : List Event := []
  model : CycleModel := {}
  /-- Points of each pillar, as reported to point-pillar layers. -/
  pillarPoints : List UInt16 := []
  dmaBusy : Nat := 0
  lanesBusy : Nat := 0
  now : Nat := 0
  deriving DecidableEq, Repr

/-- Work on a recorder, which keeps what was done before a failure. -/
abbrev Recording (α : Type) := ExceptT Failure (StateM Recorder) α

instance : MonadLift (Except Failure) (ExceptT Failure (StateM Recorder)) where
  monadLift r := ExceptT.mk (pure r)

namespace Event

def transfers : Event → List Transfer
  | .block _ transfers => transfers
  | .dma t => [t]
  | _ => []

def call? : Event → Option KernelCall
  | .kernel call => some call
  | _ => none

def setting? : Event → Option LaneSetting
  | .config setting => some setting
  | _ => none

def wait? : Event → Option SyncKind
  | .wait kind => some kind
  | _ => none

end Event

namespace Recorder

def events (r : Recorder) : List Event := r.log.reverse

def transfers (r : Recorder) : List Transfer := r.events.flatMap Event.transfers

def calls (r : Recorder) : List KernelCall := r.events.filterMap Event.call?

def settings (r : Recorder) : List LaneSetting := r.events.filterMap Event.setting?

def waits (r : Recorder) : List SyncKind := r.events.filterMap Event.wait?

def record (e : Event) : Recording Unit :=
  modify fun r => { r with log := e :: r.log }

def chargeWrites (writes : Nat) : Recording Unit := do
  let r ← get
  let cost ← Checked.mul 64 writes r.model.registerWrite
  let now ← Checked.add 64 r.now cost
  set { r with now }

def dmaCost (model : CycleModel) (transfers : List Transfer) : Checked Nat :=
  transfers.foldlM (fun total t => do
    let moving ← Checked.mul 64 t.elements model.perElement
    let cost ← Checked.add 64 model.perTransfer moving
    Checked.add 64 total cost) 0

def queueDma (transfers : List Transfer) : Recording Unit := do
  let r ← get
  let cost ← dmaCost r.model transfers
  let dmaBusy ← Checked.add 64 (max r.dmaBusy r.now) cost
  set { r with dmaBusy }

def dmaBlock (records : List Segment) : Recording Unit := do
  let transfers := records.flatMap Segment.transfers
  chargeWrites 2
  queueDma transfers
  record (.block (recordCount records) transfers)

def dmaTransfer (t : Transfer) : Recording Unit := do
  chargeWrites 8
  queueDma [t]
  record (.dma t)

def wait (kind : SyncKind) : Recording Unit := do
  modify fun r =>
    let deadline := match kind with
      | .dma => r.dmaBusy
      | .lanes => r.lanesBusy
      | .both => max r.dmaBusy r.lanesBusy
    { r with now := max r.now deadline }
  record (.wait kind)

def nops (count : Nat) : Recording Unit := do
  let r ← get
  let lanesBusy ← Checked.add 64 (max r.lanesBusy r.now) count
  set { r with lanesBusy }
  record (.nops count)

def vectorSize (c : Compute) : Nat :=
  (c.xEnd.toNat + 1) * (c.yEnd.toNat + 1) * (c.zEnd.toNat + 1)

def queueLanes (call : KernelCall) : Recording Unit := do
  let r ← get
  let work ← Checked.mul 64 (vectorSize call.cmd) r.model.perKernelElement
  let finished ← Checked.add 64 (max r.lanesBusy r.now) work
  let lanesBusy ← Checked.add 64 finished call.compensate
  set { r with lanesBusy }

def kernel (call : KernelCall) : Recording Unit := do
  chargeWrites 1
  queueLanes call
  record (.kernel call)

/-- Scatter by the engines in the background, or by the control processor. -/
def scatter (layer : UInt16) (commands : List Scatter) (viaDma : Bool) : Recording Unit := do
  let r ← get
  let bytes := total (commands.map (·.copySize.toNat))
  let cost ← Checked.mul 64 bytes r.model.perElement
  if viaDma then
    let dmaBusy ← Checked.add 64 (max r.dmaBusy r.now) cost
    set { r with dmaBusy }
  else
    let now ← Checked.add 64 r.now cost
    set { r with now }
  record (.scatter layer commands.length viaDma)

def issue : Primitive → Recording Unit
  | .setPad widths => do
    chargeWrites 5
    record (.pad widths)
  | .dmaBlock records => dmaBlock records
  | .dmaIssue s => s.transfers.forM dmaTransfer
  | .wait kind => wait kind
  | .configure setting => do
    chargeWrites 1
    record (.config setting)
  | .nops count => nops count
  | .kernel call => kernel call
  | .dynamicShape layer => record (.dynamicShape layer)
  | .scatter layer commands viaDma => scatter layer commands viaDma
  | .preLayer entry layer => record (.preLayer entry layer)
  | .postLayer entry layer => record (.postLayer entry layer)

/-- Issue a plan, and fail where it ends early. -/
def carryOut (plan : Plan) : Recording Unit := do
  plan.primitives.forM issue
  match plan.failure with
  | some f => throw f
  | none => return ()

end Recorder

end CommandStream
