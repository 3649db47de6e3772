import CommandStream.Blob.Basic
import CommandStream.Optimize.Validity
import CommandStream.Schedule.Recorder

/-! # Running networks

Layers run one after the other, in the order of the execution list. Everything is checked before the
first command is issued, and each layer ends on idle hardware.
-/

namespace CommandStream

structure SegmentTally where
  blocks : Nat := 0
  computes : Nat := 0
  loops : Nat := 0
  paddings : Nat := 0
  scatters : Nat := 0
  syncs : Nat := 0
  transfers : Nat := 0
  deriving DecidableEq, Repr

namespace SegmentTally

def count (t : SegmentTally) : Segment → SegmentTally
  | .block _ => { t with blocks := t.blocks + 1 }
  | .compute _ => { t with computes := t.computes + 1 }
  | .loop _ => { t with loops := t.loops + 1 }
  | .padding _ => { t with paddings := t.paddings + 1 }
  | .scatter _ => { t with scatters := t.scatters + 1 }
  | .sync _ => { t with syncs := t.syncs + 1 }
  | .transfer _ => { t with transfers := t.transfers + 1 }

def ofSegments (segments : List Segment) : SegmentTally := segments.foldl count {}

def entries (t : SegmentTally) : List (String × Nat) :=
  [("block", t.blocks), ("compute", t.computes), ("loop", t.loops), ("padding", t.paddings),
    ("scatter", t.scatters), ("sync", t.syncs), ("transfer", t.transfers)].filter (·.2 ≠ 0)

end SegmentTally

/-- Transfers a segment asks for, each loop counted by its stated number. -/
def Segment.statedTransfers : Segment → Nat
  | .transfer _ => 1
  | .loop l => l.count.toNat
  | _ => 0

structure LayerStats where
  number : UInt16
  kind : LayerKind
  segments : SegmentTally := {}
  transfers : Nat := 0
  cycles : Nat := 0
  deriving DecidableEq, Repr

/-- The statistics of a layer that ran for the given number of cycles, with the segments counted. -/
def Layer.stats (layer : Layer) (counted : List Segment) (cycles : Nat) : LayerStats where
  number := layer.params.number
  kind := layer.params.kind
  segments := .ofSegments counted
  transfers := total (counted.map Segment.statedTransfers)
  cycles

def runLayer (layer : Layer) (hw : Hardware) : Recording LayerStats := do
  let r ← get
  let plan := layer.plan hw r.pillarPoints
  Recorder.carryOut plan
  return layer.stats plan.counted ((← get).now - r.now)

/-- Run one entry of the execution list and wait until the hardware is idle. -/
def runEntry (hw : Hardware) (layer : Layer) (entry : Nat) : Recording LayerStats := do
  Recorder.issue (.preLayer entry layer.params.number)
  let stats ← runLayer layer hw
  let before := (← get).now
  Recorder.issue (.wait .both)
  let idle := (← get).now - before
  Recorder.issue (.postLayer entry layer.params.number)
  return { stats with cycles := stats.cycles + idle }

def Net.schedule (net : Net) : Except Fault (List Layer) :=
  net.execList.zipIdx.mapM fun (layer, entry) =>
    match net.layers[layer.toNat]? with
    | some l => .ok l
    | none => .error (.execListOutOfRange entry layer.toNat net.layers.length)

/-- The layers of a blob in the order in which they run, all of them valid. -/
def Blob.schedule (bytes : List UInt8) (hw : Hardware) : Except Fault (List Layer) := do
  let net ← Blob.toNet bytes
  let layers ← net.schedule
  layers.forM (·.validate hw)
  return layers

def runNet (bytes : List UInt8) (hw : Hardware) : Recording (List LayerStats) := do
  let layers ← (Blob.schedule bytes hw : Except Fault (List Layer))
  layers.zipIdx.mapM fun (layer, entry) => runEntry hw layer entry

end CommandStream
