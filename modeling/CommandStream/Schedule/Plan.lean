import CommandStream.Schedule.Context
import CommandStream.Segment.Block

/-! # Layer plans

The plan of a layer is the list of primitives its stream asks for, with the segments that are counted
on the way. It ends early with a failure when a block marker is malformed; what comes before has been
issued by then.
-/

namespace CommandStream

structure Plan where
  primitives : List Primitive := []
  /-- The segments that enter the statistics, in the order in which they are counted. -/
  counted : List Segment := []
  failure : Option Failure := none
  deriving DecidableEq, Repr

def Plan.after (p : Plan) (first : List Primitive) : Plan :=
  { p with primitives := first ++ p.primitives }

def Plan.counting (p : Plan) (first : List Segment) : Plan :=
  { p with counted := first ++ p.counted }

/-- Extents of point-pillar commands. A block loads the data that the commands behind the next block
consume, so its extent takes effect one block later. -/
structure Extent where
  current : UInt16 := 0
  next : UInt16 := 0
  deriving DecidableEq, Repr

namespace Extent

def ofPoints (points : UInt16) : UInt16 := UInt16.ofNat (points.toNat - 1)

def advance (e : Extent) (longest : UInt16) : Extent :=
  { current := e.next, next := ofPoints longest }

end Extent

def longestRow (body : List Segment) : UInt16 :=
  (body.flatMap Segment.transfers).foldl (fun longest t => max longest t.width) 0

namespace Context

def isDynamic (ctx : Context) (op : Opcode) : Bool :=
  ctx.kind = .pointPillars &&
    (op = .conv1dStart || op = .conv1dAdd || op = .reluPoolScatter)

def resolve (ctx : Context) (e : Extent) (c : Compute) : Compute :=
  if ctx.isDynamic c.op then
    { c with
      zEnd := e.current
      nops := UInt8.ofNat (min 255 (ctx.writeReadBubble - e.current.toNat)) }
  else c

def call (ctx : Context) (c : Compute) (kernel : Kernel) : Primitive :=
  .kernel { kernel, cmd := c, compensate := ctx.compensate }

def biasLoads (ctx : Context) (c : Compute) : List Primitive :=
  [ctx.call c (.biasLoad 0 c.bias0), ctx.call c (.biasLoad 1 c.bias1)]

def kernelLoads (ctx : Context) (c : Compute) : List Primitive :=
  [ctx.call c (.kernelLoad 0 c.kernel0), ctx.call c (.kernelLoad 1 c.kernel1)]

def idle (c : Compute) : List Primitive :=
  if c.nops = 0 then [] else [.nops c.nops.toNat]

/-- The four blocks of a deformable sampling step: 4 by 4 values each, out of a chunk that is 8
values wide, with 9 kernel positions and 3 values for each of them. -/
def deformBlocks (ctx : Context) (p : LayerParams) (c : Compute) : List Primitive :=
  [(0, 0), (0, 1), (1, 0), (1, 1)].map fun ((y, x) : UInt16 × UInt16) =>
    let block := y * 32 + x * 4
    ctx.call c (.deformBlock c.buffer (c.deformOffset + y * 864 + x * 4)
      (c.deformOutput + block * 9) (p.deformStaticOffsets + block * 9))

def reshift (amount : Int16) : List Primitive :=
  [.wait .lanes, .configure (.mulShift amount)]

/-- An element-wise product. It shares the multiplier shift with the leaky activation. -/
def multiply (ctx : Context) (c : Compute) : List Primitive :=
  if ctx.activation = .leaky && ctx.convShift ≠ ctx.leakyShift then
    idle c ++ reshift ctx.convShift ++ [ctx.call c .elementwise] ++ reshift ctx.leakyShift
  else idle c ++ [ctx.call c .elementwise]

def primitives (ctx : Context) (p : LayerParams) (c : Compute) : List Primitive :=
  match c.op with
  | .convStart => ctx.biasLoads c ++ ctx.kernelLoads c ++ [ctx.call c .conv2d]
  | .convAdd => ctx.kernelLoads c ++ [ctx.call c .conv2dAdd]
  | .conv1dStart => ctx.biasLoads c ++ ctx.kernelLoads c ++ [ctx.call c .conv1d]
  | .conv1dAdd => [ctx.call c .conv1dAdd]
  | .convTransposeStart => ctx.biasLoads c ++ ctx.kernelLoads c ++ [ctx.call c .convTranspose]
  | .convTransposeAdd => ctx.kernelLoads c ++ [ctx.call c .convTransposeAdd]
  | .deformConvStart => ctx.biasLoads c ++ ctx.kernelLoads c ++ [ctx.call c .deformConv]
  | .deformConvAdd => ctx.kernelLoads c ++ [ctx.call c .deformConvAdd]
  | .deform8x8 => ctx.deformBlocks p c
  | .reluPoolScatter => idle c ++ [ctx.call c (.activation .rect), ctx.call c .poolScatter]
  | .setMasks => [.configure (.masks c.clusterMask c.unitMask)]
  | .resetIndices => [ctx.call c .resetIndices]
  | .add => idle c ++ [ctx.call c .elementwise]
  | .mul => ctx.multiply c
  | .concatenate => [ctx.call c .concatenate]
  | .depthToSpace => [ctx.call c .depthToSpace]
  | .avgPool2d =>
    [ctx.call c .avgPoolLoadKernel, ctx.call c .avgPool, ctx.call c .avgPoolStore]
  | .maxPooling => [ctx.call c .maxPool2d]
  | .globalAvgPoolStart =>
    [.wait .lanes, .configure (.macReset .once), .configure (.macInit .zero),
      .configure (.macShift 16), ctx.call c .globalAvgPoolAdd, .wait .lanes,
      .configure (.macReset .never)]
  | .globalAvgPoolAdd => [ctx.call c .globalAvgPoolAdd]
  | .globalAvgPoolStore => [ctx.call c .globalAvgPoolStore]
  | .globalAvgPoolSum => [ctx.call c .globalAvgPoolSum]
  | .globalAvgPoolDivide => [ctx.call c .globalAvgPoolDivide]
  | .shiftStore => idle c ++ [ctx.call c .shiftStore]
  | .shiftStoreUpsample => idle c ++ [ctx.call c .shiftStoreUpsample]
  | .maxPool2x2Fused => idle c ++ [ctx.call c .maxPool2x2]
  | .activationFused =>
    if ctx.activation = .none then idle c
    else idle c ++ [ctx.call c (.activation ctx.activation)]

def extentAfter (e : Extent) (points : List UInt16) (c : Compute) : Extent :=
  if c.op = .setMasks then
    { e with current := Extent.ofPoints (points.getD c.offset.toNat 0) }
  else e

def extentAtBlock (ctx : Context) (e : Extent) (body : List Segment) : Extent :=
  if ctx.kind = .pointPillars then e.advance (longestRow body) else e

end Context

/-- The plan for the rest of a stream that stands at `index`; the next `fetched` segments belong to
the last block and have been issued and counted with it. -/
def planFrom (ctx : Context) (p : LayerParams) (points : List UInt16) :
    Nat → Nat → Extent → List Segment → Plan
  | _, _, _, [] => {}
  | index, fetched + 1, e, _ :: rest => planFrom ctx p points (index + 1) fetched e rest
  | index, 0, e, s :: rest =>
    match s with
    | .block count =>
      match blockBody index count rest with
      | .error f => { counted := [s], failure := some (.fault f) }
      | .ok body =>
        ((planFrom ctx p points (index + 1) body.length (ctx.extentAtBlock e body) rest).after
          [.dmaBlock body]).counting (s :: body)
    | .transfer _ | .loop _ =>
      ((planFrom ctx p points (index + 1) 0 e rest).after [.dmaIssue s]).counting [s]
    | .compute c =>
      ((planFrom ctx p points (index + 1) 0 (Context.extentAfter e points c) rest).after
        (ctx.primitives p (ctx.resolve e c))).counting [s]
    | .sync kind =>
      ((planFrom ctx p points (index + 1) 0 e rest).after [.wait kind]).counting [s]
    | .padding widths =>
      ((planFrom ctx p points (index + 1) 0 e rest).after [.setPad widths]).counting [s]
    | .scatter _ => (planFrom ctx p points (index + 1) 0 e rest).counting [s]

def LayerKind.bypassesStream : LayerKind → Bool
  | .dynamicAxis | .scatterToGrid => true
  | _ => false

def Segment.scatter? : Segment → Option Scatter
  | .scatter s => some s
  | _ => none

/-- The plan of a layer. The point counts reach point-pillar layers only. -/
def Layer.plan (layer : Layer) (hw : Hardware) (points : List UInt16) : Plan :=
  let p := layer.params
  match p.kind with
  | .dynamicAxis => { primitives := [.dynamicShape p.number] }
  | .scatterToGrid =>
    let commands := layer.segments.filterMap Segment.scatter?
    { primitives := [.scatter p.number commands (commands.head?.any (·.viaDma))] }
  | _ =>
    match Context.ofLayer p hw with
    | .error o => { primitives := [.setPad p.pad], failure := some (.overflow o) }
    | .ok ctx =>
      let points := if p.kind = .pointPillars then points else []
      (planFrom ctx p points 0 0 {} layer.segments).after
        (.setPad p.pad :: ctx.setup.map .configure)

end CommandStream
