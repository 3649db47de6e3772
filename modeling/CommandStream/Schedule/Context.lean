import CommandStream.Hardware
import CommandStream.Schedule.Primitive

/-! # Layer context

What the header of a layer fixes before its first command: where kernels, biases and the clipping
constant lie in the register file, and the settings of the lanes.
-/

namespace CommandStream

/-- Extent of a kernel and the registers its parameters start at. The last register of the file
takes discarded results, and the others are given out downwards from it. -/
structure RegisterLayout where
  kernelX : Nat := 0
  kernelY : Nat := 0
  kernelBase : Int
  biasBase : Int
  relu6Base : Int
  deriving DecidableEq, Repr

namespace RegisterLayout

/-- Kernels of all parallel outputs, then their biases, then the clipping constant. -/
def windows (p : LayerParams) (discard : Int) : Checked RegisterLayout := do
  let kernelX := (if p.kind.kernelSpansChannels then p.inChannels else p.kernelLength).toNat
  let kernelY := p.kernelLength.toNat
  let area := (UInt32.ofNat (kernelX * kernelY)).toInt32.toInt
  let kernels ← Checked.mulSigned area p.parallelOut.toNat
  let kernelBase ← Checked.subSigned discard kernels
  let biasBase ← Checked.subSigned kernelBase p.parallelOut.toNat
  let relu6Base ← Checked.subSigned biasBase 1
  return { kernelX, kernelY, kernelBase, biasBase, relu6Base }

/-- One kernel and one bias. The windows of all parallel outputs have to fit here as well. -/
def deformable (p : LayerParams) (discard : Int) : Checked RegisterLayout := do
  let _ ← windows p discard
  let kernelBase ← Checked.subSigned discard p.kernelLength.toNat
  let biasBase ← Checked.subSigned kernelBase 1
  let relu6Base ← Checked.subSigned biasBase 1
  return { kernelX := p.kernelLength.toNat, kernelY := 1, kernelBase, biasBase, relu6Base }

def ofParams (p : LayerParams) (discard : Int) : Checked RegisterLayout :=
  match p.kind with
  | .conv1 | .conv2 | .conv2Transpose | .pointPillars | .maxPool2d => windows p discard
  | .deformConv => deformable p discard
  | .add | .mul => do
    return { kernelBase := discard, biasBase := discard,
             relu6Base := ← Checked.subSigned discard 1 }
  | _ => return { kernelBase := discard, biasBase := discard, relu6Base := discard }

end RegisterLayout

structure Context where
  kind : LayerKind
  /-- The activation that is carried out. -/
  activation : Activation
  registers : RegisterLayout
  vectorLength : Nat
  compensate : Nat
  leakyShift : Int16
  convShift : Int16
  writeReadBubble : Nat
  /-- Settings written before the first command. -/
  setup : List LaneSetting
  deriving DecidableEq, Repr

namespace Context

def leakyDefaultShift : Int16 := 18

/-- The largest left shift at which the clipping constant 6 can be held. -/
def relu6MaxShift : Int16 := 20

def leakyShiftOf (p : LayerParams) : Int16 :=
  if p.activation = .leaky && p.alpha = 0 then leakyDefaultShift else p.alphaShiftRight

/-- Clipping at a bound that cannot be represented never happens, so the lower bound alone is
left. -/
def activationOf (p : LayerParams) : Activation :=
  if p.activation = .relu6 && relu6MaxShift < p.relu6ShiftLeft then .rect else p.activation

def convSetup (p : LayerParams) : List LaneSetting :=
  [.macShift p.resultShiftRight,
    .macReset (if p.kind = .conv2 && p.kernelLength = 1 then .xIncrement else .zIncrement),
    .macInit .register]

def kindSetup (p : LayerParams) : List LaneSetting :=
  match p.kind with
  | .conv1 | .conv2 | .deformConv | .pointPillars | .maxPool2d => convSetup p
  | .conv2Transpose => convSetup p ++ [.convTransposeTable p.stride]
  | .deform => [.macShift p.resultShiftRight, .mulShift p.resultShiftRight]
  | .mul => [.mulShift p.resultShiftRight]
  | .globalAvgPool2d => [.globalAvgPoolConstants]
  | .avgPool2d => [.macShift p.poolAvgShiftRight.toInt16, .macReset .zIncrement, .macInit .zero]
  | _ => []

def setupOf (p : LayerParams) (relu6Base : Int) : List LaneSetting :=
  (if p.activation = .leaky then [.mulShift (leakyShiftOf p)] else []) ++ kindSetup p ++
    (if activationOf p = .relu6 then [.relu6Constant p.relu6ShiftLeft relu6Base] else [])

def ofLayer (p : LayerParams) (hw : Hardware) : Checked Context := do
  let discard ← Checked.subSigned hw.registerFileSize.toInt32.toInt 1
  let vectorLength ← p.vectorLength
  let registers ← RegisterLayout.ofParams p discard
  return {
    kind := p.kind
    activation := activationOf p
    registers
    vectorLength
    compensate := hw.minVectorLength.toNat - vectorLength
    leakyShift := leakyShiftOf p
    convShift := p.resultShiftRight
    writeReadBubble := hw.writeReadBubble.toNat
    setup := setupOf p registers.relu6Base }

end Context

end CommandStream
