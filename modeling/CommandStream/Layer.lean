import CommandStream.Segment.Basic

/-! # Layers and networks

A layer is a header of parameters and the command stream it executes. A network is a list of layers
and the order in which they run.
-/

namespace CommandStream

/-- Operation a layer performs. -/
inductive LayerKind where
  | unknown
  | conv2
  | add
  | mul
  | conv2Transpose
  | conv1
  | concatenate
  | depthToSpace
  | scatterToGrid
  | dynamicAxis
  | deform
  | deformConv
  | pointPillars
  | maxPool2d
  | avgPool2d
  | globalAvgPool2d
  | globalMaxPool2d
  deriving DecidableEq, Repr

namespace LayerKind

def all : List LayerKind :=
  [.unknown, .conv2, .add, .mul, .conv2Transpose, .conv1, .concatenate, .depthToSpace,
    .scatterToGrid, .dynamicAxis, .deform, .deformConv, .pointPillars, .maxPool2d, .avgPool2d,
    .globalAvgPool2d, .globalMaxPool2d]

def code : LayerKind → UInt8
  | .unknown => 0
  | .conv2 => 1
  | .add => 2
  | .mul => 3
  | .conv2Transpose => 4
  | .conv1 => 5
  | .concatenate => 6
  | .depthToSpace => 7
  | .scatterToGrid => 8
  | .dynamicAxis => 9
  | .deform => 10
  | .deformConv => 11
  | .pointPillars => 12
  | .maxPool2d => 13
  | .avgPool2d => 14
  | .globalAvgPool2d => 15
  | .globalMaxPool2d => 16

def ofCode? (code : UInt8) : Option LayerKind := all[code.toNat]?

theorem ofCode?_code (l : LayerKind) : ofCode? l.code = some l := by
  cases l <;> rfl

def key : LayerKind → String
  | .unknown => "unknown"
  | .conv2 => "conv2"
  | .add => "add"
  | .mul => "mul"
  | .conv2Transpose => "conv2_transpose"
  | .conv1 => "conv1"
  | .concatenate => "concatenate"
  | .depthToSpace => "depth_to_space"
  | .scatterToGrid => "scatter_to_grid"
  | .dynamicAxis => "dynamic_axis"
  | .deform => "dconv_deform"
  | .deformConv => "dconv_conv"
  | .pointPillars => "point_pillars"
  | .maxPool2d => "max_pool2d"
  | .avgPool2d => "avg_pool2d"
  | .globalAvgPool2d => "global_avg_pool2d"
  | .globalMaxPool2d => "global_max_pool2d"

def name : LayerKind → String
  | .unknown => "Unknown"
  | .conv2 => "Conv2"
  | .add => "Add"
  | .mul => "Mul"
  | .conv2Transpose => "Conv2Transpose"
  | .conv1 => "Conv1"
  | .concatenate => "Concatenate"
  | .depthToSpace => "DepthToSpace"
  | .scatterToGrid => "ScatterToGrid"
  | .dynamicAxis => "DynamicAxis"
  | .deform => "DconvDeform"
  | .deformConv => "DconvConv"
  | .pointPillars => "PointPillars"
  | .maxPool2d => "MaxPool2d"
  | .avgPool2d => "AvgPool2d"
  | .globalAvgPool2d => "GlobalAvgPool2d"
  | .globalMaxPool2d => "GlobalMaxPool2d"

/-- Layers of these kinds have one kernel column for each input channel. -/
def kernelSpansChannels : LayerKind → Bool
  | .conv1 | .pointPillars => true
  | _ => false

end LayerKind

/-- Function applied to results before they are stored. -/
inductive Activation where
  | leaky
  | rect
  | relu6
  | sigmoid
  | swish
  | none
  deriving DecidableEq, Repr

namespace Activation

def all : List Activation := [.leaky, .rect, .relu6, .sigmoid, .swish, .none]

def code : Activation → UInt8
  | .leaky => 0
  | .rect => 1
  | .relu6 => 2
  | .sigmoid => 3
  | .swish => 4
  | .none => 255

def ofCode? (code : UInt8) : Option Activation := all.find? (·.code == code)

theorem ofCode?_code (a : Activation) : ofCode? a.code = some a := by
  cases a <;> rfl

def key : Activation → String
  | .leaky => "leaky"
  | .rect => "rect"
  | .relu6 => "relu6"
  | .sigmoid => "sigmoid"
  | .swish => "swish"
  | .none => "none"

def name : Activation → String
  | .leaky => "Leaky"
  | .rect => "Rect"
  | .relu6 => "Relu6"
  | .sigmoid => "Sigmoid"
  | .swish => "Swish"
  | .none => "None"

end Activation

/-- Where a feature map lies in host memory. -/
structure Image where
  hostBase : UInt32 := 0
  x : UInt32 := 0
  y : UInt32 := 0
  yStride : UInt32 := 0
  channels : UInt32 := 0
  deriving DecidableEq, Repr

abbrev Image.Fields :=
  UInt32 × UInt32 × UInt32 × UInt32 × UInt32

def Image.toFields (x : Image) : Image.Fields :=
  (x.hostBase, x.x, x.y, x.yStride, x.channels)

def Image.ofFields : Image.Fields → Image
  | (hostBase, x, y, yStride, channels) =>
    { hostBase, x, y, yStride, channels }

@[simp] theorem Image.ofFields_toFields (x : Image) : ofFields x.toFields = x := rfl

structure LayerParams where
  inChannels : UInt16 := 0
  outChannels : UInt16 := 0
  number : UInt16 := 0
  kind : LayerKind := .unknown
  stride : UInt16 := 0
  kernelLength : UInt16 := 0
  convGroups : UInt32 := 0
  dilationW : UInt16 := 0
  dilationH : UInt16 := 0
  segOutW : UInt16 := 0
  segOutH : UInt16 := 0
  segInW : UInt16 := 0
  segInH : UInt16 := 0
  resultShiftRight : Int16 := 0
  relu6ShiftLeft : Int16 := 0
  alphaShiftRight : Int16 := 0
  biasShiftRight : Int16 := 0
  storeShiftRight : Int16 := 0
  elwise1ShiftLeft : Int16 := 0
  elwise0ShiftLeft : Int16 := 0
  elwise1ShiftRight : Int16 := 0
  elwise0ShiftRight : Int16 := 0
  poolStride : UInt16 := 0
  activation : Activation := .none
  alpha : UInt16 := 0
  pad : PadWidths := {}
  input : Image := {}
  output : Image := {}
  axis : UInt16 := 0
  dynamicShape : UInt16 := 0
  blockSize : UInt16 := 0
  lastReaderOfInput : Bool := false
  firstWriterOfOutput : Bool := false
  poolSizeW : UInt16 := 0
  poolSizeH : UInt16 := 0
  poolSizeCh : UInt16 := 0
  poolStrideW : UInt16 := 0
  poolStrideH : UInt16 := 0
  poolStrideCh : UInt16 := 0
  poolAvgShiftRight : UInt16 := 0
  deformStaticOffsets : UInt16 := 0
  deformMaxOffsetX : UInt16 := 0
  deformMaxOffsetY : UInt16 := 0
  parallelOut : UInt16 := 1
  parallelIn : UInt16 := 1
  subpixelPad : PadWidths := {}
  inputPixelsW : UInt16 := 0
  inputPixelsH : UInt16 := 0
  deriving DecidableEq, Repr

abbrev LayerParams.Fields :=
  UInt16 × UInt16 × UInt16 × LayerKind × UInt16 × UInt16 × UInt32 × UInt16 × UInt16 × UInt16 ×
  UInt16 × UInt16 × UInt16 × Int16 × Int16 × Int16 × Int16 × Int16 × Int16 × Int16 × Int16 × Int16
  × UInt16 × Activation × UInt16 × PadWidths × Image × Image × UInt16 × UInt16 × UInt16 × Bool ×
  Bool × UInt16 × UInt16 × UInt16 × UInt16 × UInt16 × UInt16 × UInt16 × UInt16 × UInt16 × UInt16 ×
  UInt16 × UInt16 × PadWidths × UInt16 × UInt16

def LayerParams.toFields (p : LayerParams) : LayerParams.Fields :=
  (p.inChannels, p.outChannels, p.number, p.kind, p.stride, p.kernelLength, p.convGroups,
    p.dilationW, p.dilationH, p.segOutW, p.segOutH, p.segInW, p.segInH, p.resultShiftRight,
    p.relu6ShiftLeft, p.alphaShiftRight, p.biasShiftRight, p.storeShiftRight, p.elwise1ShiftLeft,
    p.elwise0ShiftLeft, p.elwise1ShiftRight, p.elwise0ShiftRight, p.poolStride, p.activation,
    p.alpha, p.pad, p.input, p.output, p.axis, p.dynamicShape, p.blockSize, p.lastReaderOfInput,
    p.firstWriterOfOutput, p.poolSizeW, p.poolSizeH, p.poolSizeCh, p.poolStrideW, p.poolStrideH,
    p.poolStrideCh, p.poolAvgShiftRight, p.deformStaticOffsets, p.deformMaxOffsetX,
    p.deformMaxOffsetY, p.parallelOut, p.parallelIn, p.subpixelPad, p.inputPixelsW,
    p.inputPixelsH)

def LayerParams.ofFields : LayerParams.Fields → LayerParams
  | (inChannels, outChannels, number, kind, stride, kernelLength, convGroups, dilationW,
    dilationH, segOutW, segOutH, segInW, segInH, resultShiftRight, relu6ShiftLeft,
    alphaShiftRight, biasShiftRight, storeShiftRight, elwise1ShiftLeft, elwise0ShiftLeft,
    elwise1ShiftRight, elwise0ShiftRight, poolStride, activation, alpha, pad, input, output, axis,
    dynamicShape, blockSize, lastReaderOfInput, firstWriterOfOutput, poolSizeW, poolSizeH,
    poolSizeCh, poolStrideW, poolStrideH, poolStrideCh, poolAvgShiftRight, deformStaticOffsets,
    deformMaxOffsetX, deformMaxOffsetY, parallelOut, parallelIn, subpixelPad, inputPixelsW,
    inputPixelsH) =>
    { inChannels, outChannels, number, kind, stride, kernelLength, convGroups, dilationW,
      dilationH, segOutW, segOutH, segInW, segInH, resultShiftRight, relu6ShiftLeft,
      alphaShiftRight, biasShiftRight, storeShiftRight, elwise1ShiftLeft, elwise0ShiftLeft,
      elwise1ShiftRight, elwise0ShiftRight, poolStride, activation, alpha, pad, input, output,
      axis, dynamicShape, blockSize, lastReaderOfInput, firstWriterOfOutput, poolSizeW, poolSizeH,
      poolSizeCh, poolStrideW, poolStrideH, poolStrideCh, poolAvgShiftRight, deformStaticOffsets,
      deformMaxOffsetX, deformMaxOffsetY, parallelOut, parallelIn, subpixelPad, inputPixelsW,
      inputPixelsH }

@[simp] theorem LayerParams.ofFields_toFields (p : LayerParams) : ofFields p.toFields = p := rfl

/-- Elements that one compute command of the layer produces. -/
def LayerParams.vectorLength (p : LayerParams) : Checked Nat := do
  let plane ← Checked.mul 32 p.segOutW.toNat p.segOutH.toNat
  Checked.mul 32 plane p.parallelOut.toNat

structure Layer where
  params : LayerParams
  segments : List Segment := []
  deriving DecidableEq, Repr

structure Net where
  layers : List Layer
  execList : List UInt32
  deriving DecidableEq, Repr

end CommandStream
