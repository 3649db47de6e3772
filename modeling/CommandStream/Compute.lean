import CommandStream.Word.Mask

/-! # Compute commands

A compute command starts one operation on the lanes. Several fields serve different purposes for
different operations, so they are also reachable under the name the operation uses.
-/

namespace CommandStream

/-- Operation of a compute command. -/
inductive Opcode where
  | convStart
  | convAdd
  | maxPool2x2Fused
  | activationFused
  | shiftStore
  | add
  | convTransposeStart
  | convTransposeAdd
  | conv1dStart
  | conv1dAdd
  | concatenate
  | depthToSpace
  | deform8x8
  | deformConvStart
  | deformConvAdd
  | reluPoolScatter
  | maxPooling
  | avgPool2d
  | mul
  | globalAvgPoolStart
  | globalAvgPoolAdd
  | globalAvgPoolStore
  | globalAvgPoolSum
  | globalAvgPoolDivide
  | setMasks
  | resetIndices
  | shiftStoreUpsample
  deriving DecidableEq, Repr

namespace Opcode

def all : List Opcode :=
  [.convStart, .convAdd, .maxPool2x2Fused, .activationFused, .shiftStore, .add,
    .convTransposeStart, .convTransposeAdd, .conv1dStart, .conv1dAdd, .concatenate,
    .depthToSpace, .deform8x8, .deformConvStart, .deformConvAdd, .reluPoolScatter, .maxPooling,
    .avgPool2d, .mul, .globalAvgPoolStart, .globalAvgPoolAdd, .globalAvgPoolStore,
    .globalAvgPoolSum, .globalAvgPoolDivide, .setMasks, .resetIndices, .shiftStoreUpsample]

def code : Opcode → UInt8
  | .convStart => 0
  | .convAdd => 1
  | .maxPool2x2Fused => 2
  | .activationFused => 3
  | .shiftStore => 4
  | .add => 5
  | .convTransposeStart => 6
  | .convTransposeAdd => 7
  | .conv1dStart => 8
  | .conv1dAdd => 9
  | .concatenate => 10
  | .depthToSpace => 11
  | .deform8x8 => 12
  | .deformConvStart => 13
  | .deformConvAdd => 14
  | .reluPoolScatter => 15
  | .maxPooling => 16
  | .avgPool2d => 17
  | .mul => 18
  | .globalAvgPoolStart => 19
  | .globalAvgPoolAdd => 20
  | .globalAvgPoolStore => 21
  | .globalAvgPoolSum => 22
  | .globalAvgPoolDivide => 23
  | .setMasks => 24
  | .resetIndices => 25
  | .shiftStoreUpsample => 26

def ofCode? (code : UInt8) : Option Opcode := all[code.toNat]?

theorem ofCode?_code (o : Opcode) : ofCode? o.code = some o := by
  cases o <;> rfl

def key : Opcode → String
  | .convStart => "conv_start"
  | .convAdd => "conv_add"
  | .maxPool2x2Fused => "maxpool2x2_fused"
  | .activationFused => "activation_fused"
  | .shiftStore => "shift_store"
  | .add => "add"
  | .convTransposeStart => "conv_transpose_start"
  | .convTransposeAdd => "conv_transpose_add"
  | .conv1dStart => "conv1d_start"
  | .conv1dAdd => "conv1d_add"
  | .concatenate => "concatenate"
  | .depthToSpace => "depth_to_space"
  | .deform8x8 => "dconv_deform8x8"
  | .deformConvStart => "dconv_conv_start"
  | .deformConvAdd => "dconv_conv_add"
  | .reluPoolScatter => "relu_pool_scatter"
  | .maxPooling => "max_pooling"
  | .avgPool2d => "avgpool2d"
  | .mul => "mul"
  | .globalAvgPoolStart => "global_avgpool2d_start"
  | .globalAvgPoolAdd => "global_avgpool2d_add"
  | .globalAvgPoolStore => "global_avgpool2d_store_intermediates"
  | .globalAvgPoolSum => "global_avgpool2d_sum_intermediates"
  | .globalAvgPoolDivide => "global_avgpool2d_divide"
  | .setMasks => "set_masks"
  | .resetIndices => "reset_indices"
  | .shiftStoreUpsample => "shift_store_upsample"

def name : Opcode → String
  | .convStart => "ConvStart"
  | .convAdd => "ConvAdd"
  | .maxPool2x2Fused => "Maxpool2x2Fused"
  | .activationFused => "ActivationFused"
  | .shiftStore => "ShiftStore"
  | .add => "Add"
  | .convTransposeStart => "ConvTransposeStart"
  | .convTransposeAdd => "ConvTransposeAdd"
  | .conv1dStart => "Conv1dStart"
  | .conv1dAdd => "Conv1dAdd"
  | .concatenate => "Concatenate"
  | .depthToSpace => "DepthToSpace"
  | .deform8x8 => "DconvDeform8x8"
  | .deformConvStart => "DconvConvStart"
  | .deformConvAdd => "DconvConvAdd"
  | .reluPoolScatter => "ReluPoolScatter"
  | .maxPooling => "MaxPooling"
  | .avgPool2d => "Avgpool2d"
  | .mul => "Mul"
  | .globalAvgPoolStart => "GlobalAvgpool2dStart"
  | .globalAvgPoolAdd => "GlobalAvgpool2dAdd"
  | .globalAvgPoolStore => "GlobalAvgpool2dStoreIntermediates"
  | .globalAvgPoolSum => "GlobalAvgpool2dSumIntermediates"
  | .globalAvgPoolDivide => "GlobalAvgpool2dDivide"
  | .setMasks => "SetMasks"
  | .resetIndices => "ResetIndices"
  | .shiftStoreUpsample => "ShiftStoreUpsample"

end Opcode

structure Compute where
  op : Opcode := .convStart
  lane : UInt8 := 0
  buffer : UInt16 := 0
  xEnd : UInt16 := 0
  yEnd : UInt16 := 0
  zEnd : UInt16 := 0
  offset : UInt16 := 0
  shiftRight : Int16 := 0
  kernel0 : UInt16 := 0
  kernel1 : UInt16 := 0
  bias0 : UInt16 := 0
  bias1 : UInt16 := 0
  deformOffset : UInt16 := 0
  deformOutput : UInt16 := 0
  laneStride : Int16 := 1024
  nops : UInt8 := 0
  deriving DecidableEq, Repr

abbrev Compute.Fields :=
  Opcode × UInt8 × UInt16 × UInt16 × UInt16 × UInt16 × UInt16 × Int16 × UInt16 × UInt16 × UInt16 ×
  UInt16 × UInt16 × UInt16 × Int16 × UInt8

def Compute.toFields (x : Compute) : Compute.Fields :=
  (x.op, x.lane, x.buffer, x.xEnd, x.yEnd, x.zEnd, x.offset, x.shiftRight, x.kernel0, x.kernel1,
    x.bias0, x.bias1, x.deformOffset, x.deformOutput, x.laneStride, x.nops)

def Compute.ofFields : Compute.Fields → Compute
  | (op, lane, buffer, xEnd, yEnd, zEnd, offset, shiftRight, kernel0, kernel1, bias0, bias1,
    deformOffset, deformOutput, laneStride, nops) =>
    { op, lane, buffer, xEnd, yEnd, zEnd, offset, shiftRight, kernel0, kernel1, bias0, bias1,
      deformOffset, deformOutput, laneStride, nops }

@[simp] theorem Compute.ofFields_toFields (x : Compute) : ofFields x.toFields = x := rfl

namespace Compute

def localBase (c : Compute) : UInt16 := c.buffer

def registerBase (c : Compute) : UInt16 := c.offset

def broadcastMap (c : Compute) : UInt16 := c.kernel0

def summands (c : Compute) : UInt16 := c.kernel0

def multiplier (c : Compute) : Int16 := c.kernel0.toInt16

def registerChannelStride (c : Compute) : UInt16 := c.kernel1

def preShiftRight (c : Compute) : Int16 := c.kernel1.toInt16

def localChannelStride (c : Compute) : UInt16 := c.bias0

def clusterMask (c : Compute) : UInt16 := c.bias0

def fractionBits (c : Compute) : Int16 := c.bias1.toInt16

def unitMask (c : Compute) : UInt16 := c.bias1

def inputChannelOffset (c : Compute) : UInt16 := c.deformOffset

def pillarIndexBuffer (c : Compute) : UInt16 := c.deformOffset

end Compute

end CommandStream
