import CommandStream.Layer

/-! # Primitives

What the scheduler asks of the accelerator, one register-level operation at a time.
-/

namespace CommandStream

inductive MacReset where
  | xIncrement
  | zIncrement
  | once
  | never
  deriving DecidableEq, Repr

inductive MacInit where
  | register
  | zero
  deriving DecidableEq, Repr

inductive LaneSetting where
  | macShift (amount : Int16)
  | mulShift (amount : Int16)
  | macReset (mode : MacReset)
  | macInit (source : MacInit)
  /-- The constant 6, shifted left, kept in a register for clipping. -/
  | relu6Constant (shiftLeft : Int16) (register : Int)
  | globalAvgPoolConstants
  | convTransposeTable (stride : UInt16)
  | masks (cluster unit : UInt16)
  deriving DecidableEq, Repr

inductive Kernel where
  | biasLoad (lane : UInt8) (buffer : UInt16)
  | kernelLoad (lane : UInt8) (buffer : UInt16)
  | conv2d
  | conv2dAdd
  | conv1d
  | conv1dAdd
  | convTranspose
  | convTransposeAdd
  | deformConv
  | deformConvAdd
  | deformBlock (input offsets output staticOffsets : UInt16)
  | elementwise
  | concatenate
  | depthToSpace
  | avgPoolLoadKernel
  | avgPool
  | avgPoolStore
  | maxPool2d
  | maxPool2x2
  | activation (a : Activation)
  | poolScatter
  | resetIndices
  | globalAvgPoolAdd
  | globalAvgPoolStore
  | globalAvgPoolSum
  | globalAvgPoolDivide
  | shiftStore
  | shiftStoreUpsample
  deriving DecidableEq, Repr

/-- A kernel with the command that gives its parameters. `compensate` is the number of cycles that
short vectors wait before their first result is read. -/
structure KernelCall where
  kernel : Kernel
  cmd : Compute
  compensate : Nat
  deriving DecidableEq, Repr

inductive Primitive where
  | setPad (widths : PadWidths)
  | dmaBlock (records : List Segment)
  | dmaIssue (s : Segment)
  | wait (kind : SyncKind)
  | configure (setting : LaneSetting)
  | nops (count : Nat)
  | kernel (call : KernelCall)
  | dynamicShape (layer : UInt16)
  | scatter (layer : UInt16) (commands : List Scatter) (viaDma : Bool)
  | preLayer (entry : Nat) (layer : UInt16)
  | postLayer (entry : Nat) (layer : UInt16)
  deriving DecidableEq, Repr

end CommandStream
