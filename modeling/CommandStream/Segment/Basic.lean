import CommandStream.Compute
import CommandStream.Transfer.Loop

/-! # Segments

A command stream is a list of segments. Besides transfers and compute commands it holds markers
that batch, synchronise and configure.
-/

namespace CommandStream

/-- The side of the hardware a synchronisation waits for. -/
inductive SyncKind where
  | dma
  | lanes
  | both
  deriving DecidableEq, Repr

def SyncKind.key : SyncKind → String
  | .dma => "dma"
  | .lanes => "lanes"
  | .both => "both"

def SyncKind.all : List SyncKind := [.dma, .lanes, .both]

structure PadWidths where
  top : Int32 := 0
  left : Int32 := 0
  bottom : Int32 := 0
  right : Int32 := 0
  value : Int32 := 0
  deriving DecidableEq, Repr

abbrev PadWidths.Fields :=
  Int32 × Int32 × Int32 × Int32 × Int32

def PadWidths.toFields (x : PadWidths) : PadWidths.Fields :=
  (x.top, x.left, x.bottom, x.right, x.value)

def PadWidths.ofFields : PadWidths.Fields → PadWidths
  | (top, left, bottom, right, value) =>
    { top, left, bottom, right, value }

@[simp] theorem PadWidths.ofFields_toFields (x : PadWidths) : ofFields x.toFields = x := rfl

structure Scatter where
  indexShift : Int16 := 0
  xMin : Int16 := 0
  yMin : Int16 := 0
  coordsAddr : UInt32 := 0
  featuresAddr : UInt32 := 0
  gridAddr : UInt32 := 0
  copySize : UInt16 := 0
  viaDma : Bool := false
  deriving DecidableEq, Repr

abbrev Scatter.Fields :=
  Int16 × Int16 × Int16 × UInt32 × UInt32 × UInt32 × UInt16 × Bool

def Scatter.toFields (x : Scatter) : Scatter.Fields :=
  (x.indexShift, x.xMin, x.yMin, x.coordsAddr, x.featuresAddr, x.gridAddr, x.copySize, x.viaDma)

def Scatter.ofFields : Scatter.Fields → Scatter
  | (indexShift, xMin, yMin, coordsAddr, featuresAddr, gridAddr, copySize, viaDma) =>
    { indexShift, xMin, yMin, coordsAddr, featuresAddr, gridAddr, copySize, viaDma }

@[simp] theorem Scatter.ofFields_toFields (x : Scatter) : ofFields x.toFields = x := rfl

/-- One command of the stream. A block announces that the next `count` records are one batch. -/
inductive Segment where
  | transfer (t : Transfer)
  | loop (l : TransferLoop)
  | compute (c : Compute)
  | block (count : UInt32)
  | sync (kind : SyncKind)
  | padding (widths : PadWidths)
  | scatter (s : Scatter)
  deriving DecidableEq, Repr

namespace Segment

def records : Segment → Nat
  | .loop _ => 2
  | _ => 1

/-- Transfers and loops: what a block may hold. -/
def isDma : Segment → Bool
  | .transfer _ | .loop _ => true
  | _ => false

def isBlock : Segment → Bool
  | .block _ => true
  | _ => false

def isLoop : Segment → Bool
  | .loop _ => true
  | _ => false

def transfer? : Segment → Option Transfer
  | .transfer t => some t
  | _ => none

def isStore : Segment → Bool
  | .transfer t => t.isStore
  | .loop l => l.base.isStore
  | _ => false

def key : Segment → String
  | .transfer _ => "transfer"
  | .loop _ => "loop"
  | .compute _ => "compute"
  | .block _ => "block"
  | .sync _ => "sync"
  | .padding _ => "padding"
  | .scatter _ => "scatter"

def transfers : Segment → List Transfer
  | .transfer t => [t]
  | .loop l => l.expand
  | _ => []

def elements : Segment → Checked Nat
  | .transfer t => return t.elements
  | .loop l => l.elements
  | _ => return 0

/-- Segments after loops are replaced, each loop counted by its stated number of transfers. -/
def unrolledCount : Segment → Nat
  | .loop l => l.count.toNat
  | _ => 1

def unroll : Segment → List Segment
  | .loop l => l.expand.map .transfer
  | s => [s]

end Segment

def countElements (segments : List Segment) : Checked Nat :=
  segments.foldlM (fun total s => do Checked.add 64 total (← s.elements)) 0

def recordCount (segments : List Segment) : Nat :=
  total (segments.map Segment.records)

def unrolledCount (segments : List Segment) : Nat :=
  total (segments.map Segment.unrolledCount)

def unroll (segments : List Segment) : List Segment :=
  segments.flatMap Segment.unroll

end CommandStream
