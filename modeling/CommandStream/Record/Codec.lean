import CommandStream.Record.Layout
import CommandStream.Segment.Basic

/-! # Command records

A stream is stored as records of 32 bytes whose last byte tells the kind. A loop takes two records:
a header, marked by a direction code of its own, and its base transfer.
-/

namespace CommandStream.Record

open Layout

def size : Nat := 32

/-- What a record holds. The records of a loop are of the kind of transfers. -/
inductive Kind where
  | dma
  | compute
  | dmaWait
  | laneWait
  | block
  | fullSync
  | scatter
  | padding
  deriving DecidableEq, Repr

namespace Kind

def all : List Kind :=
  [.dma, .compute, .dmaWait, .laneWait, .block, .fullSync, .scatter, .padding]

def code : Kind → UInt8
  | .dma => 0
  | .compute => 1
  | .dmaWait => 2
  | .laneWait => 3
  | .block => 4
  | .fullSync => 5
  | .scatter => 6
  | .padding => 7

def ofCode? (code : UInt8) : Option Kind := all[code.toNat]?

theorem ofCode?_code (k : Kind) : ofCode? k.code = some k := by
  cases k <;> rfl

end Kind

def loopCode : UInt8 := 4

/-- A value, or the fault that names its code. -/
def known {α : Type} (unknown : UInt8 → Fault) (ofCode? : UInt8 → Option α) (code : UInt8) :
    Except Fault α :=
  match ofCode? code with
  | some a => .ok a
  | none => .error (unknown code)

def direction : Layout Direction :=
  u8.coded Direction.code (known .unknownDirection Direction.ofCode?)
    (fun d => by simp [known, Direction.ofCode?_code])

def opcode : Layout Opcode :=
  u8.coded Opcode.code (known .unknownOpcode Opcode.ofCode?)
    (fun op => by simp [known, Opcode.ofCode?_code])

def edgeSet : Layout EdgeSet := u8.map EdgeSet.mk EdgeSet.bits EdgeSet.mk_bits

def transfer : Layout Transfer :=
  ((direction.pair <| flag.pair <| flag.pair <| edgeSet.pair <| u32.pair <| u32.pair <|
      u64.pair <| u32.pair <| u16.pair <| u16.pair <| u16.pair u8).map
    Transfer.ofFields Transfer.toFields Transfer.ofFields_toFields).before [Kind.dma.code]

abbrev LoopHeader := UInt8 × Int8 × UInt8 × Int8 × UInt8 × Int16 × Int32 × UInt16

def LoopHeader.ofLoop (l : TransferLoop) : LoopHeader :=
  (l.clusterLen, l.clusterShift, l.unitLen, l.unitShift, l.innerLen, l.localStep, l.hostStep,
    l.count)

def LoopHeader.withBase : LoopHeader → Transfer → TransferLoop
  | (clusterLen, clusterShift, unitLen, unitShift, innerLen, localStep, hostStep, count), base =>
    { clusterLen, clusterShift, unitLen, unitShift, innerLen, localStep, hostStep, count, base }

def loopHeader : Layout LoopHeader :=
  ((u8.pair <| i8.pair <| u8.pair <| i8.pair <| u8.pair <| (i16.behind (zeros 2)).pair <|
      (i32.behind (zeros 2)).pair u16).behind [loopCode]).before (zeros 13 ++ [Kind.dma.code])

def compute : Layout Compute :=
  ((opcode.pair <| u8.pair <| u16.pair <| u16.pair <| u16.pair <| u16.pair <| u16.pair <|
      i16.pair <| u16.pair <| u16.pair <| u16.pair <| u16.pair <| u16.pair <| u16.pair <|
      i16.pair (u8.behind (zeros 2))).map
    Compute.ofFields Compute.toFields Compute.ofFields_toFields).before [Kind.compute.code]

def padWidths : Layout PadWidths :=
  (i32.pair <| i32.pair <| i32.pair <| i32.pair i32).map
    PadWidths.ofFields PadWidths.toFields PadWidths.ofFields_toFields

def padding : Layout PadWidths := padWidths.before (zeros 11 ++ [Kind.padding.code])

def scatter : Layout Scatter :=
  ((i16.pair <| i16.pair <| i16.pair <| (u32.behind (zeros 2)).pair <| u32.pair <| u32.pair <|
      u16.pair flag16).map
    Scatter.ofFields Scatter.toFields Scatter.ofFields_toFields).before (zeros 7 ++ [Kind.scatter.code])

def block : Layout UInt32 := (u32.behind (zeros 8)).before (zeros 19 ++ [Kind.block.code])

def marker (kind : Kind) : List UInt8 := zeros 31 ++ [kind.code]

def syncKind : SyncKind → Kind
  | .dma => .dmaWait
  | .lanes => .laneWait
  | .both => .fullSync

/-- The records of a segment. A loop whose local step is too large has none. -/
def encodeSegment : Segment → Except Fault (List UInt8)
  | .transfer t => .ok (transfer.write t)
  | .loop l =>
    if TransferLoop.localStepFits l.localStep.toInt then
      .ok (loopHeader.write (.ofLoop l) ++ transfer.write l.base)
    else .error (.fieldOverflow .localStep l.localStep.toInt)
  | .compute c => .ok (compute.write c)
  | .block count => .ok (block.write count)
  | .sync kind => .ok (marker (syncKind kind))
  | .padding p => .ok (padding.write p)
  | .scatter s => .ok (scatter.write s)

def encode (segments : List Segment) : Except Fault (List UInt8) := do
  return (← segments.mapM encodeSegment).flatten

def kindByte (record : List UInt8) : UInt8 := record.getD 31 0

def isLoopHeader (record : List UInt8) : Bool :=
  kindByte record == Kind.dma.code && record.getD 0 0 == loopCode

def isTransfer (record : List UInt8) : Bool :=
  kindByte record == Kind.dma.code && record.getD 0 0 != loopCode

def decodeRecord (index : Nat) (record : List UInt8) : Except Fault Segment :=
  match Kind.ofCode? (kindByte record) with
  | some .dma => .transfer <$> transfer.read record
  | some .compute => .compute <$> compute.read record
  | some .dmaWait => .ok (.sync .dma)
  | some .laneWait => .ok (.sync .lanes)
  | some .fullSync => .ok (.sync .both)
  | some .block => .block <$> block.read record
  | some .scatter => .scatter <$> scatter.read record
  | some .padding => .padding <$> padding.read record
  | none => .error (.unknownSegmentKind index (kindByte record))

/-- Read records, the first of which stands at `index`. -/
def decodeFrom : Nat → List (List UInt8) → Except Fault (List Segment)
  | _, [] => .ok []
  | index, record :: rest =>
    if isLoopHeader record then
      match rest with
      | [] => .error (.loopWithoutBase index)
      | base :: rest =>
        if isTransfer base then do
          let header ← loopHeader.read record
          let base ← transfer.read base
          return .loop (header.withBase base) :: (← decodeFrom (index + 2) rest)
        else .error (.loopWithoutBase index)
    else do
      let segment ← decodeRecord index record
      return segment :: (← decodeFrom (index + 1) rest)

def cut : Nat → List UInt8 → List (List UInt8)
  | 0, _ => []
  | n + 1, bytes => bytes.take size :: cut n (bytes.drop size)

def decode (bytes : List UInt8) : Except Fault (List Segment) :=
  let records := bytes.length / size
  if bytes.length % size = 0 then decodeFrom 0 (cut records bytes)
  else .error (.truncated (records * size) size (bytes.length - records * size))

end CommandStream.Record
