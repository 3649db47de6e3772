import CommandStream.Segment.Basic
import CommandStream.Text.Number

/-! # Listings

The text of a stream, one numbered line for each segment.
-/

namespace CommandStream

open Text

def EdgeSet.listing (s : EdgeSet) : String :=
  String.join ([Edge.top, .right, .bottom, .left].map fun e => if s.has e then "1" else "0")

def Transfer.listing (t : Transfer) : String :=
  s!"{t.direction.mnemonic} cluster 0b{binary t.cluster.toNat} unit 0b{binary t.unit.toNat} " ++
    s!"mm 0x{hexPadded 8 t.hostAddr.toNat} lm 0x{hexPadded 4 t.localAddr.toNat} " ++
    s!"x {t.width} y {t.height} leap {t.leap}" ++
    (if t.padding.isEmpty then "" else " pad trbl " ++ t.padding.listing) ++
    (if t.skipped = 0 then "" else s!" skip {t.skipped}") ++
    (if t.biasOffset then " bias" else "") ++
    (if t.kernelOffset then " kernel" else "")

def TransferLoop.listing (l : TransferLoop) : String :=
  s!"loop x{l.count} cluster {l.clusterLen}/{signed l.clusterShift.toInt} " ++
    s!"unit {l.unitLen}/{signed l.unitShift.toInt} inter {l.innerLen} " ++
    s!"lm {signed l.localStep.toInt} mm {signed l.hostStep.toInt} | {l.base.listing}"

def Compute.listing (c : Compute) : String :=
  s!"compute {c.op.name} lane 0b{binary c.lane.toNat} buffer {c.buffer} " ++
    s!"end {c.xEnd}x{c.yEnd}x{c.zEnd} offset {c.offset} shr {decimal c.shiftRight.toInt}" ++
    (if c.nops = 0 then "" else s!" nops {c.nops}")

def PadWidths.listing (p : PadWidths) : String :=
  s!"padding top {decimal p.top.toInt} left {decimal p.left.toInt} " ++
    s!"bottom {decimal p.bottom.toInt} right {decimal p.right.toInt} value {decimal p.value.toInt}"

def Scatter.listing (s : Scatter) : String :=
  s!"scatter coords 0x{hex s.coordsAddr.toNat} features 0x{hex s.featuresAddr.toNat} " ++
    s!"grid 0x{hex s.gridAddr.toNat} size {s.copySize} shift {decimal s.indexShift.toInt} " ++
    (if s.viaDma then "via dma" else "via cpu")

def Segment.listing : Segment → String
  | .transfer t => t.listing
  | .loop l => l.listing
  | .compute c => c.listing
  | .block count => s!"block {count}"
  | .sync .dma => "wait dma"
  | .sync .lanes => "wait lanes"
  | .sync .both => "sync"
  | .padding p => p.listing
  | .scatter s => s.listing

def listing (segments : List Segment) : String :=
  String.join (segments.zipIdx.map fun (s, index) =>
    padRight 5 (toString index) ++ " " ++ s.listing ++ "\n")

end CommandStream
