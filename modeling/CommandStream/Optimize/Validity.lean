import CommandStream.Hardware
import CommandStream.Layer
import CommandStream.Segment.Block

/-! # Validity

A stream can run on given hardware when its masks name configured engines only and no transfer pads
more than it moves. The pad widths in effect change with every padding command.
-/

namespace CommandStream

/-- Width of a padded edge; an edge that is not padded, or a negative width, counts as nothing. -/
def Transfer.padded (t : Transfer) (e : Edge) (width : Int32) : Nat :=
  if t.padding.has e then width.toInt.toNat else 0

def Transfer.checkPadding (t : Transfer) (index : Nat) (pad : PadWidths) : Except Fault Unit :=
  let columns := t.padded .left pad.left + t.padded .right pad.right
  let rows := t.padded .top pad.top + t.padded .bottom pad.bottom
  if t.width.toNat < columns then
    .error (.paddingExceedsTransfer index (.columns columns t.width.toNat))
  else if t.height.toNat < rows then
    .error (.paddingExceedsTransfer index (.rows rows t.height.toNat))
  else .ok ()

def Transfer.checkMasks (t : Transfer) (index : Nat) (hw : Hardware) : Except Fault Unit :=
  if !t.cluster.within hw.clusterMask then
    .error (.maskOutOfRange index .cluster t.cluster hw.clusters)
  else if !t.unit.within hw.unitMask then
    .error (.maskOutOfRange index .unit t.unit hw.units)
  else .ok ()

def Transfer.check (t : Transfer) (index : Nat) (hw : Hardware) (pad : PadWidths) :
    Except Fault Unit := do
  t.checkMasks index hw
  if !t.padding.isEmpty then
    t.checkPadding index pad

/-- Check the part of a stream that starts at `index` under the given widths. A loop is checked by
its base transfer. -/
def checkTransfersFrom (hw : Hardware) : Nat → PadWidths → List Segment → Except Fault Unit
  | _, _, [] => .ok ()
  | index, _, .padding pad :: rest => checkTransfersFrom hw (index + 1) pad rest
  | index, pad, .transfer t :: rest => do
    t.check index hw pad
    checkTransfersFrom hw (index + 1) pad rest
  | index, pad, .loop l :: rest => do
    l.base.check index hw pad
    checkTransfersFrom hw (index + 1) pad rest
  | index, pad, _ :: rest => checkTransfersFrom hw (index + 1) pad rest

def checkTransfers (segments : List Segment) (hw : Hardware) (pad : PadWidths) :
    Except Fault Unit :=
  checkTransfersFrom hw 0 pad segments

def Layer.validate (layer : Layer) (hw : Hardware) : Except Fault Unit := do
  checkTransfers layer.segments hw layer.params.pad
  checkBlocks layer.segments

def Net.validate (net : Net) (hw : Hardware) : Except Fault Unit :=
  net.layers.forM (·.validate hw)

end CommandStream
