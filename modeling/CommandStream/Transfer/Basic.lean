import CommandStream.Word.Checked
import CommandStream.Word.Mask

/-! # Transfers

A transfer moves a row or a rectangle of 16-bit words between host memory and the local memory
of the selected units. Host addresses count bytes and local addresses count words.
-/

namespace CommandStream

inductive Direction where
  | load1d
  | load2d
  | store1d
  | store2d
  deriving DecidableEq, Repr

namespace Direction

def all : List Direction := [.load1d, .load2d, .store1d, .store2d]

def code : Direction → UInt8
  | .load1d => 0
  | .load2d => 1
  | .store1d => 2
  | .store2d => 3

def ofCode? (code : UInt8) : Option Direction := all[code.toNat]?

theorem ofCode?_code (d : Direction) : ofCode? d.code = some d := by
  cases d <;> rfl

def isStore : Direction → Bool
  | .store1d | .store2d => true
  | .load1d | .load2d => false

def isRect : Direction → Bool
  | .load2d | .store2d => true
  | .load1d | .store1d => false

def toRow (d : Direction) : Direction := if d.isStore then .store1d else .load1d

def toRect (d : Direction) : Direction := if d.isStore then .store2d else .load2d

def mnemonic : Direction → String
  | .load1d => "e2l1D"
  | .load2d => "e2l2D"
  | .store1d => "l2e1D"
  | .store2d => "l2e2D"

def key : Direction → String
  | .load1d => "load1d"
  | .load2d => "load2d"
  | .store1d => "store1d"
  | .store2d => "store2d"

end Direction

inductive Edge where
  | top
  | right
  | bottom
  | left
  deriving DecidableEq, Repr

def Edge.bit : Edge → UInt8
  | .top => 1
  | .right => 2
  | .bottom => 4
  | .left => 8

/-- The edges a transfer pads; the widths are configured for the whole layer. -/
structure EdgeSet where
  bits : UInt8 := 0
  deriving DecidableEq, Repr

namespace EdgeSet

theorem mk_bits (s : EdgeSet) : mk s.bits = s := rfl

def isEmpty (s : EdgeSet) : Bool := s.bits == 0

def has (s : EdgeSet) (e : Edge) : Bool := s.bits &&& e.bit != 0

end EdgeSet

/-- One descriptor for the transfer engines. `leap` is the host distance, in words, from the last
word of a row to the first of the next, and `skipped` counts trailing words that were fetched only
to reach a minimum vector length. -/
structure Transfer where
  direction : Direction
  biasOffset : Bool := false
  kernelOffset : Bool := false
  padding : EdgeSet := {}
  cluster : Mask
  unit : Mask
  hostAddr : UInt64
  localAddr : UInt32
  leap : UInt16 := 1
  width : UInt16
  height : UInt16 := 1
  skipped : UInt8 := 0
  deriving DecidableEq, Repr

abbrev Transfer.Fields :=
  Direction × Bool × Bool × EdgeSet × Mask × Mask × UInt64 × UInt32 × UInt16 × UInt16 × UInt16 ×
  UInt8

def Transfer.toFields (x : Transfer) : Transfer.Fields :=
  (x.direction, x.biasOffset, x.kernelOffset, x.padding, x.cluster, x.unit, x.hostAddr,
    x.localAddr, x.leap, x.width, x.height, x.skipped)

def Transfer.ofFields : Transfer.Fields → Transfer
  | (direction, biasOffset, kernelOffset, padding, cluster, unit, hostAddr, localAddr, leap,
    width, height, skipped) =>
    { direction, biasOffset, kernelOffset, padding, cluster, unit, hostAddr, localAddr, leap,
      width, height, skipped }

@[simp] theorem Transfer.ofFields_toFields (x : Transfer) : ofFields x.toFields = x := rfl

namespace Transfer

def row (d : Direction) (cluster unit : Mask) (hostAddr : UInt64) (localAddr : UInt32)
    (width : UInt16) : Transfer :=
  { direction := d.toRow, cluster, unit, hostAddr, localAddr, width }

def rect (d : Direction) (cluster unit : Mask) (hostAddr : UInt64) (localAddr : UInt32)
    (width height leap : UInt16) : Transfer :=
  { direction := d.toRect, cluster, unit, hostAddr, localAddr, width, height, leap }

def isStore (t : Transfer) : Bool := t.direction.isStore

def isRect (t : Transfer) : Bool := t.direction.isRect

def area (t : Transfer) : Nat := t.width.toNat * t.height.toNat

/-- Words moved over all selected engines, without the skipped tail. -/
def elements (t : Transfer) : Nat :=
  (t.area - t.skipped.toNat) * t.cluster.count * t.unit.count

/-- Bytes of host memory covered, with the gaps between rows and the one after the last. A row of
no words with no leap has no pitch. -/
def hostSpan (t : Transfer) : Checked Nat :=
  if t.isRect then do
    let pitch ← Checked.sub (t.width.toNat + t.leap.toNat) 1
    return pitch * t.height.toNat * 2
  else
    return t.width.toNat * 2

def localSpan (t : Transfer) : Nat :=
  if t.isRect then t.area else t.width.toNat

def sameLocal (a b : Transfer) : Bool :=
  a.direction == b.direction && a.cluster == b.cluster && a.unit == b.unit &&
    a.localAddr == b.localAddr && a.leap == b.leap && a.width == b.width &&
    a.height == b.height && a.padding == b.padding

/-- Equal up to addresses, targets and the skipped tail. -/
def sameShape (a b : Transfer) : Bool :=
  a.direction == b.direction && a.biasOffset == b.biasOffset &&
    a.kernelOffset == b.kernelOffset && a.width == b.width && a.leap == b.leap &&
    a.height == b.height && a.padding == b.padding

end Transfer

end CommandStream
