import CommandStream.Transfer.Basic

/-! # Transfer loops

A loop stands for up to `count` transfers derived from a base transfer. The engine nests three
counters: clusters outside, units inside them, and a local address progression inside those.
-/

namespace CommandStream

/-- The lengths are numbers of further iterations. -/
structure TransferLoop where
  clusterLen : UInt8
  clusterShift : Int8
  unitLen : UInt8
  unitShift : Int8
  innerLen : UInt8
  localStep : Int16
  hostStep : Int32
  count : UInt16
  base : Transfer
  deriving DecidableEq, Repr

abbrev TransferLoop.Fields :=
  UInt8 × Int8 × UInt8 × Int8 × UInt8 × Int16 × Int32 × UInt16 × Transfer

def TransferLoop.toFields (x : TransferLoop) : TransferLoop.Fields :=
  (x.clusterLen, x.clusterShift, x.unitLen, x.unitShift, x.innerLen, x.localStep, x.hostStep,
    x.count, x.base)

def TransferLoop.ofFields : TransferLoop.Fields → TransferLoop
  | (clusterLen, clusterShift, unitLen, unitShift, innerLen, localStep, hostStep, count, base) =>
    { clusterLen, clusterShift, unitLen, unitShift, innerLen, localStep, hostStep, count, base }

@[simp] theorem TransferLoop.ofFields_toFields (x : TransferLoop) : ofFields x.toFields = x := rfl

namespace TransferLoop

/-- Where the engine stands: the next transfer and the iterations left at each level. -/
structure Cursor where
  current : Transfer
  clusters : Nat
  units : Nat
  inner : Nat
  deriving DecidableEq, Repr

def start (l : TransferLoop) : Cursor where
  current := l.base
  clusters := l.clusterLen.toNat
  units := l.unitLen.toNat
  inner := l.innerLen.toNat

/-- Advance the innermost counter that is not used up; the counters inside it start again. The host
address moves with every step. -/
def next? (l : TransferLoop) (c : Cursor) : Option Cursor :=
  let t := c.current
  let host := t.hostAddr + l.hostStep.toInt64.toUInt64
  match c.inner, c.units, c.clusters with
  | inner + 1, _, _ =>
    some { c with
      inner
      current := { t with
        hostAddr := host
        localAddr := t.localAddr + l.localStep.toInt32.toUInt32 } }
  | 0, units + 1, _ =>
    some { c with
      units
      inner := l.innerLen.toNat
      current := { t with
        hostAddr := host, localAddr := l.base.localAddr, unit := t.unit.shift l.unitShift } }
  | 0, 0, clusters + 1 =>
    some {
      clusters
      units := l.unitLen.toNat
      inner := l.innerLen.toNat
      current := { t with
        hostAddr := host, localAddr := l.base.localAddr, unit := l.base.unit,
        cluster := t.cluster.shift l.clusterShift } }
  | 0, 0, 0 => none

/-- The transfers of at most `n` steps from a cursor on, put in reverse in front of `done`. -/
def walk (l : TransferLoop) : Nat → Cursor → List Transfer → List Transfer
  | 0, _, done => done
  | n + 1, c, done =>
    match l.next? c with
    | some c' => l.walk n c' (c.current :: done)
    | none => c.current :: done

def expand (l : TransferLoop) : List Transfer :=
  (l.walk l.count.toNat l.start []).reverse

def elements (l : TransferLoop) : Checked Nat :=
  Checked.sum 64 (l.expand.map Transfer.elements)

def localStepMin : Int := -4096

def localStepMax : Int := 4095

def localStepFits (step : Int) : Bool := localStepMin ≤ step && step ≤ localStepMax

end TransferLoop

end CommandStream
