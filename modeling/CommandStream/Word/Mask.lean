/-! # Engine masks

A mask selects some of at most 32 clusters, or of at most 32 units, one bit each.
-/

namespace CommandStream

abbrev Mask := UInt32

namespace Mask

def setBits : Nat → Nat → Nat
  | 0, _ => 0
  | n + 1, m => m % 2 + setBits n (m / 2)

def count (m : Mask) : Nat := setBits 32 m.toNat

def lowestBit : Nat → Nat → Nat
  | 0, _ => 0
  | n + 1, m => if m % 2 = 1 then 0 else lowestBit n (m / 2) + 1

/-- Position of the lowest selected engine, 32 for the empty mask. -/
def lowest (m : Mask) : Nat := lowestBit 32 m.toNat

/-- Position of the highest selected engine, 0 for the empty mask. -/
def highest (m : Mask) : Nat := m.toNat.log2

/-- Move every bit up by the amount, or down for a negative one; bits moved out are lost. -/
def move (m : Mask) (amount : Int) : Mask :=
  if 0 ≤ amount then UInt32.ofNat (m.toNat <<< amount.toNat)
  else UInt32.ofNat (m.toNat >>> amount.natAbs)

def shift (m : Mask) (amount : Int8) : Mask := m.move amount.toInt

/-- The amount that moves `base` onto `other`, if `other` is a moved copy of `base`. -/
def shiftTo? (base other : Mask) : Option Int :=
  let amount : Int := (other.lowest : Int) - base.lowest
  if other.move (-amount) = base then some amount else none

def full (engines : Nat) : Mask := UInt32.ofNat (Nat.pow 2 (min engines 32) - 1)

def within (m allowed : Mask) : Bool := m &&& ~~~allowed == 0

end Mask

end CommandStream
