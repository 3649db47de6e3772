/-! # Checked word arithmetic

Counters are natural numbers or integers that must stay within a machine word. An operation
whose result leaves the word reports which kind of operation it was; nothing wraps silently.
-/

namespace CommandStream

/-- The kind of operation whose result left its word. -/
inductive Overflow where
  | sum
  | difference
  | product
  deriving DecidableEq, Repr

abbrev Checked (α : Type) := Except Overflow α

namespace Checked

/-- The sum, if it fits an unsigned word of the given width. -/
def add (bits a b : Nat) : Checked Nat :=
  if a + b < Nat.pow 2 bits then .ok (a + b) else .error .sum

def sub (a b : Nat) : Checked Nat :=
  if b ≤ a then .ok (a - b) else .error .difference

def mul (bits a b : Nat) : Checked Nat :=
  if a * b < Nat.pow 2 bits then .ok (a * b) else .error .product

/-- The running sum of a list, every partial sum within the word. -/
def sum (bits : Nat) (xs : List Nat) : Checked Nat :=
  xs.foldlM (add bits) 0

def fitsSigned (n : Int) : Bool :=
  -0x80000000 ≤ n && n < 0x80000000

def subSigned (a b : Int) : Checked Int :=
  if fitsSigned (a - b) then .ok (a - b) else .error .difference

def mulSigned (a b : Int) : Checked Int :=
  if fitsSigned (a * b) then .ok (a * b) else .error .product

end Checked

def total (xs : List Nat) : Nat := xs.foldr (· + ·) 0

end CommandStream
