/-! # Blank characters

The characters with the Unicode property White_Space.
-/

namespace CommandStream.Text

def isBlank (c : Char) : Bool :=
  let n := c.toNat
  (0x09 ≤ n && n ≤ 0x0D) || n == 0x20 || n == 0x85 || n == 0xA0 || n == 0x1680 ||
    (0x2000 ≤ n && n ≤ 0x200A) || n == 0x2028 || n == 0x2029 || n == 0x202F || n == 0x205F ||
    n == 0x3000

def trimWhile (p : Char → Bool) (cs : List Char) : List Char :=
  ((cs.dropWhile p).reverse.dropWhile p).reverse

def trim (cs : List Char) : List Char := trimWhile isBlank cs

def byteLength (cs : List Char) : Nat := cs.foldr (fun c n => c.utf8Size + n) 0

/-- Lines with the line feeds that end them. -/
def lines (cs : List Char) : List (List Char) :=
  cs.foldr (fun c done =>
    if c = '\n' then [c] :: done
    else match done with
      | [] => [[c]]
      | line :: rest => (c :: line) :: rest) []

/-- The value of a nonempty list of digits, which may have a plus sign in front. -/
def natural? (cs : List Char) : Option Nat :=
  let digits := match cs with
    | '+' :: ds => ds
    | ds => ds
  if digits.isEmpty || !digits.all Char.isDigit then none
  else some (digits.foldl (fun n c => 10 * n + (c.toNat - '0'.toNat)) 0)

end CommandStream.Text
