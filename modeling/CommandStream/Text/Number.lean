/-! # Number text

Numbers appear in listings, messages and tables in a few fixed forms.
-/

namespace CommandStream.Text

def padLeft (width : Nat) (fill : Char) (s : String) : String :=
  String.ofList (List.replicate (width - s.length) fill) ++ s

def padRight (width : Nat) (s : String) : String :=
  s ++ String.ofList (List.replicate (width - s.length) ' ')

def binary (n : Nat) : String := String.ofList (Nat.toDigits 2 n)

def hex (n : Nat) : String := String.ofList (Nat.toDigits 16 n)

def hexPadded (digits n : Nat) : String := padLeft digits '0' (hex n)

def decimal (n : Int) : String :=
  if n < 0 then "-" ++ toString n.natAbs else toString n.natAbs

/-- With a sign also in front of numbers that are not negative. -/
def signed (n : Int) : String :=
  if n < 0 then decimal n else "+" ++ decimal n

def hexBytes (bytes : List UInt8) : String :=
  String.ofList (bytes.flatMap fun b =>
    [Nat.digitChar (b.toNat / 16), Nat.digitChar (b.toNat % 16)])

end CommandStream.Text
