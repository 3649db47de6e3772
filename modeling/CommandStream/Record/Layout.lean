import CommandStream.Fault

/-! # Byte layouts

A layout writes a value as a fixed number of bytes and reads it back from the front of a longer
list. Layouts of words are put together into layouts of records and headers, and every layout
carries the proof that reading undoes writing.
-/

namespace CommandStream

/-- The number whose base-256 digits are the bytes, lowest first. -/
def littleEndian : List UInt8 → Nat
  | [] => 0
  | b :: bs => b.toNat + 256 * littleEndian bs

def toLittleEndian : Nat → Nat → List UInt8
  | 0, _ => []
  | width + 1, n => UInt8.ofNat n :: toLittleEndian width (n / 256)

@[simp] theorem length_toLittleEndian (width n : Nat) :
    (toLittleEndian width n).length = width := by
  induction width generalizing n with
  | zero => rfl
  | succ width ih => simp [toLittleEndian, ih]

theorem littleEndian_toLittleEndian (width n : Nat) :
    littleEndian (toLittleEndian width n) = n % Nat.pow 256 width := by
  induction width generalizing n with
  | zero => exact (Nat.mod_one n).symm
  | succ width ih =>
    simp only [toLittleEndian, littleEndian, ih, UInt8.toNat_ofNat']
    rw [show Nat.pow 256 (width + 1) = 256 * Nat.pow 256 width from Nat.mul_comm _ _, Nat.mod_mul]

structure Layout (α : Type) where
  width : Nat
  write : α → List UInt8
  read : List UInt8 → Except Fault α
  length_write : ∀ a, (write a).length = width
  read_write : ∀ a rest, read (write a ++ rest) = .ok a

namespace Layout

variable {α β : Type}

def map (l : Layout α) (f : α → β) (g : β → α) (h : ∀ b, f (g b) = b) : Layout β where
  width := l.width
  write b := l.write (g b)
  read bytes := (l.read bytes).map f
  length_write b := l.length_write (g b)
  read_write b rest := by simp [l.read_write, Except.map, h]

/-- A value stored as a code; reading refuses codes without a value. -/
def coded (l : Layout α) (code : β → α) (value : α → Except Fault β)
    (h : ∀ b, value (code b) = .ok b) : Layout β where
  width := l.width
  write b := l.write (code b)
  read bytes := l.read bytes >>= value
  length_write b := l.length_write (code b)
  read_write b rest := by simp [l.read_write, bind, Except.bind, h]

def pair (l : Layout α) (r : Layout β) : Layout (α × β) where
  width := l.width + r.width
  write p := l.write p.1 ++ r.write p.2
  read bytes := do
    let a ← l.read bytes
    let b ← r.read (bytes.drop l.width)
    return (a, b)
  length_write p := by simp [l.length_write, r.length_write]
  read_write p rest := by
    have h : (l.write p.1 ++ (r.write p.2 ++ rest)).drop l.width = r.write p.2 ++ rest := by
      rw [← l.length_write p.1, List.drop_left]
    simp [List.append_assoc, l.read_write, h, r.read_write, bind, Except.bind, pure, Except.pure]

/-- Constant bytes in front, not looked at when reading. -/
def behind (l : Layout α) (front : List UInt8) : Layout α where
  width := front.length + l.width
  write a := front ++ l.write a
  read bytes := l.read (bytes.drop front.length)
  length_write a := by simp [l.length_write]
  read_write a rest := by simp [List.append_assoc, l.read_write]

def before (l : Layout α) (back : List UInt8) : Layout α where
  width := l.width + back.length
  write a := l.write a ++ back
  read bytes := l.read bytes
  length_write a := by simp [l.length_write]
  read_write a rest := by simp [List.append_assoc, l.read_write]

/-- A number below `256 ^ width` under the given bijection. -/
def word (width : Nat) (toNat : α → Nat) (ofNat : Nat → α)
    (lt : ∀ a, toNat a < Nat.pow 256 width) (h : ∀ {a}, ofNat (toNat a) = a) : Layout α where
  width := width
  write a := toLittleEndian width (toNat a)
  read bytes := .ok (ofNat (littleEndian (bytes.take width)))
  length_write a := length_toLittleEndian width _
  read_write a rest := by
    rw [List.take_left' (length_toLittleEndian width _), littleEndian_toLittleEndian,
      Nat.mod_eq_of_lt (lt a), h]

def u8 : Layout UInt8 := word 1 UInt8.toNat UInt8.ofNat UInt8.toNat_lt @UInt8.ofNat_toNat

def u16 : Layout UInt16 := word 2 UInt16.toNat UInt16.ofNat UInt16.toNat_lt @UInt16.ofNat_toNat

def u32 : Layout UInt32 := word 4 UInt32.toNat UInt32.ofNat UInt32.toNat_lt @UInt32.ofNat_toNat

def u64 : Layout UInt64 := word 8 UInt64.toNat UInt64.ofNat UInt64.toNat_lt @UInt64.ofNat_toNat

def i8 : Layout Int8 := u8.map UInt8.toInt8 Int8.toUInt8 (fun _ => rfl)

def i16 : Layout Int16 := u16.map UInt16.toInt16 Int16.toUInt16 (fun _ => rfl)

def i32 : Layout Int32 := u32.map UInt32.toInt32 Int32.toUInt32 (fun _ => rfl)

/-- A flag in one byte; any nonzero byte reads as set. -/
def flag : Layout Bool := u8.map (· != 0) Bool.toUInt8 (by decide)

def flag16 : Layout Bool := u16.map (· != 0) Bool.toUInt16 (by decide)

end Layout

def zeros (n : Nat) : List UInt8 := List.replicate n 0

end CommandStream
