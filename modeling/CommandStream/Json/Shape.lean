import CommandStream.Json.Basic

/-! # JSON forms of data

A form writes the values of a type as plain JSON and reads them back; the proof that reading undoes
writing is part of it. A shape is the form of a record before its fields are put into an object.
-/

namespace CommandStream.Json

structure Form (α : Type) where
  write : α → Json
  read : Json → Option α
  read_write : ∀ a, read (write a) = some a
  plain : ∀ a, (write a).Plain

namespace Form

variable {α β : Type}

/-- An integer within bounds; fractions and exponents are refused. -/
def bounded (lo hi : Int) (toInt : α → Int) (ofInt : Int → α)
    (within : ∀ a, lo ≤ toInt a ∧ toInt a < hi) (h : ∀ a, ofInt (toInt a) = a) : Form α where
  write a := .int (toInt a)
  read
    | .int n => if lo ≤ n ∧ n < hi then some (ofInt n) else none
    | _ => none
  read_write a := by simp [within a, h]
  plain a := .int (toInt a)

def unsigned (bound : Nat) (toNat : α → Nat) (ofNat : Nat → α) (lt : ∀ a, toNat a < bound)
    (h : ∀ {a}, ofNat (toNat a) = a) : Form α :=
  bounded 0 bound (fun a => (toNat a : Int)) (fun n => ofNat n.toNat)
    (fun a => ⟨Int.natCast_nonneg _, Int.ofNat_lt.2 (lt a)⟩) (fun _ => h)

def u8 : Form UInt8 :=
  unsigned UInt8.size UInt8.toNat UInt8.ofNat UInt8.toNat_lt @UInt8.ofNat_toNat

def u16 : Form UInt16 :=
  unsigned UInt16.size UInt16.toNat UInt16.ofNat UInt16.toNat_lt @UInt16.ofNat_toNat

def u32 : Form UInt32 :=
  unsigned UInt32.size UInt32.toNat UInt32.ofNat UInt32.toNat_lt @UInt32.ofNat_toNat

def u64 : Form UInt64 :=
  unsigned UInt64.size UInt64.toNat UInt64.ofNat UInt64.toNat_lt @UInt64.ofNat_toNat

def i8 : Form Int8 :=
  bounded (-0x80) 0x80 Int8.toInt Int8.ofInt (fun a => ⟨a.le_toInt, a.toInt_lt⟩) Int8.ofInt_toInt

def i16 : Form Int16 :=
  bounded (-0x8000) 0x8000 Int16.toInt Int16.ofInt (fun a => ⟨a.le_toInt, a.toInt_lt⟩)
    Int16.ofInt_toInt

def i32 : Form Int32 :=
  bounded (-0x80000000) 0x80000000 Int32.toInt Int32.ofInt (fun a => ⟨a.le_toInt, a.toInt_lt⟩)
    Int32.ofInt_toInt

def bool : Form Bool where
  write := .bool
  read
    | .bool b => some b
    | _ => none
  read_write _ := rfl
  plain := .bool

def map (f : Form α) (there : α → β) (back : β → α) (h : ∀ b, there (back b) = b) : Form β where
  write b := f.write (back b)
  read v := (f.read v).map there
  read_write b := by simp [f.read_write, h]
  plain b := f.plain (back b)

/-- A name out of a list, written as a string; an object that gives the name the value `null` is
read as well. -/
def name (all : List α) (key : α → String)
    (h : ∀ a, all.find? (fun b => key b == key a) = some a) : Form α where
  write a := .string (some (key a))
  read
    | .string (some k) => all.find? (fun b => key b == k)
    | .object [(some k, .null)] => all.find? (fun b => key b == k)
    | _ => none
  read_write a := h a
  plain a := .string (key a)

theorem plain_map_write (f : Form α) (as : List α) : ∀ v ∈ as.map f.write, v.Plain := by
  intro v hv
  obtain ⟨a, -, rfl⟩ := List.mem_map.1 hv
  exact f.plain a

def list (f : Form α) : Form (List α) where
  write as := .array (as.map f.write)
  read
    | .array items => items.mapM f.read
    | _ => none
  read_write as := by
    induction as with
    | nil => rfl
    | cons a as ih => simp_all [f.read_write]
  plain as := .array (f.plain_map_write as)

end Form

/-- The values of the named fields of a record, which is written as an object or as an array of its
first fields in order. An object must not repeat a field; other members are not looked at. -/
def fieldValues (keys : List String) : Json → Option (List (Option Json))
  | .object members =>
    if members.all (fun m => m.1.isSome) &&
        keys.all (fun k => members.countP (fun m => m.1 == some k) ≤ 1) then
      some (keys.map fun k => (members.find? fun m => m.1 == some k).map (·.2))
    else none
  | .array items =>
    if items.length ≤ keys.length then
      some (items.map some ++ List.replicate (keys.length - items.length) none)
    else none
  | _ => none

/-- The fields of a record in order. -/
structure Shape (α : Type) where
  keys : List String
  write : α → List Json
  read : List (Option Json) → Option α
  length_write : ∀ a, (write a).length = keys.length
  read_write : ∀ a rest, read ((write a).map some ++ rest) = some a
  plain : ∀ a, ∀ v ∈ write a, v.Plain

namespace Shape

variable {α β : Type}

theorem plain_single (f : Form α) (a : α) : ∀ v ∈ [f.write a], v.Plain := by
  intro v hv
  rw [List.mem_singleton.1 hv]
  exact f.plain a

def required (key : String) (f : Form α) : Shape α where
  keys := [key]
  write a := [f.write a]
  read
    | some v :: _ => f.read v
    | _ => none
  length_write _ := rfl
  read_write a _ := f.read_write a
  plain := plain_single f

def optional (key : String) (f : Form α) (default : α) : Shape α where
  keys := [key]
  write a := [f.write a]
  read
    | some v :: _ => f.read v
    | _ => some default
  length_write _ := rfl
  read_write a _ := f.read_write a
  plain := plain_single f

def pair (l : Shape α) (r : Shape β) : Shape (α × β) where
  keys := l.keys ++ r.keys
  write p := l.write p.1 ++ r.write p.2
  read vs := do
    let a ← l.read vs
    let b ← r.read (vs.drop l.keys.length)
    return (a, b)
  length_write p := by simp [l.length_write, r.length_write]
  read_write p rest := by
    have h : ((l.write p.1).map some ++ ((r.write p.2).map some ++ rest)).drop l.keys.length =
        (r.write p.2).map some ++ rest := by
      rw [List.drop_left' (by simp [l.length_write])]
    simp only [List.map_append, List.append_assoc, l.read_write, h, r.read_write]
    rfl
  plain p v hv := (List.mem_append.1 hv).elim (l.plain p.1 v) (r.plain p.2 v)

def map (s : Shape α) (there : α → β) (back : β → α) (h : ∀ b, there (back b) = b) : Shape β where
  keys := s.keys
  write b := s.write (back b)
  read vs := (s.read vs).map there
  length_write b := s.length_write (back b)
  read_write b rest := by simp [s.read_write, h]
  plain b := s.plain (back b)

def members (keys : List String) (values : List Json) : List (Option String × Json) :=
  (keys.zip values).map fun (k, v) => (some k, v)

theorem countP_members_of_notMem {keys : List String} {k : String} (h : k ∉ keys)
    (values : List Json) : (members keys values).countP (fun m => m.1 == some k) = 0 := by
  simp only [members, List.countP_map, List.countP_eq_zero, Function.comp_apply]
  intro p hp heq
  have hk : p.1 ∈ keys := (List.of_mem_zip (a := p.1) (b := p.2) hp).1
  simp only [beq_iff_eq, Option.some.injEq] at heq
  exact h (heq ▸ hk)

theorem countP_members_le {keys : List String} (h : keys.Nodup) (values : List Json) (k : String) :
    (members keys values).countP (fun m => m.1 == some k) ≤ 1 := by
  induction keys generalizing values with
  | nil => simp [members]
  | cons key keys ih =>
    cases values with
    | nil => simp [members]
    | cons v values =>
      obtain ⟨hk, hn⟩ := List.nodup_cons.1 h
      have hcons : members (key :: keys) (v :: values) = (some key, v) :: members keys values := rfl
      rw [hcons, List.countP_cons]
      by_cases heq : key = k
      · subst heq
        simp [countP_members_of_notMem hk]
      · simpa [heq] using ih hn values

theorem map_find?_members {keys : List String} (h : keys.Nodup) {values : List Json}
    (hl : values.length = keys.length) :
    keys.map (fun k => ((members keys values).find? fun m => m.1 == some k).map (·.2)) =
      values.map some := by
  induction keys generalizing values with
  | nil => simp_all
  | cons key keys ih =>
    cases values with
    | nil => simp at hl
    | cons v values =>
      obtain ⟨hk, hn⟩ := List.nodup_cons.1 h
      have hcons : members (key :: keys) (v :: values) = (some key, v) :: members keys values := rfl
      have htail : keys.map (fun k =>
          ((members (key :: keys) (v :: values)).find? fun m => m.1 == some k).map (·.2)) =
          keys.map (fun k => ((members keys values).find? fun m => m.1 == some k).map (·.2)) := by
        apply List.map_congr_left
        intro k hmem
        have hne : key ≠ k := fun e => hk (e ▸ hmem)
        simp [hcons, hne]
      rw [List.map_cons, htail, ih hn (by simpa using hl), hcons]
      simp

theorem fieldValues_members {keys : List String} (h : keys.Nodup) {values : List Json}
    (hl : values.length = keys.length) :
    fieldValues keys (.object (members keys values)) = some (values.map some) := by
  have hsome : (members keys values).all (fun m => m.1.isSome) = true := by
    simp [members]
  have hcount : keys.all (fun k =>
      (members keys values).countP (fun m => m.1 == some k) ≤ 1) = true := by
    simpa using fun k _ => countP_members_le h values k
  simp only [fieldValues, hsome, hcount, Bool.and_self, if_true, map_find?_members h hl]

theorem plain_members {keys : List String} {values : List Json} (h : ∀ v ∈ values, v.Plain) :
    (Json.object (members keys values)).Plain := by
  refine .object ?_ ?_ <;> intro m hm <;> obtain ⟨p, hp, rfl⟩ := List.mem_map.1 hm
  · exact ⟨p.1, rfl⟩
  · exact h p.2 (List.of_mem_zip (a := p.1) (b := p.2) hp).2

def form (s : Shape α) (h : s.keys.Nodup) : Form α where
  write a := .object (members s.keys (s.write a))
  read v := do s.read (← fieldValues s.keys v)
  read_write a := by
    have := s.read_write a []
    simp only [List.append_nil] at this
    simp only [fieldValues_members h (s.length_write a)]
    exact this
  plain a := plain_members (s.plain a)

/-- The form of a record that is read only with the names of its fields. -/
def namedForm (s : Shape α) (h : s.keys.Nodup) : Form α where
  write := (s.form h).write
  read
    | .object members => (s.form h).read (.object members)
    | _ => none
  read_write := (s.form h).read_write
  plain := (s.form h).plain

end Shape

end CommandStream.Json
