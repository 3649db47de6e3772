/-! # JSON values

A value keeps what readers can tell apart: the order and repetition of object members, and whether a
number was written as an integer.
-/

namespace CommandStream

/-- A string is `none` when its escapes name half of a surrogate pair, and a number is `real` when
it has a fraction, an exponent or the sign of a negative zero. -/
inductive Json where
  | null
  | bool (b : Bool)
  | int (n : Int)
  | real (lexeme : String)
  | string (text : Option String)
  | array (items : List Json)
  | object (members : List (Option String × Json))
  deriving Repr

/-- A value whose numbers are integers and whose strings and keys are all whole. -/
inductive Json.Plain : Json → Prop where
  | null : Plain .null
  | bool (b : Bool) : Plain (.bool b)
  | int (n : Int) : Plain (.int n)
  | string (text : String) : Plain (.string (some text))
  | array {items : List Json} (hitems : ∀ v ∈ items, Plain v) : Plain (.array items)
  | object {members : List (Option String × Json)} (hkeys : ∀ m ∈ members, ∃ k, m.1 = some k)
      (hvalues : ∀ m ∈ members, Plain m.2) : Plain (.object members)

inductive Json.Token where
  | openArray
  | closeArray
  | openObject
  | closeObject
  | comma
  | colon
  | null
  | bool (b : Bool)
  | int (n : Int)
  | real (lexeme : String)
  | string (text : Option String)
  deriving DecidableEq, Repr

end CommandStream
