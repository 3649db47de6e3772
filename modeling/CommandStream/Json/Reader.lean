import CommandStream.Json.Lexer

/-! # Reading JSON

Tokens are read one at a time with a stack of the arrays and objects that are still open.
-/

namespace CommandStream.Json

/-- An open array or object with what it holds so far, in reverse. An object also has the key whose
value comes next. -/
inductive Frame where
  | array (items : List Json)
  | object (members : List (Option String × Json)) (key : Option String)

/-- What has been read and what may come next. -/
inductive Parse where
  | value (frames : List Frame)
  | firstItem (frames : List Frame)
  | firstKey (frames : List Frame)
  | nextKey (members : List (Option String × Json)) (frames : List Frame)
  | colon (members : List (Option String × Json)) (key : Option String) (frames : List Frame)
  | separator (frame : Frame) (frames : List Frame)
  | done (v : Json)

namespace Parse

def complete (v : Json) : List Frame → Parse
  | [] => .done v
  | .array items :: frames => .separator (.array (v :: items)) frames
  | .object members key :: frames => .separator (.object ((key, v) :: members) key) frames

def enter (frames : List Frame) : Token → Option Parse
  | .openArray => some (.firstItem frames)
  | .openObject => some (.firstKey frames)
  | .null => some (complete .null frames)
  | .bool b => some (complete (.bool b) frames)
  | .int n => some (complete (.int n) frames)
  | .real lexeme => some (complete (.real lexeme) frames)
  | .string text => some (complete (.string text) frames)
  | _ => none

def step (p : Parse) (t : Token) : Option Parse :=
  match p, t with
  | .value frames, t => enter frames t
  | .firstItem frames, .closeArray => some (complete (.array []) frames)
  | .firstItem frames, t => enter (.array [] :: frames) t
  | .firstKey frames, .closeObject => some (complete (.object []) frames)
  | .firstKey frames, .string key => some (.colon [] key frames)
  | .nextKey members frames, .string key => some (.colon members key frames)
  | .colon members key frames, .colon => some (.value (.object members key :: frames))
  | .separator (.array items) frames, .comma => some (.value (.array items :: frames))
  | .separator (.array items) frames, .closeArray =>
    some (complete (.array items.reverse) frames)
  | .separator (.object members _) frames, .comma => some (.nextKey members frames)
  | .separator (.object members _) frames, .closeObject =>
    some (complete (.object members.reverse) frames)
  | _, _ => none

end Parse

def parse? (text : String) : Option Json := do
  match ← (← tokens? text).foldlM Parse.step (.value []) with
  | .done v => some v
  | _ => none

end CommandStream.Json
