import CommandStream.Json.Basic
import CommandStream.Text.Number

/-! # Printing JSON

One item or member on each line, two blanks for each level, and empty arrays and objects closed at
once.
-/

namespace CommandStream.Json

def escapeChar (c : Char) : List Char :=
  match c with
  | '"' => ['\\', '"']
  | '\\' => ['\\', '\\']
  | '\x08' => ['\\', 'b']
  | '\x0c' => ['\\', 'f']
  | '\n' => ['\\', 'n']
  | '\r' => ['\\', 'r']
  | '\t' => ['\\', 't']
  | c => if c.toNat < 0x20 then ("\\u" ++ Text.hexPadded 4 c.toNat).toList else [c]

def quote (text : String) : List Char :=
  '"' :: text.toList.flatMap escapeChar ++ ['"']

def newLine (depth : Nat) : List Char := '\n' :: List.replicate (2 * depth) ' '

mutual

def prettyAt (depth : Nat) : Json → List Char
  | .null => "null".toList
  | .bool b => if b then "true".toList else "false".toList
  | .int n => (Text.decimal n).toList
  | .real lexeme => lexeme.toList
  | .string text => quote (text.getD "")
  | .array [] => ['[', ']']
  | .array (v :: rest) =>
    '[' :: newLine (depth + 1) ++ prettyAt (depth + 1) v ++ prettyItems (depth + 1) rest ++
      newLine depth ++ [']']
  | .object [] => ['{', '}']
  | .object ((key, v) :: rest) =>
    '{' :: newLine (depth + 1) ++ quote (key.getD "") ++ [':', ' '] ++ prettyAt (depth + 1) v ++
      prettyMembers (depth + 1) rest ++ newLine depth ++ ['}']

def prettyItems (depth : Nat) : List Json → List Char
  | [] => []
  | v :: rest => ',' :: newLine depth ++ prettyAt depth v ++ prettyItems depth rest

def prettyMembers (depth : Nat) : List (Option String × Json) → List Char
  | [] => []
  | (key, v) :: rest =>
    ',' :: newLine depth ++ quote (key.getD "") ++ [':', ' '] ++ prettyAt depth v ++
      prettyMembers depth rest

end

def pretty (v : Json) : String := String.ofList (prettyAt 0 v)

end CommandStream.Json
