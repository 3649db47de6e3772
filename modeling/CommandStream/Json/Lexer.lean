import CommandStream.Json.Basic

/-! # JSON tokens

Text is read one character at a time; the state tells which token the characters belong to.
-/

namespace CommandStream.Json

/-- A part of a string literal: a character, or a unit of 16 bits given by an escape. -/
inductive StringPart where
  | char (c : Char)
  | unit (n : Nat)
  deriving DecidableEq, Repr

namespace StringPart

def isHighSurrogate (n : Nat) : Bool := 0xD800 ≤ n && n < 0xDC00

def isLowSurrogate (n : Nat) : Bool := 0xDC00 ≤ n && n < 0xE000

/-- Decode parts, given last part first, in front of characters that are decoded already. -/
def decode : List StringPart → List Char → Option (List Char)
  | [], done => some done
  | .char c :: rest, done => decode rest (c :: done)
  | .unit low :: .unit high :: rest, done =>
    if isLowSurrogate low then
      if isHighSurrogate high then
        decode rest (Char.ofNat (0x10000 + (high - 0xD800) * 0x400 + (low - 0xDC00)) :: done)
      else none
    else if isHighSurrogate low then none
    else decode (.unit high :: rest) (Char.ofNat low :: done)
  | .unit n :: rest, done =>
    if isLowSurrogate n || isHighSurrogate n then none else decode rest (Char.ofNat n :: done)

end StringPart

def textOfParts (parts : List StringPart) : Option String :=
  (StringPart.decode parts []).map String.ofList

def isDigit (c : Char) : Bool := '0' ≤ c && c ≤ '9'

def digitsValue (digits : List Char) : Nat :=
  digits.foldl (fun n c => 10 * n + (c.toNat - '0'.toNat)) 0

def isExponent : List Char → Bool
  | [] => true
  | c :: cs =>
    let digits := match cs with
      | '+' :: ds => ds
      | '-' :: ds => ds
      | ds => ds
    (c == 'e' || c == 'E') && !digits.isEmpty && digits.all isDigit

def isNumberTail : List Char → Bool
  | '.' :: cs => !(cs.takeWhile isDigit).isEmpty && isExponent (cs.dropWhile isDigit)
  | cs => isExponent cs

/-- The token of a number: no superfluous zeros, and an integer when nothing follows the digits. -/
def numberToken (lexeme : List Char) : Option Token :=
  let (negative, cs) := match lexeme with
    | '-' :: cs => (true, cs)
    | cs => (false, cs)
  let digits := cs.takeWhile isDigit
  let tail := cs.dropWhile isDigit
  if digits.isEmpty || (digits.head? == some '0' && 1 < digits.length) || !isNumberTail tail then
    none
  else
    let n := digitsValue digits
    if !tail.isEmpty || (negative && n == 0) then some (.real (String.ofList lexeme))
    else some (.int (if negative then -(n : Int) else n))

def wordToken (letters : List Char) : Option Token :=
  match String.ofList letters with
  | "null" => some .null
  | "true" => some (.bool true)
  | "false" => some (.bool false)
  | _ => none

/-- Where in a token the lexer stands. Characters and parts are kept in reverse. -/
inductive Scan where
  | between
  | number (chars : List Char)
  | word (chars : List Char)
  | text (parts : List StringPart)
  | escape (parts : List StringPart)
  | unicode (parts : List StringPart) (digits value : Nat)
  deriving DecidableEq, Repr

/-- The tokens read so far, in reverse, and the unfinished one. -/
structure Lexer where
  tokens : List Token := []
  scan : Scan := .between
  deriving DecidableEq, Repr

namespace Lexer

def isBlank (c : Char) : Bool := c == ' ' || c == '\n' || c == '\t' || c == '\r'

def isNumberChar (c : Char) : Bool :=
  isDigit c || c == '-' || c == '+' || c == '.' || c == 'e' || c == 'E'

def isLetter (c : Char) : Bool := 'a' ≤ c && c ≤ 'z'

def punctuation? : Char → Option Token
  | '[' => some .openArray
  | ']' => some .closeArray
  | '{' => some .openObject
  | '}' => some .closeObject
  | ',' => some .comma
  | ':' => some .colon
  | _ => none

def enter (tokens : List Token) (c : Char) : Option Lexer :=
  if isBlank c then some { tokens := tokens }
  else if c == '"' then some { tokens, scan := .text [] }
  else if isDigit c || c == '-' then some { tokens, scan := .number [c] }
  else if isLetter c then some { tokens, scan := .word [c] }
  else do return { tokens := (← punctuation? c) :: tokens }

def hexDigit? (c : Char) : Option Nat :=
  if isDigit c then some (c.toNat - '0'.toNat)
  else if 'a' ≤ c && c ≤ 'f' then some (c.toNat - 'a'.toNat + 10)
  else if 'A' ≤ c && c ≤ 'F' then some (c.toNat - 'A'.toNat + 10)
  else none

def escaped? : Char → Option Char
  | '"' => some '"'
  | '\\' => some '\\'
  | '/' => some '/'
  | 'b' => some '\x08'
  | 'f' => some '\x0c'
  | 'n' => some '\n'
  | 'r' => some '\r'
  | 't' => some '\t'
  | _ => none

def step (l : Lexer) (c : Char) : Option Lexer :=
  match l.scan with
  | .between => enter l.tokens c
  | .number chars =>
    if isNumberChar c then some { l with scan := .number (c :: chars) }
    else do enter ((← numberToken chars.reverse) :: l.tokens) c
  | .word chars =>
    if isLetter c then some { l with scan := .word (c :: chars) }
    else do enter ((← wordToken chars.reverse) :: l.tokens) c
  | .text parts =>
    if c == '"' then some { tokens := .string (textOfParts parts) :: l.tokens }
    else if c == '\\' then some { l with scan := .escape parts }
    else if c.toNat < 0x20 then none
    else some { l with scan := .text (.char c :: parts) }
  | .escape parts =>
    if c == 'u' then some { l with scan := .unicode parts 0 0 }
    else do return { l with scan := .text (.char (← escaped? c) :: parts) }
  | .unicode parts digits value => do
    let value := 16 * value + (← hexDigit? c)
    if digits = 3 then return { l with scan := .text (.unit value :: parts) }
    else return { l with scan := .unicode parts (digits + 1) value }

def finish (l : Lexer) : Option (List Token) :=
  match l.scan with
  | .between => some l.tokens.reverse
  | .number chars => do return ((← numberToken chars.reverse) :: l.tokens).reverse
  | .word chars => do return ((← wordToken chars.reverse) :: l.tokens).reverse
  | _ => none

end Lexer

def tokens? (text : String) : Option (List Token) := do
  (← text.toList.foldlM Lexer.step {}).finish

end CommandStream.Json
