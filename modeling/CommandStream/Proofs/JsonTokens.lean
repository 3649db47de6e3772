import CommandStream.Json.Lexer
import CommandStream.Json.Printer
import Mathlib.Data.List.TakeWhile
import Mathlib.Tactic.Common

/-! # The tokens of printed JSON

The text of a plain value is cut into the tokens of that value. A number or a word ends only where
something else begins, so what is said of a text leaves its last token open to a delimiter.
-/

namespace CommandStream.Json

mutual

def tokens : Json → List Token
  | .null => [.null]
  | .bool b => [.bool b]
  | .int n => [.int n]
  | .real lexeme => [.real lexeme]
  | .string text => [.string text]
  | .array [] => [.openArray, .closeArray]
  | .array (v :: rest) => .openArray :: (tokens v ++ itemTokens rest ++ [.closeArray])
  | .object [] => [.openObject, .closeObject]
  | .object ((key, v) :: rest) =>
    .openObject :: .string key :: .colon :: (tokens v ++ memberTokens rest ++ [.closeObject])

def itemTokens : List Json → List Token
  | [] => []
  | v :: rest => .comma :: (tokens v ++ itemTokens rest)

def memberTokens : List (Option String × Json) → List Token
  | [] => []
  | (key, v) :: rest => .comma :: .string key :: .colon :: (tokens v ++ memberTokens rest)

end

/-! ## Pieces of text -/

section Folds

variable {α σ : Type} {f : σ → α → Option σ} {s t : σ}

theorem foldlM_cons_of_eq_some {x : α} (h : f s x = some t) (xs : List α) :
    (x :: xs).foldlM f s = xs.foldlM f t := by
  rw [List.foldlM_cons, h, Option.bind_eq_bind, Option.bind_some]

theorem foldlM_append_of_eq_some {xs : List α} (h : xs.foldlM f s = some t) (ys : List α) :
    (xs ++ ys).foldlM f s = ys.foldlM f t := by
  rw [List.foldlM_append, h, Option.bind_eq_bind, Option.bind_some]

end Folds

namespace Lexer

structure Delimits (c : Char) : Prop where
  number : isNumberChar c = false
  letter : isLetter c = false

/-- The lexer stands behind these tokens, given last token first. The last of them may be a number
or a word that only a delimiter or the end of the text completes. -/
structure Holds (l : Lexer) (ts : List Token) : Prop where
  step : ∀ c, Delimits c → l.step c = enter ts c
  finish : l.finish = some ts.reverse

theorem holds_between (ts : List Token) : Holds { tokens := ts } ts :=
  ⟨fun _ _ => rfl, rfl⟩

theorem holds_number {chars : List Char} {t : Token} (h : numberToken chars.reverse = some t)
    (ts : List Token) : Holds { tokens := ts, scan := .number chars } (t :: ts) := by
  refine ⟨fun c hc => ?_, ?_⟩
  · simp [Lexer.step, hc.number, h]
  · simp [Lexer.finish, h]

theorem holds_word {chars : List Char} {t : Token} (h : wordToken chars.reverse = some t)
    (ts : List Token) : Holds { tokens := ts, scan := .word chars } (t :: ts) := by
  refine ⟨fun c hc => ?_, ?_⟩
  · simp [Lexer.step, hc.letter, h]
  · simp [Lexer.finish, h]

end Lexer

open Lexer

/-- Reading the text adds the tokens, and the last of them is complete. -/
def LexesWhole (text : List Char) (ts : List Token) : Prop :=
  ∀ before, text.foldlM Lexer.step { tokens := before } = some { tokens := ts.reverse ++ before }

def Lexes (text : List Char) (ts : List Token) : Prop :=
  ∀ before, ∃ l, text.foldlM Lexer.step { tokens := before } = some l ∧
    l.Holds (ts.reverse ++ before)

section Pieces

variable {a b : List Char} {ts us : List Token}

theorem LexesWhole.lexes (h : LexesWhole a ts) : Lexes a ts :=
  fun before => ⟨_, h before, holds_between _⟩

theorem LexesWhole.append (ha : LexesWhole a ts) (hb : LexesWhole b us) :
    LexesWhole (a ++ b) (ts ++ us) := by
  intro before
  rw [foldlM_append_of_eq_some (ha before), hb, List.reverse_append, List.append_assoc]

theorem LexesWhole.append_lexes (ha : LexesWhole a ts) (hb : Lexes b us) :
    Lexes (a ++ b) (ts ++ us) := by
  intro before
  rw [foldlM_append_of_eq_some (ha before), List.reverse_append, List.append_assoc]
  exact hb _

theorem Lexes.append_whole {c : Char} (ha : Lexes a ts) (hc : Delimits c)
    (hb : LexesWhole (c :: b) us) : LexesWhole (a ++ c :: b) (ts ++ us) := by
  intro before
  obtain ⟨l, hl, hholds⟩ := ha before
  have hstep : l.step c = Lexer.step { tokens := ts.reverse ++ before } c := hholds.step c hc
  have hrest := hb (ts.reverse ++ before)
  rw [List.foldlM_cons, ← hstep, ← List.foldlM_cons] at hrest
  rw [foldlM_append_of_eq_some hl, hrest, List.reverse_append, List.append_assoc]

theorem Lexes.tokens?_ofList (h : Lexes a ts) : tokens? (String.ofList a) = some ts := by
  obtain ⟨l, hl, hholds⟩ := h []
  rw [tokens?, String.toList_ofList, hl, Option.bind_eq_bind, Option.bind_some, hholds.finish,
    List.append_nil, List.reverse_reverse]

end Pieces

theorem delimits_comma : Delimits ',' := ⟨by decide, by decide⟩

theorem delimits_newLine : Delimits '\n' := ⟨by decide, by decide⟩

theorem lexesWhole_punctuation {c : Char} {t : Token}
    (hc : ∀ ts, enter ts c = some { tokens := t :: ts }) : LexesWhole [c] [t] := by
  intro before
  exact foldlM_cons_of_eq_some (hc before) []

theorem lexesWhole_blanks (n : Nat) : LexesWhole (List.replicate n ' ') [] := by
  intro before
  induction n with
  | zero => rfl
  | succ n ih => exact ih

theorem lexesWhole_newLine (depth : Nat) : LexesWhole (newLine depth) [] :=
  lexesWhole_blanks (2 * depth)

/-! ## Words and numbers -/

theorem lexes_collected (state : List Char → Scan) (part : Char → Bool)
    (hstep : ∀ ts chars d, part d = true → Lexer.step { tokens := ts, scan := state chars } d =
      some { tokens := ts, scan := state (d :: chars) })
    {c : Char} {cs : List Char} {t : Token}
    (hc : ∀ ts, enter ts c = some { tokens := ts, scan := state [c] })
    (hcs : ∀ d ∈ cs, part d = true)
    (ht : ∀ ts, Holds { tokens := ts, scan := state (c :: cs).reverse } (t :: ts)) :
    Lexes (c :: cs) [t] := by
  intro before
  refine ⟨_, ?_, ht before⟩
  have hcollect : ∀ chars, cs.foldlM Lexer.step { tokens := before, scan := state chars } =
      some { tokens := before, scan := state (cs.reverse ++ chars) } := by
    clear ht
    induction cs with
    | nil => exact fun _ => rfl
    | cons d cs ih =>
      rw [List.forall_mem_cons] at hcs
      intro chars
      rw [foldlM_cons_of_eq_some (hstep before chars d hcs.1), ih hcs.2, List.reverse_cons,
        List.append_assoc, List.singleton_append]
  rw [List.reverse_cons, ← hcollect [c]]
  exact foldlM_cons_of_eq_some (hc before) cs

theorem lexes_word {c : Char} {cs : List Char} {t : Token}
    (hc : ∀ ts, enter ts c = some { tokens := ts, scan := .word [c] })
    (hcs : ∀ d ∈ cs, isLetter d = true) (ht : wordToken (c :: cs) = some t) :
    Lexes (c :: cs) [t] :=
  lexes_collected .word isLetter (fun _ _ _ hd => if_pos hd) hc hcs
    (holds_word (by rwa [List.reverse_reverse]))

theorem lexes_number {c : Char} {cs : List Char} {t : Token}
    (hc : ∀ ts, enter ts c = some { tokens := ts, scan := .number [c] })
    (hcs : ∀ d ∈ cs, isNumberChar d = true) (ht : numberToken (c :: cs) = some t) :
    Lexes (c :: cs) [t] :=
  lexes_collected .number isNumberChar (fun _ _ _ hd => if_pos hd) hc hcs
    (holds_number (by rwa [List.reverse_reverse]))

theorem lexes_null : Lexes "null".toList [.null] :=
  lexes_word (fun _ => rfl) (List.all_eq_true.mp (by decide)) (by decide)

theorem lexes_true : Lexes "true".toList [.bool true] :=
  lexes_word (fun _ => rfl) (List.all_eq_true.mp (by decide)) (by decide)

theorem lexes_false : Lexes "false".toList [.bool false] :=
  lexes_word (fun _ => rfl) (List.all_eq_true.mp (by decide)) (by decide)

section Digits

theorem isDigit_iff {c : Char} : isDigit c = true ↔ c.isDigit = true := by
  simp [isDigit, Char.isDigit, Char.le_def]

theorem isDigit_of_mem_toDigits {c : Char} {n : Nat} (h : c ∈ Nat.toDigits 10 n) :
    isDigit c = true :=
  isDigit_iff.mpr (Nat.isDigit_of_mem_toDigits (by decide) (by decide) h)

theorem digitsValue_append_singleton (cs : List Char) (c : Char) :
    digitsValue (cs ++ [c]) = 10 * digitsValue cs + (c.toNat - '0'.toNat) := by
  simp [digitsValue]

theorem digitsValue_toDigits (n : Nat) : digitsValue (Nat.toDigits 10 n) = n := by
  induction n using Nat.strongRecOn with
  | ind n ih =>
    rw [Nat.toDigits_eq_if (by decide)]
    split
    · rename_i hn
      simpa [digitsValue] using Nat.toNat_digitChar_sub_48_of_lt_ten hn
    · have hdigit := Nat.toNat_digitChar_sub_48_of_lt_ten (Nat.mod_lt n (show 0 < 10 by decide))
      rw [digitsValue_append_singleton, ih (n / 10) (by omega)]
      have : (n % 10).digitChar.toNat - '0'.toNat = n % 10 := hdigit
      omega

theorem eq_zero_of_head?_toDigits {n : Nat} (h : (Nat.toDigits 10 n).head? = some '0') : n = 0 := by
  induction n using Nat.strongRecOn with
  | ind n ih =>
    rw [Nat.toDigits_eq_if (by decide)] at h
    split at h
    · simpa using h
    · rw [List.head?_append, List.head?_eq_some_head Nat.toDigits_ne_nil, Option.some_or,
        ← List.head?_eq_some_head Nat.toDigits_ne_nil] at h
      have := ih (n / 10) (by omega) h
      omega

theorem enter_of_isDigit {c : Char} (h : isDigit c = true) (ts : List Token) :
    enter ts c = some { tokens := ts, scan := .number [c] } := by
  have hblank : isBlank c = false := by
    by_contra hblank
    simp only [isBlank, Bool.not_eq_false, Bool.or_eq_true, beq_iff_eq] at hblank
    rcases hblank with ((rfl | rfl) | rfl) | rfl <;> exact absurd h (by decide)
  have hquote : (c == '"') = false := by
    by_contra hquote
    simp only [Bool.not_eq_false, beq_iff_eq] at hquote
    subst hquote
    exact absurd h (by decide)
  simp [enter, hblank, hquote, h]

theorem isNumberChar_of_isDigit {c : Char} (h : isDigit c = true) : isNumberChar c = true := by
  simp [isNumberChar, h]

theorem takeWhile_toDigits (n : Nat) :
    (Nat.toDigits 10 n).takeWhile isDigit = Nat.toDigits 10 n :=
  List.takeWhile_eq_self_iff.mpr fun _ => isDigit_of_mem_toDigits

theorem dropWhile_toDigits (n : Nat) : (Nat.toDigits 10 n).dropWhile isDigit = [] :=
  List.dropWhile_eq_nil_iff.mpr fun _ => isDigit_of_mem_toDigits

theorem not_superfluous_toDigits (n : Nat) :
    ((Nat.toDigits 10 n).head? == some '0' && decide (1 < (Nat.toDigits 10 n).length)) = false := by
  by_contra h
  simp only [Bool.not_eq_false, Bool.and_eq_true, beq_iff_eq, decide_eq_true_eq] at h
  rw [eq_zero_of_head?_toDigits h.1, Nat.toDigits_zero] at h
  exact absurd h.2 (by decide)

theorem numberToken_toDigits (n : Nat) : numberToken (Nat.toDigits 10 n) = some (.int n) := by
  unfold numberToken
  split
  rename_i negative cs hcs
  split at hcs
  · rename_i cs hsign
    have hminus : isDigit '-' = true := isDigit_of_mem_toDigits (hsign ▸ List.mem_cons_self)
    exact absurd hminus (by decide)
  · obtain ⟨rfl, rfl⟩ := Prod.mk.inj hcs
    simp [takeWhile_toDigits, dropWhile_toDigits, not_superfluous_toDigits, digitsValue_toDigits,
      isNumberTail, isExponent, Nat.toDigits_ne_nil]

theorem numberToken_neg_toDigits {n : Nat} (hn : n ≠ 0) :
    numberToken ('-' :: Nat.toDigits 10 n) = some (.int (-n)) := by
  simp [numberToken, takeWhile_toDigits, dropWhile_toDigits, not_superfluous_toDigits,
    digitsValue_toDigits, isNumberTail, isExponent, Nat.toDigits_ne_nil, hn]

theorem lexes_toDigits (n : Nat) : Lexes (Nat.toDigits 10 n) [.int n] := by
  have htoken := numberToken_toDigits n
  have hdigits : ∀ c ∈ Nat.toDigits 10 n, isDigit c = true := fun _ => isDigit_of_mem_toDigits
  cases hn : Nat.toDigits 10 n with
  | nil => exact absurd hn Nat.toDigits_ne_nil
  | cons c cs =>
    rw [hn] at htoken hdigits
    refine lexes_number (enter_of_isDigit (hdigits c List.mem_cons_self)) ?_ htoken
    intro d hd
    exact isNumberChar_of_isDigit (hdigits d (List.mem_cons_of_mem c hd))

theorem lexes_decimal (n : Int) : Lexes (Text.decimal n).toList [.int n] := by
  unfold Text.decimal
  split
  · rename_i hn
    have habs : (-(n.natAbs : Int)) = n := by omega
    have htoken := numberToken_neg_toDigits (n := n.natAbs) (by omega)
    rw [habs] at htoken
    have htext : ("-" ++ toString n.natAbs).toList = '-' :: Nat.toDigits 10 n.natAbs := by
      simp [String.toList_append]
    rw [htext]
    exact lexes_number (fun _ => rfl)
      (fun _ hd => isNumberChar_of_isDigit (isDigit_of_mem_toDigits hd)) htoken
  · have habs : (n.natAbs : Int) = n := by omega
    rw [Nat.toString_eq_ofList_toDigits, String.toList_ofList]
    have := lexes_toDigits n.natAbs
    rwa [habs] at this

end Digits

/-! ## Strings -/

/-- Inside a literal the text is read as parts that stand for the characters. -/
def Denotes (text cs : List Char) : Prop :=
  ∀ ts parts, ∃ more,
    text.foldlM Lexer.step { tokens := ts, scan := .text parts } =
      some { tokens := ts, scan := .text (more ++ parts) } ∧
    ∀ rest done, StringPart.decode (more ++ rest) done = StringPart.decode rest (cs ++ done)

theorem denotes_nil : Denotes [] [] :=
  fun _ _ => ⟨[], rfl, fun _ _ => rfl⟩

theorem Denotes.append {a b cs ds : List Char} (ha : Denotes a cs) (hb : Denotes b ds) :
    Denotes (a ++ b) (cs ++ ds) := by
  intro ts parts
  obtain ⟨first, hfirst, hcs⟩ := ha ts parts
  obtain ⟨second, hsecond, hds⟩ := hb ts (first ++ parts)
  refine ⟨second ++ first, ?_, ?_⟩
  · rw [foldlM_append_of_eq_some hfirst, hsecond, List.append_assoc]
  · intro rest done
    rw [List.append_assoc, hds, hcs, List.append_assoc]

theorem denotes_char {text : List Char} {c : Char}
    (h : ∀ ts parts, text.foldlM Lexer.step { tokens := ts, scan := .text parts } =
      some { tokens := ts, scan := .text (.char c :: parts) }) : Denotes text [c] :=
  fun ts parts => ⟨[.char c], h ts parts, fun _ _ => rfl⟩

theorem denotes_escaped {letter c : Char} (hu : letter ≠ 'u') (h : escaped? letter = some c) :
    Denotes ['\\', letter] [c] :=
  denotes_char fun ts parts => by simp [Lexer.step, hu, h]

theorem StringPart.decode_unit {n : Nat} (h : n < 0xD800) (rest : List StringPart)
    (done : List Char) : decode (.unit n :: rest) done = decode rest (Char.ofNat n :: done) := by
  have hlow : isLowSurrogate n = false := by
    simp only [isLowSurrogate, Bool.and_eq_false_iff, decide_eq_false_iff_not]
    omega
  have hhigh : isHighSurrogate n = false := by
    simp only [isHighSurrogate, Bool.and_eq_false_iff, decide_eq_false_iff_not]
    omega
  cases rest with
  | nil => simp [decode, hlow, hhigh]
  | cons part rest => cases part <;> simp [decode, hlow, hhigh]

theorem hexDigit?_digitChar : ∀ d < 16, hexDigit? d.digitChar = some d := by decide

theorem hexPadded_of_lt : ∀ n < 0x20, (Text.hexPadded 4 n).toList =
    ['0', '0', (n / 16).digitChar, (n % 16).digitChar] := by decide

theorem denotes_unicode {n : Nat} (h : n < 0x20) :
    Denotes ("\\u" ++ Text.hexPadded 4 n).toList [Char.ofNat n] := by
  have hhigh := hexDigit?_digitChar (n / 16) (by omega)
  have hlow := hexDigit?_digitChar (n % 16) (by omega)
  have hzero : hexDigit? '0' = some 0 := by decide
  have hvalue : 16 * (n / 16) + n % 16 = n := by omega
  intro ts parts
  refine ⟨[.unit n], ?_, StringPart.decode_unit (by omega)⟩
  rw [String.toList_append, hexPadded_of_lt n h]
  simp [Lexer.step, hzero, hhigh, hlow, hvalue]

theorem denotes_escapeChar (c : Char) : Denotes (escapeChar c) [c] := by
  unfold escapeChar
  split
  case h_8 hquote hbackslash _ _ _ _ _ =>
    split
    · rename_i hc
      have hunicode := denotes_unicode hc
      rwa [Char.ofNat_toNat] at hunicode
    · rename_i hc
      refine denotes_char fun ts parts => ?_
      simp only [List.foldlM_cons, List.foldlM_nil, Lexer.step, beq_iff_eq]
      rw [if_neg hquote, if_neg hbackslash, if_neg hc]
      rfl
  all_goals exact denotes_escaped (by decide) (by decide)

theorem denotes_flatMap_escapeChar (cs : List Char) : Denotes (cs.flatMap escapeChar) cs := by
  induction cs with
  | nil => exact denotes_nil
  | cons c cs ih => exact (denotes_escapeChar c).append ih

theorem lexesWhole_quote (text : String) : LexesWhole (quote text) [.string (some text)] := by
  intro before
  obtain ⟨parts, hparts, hdecode⟩ := denotes_flatMap_escapeChar text.toList before []
  have htext : textOfParts parts = some text := by
    have hwhole := hdecode [] []
    rw [List.append_nil, List.append_nil] at hwhole
    rw [textOfParts, hwhole]
    exact congrArg some String.ofList_toList
  have hopen : Lexer.step { tokens := before } '"' =
      some { tokens := before, scan := .text [] } := rfl
  have hclose : Lexer.step { tokens := before, scan := .text (parts ++ []) } '"' =
      some { tokens := .string (some text) :: before } := by
    rw [List.append_nil, ← htext]
    rfl
  rw [quote, List.cons_append, foldlM_cons_of_eq_some hopen, foldlM_append_of_eq_some hparts,
    foldlM_cons_of_eq_some hclose]
  rfl

/-! ## Values -/

section Values

variable {a : List Char} {ts : List Token}

theorem lexesWhole_prettyItems (depth : Nat) {items : List Json} (ha : Lexes a ts)
    (h : ∀ v ∈ items, ∀ depth, Lexes (prettyAt depth v) (tokens v)) :
    LexesWhole (a ++ prettyItems (depth + 1) items ++ newLine depth ++ [']'])
      (ts ++ itemTokens items ++ [.closeArray]) := by
  induction items generalizing a ts with
  | nil =>
    have hclose := (lexesWhole_newLine depth).append
      (lexesWhole_punctuation (c := ']') (t := .closeArray) fun _ => rfl)
    simpa [prettyItems, itemTokens, newLine] using ha.append_whole delimits_newLine hclose
  | cons v rest ih =>
    rw [List.forall_mem_cons] at h
    have hcomma := (lexesWhole_punctuation (c := ',') (t := .comma) fun _ => rfl).append
      (lexesWhole_newLine (depth + 1))
    have hitem := (ha.append_whole delimits_comma hcomma).append_lexes (h.1 (depth + 1))
    simpa [prettyItems, itemTokens] using ih hitem h.2

theorem lexes_member {depth : Nat} {key : Option String} {v : Json} (hkey : ∃ k, key = some k)
    (hv : Lexes (prettyAt depth v) (tokens v)) :
    Lexes (quote (key.getD "") ++ [':', ' '] ++ prettyAt depth v)
      (.string key :: .colon :: tokens v) := by
  obtain ⟨k, rfl⟩ := hkey
  have hcolon := (lexesWhole_punctuation (c := ':') (t := .colon) fun _ => rfl).append
    (lexesWhole_blanks 1)
  exact ((lexesWhole_quote k).append hcolon).append_lexes hv

theorem lexesWhole_prettyMembers (depth : Nat) {members : List (Option String × Json)}
    (ha : Lexes a ts) (hkeys : ∀ m ∈ members, ∃ k, m.1 = some k)
    (h : ∀ m ∈ members, ∀ depth, Lexes (prettyAt depth m.2) (tokens m.2)) :
    LexesWhole (a ++ prettyMembers (depth + 1) members ++ newLine depth ++ ['}'])
      (ts ++ memberTokens members ++ [.closeObject]) := by
  induction members generalizing a ts with
  | nil =>
    have hclose := (lexesWhole_newLine depth).append
      (lexesWhole_punctuation (c := '}') (t := .closeObject) fun _ => rfl)
    simpa [prettyMembers, memberTokens, newLine] using ha.append_whole delimits_newLine hclose
  | cons m rest ih =>
    rw [List.forall_mem_cons] at hkeys h
    have hcomma := (lexesWhole_punctuation (c := ',') (t := .comma) fun _ => rfl).append
      (lexesWhole_newLine (depth + 1))
    have hmember := (ha.append_whole delimits_comma hcomma).append_lexes
      (lexes_member hkeys.1 (h.1 (depth + 1)))
    simpa [prettyMembers, memberTokens] using ih hmember hkeys.2 h.2

end Values

/-- The text of a plain value consists of its tokens. -/
theorem lexes_prettyAt {v : Json} (h : v.Plain) (depth : Nat) :
    Lexes (prettyAt depth v) (tokens v) := by
  induction h generalizing depth with
  | null => simpa [prettyAt, tokens] using lexes_null
  | bool b =>
    cases b with
    | false => simpa [prettyAt, tokens] using lexes_false
    | true => simpa [prettyAt, tokens] using lexes_true
  | int n => simpa [prettyAt, tokens] using lexes_decimal n
  | string text => simpa [prettyAt, tokens] using (lexesWhole_quote text).lexes
  | @array items _ ih =>
    cases items with
    | nil =>
      have hopen := lexesWhole_punctuation (c := '[') (t := .openArray) fun _ => rfl
      have hclose := lexesWhole_punctuation (c := ']') (t := .closeArray) fun _ => rfl
      simpa [prettyAt, tokens] using (hopen.append hclose).lexes
    | cons v rest =>
      rw [List.forall_mem_cons] at ih
      have hopen := (lexesWhole_punctuation (c := '[') (t := .openArray) fun _ => rfl).append
        (lexesWhole_newLine (depth + 1))
      have hfirst := hopen.append_lexes (ih.1 (depth + 1))
      simpa [prettyAt, tokens] using (lexesWhole_prettyItems depth hfirst ih.2).lexes
  | @object members hkeys _ ih =>
    cases members with
    | nil =>
      have hopen := lexesWhole_punctuation (c := '{') (t := .openObject) fun _ => rfl
      have hclose := lexesWhole_punctuation (c := '}') (t := .closeObject) fun _ => rfl
      simpa [prettyAt, tokens] using (hopen.append hclose).lexes
    | cons m rest =>
      rw [List.forall_mem_cons] at ih hkeys
      have hopen := (lexesWhole_punctuation (c := '{') (t := .openObject) fun _ => rfl).append
        (lexesWhole_newLine (depth + 1))
      have hfirst := hopen.append_lexes (lexes_member hkeys.1 (ih.1 (depth + 1)))
      simpa [prettyAt, tokens] using
        (lexesWhole_prettyMembers depth hfirst hkeys.2 ih.2).lexes

end CommandStream.Json
