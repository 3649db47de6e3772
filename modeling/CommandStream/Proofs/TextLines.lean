import Mathlib
import CommandStream.Text.Blank

/-! # Lines of a text

A text is cut behind every line feed. What is cut off at the front has the same lines by itself, and
the bytes in front of a line are those of the lines before it.
-/

namespace CommandStream.Text

variable {cs : List Char}

/-! ## Bytes -/

theorem byteLength_cons (c : Char) (cs : List Char) :
    byteLength (c :: cs) = c.utf8Size + byteLength cs := rfl

theorem byteLength_append (as bs : List Char) :
    byteLength (as ++ bs) = byteLength as + byteLength bs := by
  induction as with
  | nil => exact (Nat.zero_add _).symm
  | cons c as ih => rw [List.cons_append, byteLength_cons, ih, byteLength_cons, Nat.add_assoc]

theorem byteLength_pos (h : cs ≠ []) : 0 < byteLength cs := by
  obtain ⟨c, rest, rfl⟩ := List.exists_cons_of_ne_nil h
  exact Nat.add_pos_left c.utf8Size_pos _

theorem size_utf8Encode (cs : List Char) : cs.utf8Encode.size = byteLength cs := by
  induction cs with
  | nil => rfl
  | cons c cs ih =>
    rw [List.utf8Encode_cons, ByteArray.size_append, ih, byteLength_cons, List.utf8Encode_singleton]
    simp

theorem byteLength_toList (text : String) : byteLength text.toList = text.utf8ByteSize := by
  rw [← size_utf8Encode, ← String.toByteArray_ofList, String.ofList_toList]
  rfl

theorem extract_utf8Encode (front core back : List Char) :
    (front ++ core ++ back).utf8Encode.extract (byteLength front)
      (byteLength front + byteLength core) = core.utf8Encode := by
  rw [← size_utf8Encode, ← size_utf8Encode, List.append_assoc, List.utf8Encode_append,
    List.utf8Encode_append]
  exact (ByteArray.extract_append_size_add (i := 0)).trans (ByteArray.extract_append_eq_left rfl)

/-! ## Lines -/

theorem lines_newline (cs : List Char) : lines ('\n' :: cs) = ['\n'] :: lines cs := rfl

theorem lines_cons {c : Char} (h : c ≠ '\n') {line : List Char} {rest : List (List Char)}
    (hlines : lines cs = line :: rest) : lines (c :: cs) = (c :: line) :: rest := by
  unfold lines at hlines ⊢
  rw [List.foldr_cons, hlines]
  simp [h]

theorem lines_cons_nil {c : Char} (h : c ≠ '\n') (hlines : lines cs = []) :
    lines (c :: cs) = [[c]] := by
  unfold lines at hlines ⊢
  rw [List.foldr_cons, hlines]
  simp [h]

theorem flatten_lines (cs : List Char) : (lines cs).flatten = cs := by
  induction cs with
  | nil => rfl
  | cons c cs ih =>
    by_cases hc : c = '\n'
    · rw [hc, lines_newline, List.flatten_cons, ih]
      rfl
    · cases hlines : lines cs with
      | nil =>
        rw [hlines] at ih
        rw [lines_cons_nil hc hlines, ← ih]
        rfl
      | cons line rest =>
        rw [hlines] at ih
        rw [lines_cons hc hlines, ← ih]
        rfl

theorem lines_flatten_of_append {before after : List (List Char)}
    (h : lines cs = before ++ after) : lines before.flatten = before := by
  induction cs generalizing before with
  | nil =>
    obtain ⟨rfl, -⟩ := List.append_eq_nil_iff.mp h.symm
    rfl
  | cons c cs ih =>
    cases before with
    | nil => rfl
    | cons line before =>
      by_cases hc : c = '\n'
      · rw [hc, lines_newline, List.cons_append, List.cons.injEq] at h
        obtain ⟨rfl, hrest⟩ := h
        rw [List.flatten_cons, List.singleton_append, lines_newline, ih hrest]
      · cases hlines : lines cs with
        | nil =>
          rw [lines_cons_nil hc hlines, List.cons_append, List.cons.injEq] at h
          obtain ⟨rfl, hrest⟩ := h
          obtain ⟨rfl, -⟩ := List.append_eq_nil_iff.mp hrest.symm
          exact lines_cons_nil hc rfl
        | cons first rest =>
          rw [lines_cons hc hlines, List.cons_append, List.cons.injEq] at h
          obtain ⟨rfl, rfl⟩ := h
          have hcut : lines (first :: before).flatten = first :: before := ih hlines
          exact lines_cons hc hcut

/-- A line of a text: it starts at the beginning or behind a line feed, and its own line feed, if it
has one, is its end. -/
structure Line (cs front line back : List Char) : Prop where
  split : cs = front ++ line ++ back
  nonempty : line ≠ []
  starts : front = [] ∨ front.getLast? = some '\n'
  inner : '\n' ∉ line.dropLast
  ends : back = [] ∨ line.getLast? = some '\n'

theorem Line.newline (cs : List Char) : Line ('\n' :: cs) [] ['\n'] cs where
  split := rfl
  nonempty := by simp
  starts := .inl rfl
  inner := by simp
  ends := .inr rfl

theorem Line.single (c : Char) : Line [c] [] [c] [] where
  split := rfl
  nonempty := by simp
  starts := .inl rfl
  inner := by simp
  ends := .inl rfl

theorem Line.cons_front {front line back : List Char} (h : Line cs front line back) {c : Char}
    (hc : front = [] → c = '\n') : Line (c :: cs) (c :: front) line back where
  split := by rw [h.split]; rfl
  nonempty := h.nonempty
  starts := by
    right
    rcases h.starts with rfl | hlast
    · rw [hc rfl]; rfl
    · rw [List.getLast?_cons, hlast]; rfl
  inner := h.inner
  ends := h.ends

theorem Line.cons_line {line back : List Char} (h : Line cs [] line back) {c : Char}
    (hc : c ≠ '\n') : Line (c :: cs) [] (c :: line) back where
  split := by rw [h.split]; rfl
  nonempty := by simp
  starts := .inl rfl
  inner := by
    rw [List.dropLast_cons_of_ne_nil h.nonempty, List.mem_cons]
    rintro (rfl | hinner)
    · exact hc rfl
    · exact h.inner hinner
  ends := by
    rcases h.ends with hback | hlast
    · exact .inl hback
    · right
      rw [List.getLast?_cons, hlast]; rfl

theorem line_of_lines_eq {before after : List (List Char)} {line : List Char}
    (h : lines cs = before ++ line :: after) : Line cs before.flatten line after.flatten := by
  induction cs generalizing before line after with
  | nil => simp [lines] at h
  | cons c cs ih =>
    by_cases hc : c = '\n'
    · subst hc
      rw [lines_newline] at h
      cases before with
      | nil =>
        obtain ⟨rfl, rfl⟩ := List.cons.inj h
        rw [flatten_lines]
        exact .newline cs
      | cons first before =>
        obtain ⟨rfl, hrest⟩ := List.cons.inj h
        exact (ih hrest).cons_front fun _ => rfl
    · cases hlines : lines cs with
      | nil =>
        have hflat := flatten_lines cs
        rw [hlines] at hflat
        obtain rfl : cs = [] := hflat.symm
        rw [lines_cons_nil hc hlines, List.singleton_eq_append_iff] at h
        rcases h with ⟨rfl, h⟩ | ⟨-, h⟩
        · obtain ⟨rfl, rfl⟩ := List.cons.inj h
          exact .single c
        · cases h
      | cons first rest =>
        have hfirst : Line cs [] first rest.flatten :=
          ih (show lines cs = [] ++ first :: rest from hlines)
        rw [lines_cons hc hlines] at h
        cases before with
        | nil =>
          obtain ⟨rfl, rfl⟩ := List.cons.inj h
          exact hfirst.cons_line hc
        | cons _ before =>
          obtain ⟨rfl, rfl⟩ := List.cons.inj h
          have hline : Line cs (first :: before).flatten line after.flatten := ih hlines
          refine hline.cons_front fun hnil => absurd ?_ hfirst.nonempty
          exact (List.append_eq_nil_iff.mp hnil).1

/-! ## Cutting at a character -/

theorem head?_dropWhile_eq_false {p : Char → Bool} (cs : List Char) {c : Char}
    (h : (cs.dropWhile p).head? = some c) : p c = false := by
  have hstop := List.head?_dropWhile_not p cs
  rwa [h] at hstop

section Cutting

variable (c : Char)

theorem not_mem_takeWhile_ne (cs : List Char) : c ∉ cs.takeWhile (· ≠ c) := by
  intro hmem
  simpa using List.mem_takeWhile_imp hmem

theorem head?_dropWhile_ne {d : Char} (h : (cs.dropWhile (· ≠ c)).head? = some d) : d = c := by
  simpa using head?_dropWhile_eq_false cs h

theorem cut_append {front back : List Char} (hfront : c ∉ front)
    (hback : ∀ d, back.head? = some d → d = c) :
    (front ++ back).takeWhile (· ≠ c) = front ∧ (front ++ back).dropWhile (· ≠ c) = back := by
  have hall : ∀ d ∈ front, decide (d ≠ c) = true := by
    intro d hd
    exact decide_eq_true fun heq => hfront (heq ▸ hd)
  rw [List.takeWhile_append_of_pos hall, List.dropWhile_append_of_pos hall]
  cases back with
  | nil => simp
  | cons d back =>
    obtain rfl : d = c := hback d rfl
    simp

end Cutting

/-! ## Trimming -/

section Trimming

variable {p : Char → Bool}

structure Trims (p : Char → Bool) (cs lead core trail : List Char) : Prop where
  split : cs = lead ++ core ++ trail
  lead : ∀ c ∈ lead, p c = true
  trail : ∀ c ∈ trail, p c = true
  first : ∀ c, core.head? = some c → p c = false
  last : ∀ c, core.getLast? = some c → p c = false

theorem trims_trimWhile (p : Char → Bool) (cs : List Char) :
    ∃ trail, Trims p cs (cs.takeWhile p) (trimWhile p cs) trail := by
  set rest := cs.dropWhile p with hrest
  have hback : rest = trimWhile p cs ++ (rest.reverse.takeWhile p).reverse := by
    rw [trimWhile, ← hrest, ← List.reverse_append, List.takeWhile_append_dropWhile,
      List.reverse_reverse]
  refine ⟨(rest.reverse.takeWhile p).reverse, ?_, fun c hc => List.mem_takeWhile_imp hc, ?_, ?_, ?_⟩
  · rw [List.append_assoc, ← hback, hrest, List.takeWhile_append_dropWhile]
  · intro c hc
    exact List.mem_takeWhile_imp (List.mem_reverse.mp hc)
  · intro c hc
    apply head?_dropWhile_eq_false cs
    rw [← hrest, hback, List.head?_append, hc]
    rfl
  · intro c hc
    rw [trimWhile, List.getLast?_reverse] at hc
    exact head?_dropWhile_eq_false _ hc

theorem Trims.core_eq {lead core trail : List Char} (h : Trims p cs lead core trail) :
    core = trimWhile p cs := by
  rw [trimWhile, h.split, List.append_assoc, List.dropWhile_append_of_pos h.lead]
  cases core with
  | nil =>
    have htrail := List.dropWhile_eq_nil_iff.mpr h.trail
    simp [htrail]
  | cons c core =>
    have hfirst : ¬p c = true := by simp [h.first c rfl]
    rw [List.cons_append, List.dropWhile_cons_of_neg hfirst, ← List.cons_append,
      List.reverse_append, List.dropWhile_append_of_pos fun d hd => h.trail d (by simpa using hd)]
    obtain ⟨d, rest, hrev⟩ := List.exists_cons_of_ne_nil (l := (c :: core).reverse) (by simp)
    have hlast : ¬p d = true := by
      have := h.last d (by rw [← List.head?_reverse, hrev]; rfl)
      simp [this]
    rw [hrev, List.dropWhile_cons_of_neg hlast, ← hrev, List.reverse_reverse]

end Trimming

end CommandStream.Text
