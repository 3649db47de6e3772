import CommandStream.Proofs.Outcomes
import CommandStream.Proofs.SettingsValues
import CommandStream.Proofs.TextLines

/-! # Reading settings

A line is blank, a heading or an assignment. A text of such lines gives each key the value of its
last assignment in its section. Any other line, or an assignment that its section does not allow, is
reported with its place, the first of them only.
-/

namespace CommandStream.Settings

/-! ## What a line says -/

inductive Statement where
  | heading (sec : SettingsSection)
  | assignment (key value : String)
  deriving DecidableEq, Repr

inductive States : List Char → Statement → Prop
  | heading {inner : List Char} {sec : SettingsSection} (h : Text.trim inner = sec.name.toList) :
      States ('[' :: (inner ++ [']'])) (.heading sec)
  | assignment {left right : List Char} (hleft : '=' ∉ left)
      (hplain : ∀ inner, left ++ '=' :: right ≠ '[' :: (inner ++ [']'])) :
      States (left ++ '=' :: right) (.assignment (String.ofList (Text.trim left))
        (String.ofList (Text.trimWhile (· == '"') (Text.trim right))))

def statement? (text : List Char) : Option Statement :=
  match heading? text with
  | some name => (section? name).map .heading
  | none => (assignment? text).map fun a => .assignment a.1 a.2

theorem heading?_eq_some_iff {text name : List Char} :
    heading? text = some name ↔
      ∃ inner, text = '[' :: (inner ++ [']']) ∧ Text.trim inner = name := by
  unfold heading?
  constructor
  · intro h
    obtain ⟨hends, hname⟩ := Option.ite_none_right_eq_some.mp h
    rw [Bool.and_eq_true, decide_eq_true_eq, decide_eq_true_eq] at hends
    obtain ⟨hopen, hclose⟩ := hends
    obtain ⟨tail, rfl⟩ := List.head?_eq_some_iff.mp hopen
    rcases List.eq_nil_or_concat tail with rfl | ⟨inner, c, rfl⟩
    · simp at hclose
    · rw [List.concat_eq_append, ← List.cons_append, List.getLast?_concat] at hclose
      obtain rfl := Option.some.inj hclose
      exact ⟨inner, by simp, by simpa using hname⟩
  · rintro ⟨inner, rfl, rfl⟩
    rw [← List.cons_append, List.getLast?_concat]
    simp

theorem section?_eq_some_iff {name : List Char} {sec : SettingsSection} : section? name = some sec ↔
    name = sec.name.toList := by
  constructor
  · intro h
    have hname := List.find?_some h
    exact (beq_iff_eq.mp hname).symm
  · rintro rfl
    cases sec <;> rfl

theorem assignment?_eq_some_iff {text : List Char} {key value : String} :
    assignment? text = some (key, value) ↔ ∃ left right, text = left ++ '=' :: right ∧
      '=' ∉ left ∧ String.ofList (Text.trim left) = key ∧
      String.ofList (Text.trimWhile (· == '"') (Text.trim right)) = value := by
  unfold assignment?
  constructor
  · intro h
    obtain ⟨hsome, hparts⟩ := Option.ite_none_left_eq_some.mp h
    obtain ⟨rfl, rfl⟩ := Prod.mk.inj (Option.some.inj hparts)
    cases hvalue : text.dropWhile (· ≠ '=') with
    | nil =>
      rw [hvalue] at hsome
      exact absurd rfl hsome
    | cons c right =>
      obtain rfl : c = '=' := Text.head?_dropWhile_ne '=' (congrArg List.head? hvalue)
      refine ⟨text.takeWhile (· ≠ '='), right, ?_, Text.not_mem_takeWhile_ne '=' text, rfl, rfl⟩
      rw [← hvalue, List.takeWhile_append_dropWhile]
  · rintro ⟨left, right, rfl, hleft, rfl, rfl⟩
    have hright (c : Char) : ('=' :: right).head? = some c → c = '=' := by simp [eq_comm]
    obtain ⟨htake, hdrop⟩ := Text.cut_append '=' hleft hright
    rw [htake, hdrop]
    rfl

theorem states_iff {text : List Char} {st : Statement} :
    States text st ↔ statement? text = some st := by
  unfold statement?
  constructor
  · rintro (@⟨inner, sec, h⟩ | @⟨left, right, hleft, hplain⟩)
    · rw [heading?_eq_some_iff.mpr ⟨inner, rfl, rfl⟩]
      exact congrArg (Option.map Statement.heading) (section?_eq_some_iff.mpr h)
    · have hheading : heading? (left ++ '=' :: right) = none := by
        by_contra hsome
        obtain ⟨name, hname⟩ := Option.ne_none_iff_exists'.mp hsome
        obtain ⟨inner, htext, -⟩ := heading?_eq_some_iff.mp hname
        exact hplain inner htext
      have hassign := assignment?_eq_some_iff.mpr ⟨left, right, rfl, hleft, rfl, rfl⟩
      rw [hheading, hassign]
      rfl
  · intro h
    split at h
    · rename_i name hname
      obtain ⟨inner, rfl, rfl⟩ := heading?_eq_some_iff.mp hname
      obtain ⟨sec, hsec, rfl⟩ := Option.map_eq_some_iff.mp h
      exact .heading (section?_eq_some_iff.mp hsec)
    · rename_i hnone
      obtain ⟨⟨key, value⟩, hassign, rfl⟩ := Option.map_eq_some_iff.mp h
      obtain ⟨left, right, rfl, hleft, rfl, rfl⟩ := assignment?_eq_some_iff.mp hassign
      refine .assignment hleft fun inner hinner => ?_
      rw [heading?_eq_some_iff.mpr ⟨inner, hinner, rfl⟩] at hnone
      cases hnone

/-- The part of a line in front of its comment, without the blanks around it. `lead` are the blanks
in front. -/
def SignificantPart (line lead core : List Char) : Prop :=
  ∃ body comment trail, line = body ++ comment ∧ '#' ∉ body ∧
    (∀ c, comment.head? = some c → c = '#') ∧ Text.Trims Text.isBlank body lead core trail

def coreOf (line : List Char) : List Char := Text.trim (line.takeWhile (· ≠ '#'))

def leadOf (line : List Char) : List Char := (line.takeWhile (· ≠ '#')).takeWhile Text.isBlank

theorem significant_eq (offset : Nat) (line : List Char) :
    significant offset line = (coreOf line,
      .ofLength (offset + Text.byteLength (leadOf line)) (Text.byteLength (coreOf line))) := rfl

theorem significantPart_coreOf (line : List Char) :
    SignificantPart line (leadOf line) (coreOf line) := by
  obtain ⟨trail, htrims⟩ := Text.trims_trimWhile Text.isBlank (line.takeWhile (· ≠ '#'))
  exact ⟨_, _, trail, List.takeWhile_append_dropWhile.symm, Text.not_mem_takeWhile_ne '#' line,
    fun _ => Text.head?_dropWhile_ne '#', htrims⟩

theorem SignificantPart.core_eq {line lead core : List Char} (h : SignificantPart line lead core) :
    core = coreOf line := by
  obtain ⟨body, comment, trail, rfl, hbody, hcomment, htrims⟩ := h
  rw [coreOf, (Text.cut_append '#' hbody hcomment).1]
  exact htrims.core_eq

def IsBlank (line : List Char) : Prop := ∃ lead, SignificantPart line lead []

theorem isBlank_iff {line : List Char} : IsBlank line ↔ coreOf line = [] := by
  constructor
  · rintro ⟨lead, h⟩
    exact h.core_eq.symm
  · intro h
    exact ⟨_, h ▸ significantPart_coreOf line⟩

def LineStates (line : List Char) (st : Statement) : Prop :=
  ∃ lead core, SignificantPart line lead core ∧ States core st

theorem lineStates_iff {line : List Char} {st : Statement} :
    LineStates line st ↔ statement? (coreOf line) = some st := by
  constructor
  · rintro ⟨lead, core, hcore, hst⟩
    rw [← hcore.core_eq]
    exact states_iff.mp hst
  · intro h
    exact ⟨_, _, significantPart_coreOf line, states_iff.mpr h⟩

theorem LineStates.unique {line : List Char} {st st' : Statement} (h : LineStates line st)
    (h' : LineStates line st') : st = st' :=
  Option.some.inj ((lineStates_iff.mp h).symm.trans (lineStates_iff.mp h'))

/-! ## What the lines of a text say together -/

section Lines

variable {lines : List (List Char)} {line : List Char} {sec sec' : SettingsSection}
  {key value : String}

def InSection (lines : List (List Char)) (sec : SettingsSection) : Prop :=
  ∃ (i : Nat) (line : List Char), lines[i]? = some line ∧ LineStates line (.heading sec) ∧
    ∀ j > i, ∀ later sec', lines[j]? = some later → ¬LineStates later (.heading sec')

def AssignsAt (lines : List (List Char)) (i : Nat) (sec : SettingsSection) (key value : String) :
    Prop :=
  ∃ line, lines[i]? = some line ∧ InSection (lines.take i) sec ∧
    LineStates line (.assignment key value)

def LastAssigned (lines : List (List Char)) (sec : SettingsSection) (key value : String) : Prop :=
  ∃ i, AssignsAt lines i sec key value ∧ ∀ j > i, ∀ v, ¬AssignsAt lines j sec key v

def Unassigned (lines : List (List Char)) (sec : SettingsSection) (key : String) : Prop :=
  ∀ i v, ¬AssignsAt lines i sec key v

/-- Every entry is the value of its last assignment, or the default. -/
def Holds (lines : List (List Char)) (s : Settings) : Prop :=
  ∀ sec key, (∀ value, LastAssigned lines sec key value →
      s.value? sec key = readValue sec key value) ∧
    (Unassigned lines sec key → s.value? sec key = ({} : Settings).value? sec key)

/-- The line may stand behind the lines: it is blank, a heading, or an assignment of a value that
the key takes in the section. -/
def Acceptable (lines : List (List Char)) (line : List Char) : Prop :=
  IsBlank line ∨ (∃ sec, LineStates line (.heading sec)) ∨
    ∃ sec key value v, InSection lines sec ∧ LineStates line (.assignment key value) ∧
      readValue sec key value = some v

def Readable (lines : List (List Char)) : Prop :=
  ∀ (i : Nat) (line : List Char), lines[i]? = some line → Acceptable (lines.take i) line

theorem getElem?_concat_eq_some_iff {i : Nat} {l : List Char} :
    (lines ++ [line])[i]? = some l ↔ lines[i]? = some l ∨ i = lines.length ∧ l = line := by
  rcases Nat.lt_trichotomy i lines.length with hlt | rfl | hgt
  · rw [List.getElem?_append_left hlt]
    simp [Nat.ne_of_lt hlt]
  · simp [eq_comm]
  · simp [hgt, Nat.ne_of_gt hgt, hgt.le]

theorem lt_length_of_getElem? {i : Nat} {l : List Char} (h : lines[i]? = some l) :
    i < lines.length := (List.getElem?_eq_some_iff.mp h).1

theorem take_concat_of_lt {i : Nat} (h : i < lines.length) :
    (lines ++ [line]).take i = lines.take i := List.take_append_of_le_length h.le

theorem readable_concat_iff :
    Readable (lines ++ [line]) ↔ Readable lines ∧ Acceptable lines line := by
  unfold Readable
  simp only [getElem?_concat_eq_some_iff]
  constructor
  · intro h
    refine ⟨fun i l hl => ?_, ?_⟩
    · rw [← take_concat_of_lt (lt_length_of_getElem? hl)]
      exact h i l (.inl hl)
    · simpa using h lines.length line (.inr ⟨rfl, rfl⟩)
  · rintro ⟨hlines, hline⟩ i l (hl | ⟨rfl, rfl⟩)
    · rw [take_concat_of_lt (lt_length_of_getElem? hl)]
      exact hlines i l hl
    · simpa using hline

theorem inSection_concat_iff : InSection (lines ++ [line]) sec ↔
    LineStates line (.heading sec) ∨
      (∀ sec', ¬LineStates line (.heading sec')) ∧ InSection lines sec := by
  unfold InSection
  simp only [getElem?_concat_eq_some_iff]
  constructor
  · rintro ⟨i, l, hl | ⟨rfl, rfl⟩, hheading, hlast⟩
    · refine .inr ⟨fun sec' => ?_, i, l, hl, hheading, fun j hj later sec' hlater => ?_⟩
      · exact hlast lines.length (lt_length_of_getElem? hl) line sec' (.inr ⟨rfl, rfl⟩)
      · exact hlast j hj later sec' (.inl hlater)
    · exact .inl hheading
  · rintro (hheading | ⟨hnone, i, l, hl, hheading, hlast⟩)
    · refine ⟨lines.length, line, .inr ⟨rfl, rfl⟩, hheading, ?_⟩
      rintro j hj later sec' (hlater | ⟨rfl, -⟩)
      · exact absurd (lt_length_of_getElem? hlater) (Nat.not_lt.mpr hj.le)
      · exact absurd hj (Nat.lt_irrefl _)
    · refine ⟨i, l, .inl hl, hheading, ?_⟩
      rintro j hj later sec' (hlater | ⟨-, rfl⟩)
      · exact hlast j hj later sec' hlater
      · exact hnone sec'

theorem InSection.unique (h : InSection lines sec) (h' : InSection lines sec') : sec = sec' := by
  obtain ⟨i, l, hl, hheading, hlast⟩ := h
  obtain ⟨j, l', hl', hheading', hlast'⟩ := h'
  rcases Nat.lt_trichotomy i j with hlt | rfl | hgt
  · exact absurd hheading' (hlast j hlt l' sec' hl')
  · obtain rfl := Option.some.inj (hl.symm.trans hl')
    exact Statement.heading.inj (hheading.unique hheading')
  · exact absurd hheading (hlast' i hgt l sec hl)

theorem assignsAt_concat_iff {i : Nat} : AssignsAt (lines ++ [line]) i sec key value ↔
    AssignsAt lines i sec key value ∨
      i = lines.length ∧ InSection lines sec ∧ LineStates line (.assignment key value) := by
  unfold AssignsAt
  simp only [getElem?_concat_eq_some_iff]
  constructor
  · rintro ⟨l, hl | ⟨rfl, rfl⟩, hsec, hassign⟩
    · rw [take_concat_of_lt (lt_length_of_getElem? hl)] at hsec
      exact .inl ⟨l, hl, hsec, hassign⟩
    · exact .inr ⟨rfl, by simpa using hsec, hassign⟩
  · rintro (⟨l, hl, hsec, hassign⟩ | ⟨rfl, hsec, hassign⟩)
    · rw [← take_concat_of_lt (lt_length_of_getElem? hl)] at hsec
      exact ⟨l, .inl hl, hsec, hassign⟩
    · exact ⟨line, .inr ⟨rfl, rfl⟩, by simpa using hsec, hassign⟩

theorem AssignsAt.lt_length {i : Nat} (h : AssignsAt lines i sec key value) : i < lines.length := by
  obtain ⟨l, hl, -⟩ := h
  exact lt_length_of_getElem? hl

theorem lastAssigned_concat_of_assigns (hsec : InSection lines sec)
    (hassign : LineStates line (.assignment key value)) {v : String} :
    LastAssigned (lines ++ [line]) sec key v ↔ v = value := by
  have hat : AssignsAt (lines ++ [line]) lines.length sec key value :=
    assignsAt_concat_iff.mpr (.inr ⟨rfl, hsec, hassign⟩)
  constructor
  · rintro ⟨i, hi, hlast⟩
    rcases assignsAt_concat_iff.mp hi with hi | ⟨-, -, hv⟩
    · exact absurd hat (hlast _ hi.lt_length value)
    · exact (Statement.assignment.inj (hv.unique hassign)).2
  · rintro rfl
    refine ⟨lines.length, hat, fun j hj v hv => ?_⟩
    have := hv.lt_length
    rw [List.length_append, List.length_singleton] at this
    omega

theorem assignsAt_concat_of_not {i : Nat}
    (h : ∀ v, ¬(InSection lines sec ∧ LineStates line (.assignment key v))) :
    AssignsAt (lines ++ [line]) i sec key value ↔ AssignsAt lines i sec key value := by
  rw [assignsAt_concat_iff]
  exact or_iff_left fun hline => h value hline.2

theorem lastAssigned_or_unassigned (lines : List (List Char)) (sec : SettingsSection)
    (key : String) : (∃ value, LastAssigned lines sec key value) ∨ Unassigned lines sec key := by
  induction lines using List.reverseRecOn with
  | nil =>
    right
    rintro i v ⟨l, hl, -⟩
    cases hl
  | append_singleton lines line ih =>
    by_cases hline : ∃ v, InSection lines sec ∧ LineStates line (.assignment key v)
    · obtain ⟨v, hsec, hassign⟩ := hline
      exact .inl ⟨v, (lastAssigned_concat_of_assigns hsec hassign).mpr rfl⟩
    · rw [not_exists] at hline
      unfold LastAssigned Unassigned at *
      simpa only [assignsAt_concat_of_not hline] using ih

theorem Holds.unique {s t : Settings} (hs : Holds lines s) (ht : Holds lines t) : s = t := by
  have hvalue (sec : SettingsSection) (key : String) : s.value? sec key = t.value? sec key := by
    rcases lastAssigned_or_unassigned lines sec key with ⟨value, hlast⟩ | hnone
    · rw [(hs sec key).1 value hlast, (ht sec key).1 value hlast]
    · rw [(hs sec key).2 hnone, (ht sec key).2 hnone]
  obtain ⟨hardware, pipeline⟩ := s
  obtain ⟨hardware', pipeline'⟩ := t
  obtain rfl : hardware = hardware' := Hardware.eq_of_value?_eq (hvalue .hardware)
  obtain rfl : pipeline = pipeline' := Pipeline.eq_of_value?_eq (hvalue .pipeline)
  rfl

theorem Holds.concat_of_not {s : Settings} (h : Holds lines s)
    (hline : ∀ sec key v, ¬(InSection lines sec ∧ LineStates line (.assignment key v))) :
    Holds (lines ++ [line]) s := by
  intro sec key
  unfold LastAssigned Unassigned
  simp only [assignsAt_concat_of_not (hline sec key)]
  exact h sec key

theorem Holds.concat_of_assigns {s s' : Settings} (h : Holds lines s) (hsec : InSection lines sec)
    (hassign : LineStates line (.assignment key value)) {v : SettingsValue}
    (hread : readValue sec key value = some v)
    (hentry : s'.value? sec = Function.update (s.value? sec) key (some v))
    (hother : ∀ other, other ≠ sec → s'.value? other = s.value? other) :
    Holds (lines ++ [line]) s' := by
  intro other k
  by_cases hsame : other = sec ∧ k = key
  · obtain ⟨rfl, rfl⟩ := hsame
    have hvalue : s'.value? other k = some v := by rw [hentry, Function.update_self]
    refine ⟨fun value' hlast => ?_, fun hnone => ?_⟩
    · rw [(lastAssigned_concat_of_assigns hsec hassign).mp hlast, hread, hvalue]
    · exact absurd (assignsAt_concat_iff.mpr (.inr ⟨rfl, hsec, hassign⟩)) (hnone _ _)
  · have hnot (v : String) : ¬(InSection lines other ∧ LineStates line (.assignment k v)) := by
      rintro ⟨hother, hv⟩
      exact hsame ⟨hother.unique hsec, (Statement.assignment.inj (hv.unique hassign)).1⟩
    have hvalue : s'.value? other k = s.value? other k := by
      by_cases heq : other = sec
      · have hk : k ≠ key := fun hk => hsame ⟨heq, hk⟩
        rw [heq, hentry, Function.update_of_ne hk]
      · rw [hother other heq]
    unfold LastAssigned Unassigned
    simp only [assignsAt_concat_of_not hnot, hvalue]
    exact h other k

end Lines

/-! ## Reading line by line -/

section Reading

variable {lines : List (List Char)} {line : List Char} {p : Progress}

/-- Where the reader stands behind lines that it has read. -/
structure Reached (lines : List (List Char)) (p : Progress) : Prop where
  readable : Readable lines
  offset : p.offset = Text.byteLength lines.flatten
  sec : ∀ sec, p.sec = some sec ↔ InSection lines sec
  holds : Holds lines p.settings

theorem Reached.start : Reached [] {} where
  readable := by rintro i line ⟨⟩
  offset := rfl
  sec := by
    intro sec
    constructor
    · rintro ⟨⟩
    · rintro ⟨i, l, ⟨⟩, -⟩
  holds := by
    intro sec key
    refine ⟨?_, fun _ => rfl⟩
    rintro value ⟨i, ⟨l, ⟨⟩, -⟩, -⟩

theorem readText_heading {text : List Char} {sec : SettingsSection}
    (h : statement? text = some (.heading sec)) :
    p.readText text = .ok { p with sec := some sec } := by
  unfold statement? at h
  split at h
  · rename_i name hname
    obtain ⟨_, hsec, hheading⟩ := Option.map_eq_some_iff.mp h
    rw [Statement.heading.inj hheading] at hsec
    simp only [Progress.readText, hname, hsec]
  · obtain ⟨_, -, hheading⟩ := Option.map_eq_some_iff.mp h
    cases hheading

theorem readText_none {text : List Char} (h : statement? text = none) :
    ∃ problem, p.readText text = .error problem := by
  unfold statement? at h
  split at h
  · rename_i name hname
    have hsec := Option.map_eq_none_iff.mp h
    exact ⟨.unknownSection (String.ofList name), by simp only [Progress.readText, hname, hsec]⟩
  · rename_i hname
    have hassign := Option.map_eq_none_iff.mp h
    exact ⟨.notAssignment, by simp only [Progress.readText, hname, hassign]⟩

theorem parts_of_statement? {text : List Char} {key value : String}
    (h : statement? text = some (.assignment key value)) :
    heading? text = none ∧ assignment? text = some (key, value) := by
  unfold statement? at h
  split at h
  · obtain ⟨_, -, hheading⟩ := Option.map_eq_some_iff.mp h
    cases hheading
  · rename_i hname
    obtain ⟨_, hassign, hparts⟩ := Option.map_eq_some_iff.mp h
    obtain ⟨rfl, rfl⟩ := Statement.assignment.inj hparts
    exact ⟨hname, hassign⟩

theorem readText_outside {text : List Char} {key value : String}
    (h : statement? text = some (.assignment key value)) (hsec : p.sec = none) :
    ∃ problem, p.readText text = .error problem := by
  obtain ⟨hname, hassign⟩ := parts_of_statement? h
  exact ⟨.outsideSection key, by simp only [Progress.readText, hname, hassign, hsec]⟩

def AssignsIn (p : Progress) (sec : SettingsSection) (key value : String)
    (result : Except LineProblem Progress) : Prop :=
  (∃ v next, readValue sec key value = some v ∧ result = .ok next ∧ next.sec = p.sec ∧
    next.settings.value? sec = Function.update (p.settings.value? sec) key (some v) ∧
    ∀ other, other ≠ sec → next.settings.value? other = p.settings.value? other) ∨
  readValue sec key value = none ∧ ∃ problem, result = .error problem

theorem Assigns.assignsIn {σ : Type} {entries : σ → String → Option SettingsValue}
    {sec : SettingsSection} {key value : String} {part : σ} {result : Except LineProblem σ}
    (h : Assigns entries sec key value part result) {put : σ → Settings}
    (hpart : p.settings.value? sec = entries part)
    (hput : ∀ part', (put part').value? sec = entries part')
    (hother : ∀ part' other, other ≠ sec → (put part').value? other = p.settings.value? other) :
    AssignsIn p sec key value (do
      let part' ← result
      return { p with settings := put part' }) := by
  rcases h with ⟨v, part', hvalue, rfl, hentries⟩ | ⟨hvalue, problem, rfl⟩
  · refine .inl ⟨v, { p with settings := put part' }, hvalue, rfl, rfl, ?_, hother part'⟩
    rw [hpart, ← hentries]
    exact hput part'
  · exact .inr ⟨hvalue, problem, rfl⟩

theorem readText_assignment {text : List Char} {key value : String} {sec : SettingsSection}
    (h : statement? text = some (.assignment key value)) (hsec : p.sec = some sec) :
    AssignsIn p sec key value (p.readText text) := by
  obtain ⟨hname, hassign⟩ := parts_of_statement? h
  cases sec with
  | hardware =>
    have hread : p.readText text = do
        let hardware ← assignHardware p.settings.hardware key value
        return { p with settings := { p.settings with hardware } } := by
      simp only [Progress.readText, hname, hassign, hsec]
    rw [hread]
    refine (assigns_assignHardware p.settings.hardware key value).assignsIn rfl (fun _ => rfl) ?_
    rintro _ (_ | _) hother
    · exact absurd rfl hother
    · rfl
  | pipeline =>
    have hread : p.readText text = do
        let pipeline ← assignPipeline p.settings.pipeline key value
        return { p with settings := { p.settings with pipeline } } := by
      simp only [Progress.readText, hname, hassign, hsec]
    rw [hread]
    refine (assigns_assignPipeline p.settings.pipeline key value).assignsIn rfl (fun _ => rfl) ?_
    rintro _ (_ | _) hother
    · rfl
    · exact absurd rfl hother

theorem readText_cases (h : Reached lines p) (hne : coreOf line ≠ []) :
    (Acceptable lines line ∧ ∃ next, p.readText (coreOf line) = .ok next ∧
      (∀ sec, next.sec = some sec ↔ InSection (lines ++ [line]) sec) ∧
      Holds (lines ++ [line]) next.settings) ∨
    ¬Acceptable lines line ∧ ∃ problem, p.readText (coreOf line) = .error problem := by
  have hblank : ¬IsBlank line := fun hblank => hne (isBlank_iff.mp hblank)
  cases hst : statement? (coreOf line) with
  | none =>
    have hsilent (st : Statement) : ¬LineStates line st := by
      rw [lineStates_iff, hst]
      simp
    refine .inr ⟨?_, readText_none hst⟩
    rintro (hline | ⟨sec, hline⟩ | ⟨sec, key, value, v, -, hline, -⟩)
    · exact hblank hline
    · exact hsilent _ hline
    · exact hsilent _ hline
  | some st =>
    have hline : LineStates line st := lineStates_iff.mpr hst
    cases st with
    | heading sec =>
      refine .inl ⟨.inr (.inl ⟨sec, hline⟩), _, readText_heading hst, fun other => ?_, ?_⟩
      · rw [inSection_concat_iff]
        constructor
        · rintro hsec
          obtain rfl := Option.some.inj hsec
          exact .inl hline
        · rintro (hheading | ⟨hnone, -⟩)
          · rw [Statement.heading.inj (hline.unique hheading)]
          · exact absurd hline (hnone sec)
      · apply h.holds.concat_of_not
        rintro other key v ⟨-, hassign⟩
        cases hline.unique hassign
    | assignment key value =>
      have hheading (sec : SettingsSection) : ¬LineStates line (.heading sec) := by
        intro hheading
        cases hline.unique hheading
      cases hsec : p.sec with
      | none =>
        refine .inr ⟨?_, readText_outside hst hsec⟩
        rintro (hblank' | ⟨other, hother⟩ | ⟨other, key', value', v, hin, -⟩)
        · exact hblank hblank'
        · exact hheading other hother
        · rw [← h.sec, hsec] at hin
          cases hin
      | some sec =>
        have hin := (h.sec sec).mp hsec
        rcases readText_assignment hst hsec with
          ⟨v, next, hread, hnext, hkeeps, hentry, hother⟩ | ⟨hread, hproblem⟩
        · refine .inl ⟨.inr (.inr ⟨sec, key, value, v, hin, hline, hread⟩), next, hnext, ?_,
            h.holds.concat_of_assigns hin hline hread hentry hother⟩
          intro other
          rw [hkeeps, h.sec, inSection_concat_iff]
          simp [hheading]
        · refine .inr ⟨?_, hproblem⟩
          rintro (hblank' | ⟨other, hother⟩ | ⟨other, key', value', v, hin', hline', hread'⟩)
          · exact hblank hblank'
          · exact hheading other hother
          · obtain ⟨rfl, rfl⟩ := Statement.assignment.inj (hline.unique hline')
            rw [hin'.unique hin, hread] at hread'
            cases hread'

theorem readLine_of_blank (hcore : coreOf line = []) :
    p.readLine line = .ok { p with offset := p.offset + Text.byteLength line } := by
  unfold Progress.readLine
  rw [significant_eq]
  exact if_pos (by simp [hcore])

theorem readLine_of_ne_nil (hcore : coreOf line ≠ []) :
    p.readLine line = do
      let next ← (p.readText (coreOf line)).mapError (.line (.ofLength
        (p.offset + Text.byteLength (leadOf line)) (Text.byteLength (coreOf line))))
      return { next with offset := p.offset + Text.byteLength line } := by
  unfold Progress.readLine
  rw [significant_eq]
  exact if_neg (by simpa using hcore)

theorem readLine_cases (h : Reached lines p) (line : List Char) :
    (Acceptable lines line ∧ ∃ next, p.readLine line = .ok next ∧ Reached (lines ++ [line]) next) ∨
    ¬Acceptable lines line ∧ ∃ problem, p.readLine line = .error
      (.line (.ofLength (Text.byteLength (lines.flatten ++ leadOf line))
        (Text.byteLength (coreOf line))) problem) := by
  have hoffset : p.offset + Text.byteLength line = Text.byteLength (lines ++ [line]).flatten := by
    rw [h.offset, List.flatten_append, Text.byteLength_append, List.flatten_singleton]
  by_cases hcore : coreOf line = []
  · have hline : Acceptable lines line := .inl (isBlank_iff.mpr hcore)
    have hsilent (st : Statement) : ¬LineStates line st := by
      rw [lineStates_iff, hcore]
      simp [statement?, heading?, assignment?]
    refine .inl ⟨hline, _, readLine_of_blank hcore, ?_, hoffset, ?_, ?_⟩
    · exact readable_concat_iff.mpr ⟨h.readable, hline⟩
    · intro sec
      rw [inSection_concat_iff, ← h.sec]
      simp [hsilent]
    · exact h.holds.concat_of_not fun sec key v hassign => hsilent _ hassign.2
  · rw [readLine_of_ne_nil hcore, h.offset, ← Text.byteLength_append]
    rcases readText_cases h hcore with
      ⟨hline, next, hnext, hsec, hholds⟩ | ⟨hline, problem, hproblem⟩
    · rw [hnext]
      refine .inl ⟨hline, _, rfl, ?_, h.offset ▸ hoffset, hsec, hholds⟩
      exact readable_concat_iff.mpr ⟨h.readable, hline⟩
    · rw [hproblem]
      exact .inr ⟨hline, problem, rfl⟩

/-- All lines are read, or those in front of the first one that is not acceptable. -/
theorem foldlM_readLine_cases (lines : List (List Char)) :
    (∃ p, lines.foldlM Progress.readLine {} = .ok p ∧ Reached lines p) ∨
    ∃ before line after problem, lines = before ++ line :: after ∧
      (∃ p, before.foldlM Progress.readLine {} = .ok p ∧ Reached before p) ∧
      ¬Acceptable before line ∧ lines.foldlM Progress.readLine {} = .error
        (.line (.ofLength (Text.byteLength (before.flatten ++ leadOf line))
          (Text.byteLength (coreOf line))) problem) := by
  induction lines using List.reverseRecOn with
  | nil => exact .inl ⟨{}, rfl, .start⟩
  | append_singleton lines line ih =>
    rw [List.foldlM_append]
    rcases ih with ⟨p, hp, hreached⟩ | ⟨before, bad, after, problem, rfl, hbefore, hbad, hproblem⟩
    · rw [hp]
      rcases readLine_cases hreached line with
        ⟨-, next, hnext, hreached'⟩ | ⟨hline, problem, hproblem⟩
      · exact .inl ⟨next, by simpa using hnext, hreached'⟩
      · exact .inr ⟨lines, line, [], problem, rfl, ⟨p, hp, hreached⟩, hline,
          by simpa using hproblem⟩
    · rw [hproblem]
      exact .inr ⟨before, bad, after ++ [line], problem, by simp, hbefore, hbad, rfl⟩

end Reading

/-! ## Texts -/

structure InBounds (s : Settings) : Prop where
  clusters : 1 ≤ s.hardware.clusters.toNat ∧ s.hardware.clusters.toNat ≤ 32
  units : 1 ≤ s.hardware.units.toNat ∧ s.hardware.units.toNat ≤ 32
  lanes : 1 ≤ s.hardware.lanes.toNat
  minLoopLen : 2 ≤ s.pipeline.minLoopLen

theorem valueProblem?_eq_none_iff {s : Settings} : valueProblem? s = none ↔ s.InBounds := by
  have hengines (n : UInt32) : ¬(n = 0 || 32 < n) = true ↔ 1 ≤ n.toNat ∧ n.toNat ≤ 32 := by
    simp [← UInt32.toNat_inj, UInt32.lt_iff_toNat_lt]
    omega
  have hlanes : ¬s.hardware.lanes = 0 ↔ 1 ≤ s.hardware.lanes.toNat := by
    simp [← UInt32.toNat_inj]
    omega
  have hcheck (c : Prop) [Decidable c] (problem : ValueProblem) (rest : Option ValueProblem) :
      (if c then some problem else rest) = none ↔ ¬c ∧ rest = none := by
    split <;> simp [*]
  unfold valueProblem?
  rw [hcheck, hcheck, hcheck, hcheck, hengines, hengines, hlanes, Nat.not_lt]
  constructor
  · rintro ⟨hclusters, hunits, hlanes, hlen, -⟩
    exact ⟨hclusters, hunits, hlanes, hlen⟩
  · rintro ⟨hclusters, hunits, hlanes, hlen⟩
    exact ⟨hclusters, hunits, hlanes, hlen, rfl⟩

theorem ofText_eq_of_reached {text : String} {p : Progress}
    (h : (Text.lines text.toList).foldlM Progress.readLine {} = .ok p) :
    p.settings.InBounds ∧ ofText text = .ok p.settings ∨
      ¬p.settings.InBounds ∧ ∃ problem, ofText text = .error (.values problem) := by
  unfold ofText
  rw [h, ← valueProblem?_eq_none_iff]
  cases hvalues : valueProblem? p.settings with
  | none => exact .inl ⟨rfl, by simp [hvalues]⟩
  | some problem => exact .inr ⟨by simp, problem, by simp [hvalues]; rfl⟩

theorem ofText_eq_of_refused {text : String} {problem : SettingsProblem}
    (h : (Text.lines text.toList).foldlM Progress.readLine {} = .error problem) :
    ofText text = .error problem := by
  unfold ofText
  rw [h]
  rfl

theorem span_values (problem : ValueProblem) : (SettingsProblem.values problem).span = .nowhere :=
  rfl

theorem span_line {front core back : List Char} (problem : LineProblem)
    (h : Text.byteLength (front ++ core ++ back) < 2 ^ 32) :
    (SettingsProblem.line (.ofLength (Text.byteLength front) (Text.byteLength core)) problem).span =
      ⟨Text.byteLength front, Text.byteLength front + Text.byteLength core⟩ := by
  rw [Text.byteLength_append, Text.byteLength_append] at h
  have hstop : Text.byteLength front + Text.byteLength core < UInt32.size := by
    rw [UInt32.size]
    omega
  have hstart := (Nat.le_add_right _ _).trans_lt hstop
  change Span.ofLength _ _ = _
  rw [Span.ofLength, Nat.mod_eq_of_lt hstart, Nat.mod_eq_of_lt hstop]

/-- The span has the significant part of a line. The lines `before` it can be read, and it cannot
stand behind them. -/
structure Blames (text : String) (span : Span) (before : List (List Char)) (line : List Char)
    (after : List (List Char)) : Prop where
  lines_eq : Text.lines text.toList = before ++ line :: after
  isLine : Text.Line text.toList before.flatten line after.flatten
  readable : Readable before
  refused : ¬Acceptable before line
  nonempty : span.start < span.stop
  covers : ∃ lead core, SignificantPart line lead core ∧
    span.start = (before.flatten ++ lead).utf8Encode.size ∧
    span.stop = span.start + core.utf8Encode.size ∧
    text.toByteArray.extract span.start span.stop = core.utf8Encode

theorem blames_of_refused {text : String} (hsize : text.utf8ByteSize < 2 ^ 32)
    {before after : List (List Char)} {line : List Char}
    (hlines : Text.lines text.toList = before ++ line :: after) (hbefore : Readable before)
    (hline : ¬Acceptable before line) (problem : LineProblem) :
    Blames text (SettingsProblem.line (.ofLength (Text.byteLength (before.flatten ++ leadOf line))
      (Text.byteLength (coreOf line))) problem).span before line after := by
  have hisLine := Text.line_of_lines_eq hlines
  have hpart := significantPart_coreOf line
  have hcore : coreOf line ≠ [] := fun hcore => hline (.inl (isBlank_iff.mpr hcore))
  obtain ⟨body, comment, trail, hbody, -, -, htrims⟩ := id hpart
  have htext : text.toList =
      before.flatten ++ leadOf line ++ coreOf line ++ (trail ++ comment ++ after.flatten) := by
    have hparts : line = leadOf line ++ coreOf line ++ trail ++ comment := htrims.split ▸ hbody
    rw [hisLine.split]
    nth_rewrite 1 [hparts]
    simp only [List.append_assoc]
  have hspan := span_line problem (htext ▸ (Text.byteLength_toList text).symm ▸ hsize)
  have hbytes : text.toByteArray = text.toList.utf8Encode := by
    rw [← String.toByteArray_ofList, String.ofList_toList]
  rw [hspan]
  refine ⟨hlines, hisLine, hbefore, hline, ?_, _, _, hpart, ?_, ?_, ?_⟩
  · exact Nat.lt_add_of_pos_right (Text.byteLength_pos hcore)
  · rw [Text.size_utf8Encode]
  · rw [Text.size_utf8Encode]
  · rw [hbytes, htext]
    exact Text.extract_utf8Encode _ _ _

theorem ofText_eq_ok_iff (text : String) (s : Settings) :
    ofText text = .ok s ↔ Readable (Text.lines text.toList) ∧
      Holds (Text.lines text.toList) s ∧ s.InBounds := by
  rcases foldlM_readLine_cases (Text.lines text.toList) with
    ⟨p, hp, hreached⟩ | ⟨before, line, after, problem, hlines, -, hline, hproblem⟩
  · rcases ofText_eq_of_reached hp with ⟨hbounds, hok⟩ | ⟨hbounds, problem, herror⟩
    · rw [hok, Except.ok.injEq]
      constructor
      · rintro rfl
        exact ⟨hreached.readable, hreached.holds, hbounds⟩
      · rintro ⟨-, hholds, -⟩
        exact hreached.holds.unique hholds
    · rw [herror]
      constructor
      · rintro ⟨⟩
      · rintro ⟨-, hholds, hs⟩
        exact absurd (hreached.holds.unique hholds ▸ hs) hbounds
  · rw [ofText_eq_of_refused hproblem]
    constructor
    · rintro ⟨⟩
    · rintro ⟨hreadable, -⟩
      have hat := hreadable before.length line (by simp [hlines])
      rw [hlines, List.take_left] at hat
      exact absurd hat hline

/-- A text of fewer than `2 ^ 32` bytes is read if all of its lines can be and the values are in
bounds, and each key then has the value of its last assignment. Otherwise the values are not in
bounds, or the problem is in the first line that cannot be read: the text in front of that line has
no such problem. -/
theorem ofText_reads_or_blames (text : String) (hsize : text.utf8ByteSize < 2 ^ 32) :
    (∀ s, ofText text = .ok s ↔ Readable (Text.lines text.toList) ∧
      Holds (Text.lines text.toList) s ∧ s.InBounds) ∧
    ∀ problem, ofText text = .error problem →
      (problem.span = .nowhere ∧ Readable (Text.lines text.toList) ∧
        ∃ s, Holds (Text.lines text.toList) s ∧ ¬s.InBounds) ∨
      ∃ before line after, Blames text problem.span before line after ∧
        ∀ cut, ofText (String.ofList before.flatten) = .error cut → cut.span = .nowhere := by
  refine ⟨ofText_eq_ok_iff text, fun problem hproblem => ?_⟩
  rcases foldlM_readLine_cases (Text.lines text.toList) with
    ⟨p, hp, hreached⟩ | ⟨before, line, after, found, hlines, ⟨p, hp, hreached⟩, hline, hfound⟩
  · rcases ofText_eq_of_reached hp with ⟨-, hok⟩ | ⟨hbounds, values, hvalues⟩
    · cases hok.symm.trans hproblem
    · obtain rfl := Except.error.inj (hvalues.symm.trans hproblem)
      exact .inl ⟨span_values values, hreached.readable, _, hreached.holds, hbounds⟩
  · obtain rfl := Except.error.inj ((ofText_eq_of_refused hfound).symm.trans hproblem)
    refine .inr ⟨before, line, after,
      blames_of_refused hsize hlines hreached.readable hline found, fun cut hcut => ?_⟩
    have hbefore : Text.lines (String.ofList before.flatten).toList = before := by
      rw [String.toList_ofList]
      exact Text.lines_flatten_of_append hlines
    rcases ofText_eq_of_reached (hbefore.symm ▸ hp) with ⟨-, hok⟩ | ⟨-, values, hvalues⟩
    · cases hok.symm.trans hcut
    · obtain rfl := Except.error.inj (hvalues.symm.trans hcut)
      exact span_values values

def twoUnits : String := "[hardware]\nunits = 4\nunits = 2"

def noEqualsSign : String := "[hardware]\r\nunits = 4 # four\n \t lanes 3 #x\nunits = \"2\"\n"

theorem ofText_reads_or_blames_noEqualsSign :
    ofText twoUnits = .ok { hardware := { units := 2 } } ∧
    Holds (Text.lines twoUnits.toList) { hardware := { units := 2 } } ∧
    ofText noEqualsSign = .error (.line ⟨32, 39⟩ .notAssignment) ∧
    ∃ before line after, Blames noEqualsSign ⟨32, 39⟩ before line after := by
  have hread : ofText twoUnits = .ok { hardware := { units := 2 } } := by decide +kernel
  have hproblem : ofText noEqualsSign = .error (.line ⟨32, 39⟩ .notAssignment) := by
    decide +kernel
  refine ⟨hread, ?_, hproblem, ?_⟩
  · exact (((ofText_reads_or_blames twoUnits (by decide +kernel)).1 _).mp hread).2.1
  · rcases (ofText_reads_or_blames noEqualsSign (by decide +kernel)).2 _ hproblem with
      ⟨hnowhere, -⟩ | ⟨before, line, after, hblames, -⟩
    · cases hnowhere
    · exact ⟨before, line, after, hblames⟩

end CommandStream.Settings
