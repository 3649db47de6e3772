import CommandStream.Settings.Basic
import CommandStream.Text.Blank

/-! # Settings files

A settings file has a section for the hardware and one for the pipeline, each with lines that assign
a value to a key. A number sign starts a comment. A problem is reported with the bytes of the line
it is found in, or, when the values do not make sense together, for the file as a whole.
-/

namespace CommandStream

structure Span where
  start : Nat
  stop : Nat
  deriving DecidableEq, Repr

/-- The given number of bytes from `offset` on. The ends are kept as words. -/
def Span.ofLength (offset length : Nat) : Span where
  start := offset % UInt32.size
  stop := (offset + length) % UInt32.size

def Span.nowhere : Span where
  start := 0
  stop := 0

inductive SettingsSection where
  | hardware
  | pipeline
  deriving DecidableEq, Repr

def SettingsSection.name : SettingsSection → String
  | .hardware => "hardware"
  | .pipeline => "pipeline"

inductive LineProblem where
  | unknownSection (name : String)
  | notAssignment
  | badNumber (sec : SettingsSection) (key value : String)
  | badFlag (sec : SettingsSection) (key value : String)
  | outsideSection (key : String)
  | unknownKey (key : String) (sec : SettingsSection)
  deriving DecidableEq, Repr

inductive ValueProblem where
  | clusters (n : Nat)
  | units (n : Nat)
  | lanes
  | minLoopLen (n : Nat)
  deriving DecidableEq, Repr

namespace LineProblem

def message : LineProblem → String
  | .unknownSection name => s!"unknown section [{name}]"
  | .notAssignment => "expected `key = value`"
  | .badNumber sec key value => s!"invalid {sec.name}.{key}: {value}"
  | .badFlag sec key value => s!"invalid {sec.name}.{key}: {value}"
  | .outsideSection key => s!"key '{key}' outside of a section"
  | .unknownKey key sec => s!"unknown key '{key}' in [{sec.name}]"

def notes : LineProblem → List String
  | .badNumber sec key _ => [s!"{sec.name}.{key} takes an unsigned integer"]
  | _ => []

def help : LineProblem → Option String
  | .unknownSection _ => some "known sections are [hardware] and [pipeline]"
  | .badFlag _ _ _ => some "expected true or false"
  | _ => none

end LineProblem

def ValueProblem.message : ValueProblem → String
  | .clusters n => s!"hardware.clusters must be 1..=32, got {n}"
  | .units n => s!"hardware.units must be 1..=32, got {n}"
  | .lanes => "hardware.lanes must be at least 1"
  | .minLoopLen n => s!"pipeline.min_loop_len must be at least 2, got {n}"

inductive SettingsProblem where
  | line (span : Span) (p : LineProblem)
  | values (p : ValueProblem)
  deriving DecidableEq, Repr

namespace SettingsProblem

def message (path : String) : SettingsProblem → String
  | .line _ p => s!"{path}: {p.message}"
  | .values p => s!"{path}: {p.message}"

def span? : SettingsProblem → Option Span
  | .line span _ => some span
  | .values _ => none

def span (p : SettingsProblem) : Span := p.span?.getD .nowhere

def notes : SettingsProblem → List String
  | .line _ p => p.notes
  | .values _ => []

def help : SettingsProblem → Option String
  | .line _ p => p.help
  | .values _ => none

end SettingsProblem

namespace Settings

/-- A line without its comment and the blanks around it, and the bytes this part takes in a file in
which the line starts at `offset`. -/
def significant (offset : Nat) (line : List Char) : List Char × Span :=
  let body := line.takeWhile (· ≠ '#')
  let text := Text.trim body
  (text, .ofLength (offset + Text.byteLength (body.takeWhile Text.isBlank)) (Text.byteLength text))

def heading? (text : List Char) : Option (List Char) :=
  if text.head? = some '[' && text.getLast? = some ']' then some (Text.trim text.tail.dropLast)
  else none

def section? (name : List Char) : Option SettingsSection :=
  [SettingsSection.hardware, .pipeline].find? (·.name.toList == name)

/-- Key and value at the two sides of the first equals sign; quotes around the value do not
count. -/
def assignment? (text : List Char) : Option (String × String) :=
  let value := text.dropWhile (· ≠ '=')
  if value.isEmpty then none
  else some (String.ofList (Text.trim (text.takeWhile (· ≠ '='))),
    String.ofList (Text.trimWhile (· == '"') (Text.trim value.tail)))

def readNumber (sec : SettingsSection) (key value : String) : Except LineProblem UInt32 :=
  match Text.natural? value.toList with
  | some n => if n < UInt32.size then .ok (UInt32.ofNat n) else .error (.badNumber sec key value)
  | none => .error (.badNumber sec key value)

def readFlag (sec : SettingsSection) (key value : String) : Except LineProblem Bool :=
  match value with
  | "true" => .ok true
  | "false" => .ok false
  | _ => .error (.badFlag sec key value)

def assignHardware (h : Hardware) (key value : String) : Except LineProblem Hardware := do
  let number := readNumber .hardware key value
  match key with
  | "clusters" => return { h with clusters := ← number }
  | "units" => return { h with units := ← number }
  | "lanes" => return { h with lanes := ← number }
  | "rf_size" => return { h with registerFileSize := ← number }
  | "lm_size" => return { h with localMemorySize := ← number }
  | "max_transfer_elements" => return { h with maxTransferElements := ← number }
  | "w2r_bubble" => return { h with writeReadBubble := ← number }
  | "min_vector_length" => return { h with minVectorLength := ← number }
  | _ => throw (.unknownKey key .hardware)

def assignPipeline (p : Pipeline) (key value : String) : Except LineProblem Pipeline := do
  let number := readNumber .pipeline key value
  let flag := readFlag .pipeline key value
  match key with
  | "merge" => return { p with merge := ← flag }
  | "blocks" => return { p with blocks := ← flag }
  | "split_stores" => return { p with splitStores := ← flag }
  | "loops" => return { p with loops := ← flag }
  | "balance" => return { p with balance := ← flag }
  | "balance_loads" => return { p with balanceLoads := ← flag }
  | "min_loop_len" => return { p with minLoopLen := (← number).toNat }
  | "block_split" => return { p with blockSplit := (← number).toNat }
  | _ => throw (.unknownKey key .pipeline)

/-- The settings so far, the section, and the offset of the next line. -/
structure Progress where
  settings : Settings := {}
  sec : Option SettingsSection := none
  offset : Nat := 0
  deriving DecidableEq, Repr

def Progress.readText (p : Progress) (text : List Char) : Except LineProblem Progress :=
  match heading? text with
  | some name =>
    match section? name with
    | some sec => .ok { p with sec := some sec }
    | none => .error (.unknownSection (String.ofList name))
  | none =>
    match assignment? text with
    | none => .error .notAssignment
    | some (key, value) =>
      match p.sec with
      | none => .error (.outsideSection key)
      | some .hardware => do
        let hardware ← assignHardware p.settings.hardware key value
        return { p with settings := { p.settings with hardware } }
      | some .pipeline => do
        let pipeline ← assignPipeline p.settings.pipeline key value
        return { p with settings := { p.settings with pipeline } }

def Progress.readLine (p : Progress) (line : List Char) : Except SettingsProblem Progress := do
  let (text, span) := significant p.offset line
  let next ← if text.isEmpty then .ok p else (p.readText text).mapError (.line span)
  return { next with offset := p.offset + Text.byteLength line }

def valueProblem? (s : Settings) : Option ValueProblem :=
  let h := s.hardware
  if h.clusters = 0 || 32 < h.clusters then some (.clusters h.clusters.toNat)
  else if h.units = 0 || 32 < h.units then some (.units h.units.toNat)
  else if h.lanes = 0 then some .lanes
  else if s.pipeline.minLoopLen < 2 then some (.minLoopLen s.pipeline.minLoopLen)
  else none

/-- Read a settings file. Keys that are not assigned keep their default, and the last assignment of
a key counts. -/
def ofText (text : String) : Except SettingsProblem Settings := do
  let p ← (Text.lines text.toList).foldlM Progress.readLine {}
  match valueProblem? p.settings with
  | some problem => throw (.values problem)
  | none => return p.settings

end Settings

end CommandStream
