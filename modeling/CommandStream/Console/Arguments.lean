import CommandStream.Text.Blank

/-! # Command line arguments

The first argument that is no switch names a command. Behind it come the switches of the command, in
any order, and the name of the input file. A switch may be used once only, unless it counts or
collects.
-/

namespace CommandStream.Console

structure PackOptions where
  input : String
  output : Option String
  config : Option String
  deriving DecidableEq, Repr

structure OptimizeOptions where
  input : String
  output : Option String
  config : Option String
  noMerge : Bool
  noBlocks : Bool
  noSplit : Bool
  noLoops : Bool
  noBalance : Bool
  balanceLoads : Bool
  deriving DecidableEq, Repr

structure InspectOptions where
  input : String
  layer : Option Nat
  json : Bool
  deriving DecidableEq, Repr

structure RunOptions where
  input : String
  config : Option String
  pillarPoints : List UInt16
  json : Bool
  deriving DecidableEq, Repr

inductive Command where
  | pack (o : PackOptions)
  | optimize (o : OptimizeOptions)
  | inspect (o : InspectOptions)
  | run (o : RunOptions)
  deriving DecidableEq, Repr

inductive Verbosity where
  | warn
  | info
  | debug
  | trace
  deriving DecidableEq, Repr

namespace Verbosity

def name : Verbosity → String
  | .warn => "warn"
  | .info => "info"
  | .debug => "debug"
  | .trace => "trace"

def ofCount : Nat → Verbosity
  | 0 => .warn
  | 1 => .info
  | 2 => .debug
  | _ => .trace

end Verbosity

inductive Usage where
  /-- Without a value, once. -/
  | flag
  /-- Without a value, any number of times. -/
  | counter
  /-- With a value, once. -/
  | value
  /-- With a value, any number of times. -/
  | values
  deriving DecidableEq, Repr

def Usage.takesValue : Usage → Bool
  | .value | .values => true
  | .flag | .counter => false

def Usage.repeats : Usage → Bool
  | .counter | .values => true
  | .flag | .value => false

structure Switch where
  name : String
  letter : Option Char := none
  usage : Usage := .flag
  deriving DecidableEq, Repr

def verboseSwitch : Switch := { name := "verbose", letter := some 'v', usage := .counter }

def outputSwitch : Switch := { name := "output", letter := some 'o', usage := .value }

def configSwitch : Switch := { name := "config", usage := .value }

def packSwitches : List Switch := [verboseSwitch, outputSwitch, configSwitch]

def optimizeSwitches : List Switch :=
  packSwitches ++ ["no-merge", "no-blocks", "no-split", "no-loops", "no-balance",
    "balance-loads"].map fun name => { name := name }

def inspectSwitches : List Switch :=
  [verboseSwitch, { name := "layer", usage := .value }, { name := "json" }]

def runSwitches : List Switch :=
  [verboseSwitch, configSwitch, { name := "pillar-points", usage := .values }, { name := "json" }]

/-- Arguments sorted into switches with their values, in order, and plain arguments. `awaited` is a
switch whose value has not come yet. -/
structure Sorted where
  used : List (String × String) := []
  plain : List String := []
  awaited : Option Switch := none
  verbatim : Bool := false
  deriving DecidableEq, Repr

namespace Sorted

def use (s : Sorted) (w : Switch) (value : String) : Option Sorted :=
  if !w.usage.repeats && s.used.any (·.1 == w.name) then none
  else some { s with used := s.used ++ [(w.name, value)], awaited := none }

/-- A switch given by its full name, perhaps with a value behind an equals sign. -/
def useLong (switches : List Switch) (s : Sorted) (arg : List Char) : Option Sorted := do
  let name := String.ofList (arg.takeWhile (· ≠ '='))
  let value := arg.dropWhile (· ≠ '=')
  let w ← switches.find? (·.name == name)
  if w.usage.takesValue then
    if value.isEmpty then return { s with awaited := some w }
    else s.use w (String.ofList value.tail)
  else if value.isEmpty then s.use w ""
  else none

/-- Switches given by letters; the rest behind a letter that takes a value is that value. -/
def useLetters (switches : List Switch) : Sorted → List Char → Option Sorted
  | s, [] => some s
  | s, c :: rest => do
    let w ← switches.find? (·.letter == some c)
    if !w.usage.takesValue then useLetters switches (← s.use w "") rest
    else match rest with
      | [] => return { s with awaited := some w }
      | '=' :: value => s.use w (String.ofList value)
      | value => s.use w (String.ofList value)

def add (switches : List Switch) (s : Sorted) (arg : String) : Option Sorted :=
  if s.verbatim then
    if s.awaited.isSome then none else some { s with plain := s.plain ++ [arg] }
  else
    match arg.toList, s.awaited with
    | ['-', '-'], none => some { s with verbatim := true }
    | '-' :: '-' :: rest, none => useLong switches s rest
    | '-' :: c :: rest, none => useLetters switches s (c :: rest)
    | '-' :: _ :: _, some _ => none
    | _, some w => s.use w arg
    | _, none => some { s with plain := s.plain ++ [arg] }

def ofArguments (switches : List Switch) (args : List String) : Option Sorted := do
  let s ← args.foldlM (add switches) {}
  if s.awaited.isSome then none else return s

def flag (s : Sorted) (name : String) : Bool := s.used.any (·.1 == name)

def values (s : Sorted) (name : String) : List String :=
  (s.used.filter (·.1 == name)).map (·.2)

def path? (s : Sorted) (name : String) : Option (Option String) :=
  match s.values name with
  | [] => some none
  | "" :: _ => none
  | path :: _ => some (some path)

def input? (s : Sorted) : Option String :=
  match s.plain with
  | [""] => none
  | [path] => some path
  | _ => none

end Sorted

def commaPieces (s : String) : List String := s.splitOn ","

/-- A point count; a minus sign is allowed in front of zero only. -/
def pointCount? (s : String) : Option UInt16 := do
  let n ← match s.toList with
    | '-' :: digits => if digits.head? = some '+' then none else
        (Text.natural? digits).bind fun n => if n = 0 then some n else none
    | cs => Text.natural? cs
  if n < UInt16.size then some (UInt16.ofNat n) else none

def layerIndex? (s : String) : Option Nat := do
  let n ← Text.natural? s.toList
  if n < UInt64.size then some n else none

def packCommand (args : List String) : Option Command := do
  let s ← Sorted.ofArguments packSwitches args
  return .pack { input := ← s.input?, output := ← s.path? "output", config := ← s.path? "config" }

def optimizeCommand (args : List String) : Option Command := do
  let s ← Sorted.ofArguments optimizeSwitches args
  return .optimize {
    input := ← s.input?
    output := ← s.path? "output"
    config := ← s.path? "config"
    noMerge := s.flag "no-merge"
    noBlocks := s.flag "no-blocks"
    noSplit := s.flag "no-split"
    noLoops := s.flag "no-loops"
    noBalance := s.flag "no-balance"
    balanceLoads := s.flag "balance-loads" }

def inspectCommand (args : List String) : Option Command := do
  let s ← Sorted.ofArguments inspectSwitches args
  let layers ← (s.values "layer").mapM layerIndex?
  return .inspect { input := ← s.input?, layer := layers.head?, json := s.flag "json" }

def runCommand (args : List String) : Option Command := do
  let s ← Sorted.ofArguments runSwitches args
  let points ← ((s.values "pillar-points").flatMap commaPieces).mapM pointCount?
  return .run {
    input := ← s.input?, config := ← s.path? "config", pillarPoints := points,
    json := s.flag "json" }

/-- The command that the arguments ask for; none if they are not well formed. Only the verbosity
switch may stand in front of the command. -/
def command? : List String → Option Command
  | [] => none
  | "pack" :: args => packCommand args
  | "optimize" :: args => optimizeCommand args
  | "inspect" :: args => inspectCommand args
  | "run" :: args => runCommand args
  | arg :: args =>
    if arg == "--verbose" || (arg.startsWith "-v" && (arg.toList.drop 1).all (· == 'v')) then
      command? args
    else none

end CommandStream.Console
