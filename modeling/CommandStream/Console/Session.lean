import CommandStream.Blob.Digest
import CommandStream.Console.Arguments
import CommandStream.Description
import CommandStream.FileStore
import CommandStream.Optimize.Pipeline
import CommandStream.Schedule.Run
import CommandStream.Segment.Listing
import CommandStream.Settings.Reader

/-! # Commands

What each command reads, prints and writes.
-/

namespace CommandStream

/-- Encode a described network that the hardware can run. -/
def Blob.pack (text : String) (hw : Hardware) : Except Fault (List UInt8) := do
  let net ← Net.ofDescription text
  net.validate hw
  Blob.ofNet net

namespace Console

open Text

/-- Exit code, the two outputs, and the files to be written. -/
structure Reply where
  code : Nat := 0
  out : String := ""
  err : String := ""
  written : List (String × List UInt8) := []
  deriving DecidableEq, Repr

/-- How a command ends early. -/
inductive Stop where
  /-- A message for the user. -/
  | message (text : String)
  /-- A report on a settings file. -/
  | report (text : String)
  | overflow (o : Overflow)
  deriving DecidableEq, Repr

/-- A command in the presence of files. What it has printed outlives its failure. -/
abbrev Session (α : Type) := ReaderT Files (ExceptT Stop (StateM Reply)) α

def printOut (text : String) : Session Unit := modify fun r => { r with out := r.out ++ text }

def printErr (text : String) : Session Unit := modify fun r => { r with err := r.err ++ text }

def printLine (text : String) : Session Unit := printOut (text ++ "\n")

def stopWith {α : Type} (text : String) : Session α := throw (.message text)

/-- A result, or the failure as a message about a file. -/
def orStop {α : Type} (path : String) : Outcome α → Session α
  | .ok a => return a
  | .error (.fault f) => stopWith s!"{path}: {f.message}"
  | .error (.overflow o) => throw (.overflow o)

def readBytes (path : String) : Session (List UInt8) := do
  match (← read).read path with
  | .ok bytes => return bytes
  | .error e => stopWith s!"cannot read '{path}': {e.message}"

def readText (path : String) : Session String := do
  match (← read).readText path with
  | .ok text => return text
  | .error e => stopWith s!"cannot read '{path}': {e.message}"

def writeBytes (path : String) (bytes : List UInt8) : Session Unit := do
  match (← read).writable path with
  | .ok () => modify fun r => { r with written := r.written ++ [(path, bytes)] }
  | .error e => stopWith s!"cannot write '{path}': {e.message}"

def report (path : String) (p : SettingsProblem) : Stop :=
  match p.span? with
  | none => .message (p.message path)
  | some span =>
    let details := p.notes.map (fun note => s!"  note: {note}\n") ++
      p.help.toList.map (fun help => s!"  help: {help}\n")
    .report (s!"Error: {p.message path}\n  at bytes {span.start} to {span.stop}\n" ++
      String.join details)

def loadSettings : Option String → Session Settings
  | none => return {}
  | some path => do
    match Settings.ofText (← readText path) with
    | .ok settings => return settings
    | .error p => throw (report path p)

def pack (o : PackOptions) : Session Unit := do
  let settings ← loadSettings o.config
  let text ← readText o.input
  let blob ← orStop o.input (Blob.pack text settings.hardware : Except Fault (List UInt8))
  let output := o.output.getD (withExtension o.input "bin")
  writeBytes output blob
  printErr s!"Packed {blob.length} bytes to {output} ({hexBytes (Digest.hash blob)})\n"

def column (width n : Nat) : String := padLeft width ' ' (toString n)

def passLine (layer : Nat) (stats : List PassStats) : String :=
  match stats.head?, stats.getLast? with
  | some first, some last =>
    let saved := stats.foldl (fun n s => n + s.bytesSaved) 0
    s!"layer {column 3 layer}: {column 6 first.recordsIn} -> " ++
      s!"{column 6 last.recordsOut} records ({signed (-saved)} bytes)"
  | _, _ => s!"layer {column 3 layer}: unchanged"

def optimizeBlob (o : OptimizeOptions) : Session Unit := do
  let settings ← loadSettings o.config
  let p := settings.pipeline
  let pipeline := { p with
    merge := p.merge && !o.noMerge
    blocks := p.blocks && !o.noBlocks
    splitStores := p.splitStores && !o.noSplit
    loops := p.loops && !o.noLoops
    balance := p.balance && !o.noBalance
    balanceLoads := p.balanceLoads || o.balanceLoads }
  let bytes ← readBytes o.input
  let (blob, stats) ← orStop o.input (Blob.optimize bytes { settings with pipeline })
  for (passes, layer) in stats.zipIdx do
    printLine (passLine layer passes)
  let output := o.output.getD (withExtension o.input "opt.bin")
  writeBytes output blob
  printErr s!"Wrote {blob.length} bytes ({bytes.length} before) to {output}\n"

def commaList (items : List String) : String := String.intercalate ", " items

def layerHeading (index : Nat) (layer : Layer) (offset : UInt32) : String :=
  s!"layer {index} (#{layer.params.number} {layer.params.kind.name}) at 0x{hex offset.toNat}: " ++
    s!"{recordCount layer.segments} records"

def inspect (o : InspectOptions) : Session Unit := do
  let bytes ← readBytes o.input
  let summary ← orStop o.input (Blob.summary bytes : Except Fault Blob.Summary)
  let net ← orStop o.input (Blob.toNet bytes : Except Fault Net)
  if let some wanted := o.layer then
    if net.layers.length ≤ wanted then
      stopWith s!"layer {wanted} out of range ({net.layers.length} layers)"
  if o.json then
    printLine net.toDescription
  else
    let digest := hexBytes (Digest.hash (bytes.take summary.blobSize.toNat))
    printLine s!"blob      {summary.blobSize} bytes, blake3 {digest}"
    printLine s!"layers    {summary.layerCount}"
    printLine s!"exec list [{commaList (net.execList.map toString)}]"
    for ((layer, offset), index) in (net.layers.zip summary.layerOffsets).zipIdx do
      if o.layer.all (· == index) then
        printLine ""
        printLine (layerHeading index layer offset)
        printOut (listing layer.segments)

def statsLine (entry : Nat) (s : LayerStats) : String :=
  let counts := s.segments.entries.map fun (kind, n) => s!"{n} {kind}"
  s!"{column 3 entry} layer {column 3 s.number.toNat} " ++
    s!"{padRight 16 s.kind.name} {column 8 s.transfers} transfers " ++
    s!"{column 10 s.cycles} cycles  [{commaList counts}]"

def statsJson (s : LayerStats) : Json :=
  .object [
    (some "number", .int s.number.toNat),
    (some "kind", .string (some s.kind.key)),
    (some "segments", .object (s.segments.entries.map fun (kind, n) => (some kind, .int n))),
    (some "transfers", .int s.transfers),
    (some "cycles", .int s.cycles)]

def run (o : RunOptions) : Session Unit := do
  let settings ← loadSettings o.config
  let bytes ← readBytes o.input
  let recorder : Recorder := { pillarPoints := o.pillarPoints }
  let (result, recorder) := (runNet bytes settings.hardware).run.run recorder
  let stats ← orStop o.input result
  if o.json then
    printLine (Json.array (stats.map statsJson)).pretty
  else
    for (s, entry) in stats.zipIdx do
      printLine (statsLine entry s)
    let cycles := total (stats.map LayerStats.cycles)
    printLine s!"total {cycles} cycles, {recorder.log.length} events"

def Command.session : Command → Session Unit
  | .pack o => Console.pack o
  | .optimize o => Console.optimizeBlob o
  | .inspect o => Console.inspect o
  | .run o => Console.run o

def Command.inputs : Command → List String
  | .pack o => o.config.toList ++ [o.input]
  | .optimize o => o.config.toList ++ [o.input]
  | .inspect o => [o.input]
  | .run o => o.config.toList ++ [o.input]

def usage : String :=
  "usage: [-v] pack|optimize|inspect|run INPUT [OPTIONS]\n"

def reply (args : List String) (files : Files) : Reply :=
  match command? args with
  | none => { code := 2, err := usage }
  | some command =>
    match ((command.session.run files).run).run {} with
    | (.ok (), r) => r
    | (.error (.message text), r) => { r with code := 1, err := r.err ++ s!"error: {text}\n" }
    | (.error (.report text), r) => { r with code := 1, err := r.err ++ text }
    | (.error (.overflow _), r) =>
      { r with code := 101, err := r.err ++ "arithmetic overflow\n" }

end Console

end CommandStream
