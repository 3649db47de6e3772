import CommandStream.FileStore
import CommandStream.Settings.Reader

/-! # Settings from a file -/

namespace CommandStream

/-- Why settings cannot be had from a file. -/
inductive LoadProblem where
  | unreadable (e : FileError)
  | invalid (p : SettingsProblem)
  deriving DecidableEq, Repr

namespace LoadProblem

def message (path : String) : LoadProblem → String
  | .unreadable e => s!"cannot read config '{path}': {e.message}"
  | .invalid p => p.message path

def span? : LoadProblem → Option Span
  | .unreadable _ => none
  | .invalid p => p.span?

def notes : LoadProblem → List String
  | .unreadable _ => []
  | .invalid p => p.notes

def help : LoadProblem → Option String
  | .unreadable _ => none
  | .invalid p => p.help

end LoadProblem

def Settings.load (files : Files) (path : String) : Except LoadProblem Settings := do
  let text ← (files.readText path).mapError .unreadable
  (Settings.ofText text).mapError .invalid

end CommandStream
