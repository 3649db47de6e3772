/-! # File stores

The files that a command may read and write. Paths start at the working directory or at the root.
Directories in the working directory exist as far as the files in them do. Outside it, only the
standard directories and the null device are known, and what is written there is not kept.
-/

namespace CommandStream

inductive FileError where
  | notFound
  | notDirectory
  | isDirectory
  | nameTooLong
  | nulInName
  | notText
  | other (text : String)
  deriving DecidableEq, Repr

def FileError.message : FileError → String
  | .notFound => "No such file or directory (os error 2)"
  | .notDirectory => "Not a directory (os error 20)"
  | .isDirectory => "Is a directory (os error 21)"
  | .nameTooLong => "File name too long (os error 36)"
  | .nulInName => "file name contained an unexpected NUL byte"
  | .notText => "stream did not contain valid UTF-8"
  | .other text => text

abbrev Location := List String

/-- The location that a component leads to. -/
def Location.step (loc : Location) (name : String) : Location :=
  if name = "" || name = "." then loc
  else if name = ".." then loc.dropLast
  else loc ++ [name]

def nameLimit : Nat := 255

def pathLimit : Nat := 4095

/-- The components of a path that can be looked up. -/
def Location.ofPath (path : String) : Except FileError Location := do
  if path.toList.contains '\x00' then
    throw .nulInName
  if pathLimit < path.utf8ByteSize then
    throw .nameTooLong
  if path = "" then
    throw .notFound
  return path.splitOn "/"

/-- What a command can do with files: read one, and learn whether one can be written. -/
structure Files where
  read : String → Except FileError (List UInt8)
  writable : String → Except FileError Unit

def Files.readText (files : Files) (path : String) : Except FileError String := do
  match String.fromUTF8? (ByteArray.mk (← files.read path).toArray) with
  | some text => return text
  | none => throw .notText

structure FileStore where
  files : List (Location × List UInt8) := []
  deriving DecidableEq, Repr

/-- A directory at or below the working directory, one with a known path from the root, or one above
the working directory. -/
inductive Directory where
  | working (loc : Location)
  | rooted (loc : Location)
  | above
  deriving DecidableEq, Repr

def Directory.start (path : String) : Directory :=
  if path.startsWith "/" then .rooted [] else .working []

def Directory.parent : Directory → Directory
  | .working [] => .above
  | .working loc => .working loc.dropLast
  | .rooted loc => .rooted loc.dropLast
  | .above => .above

def standardDirectories : List String :=
  ["bin", "boot", "dev", "etc", "home", "lib", "media", "mnt", "opt", "proc", "root", "run", "sbin",
    "srv", "sys", "tmp", "usr", "var"]

/-- What stands at the end of a walk along a path. A missing file has a location if the store would
keep it. -/
inductive Place where
  | directory (dir : Directory)
  | file (loc : Location)
  | nullDevice
  | missing (loc : Option Location)
  deriving DecidableEq, Repr

namespace FileStore

def get? (s : FileStore) (loc : Location) : Option (List UInt8) :=
  (s.files.find? (·.1 == loc)).map (·.2)

def isDirectory (s : FileStore) (loc : Location) : Bool :=
  s.files.any fun f => loc.isPrefixOf f.1 && loc.length < f.1.length

def child (s : FileStore) (name : String) : Directory → Place
  | .working loc =>
    let loc := loc ++ [name]
    if (s.get? loc).isSome then .file loc
    else if s.isDirectory loc then .directory (.working loc)
    else .missing (some loc)
  | .rooted loc =>
    let loc := loc ++ [name]
    if loc = ["dev", "null"] then .nullDevice
    else if standardDirectories.any (loc == [·]) then .directory (.rooted loc)
    else .missing none
  | .above => .missing none

def follow (s : FileStore) (place : Place) (name : String) : Except FileError Place :=
  match place with
  | .file _ | .nullDevice => .error .notDirectory
  | .missing _ => .error .notFound
  | .directory dir =>
    if name = "" || name = "." then .ok (.directory dir)
    else if name = ".." then .ok (.directory dir.parent)
    else if nameLimit < name.utf8ByteSize then .error .nameTooLong
    else .ok (s.child name dir)

def read (s : FileStore) (path : String) : Except FileError (List UInt8) := do
  match ← (← Location.ofPath path).foldlM s.follow (.directory (.start path)) with
  | .file loc => return (s.get? loc).getD []
  | .nullDevice => return []
  | .directory _ => throw .isDirectory
  | .missing _ => throw .notFound

/-- Where the store keeps, or would create, the file with this path. A path that ends in a slash
names no file, whatever its last component is. -/
def target (s : FileStore) (path : String) : Except FileError (Option Location) := do
  let names := ((← Location.ofPath path).reverse.dropWhile (· == "")).reverse
  let last := if path.endsWith "/" then "." else names.getLast?.getD "."
  let parent ← names.dropLast.foldlM s.follow (.directory (.start path))
  match ← s.follow parent last with
  | .file loc => return some loc
  | .nullDevice => return none
  | .missing loc => return loc
  | .directory _ => throw .isDirectory

def insert (s : FileStore) (loc : Location) (bytes : List UInt8) : FileStore :=
  { s with files := s.files.filter (·.1 != loc) ++ [(loc, bytes)] }

def add (s : FileStore) (path : String) (bytes : List UInt8) : FileStore :=
  let names := path.splitOn "/"
  if ["", ".", ".."].contains (names.getLast?.getD "") then s
  else s.insert (names.foldl Location.step []) bytes

def ofList (files : List (String × List UInt8)) : FileStore :=
  files.foldl (fun s (path, bytes) => s.add path bytes) {}

def write (s : FileStore) (path : String) (bytes : List UInt8) : Except FileError FileStore := do
  match ← s.target path with
  | some loc => return s.insert loc bytes
  | none => return s

def asFiles (s : FileStore) : Files where
  read := s.read
  writable path := do let _ ← s.target path

/-- The store after some files have been written; those that cannot be are left out. -/
def writeAll (s : FileStore) (written : List (String × List UInt8)) : FileStore :=
  written.foldl (fun s (path, bytes) => (s.write path bytes).toOption.getD s) s

def changedSince (s before : FileStore) : List (Location × List UInt8) :=
  s.files.filter fun f => before.get? f.1 != some f.2

end FileStore

/-- Replace what follows the last dot of the file name; a name without a dot, or with no more than a
leading one, is extended. If only two dots would remain, they name a directory and take no
extension. -/
def withExtension (path extension : String) : String :=
  let names := path.splitOn "/"
  let name := (names.getLast?.getD "").toList
  let stem := (name.reverse.dropWhile (· ≠ '.')).tail.reverse
  let renamed :=
    if stem = ['.'] then ".."
    else String.ofList (if stem.isEmpty then name else stem) ++ "." ++ extension
  String.intercalate "/" (names.dropLast ++ [renamed])

end CommandStream
