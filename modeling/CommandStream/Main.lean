import CommandStream.Console.Session

/-! # The command line program -/

namespace CommandStream.Console

def fileError : IO.Error → FileError
  | .noFileOrDirectory .. => .notFound
  | .inappropriateType _ code _ => if code = 20 then .notDirectory else .isDirectory
  | .invalidArgument _ 36 _ => .nameTooLong
  | e => .other (toString e)

def fetch (path : String) : IO (String × Except FileError (List UInt8)) := do
  try
    let bytes ← IO.FS.readBinFile path
    return (path, .ok bytes.toList)
  catch e => return (path, .error (fileError e))

/-- Files that have been read; where a command writes turns out when the writing is done. -/
def fetched (contents : List (String × Except FileError (List UInt8))) : Files where
  read path := ((contents.find? (·.1 == path)).map (·.2)).getD (.error .notFound)
  writable _ := .ok ()

end CommandStream.Console

open CommandStream.Console in
def main (args : List String) : IO UInt32 := do
  let inputs := (command? args).map Command.inputs |>.getD []
  let r := reply args (fetched (← inputs.mapM fetch))
  IO.print r.out
  for (path, bytes) in r.written do
    try
      IO.FS.writeBinFile path (ByteArray.mk bytes.toArray)
    catch e =>
      let cause := fileError e
      IO.eprintln s!"error: cannot write '{path}': {cause.message}"
      return 1
  IO.eprint r.err
  return UInt32.ofNat r.code
