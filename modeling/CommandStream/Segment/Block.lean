import CommandStream.Fault
import CommandStream.Segment.Basic

/-! # Block markers

A marker is consistent when the transfers and loops right behind it fill exactly the number of
records it states.
-/

namespace CommandStream

/-- The run of transfers and loops at the front of a stream. -/
def dmaRun (segments : List Segment) : List Segment :=
  segments.takeWhile Segment.isDma

/-- Restate every marker as the records of the run behind it. -/
def refreshBlocks : List Segment → List Segment
  | [] => []
  | .block _ :: rest =>
    .block (UInt32.ofNat (recordCount (dmaRun rest))) :: refreshBlocks rest
  | s :: rest => s :: refreshBlocks rest

/-- Take transfers and loops until the stated number of records is reached, starting from
`filled` of them. Gives the records reached and the segments taken. A word of 32 bits holds that
number, unless a loop reaches beyond a block of `2 ^ 32 - 1` records. -/
def fillBlock (stated : Nat) : Nat → List Segment → Nat × List Segment
  | filled, [] => (filled, [])
  | filled, s :: rest =>
    if filled < stated && s.isDma then
      let (reached, body) := fillBlock stated (filled + s.records) rest
      (reached, s :: body)
    else (filled, [])

/-- The segments of the block that stands at `index` and states `count`, given what follows it. -/
def blockBody (index : Nat) (count : UInt32) (rest : List Segment) :
    Except Fault (List Segment) :=
  let (reached, body) := fillBlock count.toNat 0 rest
  if reached = count.toNat then .ok body
  else .error (.malformedBlock index count.toNat reached)

def blockBodyAt (segments : List Segment) (index : Nat) : Except Fault (List Segment) :=
  match segments.drop index with
  | .block count :: rest => blockBody index count rest
  | _ => .ok []

def checkBlocksFrom : Nat → List Segment → Except Fault Unit
  | _, [] => .ok ()
  | index, .block count :: rest => do
    let _ ← blockBody index count rest
    checkBlocksFrom (index + 1) rest
  | index, _ :: rest => checkBlocksFrom (index + 1) rest

/-- Every marker is consistent; otherwise the first that is not is reported. -/
def checkBlocks (segments : List Segment) : Except Fault Unit :=
  checkBlocksFrom 0 segments

end CommandStream
