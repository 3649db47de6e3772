import CommandStream.Segment.Block
import CommandStream.Segment.Run
import CommandStream.Word.Order

/-! # Merging transfers

Neighbouring transfers become fewer and larger ones: repeated transfers are dropped, gapless
rectangles become rows, skipped tails are cut off, and transfers that continue each other in host
and local memory are joined. Only neighbours are combined, so every other segment is a barrier.
-/

namespace CommandStream

structure MergeStats where
  duplicates : Nat := 0
  flattened : Nat := 0
  joinedRows : Nat := 0
  joinedRects : Nat := 0
  deriving DecidableEq, Repr

namespace Transfer

def sameClass (a b : Transfer) : Bool := a.isStore == b.isStore

def hostKey (t : Transfer) : List Nat :=
  [t.cluster.toNat, t.unit.toNat, t.hostAddr.toNat, t.localAddr.toNat]

def localKey (t : Transfer) : List Nat :=
  [t.cluster.toNat, t.unit.toNat, t.localAddr.toNat, t.hostAddr.toNat]

/-- Order by address, then by target: the order in which loops are looked for. -/
def addressKey (t : Transfer) : List Nat :=
  [t.hostAddr.toNat, t.localAddr.toNat, t.unit.toNat, t.cluster.toNat]

/-- Equal in everything the hardware looks at. -/
def sameCommand (a b : Transfer) : Bool :=
  { a with skipped := 0 } == { b with skipped := 0 }

/-- A gapless rectangle without padding that is small enough to be one row. -/
def flattenable (t : Transfer) (maxElements : Nat) : Bool :=
  1 < t.height && t.leap == 1 && t.padding.isEmpty && t.area ≤ min maxElements 65535

def sameTarget (a b : Transfer) : Bool :=
  a.direction == b.direction && a.biasOffset == b.biasOffset &&
    a.kernelOffset == b.kernelOffset && a.cluster == b.cluster && a.unit == b.unit &&
    a.padding == b.padding && a.skipped == 0 && b.skipped == 0

/-- Whether `b` starts where `a` ends, in host and in local memory. -/
def continuedBy (a b : Transfer) : Checked Bool := do
  let span ← a.hostSpan
  return a.hostAddr.toNat + span == b.hostAddr.toNat &&
    a.localAddr.toNat + a.localSpan == b.localAddr.toNat

/-- The starting point of the earlier one of two transfers that continue each other, which are then
covered by `whole`. -/
def startOfJoin (a b whole : Transfer) : Checked (Option Transfer) := do
  if ← a.continuedBy b then
    return some whole
  else if ← b.continuedBy a then
    return some { whole with hostAddr := b.hostAddr, localAddr := b.localAddr }
  else
    return none

def joinRow (a b : Transfer) : Checked (Option Transfer) :=
  if a.isRect || !a.sameTarget b || 65535 < a.width.toNat + b.width.toNat then return none
  else startOfJoin a b { a with width := a.width + b.width }

def joinRect (a b : Transfer) : Checked (Option Transfer) :=
  if !a.isRect || !a.sameTarget b || a.leap != b.leap || a.width != b.width ||
      65535 < a.height.toNat + b.height.toNat then
    return none
  else startOfJoin a b { a with height := a.height + b.height }

end Transfer

/-- A stream after neighbours were combined, and the transfers that went into their neighbour. -/
structure Absorbed where
  kept : List Segment
  absorbed : List Transfer
  deriving DecidableEq, Repr

/-- Let each transfer go into the one before it where `join` allows. The transfer that may take in
the next one is held back as `pending`. -/
def absorbWith {m : Type → Type} [Monad m] (join : Transfer → Transfer → m (Option Transfer)) :
    Option Transfer → List Segment → m Absorbed
  | pending, [] => return ⟨pending.toList.map .transfer, []⟩
  | none, .transfer t :: rest => absorbWith join (some t) rest
  | some last, .transfer t :: rest => do
    match ← join last t with
    | some joined =>
      let out ← absorbWith join (some joined) rest
      return { out with absorbed := t :: out.absorbed }
    | none =>
      let out ← absorbWith join (some t) rest
      return { out with kept := .transfer last :: out.kept }
  | pending, s :: rest => do
    let out ← absorbWith join none rest
    return { out with kept := pending.toList.map .transfer ++ s :: out.kept }

def absorb {m : Type → Type} [Monad m] (join : Transfer → Transfer → m (Option Transfer))
    (segments : List Segment) : m Absorbed :=
  absorbWith join none segments

/-- A stream between two steps of the merge, with the words of the transfers dropped so far. -/
structure Merging where
  segments : List Segment
  dropped : Nat := 0
  stats : MergeStats := {}
  deriving DecidableEq, Repr

namespace Merging

def reorder (m : Merging) (key : Transfer → List Nat) : Merging :=
  { m with segments := permuteRuns Transfer.sameClass (sortOn key) m.segments }

def dropDuplicates (m : Merging) : Checked Merging := do
  let out ← absorb (fun a b => return if a.sameCommand b then some a else none) m.segments
  let dropped ← out.absorbed.foldlM (fun n t => Checked.add 64 n t.elements) m.dropped
  return { m with
    segments := out.kept
    dropped
    stats := { m.stats with duplicates := m.stats.duplicates + out.absorbed.length } }

def flattenSegment (maxElements : Nat) : Segment → Segment
  | .transfer t =>
    if !t.isRect then .transfer t
    else if t.flattenable maxElements then
      .transfer { t with
        direction := t.direction.toRow, width := UInt16.ofNat t.area, height := 1 }
    else if t.height = 1 then .transfer { t with direction := t.direction.toRow }
    else .transfer t
  | s => s

def flattens (maxElements : Nat) : Segment → Bool
  | .transfer t => t.isRect && t.flattenable maxElements
  | _ => false

def flatten (m : Merging) (maxElements : Nat) : Merging :=
  { m with
    segments := m.segments.map (flattenSegment maxElements)
    stats := { m.stats with
      flattened := m.stats.flattened + m.segments.countP (flattens maxElements) } }

def trimSegment : Segment × Nat → Except Fault Segment
  | (.transfer t, index) =>
    if t.skipped = 0 then .ok (.transfer t)
    else if t.isRect then .error (.discardOnRect index t.skipped)
    else .ok (.transfer { t with
      width := UInt16.ofNat (t.width.toNat - t.skipped.toNat), skipped := 0 })
  | (s, _) => .ok s

/-- Cut the skipped tail off rows; what is still a rectangle cannot have one. -/
def trim (m : Merging) : Except Fault Merging := do
  return { m with segments := ← m.segments.zipIdx.mapM trimSegment }

def joinRows (m : Merging) : Checked Merging := do
  let out ← absorb Transfer.joinRow m.segments
  return { m with
    segments := out.kept
    stats := { m.stats with joinedRows := m.stats.joinedRows + out.absorbed.length } }

def joinRects (m : Merging) : Checked Merging := do
  let out ← absorb Transfer.joinRect m.segments
  return { m with
    segments := out.kept
    stats := { m.stats with joinedRects := m.stats.joinedRects + out.absorbed.length } }

end Merging

/-- Merge the transfers of a stream and count what was done. Rectangles of more than `maxElements`
words stay rectangles. -/
def mergeWithStats (segments : List Segment) (maxElements : Nat) :
    Outcome (List Segment × MergeStats) := do
  let before ← countElements segments
  let start : Merging := { segments := segments }
  let m ← (start.reorder Transfer.hostKey).dropDuplicates
  let m ← (m.flatten maxElements).trim
  let m ← m.joinRows
  let m ← m.joinRects
  let m ← (m.reorder Transfer.localKey).dropDuplicates
  let m ← (m.flatten maxElements).joinRows
  let m ← m.joinRects
  let after ← countElements m.segments
  let expected ← Checked.sub before m.dropped
  if expected ≠ after then
    refuse (.elementCountMismatch .merge expected after)
  else
    return (refreshBlocks (m.reorder Transfer.addressKey).segments, m.stats)

def merge (segments : List Segment) (maxElements : Nat) : Outcome (List Segment) := do
  return (← mergeWithStats segments maxElements).1

end CommandStream
