import CommandStream.Segment.Block
import CommandStream.Word.Order

/-! # Spreading stores

The stores of a block are dealt out over the blocks that follow it, up to the next block that
stores, so that storing overlaps with later loads and computation.
-/

namespace CommandStream

/-- Order stores so that consecutive ones go to different clusters: one queue for each highest
cluster, the largest host address first, and one store of each queue in turn. -/
def rotateStores (stores : List Transfer) : List Transfer :=
  takeTurns <| (List.range 32).map fun cluster =>
    (sortOn (fun t => [t.hostAddr.toNat]) (stores.filter (·.cluster.highest == cluster))).reverse

/-- Put the next `share` stores behind every marker. -/
def dealStores (share : Nat) : List Transfer → List Segment → List Segment
  | _, [] => []
  | stores, s :: rest =>
    if s.isBlock then
      s :: (stores.take share).map .transfer ++ dealStores share (stores.drop share) rest
    else s :: dealStores share stores rest

/-- Deal the stores of a span out over its blocks. The span must be free of loops and hold all its
stores at the front of its first block. -/
def spreadSpan? (span : List Segment) : Option (List Segment) :=
  let stores := (span.filter Segment.isStore).filterMap Segment.transfer?
  let leading := (span.tail.takeWhile Segment.isStore).length
  if span.any Segment.isLoop || leading != stores.length then none
  else
    let others := span.filter (!·.isStore)
    let blocks := max (others.countP Segment.isBlock) 1
    let share := (stores.length + blocks - 1) / blocks
    some (refreshBlocks (dealStores share (rotateStores stores) others))

def Transfer.identityKey (t : Transfer) : List Nat :=
  [t.direction.code.toNat, t.hostAddr.toNat, t.localAddr.toNat, t.cluster.toNat, t.unit.toNat,
    t.width.toNat, t.height.toNat]

def sameTransfers (a b : List Segment) : Bool :=
  sortOn Transfer.identityKey (a.filterMap Segment.transfer?) ==
    sortOn Transfer.identityKey (b.filterMap Segment.transfer?)

def acceptsSpread (span candidate : List Segment) : Checked Bool :=
  match checkBlocks candidate with
  | .error _ => return false
  | .ok () => do
    let before ← countElements span
    let after ← countElements candidate
    return before == after && sameTransfers span candidate

def spreadSpan (span : List Segment) : Checked (List Segment) :=
  match spreadSpan? span with
  | none => return span
  | some candidate => do
    return if ← acceptsSpread span candidate then candidate else span

/-- Cut a stream that starts at `index` in front of every block that stores: the part before the
first of them, and the span of each. -/
def storeSpans : Nat → List Segment → Except Fault (List Segment × List (List Segment))
  | _, [] => .ok ([], [])
  | index, .block count :: rest => do
    let body ← blockBody index count rest
    let (first, spans) ← storeSpans (index + 1) rest
    if body.any Segment.isStore then
      return ([], (.block count :: first) :: spans)
    else
      return (.block count :: first, spans)
  | index, s :: rest => do
    let (first, spans) ← storeSpans (index + 1) rest
    return (s :: first, spans)

def spreadStores (segments : List Segment) : Outcome (List Segment) := do
  let (first, spans) ← storeSpans 0 segments
  let spans ← (spans.mapM spreadSpan : Checked (List (List Segment)))
  return first ++ spans.flatten

end CommandStream
