import CommandStream.Optimize.Merge

/-! # Batching

Between two boundaries all transfers are gathered into blocks that the engines fetch at once.
Transfers that differ only in their clusters become one broadcast, and larger transfers go first.
-/

namespace CommandStream

def Segment.isBoundary : Segment → Bool
  | .sync _ | .padding _ | .scatter _ => true
  | _ => false

def Segment.isCompute : Segment → Bool
  | .compute _ => true
  | _ => false

/-- The stretch up to the first boundary, and each boundary with the stretch behind it. -/
def stretches : List Segment → List Segment × List (Segment × List Segment)
  | [] => ([], [])
  | s :: rest =>
    let (first, more) := stretches rest
    if s.isBoundary then ([], (s, first) :: more) else (s :: first, more)

/-- The same transfer for other clusters. -/
def Transfer.isSibling (a b : Transfer) : Bool :=
  a.cluster &&& b.cluster == 0 && { a with cluster := 0 } == { b with cluster := 0 }

def Transfer.broadcast (a b : Transfer) : Id (Option Transfer) :=
  if a.isSibling b then some { a with cluster := a.cluster ||| b.cluster } else none

namespace Segment

def addressKey : Segment → List Nat
  | .transfer t => t.addressKey
  | .loop l => l.base.addressKey
  | _ => [0, 0, 0, 0]

def area : Segment → Nat
  | .transfer t => t.area
  | .loop l => l.base.area
  | _ => 0

end Segment

/-- Sort by address, fold siblings into broadcasts, and put larger transfers first. -/
def arrangeWindow (window : List Segment) : List Segment :=
  let folded := (absorb Transfer.broadcast (sortOn Segment.addressKey window)).run.kept
  folded.mergeSort fun a b => b.area ≤ a.area

def arrange (stretch : List Segment) : List Segment :=
  let windows := (stretch.filter Segment.isDma).splitBy fun a b => a.isStore == b.isStore
  windows.flatMap arrangeWindow

def asBlock (dma : List Segment) : List Segment :=
  if dma.isEmpty then [] else .block (UInt32.ofNat (recordCount dma)) :: dma

/-- The blocks and compute commands of a stretch. When it has both, the first `ahead` transfers go
in front of the compute commands. -/
def batchStretch (ahead : Nat) (stretch : List Segment) : List Segment :=
  let dma := arrange stretch
  let compute := stretch.filter Segment.isCompute
  if compute.isEmpty then asBlock dma
  else asBlock (dma.take ahead) ++ compute ++ asBlock (dma.drop ahead)

/-- Gather the transfers of every stretch into blocks; markers of the input are dropped. -/
def batch (segments : List Segment) (ahead : Nat) : Outcome (List Segment) := do
  let before ← countElements segments
  let (first, more) := stretches segments
  let out := batchStretch ahead first ++
    more.flatMap fun (boundary, stretch) => boundary :: batchStretch ahead stretch
  let after ← countElements out
  if before ≠ after then
    refuse (.elementCountMismatch .blocks before after)
  else
    return out

end CommandStream
