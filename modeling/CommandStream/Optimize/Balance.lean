import CommandStream.Segment.Run
import CommandStream.Word.Order

/-! # Balancing the engines

Every cluster has an engine of its own. Taking turns over the clusters keeps all engines busy; only
the order of transfers changes.
-/

namespace CommandStream

/-- One transfer of each cluster mask in turn, smaller masks first. -/
def interleave (run : List Transfer) : List Transfer :=
  takeTurns <| (sortOn (fun t => [t.cluster.toNat]) run).splitBy fun a b => a.cluster == b.cluster

def Transfer.balanced (loads : Bool) (t : Transfer) : Bool := loads || t.isStore

def balanceRun (loads : Bool) : List Transfer → List Transfer
  | [] => []
  | t :: rest => if t.balanced loads then interleave (t :: rest) else t :: rest

/-- Interleave every run of one direction; loads only if asked for. -/
def balance (segments : List Segment) (loads : Bool) : List Segment :=
  permuteRuns (fun a b => a.direction == b.direction) (balanceRun loads) segments

end CommandStream
