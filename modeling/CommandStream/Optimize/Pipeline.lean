import CommandStream.Blob.Basic
import CommandStream.Optimize.Balance
import CommandStream.Optimize.Batch
import CommandStream.Optimize.Roll
import CommandStream.Optimize.Spread
import CommandStream.Optimize.Validity
import CommandStream.Settings.Basic

/-! # The optimiser

The passes in their order, with the record counts around each of them.
-/

namespace CommandStream

structure PassStats where
  pass : Pass
  recordsIn : Nat
  recordsOut : Nat
  elements : Nat
  deriving DecidableEq, Repr

def PassStats.bytesSaved (s : PassStats) : Int :=
  ((s.recordsIn : Int) - s.recordsOut) * Record.size

/-- A stream on its way through the passes, with the statistics of those that are done. -/
structure Optimized where
  segments : List Segment
  stats : List PassStats := []
  deriving DecidableEq, Repr

/-- Run a pass if it is enabled; its result must have consistent blocks. -/
def Optimized.stage (o : Optimized) (pass : Pass) (enabled : Bool)
    (run : List Segment → Outcome (List Segment)) : Outcome Optimized :=
  if !enabled then return o
  else do
    let out ← run o.segments
    checkBlocks out
    let elements ← countElements out
    let recordsIn := recordCount o.segments
    return {
      segments := out
      stats := o.stats ++ [{ pass, recordsIn, recordsOut := recordCount out, elements }] }

/-- Optimise a stream that starts under the given pad widths. -/
def optimize (segments : List Segment) (pad : PadWidths) (cfg : Settings) : Outcome Optimized := do
  let p := cfg.pipeline
  let maxElements := cfg.hardware.maxTransferElements.toNat
  checkTransfers segments cfg.hardware pad
  let o : Optimized := { segments := segments }
  let o ← o.stage .merge p.merge (merge · maxElements)
  let o ← o.stage .blocks p.blocks (batch · p.blockSplit)
  let o ← o.stage .merge (p.blocks && p.merge) (merge · maxElements)
  let o ← o.stage .split p.splitStores spreadStores
  let o ← o.stage .loops p.loops (rollLoops · p.minLoopLen)
  o.stage .balance p.balance (fun s => return balance s p.balanceLoads)

def Layer.optimize (layer : Layer) (cfg : Settings) : Outcome (Layer × List PassStats) := do
  let o ← CommandStream.optimize layer.segments layer.params.pad cfg
  return ({ layer with segments := o.segments }, o.stats)

def Net.optimize (net : Net) (cfg : Settings) : Outcome (Net × List (List PassStats)) := do
  let layers ← net.layers.mapM (·.optimize cfg)
  return ({ net with layers := layers.map (·.1) }, layers.map (·.2))

def Blob.optimize (bytes : List UInt8) (cfg : Settings) :
    Outcome (List UInt8 × List (List PassStats)) := do
  let net ← Blob.toNet bytes
  let (net, stats) ← net.optimize cfg
  return (← Blob.ofNet net, stats)

end CommandStream
