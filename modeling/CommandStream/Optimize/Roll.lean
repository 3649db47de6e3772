import CommandStream.Segment.Block
import CommandStream.Segment.Run

/-! # Rolling loops

Runs of transfers of one shape whose addresses and masks progress regularly become loops. Masks are
compared with those of the first transfer of a run: the amount that moves the first mask onto a
later one tells which counter has advanced. A loop is used only if it expands to exactly the run.
-/

namespace CommandStream

/-- The innermost counter that has been seen to advance. -/
inductive LoopLevel where
  | inner
  | unit
  | cluster
  deriving DecidableEq, Repr

/-- A run that may become a loop, grown one transfer at a time. Each transfer adds to at most one of
the three lengths, so they stay below the number of transfers. -/
structure Progression where
  first : Transfer
  /-- The transfers behind the first, the last one in front. -/
  others : List Transfer
  hostStep : Int
  localStep : Int
  clusterLen : Nat := 0
  unitLen : Nat := 0
  innerLen : Nat := 0
  clusterShift : Option Int := none
  unitShift : Option Int := none
  clusterLast : Int
  unitLast : Int
  level : LoopLevel
  deriving DecidableEq, Repr

namespace Progression

def hostDistance? (a b : Transfer) : Option Int :=
  let d : Int := b.hostAddr.toNat - a.hostAddr.toNat
  if -0x8000000000000000 ≤ d ∧ d < 0x8000000000000000 then some d else none

def localDistance (a b : Transfer) : Int := (b.localAddr.toNat : Int) - a.localAddr.toNat

/-- Remember the first cluster amount, and the first unit amount within one cluster. -/
def noteShifts (p : Progression) (cluster unit : Int) : Progression :=
  { p with
    clusterShift := if cluster ≠ 0 && p.clusterShift.isNone then some cluster else p.clusterShift
    unitShift :=
      if cluster = 0 && unit ≠ 0 && p.unitShift.isNone then some unit else p.unitShift }

def amounts? (a b : Transfer) : Option (Int × Int) := do
  return (← Mask.shiftTo? a.cluster b.cluster, ← Mask.shiftTo? a.unit b.unit)

def start? (first second : Transfer) : Option Progression := do
  let (cluster, unit) ← amounts? first second
  let hostStep ← hostDistance? first second
  let level : LoopLevel :=
    if cluster ≠ 0 then .cluster else if unit ≠ 0 then .unit else .inner
  let p : Progression := {
    first, hostStep, level
    others := [second]
    localStep := localDistance first second
    clusterLen := if level = .cluster then 1 else 0
    unitLen := if level = .unit then 1 else 0
    innerLen := if level = .inner then 1 else 0
    clusterLast := cluster
    unitLast := unit }
  return p.noteShifts cluster unit

def last (p : Progression) : Transfer := p.others.headD p.first

/-- Count an iteration of the innermost counter, or leave its level when a mask has changed. -/
def stepInner? (p : Progression) (next : Transfer) (cluster unit : Int) : Option Progression :=
  if p.level ≠ .inner then some p
  else if cluster = 0 && unit = 0 then
    if p.localStep = localDistance p.last next then some { p with innerLen := p.innerLen + 1 }
    else none
  else some { p with level := .unit }

/-- Count an iteration of the unit counter, which keeps the direction of its first step, or leave
its level when the clusters have changed. -/
def stepUnit? (p : Progression) (cluster unit : Int) : Option Progression :=
  if p.level ≠ .unit then some p
  else if cluster = 0 && unit ≠ 0 && unit ≠ p.unitLast then
    if (unit - p.unitLast).sign = (p.unitShift.getD unit).sign then
      some { p with unitLast := unit, unitLen := p.unitLen + 1 }
    else none
  else if cluster ≠ 0 then some { p with level := .cluster }
  else some p

def stepCluster (p : Progression) (cluster : Int) : Progression :=
  if p.level = .cluster && cluster ≠ 0 && cluster ≠ p.clusterLast then
    { p with clusterLast := cluster, clusterLen := p.clusterLen + 1 }
  else p

def push? (p : Progression) (next : Transfer) : Option Progression := do
  let (cluster, unit) ← amounts? p.first next
  guard (hostDistance? p.last next = some p.hostStep)
  let p ← p.stepInner? next cluster unit
  let p ← p.stepUnit? cluster unit
  let p := (p.stepCluster cluster).noteShifts cluster unit
  return { p with others := next :: p.others }

def length (p : Progression) : Nat := p.others.length + 1

def transfers (p : Progression) : List Transfer := p.first :: p.others.reverse

/-- The loop with the observed counters, if every field fits. The local step is not observed
without inner iterations. -/
def loop? (p : Progression) : Option TransferLoop := do
  let localStep := if p.innerLen = 0 then 0 else p.localStep
  let clusterShift := p.clusterShift.getD 0
  let unitShift := p.unitShift.getD 0
  guard (TransferLoop.localStepFits localStep)
  guard (p.clusterLen < 256 ∧ p.unitLen < 256 ∧ p.innerLen < 256 ∧ p.length < 65536)
  guard (-0x80000000 ≤ p.hostStep ∧ p.hostStep < 0x80000000)
  guard (-128 ≤ clusterShift ∧ clusterShift < 128 ∧ -128 ≤ unitShift ∧ unitShift < 128)
  return {
    clusterLen := UInt8.ofNat p.clusterLen
    clusterShift := Int8.ofInt clusterShift
    unitLen := UInt8.ofNat p.unitLen
    unitShift := Int8.ofInt unitShift
    innerLen := UInt8.ofNat p.innerLen
    localStep := Int16.ofInt localStep
    hostStep := Int32.ofInt p.hostStep
    count := UInt16.ofNat p.length
    base := p.first }

/-- One loop if the progression is long enough and the loop expands to it; else its transfers. -/
def finish (p : Progression) (minLen : Nat) : List Segment :=
  match p.loop? with
  | some l =>
    if minLen ≤ p.length && l.expand == p.transfers then [.loop l]
    else p.transfers.map .transfer
  | none => p.transfers.map .transfer

end Progression

inductive LoopCandidate where
  | single (t : Transfer)
  | progression (p : Progression)
  deriving DecidableEq, Repr

def rollFrom (minLen : Nat) : LoopCandidate → List Transfer → List Segment
  | .single t, [] => [.transfer t]
  | .single t, next :: rest =>
    match Progression.start? t next with
    | some p => rollFrom minLen (.progression p) rest
    | none => .transfer t :: rollFrom minLen (.single next) rest
  | .progression p, [] => p.finish minLen
  | .progression p, next :: rest =>
    match p.push? next with
    | some p => rollFrom minLen (.progression p) rest
    | none => p.finish minLen ++ rollFrom minLen (.single next) rest

def rollRun (minLen : Nat) : List Transfer → List Segment
  | [] => []
  | t :: rest => rollFrom minLen (.single t) rest

/-- Replace regular runs of at least `minLen` transfers by loops. -/
def rollLoops (segments : List Segment) (minLen : Nat) : Outcome (List Segment) := do
  let before ← countElements segments
  let input := unrolledCount segments
  let out := refreshBlocks (mapRuns Transfer.sameShape (rollRun (max minLen 2)) segments)
  let unrolled := unrolledCount out
  if unrolled ≠ input then
    refuse (.unrolledLengthMismatch .loops input unrolled)
  let after ← countElements out
  if after ≠ before then
    refuse (.elementCountMismatch .loops before after)
  return out

end CommandStream
