import CommandStream.Hardware

/-! # Settings

Which passes run, how they are tuned, and the hardware they run for.
-/

namespace CommandStream

structure Pipeline where
  merge : Bool := true
  blocks : Bool := true
  splitStores : Bool := true
  loops : Bool := true
  balance : Bool := true
  /-- Balance loads as well as stores. -/
  balanceLoads : Bool := false
  /-- The shortest run that becomes a loop. -/
  minLoopLen : Nat := 5
  /-- How many transfers of a batch go ahead of its compute commands. -/
  blockSplit : Nat := 65535
  deriving DecidableEq, Repr

structure Settings where
  hardware : Hardware := {}
  pipeline : Pipeline := {}
  deriving DecidableEq, Repr

end CommandStream
