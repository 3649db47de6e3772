import CommandStream.Word.Mask

/-! # Hardware

Geometry and timing of the accelerator that streams are compiled and scheduled for.
-/

namespace CommandStream

structure Hardware where
  clusters : UInt32 := 8
  units : UInt32 := 8
  lanes : UInt32 := 2
  registerFileSize : UInt32 := 1024
  localMemorySize : UInt32 := 8192
  maxTransferElements : UInt32 := 8192
  writeReadBubble : UInt32 := 6
  minVectorLength : UInt32 := 6
  deriving DecidableEq, Repr

namespace Hardware

def clusterMask (hw : Hardware) : Mask := Mask.full hw.clusters.toNat

def unitMask (hw : Hardware) : Mask := Mask.full hw.units.toNat

end Hardware

end CommandStream
