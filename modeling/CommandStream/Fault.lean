import CommandStream.Text.Number
import CommandStream.Word.Checked

/-! # Faults

Why a stream, a blob or a description is refused, and the wording of each reason.
-/

namespace CommandStream

inductive Pass where
  | merge
  | blocks
  | split
  | loops
  | balance
  deriving DecidableEq, Repr

def Pass.name : Pass → String
  | .merge => "merge"
  | .blocks => "blocks"
  | .split => "split"
  | .loops => "loops"
  | .balance => "balance"

/-- What a mask selects. -/
inductive Engine where
  | cluster
  | unit
  deriving DecidableEq, Repr

def Engine.name : Engine → String
  | .cluster => "cluster"
  | .unit => "unit"

/-- Part of a blob that is reached through an offset. -/
inductive BlobPart where
  | layer
  | execList
  deriving DecidableEq, Repr

def BlobPart.name : BlobPart → String
  | .layer => "layer"
  | .execList => "execution list"

/-- Field of a record or header that may be too narrow for its value. -/
inductive NarrowField where
  | localStep
  | segmentCount
  | layerCount
  | layerOffset
  | blobSize
  | execCount
  | execOffset
  deriving DecidableEq, Repr

def NarrowField.name : NarrowField → String
  | .localStep => "lm_incr"
  | .segmentCount => "command_segments_count"
  | .layerCount => "layer_count"
  | .layerOffset => "layer offset"
  | .blobSize => "blob_size"
  | .execCount => "exec_count"
  | .execOffset => "exec_offset"

inductive PadExcess where
  | columns (padded width : Nat)
  | rows (padded height : Nat)
  deriving DecidableEq, Repr

def PadExcess.detail : PadExcess → String
  | .columns padded width => s!"{padded} padded columns, x size {width}"
  | .rows padded height => s!"{padded} padded rows, y size {height}"

inductive Fault where
  | elementCountMismatch (pass : Pass) (before after : Nat)
  | unrolledLengthMismatch (pass : Pass) (input unrolled : Nat)
  | malformedBlock (index stated available : Nat)
  | loopWithoutBase (index : Nat)
  | unknownSegmentKind (index : Nat) (kind : UInt8)
  | unknownDirection (code : UInt8)
  | unknownOpcode (code : UInt8)
  | unknownActivation (code : UInt8)
  | unknownLayerType (code : UInt8)
  | truncated (offset needed available : Nat)
  | badMagic (found expected : UInt32)
  | offsetOutOfRange (part : BlobPart) (offset size : Nat)
  | execListOutOfRange (entry layer count : Nat)
  | maskOutOfRange (index : Nat) (engine : Engine) (mask limit : UInt32)
  | paddingExceedsTransfer (index : Nat) (excess : PadExcess)
  | discardOnRect (index : Nat) (skipped : UInt8)
  | fieldOverflow (field : NarrowField) (value : Int)
  | description
  deriving DecidableEq, Repr

open Text in
def Fault.message : Fault → String
  | .elementCountMismatch pass before after =>
    s!"{pass.name}: element count mismatch ({before} before, {after} after)"
  | .unrolledLengthMismatch pass input unrolled =>
    s!"{pass.name}: unrolled record count {unrolled} differs from input count {input}"
  | .malformedBlock index stated available =>
    s!"malformed block at segment {index}: announces {stated} records, " ++
      s!"{available} transfer records follow"
  | .loopWithoutBase index =>
    s!"loop transfer at record {index} is not followed by a base transfer"
  | .unknownSegmentKind index kind =>
    s!"unknown segment kind 0x{hexPadded 2 kind.toNat} at record {index}"
  | .unknownDirection code => s!"unknown transfer direction {code}"
  | .unknownOpcode code => s!"unknown compute opcode {code}"
  | .unknownActivation code => s!"unknown activation {code}"
  | .unknownLayerType code => s!"unknown layer type {code}"
  | .truncated offset needed available =>
    s!"truncated input: need {needed} bytes at offset {offset}, have {available}"
  | .badMagic found expected =>
    s!"bad magic word 0x{hexPadded 8 found.toNat} (expected 0x{hexPadded 8 expected.toNat})"
  | .offsetOutOfRange part offset size =>
    s!"{part.name} offset 0x{hex offset} outside blob of {size} bytes"
  | .execListOutOfRange entry layer count =>
    s!"execution list entry {entry} names layer {layer}, blob has {count} layers"
  | .maskOutOfRange index engine mask limit =>
    s!"segment {index}: {engine.name} mask 0b{binary mask.toNat} exceeds {limit} configured " ++
      s!"{engine.name}s"
  | .paddingExceedsTransfer index excess =>
    s!"segment {index}: padding wider than the transfer ({excess.detail})"
  | .discardOnRect index skipped =>
    s!"segment {index}: 2D transfer carries {skipped} discarded trailing elements"
  | .fieldOverflow field value =>
    s!"{field.name} value {decimal value} does not fit the wire format"
  | .description => "invalid network description"

/-- How an operation on streams can end without a result. -/
inductive Failure where
  | fault (f : Fault)
  | overflow (o : Overflow)
  deriving DecidableEq, Repr

abbrev Outcome (α : Type) := Except Failure α

def refuse {α : Type} (f : Fault) : Outcome α := .error (.fault f)

instance : MonadLift (Except Overflow) (Except Failure) where
  monadLift := Except.mapError .overflow

instance : MonadLift (Except Fault) (Except Failure) where
  monadLift := Except.mapError .fault

end CommandStream
