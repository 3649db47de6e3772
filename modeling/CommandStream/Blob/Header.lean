import CommandStream.Layer
import CommandStream.Record.Codec

/-! # Blob headers

The header of a blob takes 24 bytes and the header of a layer 192.
-/

namespace CommandStream.Blob

open Layout

def layerKind : Layout LayerKind :=
  u8.coded LayerKind.code (Record.known .unknownLayerType LayerKind.ofCode?)
    (fun k => by simp [Record.known, LayerKind.ofCode?_code])

def activation : Layout Activation :=
  u8.coded Activation.code (Record.known .unknownActivation Activation.ofCode?)
    (fun a => by simp [Record.known, Activation.ofCode?_code])

def image : Layout Image :=
  (u32.pair <| u32.pair <| u32.pair <| u32.pair u32).map
    Image.ofFields Image.toFields Image.ofFields_toFields

def params : Layout LayerParams :=
  (u16.pair <| u16.pair <| u16.pair <| (layerKind.before [0]).pair <| u16.pair <| u16.pair <|
      u32.pair <| u16.pair <| u16.pair <| u16.pair <| u16.pair <| u16.pair <| u16.pair <|
      i16.pair <| i16.pair <| i16.pair <| i16.pair <| i16.pair <| i16.pair <| i16.pair <|
      i16.pair <| i16.pair <| u16.pair <| (activation.before [0]).pair <| u16.pair <|
      Record.padWidths.pair <| image.pair <| image.pair <| u16.pair <| u16.pair <| u16.pair <|
      flag.pair <| flag.pair <| u16.pair <| u16.pair <| u16.pair <| u16.pair <| u16.pair <|
      u16.pair <| u16.pair <| u16.pair <| u16.pair <| u16.pair <| u16.pair <| u16.pair <|
      Record.padWidths.pair <| u16.pair u16).map
    LayerParams.ofFields LayerParams.toFields LayerParams.ofFields_toFields

def layerHeaderSize : Nat := 192

/-- A layer header: parameters, filler, and the number of records that follow. -/
def layerHeader : Layout (LayerParams × Int32) := params.pair (i32.behind (zeros 20))

def recordCountField : Layout Int32 := i32.behind (zeros 188)

def headerSize : Nat := 24

def magic : UInt32 := 0xf3f67a81

structure Header where
  magic : UInt32
  blobSize : UInt32
  execCount : UInt32
  execOffset : UInt32
  layerCount : UInt32
  deriving DecidableEq, Repr

def header : Layout Header :=
  (u32.pair <| u32.pair <| (u32.behind (zeros 4)).pair <| u32.pair u32).map
    (fun (magic, blobSize, execCount, execOffset, layerCount) =>
      { magic, blobSize, execCount, execOffset, layerCount })
    (fun h => (h.magic, h.blobSize, h.execCount, h.execOffset, h.layerCount))
    (fun _ => rfl)

theorem width_layerHeader : layerHeader.width = layerHeaderSize := by decide

theorem width_header : header.width = headerSize := by decide

end CommandStream.Blob
