import CommandStream.Blob.Header

/-! # Network blobs

A blob holds a network in one relocatable piece: a header, a table of layer offsets, the layers
with their records, and the execution list. Layers start at multiples of 32 bytes.
-/

namespace CommandStream.Blob

def align (n : Nat) : Nat := (n + 31) / 32 * 32

def sizeField (field : NarrowField) (n : Nat) : Except Fault UInt32 :=
  if n < UInt32.size then .ok (UInt32.ofNat n) else .error (.fieldOverflow field n)

def wordBytes (words : List UInt32) : List UInt8 := words.flatMap Layout.u32.write

def checkExecList (layerCount : Nat) (execList : List UInt32) : Except Fault Unit :=
  match execList.zipIdx.find? (fun (layer, _) => layerCount ≤ layer.toNat) with
  | some (layer, entry) => .error (.execListOutOfRange entry layer.toNat layerCount)
  | none => .ok ()

/-- Header and records of a layer, filled up with zeros. -/
def encodeLayer (layer : Layer) : Except Fault (List UInt8) := do
  let records ← Record.encode layer.segments
  let count := records.length / Record.size
  if count < 0x80000000 then
    let bytes := layerHeader.write (layer.params, Int32.ofNat count) ++ records
    return bytes ++ zeros (align bytes.length - bytes.length)
  else .error (.fieldOverflow .segmentCount count)

/-- Offsets of consecutive pieces, the first of which stands at `start`. -/
def layerOffsets (start : Nat) : List (List UInt8) → Except Fault (List UInt32)
  | [] => .ok []
  | piece :: rest => do
    let offset ← sizeField .layerOffset start
    return offset :: (← layerOffsets (start + piece.length) rest)

def ofNet (net : Net) : Except Fault (List UInt8) := do
  let layerCount ← sizeField .layerCount net.layers.length
  checkExecList net.layers.length net.execList
  let layers ← net.layers.mapM encodeLayer
  let tableEnd := align (headerSize + 4 * layers.length)
  let offsets ← layerOffsets tableEnd layers
  let body := layers.flatten
  let execStart := tableEnd + body.length
  let blobSize ← sizeField .blobSize (execStart + 4 * net.execList.length)
  let execCount ← sizeField .execCount net.execList.length
  let execOffset ← sizeField .execOffset execStart
  let table :=
    header.write { magic, blobSize, execCount, execOffset, layerCount } ++ wordBytes offsets
  return table ++ zeros (tableEnd - table.length) ++ body ++ wordBytes net.execList

def slice (bytes : List UInt8) (offset length : Nat) : Except Fault (List UInt8) :=
  if offset + length ≤ bytes.length then .ok ((bytes.drop offset).take length)
  else .error (.truncated offset length (bytes.length - offset))

def words : Nat → List UInt8 → List UInt32
  | 0, _ => []
  | n + 1, bytes => UInt32.ofNat (littleEndian (bytes.take 4)) :: words n (bytes.drop 4)

/-- What the blob header and the offset table tell. -/
structure Summary where
  blobSize : UInt32
  layerCount : UInt32
  execCount : UInt32
  execOffset : UInt32
  layerOffsets : List UInt32
  deriving DecidableEq, Repr

/-- Read and check the header and the offset table. -/
def summary (bytes : List UInt8) : Except Fault Summary := do
  let h ← header.read (← slice bytes 0 headerSize)
  let size := h.blobSize.toNat
  let tableSize := 4 * h.layerCount.toNat
  if h.magic ≠ magic then
    throw (.badMagic h.magic magic)
  if bytes.length < size then
    throw (.truncated 0 size bytes.length)
  if size < headerSize + tableSize then
    throw (.truncated headerSize tableSize (size - headerSize))
  let offsets := words h.layerCount.toNat (bytes.drop headerSize)
  if let some offset := offsets.find? (fun o => size < o.toNat + layerHeaderSize) then
    throw (.offsetOutOfRange .layer offset.toNat size)
  if size < h.execOffset.toNat + 4 * h.execCount.toNat then
    throw (.offsetOutOfRange .execList h.execOffset.toNat size)
  return { h with layerOffsets := offsets }

def readLayer (bytes : List UInt8) (offset : Nat) : Except Fault Layer := do
  let head ← slice bytes offset layerHeaderSize
  let count := (← recordCountField.read head).toInt
  if count < 0 then
    throw (.fieldOverflow .segmentCount count)
  let records ← slice bytes (offset + layerHeaderSize) (count.toNat * Record.size)
  let params ← params.read head
  let segments ← Record.decode records
  return { params, segments }

/-- Read a network from a blob; bytes behind the stated size are not looked at. -/
def toNet (bytes : List UInt8) : Except Fault Net := do
  let s ← summary bytes
  let blob := bytes.take s.blobSize.toNat
  let layers ← s.layerOffsets.mapM (fun offset => readLayer blob offset.toNat)
  return { layers, execList := words s.execCount.toNat (blob.drop s.execOffset.toNat) }

end CommandStream.Blob
