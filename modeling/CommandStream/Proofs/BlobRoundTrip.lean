import CommandStream.Blob.Basic
import CommandStream.Proofs.RecordRoundTrip

/-! # Reading a network back from its blob

The header and the offset table say where each layer and the execution list lie, and every part is
read back from its own bytes.
-/

namespace CommandStream

namespace Blob

/-! ## Parts -/

theorem sizeField_eq_ok {field : NarrowField} {n : Nat} {word : UInt32}
    (h : sizeField field n = .ok word) : word.toNat = n := by
  unfold sizeField at h
  split at h
  · rename_i hlt
    rw [← Except.ok.inj h]
    exact UInt32.toNat_ofNat_of_lt hlt
  · cases h

theorem le_align (n : Nat) : n ≤ align n := by
  unfold align
  omega

theorem length_wordBytes (ws : List UInt32) : (wordBytes ws).length = 4 * ws.length := by
  induction ws with
  | nil => rfl
  | cons w ws ih =>
    have hw : (Layout.u32.write w).length = 4 := Layout.u32.length_write w
    rw [wordBytes, List.flatMap_cons, List.length_append, hw, ← wordBytes, ih, List.length_cons]
    omega

theorem words_wordBytes (ws : List UInt32) (rest : List UInt8) :
    words ws.length (wordBytes ws ++ rest) = ws := by
  induction ws with
  | nil => rfl
  | cons w ws ih =>
    have hw : (Layout.u32.write w).length = 4 := Layout.u32.length_write w
    have hread : UInt32.ofNat (littleEndian ((Layout.u32.write w ++
        (wordBytes ws ++ rest)).take 4)) = w :=
      Except.ok.inj (Layout.u32.read_write w (wordBytes ws ++ rest))
    have hcons : wordBytes (w :: ws) ++ rest = Layout.u32.write w ++ (wordBytes ws ++ rest) := by
      simp [wordBytes]
    rw [hcons, List.length_cons, words, hread, List.drop_left' hw, ih]

theorem slice_append (front piece back : List UInt8) :
    slice (front ++ (piece ++ back)) front.length piece.length = .ok piece := by
  unfold slice
  rw [if_pos (by simp), List.drop_left, List.take_left]

/-! ## Layers -/

theorem encodeLayer_eq_ok {layer : Layer} {piece : List UInt8} (h : encodeLayer layer = .ok piece) :
    ∃ records fill, Record.encode layer.segments = .ok records ∧
      records.length / Record.size < 0x80000000 ∧
      piece = layerHeader.write (layer.params, Int32.ofNat (records.length / Record.size)) ++
        (records ++ zeros fill) := by
  obtain ⟨records, hrecords, h⟩ := bind_eq_ok_iff.mp h
  dsimp only at h
  split at h
  · rename_i hcount
    exact ⟨records, _, hrecords, hcount,
      (pure_eq_ok_iff.mp h).symm.trans (List.append_assoc _ _ _)⟩
  · cases h

theorem read_layerHeader (p : LayerParams) (count : Int32) :
    params.read (layerHeader.write (p, count)) = .ok p ∧
      recordCountField.read (layerHeader.write (p, count)) = .ok count := by
  have hwrite : layerHeader.write (p, count) =
      params.write p ++ (zeros 20 ++ Layout.i32.write count) := rfl
  have hwidth : (params.write p ++ zeros 20).length = 188 := by
    rw [List.length_append, params.length_write]
    rfl
  constructor
  · rw [hwrite, params.read_write]
  · change Layout.i32.read ((layerHeader.write (p, count)).drop 188) = .ok count
    rw [hwrite, ← List.append_assoc, List.drop_left' hwidth, Layout.read_write_self]

theorem length_layerHeader (x : LayerParams × Int32) :
    (layerHeader.write x).length = layerHeaderSize := by
  rw [layerHeader.length_write, width_layerHeader]

theorem readLayer_encodeLayer {layer : Layer} {piece : List UInt8}
    (h : encodeLayer layer = .ok piece) (front back : List UInt8) :
    readLayer (front ++ (piece ++ back)) front.length = .ok layer := by
  obtain ⟨records, fill, hrecords, hcount, rfl⟩ := encodeLayer_eq_ok h
  obtain ⟨hmod, hdecode⟩ := Record.decode_encode hrecords
  have hlength : records.length = records.length / Record.size * Record.size :=
    (Nat.div_mul_cancel (Nat.dvd_of_mod_eq_zero hmod)).symm
  generalize hn : records.length / Record.size = n at hcount hlength
  have hint : (Int32.ofNat n).toInt = n := Int32.toInt_ofNat_of_lt hcount
  obtain ⟨hparams, hfield⟩ := read_layerHeader layer.params (Int32.ofNat n)
  have hhead := slice_append front (layerHeader.write (layer.params, Int32.ofNat n))
    (records ++ zeros fill ++ back)
  have hbody := slice_append (front ++ layerHeader.write (layer.params, Int32.ofNat n)) records
    (zeros fill ++ back)
  rw [length_layerHeader] at hhead
  rw [List.length_append, length_layerHeader, hlength] at hbody
  simp only [List.append_assoc] at hhead hbody ⊢
  unfold readLayer
  simp only [hhead, ok_bind, hfield, hint, Int.toNat_natCast, hbody, hparams, hdecode]
  rw [if_neg (by omega)]
  rfl

theorem le_length_encodeLayer {layer : Layer} {piece : List UInt8}
    (h : encodeLayer layer = .ok piece) : layerHeaderSize ≤ piece.length := by
  obtain ⟨records, fill, -, -, rfl⟩ := encodeLayer_eq_ok h
  rw [List.length_append, length_layerHeader]
  exact Nat.le_add_right _ _

section Offsets

variable {layers : List Layer} {pieces : List (List UInt8)} {offsets : List UInt32}

theorem layerOffsets_cons {start : Nat} {piece : List UInt8}
    (h : layerOffsets start (piece :: pieces) = .ok offsets) :
    ∃ offset more, offsets = offset :: more ∧ offset.toNat = start ∧
      layerOffsets (start + piece.length) pieces = .ok more := by
  obtain ⟨offset, hoffset, h⟩ := bind_eq_ok_iff.mp h
  obtain ⟨more, hmore, h⟩ := bind_eq_ok_iff.mp h
  exact ⟨offset, more, (pure_eq_ok_iff.mp h).symm, sizeField_eq_ok hoffset, hmore⟩

theorem length_layerOffsets {start : Nat} (h : layerOffsets start pieces = .ok offsets) :
    offsets.length = pieces.length := by
  induction pieces generalizing start offsets with
  | nil => rw [← Except.ok.inj h]; rfl
  | cons piece pieces ih =>
    obtain ⟨offset, more, rfl, -, hmore⟩ := layerOffsets_cons h
    rw [List.length_cons, ih hmore, List.length_cons]

theorem layerOffsets_bound (hpieces : ∀ piece ∈ pieces, layerHeaderSize ≤ piece.length)
    {start : Nat} (h : layerOffsets start pieces = .ok offsets) :
    ∀ offset ∈ offsets, offset.toNat + layerHeaderSize ≤ start + pieces.flatten.length := by
  induction pieces generalizing start offsets with
  | nil => rw [← Except.ok.inj h]; simp
  | cons piece pieces ih =>
    rw [List.forall_mem_cons] at hpieces
    obtain ⟨offset, more, rfl, hoffset, hmore⟩ := layerOffsets_cons h
    have hmore := ih hpieces.2 hmore
    rw [List.flatten_cons, List.length_append, List.forall_mem_cons]
    refine ⟨by omega, fun o ho => ?_⟩
    have := hmore o ho
    omega

theorem readLayer_at_offsets
    (hpieces : List.Forall₂ (fun layer piece => encodeLayer layer = .ok piece) layers pieces)
    {front : List UInt8} (back : List UInt8)
    (h : layerOffsets front.length pieces = .ok offsets) :
    offsets.mapM (fun offset => readLayer (front ++ (pieces.flatten ++ back)) offset.toNat) =
      .ok layers := by
  rw [mapM_eq_ok_iff]
  induction hpieces generalizing front offsets with
  | nil => rw [← Except.ok.inj h]; exact .nil
  | @cons layer piece layers pieces hpiece _ ih =>
    obtain ⟨offset, more, rfl, hoffset, hmore⟩ := layerOffsets_cons h
    rw [← List.length_append] at hmore
    have hlayer := readLayer_encodeLayer hpiece front (pieces.flatten ++ back)
    have hrest := ih hmore
    simp only [List.append_assoc] at hrest
    refine .cons ?_ ?_
    · rw [hoffset, List.flatten_cons, List.append_assoc]
      exact hlayer
    · simpa only [List.flatten_cons, List.append_assoc] using hrest

end Offsets

/-! ## Blobs -/

theorem length_header (head : Header) : (header.write head).length = headerSize := by
  rw [header.length_write, width_header]

/-- What stands before the first layer: the header, the offset table, and zeros. -/
def opening (head : Header) (offsets : List UInt32) (fill : Nat) : List UInt8 :=
  header.write head ++ wordBytes offsets ++ zeros fill

structure Assembled (net : Net) (bytes : List UInt8) (head : Header) (offsets : List UInt32)
    (fill : Nat) (pieces : List (List UInt8)) : Prop where
  encoded : List.Forall₂ (fun layer piece => encodeLayer layer = .ok piece) net.layers pieces
  placed : layerOffsets (opening head offsets fill).length pieces = .ok offsets
  aligned : (opening head offsets fill).length = align (headerSize + 4 * net.layers.length)
  hasMagic : head.magic = magic
  layerCount : head.layerCount.toNat = net.layers.length
  execCount : head.execCount.toNat = net.execList.length
  execOffset : head.execOffset.toNat = (opening head offsets fill ++ pieces.flatten).length
  blobSize : head.blobSize.toNat = bytes.length
  bytes_eq : bytes = opening head offsets fill ++ pieces.flatten ++ wordBytes net.execList

theorem ofNet_eq_ok {net : Net} {bytes : List UInt8} (h : ofNet net = .ok bytes) :
    ∃ head offsets fill pieces, Assembled net bytes head offsets fill pieces := by
  unfold ofNet at h
  simp only [bind_eq_ok_iff, pure_eq_ok_iff] at h
  obtain ⟨layerCount, hlayers, _, -, pieces, hpieces, offsets, hoffsets, blobSize, hsize, execCount,
    hcount, execOffset, hoffset, rfl⟩ := h
  have hencoded := mapM_eq_ok_iff.mp hpieces
  have hfront : ∀ head : Header, (opening head offsets
      (align (headerSize + 4 * pieces.length) -
        (header.write head ++ wordBytes offsets).length)).length =
      align (headerSize + 4 * pieces.length) := by
    intro head
    have hle := le_align (headerSize + 4 * pieces.length)
    simp only [opening, List.length_append, length_header, length_wordBytes,
      length_layerOffsets hoffsets, zeros, List.length_replicate]
    omega
  exact ⟨{ magic, blobSize, execCount, execOffset, layerCount }, offsets, _, pieces, {
    encoded := hencoded
    placed := by rw [hfront]; exact hoffsets
    aligned := by rw [hfront, hencoded.length_eq]
    hasMagic := rfl
    layerCount := sizeField_eq_ok hlayers
    execCount := sizeField_eq_ok hcount
    execOffset := by rw [List.length_append, hfront]; exact sizeField_eq_ok hoffset
    blobSize := by
      rw [List.length_append, List.length_append, ← opening, hfront, length_wordBytes]
      exact sizeField_eq_ok hsize
    bytes_eq := rfl }⟩

namespace Assembled

variable {net : Net} {bytes : List UInt8} {head : Header} {offsets : List UInt32} {fill : Nat}
  {pieces : List (List UInt8)}

theorem length_offsets (h : Assembled net bytes head offsets fill pieces) :
    offsets.length = net.layers.length := by
  rw [length_layerOffsets h.placed, ← h.encoded.length_eq]

theorem length_bytes (h : Assembled net bytes head offsets fill pieces) :
    bytes.length = head.execOffset.toNat + 4 * net.execList.length := by
  rw [h.bytes_eq, List.length_append, length_wordBytes, h.execOffset]

theorem summary_eq (h : Assembled net bytes head offsets fill pieces) :
    summary bytes = .ok { head with layerOffsets := offsets } := by
  have htotal := h.length_bytes
  have htable : headerSize + 4 * head.layerCount.toNat ≤ head.execOffset.toNat := by
    rw [h.execOffset, h.layerCount, ← h.length_offsets]
    simp only [opening, List.length_append, length_header, length_wordBytes]
    omega
  have hslice : slice bytes 0 headerSize = .ok (header.write head) := by
    have hfront := slice_append [] (header.write head)
      (wordBytes offsets ++ zeros fill ++ pieces.flatten ++ wordBytes net.execList)
    rw [length_header] at hfront
    simpa [h.bytes_eq, opening] using hfront
  have hwords : words head.layerCount.toNat (bytes.drop headerSize) = offsets := by
    rw [h.bytes_eq, h.layerCount, ← h.length_offsets, ← length_header head]
    simp only [opening, List.append_assoc, List.drop_left, words_wordBytes]
  have hroom : ∀ piece ∈ pieces, layerHeaderSize ≤ piece.length := by
    intro piece hpiece
    obtain ⟨layer, -, hlayer⟩ := exists_of_mem_forall₂ h.encoded hpiece
    exact le_length_encodeLayer hlayer
  have hbound : offsets.find? (fun o => bytes.length < o.toNat + layerHeaderSize) = none := by
    rw [List.find?_eq_none]
    intro o ho
    have hle := layerOffsets_bound hroom h.placed o ho
    rw [← List.length_append, ← h.execOffset] at hle
    simp only [decide_eq_true_eq]
    omega
  have hcount := h.execCount
  unfold summary
  simp only [hslice, ok_bind, Layout.read_write_self, h.hasMagic, h.blobSize, hwords, hbound, ne_eq,
    not_true_eq_false, if_false]
  rw [if_neg (by omega), if_neg (by omega), if_neg (by omega)]
  rfl

end Assembled

theorem summary_ofNet {net : Net} {bytes : List UInt8} (h : ofNet net = .ok bytes) :
    ∃ s, summary bytes = .ok s ∧ s.blobSize.toNat = bytes.length ∧
      s.layerOffsets.mapM (fun offset => readLayer bytes offset.toNat) = .ok net.layers ∧
      words s.execCount.toNat (bytes.drop s.execOffset.toNat) = net.execList := by
  obtain ⟨head, offsets, fill, pieces, h⟩ := ofNet_eq_ok h
  refine ⟨{ head with layerOffsets := offsets }, h.summary_eq, h.blobSize, ?_, ?_⟩
  · have hread := readLayer_at_offsets h.encoded (wordBytes net.execList) h.placed
    rwa [← List.append_assoc, ← h.bytes_eq] at hread
  · have hwords := words_wordBytes net.execList []
    rw [List.append_nil] at hwords
    change words head.execCount.toNat (bytes.drop head.execOffset.toNat) = _
    rw [h.execCount, h.execOffset, h.bytes_eq, List.drop_left, hwords]

/-- A network is read back from its blob. -/
theorem toNet_ofNet {net : Net} {bytes : List UInt8} (h : ofNet net = .ok bytes) :
    toNet bytes = .ok net := by
  obtain ⟨s, hsummary, hsize, hlayers, hexec⟩ := summary_ofNet h
  unfold toNet
  simp only [hsummary, ok_bind, hsize, List.take_length, hlayers, hexec]
  rfl

def bytesOf (net : Net) : List UInt8 :=
  match ofNet net with
  | .ok bytes => bytes
  | .error _ => []

theorem ofNet_eq_bytesOf {net : Net} (h : (ofNet net).isOk = true) :
    ofNet net = .ok (bytesOf net) := by
  unfold bytesOf
  cases hnet : ofNet net with
  | ok bytes => rfl
  | error f => rw [hnet] at h; cases h

end Blob

def Net.oneLayer (segments : List Segment) : Net where
  layers := [{ params := { kind := .concatenate }, segments }]
  execList := [0]

end CommandStream
