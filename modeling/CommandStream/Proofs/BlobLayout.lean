import CommandStream.Proofs.BlobExtent

/-! # Where the bytes of a blob lie

Offsets are handed out before any byte is written. They agree with where the bytes go: the layers
stand on multiples of 32 bytes, one right behind the other, between the offset table and the
execution list. All that is left over is the filler behind the table.
-/

namespace CommandStream.Blob

/-! ## Parts -/

structure Part where
  start : Nat
  stop : Nat
  deriving DecidableEq, Repr

def Part.Holds (part : Part) (i : Nat) : Prop := part.start ≤ i ∧ i < part.stop

/-- The parts fill a stretch one behind the other without a gap, and none of them is empty. -/
def Tiles : Nat → List Part → Nat → Prop
  | start, [], stop => start = stop
  | start, part :: rest, stop => part.start = start ∧ start < part.stop ∧ Tiles part.stop rest stop

namespace Tiles

variable {start stop : Nat} {parts : List Part}

theorem start_le (h : Tiles start parts stop) : start ≤ stop := by
  induction parts generalizing start with
  | nil => exact Nat.le_of_eq h
  | cons part rest ih =>
    obtain ⟨-, hlt, hrest⟩ := h
    exact hlt.le.trans (ih hrest)

theorem bounds (h : Tiles start parts stop) :
    ∀ part ∈ parts, start ≤ part.start ∧ part.start < part.stop ∧ part.stop ≤ stop := by
  induction parts generalizing start with
  | nil => simp
  | cons part rest ih =>
    obtain ⟨rfl, hlt, hrest⟩ := h
    refine List.forall_mem_cons.mpr ⟨⟨le_rfl, hlt, hrest.start_le⟩, fun other hother => ?_⟩
    obtain ⟨hstart, hbounds⟩ := ih hrest other hother
    exact ⟨hlt.le.trans hstart, hbounds⟩

theorem pairwise (h : Tiles start parts stop) :
    parts.Pairwise fun a b => a.start < b.start ∧ a.stop ≤ b.start := by
  induction parts generalizing start with
  | nil => exact .nil
  | cons part rest ih =>
    obtain ⟨rfl, hlt, hrest⟩ := h
    refine .cons (fun other hother => ?_) (ih hrest)
    have hstart := (hrest.bounds other hother).1
    exact ⟨hlt.trans_le hstart, hstart⟩

theorem exists_holds (h : Tiles start parts stop) {i : Nat} (hstart : start ≤ i)
    (hstop : i < stop) : ∃ part ∈ parts, part.Holds i := by
  induction parts generalizing start with
  | nil =>
    obtain rfl : start = stop := h
    omega
  | cons part rest ih =>
    obtain ⟨rfl, hlt, hrest⟩ := h
    rcases Nat.lt_or_ge i part.stop with hi | hi
    · exact ⟨part, List.mem_cons_self, hstart, hi⟩
    · obtain ⟨other, hother, hholds⟩ := ih hrest hi
      exact ⟨other, List.mem_cons_of_mem part hother, hholds⟩

end Tiles

def layerPart (offset : UInt32) (layer : Layer) : Part where
  start := offset.toNat
  stop := offset.toNat + layerHeaderSize + Record.size * recordCount layer.segments

def parts (net : Net) (s : Summary) : List Part :=
  { start := 0, stop := headerSize + 4 * net.layers.length } ::
    (List.zipWith layerPart s.layerOffsets net.layers ++
      [{ start := s.execOffset.toNat, stop := s.execOffset.toNat + 4 * net.execList.length }])

/-! ## Layers -/

theorem dvd_align (n : Nat) : 32 ∣ align n := Nat.dvd_mul_left 32 _

theorem layerSize_eq (layer : Layer) :
    layerSize layer = layerHeaderSize + Record.size * recordCount layer.segments := by
  simp only [layerSize, align, layerHeaderSize, Record.size]
  omega

theorem encodeLayer_eq {layer : Layer} {piece : List UInt8} (h : encodeLayer layer = .ok piece) :
    ∃ records, Record.encode layer.segments = .ok records ∧
      piece = layerHeader.write (layer.params, Int32.ofNat (recordCount layer.segments)) ++
        records := by
  have hsize := length_encodeLayer h
  obtain ⟨records, fill, hrecords, -, rfl⟩ := encodeLayer_eq_ok h
  obtain ⟨hcount, hlength⟩ := length_of_encode hrecords
  refine ⟨records, hrecords, ?_⟩
  obtain rfl : fill = 0 := by
    simp only [List.length_append, length_layerHeader, hlength, layerSize_eq, zeros,
      List.length_replicate] at hsize
    omega
  rw [hcount, zeros, List.replicate_zero, List.append_nil]

/-- A layer stands at an offset: its header, and right behind it its records, each on a multiple of
32 bytes. -/
structure StandsAt (bytes : List UInt8) (layer : Layer) (offset : Nat) : Prop where
  aligned : 32 ∣ offset
  header : slice bytes offset layerHeaderSize =
    .ok (layerHeader.write (layer.params, Int32.ofNat (recordCount layer.segments)))
  records : ∃ records, Record.encode layer.segments = .ok records ∧
    slice bytes (offset + layerHeaderSize) (Record.size * recordCount layer.segments) = .ok records
  records_aligned : ∀ record < recordCount layer.segments,
    32 ∣ offset + layerHeaderSize + Record.size * record

theorem standsAt_append {layer : Layer} {piece : List UInt8} (h : encodeLayer layer = .ok piece)
    {front : List UInt8} (hfront : 32 ∣ front.length) (back : List UInt8) :
    StandsAt (front ++ (piece ++ back)) layer front.length := by
  obtain ⟨records, hrecords, rfl⟩ := encodeLayer_eq h
  refine ⟨hfront, ?_, ⟨records, hrecords, ?_⟩, fun record _ => ?_⟩
  · have hslice := slice_append front
      (layerHeader.write (layer.params, Int32.ofNat (recordCount layer.segments))) (records ++ back)
    rwa [length_layerHeader, ← List.append_assoc _ records] at hslice
  · have hslice := slice_append (front ++
      layerHeader.write (layer.params, Int32.ofNat (recordCount layer.segments))) records back
    rw [List.length_append, length_layerHeader, (length_of_encode hrecords).2] at hslice
    simpa only [List.append_assoc] using hslice
  · have hheader : 32 ∣ layerHeaderSize := by decide
    exact ((hfront.add hheader).add (Nat.dvd_mul_right 32 record))

section Offsets

variable {layers : List Layer} {pieces : List (List UInt8)} {offsets : List UInt32}

theorem tiles_layers
    (hpieces : List.Forall₂ (fun layer piece => encodeLayer layer = .ok piece) layers pieces)
    {start : Nat} (h : layerOffsets start pieces = .ok offsets) :
    Tiles start (List.zipWith layerPart offsets layers) (start + pieces.flatten.length) := by
  induction hpieces generalizing start offsets with
  | nil =>
    rw [List.zipWith_nil_right]
    exact rfl
  | @cons layer piece layers pieces hpiece _ ih =>
    obtain ⟨offset, more, rfl, rfl, hmore⟩ := layerOffsets_cons h
    have hstop : offset.toNat + piece.length = (layerPart offset layer).stop := by
      rw [length_encodeLayer hpiece, layerSize_eq, layerPart, Nat.add_assoc]
    have hrest := ih hmore
    rw [hstop] at hrest
    refine ⟨rfl, ?_, ?_⟩
    · simp only [layerPart, layerHeaderSize]
      omega
    · rwa [List.flatten_cons, List.length_append, ← Nat.add_assoc, hstop]

theorem standsAt_offsets
    (hpieces : List.Forall₂ (fun layer piece => encodeLayer layer = .ok piece) layers pieces)
    {front : List UInt8} (hfront : 32 ∣ front.length) (back : List UInt8)
    (h : layerOffsets front.length pieces = .ok offsets) :
    List.Forall₂ (fun layer offset =>
      StandsAt (front ++ (pieces.flatten ++ back)) layer offset.toNat) layers offsets := by
  induction hpieces generalizing front offsets with
  | nil =>
    obtain rfl := Except.ok.inj h
    exact .nil
  | @cons layer piece layers pieces hpiece _ ih =>
    obtain ⟨offset, more, rfl, hoffset, hmore⟩ := layerOffsets_cons h
    have hnext : 32 ∣ (front ++ piece).length := by
      rw [List.length_append, length_encodeLayer hpiece]
      exact hfront.add (dvd_align _)
    rw [← List.length_append] at hmore
    have hrest := ih hnext hmore
    refine .cons ?_ ?_
    · rw [hoffset, List.flatten_cons, List.append_assoc]
      exact standsAt_append hpiece hfront _
    · simpa only [List.flatten_cons, List.append_assoc] using hrest

end Offsets

/-! ## Blobs -/

/-- What a summary tells of the blob of a network is where its parts lie. -/
structure LaidOut (net : Net) (bytes : List UInt8) (s : Summary) : Prop where
  blobSize : s.blobSize.toNat = bytes.length
  layers : List.Forall₂ (fun layer offset => StandsAt bytes layer offset.toNat) net.layers
    s.layerOffsets
  execList : slice bytes s.execOffset.toNat (4 * net.execList.length) =
    .ok (wordBytes net.execList)
  apart : (parts net s).Pairwise fun a b => a.start < b.start ∧ a.stop ≤ b.start
  inside : ∀ part ∈ parts net s, part.start ≤ part.stop ∧ part.stop ≤ bytes.length
  ends : (parts net s).getLast?.map Part.stop = some bytes.length
  filler : ∀ i byte, bytes[i]? = some byte → (∀ part ∈ parts net s, ¬part.Holds i) → byte = 0

section Assembled

variable {net : Net} {bytes : List UInt8} {head : Header} {offsets : List UInt32} {fill : Nat}
  {pieces : List (List UInt8)}

theorem Assembled.tiles (h : Assembled net bytes head offsets fill pieces) :
    Tiles (opening head offsets fill).length (List.zipWith layerPart offsets net.layers)
      head.execOffset.toNat := by
  rw [h.execOffset, List.length_append]
  exact tiles_layers h.encoded h.placed

theorem Assembled.table_le (h : Assembled net bytes head offsets fill pieces) :
    headerSize + 4 * net.layers.length ≤ (opening head offsets fill).length := by
  rw [h.aligned]
  exact le_align _

theorem Assembled.opening_filler (h : Assembled net bytes head offsets fill pieces) {i : Nat}
    {byte : UInt8} (hbyte : (opening head offsets fill)[i]? = some byte)
    (hi : headerSize + 4 * net.layers.length ≤ i) : byte = 0 := by
  have htable : (header.write head ++ wordBytes offsets).length =
      headerSize + 4 * net.layers.length := by
    rw [List.length_append, length_header, length_wordBytes, h.length_offsets]
  rw [opening, List.getElem?_append_right (htable.trans_le hi)] at hbyte
  exact List.eq_of_mem_replicate (List.mem_of_getElem? hbyte)

theorem Assembled.pairwise_parts (h : Assembled net bytes head offsets fill pieces) :
    (parts net { head with layerOffsets := offsets }).Pairwise
      fun a b => a.start < b.start ∧ a.stop ≤ b.start := by
  have htable := h.table_le
  have htiles := h.tiles
  refine .cons (fun part hpart => ?_) (List.pairwise_append.mpr
    ⟨htiles.pairwise, List.pairwise_singleton _ _, fun part hpart exec hexec => ?_⟩)
  · have hopen : (opening head offsets fill).length ≤ part.start := by
      rcases List.mem_append.mp hpart with hpart | hpart
      · exact (htiles.bounds part hpart).1
      · rw [List.mem_singleton.mp hpart]
        exact htiles.start_le
    have hheader : 0 < headerSize := by decide
    dsimp only
    omega
  · rw [List.mem_singleton.mp hexec]
    obtain ⟨-, hlt, hle⟩ := htiles.bounds part hpart
    exact ⟨hlt.trans_le hle, hle⟩

theorem Assembled.eq_zero_of_not_holds (h : Assembled net bytes head offsets fill pieces) {i : Nat}
    {byte : UInt8} (hbyte : bytes[i]? = some byte)
    (hoff : ∀ part ∈ parts net { head with layerOffsets := offsets }, ¬part.Holds i) :
    byte = 0 := by
  rw [parts, List.forall_mem_cons, List.forall_mem_append, List.forall_mem_singleton] at hoff
  obtain ⟨hheader, hlayers, hexec⟩ := hoff
  obtain ⟨hlength, -⟩ := List.getElem?_eq_some_iff.mp hbyte
  have htotal := h.length_bytes
  have hbehind : headerSize + 4 * net.layers.length ≤ i :=
    Nat.le_of_not_lt fun hlt => hheader ⟨i.zero_le, hlt⟩
  have hbefore : i < head.execOffset.toNat :=
    Nat.lt_of_not_le fun hle => hexec ⟨hle, by dsimp only; omega⟩
  have hopening : i < (opening head offsets fill).length := by
    by_contra hge
    obtain ⟨part, hpart, hholds⟩ := h.tiles.exists_holds (Nat.le_of_not_lt hge) hbefore
    exact hlayers part hpart hholds
  rw [h.bytes_eq, List.append_assoc, List.getElem?_append_left hopening] at hbyte
  exact h.opening_filler hbyte hbehind

theorem Assembled.laidOut (h : Assembled net bytes head offsets fill pieces) :
    LaidOut net bytes { head with layerOffsets := offsets } := by
  have htotal := h.length_bytes
  constructor
  case blobSize => exact h.blobSize
  case layers =>
    have hfront : 32 ∣ (opening head offsets fill).length := h.aligned ▸ dvd_align _
    have hstands := standsAt_offsets h.encoded hfront (wordBytes net.execList) h.placed
    rwa [← List.append_assoc, ← h.bytes_eq] at hstands
  case execList =>
    have hslice := slice_append (opening head offsets fill ++ pieces.flatten)
      (wordBytes net.execList) []
    rwa [List.append_nil, ← h.bytes_eq, ← h.execOffset, length_wordBytes] at hslice
  case apart => exact h.pairwise_parts
  case inside =>
    have htable := h.table_le
    have hbetween := h.tiles.start_le
    refine List.forall_mem_cons.mpr ⟨?_, fun part hpart => ?_⟩
    · dsimp only
      omega
    · rcases List.mem_append.mp hpart with hpart | hpart
      · obtain ⟨-, hlt, hle⟩ := h.tiles.bounds part hpart
        omega
      · rw [List.mem_singleton.mp hpart]
        dsimp only
        omega
  case ends =>
    rw [parts, ← List.cons_append, List.getLast?_concat, htotal]
    rfl
  case filler => exact fun i byte => h.eq_zero_of_not_holds

end Assembled

/-- The summary of a blob tells where its parts lie: layers and records on multiples of 32 bytes, no
two parts over each other, all of them within the blob, and zeros everywhere else. -/
theorem ofNet_laid_out {net : Net} {bytes : List UInt8} (h : ofNet net = .ok bytes) :
    ∃ s, summary bytes = .ok s ∧ LaidOut net bytes s := by
  obtain ⟨head, offsets, fill, pieces, h⟩ := ofNet_eq_ok h
  exact ⟨_, h.summary_eq, h.laidOut⟩

/-- Three layers, so that the offset table is followed by filler. The last runs twice. -/
def threeLayers : Net where
  layers := [
    { params := { kind := .add }, segments := [.sync .dma, .compute { op := .add }] },
    { params := { kind := .concatenate } },
    { params := { kind := .mul }, segments := [.block 0] }]
  execList := [2, 0, 2]

theorem ofNet_laid_out_threeLayers :
    ∃ bytes s, ofNet threeLayers = .ok bytes ∧ summary bytes = .ok s ∧
      s.layerOffsets = [64, 320, 512] ∧ s.execOffset = 736 ∧ LaidOut threeLayers bytes s := by
  have hok : (ofNet threeLayers).isOk = true := by decide +kernel
  have hbytes := ofNet_eq_bytesOf hok
  obtain ⟨s, hs, hlaid⟩ := ofNet_laid_out hbytes
  have hplaces : (summary (bytesOf threeLayers)).map (fun s => (s.layerOffsets, s.execOffset)) =
      .ok ([64, 320, 512], 736) := by decide +kernel
  rw [hs] at hplaces
  obtain ⟨hoffsets, hexec⟩ := Prod.mk.inj (Except.ok.inj hplaces)
  exact ⟨_, s, hbytes, hs, hoffsets, hexec, hlaid⟩

end CommandStream.Blob
