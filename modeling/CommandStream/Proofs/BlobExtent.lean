import CommandStream.Proofs.BlobRoundTrip
import CommandStream.Proofs.RecordGrammar

/-! # The extent of a blob

Where the parts of a blob lie is told by the layer and record counts of its network alone. A network
can be laid out exactly when these places fit the header fields, and what stands behind a blob does
not change the network it holds.
-/

namespace CommandStream.Blob

/-! ## Where the parts lie -/

def layerSize (layer : Layer) : Nat :=
  align (layerHeaderSize + Record.size * recordCount layer.segments)

/-- Where the given layer starts; with as many layers in front as there are, the execution list. -/
def layerOffset (net : Net) (index : Nat) : Nat :=
  align (headerSize + 4 * net.layers.length) + ((net.layers.take index).map layerSize).sum

def execOffset (net : Net) : Nat := layerOffset net net.layers.length

def blobSize (net : Net) : Nat := execOffset net + 4 * net.execList.length

/-- The execution list names layers, every stream can be written, and every count, offset and size
fits its field. -/
structure Fits (net : Net) : Prop where
  execList : ∀ layer ∈ net.execList, layer.toNat < net.layers.length
  encodes : ∀ layer ∈ net.layers, ∃ records, Record.encode layer.segments = .ok records
  recordCounts : ∀ layer ∈ net.layers, recordCount layer.segments < 2 ^ 31
  layerCount : net.layers.length < 2 ^ 32
  layerOffsets : ∀ index < net.layers.length, layerOffset net index < 2 ^ 32
  execCount : net.execList.length < 2 ^ 32
  execOffset : execOffset net < 2 ^ 32
  blobSize : blobSize net < 2 ^ 32

/-! ## When the parts can be written -/

theorem exists_sizeField_iff {field : NarrowField} {n : Nat} :
    (∃ word, sizeField field n = .ok word) ↔ n < 2 ^ 32 := by
  unfold sizeField
  by_cases h : n < UInt32.size
  · simp only [if_pos h, Except.ok.injEq, exists_eq', true_iff]
    exact h
  · simp only [if_neg h, reduceCtorEq, exists_false, false_iff]
    exact h

theorem checkExecList_eq_ok_iff {layerCount : Nat} {execList : List UInt32} :
    checkExecList layerCount execList = .ok () ↔ ∀ layer ∈ execList, layer.toNat < layerCount := by
  unfold checkExecList
  cases hfind : execList.zipIdx.find? (fun x => layerCount ≤ x.1.toNat) with
  | none =>
    rw [List.find?_eq_none] at hfind
    simp only [true_iff]
    intro layer hlayer
    rw [← List.zipIdx_map_fst 0 execList, List.mem_map] at hlayer
    obtain ⟨x, hx, rfl⟩ := hlayer
    simpa using hfind x hx
  | some found =>
    have hout := List.find?_some hfind
    have hmem := List.fst_mem_of_mem_zipIdx (List.mem_of_find?_eq_some hfind)
    simp only [decide_eq_true_eq] at hout
    simp only [reduceCtorEq, false_iff]
    intro hall
    exact absurd (hall _ hmem) (by omega)

theorem length_of_encode {segments : List Segment} {records : List UInt8}
    (h : Record.encode segments = .ok records) :
    records.length / Record.size = recordCount segments ∧
      records.length = Record.size * recordCount segments := by
  have hlength := Record.length_eq_of_decode (Record.decode_encode h).2
  refine ⟨?_, by rw [hlength, Nat.mul_comm]⟩
  rw [hlength, Nat.mul_div_cancel _ (by decide)]

theorem exists_encodeLayer_iff {layer : Layer} :
    (∃ piece, encodeLayer layer = .ok piece) ↔
      (∃ records, Record.encode layer.segments = .ok records) ∧
        recordCount layer.segments < 2 ^ 31 := by
  constructor
  · rintro ⟨piece, h⟩
    obtain ⟨records, fill, hrecords, hcount, -⟩ := encodeLayer_eq_ok h
    rw [(length_of_encode hrecords).1] at hcount
    exact ⟨⟨records, hrecords⟩, hcount⟩
  · rintro ⟨⟨records, hrecords⟩, hcount⟩
    unfold encodeLayer
    simp only [hrecords, ok_bind, (length_of_encode hrecords).1]
    exact ⟨_, if_pos hcount⟩

theorem length_encodeLayer {layer : Layer} {piece : List UInt8}
    (h : encodeLayer layer = .ok piece) : piece.length = layerSize layer := by
  obtain ⟨records, hrecords, h⟩ := bind_eq_ok_iff.mp h
  dsimp only at h
  split at h
  · have hle := le_align (layerHeaderSize + Record.size * recordCount layer.segments)
    rw [← pure_eq_ok_iff.mp h]
    simp only [List.length_append, length_layerHeader, (length_of_encode hrecords).2, zeros,
      List.length_replicate, layerSize]
    omega
  · cases h

theorem exists_layerOffsets_iff {start : Nat} {pieces : List (List UInt8)} :
    (∃ offsets, layerOffsets start pieces = .ok offsets) ↔
      ∀ index < pieces.length, start + ((pieces.map List.length).take index).sum < 2 ^ 32 := by
  induction pieces generalizing start with
  | nil => simp [layerOffsets]
  | cons piece pieces ih =>
    have hcons : (∃ offsets, layerOffsets start (piece :: pieces) = .ok offsets) ↔
        (∃ offset, sizeField .layerOffset start = .ok offset) ∧
          ∃ more, layerOffsets (start + piece.length) pieces = .ok more := by
      simp only [layerOffsets, bind_eq_ok_iff, pure_eq_ok_iff]
      constructor
      · rintro ⟨_, offset, hoffset, more, hmore, -⟩
        exact ⟨⟨offset, hoffset⟩, more, hmore⟩
      · rintro ⟨⟨offset, hoffset⟩, more, hmore⟩
        exact ⟨_, offset, hoffset, more, hmore, rfl⟩
    rw [hcons, exists_sizeField_iff, ih, List.length_cons, Nat.forall_lt_succ_left]
    simp only [List.map_cons, List.take_zero, List.sum_nil, Nat.add_zero, List.take_succ_cons,
      List.sum_cons, Nat.add_assoc]

/-! ## When a network can be laid out -/

section Pieces

variable {net : Net} {pieces : List (List UInt8)}
  (hpieces : List.Forall₂ (fun layer piece => encodeLayer layer = .ok piece) net.layers pieces)

include hpieces

theorem map_length_pieces : pieces.map List.length = net.layers.map layerSize := by
  have hsizes : List.Forall₂ (fun layer piece => layerSize layer = piece.length) net.layers
      pieces := hpieces.imp fun _ _ h => (length_encodeLayer h).symm
  rw [← List.forall₂_map_right_iff, ← List.forall₂_map_left_iff, List.forall₂_eq_eq_eq] at hsizes
  exact hsizes.symm

theorem layerOffset_eq (index : Nat) :
    align (headerSize + 4 * pieces.length) + ((pieces.map List.length).take index).sum =
      layerOffset net index := by
  rw [map_length_pieces hpieces, ← hpieces.length_eq, ← List.map_take]
  rfl

theorem execOffset_eq :
    align (headerSize + 4 * pieces.length) + pieces.flatten.length = execOffset net := by
  rw [execOffset, ← layerOffset_eq hpieces, List.length_flatten, hpieces.length_eq,
    List.take_of_length_le (by rw [List.length_map])]

end Pieces

theorem exists_ofNet_iff {net : Net} : (∃ bytes, ofNet net = .ok bytes) ↔ Fits net := by
  simp only [ofNet, bind_eq_ok_iff, pure_eq_ok_iff]
  constructor
  · rintro ⟨_, layerCount, hlayers, _, hexec, pieces, hpieces, offsets, hoffsets, size, hsize,
      count, hcount, offset, hoffset, -⟩
    have hforall := mapM_eq_ok_iff.mp hpieces
    have hwritten := exists_mapM_eq_ok_iff.mp ⟨pieces, hpieces⟩
    have hplaces := exists_layerOffsets_iff.mp ⟨offsets, hoffsets⟩
    simp only [layerOffset_eq hforall] at hplaces
    rw [← hforall.length_eq] at hplaces
    rw [execOffset_eq hforall] at hsize hoffset
    exact {
      execList := checkExecList_eq_ok_iff.mp hexec
      encodes := fun layer hlayer => (exists_encodeLayer_iff.mp (hwritten layer hlayer)).1
      recordCounts := fun layer hlayer => (exists_encodeLayer_iff.mp (hwritten layer hlayer)).2
      layerCount := exists_sizeField_iff.mp ⟨layerCount, hlayers⟩
      layerOffsets := hplaces
      execCount := exists_sizeField_iff.mp ⟨count, hcount⟩
      execOffset := exists_sizeField_iff.mp ⟨offset, hoffset⟩
      blobSize := exists_sizeField_iff.mp ⟨size, hsize⟩ }
  · intro h
    obtain ⟨pieces, hpieces⟩ := exists_mapM_eq_ok_iff.mpr fun layer hlayer =>
      exists_encodeLayer_iff.mpr ⟨h.encodes layer hlayer, h.recordCounts layer hlayer⟩
    have hforall := mapM_eq_ok_iff.mp hpieces
    obtain ⟨layerCount, hlayers⟩ := exists_sizeField_iff.mpr h.layerCount
    obtain ⟨offsets, hoffsets⟩ : ∃ offsets,
        layerOffsets (align (headerSize + 4 * pieces.length)) pieces = .ok offsets := by
      rw [exists_layerOffsets_iff, ← hforall.length_eq]
      intro index hindex
      rw [hforall.length_eq, layerOffset_eq hforall]
      exact h.layerOffsets index hindex
    obtain ⟨size, hsize⟩ := exists_sizeField_iff.mpr h.blobSize
    obtain ⟨count, hcount⟩ := exists_sizeField_iff.mpr h.execCount
    obtain ⟨offset, hoffset⟩ := exists_sizeField_iff.mpr h.execOffset
    rw [blobSize, ← execOffset_eq hforall] at hsize
    rw [← execOffset_eq hforall] at hoffset
    exact ⟨_, layerCount, hlayers, (), checkExecList_eq_ok_iff.mpr h.execList, pieces, hpieces,
      offsets, hoffsets, size, hsize, count, hcount, offset, hoffset, rfl⟩

/-! ## What stands behind a blob -/

theorem words_append {n : Nat} {bytes : List UInt8} (tail : List UInt8)
    (h : 4 * n ≤ bytes.length) : words n (bytes ++ tail) = words n bytes := by
  induction n generalizing bytes with
  | zero => rfl
  | succ n ih =>
    rw [words, words, List.take_append_of_le_length (by omega),
      List.drop_append_of_le_length (by omega), ih (by rw [List.length_drop]; omega)]

theorem slice_eq_ok_iff {bytes piece : List UInt8} {offset length : Nat} :
    slice bytes offset length = .ok piece ↔
      offset + length ≤ bytes.length ∧ (bytes.drop offset).take length = piece := by
  unfold slice
  split <;> simp [*]

/-- The summary of a blob: its header and table lie inside the stated size, and so do the places
they name. -/
theorem summary_eq_ok_iff {bytes : List UInt8} {s : Summary} :
    summary bytes = .ok s ↔
      headerSize ≤ bytes.length ∧ ∃ head, header.read (bytes.take headerSize) = .ok head ∧
        head.magic = magic ∧ head.blobSize.toNat ≤ bytes.length ∧
        headerSize + 4 * head.layerCount.toNat ≤ head.blobSize.toNat ∧
        (∀ offset ∈ words head.layerCount.toNat (bytes.drop headerSize),
          offset.toNat + layerHeaderSize ≤ head.blobSize.toNat) ∧
        head.execOffset.toNat + 4 * head.execCount.toNat ≤ head.blobSize.toNat ∧
        { head with layerOffsets := words head.layerCount.toNat (bytes.drop headerSize) } = s := by
  unfold summary
  constructor
  · intro h
    obtain ⟨front, hfront, h⟩ := bind_eq_ok_iff.mp h
    obtain ⟨hlength, rfl⟩ := slice_eq_ok_iff.mp hfront
    obtain ⟨head, hhead, h⟩ := bind_eq_ok_iff.mp h
    obtain ⟨hmagic, h⟩ := guarded_eq_ok_iff.mp h
    obtain ⟨hsize, h⟩ := guarded_eq_ok_iff.mp h
    obtain ⟨htable, h⟩ := guarded_eq_ok_iff.mp h
    dsimp only at h
    cases hfind : (words head.layerCount.toNat (bytes.drop headerSize)).find?
        (fun o => head.blobSize.toNat < o.toNat + layerHeaderSize) with
    | some offset =>
      rw [hfind] at h
      cases h
    | none =>
      rw [hfind] at h
      obtain ⟨hexec, h⟩ := guarded_eq_ok_iff.mp h
      rw [List.find?_eq_none] at hfind
      exact ⟨by omega, head, hhead, not_not.mp hmagic, by omega, by omega,
        fun offset hoffset => by simpa using hfind offset hoffset, by omega, pure_eq_ok_iff.mp h⟩
  · rintro ⟨hlength, head, hhead, hmagic, hsize, htable, hoffsets, hexec, hs⟩
    have hfind : (words head.layerCount.toNat (bytes.drop headerSize)).find?
        (fun o => head.blobSize.toNat < o.toNat + layerHeaderSize) = none := by
      rw [List.find?_eq_none]
      intro offset hoffset
      simpa using hoffsets offset hoffset
    refine bind_eq_ok_iff.mpr ⟨_, slice_eq_ok_iff.mpr ⟨hlength, rfl⟩,
      bind_eq_ok_iff.mpr ⟨head, hhead, guarded_eq_ok_iff.mpr ⟨by simpa using hmagic,
        guarded_eq_ok_iff.mpr ⟨by omega, guarded_eq_ok_iff.mpr ⟨by omega, ?_⟩⟩⟩⟩⟩
    dsimp only
    rw [hfind]
    exact guarded_eq_ok_iff.mpr ⟨by omega, pure_eq_ok_iff.mpr hs⟩

theorem summary_append {bytes : List UInt8} {s : Summary} (tail : List UInt8)
    (h : summary bytes = .ok s) :
    summary (bytes ++ tail) = .ok s ∧ s.blobSize.toNat ≤ bytes.length := by
  obtain ⟨hlength, head, hhead, hmagic, hsize, htable, hoffsets, hexec, rfl⟩ :=
    summary_eq_ok_iff.mp h
  have hwords : words head.layerCount.toNat ((bytes ++ tail).drop headerSize) =
      words head.layerCount.toNat (bytes.drop headerSize) := by
    rw [List.drop_append_of_le_length hlength, words_append tail (by rw [List.length_drop]; omega)]
  refine ⟨summary_eq_ok_iff.mpr ⟨?_, head, ?_, hmagic, ?_, htable, ?_, hexec, ?_⟩, hsize⟩
  · rw [List.length_append]
    omega
  · rw [List.take_append_of_le_length hlength, hhead]
  · rw [List.length_append]
    omega
  · rwa [hwords]
  · rw [hwords]

theorem toNet_append {bytes : List UInt8} {net : Net} (tail : List UInt8)
    (h : toNet bytes = .ok net) : toNet (bytes ++ tail) = .ok net := by
  obtain ⟨s, hs, h⟩ := bind_eq_ok_iff.mp h
  obtain ⟨hsummary, hsize⟩ := summary_append tail hs
  unfold toNet
  rw [hsummary, ok_bind, List.take_append_of_le_length hsize]
  exact h

/-- A network is laid out exactly when it fits, and read back whatever stands behind its blob. -/
theorem ofNet_fits_reads_back (net : Net) :
    ((∃ bytes, ofNet net = .ok bytes) ↔ Fits net) ∧
    ∀ bytes, ofNet net = .ok bytes → ∀ tail,
      toNet (bytes ++ tail) = .ok net ∧ (toNet (bytes ++ tail) >>= ofNet) = .ok bytes := by
  refine ⟨exists_ofNet_iff, fun bytes h tail => ?_⟩
  have hread := toNet_append tail (toNet_ofNet h)
  exact ⟨hread, by rw [hread, ok_bind, h]⟩

def emptySecond : Net where
  layers := [
    { params := { kind := .concatenate }
      segments := [
        .transfer {
          direction := .load1d, kernelOffset := false, cluster := 1, unit := 3, hostAddr := 64,
          localAddr := 8, leap := 0, width := 5, height := 1 },
        .sync .dma] },
    { params := { kind := .concatenate }, segments := [] }]
  execList := [1, 0, 1]

theorem fits_emptySecond : Fits emptySecond where
  execList := by simp [emptySecond]
  encodes := by
    simp only [emptySecond, List.forall_mem_cons]
    exact ⟨⟨_, rfl⟩, ⟨_, rfl⟩, by simp⟩
  recordCounts := by simp [emptySecond, recordCount, total, Segment.records]
  layerCount := by decide
  layerOffsets := by decide
  execCount := by decide
  execOffset := by decide
  blobSize := by decide

theorem ofNet_fits_reads_back_emptySecond :
    ∃ bytes, ofNet emptySecond = .ok bytes ∧ toNet (bytes ++ [1, 2, 3]) = .ok emptySecond ∧
      (toNet (bytes ++ [1, 2, 3]) >>= ofNet) = .ok bytes := by
  obtain ⟨bytes, hbytes⟩ := (ofNet_fits_reads_back emptySecond).1.mpr fits_emptySecond
  exact ⟨bytes, hbytes, (ofNet_fits_reads_back emptySecond).2 bytes hbytes [1, 2, 3]⟩

end CommandStream.Blob
