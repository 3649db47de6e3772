import CommandStream.Proofs.Outcomes
import CommandStream.Record.Codec

/-! # Reading back what was written

A stream is written as whole records, and each segment is read back from its own records, so reading
undoes writing.
-/

namespace CommandStream

theorem Layout.read_write_self {α : Type} (l : Layout α) (a : α) : l.read (l.write a) = .ok a := by
  simpa using l.read_write a []

namespace Record

def rows : Segment → List (List UInt8)
  | .transfer t => [transfer.write t]
  | .loop l => [loopHeader.write (.ofLoop l), transfer.write l.base]
  | .compute c => [compute.write c]
  | .block count => [block.write count]
  | .sync kind => [marker (syncKind kind)]
  | .padding p => [padding.write p]
  | .scatter s => [scatter.write s]

theorem encodeSegment_eq_ok {s : Segment} {bytes : List UInt8} (h : encodeSegment s = .ok bytes) :
    bytes = (rows s).flatten := by
  cases s with
  | loop l =>
    rw [encodeSegment] at h
    split at h
    · rw [← Except.ok.inj h]
      simp [rows]
    · cases h
  | transfer _ | compute _ | block _ | sync _ | padding _ | scatter _ =>
    rw [← Except.ok.inj h]
    simp [rows]

theorem encode_eq_ok {segments : List Segment} {bytes : List UInt8}
    (h : encode segments = .ok bytes) : bytes = (segments.flatMap rows).flatten := by
  obtain ⟨pieces, hpieces, hbytes⟩ := bind_eq_ok_iff.mp h
  rw [← pure_eq_ok_iff.mp hbytes]
  clear h hbytes
  rw [mapM_eq_ok_iff] at hpieces
  induction hpieces with
  | nil => rfl
  | cons hs _ ih => simp [encodeSegment_eq_ok hs, ih]

theorem length_rows {s : Segment} : ∀ row ∈ rows s, row.length = size := by
  cases s with
  | transfer t => exact List.forall_mem_singleton.mpr (transfer.length_write t)
  | loop l =>
    exact List.forall_mem_cons.mpr ⟨loopHeader.length_write (.ofLoop l),
      List.forall_mem_singleton.mpr (transfer.length_write l.base)⟩
  | compute c => exact List.forall_mem_singleton.mpr (compute.length_write c)
  | block count => exact List.forall_mem_singleton.mpr (block.length_write count)
  | sync kind => exact List.forall_mem_singleton.mpr rfl
  | padding p => exact List.forall_mem_singleton.mpr (padding.length_write p)
  | scatter s => exact List.forall_mem_singleton.mpr (scatter.length_write s)

theorem kindByte_append {front : List UInt8} (h : front.length = 31) (kind : UInt8) :
    kindByte (front ++ [kind]) = kind := by
  simp [kindByte, List.getD_eq_getElem?_getD, h]

theorem kindByte_before {α : Type} (l : Layout α) (fill : List UInt8) (kind : UInt8)
    (h : l.width + fill.length = 31) (a : α) :
    kindByte ((l.before (fill ++ [kind])).write a) = kind := by
  change kindByte (l.write a ++ (fill ++ [kind])) = kind
  rw [← List.append_assoc]
  exact kindByte_append (by rw [List.length_append, l.length_write, h]) kind

theorem kindByte_transfer (t : Transfer) : kindByte (transfer.write t) = Kind.dma.code :=
  kindByte_before _ [] _ rfl t

theorem kindByte_compute (c : Compute) : kindByte (compute.write c) = Kind.compute.code :=
  kindByte_before _ [] _ rfl c

theorem kindByte_loopHeader (h : LoopHeader) : kindByte (loopHeader.write h) = Kind.dma.code :=
  kindByte_before _ (zeros 13) _ rfl h

theorem kindByte_padding (p : PadWidths) : kindByte (padding.write p) = Kind.padding.code :=
  kindByte_before _ (zeros 11) _ rfl p

theorem kindByte_scatter (s : Scatter) : kindByte (scatter.write s) = Kind.scatter.code :=
  kindByte_before _ (zeros 7) _ rfl s

theorem kindByte_block (count : UInt32) : kindByte (block.write count) = Kind.block.code :=
  kindByte_before _ (zeros 19) _ rfl count

theorem kindByte_marker (kind : Kind) : kindByte (marker kind) = kind.code :=
  kindByte_append rfl _

theorem isLoopHeader_transfer (t : Transfer) : isLoopHeader (transfer.write t) = false := by
  have hfirst : (transfer.write t).getD 0 0 = UInt8.ofNat t.direction.code.toNat := rfl
  rw [isLoopHeader, hfirst]
  cases t.direction <;> simp [Direction.code, loopCode]

theorem isTransfer_transfer (t : Transfer) : isTransfer (transfer.write t) = true := by
  have hfirst : (transfer.write t).getD 0 0 = UInt8.ofNat t.direction.code.toNat := rfl
  rw [isTransfer, hfirst, kindByte_transfer]
  cases t.direction <;> decide

theorem isLoopHeader_loopHeader (h : LoopHeader) : isLoopHeader (loopHeader.write h) = true := by
  have hfirst : (loopHeader.write h).getD 0 0 = loopCode := rfl
  rw [isLoopHeader, hfirst, kindByte_loopHeader]
  decide

/-! ## Reading -/

theorem decodeFrom_single {row : List UInt8} {s : Segment} {index : Nat}
    (hheader : isLoopHeader row = false) (hrow : decodeRecord index row = .ok s)
    (rest : List (List UInt8)) :
    decodeFrom index (row :: rest) = (s :: ·) <$> decodeFrom (index + 1) rest := by
  conv_lhs => unfold decodeFrom
  rw [hheader, hrow]
  rfl

theorem decodeFrom_rows (s : Segment) (index : Nat) (rest : List (List UInt8)) :
    decodeFrom index (rows s ++ rest) =
      (s :: ·) <$> decodeFrom (index + (rows s).length) rest := by
  cases s with
  | loop l =>
    change decodeFrom index (_ :: _ :: rest) = _
    rw [decodeFrom, isLoopHeader_loopHeader]
    simp only [if_true, isTransfer_transfer, Layout.read_write_self, ok_bind]
    rfl
  | transfer t =>
    refine decodeFrom_single (isLoopHeader_transfer t) ?_ rest
    simp [decodeRecord, kindByte_transfer, Kind.ofCode?_code, Layout.read_write_self]
  | compute c =>
    refine decodeFrom_single (by rw [isLoopHeader, kindByte_compute]; rfl) ?_ rest
    simp [decodeRecord, kindByte_compute, Kind.ofCode?_code, Layout.read_write_self]
  | block count =>
    refine decodeFrom_single (by rw [isLoopHeader, kindByte_block]; rfl) ?_ rest
    simp [decodeRecord, kindByte_block, Kind.ofCode?_code, Layout.read_write_self]
  | sync kind =>
    refine decodeFrom_single (by rw [isLoopHeader, kindByte_marker]; cases kind <;> rfl) ?_ rest
    rw [decodeRecord, kindByte_marker, Kind.ofCode?_code]
    cases kind <;> rfl
  | padding p =>
    refine decodeFrom_single (by rw [isLoopHeader, kindByte_padding]; rfl) ?_ rest
    simp [decodeRecord, kindByte_padding, Kind.ofCode?_code, Layout.read_write_self]
  | scatter s =>
    refine decodeFrom_single (by rw [isLoopHeader, kindByte_scatter]; rfl) ?_ rest
    simp [decodeRecord, kindByte_scatter, Kind.ofCode?_code, Layout.read_write_self]

theorem decodeFrom_flatMap_rows (segments : List Segment) (index : Nat) :
    decodeFrom index (segments.flatMap rows) = .ok segments := by
  induction segments generalizing index with
  | nil => rfl
  | cons s rest ih => rw [List.flatMap_cons, decodeFrom_rows, ih]; rfl

theorem cut_flatten {records : List (List UInt8)} (h : ∀ row ∈ records, row.length = size) :
    cut records.length records.flatten = records := by
  induction records with
  | nil => rfl
  | cons row records ih =>
    rw [List.forall_mem_cons] at h
    rw [List.length_cons, cut, List.flatten_cons, List.take_left' h.1, List.drop_left' h.1, ih h.2]

theorem length_flatten_of_size {records : List (List UInt8)}
    (h : ∀ row ∈ records, row.length = size) :
    records.flatten.length = records.length * size := by
  rw [List.length_flatten, List.map_congr_left h, List.map_const', List.sum_replicate_nat]

/-- A stream is written as a whole number of records, from which it is read back. -/
theorem decode_encode {segments : List Segment} {bytes : List UInt8}
    (h : encode segments = .ok bytes) :
    bytes.length % size = 0 ∧ decode bytes = .ok segments := by
  have hsize : ∀ row ∈ segments.flatMap rows, row.length = size := by
    intro row hrow
    obtain ⟨s, -, hs⟩ := List.mem_flatMap.mp hrow
    exact length_rows row hs
  have hlength := length_flatten_of_size hsize
  rw [encode_eq_ok h]
  have hmod : (segments.flatMap rows).flatten.length % size = 0 := by
    rw [hlength, Nat.mul_mod_left]
  have hdiv : (segments.flatMap rows).flatten.length / size = (segments.flatMap rows).length := by
    rw [hlength, Nat.mul_div_cancel _ (by decide)]
  refine ⟨hmod, ?_⟩
  rw [decode, hdiv, if_pos hmod, cut_flatten hsize, decodeFrom_flatMap_rows]

end Record

end CommandStream
