import CommandStream.Proofs.BlobExtent

/-! # Reading within bounds

A guarded reader stops at the first range outside of its bytes, at bytes of the wrong size for the
structure they are read as, and at the first number that leaves its word. Blobs can be read under
such a guard: whatever the bytes, the guarded reader never stops and gives the answer of the plain
one. And a blob delimits itself, so nothing behind its stated size matters.
-/

namespace CommandStream

inductive Trap where
  | range (start stop length : Nat)
  | size (expected length : Nat)
  | overflow (o : Overflow)
  deriving DecidableEq, Repr

/-- Reading that refuses with a fault and is stopped by a trap. -/
abbrev Guarded (α : Type) := ExceptT Fault (Except Trap) α

namespace Guarded

variable {α β : Type}

def trap (t : Trap) : Guarded α := ExceptT.mk (.error t)

def answer (x : Except Fault α) : Guarded α := ExceptT.mk (.ok x)

def number : Checked Nat → Guarded Nat
  | .ok n => answer (.ok n)
  | .error o => trap (.overflow o)

def sum (a b : Nat) : Guarded Nat := number (Checked.add 64 a b)

def product (a b : Nat) : Guarded Nat := number (Checked.mul 64 a b)

/-- The largest number of a word in place of one that leaves it. -/
def saturate (n : Nat) : Nat := min n (2 ^ 64 - 1)

def byte (bytes : List UInt8) (index : Nat) : Guarded UInt8 :=
  if index < bytes.length then answer (.ok (bytes.getD index 0))
  else trap (.range index (index + 1) bytes.length)

def range (bytes : List UInt8) (start stop : Nat) : Guarded (List UInt8) :=
  if start ≤ stop ∧ stop ≤ bytes.length then answer (.ok ((bytes.drop start).take (stop - start)))
  else trap (.range start stop bytes.length)

/-- The bytes read as a structure, whose size they must have. -/
def read (l : Layout α) (bytes : List UInt8) : Guarded α :=
  if bytes.length = l.width then answer (l.read bytes) else trap (.size l.width bytes.length)

def piece (bytes : List UInt8) (offset length : Nat) : Guarded (List UInt8) :=
  let stop := saturate (offset + length)
  if offset ≤ stop ∧ stop ≤ bytes.length then range bytes offset stop
  else throw (.truncated offset length (bytes.length - offset))

def word (bytes : List UInt8) (offset : Nat) : Guarded UInt32 := do
  read Layout.u32 (← piece bytes offset 4)

/-- The words at `base` from the one with the given index on, each of them checked before the next
one is read. -/
def words (check : UInt32 → Guarded Unit) (bytes : List UInt8) (base : Nat) :
    Nat → Nat → Guarded (List UInt32)
  | 0, _ => pure []
  | n + 1, index => do
    let w ← word bytes (← sum base (← product 4 index))
    check w
    return w :: (← words check bytes base n (index + 1))

/-! ## Records under the guard -/

section Records

open Record

def record (bytes : List UInt8) (index : Nat) : Guarded (List UInt8) := do
  range bytes (← product index size) (← product (← sum index 1) size)

def testTransfer (test : UInt8 → Bool) (row : List UInt8) : Guarded Bool := do
  if (← byte row 31) == Kind.dma.code then
    return test (← byte row 0)
  else
    return false

def decodeRecord (index : Nat) (row : List UInt8) : Guarded Segment := do
  let kind ← byte row 31
  match Kind.ofCode? kind with
  | some .dma => .transfer <$> read transfer row
  | some .compute => .compute <$> read compute row
  | some .dmaWait => pure (.sync .dma)
  | some .laneWait => pure (.sync .lanes)
  | some .fullSync => pure (.sync .both)
  | some .block => .block <$> read block row
  | some .scatter => .scatter <$> read scatter row
  | some .padding => .padding <$> read padding row
  | none => throw (.unknownSegmentKind index kind)

def decodeFrom (bytes : List UInt8) : Nat → Nat → Guarded (List Segment)
  | 0, _ => pure []
  | left + 1, index => do
    let row ← record bytes index
    let next ← sum index 1
    if ← testTransfer (· == loopCode) row then
      let header ← read loopHeader row
      match left with
      | 0 => throw (.loopWithoutBase index)
      | left + 1 =>
        let base ← record bytes next
        if ← testTransfer (· != loopCode) base then
          let base ← read transfer base
          let rest ← decodeFrom bytes left (← sum next 1)
          return .loop (header.withBase base) :: rest
        else throw (.loopWithoutBase index)
    else
      let segment ← decodeRecord index row
      return segment :: (← decodeFrom bytes left next)

def decode (bytes : List UInt8) : Guarded (List Segment) := do
  let records := bytes.length / size
  if bytes.length % size = 0 then decodeFrom bytes records 0
  else
    let whole ← product records size
    throw (.truncated whole size (bytes.length - whole))

end Records

/-! ## Blobs under the guard -/

section Blobs

open Blob

def checkLayerOffset (size : Nat) (offset : UInt32) : Guarded Unit := do
  if size < (← sum offset.toNat layerHeaderSize) then
    throw (.offsetOutOfRange .layer offset.toNat size)

def summary (bytes : List UInt8) : Guarded Summary := do
  let h ← read header (← piece bytes 0 headerSize)
  if h.magic ≠ magic then
    throw (.badMagic h.magic magic)
  let size := h.blobSize.toNat
  if bytes.length < size then
    throw (.truncated 0 size bytes.length)
  let blob ← range bytes 0 size
  let tableSize := saturate (4 * h.layerCount.toNat)
  if size < saturate (headerSize + tableSize) then
    throw (.truncated headerSize tableSize (size - headerSize))
  let offsets ← words (checkLayerOffset size) blob headerSize h.layerCount.toNat 0
  let listSize ← product 4 h.execCount.toNat
  if size < saturate (h.execOffset.toNat + listSize) then
    throw (.offsetOutOfRange .execList h.execOffset.toNat size)
  return { h with layerOffsets := offsets }

def layer (blob : List UInt8) (offset : Nat) : Guarded Layer := do
  let head ← piece blob offset layerHeaderSize
  let count := (← read recordCountField head).toInt
  if count < 0 then
    throw (.fieldOverflow .segmentCount count)
  let start ← sum offset layerHeaderSize
  let records ← piece blob start (saturate (count.toNat * Record.size))
  let params ← read (params.before (zeros 24)) head
  let segments ← decode records
  return { params, segments }

def toNet (bytes : List UInt8) : Guarded Net := do
  let s ← summary bytes
  let blob ← range bytes 0 s.blobSize.toNat
  let layers ← s.layerOffsets.mapM (fun offset => layer blob offset.toNat)
  let execList ← words (fun _ => pure ()) blob s.execOffset.toNat s.execCount.toNat 0
  return { layers, execList }

end Blobs

/-! ## Operations that do not trap -/

section Operations

theorem answer_bind {x : Except Fault α} {f : α → Guarded β} {g : α → Except Fault β}
    (h : ∀ a, x = .ok a → f a = answer (g a)) : answer x >>= f = answer (x >>= g) := by
  cases x with
  | error e => rfl
  | ok a => exact h a rfl

@[simp] theorem answer_ok_bind (a : α) (f : α → Guarded β) : answer (.ok a) >>= f = f a := rfl

@[simp] theorem pure_eq_answer (a : α) : (pure a : Guarded α) = answer (.ok a) := rfl

@[simp] theorem throw_eq_answer (f : Fault) : (throw f : Guarded α) = answer (.error f) := rfl

theorem sum_eq {a b : Nat} (h : a + b < 2 ^ 64) : sum a b = answer (.ok (a + b)) := by
  rw [sum, Checked.add, if_pos (by simpa using h), number]

theorem product_eq {a b : Nat} (h : a * b < 2 ^ 64) : product a b = answer (.ok (a * b)) := by
  rw [product, Checked.mul, if_pos (by simpa using h), number]

theorem saturate_eq {n : Nat} (h : n < 2 ^ 64) : saturate n = n := by
  unfold saturate
  omega

theorem byte_eq {bytes : List UInt8} {index : Nat} (h : index < bytes.length) :
    byte bytes index = answer (.ok (bytes.getD index 0)) :=
  if_pos h

theorem read_eq {l : Layout α} {bytes : List UInt8} (h : bytes.length = l.width) :
    read l bytes = answer (l.read bytes) :=
  if_pos h

theorem range_eq {bytes : List UInt8} {start stop : Nat} (hle : start ≤ stop)
    (hstop : stop ≤ bytes.length) :
    range bytes start stop = answer (.ok ((bytes.drop start).take (stop - start))) :=
  if_pos ⟨hle, hstop⟩

theorem piece_eq {offset length : Nat} (h : offset + length < 2 ^ 64) (bytes : List UInt8) :
    piece bytes offset length = answer (Blob.slice bytes offset length) := by
  unfold piece Blob.slice
  rw [saturate_eq h]
  by_cases hle : offset + length ≤ bytes.length
  · rw [if_pos ⟨by omega, hle⟩, if_pos hle, range_eq (by omega) hle, Nat.add_sub_cancel_left]
  · rw [if_neg (by omega), if_neg hle, throw_eq_answer]

@[simp] theorem map_answer (f : α → β) (x : Except Fault α) :
    f <$> answer x = answer (f <$> x) := by
  cases x <;> rfl

theorem refuse_eq {c : Prop} [Decidable c] {e : Fault} {f : Unit → Guarded α}
    {g : Unit → Except Fault α} (h : ¬c → f () = answer (g ())) :
    (if c then throw e >>= f else f ()) = answer (if c then throw e >>= g else g ()) := by
  by_cases hc : c
  · rw [if_pos hc, if_pos hc]
    rfl
  · rw [if_neg hc, if_neg hc, h hc]

theorem mapM_eq {xs : List β} {f : β → Guarded α} {g : β → Except Fault α}
    (h : ∀ x ∈ xs, f x = answer (g x)) : xs.mapM f = answer (xs.mapM g) := by
  induction xs with
  | nil => rfl
  | cons x xs ih =>
    rw [List.forall_mem_cons] at h
    rw [List.mapM_cons, List.mapM_cons, h.1, ih h.2]
    exact answer_bind fun a _ => answer_bind fun as _ => rfl

end Operations

/-! ## Words -/

section Words

variable {bytes : List UInt8}

theorem word_eq {offset : Nat} (hle : offset + 4 ≤ bytes.length) (hlt : offset + 4 < 2 ^ 64) :
    word bytes offset =
      answer (.ok (UInt32.ofNat (littleEndian ((bytes.drop offset).take 4)))) := by
  have hslice := Blob.slice_eq_ok_iff.mpr ⟨hle, rfl⟩
  have hlength : ((bytes.drop offset).take 4).length = Layout.u32.width := by
    rw [List.length_take, List.length_drop]
    exact Nat.min_eq_left (by omega)
  rw [word, piece_eq hlt, hslice, answer_ok_bind, read_eq hlength]
  change answer (.ok (UInt32.ofNat (littleEndian (((bytes.drop offset).take 4).take 4)))) = _
  rw [List.take_take, Nat.min_self]

theorem words_eq {check : UInt32 → Guarded Unit} {c : UInt32 → Except Fault Unit}
    (hcheck : ∀ w, check w = answer (c w)) {base n index : Nat}
    (hle : base + 4 * (index + n) ≤ bytes.length) (hlt : bytes.length < 2 ^ 64) :
    words check bytes base n index =
      answer ((Blob.words n (bytes.drop (base + 4 * index))).forM c >>= fun _ =>
        .ok (Blob.words n (bytes.drop (base + 4 * index)))) := by
  induction n generalizing index with
  | zero => rfl
  | succ n ih =>
    have hnext : (bytes.drop (base + 4 * index)).drop 4 = bytes.drop (base + 4 * (index + 1)) := by
      rw [List.drop_drop]
      congr 1
    rw [words, product_eq (by omega), answer_ok_bind, sum_eq (by omega), answer_ok_bind,
      word_eq (by omega) (by omega), answer_ok_bind, hcheck, ih (by omega), Blob.words, hnext,
      List.forM]
    cases c (UInt32.ofNat (littleEndian ((bytes.drop (base + 4 * index)).take 4))) with
    | error e => rfl
    | ok =>
      cases (Blob.words n (bytes.drop (base + 4 * (index + 1)))).forM c with
      | error e => rfl
      | ok => rfl

end Words

/-! ## Records -/

section Records

open Record

variable {bytes row : List UInt8} {index left : Nat}

theorem record_eq (index : Nat) (hle : size * (index + 1) ≤ bytes.length)
    (hlt : bytes.length < 2 ^ 64) :
    record bytes index = answer (.ok ((bytes.drop (size * index)).take size)) ∧
      ((bytes.drop (size * index)).take size).length = size := by
  have hnext : (index + 1) * size = size * index + size := by
    rw [Nat.mul_comm, Nat.mul_succ]
  have hstart : index * size = size * index := Nat.mul_comm _ _
  rw [Nat.mul_succ] at hle
  constructor
  · have hindex : index ≤ size * index := Nat.le_mul_of_pos_left index (by decide)
    have hsize : 0 < size := by decide
    rw [record, product_eq (by omega), answer_ok_bind, sum_eq (by omega), answer_ok_bind,
      product_eq (by omega), answer_ok_bind, range_eq (by omega) (by omega), hnext, hstart,
      Nat.add_sub_cancel_left]
  · rw [List.length_take, List.length_drop]
    omega

-- the guard itself does stop a reader that asks for more
example : record [1, 2, 3] 0 = trap (.range 0 32 3) := rfl

theorem testTransfer_eq (hrow : row.length = size) (test : UInt8 → Bool) :
    testTransfer test row =
      answer (.ok (kindByte row == Kind.dma.code && test (row.getD 0 0))) := by
  have hlength : row.length = 32 := hrow
  rw [testTransfer, byte_eq (by omega), answer_ok_bind, byte_eq (by omega)]
  simp only [kindByte]
  cases row.getD 31 0 == Kind.dma.code <;> rfl

theorem decodeRecord_eq (hrow : row.length = size) :
    decodeRecord index row = answer (Record.decodeRecord index row) := by
  have hlength : row.length = 32 := hrow
  rw [decodeRecord, byte_eq (by omega), answer_ok_bind, Record.decodeRecord, kindByte]
  cases Kind.ofCode? (row.getD 31 0) with
  | none => rfl
  | some kind =>
    cases kind with
    | dma | compute | block | scatter | padding =>
      dsimp only
      rw [read_eq (hlength.trans (by decide)), map_answer]
    | dmaWait | laneWait | fullSync => rfl

theorem decodeFrom_eq (hle : size * (index + left) ≤ bytes.length) (hlt : bytes.length < 2 ^ 64) :
    decodeFrom bytes left index =
      answer (Record.decodeFrom index (cut left (bytes.drop (size * index)))) := by
  -- a loop takes two records, so the induction is on all smaller numbers of them
  induction left using Nat.strong_induction_on generalizing index with
  | _ left ih =>
    have hdrop (i : Nat) : (bytes.drop (size * i)).drop size = bytes.drop (size * (i + 1)) := by
      rw [List.drop_drop, Nat.mul_succ]
    simp only [size] at hle
    cases left with
    | zero => rfl
    | succ left =>
      obtain ⟨hrecord, hrow⟩ := record_eq index (by simp only [size]; omega) hlt
      rw [cut, hdrop, Record.decodeFrom.eq_def, decodeFrom, hrecord, answer_ok_bind,
        sum_eq (by omega), answer_ok_bind, testTransfer_eq hrow, answer_ok_bind, ← isLoopHeader]
      generalize (bytes.drop (size * index)).take size = row at hrow
      dsimp only
      cases hloop : isLoopHeader row with
      | false =>
        rw [if_neg Bool.false_ne_true, if_neg Bool.false_ne_true, decodeRecord_eq hrow,
          ih left (by omega) (by simp only [size]; omega)]
        exact answer_bind fun segment _ => answer_bind fun rest _ => rfl
      | true =>
        obtain ⟨header, hheader⟩ : ∃ header, loopHeader.read row = .ok header := ⟨_, rfl⟩
        rw [if_pos rfl, if_pos rfl, read_eq (hrow.trans (by decide)), hheader, answer_ok_bind]
        cases left with
        | zero => rfl
        | succ left =>
          obtain ⟨hrecord, hbase⟩ := record_eq (index + 1) (by simp only [size]; omega) hlt
          rw [cut, hdrop]
          dsimp only
          rw [hrecord, answer_ok_bind, testTransfer_eq hbase, answer_ok_bind, ← isTransfer]
          generalize (bytes.drop (size * (index + 1))).take size = base at hbase
          cases isTransfer base with
          | false => rfl
          | true =>
            rw [if_pos rfl, if_pos rfl, read_eq (hbase.trans (by decide)), ok_bind,
              sum_eq (by omega)]
            refine answer_bind fun t _ => ?_
            rw [answer_ok_bind, ih left (by omega) (by simp only [size]; omega)]
            exact answer_bind fun rest _ => rfl

theorem decode_eq (hlt : bytes.length < 2 ^ 64) :
    decode bytes = answer (Record.decode bytes) := by
  have hwhole := Nat.div_mul_le_self bytes.length size
  unfold decode Record.decode
  by_cases hmod : bytes.length % size = 0
  · rw [if_pos hmod, if_pos hmod, decodeFrom_eq (by rw [Nat.zero_add, Nat.mul_comm]; omega) hlt]
    rfl
  · rw [if_neg hmod, if_neg hmod, product_eq (by omega), answer_ok_bind, throw_eq_answer]

end Records

/-! ## Blobs -/

section Blobs

open Blob

variable {bytes blob : List UInt8}

theorem length_of_slice {piece : List UInt8} {offset length : Nat}
    (h : slice bytes offset length = .ok piece) : piece.length = length := by
  obtain ⟨hle, rfl⟩ := slice_eq_ok_iff.mp h
  rw [List.length_take, List.length_drop]
  omega

def plainCheck (size : Nat) (offset : UInt32) : Except Fault Unit :=
  if size < offset.toNat + layerHeaderSize then .error (.offsetOutOfRange .layer offset.toNat size)
  else .ok ()

theorem checkLayerOffset_eq (size : Nat) (offset : UInt32) :
    checkLayerOffset size offset = answer (plainCheck size offset) := by
  have hoffset := offset.toNat_lt
  rw [checkLayerOffset, sum_eq (by simp only [layerHeaderSize]; omega), answer_ok_bind, plainCheck]
  by_cases h : size < offset.toNat + layerHeaderSize
  · rw [if_pos h, if_pos h, throw_eq_answer]
  · rw [if_neg h, if_neg h, pure_eq_answer]

theorem forM_plainCheck {size : Nat} {offsets : List UInt32} {found : Option UInt32}
    (h : offsets.find? (fun o => size < o.toNat + layerHeaderSize) = found) :
    offsets.forM (plainCheck size) =
      found.elim (.ok ()) fun o => .error (.offsetOutOfRange .layer o.toNat size) := by
  induction offsets with
  | nil =>
    obtain rfl : none = found := h
    rfl
  | cons offset offsets ih =>
    rw [List.forM, plainCheck]
    by_cases hout : size < offset.toNat + layerHeaderSize
    · rw [List.find?_cons_of_pos (by simpa using hout)] at h
      subst h
      rw [if_pos hout]
      rfl
    · rw [List.find?_cons_of_neg (by simpa using hout)] at h
      rw [if_neg hout, ok_bind, ih h]

theorem words_drop_take {offset n size : Nat} (hle : offset + 4 * n ≤ size)
    (hsize : size ≤ bytes.length) :
    Blob.words n ((bytes.take size).drop offset) = Blob.words n (bytes.drop offset) := by
  have hlength : (bytes.take size).length = size := List.length_take_of_le hsize
  conv_rhs => rw [← List.take_append_drop size bytes]
  rw [List.drop_append_of_le_length (by omega),
    words_append _ (by rw [List.length_drop]; omega)]

theorem summary_eq (bytes : List UInt8) : summary bytes = answer (Blob.summary bytes) := by
  unfold summary Blob.summary
  rw [piece_eq (by decide)]
  refine answer_bind fun head hhead => ?_
  rw [read_eq ((length_of_slice hhead).trans width_header.symm)]
  refine answer_bind fun h _ => ?_
  have hlayers := h.layerCount.toNat_lt
  have hcount := h.execCount.toNat_lt
  have hexec := h.execOffset.toNat_lt
  have hblob := h.blobSize.toNat_lt
  have htable : headerSize + 4 * h.layerCount.toNat < 2 ^ 64 := by simp only [headerSize]; omega
  dsimp only
  refine refuse_eq fun _ => refuse_eq fun hsize => ?_
  rw [not_lt] at hsize
  rw [range_eq (Nat.zero_le _) hsize, answer_ok_bind, List.drop_zero, Nat.sub_zero,
    saturate_eq (n := 4 * h.layerCount.toNat) (by omega), saturate_eq htable]
  refine refuse_eq fun hin => ?_
  have hlength := List.length_take_of_le hsize
  rw [words_eq (checkLayerOffset_eq _) (by rw [Nat.zero_add]; omega) (by omega), Nat.mul_zero,
    Nat.add_zero, words_drop_take (by omega) hsize]
  cases hfind : (Blob.words h.layerCount.toNat (bytes.drop headerSize)).find?
      (fun o => h.blobSize.toNat < o.toNat + layerHeaderSize) with
  | some offset =>
    rw [forM_plainCheck hfind]
    rfl
  | none =>
    rw [forM_plainCheck hfind, Option.elim_none, ok_bind, answer_ok_bind, product_eq (by omega),
      answer_ok_bind, saturate_eq (by omega)]
    exact refuse_eq fun _ => rfl

theorem width_recordCountField : recordCountField.width = layerHeaderSize := by
  simp only [recordCountField, Layout.behind, zeros, List.length_replicate]
  rfl

theorem width_params : (params.before (zeros 24)).width = layerHeaderSize := by
  decide

theorem layer_eq {offset : Nat} (hoffset : offset < 2 ^ 32) (hblob : blob.length < 2 ^ 32) :
    layer blob offset = answer (readLayer blob offset) := by
  unfold layer readLayer
  rw [piece_eq (by simp only [layerHeaderSize]; omega)]
  refine answer_bind fun head hhead => ?_
  have hlength := length_of_slice hhead
  rw [read_eq (hlength.trans width_recordCountField.symm)]
  refine answer_bind fun count _ => ?_
  have hcount := count.toInt_lt
  dsimp only
  refine refuse_eq fun hneg => ?_
  rw [sum_eq (by simp only [layerHeaderSize]; omega), answer_ok_bind,
    saturate_eq (by simp only [Record.size]; omega),
    piece_eq (by simp only [layerHeaderSize, Record.size]; omega)]
  refine answer_bind fun records hrecords => ?_
  have hle := (slice_eq_ok_iff.mp hrecords).1
  have hsize := length_of_slice hrecords
  rw [read_eq (hlength.trans width_params.symm), decode_eq (by omega)]
  exact answer_bind fun params _ => answer_bind fun segments _ => rfl

theorem forM_ok (ws : List UInt32) : ws.forM (fun _ => (.ok () : Except Fault Unit)) = .ok () := by
  rw [forM_eq_ok_iff]
  exact fun _ _ => rfl

/-- Under the guard a blob is read as without it, whatever its bytes. -/
theorem toNet_eq (bytes : List UInt8) : toNet bytes = answer (Blob.toNet bytes) := by
  unfold toNet Blob.toNet
  rw [summary_eq]
  refine answer_bind fun s hs => ?_
  obtain ⟨-, head, -, -, hsize, -, -, hexec, rfl⟩ := summary_eq_ok_iff.mp hs
  have hblob := head.blobSize.toNat_lt
  have hlength := List.length_take_of_le hsize
  dsimp only
  rw [range_eq (Nat.zero_le _) hsize, answer_ok_bind, List.drop_zero, Nat.sub_zero,
    mapM_eq fun offset _ => layer_eq offset.toNat_lt (by omega)]
  refine answer_bind fun layers _ => ?_
  rw [words_eq (fun _ => pure_eq_answer ()) (by rw [Nat.zero_add]; omega) (by omega), forM_ok,
    ok_bind, answer_ok_bind, Nat.mul_zero, Nat.add_zero]
  rfl

end Blobs

end Guarded

/-! ## Blobs delimit themselves -/

namespace Blob

variable {bytes : List UInt8}

theorem summary_take {s : Summary} (h : summary bytes = .ok s) :
    summary (bytes.take s.blobSize.toNat) = .ok s := by
  obtain ⟨hlength, head, hhead, hmagic, hsize, htable, hoffsets, hexec, rfl⟩ :=
    summary_eq_ok_iff.mp h
  have htake := List.length_take_of_le hsize
  have hwords := Guarded.words_drop_take htable hsize
  dsimp only
  refine summary_eq_ok_iff.mpr ⟨by omega, head, ?_, hmagic, htake.ge, htable, ?_, hexec, ?_⟩
  · rw [List.take_take, Nat.min_eq_left (by omega), hhead]
  · rwa [hwords]
  · rw [hwords]

theorem toNet_take {s : Summary} {net : Net} (hs : summary bytes = .ok s)
    (h : toNet bytes = .ok net) : toNet (bytes.take s.blobSize.toNat) = .ok net := by
  unfold toNet at h ⊢
  rw [hs, ok_bind] at h
  rw [summary_take hs, ok_bind, List.take_take, Nat.min_self]
  exact h

theorem toNet_take_of_lt {head : Header} (hhead : header.read (bytes.take headerSize) = .ok head)
    (hmagic : head.magic = magic) (hsize : head.blobSize.toNat ≤ bytes.length) {m : Nat}
    (hm : m < head.blobSize.toNat) :
    toNet (bytes.take m) =
      .error (.truncated 0 (if m < headerSize then headerSize else head.blobSize.toNat) m) := by
  have hlength : (bytes.take m).length = m := List.length_take_of_le (by omega)
  unfold toNet summary slice
  by_cases hshort : m < headerSize
  · rw [if_neg (by omega), if_pos hshort, hlength]
    rfl
  · rw [if_pos (by omega), if_neg hshort, ok_bind, List.drop_zero, List.take_take,
      Nat.min_eq_left (by omega), hhead, ok_bind]
    dsimp only
    rw [if_neg (not_not.mpr hmagic), hlength, if_pos hm]
    rfl

/-- Reading arbitrary bytes as a blob never leaves them and never leaves a word. What is read is
told by the stated size alone, and no smaller piece of it is taken for a blob. -/
theorem toNet_guarded_self_delimiting (bytes : List UInt8) :
    (Guarded.toNet bytes).run = .ok (toNet bytes) ∧
    ∀ net, toNet bytes = .ok net → ∃ head, header.read (bytes.take headerSize) = .ok head ∧
      headerSize ≤ head.blobSize.toNat ∧ head.blobSize.toNat ≤ bytes.length ∧
      (∀ other : List UInt8, head.blobSize.toNat ≤ other.length →
        other.take head.blobSize.toNat = bytes.take head.blobSize.toNat →
        toNet other = .ok net) ∧
      ∀ m < head.blobSize.toNat, toNet (bytes.take m) =
        .error (.truncated 0 (if m < headerSize then headerSize else head.blobSize.toNat) m) := by
  refine ⟨congrArg ExceptT.run (Guarded.toNet_eq bytes), fun net hnet => ?_⟩
  obtain ⟨s, hs, -⟩ := bind_eq_ok_iff.mp hnet
  have htake := toNet_take hs hnet
  obtain ⟨-, head, hhead, hmagic, hsize, htable, -, -, rfl⟩ := summary_eq_ok_iff.mp hs
  refine ⟨head, hhead, by omega, hsize, fun other hother hagree => ?_,
    fun m hm => toNet_take_of_lt hhead hmagic hsize hm⟩
  rw [← List.take_append_drop head.blobSize.toNat other, hagree]
  exact toNet_append _ htake

/-- The blob takes 492 bytes. Others may follow it, and neither 491 nor 10 of its own are enough. -/
theorem toNet_guarded_self_delimiting_emptySecond :
    toNet (bytesOf emptySecond ++ [1, 2, 3]) = .ok emptySecond ∧
      (Guarded.toNet (bytesOf emptySecond ++ [1, 2, 3])).run = .ok (.ok emptySecond) ∧
      toNet (bytesOf emptySecond ++ [7]) = .ok emptySecond ∧
      toNet ((bytesOf emptySecond ++ [1, 2, 3]).take 491) = .error (.truncated 0 492 491) ∧
      toNet ((bytesOf emptySecond ++ [1, 2, 3]).take 10) = .error (.truncated 0 24 10) := by
  have hnet : toNet (bytesOf emptySecond ++ [1, 2, 3]) = .ok emptySecond :=
    toNet_append _ (toNet_ofNet (ofNet_eq_bytesOf (by decide +kernel)))
  obtain ⟨hrun, hread⟩ := toNet_guarded_self_delimiting (bytesOf emptySecond ++ [1, 2, 3])
  obtain ⟨head, hhead, -, -, hsame, hless⟩ := hread emptySecond hnet
  have hvalue : header.read ((bytesOf emptySecond ++ [1, 2, 3]).take headerSize) =
      .ok { magic, blobSize := 492, execCount := 3, execOffset := 480, layerCount := 2 } := by
    decide +kernel
  obtain rfl := Except.ok.inj (hhead.symm.trans hvalue)
  exact ⟨hnet, hrun.trans (congrArg Except.ok hnet),
    hsame _ (by decide +kernel) (by decide +kernel), hless 491 (by decide), hless 10 (by decide)⟩

end Blob

end CommandStream
