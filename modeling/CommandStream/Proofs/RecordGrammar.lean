import CommandStream.Proofs.RecordRoundTrip
import CommandStream.Proofs.StreamCounts

/-! # Which bytes are a stream

Reading takes one phrase after another: a record of its own, or a loop header with the transfer
behind it. It accepts exactly the sequences of phrases, so streams can be put together byte by byte,
and what is read takes as many records as it was read from.
-/

namespace CommandStream

/-! ## Codes decide -/

namespace Layout

variable {α β : Type}

theorem exists_read_pair_iff {l : Layout α} {r : Layout β}
    (hr : ∀ bytes, ∃ b, r.read bytes = .ok b) {bytes : List UInt8} :
    (∃ p, (l.pair r).read bytes = .ok p) ↔ ∃ a, l.read bytes = .ok a := by
  constructor
  · rintro ⟨p, hp⟩
    obtain ⟨a, ha, -⟩ := bind_eq_ok_iff.mp hp
    exact ⟨a, ha⟩
  · rintro ⟨a, ha⟩
    obtain ⟨b, hb⟩ := hr (bytes.drop l.width)
    exact ⟨(a, b), bind_eq_ok_iff.mpr ⟨a, ha, bind_eq_ok_iff.mpr ⟨b, hb, rfl⟩⟩⟩

theorem read_u8 (bytes : List UInt8) : u8.read bytes = .ok (bytes.getD 0 0) := by
  cases bytes with
  | nil => rfl
  | cons b rest =>
    change Except.ok (UInt8.ofNat (b.toNat + 256 * 0)) = _
    simp

end Layout

namespace Record

open Layout

theorem exists_map_eq_ok_iff {α β : Type} {x : Except Fault α} {f : α → β} :
    (∃ b, x.map f = .ok b) ↔ ∃ a, x = .ok a := by
  cases x <;> simp [Except.map]

theorem exists_known_eq_ok_iff {α : Type} {unknown : UInt8 → Fault} {ofCode? : UInt8 → Option α}
    {bytes : List UInt8} :
    (∃ a, (u8.read bytes >>= known unknown ofCode?) = .ok a) ↔
      (ofCode? (bytes.getD 0 0)).isSome = true := by
  rw [read_u8, ok_bind, known]
  cases ofCode? (bytes.getD 0 0) <;> simp

theorem exists_read_transfer_iff {row : List UInt8} :
    (∃ t, transfer.read row = .ok t) ↔ row.getD 0 0 ≤ 3 := by
  refine exists_map_eq_ok_iff.trans <| (exists_read_pair_iff fun _ => ⟨_, rfl⟩).trans <|
    exists_known_eq_ok_iff.trans ?_
  rw [Direction.ofCode?, isSome_getElem?, UInt8.le_iff_toNat_le]
  exact Nat.lt_succ_iff

theorem exists_read_compute_iff {row : List UInt8} :
    (∃ c, compute.read row = .ok c) ↔ row.getD 0 0 ≤ 26 := by
  refine exists_map_eq_ok_iff.trans <| (exists_read_pair_iff fun _ => ⟨_, rfl⟩).trans <|
    exists_known_eq_ok_iff.trans ?_
  rw [Opcode.ofCode?, isSome_getElem?, UInt8.le_iff_toNat_le]
  exact Nat.lt_succ_iff

/-! ## Phrases -/

theorem Kind.code_of_ofCode? {code : UInt8} {kind : Kind} (h : ofCode? code = some kind) :
    code = kind.code := by
  obtain ⟨hlt, hkind⟩ := List.getElem?_eq_some_iff.mp h
  have hcode : ∀ i : Fin all.length, UInt8.ofNat i = (all.get i).code := by decide
  calc code = UInt8.ofNat code.toNat := UInt8.ofNat_toNat.symm
    _ = kind.code := hkind ▸ hcode ⟨code.toNat, hlt⟩

theorem Kind.lt_of_ofCode?_eq_none {code : UInt8} (h : ofCode? code = none) : 7 < code := by
  rw [UInt8.lt_iff_toNat_lt]
  exact List.getElem?_eq_none_iff.mp h

theorem exists_decodeRecord_iff {index : Nat} {row : List UInt8} :
    (∃ s, decodeRecord index row = .ok s) ↔
      kindByte row = 0 ∧ row.getD 0 0 ≤ 3 ∨ kindByte row = 1 ∧ row.getD 0 0 ≤ 26 ∨
        2 ≤ kindByte row ∧ kindByte row ≤ 7 := by
  rw [decodeRecord]
  cases hkind : Kind.ofCode? (kindByte row) with
  | none =>
    have hlt := Kind.lt_of_ofCode?_eq_none hkind
    simp only [UInt8.lt_iff_toNat_lt, UInt8.le_iff_toNat_le, ← UInt8.toNat_inj] at hlt ⊢
    simp at hlt ⊢
    omega
  | some kind =>
    rw [Kind.code_of_ofCode? hkind]
    cases kind with
    | dma => simpa [Kind.code, map_eq_ok_iff] using exists_read_transfer_iff
    | compute => simpa [Kind.code, map_eq_ok_iff] using exists_read_compute_iff
    | dmaWait | laneWait | block | fullSync | scatter | padding =>
      exact ⟨fun _ => .inr (.inr (by decide)), fun _ => ⟨_, rfl⟩⟩

/-- The rows that may stand for one segment: a transfer with a known direction, a loop header and
such a transfer, a compute command with a known operation, or any row of another kind. -/
inductive Phrase : List (List UInt8) → Prop where
  | transfer {row} (hkind : kindByte row = 0) (hdirection : row.getD 0 0 ≤ 3) : Phrase [row]
  | loop {header base} (hkind : kindByte header = 0) (hcode : header.getD 0 0 = 4)
      (hbase : kindByte base = 0) (hdirection : base.getD 0 0 ≤ 3) : Phrase [header, base]
  | compute {row} (hkind : kindByte row = 1) (hop : row.getD 0 0 ≤ 26) : Phrase [row]
  | other {row} (hlow : 2 ≤ kindByte row) (hhigh : kindByte row ≤ 7) : Phrase [row]

inductive Spells : List (List UInt8) → Segment → Prop where
  | single {row s} (hheader : isLoopHeader row = false)
      (hrow : ∀ index, decodeRecord index row = .ok s) : Spells [row] s
  | loop {row header base t} (hheader : isLoopHeader row = true) (hbase : isTransfer base = true)
      (hrow : loopHeader.read row = .ok header) (ht : transfer.read base = .ok t) :
      Spells [row, base] (.loop (header.withBase t))

theorem isLoopHeader_iff {row : List UInt8} :
    isLoopHeader row = true ↔ kindByte row = 0 ∧ row.getD 0 0 = 4 := by
  simp [isLoopHeader, Kind.code, loopCode]

theorem isTransfer_iff {row : List UInt8} :
    isTransfer row = true ↔ kindByte row = 0 ∧ row.getD 0 0 ≠ 4 := by
  simp [isTransfer, Kind.code, loopCode]

theorem Spells.of_decodeRecord {row : List UInt8} {s : Segment} {index : Nat}
    (hheader : isLoopHeader row = false) (h : decodeRecord index row = .ok s) : Spells [row] s := by
  refine .single hheader fun _ => ?_
  unfold decodeRecord at h ⊢
  cases hkind : Kind.ofCode? (kindByte row) with
  | none => rw [hkind] at h; cases h
  | some kind => rw [hkind] at h; cases kind <;> exact h

theorem exists_spells_single {row : List UInt8}
    (h : kindByte row = 0 ∧ row.getD 0 0 ≤ 3 ∨ kindByte row = 1 ∧ row.getD 0 0 ≤ 26 ∨
      2 ≤ kindByte row ∧ kindByte row ≤ 7) : ∃ s, Spells [row] s := by
  have hheader : isLoopHeader row = false := by
    refine Bool.eq_false_iff.mpr fun hloop => ?_
    obtain ⟨hkind, hcode⟩ := isLoopHeader_iff.mp hloop
    rw [hkind, hcode] at h
    revert h
    decide
  obtain ⟨s, hs⟩ : ∃ s, decodeRecord 0 row = .ok s := exists_decodeRecord_iff.mpr h
  exact ⟨s, .of_decodeRecord hheader hs⟩

/-- A phrase is what is read as some segment. -/
theorem exists_spells_iff {rows : List (List UInt8)} : (∃ s, Spells rows s) ↔ Phrase rows := by
  constructor
  · rintro ⟨s, h⟩
    cases h with
    | single hheader hrow =>
      obtain ⟨hkind, hdirection⟩ | ⟨hkind, hop⟩ | ⟨hlow, hhigh⟩ :=
        exists_decodeRecord_iff.mp ⟨s, hrow 0⟩
      · exact .transfer hkind hdirection
      · exact .compute hkind hop
      · exact .other hlow hhigh
    | loop hheader hbase hrow ht =>
      obtain ⟨hkind, hcode⟩ := isLoopHeader_iff.mp hheader
      exact .loop hkind hcode (isTransfer_iff.mp hbase).1 (exists_read_transfer_iff.mp ⟨_, ht⟩)
  · intro h
    cases h with
    | transfer hkind hdirection => exact exists_spells_single (.inl ⟨hkind, hdirection⟩)
    | compute hkind hop => exact exists_spells_single (.inr (.inl ⟨hkind, hop⟩))
    | other hlow hhigh => exact exists_spells_single (.inr (.inr ⟨hlow, hhigh⟩))
    | loop hkind hcode hbase hdirection =>
      obtain ⟨t, ht⟩ := exists_read_transfer_iff.mpr hdirection
      refine ⟨_, .loop (isLoopHeader_iff.mpr ⟨hkind, hcode⟩) (isTransfer_iff.mpr ⟨hbase, ?_⟩) rfl
        ht⟩
      rintro hloop
      rw [hloop] at hdirection
      revert hdirection
      decide

theorem Spells.length_eq {rows : List (List UInt8)} {s : Segment} (h : Spells rows s) :
    rows.length = s.records := by
  cases h with
  | @single row _ hheader hrow =>
    have hrow := hrow 0
    unfold decodeRecord at hrow
    cases hkind : Kind.ofCode? (kindByte row) with
    | none => rw [hkind] at hrow; cases hrow
    | some kind =>
      rw [hkind] at hrow
      cases kind with
      | dma | compute | block | scatter | padding =>
        obtain ⟨_, -, rfl⟩ := map_eq_ok_iff.mp hrow
        rfl
      | dmaWait | laneWait | fullSync =>
        obtain rfl := Except.ok.inj hrow
        rfl
  | loop hheader hbase hrow ht => rfl

/-! ## Reading phrase by phrase -/

theorem Spells.decodeFrom_append {rows : List (List UInt8)} {s : Segment} (h : Spells rows s)
    (index : Nat) (rest : List (List UInt8)) :
    decodeFrom index (rows ++ rest) = (s :: ·) <$> decodeFrom (index + rows.length) rest := by
  cases h with
  | single hheader hrow => exact decodeFrom_single hheader (hrow index) rest
  | loop hheader hbase hrow ht =>
    change decodeFrom index (_ :: _ :: rest) = _
    rw [decodeFrom, hheader]
    simp only [if_true, hbase, hrow, ht, ok_bind]
    rfl

theorem decodeFrom_eq_ok_iff {index : Nat} {records : List (List UInt8)} {segments : List Segment} :
    decodeFrom index records = .ok segments ↔
      ∃ phrases, List.Forall₂ Spells phrases segments ∧ records = phrases.flatten := by
  constructor
  · intro h
    fun_induction decodeFrom index records generalizing segments with
    | case1 index =>
      obtain rfl := Except.ok.inj h
      exact ⟨[], .nil, rfl⟩
    | case2 index record hheader => cases h
    | case3 index record hheader base rest hbase ih =>
      simp only [bind_eq_ok_iff, pure_eq_ok_iff] at h
      obtain ⟨header, hrow, t, ht, more, hmore, rfl⟩ := h
      obtain ⟨phrases, hphrases, rfl⟩ := ih hmore
      exact ⟨_ :: phrases, .cons (.loop hheader hbase hrow ht) hphrases, rfl⟩
    | case4 index record hheader base rest hbase => cases h
    | case5 index record rest hheader ih =>
      simp only [bind_eq_ok_iff, pure_eq_ok_iff] at h
      obtain ⟨s, hs, more, hmore, rfl⟩ := h
      obtain ⟨phrases, hphrases, rfl⟩ := ih hmore
      exact ⟨_ :: phrases, .cons (.of_decodeRecord (by simpa using hheader) hs) hphrases, rfl⟩
  · rintro ⟨phrases, h, rfl⟩
    induction h generalizing index with
    | nil => rfl
    | cons hs _ ih => rw [List.flatten_cons, hs.decodeFrom_append, ih]; rfl

theorem length_cut (n : Nat) (bytes : List UInt8) : (cut n bytes).length = n := by
  induction n generalizing bytes with
  | zero => rfl
  | succ n ih => rw [cut, List.length_cons, ih]

theorem cut_append {m : Nat} {a : List UInt8} (h : a.length = m * size) (n : Nat)
    (b : List UInt8) : cut (m + n) (a ++ b) = cut m a ++ cut n b := by
  induction m generalizing a with
  | zero =>
    rw [Nat.zero_mul, List.length_eq_zero_iff] at h
    rw [h, Nat.zero_add]
    rfl
  | succ m ih =>
    have hle : size ≤ a.length := by rw [h, Nat.succ_mul]; omega
    have hrest : (a.drop size).length = m * size := by
      rw [List.length_drop, h, Nat.succ_mul, Nat.add_sub_cancel]
    rw [Nat.succ_add, cut, cut, List.take_append_of_le_length hle,
      List.drop_append_of_le_length hle, ih hrest, List.cons_append]

theorem decode_eq_ok_iff {bytes : List UInt8} {segments : List Segment} :
    decode bytes = .ok segments ↔ bytes.length % size = 0 ∧
      ∃ phrases, List.Forall₂ Spells phrases segments ∧
        cut (bytes.length / size) bytes = phrases.flatten := by
  unfold decode
  dsimp only
  split
  · rename_i hmod
    rw [decodeFrom_eq_ok_iff]
    exact (and_iff_right hmod).symm
  · rename_i hmod
    exact ⟨fun h => (nomatch h), fun h => absurd h.1 hmod⟩

theorem length_flatten_of_spells {phrases : List (List (List UInt8))} {segments : List Segment}
    (h : List.Forall₂ Spells phrases segments) :
    phrases.flatten.length = recordCount segments := by
  induction h with
  | nil => rfl
  | cons hs _ ih => rw [List.flatten_cons, List.length_append, hs.length_eq, ih, recordCount_cons]

theorem length_eq_of_decode {bytes : List UInt8} {segments : List Segment}
    (h : decode bytes = .ok segments) : bytes.length = recordCount segments * size := by
  obtain ⟨hmod, phrases, hphrases, hcut⟩ := decode_eq_ok_iff.mp h
  rw [← length_flatten_of_spells hphrases, ← hcut, length_cut,
    Nat.div_mul_cancel (Nat.dvd_of_mod_eq_zero hmod)]

theorem decode_append {a b : List UInt8} {s t : List Segment} (ha : decode a = .ok s)
    (hb : decode b = .ok t) : decode (a ++ b) = .ok (s ++ t) := by
  obtain ⟨hmod, phrases, hphrases, hcut⟩ := decode_eq_ok_iff.mp ha
  obtain ⟨hmod', phrases', hphrases', hcut'⟩ := decode_eq_ok_iff.mp hb
  have hlength : a.length = a.length / size * size :=
    (Nat.div_mul_cancel (Nat.dvd_of_mod_eq_zero hmod)).symm
  have hrows : (a ++ b).length / size = a.length / size + b.length / size := by
    rw [List.length_append, Nat.add_div_of_dvd_right (Nat.dvd_of_mod_eq_zero hmod)]
  rw [decode_eq_ok_iff, hrows, cut_append hlength, hcut, hcut']
  refine ⟨?_, phrases ++ phrases', List.rel_append hphrases hphrases', List.flatten_append.symm⟩
  rw [List.length_append, Nat.add_mod, hmod, hmod']
  rfl

/-! ## Writing -/

def StepsFit (segments : List Segment) : Prop :=
  ∀ l, Segment.loop l ∈ segments → -4096 ≤ l.localStep.toInt ∧ l.localStep.toInt ≤ 4095

theorem localStepFits_iff {step : Int} :
    TransferLoop.localStepFits step = true ↔ -4096 ≤ step ∧ step ≤ 4095 := by
  rw [TransferLoop.localStepFits, Bool.and_eq_true, decide_eq_true_iff, decide_eq_true_iff]
  exact Iff.rfl

theorem exists_encodeSegment_iff {s : Segment} :
    (∃ bytes, encodeSegment s = .ok bytes) ↔
      ∀ l, s = .loop l → -4096 ≤ l.localStep.toInt ∧ l.localStep.toInt ≤ 4095 := by
  cases s with
  | loop l =>
    rw [encodeSegment]
    split
    · rename_i hfits
      exact ⟨fun _ _ h => Segment.loop.inj h ▸ localStepFits_iff.mp hfits, fun _ => ⟨_, rfl⟩⟩
    · rename_i hfits
      constructor
      · rintro ⟨_, h⟩
        cases h
      · exact fun h => absurd (localStepFits_iff.mpr (h l rfl)) hfits
  | transfer _ | compute _ | block _ | sync _ | padding _ | scatter _ =>
    constructor
    · rintro - l h
      cases h
    · exact fun _ => ⟨_, rfl⟩

theorem exists_encode_iff {segments : List Segment} :
    (∃ bytes, encode segments = .ok bytes) ↔ StepsFit segments := by
  calc (∃ bytes, encode segments = .ok bytes)
    _ ↔ ∃ pieces, segments.mapM encodeSegment = .ok pieces := by
      simp only [encode, bind_eq_ok_iff, pure_eq_ok_iff]
      constructor
      · rintro ⟨_, pieces, hpieces, -⟩
        exact ⟨pieces, hpieces⟩
      · rintro ⟨pieces, hpieces⟩
        exact ⟨_, pieces, hpieces, rfl⟩
    _ ↔ ∀ s ∈ segments, ∃ bytes, encodeSegment s = .ok bytes := exists_mapM_eq_ok_iff
    _ ↔ StepsFit segments := by
      simp only [exists_encodeSegment_iff]
      exact ⟨fun h l hl => h _ hl l rfl, fun h s hs l hl => h l (hl ▸ hs)⟩

def recordKinds : Segment → List Kind
  | .transfer _ => [.dma]
  | .loop _ => [.dma, .dma]
  | .compute _ => [.compute]
  | .block _ => [.block]
  | .sync kind => [syncKind kind]
  | .padding _ => [.padding]
  | .scatter _ => [.scatter]

theorem length_rows_eq (s : Segment) : (rows s).length = s.records := by
  cases s <;> rfl

theorem map_kindByte_rows (s : Segment) :
    (rows s).map kindByte = (recordKinds s).map Kind.code := by
  cases s with
  | transfer t => exact congrArg ([·]) (kindByte_transfer t)
  | loop l =>
    exact congrArg₂ ([·, ·]) (kindByte_loopHeader (.ofLoop l)) (kindByte_transfer l.base)
  | compute c => exact congrArg ([·]) (kindByte_compute c)
  | block count => exact congrArg ([·]) (kindByte_block count)
  | sync kind => exact congrArg ([·]) (kindByte_marker (syncKind kind))
  | padding p => exact congrArg ([·]) (kindByte_padding p)
  | scatter s => exact congrArg ([·]) (kindByte_scatter s)

theorem getLast?_of_length {row : List UInt8} (h : row.length = size) :
    row.getLast? = some (kindByte row) := by
  have hlast : row[31]? = some (kindByte row) := by
    rw [kindByte, List.getD_eq_getElem?_getD, List.getElem?_eq_getElem (by rw [h]; decide)]
    rfl
  rw [List.getLast?_eq_getElem?, h]
  exact hlast

theorem cut_of_encode {segments : List Segment} {bytes : List UInt8}
    (h : encode segments = .ok bytes) :
    cut (recordCount segments) bytes = segments.flatMap rows := by
  have hsize : ∀ row ∈ segments.flatMap rows, row.length = size := by
    intro row hrow
    obtain ⟨s, -, hs⟩ := List.mem_flatMap.mp hrow
    exact length_rows row hs
  have hcount : recordCount segments = (segments.flatMap rows).length := by
    rw [List.length_flatMap]
    simp only [length_rows_eq]
    rfl
  rw [encode_eq_ok h, hcount, cut_flatten hsize]

/-- A stream can be written exactly if the local steps of its loops fit. It then takes 32 bytes for
each record, every record ends with its kind, and the stream is read back. -/
theorem encode_reads_back (segments : List Segment) :
    ((∃ bytes, encode segments = .ok bytes) ↔ StepsFit segments) ∧
      ∀ bytes, encode segments = .ok bytes →
        bytes.length = 32 * recordCount segments ∧
        (cut (recordCount segments) bytes).map List.getLast? =
          (segments.flatMap recordKinds).map (fun kind => some kind.code) ∧
        decode bytes = .ok segments := by
  refine ⟨exists_encode_iff, fun bytes h => ?_⟩
  have hdecode := (decode_encode h).2
  refine ⟨?_, ?_, hdecode⟩
  · rw [length_eq_of_decode hdecode, Nat.mul_comm]
    rfl
  · rw [cut_of_encode h, List.map_flatMap, List.map_flatMap]
    refine List.flatMap_congr fun s _ => ?_
    rw [List.map_congr_left fun row hrow => getLast?_of_length (length_rows row hrow)]
    have hkinds := congrArg (List.map some) (map_kindByte_rows s)
    rwa [List.map_map, List.map_map] at hkinds

def everyKind : List Segment :=
  [.transfer { Transfer.row .load1d 1 1 0xfedcba9876543210 7 8 with
      biasOffset := true, padding := { bits := 8 }, skipped := 3 },
    .loop {
      clusterLen := 0, clusterShift := -1, unitLen := 3, unitShift := 1, innerLen := 2
      localStep := -4096, hostStep := -64, count := 12, base := .rect .store2d 1 1 0x100 0 16 2 9 },
    .compute { op := .shiftStoreUpsample, shiftRight := -3 }, .block 3, .sync .lanes,
    .padding { left := -1, value := -32768 }, .scatter { indexShift := -2, viaDma := true }]

theorem encode_reads_back_everyKind :
    StepsFit everyKind ∧ ∃ bytes, encode everyKind = .ok bytes ∧ bytes.length = 256 ∧
      (cut 8 bytes).map List.getLast? = [some 0, some 0, some 0, some 1, some 4, some 3, some 7,
        some 6] ∧ decode bytes = .ok everyKind := by
  have hfits : StepsFit everyKind := by
    intro l hl
    simp only [everyKind, List.mem_cons, reduceCtorEq, Segment.loop.injEq, List.not_mem_nil,
      false_or, or_false] at hl
    rw [hl]
    decide
  obtain ⟨hexists, hback⟩ := encode_reads_back everyKind
  obtain ⟨bytes, h⟩ := hexists.mpr hfits
  obtain ⟨hlength, hkinds, hdecode⟩ := hback bytes h
  exact ⟨hfits, bytes, h, hlength, hkinds, hdecode⟩

/-! ## Reading and writing again -/

/-- Bytes are read exactly if they are whole records that form a sequence of phrases. What is read
takes as many records, streams are read one behind the other, and writing again what was read fails
exactly at a local step out of range and otherwise gives as many bytes that are read alike. -/
theorem decode_accepts_phrases (bytes : List UInt8) :
    ((∃ segments, decode bytes = .ok segments) ↔ bytes.length % 32 = 0 ∧
      ∃ phrases : List (List (List UInt8)), (∀ p ∈ phrases, Phrase p) ∧
        cut (bytes.length / 32) bytes = phrases.flatten) ∧
    ∀ segments, decode bytes = .ok segments →
      32 * recordCount segments = bytes.length ∧
      (∀ more segments', decode more = .ok segments' →
        decode (bytes ++ more) = .ok (segments ++ segments')) ∧
      ((∃ f, encode segments = .error f) ↔ ¬StepsFit segments) ∧
      ∀ again, encode segments = .ok again →
        again.length = bytes.length ∧ decode again = .ok segments := by
  constructor
  · simp only [← exists_spells_iff, ← exists_forall₂_iff, decode_eq_ok_iff]
    constructor
    · rintro ⟨segments, hmod, phrases, hphrases, hcut⟩
      exact ⟨hmod, phrases, ⟨segments, hphrases⟩, hcut⟩
    · rintro ⟨hmod, phrases, ⟨segments, hphrases⟩, hcut⟩
      exact ⟨segments, hmod, phrases, hphrases, hcut⟩
  · intro segments h
    have hlength := length_eq_of_decode h
    refine ⟨?_, fun more segments' h' => decode_append h h', ?_, fun again hagain => ?_⟩
    · rw [hlength, Nat.mul_comm]
      rfl
    · rw [← exists_encode_iff]
      cases encode segments <;> simp
    · have hdecode := (decode_encode hagain).2
      exact ⟨(length_eq_of_decode hdecode).trans hlength.symm, hdecode⟩

def farLoopBytes : List UInt8 :=
  [4, 0, 0, 0, 0, 1, 9, 9, 0x88, 0x13, 9, 9, 0, 0, 0, 0, 2, 0] ++ List.replicate 13 9 ++ [0] ++
    ([2, 0, 7, 0, 1, 0, 0, 0, 1] ++ List.replicate 23 0)

def farLoop : TransferLoop where
  clusterLen := 0
  clusterShift := 0
  unitLen := 0
  unitShift := 0
  innerLen := 1
  localStep := 5000
  hostStep := 0
  count := 2
  base := {
    direction := .store1d, kernelOffset := true, cluster := 1, unit := 1, hostAddr := 0,
    localAddr := 0, leap := 0, width := 0, height := 0 }

/-- A loop can be read that cannot be written, and a marker with any filler behind it. -/
theorem decode_accepts_phrases_farLoop :
    decode farLoopBytes = .ok [.loop farLoop] ∧ decode (List.replicate 31 7 ++ [2]) =
      .ok [.sync .dma] ∧ ¬StepsFit [.loop farLoop] ∧
    (∃ f, encode [.loop farLoop] = .error f) ∧
    decode (farLoopBytes ++ (List.replicate 31 7 ++ [2])) = .ok [.loop farLoop, .sync .dma] ∧
    ∃ again, encode [.sync .dma] = .ok again ∧ again.length = 32 ∧ decode again =
      .ok [.sync .dma] := by
  have hloop : decode farLoopBytes = .ok [.loop farLoop] := by decide
  have hwait : decode (List.replicate 31 7 ++ [2]) = .ok [.sync .dma] := by decide
  have hfar : ¬StepsFit [.loop farLoop] := fun h => absurd (h farLoop (by simp)) (by decide)
  obtain ⟨-, hnext, hfails, -⟩ := (decode_accepts_phrases farLoopBytes).2 _ hloop
  obtain ⟨-, -, -, hagain⟩ := (decode_accepts_phrases (List.replicate 31 7 ++ [2])).2 _ hwait
  exact ⟨hloop, hwait, hfar, hfails.mpr hfar, hnext _ _ hwait, _, rfl, hagain _ rfl⟩

end Record

end CommandStream
