import CommandStream.Proofs.MergedStreams

/-! # The normal form of merged streams

Every step of a merge leaves what is no plain transfer where it is and takes no more records. So a
merged stream keeps the barriers of its input, and between them it is in normal form: no skipped
tails, no rectangles that could be rows, runs in address order and consistent markers.
-/

namespace CommandStream

/-! ## Barriers -/

/-- The segments that are no plain transfers, with the counts of markers left out. -/
def barriers (segments : List Segment) : List Segment :=
  (segments.filter (·.transfer?.isNone)).map Segment.eraseCount

theorem barriers_append (a b : List Segment) : barriers (a ++ b) = barriers a ++ barriers b := by
  simp [barriers]

theorem barriers_map_transfer (run : List Transfer) : barriers (run.map .transfer) = [] := by
  simp [barriers, Segment.transfer?]

theorem barriers_map_eraseCount (segments : List Segment) :
    barriers (segments.map Segment.eraseCount) = barriers segments := by
  induction segments with
  | nil => rfl
  | cons s rest ih =>
    cases s with
    | transfer t => exact ih
    | loop _ | compute _ | block _ | sync _ | padding _ | scatter _ => exact congrArg (_ :: ·) ih

theorem Absorbs.barriers_eq {R : Transfer → Transfer → Option Transfer → Prop}
    {pending : Option Transfer} {segments kept : List Segment}
    (h : Absorbs R pending segments kept) : barriers kept = barriers segments := by
  induction h with
  | nil => exact barriers_map_transfer _
  | @barrier pending s rest kept _ _ ih =>
    rw [barriers_append, barriers_map_transfer, List.nil_append, ← List.singleton_append,
      ← List.singleton_append (l := rest), barriers_append, barriers_append, ih]
  | first _ ih => exact ih
  | apart _ _ ih => exact ih
  | join _ _ ih => exact ih

/-! ## Steps that only shorten -/

structure Shortens (a b : List Segment) : Prop where
  barriers : barriers b = barriers a
  records : recordCount b ≤ recordCount a

namespace Shortens

theorem refl (a : List Segment) : Shortens a a := ⟨rfl, le_rfl⟩

theorem trans {a b c : List Segment} (hab : Shortens a b) (hbc : Shortens b c) : Shortens a c :=
  ⟨hbc.barriers.trans hab.barriers, hbc.records.trans hab.records⟩

theorem append {a a' b b' : List Segment} (ha : Shortens a a') (hb : Shortens b b') :
    Shortens (a ++ b) (a' ++ b') where
  barriers := by rw [barriers_append, barriers_append, ha.barriers, hb.barriers]
  records := by
    rw [recordCount_append, recordCount_append]
    exact Nat.add_le_add ha.records hb.records

theorem of_sameKind {a b : List Segment} (h : List.Forall₂ Segment.SameKind a b) :
    Shortens a b := by
  refine ⟨?_, (recordCount_eq_of_sameKind h).le⟩
  induction h with
  | nil => rfl
  | @cons s s' a b hs _ ih =>
    rw [← List.singleton_append, ← List.singleton_append (l := a), barriers_append,
      barriers_append, ih]
    obtain rfl | ⟨t, u, rfl, rfl⟩ := hs <;> rfl

end Shortens

theorem shortens_refreshBlocks (segments : List Segment) :
    Shortens segments (refreshBlocks segments) where
  barriers := by
    rw [← barriers_map_eraseCount, map_eraseCount_refreshBlocks, barriers_map_eraseCount]
  records := (recordCount_refreshBlocks segments).le

theorem shortens_sortRuns (key : Transfer → List Nat) (segments : List Segment) :
    Shortens segments (sortRuns key segments) where
  barriers := by
    rw [sortRuns, permuteRuns]
    refine mapRuns_rel (R := fun a b => CommandStream.barriers a = CommandStream.barriers b)
      (fun _ => rfl) ?_ ?_ segments
    · intro a a' b b' ha hb
      rw [barriers_append, barriers_append, ha, hb]
    · intro run
      rw [barriers_map_transfer, barriers_map_transfer run]
  records := recordCount_sortRuns.le

namespace Merging

variable {m m' : Merging}

theorem shortens_absorb {ε : Type} {join : Transfer → Transfer → Except ε (Option Transfer)}
    {segments : List Segment} {out : Absorbed} (h : absorb join segments = .ok out) :
    Shortens segments out.kept :=
  ⟨(absorbs_of_eq_ok h).barriers_eq, (absorb_cases h).1⟩

theorem shortens_dropDuplicates (h : m.dropDuplicates = .ok m') :
    Shortens m.segments m'.segments := by
  obtain ⟨out, hout, h⟩ := bind_eq_ok_iff.mp h
  obtain ⟨dropped, -, h⟩ := bind_eq_ok_iff.mp h
  obtain rfl := pure_eq_ok_iff.mp h
  exact shortens_absorb hout

theorem Joins.shortens {join : Transfer → Transfer → Checked (Option Transfer)}
    (h : Joins join m m') : Shortens m.segments m'.segments := by
  obtain ⟨out, hout, hkept, -⟩ := h.absorb
  rw [hkept]
  exact shortens_absorb hout

end Merging

/-- A merge keeps the barriers and takes no more records. -/
theorem shortens_merge {segments out : List Segment} {maxElements : Nat}
    (h : merge segments maxElements = .ok out) : Shortens segments out := by
  obtain ⟨stats, h⟩ := merge_eq_ok h
  obtain ⟨m₁, m₂, m₃, m₄, m₅, m₆, m₇, h₁, h₂, h₃, h₄, h₅, h₆, h₇, rfl, -⟩ :=
    mergeWithStats_eq_ok h
  have hfirst : Shortens segments m₄.segments :=
    (shortens_sortRuns Transfer.hostKey segments).trans <|
      (Merging.shortens_dropDuplicates h₁).trans <|
      (Shortens.of_sameKind (m₁.sameKind_flatten maxElements)).trans <|
      (Shortens.of_sameKind (Merging.sameKind_trim h₂)).trans <|
      (Merging.joins_of_joinRows h₃).shortens.trans (Merging.joins_of_joinRects h₄).shortens
  have hsecond : Shortens m₄.segments m₇.segments :=
    (shortens_sortRuns Transfer.localKey m₄.segments).trans <|
      (Merging.shortens_dropDuplicates h₅).trans <|
      (Shortens.of_sameKind (m₅.sameKind_flatten maxElements)).trans <|
      (Merging.joins_of_joinRows h₆).shortens.trans (Merging.joins_of_joinRects h₇).shortens
  exact hfirst.trans <| hsecond.trans <|
    (shortens_sortRuns Transfer.addressKey m₇.segments).trans (shortens_refreshBlocks _)

/-! ## Address order -/

def Transfer.addressOrder (t : Transfer) : Nat ×ₗ Nat ×ₗ Nat ×ₗ Nat :=
  toLex (t.hostAddr.toNat, toLex (t.localAddr.toNat, toLex (t.unit.toNat, t.cluster.toNat)))

theorem Transfer.keyLe_addressKey_iff {t u : Transfer} :
    keyLe t.addressKey u.addressKey = true ↔ t.addressOrder ≤ u.addressOrder := by
  simp only [addressKey, addressOrder, keyLe_cons_iff, Prod.Lex.toLex_le_toLex]
  rw [Nat.le_iff_lt_or_eq (n := t.cluster.toNat)]
  simp only [keyLe, and_true]

namespace Merged

variable {maxElements : Nat} {segments : List Segment}

theorem neighbours (h : Merged maxElements segments) :
    Neighbours (fun a b => a.isStore = b.isStore → a.addressOrder ≤ b.addressOrder) segments := by
  have hsorted : Neighbours (fun a b => a.isStore = b.isStore → a.addressOrder ≤ b.addressOrder)
      (sortRuns Transfer.addressKey segments) :=
    neighbours_sortRuns placeKey_addressKey
      fun _ _ _ t _ u _ hle => Transfer.keyLe_addressKey_iff.mp hle
  rw [← neighbours_map_eraseCount, ← map_eraseCount_refreshBlocks, h.sorted,
    neighbours_map_eraseCount] at hsorted
  exact hsorted

theorem pairwise_run (h : Merged maxElements segments) {front back : List Segment}
    {run : List Transfer} (hsplit : segments = front ++ (run.map .transfer ++ back))
    (hclass : ∀ t ∈ run, ∀ u ∈ run, t.isStore = u.isStore) :
    run.Pairwise fun t u => t.addressOrder ≤ u.addressOrder := by
  have hinfix : run.map .transfer <:+: segments := ⟨front, back, by rw [hsplit, List.append_assoc]⟩
  have hchain := h.neighbours.infix hinfix
  rw [List.isChain_map] at hchain
  have htrans : IsTrans Transfer fun t u => t.addressOrder ≤ u.addressOrder :=
    ⟨fun _ _ _ => le_trans⟩
  refine List.IsChain.pairwise (hchain.imp_of_mem_imp ?_)
  intro t u ht hu hmeet
  exact hmeet t u rfl rfl (hclass t ht u hu)

end Merged

/-! ## The normal form -/

/-- A merge of fewer than 2³² records leaves transfers without skipped tails, no rectangle of one
row and no gapless rectangle without padding that is small enough for a row. Transfers of one class
that stand side by side are in the order of their addresses and targets, the other segments stay as
they are up to the counts of markers, every marker is consistent, and no records are added. -/
theorem merge_normal_form {segments out : List Segment} {maxElements : Nat}
    (hrecords : recordCount segments < 2 ^ 32) (h : merge segments maxElements = .ok out) :
    (∀ t, .transfer t ∈ out → t.skipped = 0 ∧ ¬(t.isRect = true ∧ t.height = 1) ∧
      ¬(t.isRect = true ∧ 1 < t.height.toNat ∧ t.leap = 1 ∧ t.padding.isEmpty = true ∧
        t.width.toNat * t.height.toNat ≤ min maxElements 65535)) ∧
    (∀ (front : List Segment) (run : List Transfer) (back : List Segment),
      out = front ++ (run.map .transfer ++ back) → (∀ t ∈ run, ∀ u ∈ run, t.isStore = u.isStore) →
      run.Pairwise fun t u => t.addressOrder ≤ u.addressOrder) ∧
    (out.filter (·.transfer?.isNone)).map Segment.eraseCount =
      (segments.filter (·.transfer?.isNone)).map Segment.eraseCount ∧
    checkBlocks out = .ok () ∧ recordCount out ≤ recordCount segments := by
  have hmerged := merged_of_merge h
  have hshort := shortens_merge h
  refine ⟨fun t ht => ⟨hmerged.unskipped t ht, ?_, ?_⟩, fun front run back => hmerged.pairwise_run,
    hshort.barriers, ?_, hshort.records⟩
  · rintro ⟨hrect, hone⟩
    exact (hmerged.flattened t ht hrect).2 hone
  · rintro ⟨hrect, hflat⟩
    have hnot := (hmerged.flattened t ht hrect).1
    rw [Transfer.flattenable_iff.mpr hflat] at hnot
    cases hnot
  · rw [← hmerged.sorted]
    apply checkBlocks_refreshBlocks
    rw [recordCount_sortRuns]
    exact hshort.records.trans_lt hrecords

def untidy : List Segment :=
  [.transfer (.rect .load1d 1 1 0x2000 64 8 2 1), .transfer (.row .load1d 1 1 0x1010 8 8),
    .transfer { Transfer.row .load1d 1 1 0x1000 0 12 with skipped := 4 },
    .loop { clusterLen := 0, clusterShift := 0, unitLen := 1, unitShift := 1, innerLen := 0,
            localStep := 0, hostStep := 64, count := 2, base := .row .load1d 1 1 0x3000 32 8 },
    .block 9, .transfer (.rect .store1d 1 1 0x6000 128 8 3 5),
    .transfer (.rect .store1d 1 1 0x5000 96 8 1 9), .transfer (.rect .store1d 1 1 0x6000 128 8 3 5),
    .sync .dma]

theorem merge_normal_form_untidy : ∃ out, merge untidy 8192 = .ok out ∧
    recordCount untidy = 10 ∧ recordCount out = 8 ∧
    (∀ t, .transfer t ∈ out → t.skipped = 0 ∧ ¬(t.isRect = true ∧ t.height = 1) ∧
      ¬(t.isRect = true ∧ 1 < t.height.toNat ∧ t.leap = 1 ∧ t.padding.isEmpty = true ∧
        t.width.toNat * t.height.toNat ≤ min 8192 65535)) ∧
    (out.filter (·.transfer?.isNone)).map Segment.eraseCount =
      (untidy.filter (·.transfer?.isNone)).map Segment.eraseCount ∧
    checkBlocks out = .ok () := by
  have h : merge untidy 8192 = .ok
      [.transfer (.row .load1d 1 1 0x1000 0 16), .transfer (.row .load1d 1 1 0x2000 64 16),
        .loop { clusterLen := 0, clusterShift := 0, unitLen := 1, unitShift := 1, innerLen := 0,
                localStep := 0, hostStep := 64, count := 2, base := .row .load1d 1 1 0x3000 32 8 },
        .block 2, .transfer { Transfer.row .store1d 1 1 0x5000 96 8 with leap := 9 },
        .transfer (.rect .store1d 1 1 0x6000 128 8 3 5), .sync .dma] := by
    delta merge mergeWithStats
    simp only [Merging.reorder, sortOn_eq_insertionSort Transfer.hostKey fun _ _ => rfl,
      sortOn_eq_insertionSort Transfer.localKey fun _ _ => rfl,
      sortOn_eq_insertionSort Transfer.addressKey fun _ _ => rfl]
    decide +kernel
  obtain ⟨hshape, -, hbarriers, hmarkers, -⟩ := merge_normal_form (by decide) h
  exact ⟨_, h, by decide, by decide, hshape, hbarriers, hmarkers⟩

end CommandStream
