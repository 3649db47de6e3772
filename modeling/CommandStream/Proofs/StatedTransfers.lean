import CommandStream.Proofs.Dispatch
import CommandStream.Proofs.LoopExpansion

/-! # Stated and issued transfers

A loop states how many transfers it stands for, but its counters may run out before. Counts that go
by the stated number are too large by exactly what the loops overstate, so they are real exactly if
no loop states more than its counters allow.
-/

namespace CommandStream

/-! ## What loops overstate -/

def TransferLoop.surplus (l : TransferLoop) : Nat := l.count.toNat - l.rounds

theorem TransferLoop.count_eq (l : TransferLoop) :
    l.count.toNat = l.expand.length + l.surplus := by
  rw [length_expand, surplus]
  omega

namespace Segment

def surplus : Segment → Nat
  | .loop l => l.surplus
  | _ => 0

theorem unrolledCount_eq (s : Segment) : s.unrolledCount = s.unroll.length + s.surplus := by
  cases s with
  | loop l =>
    rw [unroll, List.length_map]
    exact l.count_eq
  | transfer _ | compute _ | block _ | sync _ | padding _ | scatter _ => rfl

theorem statedTransfers_eq (s : Segment) :
    s.statedTransfers = s.transfers.length + s.surplus := by
  cases s with
  | loop l => exact l.count_eq
  | transfer _ | compute _ | block _ | sync _ | padding _ | scatter _ => rfl

end Segment

def surplus (segments : List Segment) : Nat := total (segments.map Segment.surplus)

theorem total_eq_length_flatMap_add {α : Type} {weight : Segment → Nat} {f : Segment → List α}
    (h : ∀ s, weight s = (f s).length + s.surplus) (segments : List Segment) :
    total (segments.map weight) = (segments.flatMap f).length + surplus segments := by
  induction segments with
  | nil => rfl
  | cons s rest ih =>
    have hweight : total ((s :: rest).map weight) = weight s + total (rest.map weight) := rfl
    have hsurplus : surplus (s :: rest) = s.surplus + surplus rest := rfl
    rw [hweight, hsurplus, List.flatMap_cons, List.length_append, ih, h s]
    omega

theorem unrolledCount_eq (segments : List Segment) :
    unrolledCount segments = (unroll segments).length + surplus segments :=
  total_eq_length_flatMap_add Segment.unrolledCount_eq segments

theorem total_statedTransfers_eq (segments : List Segment) :
    total (segments.map Segment.statedTransfers) = (issued segments).length + surplus segments :=
  total_eq_length_flatMap_add Segment.statedTransfers_eq segments

theorem surplus_eq_zero_iff {segments : List Segment} :
    surplus segments = 0 ↔ ∀ l, .loop l ∈ segments → l.count.toNat ≤ l.rounds := by
  rw [surplus, total_eq_sum, List.sum_eq_zero_iff, List.forall_mem_map]
  constructor
  · intro h l hl
    exact Nat.sub_eq_zero_iff_le.mp (h (.loop l) hl)
  · intro h s hs
    cases s with
    | loop l => exact Nat.sub_eq_zero_of_le (h l hs)
    | transfer _ | compute _ | block _ | sync _ | padding _ | scatter _ => rfl

/-! ## Reported counts -/

/-- What a layer that walks through its stream reports is what the engines received and what its
loops overstate. -/
theorem transfers_runLayer {layer : Layer} (hwalks : layer.params.kind.bypassesStream = false)
    {hw : Hardware} {r r' : Recorder} {stats : LayerStats}
    (h : Succeeds (runLayer layer hw) r stats r') :
    r'.transfers = r.transfers ++ issued layer.segments ∧
      stats.transfers = (issued layer.segments).length + surplus layer.segments := by
  obtain ⟨hplan, rfl⟩ := succeeds_runLayer_iff.mp h
  obtain ⟨hfailure, -, rfl⟩ := succeeds_carryOut_iff.mp hplan
  constructor
  · rw [Recorder.transfers, r.events_after, List.flatMap_append, layer.transfers_plan hfailure,
      Layer.issued, hwalks]
    rfl
  · rw [Layer.stats, layer.counted_plan hfailure, Layer.walked, hwalks]
    exact total_statedTransfers_eq layer.segments

/-- The length reported for an unrolled stream and the transfers reported for a layer are too large
by what the loops overstate. So they are the real ones exactly if each loop states at most the
transfers that its three counters allow. -/
theorem reported_counts_iff (segments : List Segment) :
    unrolledCount segments = (unroll segments).length + surplus segments ∧
    (unrolledCount segments = (unroll segments).length ↔ ∀ l, .loop l ∈ segments →
      l.count.toNat ≤
        (l.clusterLen.toNat + 1) * (l.unitLen.toNat + 1) * (l.innerLen.toNat + 1)) ∧
    ∀ (params : LayerParams) (hw : Hardware) (r r' : Recorder) (stats : LayerStats),
      params.kind ≠ .dynamicAxis → params.kind ≠ .scatterToGrid →
      Succeeds (runLayer { params, segments } hw) r stats r' →
      ∃ received, r'.transfers = r.transfers ++ received ∧
        stats.transfers = received.length + surplus segments ∧
        (stats.transfers = received.length ↔ ∀ l, .loop l ∈ segments →
          l.count.toNat ≤
            (l.clusterLen.toNat + 1) * (l.unitLen.toNat + 1) * (l.innerLen.toNat + 1)) := by
  have hcount := unrolledCount_eq segments
  refine ⟨hcount, Iff.trans ?_ surplus_eq_zero_iff, ?_⟩
  · omega
  · intro params hw r r' stats hdynamic hscatter h
    have hwalks : params.kind.bypassesStream = false := by
      rw [← Bool.not_eq_true, LayerKind.bypassesStream_iff]
      exact not_or.mpr ⟨hdynamic, hscatter⟩
    obtain ⟨htransfers, hstats⟩ := transfers_runLayer hwalks h
    refine ⟨issued segments, htransfers, hstats, Iff.trans ?_ surplus_eq_zero_iff⟩
    dsimp only at hstats
    omega

def cutOff : List Segment :=
  [.block 3, .transfer (.row .load1d 1 1 0x1000 0 8), .loop {
    clusterLen := 0, clusterShift := 0, unitLen := 1, unitShift := 1, innerLen := 2, localStep := 8
    hostStep := 16, count := 5, base := .row .load1d 1 1 0x2000 32 8 }]

theorem reported_counts_cutOff :
    let layer : Layer := { params := { kind := .add }, segments := cutOff }
    unrolledCount cutOff = (unroll cutOff).length ∧
      ∃ stats received r', Succeeds (runLayer layer {}) {} stats r' ∧ r'.transfers = received ∧
        stats.transfers = received.length := by
  intro layer
  obtain ⟨-, hstream, hlayer⟩ := reported_counts_iff cutOff
  have hfits : ∀ l, .loop l ∈ cutOff → l.count.toNat ≤
      (l.clusterLen.toNat + 1) * (l.unitLen.toNat + 1) * (l.innerLen.toNat + 1) := by
    simp [cutOff]
  have hok : (((runLayer layer {}).run.run {}).run.1.isOk) = true := by decide +kernel
  obtain ⟨stats, r', h⟩ := exists_succeeds hok
  obtain ⟨received, hreceived, -, hreal⟩ :=
    hlayer layer.params {} {} r' stats (by decide) (by decide) h
  exact ⟨hstream.mpr hfits, stats, received, r', h, hreceived, hreal.mpr hfits⟩

def overstated : TransferLoop where
  clusterLen := 0
  clusterShift := 0
  unitLen := 0
  unitShift := 0
  innerLen := 1
  localStep := 8
  hostStep := 16
  count := 5
  base := .row .load1d 1 1 0x1000 0 8

/-- A stream that can be read from its records and whose length is reported as 5, although it
unrolls to 2 transfers. A layer with this stream reports 5 transfers when the engines get 2. -/
theorem reported_counts_overstated :
    let layer : Layer := { params := {}, segments := [.loop overstated] }
    (∃ bytes, Record.encode layer.segments = .ok bytes ∧
        Record.decode bytes = .ok layer.segments) ∧
      unrolledCount layer.segments = 5 ∧ (unroll layer.segments).length = 2 ∧
      ∃ stats r', Succeeds (runLayer layer {}) {} stats r' ∧ stats.transfers = 5 ∧
        r'.transfers.length = 2 := by
  intro layer
  have hok : (((runLayer layer {}).run.run {}).run.1.isOk) = true := by decide +kernel
  obtain ⟨stats, r', h⟩ := exists_succeeds hok
  obtain ⟨htransfers, hstats⟩ := transfers_runLayer (by decide) h
  refine ⟨⟨_, rfl, by decide +kernel⟩, by decide, by decide, stats, r', h, ?_, ?_⟩
  · rw [hstats]
    decide
  · rw [htransfers]
    decide

end CommandStream
