import CommandStream.Proofs.BlobRoundTrip
import CommandStream.Proofs.LoopExpansion
import CommandStream.Proofs.Plans

/-! # Which engines a run reaches

Before a run, a loop is checked by its base transfer alone. So a run stays on configured engines if
and only if the masks of every loop do after each shift that the count of the loop lets happen.
-/

namespace CommandStream

def Transfer.fits (t : Transfer) (hw : Hardware) : Bool :=
  t.cluster.within hw.clusterMask && t.unit.within hw.unitMask

theorem Transfer.fits_of_check {t : Transfer} {index : Nat} {hw : Hardware} {pad : PadWidths}
    (h : t.check index hw pad = .ok ()) : t.fits hw = true := by
  obtain ⟨_, hmasks, -⟩ := bind_eq_ok_iff.mp h
  unfold checkMasks at hmasks
  unfold fits
  split at hmasks
  · cases hmasks
  · split at hmasks
    · cases hmasks
    · simp_all

theorem fits_of_checkTransfersFrom {hw : Hardware} {index : Nat} {pad : PadWidths}
    {segments : List Segment} (h : checkTransfersFrom hw index pad segments = .ok ()) :
    ∀ t, .transfer t ∈ segments → t.fits hw = true := by
  induction segments generalizing index pad with
  | nil => simp
  | cons s rest ih =>
    intro t ht
    cases s with
    | transfer u =>
      obtain ⟨_, hcheck, hrest⟩ := bind_eq_ok_iff.mp h
      obtain hu | ht := List.mem_cons.mp ht
      · obtain rfl := Segment.transfer.inj hu
        exact Transfer.fits_of_check hcheck
      · exact ih hrest t ht
    | loop l =>
      obtain ⟨-, -, hrest⟩ := bind_eq_ok_iff.mp h
      exact ih hrest t (by simpa using ht)
    | padding _ | compute _ | block _ | sync _ | scatter _ => exact ih h t (by simpa using ht)

namespace TransferLoop

variable {l : TransferLoop} {hw : Hardware}

/-- The masks of the loop stay on configured engines after every shift that happens before the count
runs out. -/
def Fits (l : TransferLoop) (hw : Hardware) : Prop :=
  (∀ k ≤ l.clusterLen.toNat, k * l.unitRounds * l.innerRounds < l.count.toNat →
    ((Mask.shift · l.clusterShift)^[k] l.base.cluster).within hw.clusterMask = true) ∧
  ∀ k ≤ l.unitLen.toNat, k * l.innerRounds < l.count.toNat →
    ((Mask.shift · l.unitShift)^[k] l.base.unit).within hw.unitMask = true

/-- The first transfers at a cluster or unit position tell for all that follow there. -/
theorem fits_iff : (∀ t ∈ l.expand, t.fits hw = true) ↔ l.Fits hw := by
  constructor
  · intro h
    refine ⟨fun k hk hcount => ?_, fun k hk hcount => ?_⟩
    · have hfits := h (l.transferAt k 0 0) <| mem_expand_iff.mpr
        ⟨k, 0, 0, ⟨hk, Nat.zero_le _, Nat.zero_le _⟩, by simpa [number] using hcount, rfl⟩
      exact (Bool.and_eq_true_iff.mp hfits).1
    · have hfits := h (l.transferAt 0 k 0) <| mem_expand_iff.mpr
        ⟨0, k, 0, ⟨Nat.zero_le _, hk, Nat.zero_le _⟩, by simpa [number] using hcount, rfl⟩
      exact (Bool.and_eq_true_iff.mp hfits).2
  · rintro ⟨hcluster, hunit⟩ t ht
    obtain ⟨cluster, unit, inner, ⟨hc, hu, -⟩, hcount, rfl⟩ := mem_expand_iff.mp ht
    have hc' : cluster * l.unitRounds * l.innerRounds ≤ l.number cluster unit inner := by
      simp only [number, Nat.add_mul]; omega
    have hu' : unit * l.innerRounds ≤ l.number cluster unit inner := by
      simp only [number, Nat.add_mul]; omega
    exact Bool.and_eq_true_iff.mpr
      ⟨hcluster cluster hc (hc'.trans_lt hcount), hunit unit hu (hu'.trans_lt hcount)⟩

end TransferLoop

section Run

variable {bytes : List UInt8} {hw : Hardware} {r : Recorder} {stats : List LayerStats}
  {model : CycleModel} {points : List UInt16}

theorem transfers_entryEvents {layer : Layer} {entry : Nat}
    (h : (layer.plan hw points).failure = none) :
    (entryEvents hw points layer entry).flatMap Event.transfers = layer.issued := by
  simp [entryEvents, layer.transfers_plan h, Event.transfers]

theorem transfers_runNet
    (h : Succeeds (runNet bytes hw) { model, pillarPoints := points } stats r) :
    ∃ layers, Blob.schedule bytes hw = .ok layers ∧ r.transfers = layers.flatMap Layer.issued := by
  obtain ⟨layers, hschedule, hfailures, hemits⟩ := emits_runNet h
  refine ⟨layers, hschedule, ?_⟩
  have hplans : ∀ x ∈ layers.zipIdx, (x.1.plan hw points).failure = none := fun x hx =>
    hfailures x.1 (List.fst_mem_of_mem_zipIdx hx)
  rw [Recorder.transfers, hemits.events]
  simp only [Recorder.events, List.reverse_nil, List.nil_append, List.flatMap_assoc]
  calc
    _ = layers.zipIdx.flatMap (fun x => x.1.issued) :=
      List.flatMap_congr fun x hx => transfers_entryEvents (hplans x hx)
    _ = (layers.zipIdx.map Prod.fst).flatMap Layer.issued := by rw [List.flatMap_map]
    _ = layers.flatMap Layer.issued := by rw [List.zipIdx_map_fst]

theorem validate_of_schedule {layers : List Layer} (h : Blob.schedule bytes hw = .ok layers) :
    ∀ layer ∈ layers, layer.validate hw = .ok () := by
  unfold Blob.schedule at h
  simp only [bind_eq_ok_iff, pure_eq_ok_iff] at h
  obtain ⟨_, -, _, -, _, hvalid, rfl⟩ := h
  exact forM_eq_ok_iff.mp hvalid

theorem Layer.fits_iff {layer : Layer} (h : layer.validate hw = .ok ())
    (hwalks : layer.params.kind.bypassesStream = false) :
    (∀ t ∈ layer.issued, t.fits hw = true) ↔ ∀ l, .loop l ∈ layer.segments → l.Fits hw := by
  obtain ⟨_, hcheck, -⟩ := bind_eq_ok_iff.mp h
  have hplain := fits_of_checkTransfersFrom hcheck
  simp only [Layer.issued, hwalks, Bool.false_eq_true, if_false, List.mem_flatMap]
  constructor
  · intro hall l hl
    exact TransferLoop.fits_iff.mp fun t ht => hall t ⟨_, hl, ht⟩
  · rintro hloops t ⟨s, hs, ht⟩
    cases s with
    | transfer u => rw [List.mem_singleton.mp ht]; exact hplain u hs
    | loop l => exact TransferLoop.fits_iff.mpr (hloops l hs) t ht
    | compute _ | block _ | sync _ | padding _ | scatter _ => cases ht

/-- A run stays on configured engines exactly if every loop of a layer that walks through its stream
does, and a loop does exactly if its shifted masks do. -/
theorem runNet_fits_iff
    (h : Succeeds (runNet bytes hw) { model, pillarPoints := points } stats r) :
    ∃ layers, Blob.schedule bytes hw = .ok layers ∧
      ((∀ t ∈ r.transfers, t.fits hw = true) ↔
        ∀ layer ∈ layers, layer.params.kind.bypassesStream = false →
          ∀ l, .loop l ∈ layer.segments → l.Fits hw) := by
  obtain ⟨layers, hschedule, htransfers⟩ := transfers_runNet h
  have hvalid := validate_of_schedule hschedule
  refine ⟨layers, hschedule, ?_⟩
  rw [htransfers]
  simp only [List.mem_flatMap]
  constructor
  · intro hall layer hlayer hwalks
    exact (Layer.fits_iff (hvalid layer hlayer) hwalks).mp fun t ht => hall t ⟨layer, hlayer, ht⟩
  · rintro hloops t ⟨layer, hlayer, ht⟩
    cases hwalks : layer.params.kind.bypassesStream with
    | true => simp [Layer.issued, hwalks] at ht
    | false =>
      exact (Layer.fits_iff (hvalid layer hlayer) hwalks).mpr (hloops layer hlayer hwalks) t ht

end Run

def twoClusters (apart : Int8) : TransferLoop where
  clusterLen := 1
  clusterShift := apart
  unitLen := 0
  unitShift := 0
  innerLen := 0
  localStep := 0
  hostStep := 0
  count := 2
  base := .row .load1d 1 1 0x1000 0 8

def twoClustersBlob (apart : Int8) : List UInt8 :=
  Blob.bytesOf (.oneLayer [.loop (twoClusters apart)])

/-- The highest of the eight clusters is still reached. -/
theorem runNet_fits_of_seven_apart :
    ∃ stats r, Succeeds (runNet (twoClustersBlob 7) {}) {} stats r ∧
      ∀ t ∈ r.transfers, t.fits {} = true := by
  obtain ⟨stats, r, hrun⟩ : ∃ stats r, Succeeds (runNet (twoClustersBlob 7) {}) {} stats r :=
    exists_succeeds (by decide +kernel)
  obtain ⟨layers, hschedule, hfits⟩ := runNet_fits_iff hrun
  refine ⟨stats, r, hrun, hfits.mpr ?_⟩
  have hlayers : Blob.schedule (twoClustersBlob 7) {} =
      .ok (Net.oneLayer [.loop (twoClusters 7)]).layers := by
    decide +kernel
  obtain rfl := Except.ok.inj (hlayers.symm.trans hschedule)
  intro layer hlayer _ l hl
  obtain rfl := List.mem_singleton.mp hlayer
  obtain rfl := Segment.loop.inj (List.mem_singleton.mp hl)
  unfold TransferLoop.Fits
  decide +kernel

/-- A cluster that is not configured is reached as well. -/
theorem runNet_reaches_unconfigured_cluster :
    ¬∀ (bytes : List UInt8) (hw : Hardware) (model : CycleModel) (points : List UInt16)
      (stats : List LayerStats) (r : Recorder),
      Succeeds (runNet bytes hw) { model, pillarPoints := points } stats r →
        ∀ t ∈ r.transfers, t.fits hw = true := by
  intro h
  obtain ⟨stats, r, hrun⟩ : ∃ stats r, Succeeds (runNet (twoClustersBlob 10) {}) {} stats r :=
    exists_succeeds (by decide +kernel)
  have hstray : (((runNet (twoClustersBlob 10) {}).run.run {}).run.2.transfers.all
      (·.fits {})) = false := by
    decide +kernel
  rw [hrun, List.all_eq_false] at hstray
  obtain ⟨t, ht, hfits⟩ := hstray
  exact hfits (h _ {} {} [] stats r hrun t ht)

end CommandStream
