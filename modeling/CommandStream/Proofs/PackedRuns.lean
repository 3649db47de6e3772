import CommandStream.Console.Session
import CommandStream.Proofs.AllOrNothing
import CommandStream.Proofs.BlobExtent
import CommandStream.Proofs.DescriptionRoundTrip

/-! # Running what was packed

A description is packed only if all its layers are valid and its execution list names layers. These
are the checks of a run, so a packed network runs exactly as long as its numbers stay in range.
-/

namespace CommandStream

/-! ## Numbers in range -/

def entryCharges (hw : Hardware) (points : List UInt16) (model : CycleModel) (layer : Layer) :
    List Charge :=
  (layer.plan hw points).charges model ++ [.wait .both]

/-- The numbers of a run of the layers, one after the other, stay within their words: the registers
that each layer uses, and the clocks with all that the run charges. -/
structure RunsInRange (layers : List Layer) (hw : Hardware) (r : Recorder) : Prop where
  registers : ∀ layer ∈ layers, layer.params.kind.bypassesStream = false →
    ∃ ctx, Context.ofLayer layer.params hw = .ok ctx
  clock : r.clock.FitsAll (layers.flatMap (entryCharges hw r.pillarPoints r.model))

section Range

variable {layer : Layer} {layers : List Layer} {hw : Hardware} {r r' : Recorder}

theorem runsInRange_nil : RunsInRange [] hw r :=
  ⟨by simp, trivial⟩

theorem runsInRange_cons_iff {es : List Event} :
    RunsInRange (layer :: layers) hw r ↔ layer.InRange hw r ∧
      RunsInRange layers hw (r.after es (entryCharges hw r.pillarPoints r.model layer)) := by
  constructor
  · rintro ⟨hregisters, hclock⟩
    rw [List.forall_mem_cons] at hregisters
    rw [List.flatMap_cons, Clock.fitsAll_append_iff] at hclock
    have hplan := hclock.1
    rw [entryCharges, Clock.fitsAll_append_iff] at hplan
    exact ⟨⟨hregisters.1, hplan.1⟩, hregisters.2, hclock.2⟩
  · rintro ⟨⟨hregister, hplan⟩, hregisters, hclock⟩
    refine ⟨List.forall_mem_cons.mpr ⟨hregister, hregisters⟩, ?_⟩
    rw [List.flatMap_cons, Clock.fitsAll_append_iff]
    refine ⟨?_, hclock⟩
    rw [entryCharges, Clock.fitsAll_append_iff]
    exact ⟨hplan, trivial, trivial⟩

theorem Layer.InRange.of_succeeds {stats : LayerStats} {entry : Nat}
    (h : Succeeds (runEntry hw layer entry) r stats r') : layer.InRange hw r := by
  obtain ⟨_, _, hlayer, -, -⟩ := succeeds_runEntry_iff.mp h
  obtain ⟨hplan, -⟩ := succeeds_runLayer_iff.mp hlayer
  obtain ⟨hfailure, hclock, -⟩ := succeeds_carryOut_iff.mp hplan
  refine ⟨fun hwalks => ?_, hclock⟩
  obtain ⟨ctx, -, hctx, -⟩ := layer.plan_eq hwalks hfailure
  exact ⟨ctx, hctx⟩

theorem exists_succeeds_runEntry_iff (hvalid : layer.validate hw = .ok ()) {entry : Nat} :
    (∃ stats r', Succeeds (runEntry hw layer entry) r stats r') ↔ layer.InRange hw r := by
  constructor
  · rintro ⟨stats, r', h⟩
    exact .of_succeeds h
  · intro hrange
    obtain h | ⟨e, r', hfails⟩ := succeeds_or_fails (runEntry hw layer entry) r
    · exact h
    · exact absurd hrange (overflow_of_fails_runEntry hvalid hfails).2

theorem exists_succeeds_mapM_runEntry_iff {entries : List (Layer × Nat)}
    (hvalid : ∀ x ∈ entries, x.1.validate hw = .ok ()) :
    (∃ stats r', Succeeds (entries.mapM fun x => runEntry hw x.1 x.2) r stats r') ↔
      RunsInRange (entries.map (·.1)) hw r := by
  induction entries generalizing r with
  | nil => simp [runsInRange_nil]
  | cons x entries ih =>
    rw [List.forall_mem_cons] at hvalid
    simp only [List.mapM_cons, succeeds_bind_iff, succeeds_pure_iff, List.map_cons]
    rw [runsInRange_cons_iff, ← exists_succeeds_runEntry_iff hvalid.1, ← ih hvalid.2]
    constructor
    · rintro ⟨_, r', s, r₁, hentry, stats, _, hentries, -, rfl⟩
      obtain ⟨-, rfl⟩ := after_of_runEntry hentry
      exact ⟨⟨s, _, hentry⟩, stats, _, hentries⟩
    · rintro ⟨⟨s, r₁, hentry⟩, stats, r', hentries⟩
      obtain ⟨-, rfl⟩ := after_of_runEntry hentry
      exact ⟨s :: stats, r', s, _, hentry, stats, r', hentries, rfl, rfl⟩

/-- A scheduled network runs exactly if its numbers stay in range. -/
theorem exists_succeeds_runNet_iff {bytes : List UInt8}
    (h : Blob.schedule bytes hw = .ok layers) :
    (∃ stats r', Succeeds (runNet bytes hw) r stats r') ↔ RunsInRange layers hw r := by
  have hvalid : ∀ x ∈ layers.zipIdx, x.1.validate hw = .ok () := fun x hx =>
    validate_of_schedule h x.1 (List.fst_mem_of_mem_zipIdx hx)
  rw [← List.zipIdx_map_fst 0 layers, ← exists_succeeds_mapM_runEntry_iff hvalid]
  unfold runNet
  simp only [succeeds_bind_iff, succeeds_fault_iff, h, Except.ok.injEq]
  constructor
  · rintro ⟨stats, r', _, _, ⟨rfl, rfl⟩, hrun⟩
    exact ⟨stats, r', hrun⟩
  · rintro ⟨stats, r', hrun⟩
    exact ⟨stats, r', layers, r, ⟨rfl, rfl⟩, hrun⟩

end Range

/-! ## Packed networks -/

def Net.named (net : Net) : List Layer :=
  net.execList.filterMap fun index => net.layers[index.toNat]?

theorem filterMap_eq_of_forall₂ {α β : Type} {f : α → Option β} {as : List α} {bs : List β}
    (h : List.Forall₂ (fun a b => f a = some b) as bs) : as.filterMap f = bs := by
  induction h with
  | nil => rfl
  | cons hab _ ih => rw [List.filterMap_cons_some hab, ih]

theorem Blob.pack_eq_ok {text : String} {hw : Hardware} {bytes : List UInt8}
    (h : Blob.pack text hw = .ok bytes) :
    ∃ net, Net.ofDescription text = .ok net ∧ (∀ layer ∈ net.layers, layer.validate hw = .ok ()) ∧
      Blob.Fits net ∧ Blob.toNet bytes = .ok net := by
  obtain ⟨net, hnet, h⟩ := bind_eq_ok_iff.mp h
  obtain ⟨hvalid, hbytes⟩ := check_bind_eq_ok_iff.mp h
  exact ⟨net, hnet, forM_eq_ok_iff.mp hvalid, exists_ofNet_iff.mp ⟨bytes, hbytes⟩,
    toNet_ofNet hbytes⟩

theorem Blob.schedule_eq_named {net : Net} {hw : Hardware} {bytes : List UInt8}
    (hread : Blob.toNet bytes = .ok net) (hvalid : ∀ layer ∈ net.layers, layer.validate hw = .ok ())
    (hexec : ∀ index ∈ net.execList, index.toNat < net.layers.length) :
    Blob.schedule bytes hw = .ok net.named ∧
      List.Forall₂ (fun index layer => net.layers[index.toNat]? = some layer) net.execList
        net.named := by
  obtain ⟨layers, hlayers, hnamed⟩ := Net.exists_schedule fun index hindex =>
    ⟨_, List.getElem?_eq_getElem (hexec index hindex)⟩
  rw [Net.named, filterMap_eq_of_forall₂ hnamed]
  refine ⟨?_, hnamed⟩
  have hall : ∀ layer ∈ layers, layer.validate hw = .ok () := by
    intro layer hlayer
    obtain ⟨index, -, hget⟩ := exists_of_mem_forall₂ hnamed hlayer
    exact hvalid layer (List.mem_of_getElem? hget)
  unfold Blob.schedule
  simp only [bind_eq_ok_iff, pure_eq_ok_iff]
  exact ⟨net, hread, layers, hlayers, (), forM_eq_ok_iff.mpr hall, rfl⟩

/-- What was packed from a description runs on every recorder on which its numbers stay in range,
and gives statistics for each entry of the execution list, in order, under the number and the kind
of the layer that the entry names in the description. Nothing but a number that leaves its word can
stop it. -/
theorem runNet_of_pack {text : String} {hw : Hardware} {bytes : List UInt8}
    (h : Blob.pack text hw = .ok bytes) :
    ∃ net, Net.ofDescription text = .ok net ∧ ∀ r : Recorder,
      (RunsInRange net.named hw r → ∃ stats r', Succeeds (runNet bytes hw) r stats r' ∧
        List.Forall₂ (fun index s => ∃ layer, net.layers[index.toNat]? = some layer ∧
          s.number = layer.params.number ∧ s.kind = layer.params.kind) net.execList stats) ∧
      (¬RunsInRange net.named hw r → ∃ o r', Fails (runNet bytes hw) r (.overflow o) r') := by
  obtain ⟨net, hnet, hvalid, hfits, hread⟩ := Blob.pack_eq_ok h
  obtain ⟨hschedule, hnamed⟩ := Blob.schedule_eq_named hread hvalid hfits.execList
  refine ⟨net, hnet, fun r => ?_⟩
  rw [← exists_succeeds_runNet_iff hschedule]
  rcases runNet_of_schedule hschedule r with ⟨⟨o, r', hfails⟩, -⟩ | ⟨stats, r', hrun, hstats⟩
  · refine ⟨?_, fun _ => ⟨o, r', hfails⟩⟩
    rintro ⟨_, _, hrun⟩
    exact absurd hfails hrun.not_fails
  · refine ⟨fun _ => ⟨stats, r', hrun, forall₂_comp ?_ hnamed hstats⟩,
      fun hrange => absurd ⟨stats, r', hrun⟩ hrange⟩
    rintro index layer s hget ⟨cycles, rfl⟩
    exact ⟨layer, hget, rfl, rfl⟩

theorem runNet_of_pack_twiceRun :
    Blob.pack twiceRun.toDescription {} = .ok (Blob.bytesOf twiceRun) ∧
    RunsInRange twiceRun.named {} { now := 5 } ∧
    ∃ stats r', Succeeds (runNet (Blob.bytesOf twiceRun) {}) { now := 5 } stats r' ∧
      List.Forall₂ (fun index s => ∃ layer, twiceRun.layers[index.toNat]? = some layer ∧
        s.number = layer.params.number ∧ s.kind = layer.params.kind) twiceRun.execList stats := by
  have hdescribed : Net.ofDescription twiceRun.toDescription = .ok twiceRun := by
    rw [Net.ofDescription, Net.read_parse?_toDescription]
  have hbytes : Blob.ofNet twiceRun = .ok (Blob.bytesOf twiceRun) :=
    Blob.ofNet_eq_bytesOf (by decide +kernel)
  have hvalid : twiceRun.validate {} = .ok () := by decide
  have hpack : Blob.pack twiceRun.toDescription {} = .ok (Blob.bytesOf twiceRun) :=
    bind_eq_ok_iff.mpr ⟨twiceRun, hdescribed, check_bind_eq_ok_iff.mpr ⟨hvalid, hbytes⟩⟩
  have hrange : RunsInRange twiceRun.named {} { now := 5 } := by
    have hschedule := (Blob.schedule_eq_named (Blob.toNet_ofNet hbytes)
      (forM_eq_ok_iff.mp hvalid) (by simp [twiceRun])).1
    exact (exists_succeeds_runNet_iff hschedule).mp (exists_succeeds (by decide +kernel))
  obtain ⟨net, hnet, hruns⟩ := runNet_of_pack hpack
  obtain rfl := Except.ok.inj (hdescribed.symm.trans hnet)
  exact ⟨hpack, hrange, (hruns { now := 5 }).1 hrange⟩

end CommandStream
