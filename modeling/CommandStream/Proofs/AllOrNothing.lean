import CommandStream.Proofs.ComputeSide
import CommandStream.Proofs.Dispatch
import CommandStream.Proofs.MaskRange

/-! # Runs are all or nothing

A network is checked before the first of its commands is issued, and a layer that passes its check
cannot be refused half-way. So a run that is refused has not touched the recorder.
-/

namespace CommandStream

/-! ## Schedules -/

theorem Net.exists_schedule {net : Net}
    (h : ∀ index ∈ net.execList, ∃ layer, net.layers[index.toNat]? = some layer) :
    ∃ layers, net.schedule = .ok layers ∧
      List.Forall₂ (fun index layer => net.layers[index.toNat]? = some layer) net.execList
        layers := by
  obtain ⟨layers, hlayers⟩ : ∃ layers, net.schedule = .ok layers := by
    refine exists_mapM_eq_ok_iff.mpr ?_
    rintro ⟨index, entry⟩ hx
    obtain ⟨layer, hlayer⟩ := h index (List.fst_mem_of_mem_zipIdx hx)
    exact ⟨layer, by simp only [hlayer]⟩
  refine ⟨layers, hlayers, ?_⟩
  have hresolved := schedule_eq_ok hlayers
  rwa [← List.zipIdx_map_fst 0 net.execList, List.forall₂_map_left_iff]

theorem checkBlocks_of_validate {layer : Layer} {hw : Hardware} (h : layer.validate hw = .ok ()) :
    checkBlocks layer.segments = .ok () :=
  (check_bind_eq_ok_iff.mp h).2

/-! ## Entries -/

section Run

variable {hw : Hardware} {layer : Layer}

theorem onlyOverflows_runEntry (h : layer.validate hw = .ok ()) (entry : Nat) :
    OnlyOverflows (runEntry hw layer entry) :=
  (Recorder.onlyOverflows_issue _).bind fun _ =>
    (onlyOverflows_runLayer (checkBlocks_of_validate h)).bind fun _ =>
      onlyOverflows_get.bind fun _ => (Recorder.onlyOverflows_issue _).bind fun _ =>
        onlyOverflows_get.bind fun _ => (Recorder.onlyOverflows_issue _).bind fun _ =>
          onlyOverflows_pure _

theorem overflow_of_fails_runEntry (hvalid : layer.validate hw = .ok ()) {entry : Nat}
    {r r' : Recorder} {e : Failure} (h : Fails (runEntry hw layer entry) r e r') :
    (∃ o, e = .overflow o) ∧ ¬layer.InRange hw r := by
  refine ⟨onlyOverflows_runEntry hvalid entry r e r' h, ?_⟩
  rintro ⟨hregisters, hclock⟩
  have hrange : layer.InRange hw (r.after [.preLayer entry layer.params.number] []) :=
    ⟨hregisters, hclock⟩
  obtain ⟨_, _, hlayer⟩ := exists_succeeds_runLayer (checkBlocks_of_validate hvalid) hrange
  have hentry := succeeds_runEntry_iff.mpr ⟨_, _, hlayer, rfl, rfl⟩
  exact hentry.not_fails h

theorem stats_of_runEntry {entry : Nat} {r r' : Recorder} {stats : LayerStats}
    (h : Succeeds (runEntry hw layer entry) r stats r') :
    ∃ cycles, stats = layer.stats layer.walked cycles := by
  obtain ⟨_, _, hlayer, -, rfl⟩ := succeeds_runEntry_iff.mp h
  obtain ⟨hplan, rfl⟩ := succeeds_runLayer_iff.mp hlayer
  obtain ⟨hfailure, -⟩ := succeeds_carryOut_iff.mp hplan
  rw [layer.counted_plan hfailure]
  exact ⟨_, rfl⟩

/-! ## Networks -/

theorem fails_runNet_iff {bytes : List UInt8} {r r' : Recorder} {f : Fault} :
    Fails (runNet bytes hw) r (.fault f) r' ↔ Blob.schedule bytes hw = .error f ∧ r' = r := by
  unfold runNet
  rw [fails_bind_iff]
  simp only [fails_fault_iff, succeeds_fault_iff]
  constructor
  · rintro (⟨_, hschedule, hfault, rfl⟩ | ⟨layers, _, ⟨hschedule, rfl⟩, hfails⟩)
    · obtain rfl := Failure.fault.inj hfault
      exact ⟨hschedule, rfl⟩
    · obtain ⟨_, x, _, _, _, hentries, -, hentry⟩ := exists_of_fails_mapM hfails
      have hx : x ∈ layers.zipIdx := by simp [hentries]
      have hvalid := validate_of_schedule hschedule x.1 (List.fst_mem_of_mem_zipIdx hx)
      obtain ⟨⟨o, ho⟩, -⟩ := overflow_of_fails_runEntry hvalid hentry
      cases ho
  · rintro ⟨hschedule, rfl⟩
    exact .inl ⟨f, hschedule, rfl, rfl⟩

/-- The run of a network that is not refused gives statistics for each entry of the execution list,
in order, unless a number leaves its word in one of the entries. -/
theorem runNet_of_schedule {bytes : List UInt8} {layers : List Layer}
    (h : Blob.schedule bytes hw = .ok layers) (r : Recorder) :
    ((∃ o r', Fails (runNet bytes hw) r (.overflow o) r') ∧
      ∃ front layer entry back stats r₁, layers.zipIdx = front ++ (layer, entry) :: back ∧
        Succeeds (front.mapM fun x => runEntry hw x.1 x.2) r stats r₁ ∧ ¬layer.InRange hw r₁) ∨
    ∃ stats r', Succeeds (runNet bytes hw) r stats r' ∧
      List.Forall₂ (fun layer s => ∃ cycles, s = layer.stats layer.walked cycles) layers stats := by
  rcases succeeds_or_fails (runNet bytes hw) r with ⟨stats, r', hrun⟩ | ⟨e, r', hfails⟩
  · refine .inr ⟨stats, r', hrun, ?_⟩
    unfold runNet at hrun
    simp only [succeeds_bind_iff, succeeds_fault_iff] at hrun
    obtain ⟨_, _, ⟨hlayers, rfl⟩, hentries⟩ := hrun
    obtain rfl := Except.ok.inj (h.symm.trans hlayers)
    have hall := forall₂_of_succeeds_mapM hentries
    rw [← List.zipIdx_map_fst 0 layers, List.forall₂_map_left_iff]
    refine hall.imp ?_
    rintro ⟨layer, entry⟩ s ⟨r₁, r₂, hentry⟩
    exact stats_of_runEntry hentry
  · left
    have hrun := hfails
    unfold runNet at hrun
    simp only [fails_bind_iff, fails_fault_iff, succeeds_fault_iff] at hrun
    rcases hrun with ⟨f, hrefused, -⟩ | ⟨_, _, ⟨hlayers, rfl⟩, hrun⟩
    · cases h.symm.trans hrefused
    · obtain rfl := Except.ok.inj (h.symm.trans hlayers)
      obtain ⟨front, ⟨layer, entry⟩, back, stats, r₁, hsplit, hfront, hentry⟩ :=
        exists_of_fails_mapM hrun
      have hlayer : (layer, entry) ∈ layers.zipIdx := by simp [hsplit]
      have hvalid := validate_of_schedule h layer (List.fst_mem_of_mem_zipIdx hlayer)
      obtain ⟨⟨o, rfl⟩, hrange⟩ := overflow_of_fails_runEntry hvalid hentry
      exact ⟨⟨o, r', hfails⟩, front, layer, entry, back, stats, r₁, hsplit, hfront, hrange⟩

/-- A run that is refused leaves the recorder as it was. If the blob can be read and each entry of
the execution list names a valid layer, no layer is refused while it runs, and the run gives
statistics for each entry, in order, unless a number leaves its word in one of the entries. -/
theorem runNet_all_or_nothing (bytes : List UInt8) (hw : Hardware) (r : Recorder) :
    (∀ f r', Fails (runNet bytes hw) r (.fault f) r' → r' = r) ∧
    ∀ net, Blob.toNet bytes = .ok net →
      (∀ index ∈ net.execList, ∃ layer, net.layers[index.toNat]? = some layer ∧
        layer.validate hw = .ok ()) →
      (∀ index ∈ net.execList, ∀ layer, net.layers[index.toNat]? = some layer →
        ∀ r₁ f r₂, ¬Fails (runLayer layer hw) r₁ (.fault f) r₂) ∧
      (((∃ o r', Fails (runNet bytes hw) r (.overflow o) r') ∧
          ∃ layers front layer entry back stats r₁, net.schedule = .ok layers ∧
            layers.zipIdx = front ++ (layer, entry) :: back ∧
            Succeeds (front.mapM fun x => runEntry hw x.1 x.2) r stats r₁ ∧
            ¬layer.InRange hw r₁) ∨
        ∃ stats r', Succeeds (runNet bytes hw) r stats r' ∧
          List.Forall₂ (fun index s => ∃ layer cycles, net.layers[index.toNat]? = some layer ∧
            s = layer.stats layer.walked cycles) net.execList stats) := by
  refine ⟨fun f r' h => (fails_runNet_iff.mp h).2, fun net hnet hvalid => ⟨?_, ?_⟩⟩
  · intro index hindex layer hlayer r₁ f r₂ hfails
    obtain ⟨_, hlayer', hvalid⟩ := hvalid index hindex
    obtain rfl := Option.some.inj (hlayer.symm.trans hlayer')
    obtain ⟨o, ho⟩ := onlyOverflows_runLayer (checkBlocks_of_validate hvalid) _ _ _ hfails
    cases ho
  · obtain ⟨layers, hlayers, hnamed⟩ := Net.exists_schedule fun index hindex =>
      (hvalid index hindex).imp fun _ h => h.1
    have hall : ∀ layer ∈ layers, layer.validate hw = .ok () := by
      intro layer hlayer
      obtain ⟨index, hindex, hget⟩ := exists_of_mem_forall₂ hnamed hlayer
      obtain ⟨_, hget', hvalid⟩ := hvalid index hindex
      obtain rfl := Option.some.inj (hget.symm.trans hget')
      exact hvalid
    have hschedule : Blob.schedule bytes hw = .ok layers := by
      unfold Blob.schedule
      simp only [bind_eq_ok_iff, pure_eq_ok_iff]
      exact ⟨net, hnet, layers, hlayers, (), forM_eq_ok_iff.mpr hall, rfl⟩
    rcases runNet_of_schedule hschedule r with
      ⟨hfails, front, layer, entry, back, stats, r₁, hrange⟩ | ⟨stats, r', hrun, hstats⟩
    · exact .inl ⟨hfails, layers, front, layer, entry, back, stats, r₁, hlayers, hrange⟩
    · refine .inr ⟨stats, r', hrun, forall₂_comp ?_ hnamed hstats⟩
      rintro index layer s hget ⟨cycles, hs⟩
      exact ⟨layer, cycles, hget, hs⟩

end Run

/-- A layer that runs before and after one that scatters by the control processor. -/
def twiceRun : Net where
  layers :=
    [{ params := { kind := .add, number := 7 }, segments := partlyBatched },
      { params := { kind := .scatterToGrid, number := 8 }
        segments := [.scatter { copySize := 16 }] }]
  execList := [0, 1, 0]

/-- A marker without records is refused on a recorder that is in use; the layers of `twiceRun` are
run, one of them twice. -/
theorem runNet_all_or_nothing_twiceRun :
    (∃ f r', Fails (runNet (Blob.bytesOf (.oneLayer [.block 1])) {}) { now := 5 } (.fault f) r' ∧
      r' = { now := 5 }) ∧
    Blob.toNet (Blob.bytesOf twiceRun) = .ok twiceRun ∧
    (∀ index ∈ twiceRun.execList, ∃ layer, twiceRun.layers[index.toNat]? = some layer ∧
      layer.validate {} = .ok ()) ∧
    ∃ stats r', Succeeds (runNet (Blob.bytesOf twiceRun) {}) { now := 5 } stats r' ∧
      List.Forall₂ (fun index s => ∃ layer cycles, twiceRun.layers[index.toNat]? = some layer ∧
        s = layer.stats layer.walked cycles) twiceRun.execList stats := by
  have hread : Blob.toNet (Blob.bytesOf twiceRun) = .ok twiceRun :=
    Blob.toNet_ofNet (Blob.ofNet_eq_bytesOf (by decide +kernel))
  have hvalid : ∀ index ∈ twiceRun.execList, ∃ layer,
      twiceRun.layers[index.toNat]? = some layer ∧ layer.validate {} = .ok () := by
    simp only [twiceRun, List.forall_mem_cons]
    refine ⟨⟨_, rfl, by decide⟩, ⟨_, rfl, by decide⟩, ⟨_, rfl, by decide⟩, by simp⟩
  refine ⟨?_, hread, hvalid, ?_⟩
  · have hrefused : Blob.schedule (Blob.bytesOf (.oneLayer [.block 1])) {} =
        .error (.malformedBlock 0 1 0) := by decide +kernel
    refine ⟨_, _, fails_runNet_iff.mpr ⟨hrefused, rfl⟩, ?_⟩
    exact (runNet_all_or_nothing _ _ _).1 _ _ (fails_runNet_iff.mpr ⟨hrefused, rfl⟩)
  · rcases ((runNet_all_or_nothing _ {} { now := 5 }).2 twiceRun hread hvalid).2 with
      ⟨⟨o, r', hfails⟩, -⟩ | h
    · have hok : ((runNet (Blob.bytesOf twiceRun) {}).run.run { now := 5 }).run.1.isOk = true := by
        decide +kernel
      rw [hfails] at hok
      cases hok
    · exact h

end CommandStream
