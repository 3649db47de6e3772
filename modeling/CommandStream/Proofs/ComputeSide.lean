import CommandStream.Proofs.BlobRoundTrip
import CommandStream.Proofs.PipelineMeaning
import CommandStream.Proofs.Plans

/-! # Optimising is invisible to the compute side

The optimiser keeps the compute commands and boundaries of every layer, and in their order. The
lanes see nothing else of a stream, unless the layer counts points, so a run of the optimised
network asks the same of them as a run of the network.
-/

namespace CommandStream

/-! ## Layers that agree -/

/-- The layers have the same header and the same compute commands and boundaries. -/
structure SameControl (a b : Layer) : Prop where
  params : b.params = a.params
  control : control b.segments = control a.segments

theorem flatMap_controlEvents {ctx : Context} {p : LayerParams} (segments : List Segment) :
    (control segments).flatMap (controlEvents ctx p) = segments.flatMap (controlEvents ctx p) := by
  induction segments with
  | nil => rfl
  | cons s rest ih =>
    unfold control at ih ⊢
    cases s with
    | transfer _ | loop _ | block _ =>
      rw [List.filter_cons_of_neg Bool.false_ne_true, ih]; rfl
    | compute _ | sync _ | padding _ | scatter _ =>
      rw [List.filter_cons_of_pos rfl, List.flatMap_cons, ih]; rfl

theorem filterMap_scatter_control (segments : List Segment) :
    (control segments).filterMap Segment.scatter? = segments.filterMap Segment.scatter? := by
  rw [control, List.filterMap_filter]
  congr 1
  funext s
  cases s <;> rfl

variable {hw : Hardware} {points : List UInt16}

namespace SameControl

variable {a b : Layer}

theorem computeSide_plan (h : SameControl a b) (hkind : a.params.kind ≠ .pointPillars)
    (ha : (a.plan hw points).failure = none) (hb : (b.plan hw points).failure = none) :
    (b.plan hw points).events.filter Event.isComputeSide =
      (a.plan hw points).events.filter Event.isComputeSide := by
  cases hwalks : a.params.kind.bypassesStream with
  | true =>
    have hplan : b.plan hw points = a.plan hw points := by
      have hscatter : b.segments.filterMap Segment.scatter? =
          a.segments.filterMap Segment.scatter? := by
        rw [← filterMap_scatter_control, h.control, filterMap_scatter_control]
      unfold Layer.plan
      rw [h.params]
      obtain hkind | hkind := LayerKind.bypassesStream_iff.mp hwalks <;>
        simp only [hkind, hscatter]
    rw [hplan]
  | false =>
    obtain ⟨ctx, points₁, hctx, hplan⟩ := Layer.plan_eq hwalks ha
    obtain ⟨ctx', points₂, hctx', hplan'⟩ := Layer.plan_eq (h.params ▸ hwalks) hb
    rw [h.params] at hctx' hplan'
    obtain rfl := Except.ok.inj (hctx.symm.trans hctx')
    have hkind' : ctx.kind ≠ .pointPillars := by rwa [(Context.ofLayer_eq_ok_iff.mp hctx).kind]
    rw [hplan] at ha ⊢
    rw [hplan'] at hb ⊢
    rw [Plan.events_after, Plan.events_after, List.filter_append, List.filter_append,
      computeSide_planFrom hkind' (by simp) ha, computeSide_planFrom hkind' (by simp) hb,
      ← flatMap_controlEvents b.segments, h.control, flatMap_controlEvents]

theorem computeSide_entryEvents (h : SameControl a b) (hkind : a.params.kind ≠ .pointPillars)
    (ha : (a.plan hw points).failure = none) (hb : (b.plan hw points).failure = none)
    (entry : Nat) :
    (entryEvents hw points b entry).filter Event.isComputeSide =
      (entryEvents hw points a entry).filter Event.isComputeSide := by
  simp only [entryEvents, List.filter_append, List.filter_cons, h.params,
    h.computeSide_plan hkind ha hb, List.cons_append]

end SameControl

theorem computeSide_entries {as bs : List Layer} (h : List.Forall₂ SameControl as bs)
    (hkind : ∀ a ∈ as, a.params.kind ≠ .pointPillars)
    (ha : ∀ a ∈ as, (a.plan hw points).failure = none)
    (hb : ∀ b ∈ bs, (b.plan hw points).failure = none) (start : Nat) :
    ((bs.zipIdx start).flatMap fun (layer, entry) => entryEvents hw points layer entry).filter
        Event.isComputeSide =
      ((as.zipIdx start).flatMap fun (layer, entry) => entryEvents hw points layer entry).filter
        Event.isComputeSide := by
  induction h generalizing start with
  | nil => rfl
  | cons hab _ ih =>
    rw [List.forall_mem_cons] at hkind ha hb
    simp only [List.zipIdx_cons, List.flatMap_cons, List.filter_append]
    rw [hab.computeSide_entryEvents hkind.1 ha.1 hb.1, ih hkind.2 ha.2 hb.2]

/-! ## Optimised networks -/

section Optimize

variable {cfg : Settings}

theorem sameControl_of_optimize {layer layer' : Layer} {stats : List PassStats}
    (h : layer.optimize cfg = .ok (layer', stats)) : SameControl layer layer' := by
  obtain ⟨o, ho, h⟩ := bind_eq_ok_iff.mp h
  obtain ⟨rfl, -⟩ := Prod.mk.inj (pure_eq_ok_iff.mp h)
  have hmeaning : meaning ∅ o.segments = meaning ∅ layer.segments :=
    meaning_optimize (by simp) (fun _ _ _ _ _ w hw => absurd hw (Set.notMem_empty w)) ho
  exact ⟨rfl, control_eq_of_meaning hmeaning⟩

theorem sameControl_of_optimize_net {net net' : Net} {stats : List (List PassStats)}
    (h : net.optimize cfg = .ok (net', stats)) :
    net'.execList = net.execList ∧ List.Forall₂ SameControl net.layers net'.layers := by
  obtain ⟨pairs, hpairs, h⟩ := bind_eq_ok_iff.mp h
  obtain ⟨rfl, -⟩ := Prod.mk.inj (pure_eq_ok_iff.mp h)
  refine ⟨rfl, ?_⟩
  rw [mapM_eq_ok_iff] at hpairs
  rw [List.forall₂_map_right_iff]
  exact hpairs.imp fun layer pair hpair => sameControl_of_optimize hpair

end Optimize

/-! ## Schedules -/

theorem schedule_eq_ok {net : Net} {layers : List Layer} (h : net.schedule = .ok layers) :
    List.Forall₂ (fun x layer => net.layers[x.1.toNat]? = some layer) net.execList.zipIdx
      layers := by
  refine (mapM_eq_ok_iff.mp h).imp fun (index, entry) layer hx => ?_
  dsimp only at hx ⊢
  split at hx
  · rename_i hlayer
    rw [hlayer, Except.ok.inj hx]
  · cases hx

theorem rel_of_getElem? {α β : Type} {R : α → β → Prop} {as : List α} {bs : List β}
    (h : List.Forall₂ R as bs) {i : Nat} {a : α} {b : β} (ha : as[i]? = some a)
    (hb : bs[i]? = some b) : R a b := by
  induction h generalizing i with
  | nil => simp at ha
  | cons hab _ ih =>
    cases i with
    | zero =>
      rw [List.getElem?_cons_zero, Option.some.injEq] at ha hb
      rwa [← ha, ← hb]
    | succ i => exact ih (by simpa using ha) (by simpa using hb)

theorem forall₂_of_schedule {R : Layer → Layer → Prop} {net net' : Net}
    {layers layers' : List Layer}
    (hlayers : List.Forall₂ R net.layers net'.layers) (hexec : net'.execList = net.execList)
    (h : net.schedule = .ok layers) (h' : net'.schedule = .ok layers') :
    List.Forall₂ R layers layers' := by
  have hs := schedule_eq_ok h
  have hs' := schedule_eq_ok h'
  rw [hexec] at hs'
  generalize net.execList.zipIdx = entries at hs hs'
  clear h h'
  induction hs generalizing layers' with
  | nil => cases hs'; exact .nil
  | cons hx _ ih =>
    cases hs' with
    | cons hx' hrest => exact .cons (rel_of_getElem? hlayers hx hx') (ih hrest)

theorem schedule_of_blob {bytes : List UInt8} {layers : List Layer}
    (h : Blob.schedule bytes hw = .ok layers) :
    ∃ net, Blob.toNet bytes = .ok net ∧ net.schedule = .ok layers := by
  unfold Blob.schedule at h
  simp only [bind_eq_ok_iff, pure_eq_ok_iff] at h
  obtain ⟨net, hnet, layers', hlayers, _, -, rfl⟩ := h
  exact ⟨net, hnet, hlayers⟩

/-- If no scheduled layer counts points, the run of an optimised blob asks of the lanes what the run
of the blob asks, in the same order. -/
theorem computeSide_runNet_optimize {bytes bytes' : List UInt8} {cfg : Settings}
    {passes : List (List PassStats)} {model : CycleModel} {stats stats' : List LayerStats}
    {r r' : Recorder} (hoptimize : Blob.optimize bytes cfg = .ok (bytes', passes))
    (hkind : ∀ net, Blob.toNet bytes = .ok net → ∀ index ∈ net.execList, ∀ layer,
      net.layers[index.toNat]? = some layer → layer.params.kind ≠ .pointPillars)
    (h : Succeeds (runNet bytes hw) { model, pillarPoints := points } stats r)
    (h' : Succeeds (runNet bytes' hw) { model, pillarPoints := points } stats' r') :
    r'.events.filter Event.isComputeSide = r.events.filter Event.isComputeSide := by
  obtain ⟨layers, hschedule, hfailures, hemits⟩ := emits_runNet h
  obtain ⟨layers', hschedule', hfailures', hemits'⟩ := emits_runNet h'
  obtain ⟨net, hnet, hlayers⟩ := schedule_of_blob hschedule
  obtain ⟨net', hnet', hlayers'⟩ := schedule_of_blob hschedule'
  unfold Blob.optimize at hoptimize
  simp only [bind_eq_ok_iff, liftM_fault_eq_ok_iff, pure_eq_ok_iff] at hoptimize
  obtain ⟨net₁, hnet₁, ⟨net₂, stats₂⟩, hnet₂, bytes₂, hbytes₂, hresult⟩ := hoptimize
  obtain ⟨rfl, -⟩ := Prod.mk.inj hresult
  obtain rfl := Except.ok.inj (hnet.symm.trans hnet₁)
  obtain rfl := Except.ok.inj (hnet'.symm.trans (Blob.toNet_ofNet hbytes₂))
  obtain ⟨hexec, hsame⟩ := sameControl_of_optimize_net hnet₂
  have hkinds : ∀ layer ∈ layers, layer.params.kind ≠ .pointPillars := by
    intro layer hlayer
    obtain ⟨x, hx, hget⟩ := exists_of_mem_forall₂ (schedule_eq_ok hlayers) hlayer
    exact hkind net hnet x.1 (List.fst_mem_of_mem_zipIdx hx) layer hget
  rw [hemits.events, hemits'.events, List.filter_append, List.filter_append]
  exact congrArg _ (computeSide_entries (forall₂_of_schedule hsame hexec hlayers hlayers') hkinds
    hfailures hfailures' 0)

theorem toNet_bytesOf_twoStretches :
    Blob.toNet (Blob.bytesOf (.oneLayer twoStretches)) = .ok (.oneLayer twoStretches) :=
  Blob.toNet_ofNet (Blob.ofNet_eq_bytesOf (by decide +kernel))

theorem optimize_oneLayer {segments : List Segment} {cfg : Settings} {o : Optimized}
    (h : optimize segments {} cfg = .ok o) :
    (Net.oneLayer segments).optimize cfg = .ok (Net.oneLayer o.segments, [o.stats]) := by
  have hlayer : ∀ params : LayerParams, params.pad = {} →
      Layer.optimize { params, segments } cfg =
        .ok ({ params, segments := o.segments }, o.stats) := by
    intro params hpad
    unfold Layer.optimize
    rw [hpad, h]
    rfl
  unfold Net.optimize Net.oneLayer
  rw [List.mapM_cons, hlayer _ rfl]
  rfl

theorem optimize_bytesOf_twoStretches :
    ∃ passes, Blob.optimize (Blob.bytesOf (.oneLayer twoStretches)) {} =
      .ok (Blob.bytesOf (.oneLayer twoStretchesOptimized), passes) := by
  obtain ⟨o, ho, hsegments⟩ := map_eq_ok_iff.mp optimize_twoStretches
  have hwrite : Blob.ofNet (.oneLayer o.segments) = .ok (Blob.bytesOf (.oneLayer o.segments)) :=
    Blob.ofNet_eq_bytesOf (by rw [hsegments]; decide +kernel)
  rw [← hsegments]
  refine ⟨[o.stats], ?_⟩
  unfold Blob.optimize
  simp only [bind_eq_ok_iff, liftM_fault_eq_ok_iff, pure_eq_ok_iff]
  exact ⟨_, toNet_bytesOf_twoStretches, _, optimize_oneLayer ho, _, hwrite, rfl⟩

theorem computeSide_optimize_twoStretches :
    ∃ bytes' passes stats stats' r r',
      Blob.optimize (Blob.bytesOf (.oneLayer twoStretches)) {} = .ok (bytes', passes) ∧
      Succeeds (runNet (Blob.bytesOf (.oneLayer twoStretches)) {}) {} stats r ∧
      Succeeds (runNet bytes' {}) {} stats' r' ∧
      r'.events.filter Event.isComputeSide = r.events.filter Event.isComputeSide := by
  obtain ⟨passes, hoptimize⟩ := optimize_bytesOf_twoStretches
  obtain ⟨stats, r, h⟩ : ∃ stats r,
      Succeeds (runNet (Blob.bytesOf (.oneLayer twoStretches)) {}) {} stats r :=
    exists_succeeds (by decide +kernel)
  obtain ⟨stats', r', h'⟩ : ∃ stats' r',
      Succeeds (runNet (Blob.bytesOf (.oneLayer twoStretchesOptimized)) {}) {} stats' r' :=
    exists_succeeds (by decide +kernel)
  refine ⟨_, passes, stats, stats', r, r', hoptimize, h, h', ?_⟩
  refine computeSide_runNet_optimize hoptimize ?_ h h'
  intro net hnet index hindex layer hlayer
  obtain rfl := Except.ok.inj (toNet_bytesOf_twoStretches.symm.trans hnet)
  obtain rfl := List.mem_singleton.mp hindex
  obtain rfl := Option.some.inj hlayer
  decide

end CommandStream
