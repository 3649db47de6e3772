import CommandStream.Proofs.AllOrNothing

/-! # Layers do not see each other's time

Charges act on a clock that is behind by some time as on the clock itself, if what the two sides are
still busy with is behind by the same time. Hardware that is idle differs from unused hardware by
such a delay. Each entry of the execution list ends on idle hardware, so it takes the time its layer
takes alone.
-/

namespace CommandStream

/-! ## Delayed clocks -/

namespace Clock

/-- The clock `c'` stands where `c` stood `delay` cycles before. Busy times that have passed need
not correspond. -/
structure Delayed (delay : Nat) (c c' : Clock) : Prop where
  now : c'.now = c.now + delay
  dma : max c'.dmaBusy c'.now = max c.dmaBusy c.now + delay
  lanes : max c'.lanesBusy c'.now = max c.lanesBusy c.now + delay

namespace Delayed

variable {delay : Nat} {c c' : Clock}

theorem later (h : Delayed delay c c') {t t' : Nat} (ht : c.now ≤ t) (ht' : t' = t + delay) :
    Delayed delay { c with now := t } { c' with now := t' } := by
  obtain ⟨hnow, hdma, hlanes⟩ := h
  refine ⟨ht', ?_, ?_⟩
  · dsimp only
    omega
  · dsimp only
    omega

theorem deadline (h : Delayed delay c c') (kind : SyncKind) :
    max c'.now (c'.deadline kind) = max c.now (c.deadline kind) + delay := by
  cases kind with
  | dma => rw [max_comm, max_comm c.now]; exact h.dma
  | lanes => rw [max_comm, max_comm c.now]; exact h.lanes
  | both =>
    have hboth : ∀ c : Clock, max c.now (c.deadline .both) =
        max (max c.dmaBusy c.now) (max c.lanesBusy c.now) := by
      intro c
      rw [max_comm]
      exact sup_sup_distrib_right _ _ _
    rw [hboth, hboth, h.dma, h.lanes, Nat.add_max_add_right]

theorem charge (h : Delayed delay c c') (q : Charge) :
    Delayed delay (c.charge q) (c'.charge q) := by
  have hqueue : ∀ busy now n : Nat, max (max busy now + n) now = max busy now + n :=
    fun busy now n => max_eq_left ((le_max_right _ _).trans (Nat.le_add_right _ _))
  cases q with
  | control n => exact h.later (Nat.le_add_right _ _) (by rw [h.now, Nat.add_right_comm])
  | dma n =>
    refine ⟨h.now, ?_, h.lanes⟩
    dsimp only [Clock.charge]
    rw [hqueue, hqueue, h.dma, Nat.add_right_comm]
  | lanes n =>
    refine ⟨h.now, h.dma, ?_⟩
    dsimp only [Clock.charge]
    rw [hqueue, hqueue, h.lanes, Nat.add_right_comm]
  | wait kind => exact h.later (le_max_left _ _) (h.deadline kind)

theorem fits (h : Delayed delay c c') {q : Charge} (hq : c'.Fits q) : c.Fits q := by
  cases q with
  | control n =>
    dsimp only [Fits] at hq ⊢
    rw [h.now] at hq
    omega
  | dma n =>
    dsimp only [Fits] at hq ⊢
    rw [h.dma] at hq
    omega
  | lanes n =>
    dsimp only [Fits] at hq ⊢
    rw [h.lanes] at hq
    omega
  | wait kind => trivial

theorem chargeAll (h : Delayed delay c c') (qs : List Charge) :
    Delayed delay (c.chargeAll qs) (c'.chargeAll qs) := by
  induction qs generalizing c c' with
  | nil => exact h
  | cons q qs ih => exact ih (h.charge q)

theorem fitsAll (h : Delayed delay c c') {qs : List Charge} (hqs : c'.FitsAll qs) :
    c.FitsAll qs := by
  induction qs generalizing c c' with
  | nil => trivial
  | cons q qs ih => exact ⟨h.fits hqs.1, ih (h.charge q) hqs.2⟩

end Delayed

structure Idle (c : Clock) : Prop where
  dma : c.dmaBusy ≤ c.now
  lanes : c.lanesBusy ≤ c.now

theorem Idle.delayed {c : Clock} (h : c.Idle) : Delayed c.now ⟨0, 0, 0⟩ c where
  now := (Nat.zero_add _).symm
  dma := by rw [max_eq_right h.dma]; simp
  lanes := by rw [max_eq_right h.lanes]; simp

theorem idle_charge_wait_both (c : Clock) : (c.charge (.wait .both)).Idle where
  dma := (le_max_left _ _).trans (le_max_right _ _)
  lanes := (le_max_right _ _).trans (le_max_right _ _)

end Clock

/-! ## Entries -/

def Recorder.fresh (model : CycleModel) (points : List UInt16) : Recorder where
  model := model
  pillarPoints := points

/-- On an unused recorder the layer runs and then waits until the hardware is idle, and the
statistics are those of the layer with the time of the wait added. -/
def GivesAlone (hw : Hardware) (model : CycleModel) (points : List UInt16) (layer : Layer)
    (stats : LayerStats) : Prop :=
  ∃ stats₁ r₁ r₂, Succeeds (runLayer layer hw) (.fresh model points) stats₁ r₁ ∧
    Succeeds (Recorder.issue (.wait .both)) r₁ () r₂ ∧
    stats = { stats₁ with cycles := stats₁.cycles + (r₂.now - r₁.now) }

/-- So many cycles later the hardware is idle, with the same costs and point counts. -/
structure Settles (cycles : Nat) (r r' : Recorder) : Prop where
  idle : r'.clock.Idle
  now : r'.now = r.now + cycles
  model : r'.model = r.model
  points : r'.pillarPoints = r.pillarPoints

namespace Settles

theorem refl {r : Recorder} (h : r.clock.Idle) : Settles 0 r r := ⟨h, rfl, rfl, rfl⟩

theorem trans {m n : Nat} {r r' r'' : Recorder} (h : Settles m r r') (h' : Settles n r' r'') :
    Settles (m + n) r r'' where
  idle := h'.idle
  now := by rw [h'.now, h.now, Nat.add_assoc]
  model := h'.model.trans h.model
  points := h'.points.trans h.points

end Settles

section Run

variable {hw : Hardware} {r r' : Recorder}

/-- On idle hardware a layer runs as on an unused recorder, later. -/
theorem runLayer_fresh {layer : Layer} {stats : LayerStats} (hidle : r.clock.Idle)
    (h : Succeeds (runLayer layer hw) r stats r') :
    ∃ r₁, Succeeds (runLayer layer hw) (.fresh r.model r.pillarPoints) stats r₁ ∧
      stats.cycles = r₁.now ∧ Clock.Delayed r.now r₁.clock r'.clock ∧
      r'.model = r.model ∧ r'.pillarPoints = r.pillarPoints := by
  obtain ⟨hplan, rfl⟩ := succeeds_runLayer_iff.mp h
  obtain ⟨hfailure, hfits, rfl⟩ := succeeds_carryOut_iff.mp hplan
  have hend := hidle.delayed.chargeAll ((layer.plan hw r.pillarPoints).charges r.model)
  have hcycles := Nat.sub_eq_of_eq_add hend.now
  refine ⟨_, succeeds_runLayer_iff.mpr ⟨succeeds_carryOut_iff.mpr
    ⟨hfailure, hidle.delayed.fitsAll hfits, rfl⟩, ?_⟩, hcycles, hend, rfl, rfl⟩
  exact congrArg (layer.stats _) hcycles

theorem givesAlone_of_runEntry {layer : Layer} {entry : Nat} {stats : LayerStats}
    (hidle : r.clock.Idle) (h : Succeeds (runEntry hw layer entry) r stats r') :
    GivesAlone hw r.model r.pillarPoints layer stats ∧ Settles stats.cycles r r' := by
  obtain ⟨stats₁, r₁, hlayer, rfl, rfl⟩ := succeeds_runEntry_iff.mp h
  have hstart : (r.after [.preLayer entry layer.params.number] []).clock.Idle := hidle
  obtain ⟨s, halone, hcycles, hdelayed, hmodel, hpoints⟩ := runLayer_fresh hstart hlayer
  have hnow : r₁.now = s.now + r.now := hdelayed.now
  have hwaited : max r₁.now (r₁.clock.deadline .both) =
      max s.now (s.clock.deadline .both) + r.now := hdelayed.deadline .both
  have hwait : max r₁.now (r₁.clock.deadline .both) - r₁.now =
      max s.now (s.clock.deadline .both) - s.now := by omega
  constructor
  · refine ⟨stats₁, s, _, halone, (Recorder.books_issue _ _ _ _).mpr ⟨⟨trivial, trivial⟩, rfl⟩, ?_⟩
    exact congrArg (fun n => { stats₁ with cycles := stats₁.cycles + n }) hwait
  · refine ⟨r₁.clock.idle_charge_wait_both, ?_, hmodel, hpoints⟩
    change max r₁.now (r₁.clock.deadline .both) =
      r.now + (stats₁.cycles + (max r₁.now (r₁.clock.deadline .both) - r₁.now))
    omega

theorem forall₂_givesAlone {entries : List (Layer × Nat)} {stats : List LayerStats}
    (hidle : r.clock.Idle)
    (h : Succeeds (entries.mapM fun (layer, entry) => runEntry hw layer entry) r stats r') :
    List.Forall₂ (fun x s => GivesAlone hw r.model r.pillarPoints x.1 s) entries stats ∧
      Settles (stats.map LayerStats.cycles).sum r r' := by
  induction entries generalizing r stats with
  | nil =>
    rw [List.mapM_nil, succeeds_pure_iff] at h
    obtain ⟨rfl, rfl⟩ := h
    exact ⟨.nil, .refl hidle⟩
  | cons x entries ih =>
    simp only [List.mapM_cons, succeeds_bind_iff, succeeds_pure_iff] at h
    obtain ⟨_, _, hx, _, _, hentries, rfl, rfl⟩ := h
    obtain ⟨halone, hfirst⟩ := givesAlone_of_runEntry hidle hx
    obtain ⟨hall, hrest⟩ := ih hfirst.idle hentries
    rw [hfirst.model, hfirst.points] at hall
    rw [List.map_cons, List.sum_cons]
    exact ⟨.cons halone hall, hfirst.trans hrest⟩

end Run

/-! ## Marks in the log -/

def Primitive.isMark : Primitive → Bool
  | .preLayer _ _ | .postLayer _ _ => true
  | _ => false

theorem isMark_planFrom {ctx : Context} {p : LayerParams} {points : List UInt16}
    {index fetched : Nat} {e : Extent} {segments : List Segment} :
    ∀ q ∈ (planFrom ctx p points index fetched e segments).primitives, q.isMark = false := by
  fun_induction planFrom ctx p points index fetched e segments with
  | case1 => simp
  | case2 index fetched e s rest ih => exact ih
  | case3 index e rest count f hbody => simp
  | case4 index e rest count body hbody ih => exact List.forall_mem_cons.mpr ⟨rfl, ih⟩
  | case5 index e rest t ih => exact List.forall_mem_cons.mpr ⟨rfl, ih⟩
  | case6 index e rest l ih => exact List.forall_mem_cons.mpr ⟨rfl, ih⟩
  | case7 index e rest c ih =>
    refine List.forall_mem_append.mpr ⟨?_, ih⟩
    exact ctx.forall_mem_primitives _ _ (fun _ => rfl) (fun _ => rfl) (fun _ => rfl) fun _ => rfl
  | case8 index e rest kind ih => exact List.forall_mem_cons.mpr ⟨rfl, ih⟩
  | case9 index e rest widths ih => exact List.forall_mem_cons.mpr ⟨rfl, ih⟩
  | case10 index e rest s ih => exact ih

theorem Layer.isMark_plan (layer : Layer) (hw : Hardware) (points : List UInt16) :
    ∀ q ∈ (layer.plan hw points).primitives, q.isMark = false := by
  unfold plan
  dsimp only
  split
  · simp [Primitive.isMark]
  · simp [Primitive.isMark]
  · split
    · simp [Primitive.isMark]
    · refine List.forall_mem_cons.mpr ⟨rfl, List.forall_mem_append.mpr ⟨?_, isMark_planFrom⟩⟩
      simp [Primitive.isMark]

theorem Layer.preLayer_notMem_plan (layer : Layer) (hw : Hardware) (points : List UInt16)
    (entry : Nat) (number : UInt16) :
    .preLayer entry number ∉ (layer.plan hw points).events := by
  intro h
  obtain ⟨q, hq, hmem⟩ := List.mem_flatMap.mp h
  have hmark := layer.isMark_plan hw points q hq
  cases q with
  | preLayer _ _ | postLayer _ _ => cases hmark
  | _ => simp [Primitive.events] at hmem

theorem exists_eq_append_of_notMem {α : Type} {a : α} {inside rest before behind : List α}
    (ha : a ∉ inside) (h : inside ++ rest = before ++ a :: behind) :
    ∃ between, before = inside ++ between ∧ rest = between ++ a :: behind := by
  rcases List.append_eq_append_iff.mp h with hbehind | ⟨_ | ⟨b, cut⟩, rfl, hcut⟩
  · exact hbehind
  · exact ⟨[], by simp, hcut.symm⟩
  · obtain ⟨rfl, -⟩ := List.cons.inj hcut
    simp at ha

theorem exists_entry_of_preLayer {hw : Hardware} {points : List UInt16}
    {entries : List (Layer × Nat)} {before behind : List Event} {entry : Nat} {number : UInt16}
    (h : entries.flatMap (fun x => entryEvents hw points x.1 x.2) =
      before ++ .preLayer entry number :: behind) :
    ∃ front layer back, entries = front ++ (layer, entry) :: back ∧
      layer.params.number = number ∧
      front.flatMap (fun x => entryEvents hw points x.1 x.2) = before := by
  induction entries generalizing before with
  | nil => simp at h
  | cons x entries ih =>
    rw [List.flatMap_cons] at h
    have hinside : .preLayer entry number ∉ (x.1.plan hw points).events ++
        [.wait .both, .postLayer x.2 x.1.params.number] := by
      simp [x.1.preLayer_notMem_plan hw points]
    cases before with
    | nil =>
      obtain ⟨rfl, rfl⟩ := Event.preLayer.inj (List.cons.inj h).1
      exact ⟨[], x.1, entries, rfl, rfl, rfl⟩
    | cons e before =>
      obtain ⟨rfl, htail⟩ := List.cons.inj h
      obtain ⟨before, rfl, hrest⟩ := exists_eq_append_of_notMem hinside htail
      obtain ⟨front, layer, back, rfl, hnumber, rfl⟩ := ih hrest
      exact ⟨x :: front, layer, back, rfl, hnumber, rfl⟩

/-! ## Networks -/

/-- On an unused recorder, each entry of a network gives what its layer gives alone. The hardware is
idle where an entry begins, and the entries account for all of the time that has passed. -/
theorem runNet_layers_isolated {bytes : List UInt8} {hw : Hardware} {model : CycleModel}
    {points : List UInt16} {stats : List LayerStats} {r : Recorder}
    (h : Succeeds (runNet bytes hw) (.fresh model points) stats r) :
    ∃ layers, Blob.schedule bytes hw = .ok layers ∧
      List.Forall₂ (GivesAlone hw model points) layers stats ∧
      (∀ before entry number behind, r.events = before ++ .preLayer entry number :: behind →
        ∃ front layer back stats₁ stats₂ r₁,
          layers.zipIdx = front ++ (layer, entry) :: back ∧ layer.params.number = number ∧
          Succeeds (front.mapM fun x => runEntry hw x.1 x.2) (.fresh model points) stats₁ r₁ ∧
          Succeeds (((layer, entry) :: back).mapM fun x => runEntry hw x.1 x.2) r₁ stats₂ r ∧
          stats = stats₁ ++ stats₂ ∧ r₁.events = before ∧
          r₁.dmaBusy ≤ r₁.now ∧ r₁.lanesBusy ≤ r₁.now) ∧
      (stats.map LayerStats.cycles).sum = r.now := by
  unfold runNet at h
  simp only [succeeds_bind_iff, succeeds_fault_iff] at h
  obtain ⟨layers, _, ⟨hschedule, rfl⟩, hrun⟩ := h
  have hstart : (Recorder.fresh model points).clock.Idle := ⟨le_rfl, le_rfl⟩
  obtain ⟨halone, hsettles⟩ := forall₂_givesAlone hstart hrun
  refine ⟨layers, hschedule, ?_, ?_, ?_⟩
  · rw [← List.zipIdx_map_fst 0 layers, List.forall₂_map_left_iff]
    exact halone
  · intro before entry number behind hlog
    have hevents := (emits_mapM_runEntry hrun).2.events
    rw [hlog] at hevents
    obtain ⟨front, layer, back, hentries, hnumber, hbefore⟩ := exists_entry_of_preLayer hevents.symm
    rw [hentries, succeeds_mapM_append_iff] at hrun
    obtain ⟨stats₁, stats₂, r₁, hfront, hback, rfl⟩ := hrun
    have hidle := (forall₂_givesAlone hstart hfront).2.idle
    refine ⟨front, layer, back, stats₁, stats₂, r₁, hentries, hnumber, hfront, hback, rfl, ?_,
      hidle.dma, hidle.lanes⟩
    exact (emits_mapM_runEntry hfront).2.events.trans hbefore
  · rw [hsettles.now]
    exact (Nat.zero_add _).symm

/-- In `twiceRun` the third entry runs the first layer again, on idle hardware. -/
theorem runNet_layers_isolated_twiceRun :
    ∃ stats r layers, Succeeds (runNet (Blob.bytesOf twiceRun) {}) (.fresh {} []) stats r ∧
      Blob.schedule (Blob.bytesOf twiceRun) {} = .ok layers ∧
      List.Forall₂ (GivesAlone {} {} []) layers stats ∧
      (∃ before behind front layer back stats₁ r₁,
        r.events = before ++ .preLayer 2 7 :: behind ∧
        layers.zipIdx = front ++ (layer, 2) :: back ∧
        Succeeds (front.mapM fun x => runEntry {} x.1 x.2) (.fresh {} []) stats₁ r₁ ∧
        r₁.events = before ∧ r₁.dmaBusy ≤ r₁.now ∧ r₁.lanesBusy ≤ r₁.now) ∧
      (stats.map LayerStats.cycles).sum = r.now := by
  obtain ⟨stats, r, hrun⟩ : ∃ stats r,
      Succeeds (runNet (Blob.bytesOf twiceRun) {}) (.fresh {} []) stats r :=
    exists_succeeds (by decide +kernel)
  have hmark : .preLayer 2 7 ∈
      ((runNet (Blob.bytesOf twiceRun) {}).run.run (.fresh {} [])).run.2.events := by
    decide +kernel
  rw [hrun] at hmark
  obtain ⟨before, behind, hlog⟩ := List.append_of_mem hmark
  obtain ⟨layers, hschedule, halone, hidle, hcycles⟩ := runNet_layers_isolated hrun
  obtain ⟨front, layer, back, stats₁, -, r₁, hentries, -, hfront, -, -, hr₁⟩ := hidle _ _ _ _ hlog
  exact ⟨stats, r, layers, hrun, hschedule, halone,
    ⟨before, behind, front, layer, back, stats₁, r₁, hlog, hentries, hfront, hr₁⟩, hcycles⟩

end CommandStream
