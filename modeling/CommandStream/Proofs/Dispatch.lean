import CommandStream.Proofs.LoopRolling
import CommandStream.Proofs.Plans

/-! # Consistent streams are dispatched whole

The scheduler skips what it has fetched with a block, and the check of a stream does not. Still
every marker the scheduler comes to has been checked, so the plan of a consistent stream never ends
early: each segment is counted once, each transfer is issued once, and each block holds the records
that its marker states.
-/

namespace CommandStream

/-! ## Markers -/

theorem checkBlocksFrom_tail {index : Nat} {s : Segment} {rest : List Segment}
    (h : checkBlocksFrom index (s :: rest) = .ok ()) :
    checkBlocksFrom (index + 1) rest = .ok () := by
  cases s with
  | block count =>
    obtain ⟨_, -, hrest⟩ := bind_eq_ok_iff.mp h
    exact hrest
  | transfer _ | loop _ | compute _ | sync _ | padding _ | scatter _ => exact h

theorem recordCount_fillBlock {stated filled reached : Nat} {rest body : List Segment}
    (h : fillBlock stated filled rest = (reached, body)) :
    reached = filled + recordCount body := by
  induction rest generalizing filled reached body with
  | nil =>
    obtain ⟨rfl, rfl⟩ := Prod.mk.inj h
    rfl
  | cons s rest ih =>
    rw [fillBlock] at h
    split at h
    · obtain ⟨rfl, rfl⟩ := Prod.mk.inj h
      rw [ih rfl, recordCount_cons, Nat.add_assoc]
    · obtain ⟨rfl, rfl⟩ := Prod.mk.inj h
      rfl

theorem recordCount_blockBody {index : Nat} {count : UInt32} {rest body : List Segment}
    (h : blockBody index count rest = .ok body) : recordCount body = count.toNat := by
  unfold blockBody at h
  dsimp only at h
  split at h
  · rename_i hreached
    obtain rfl := Except.ok.inj h
    have hcount := recordCount_fillBlock (Prod.mk.eta (p := fillBlock count.toNat 0 rest)).symm
    omega
  · cases h

def Segment.stated? : Segment → Option Nat
  | .block count => some count.toNat
  | _ => none

theorem Segment.stated?_of_isDma {s : Segment} (h : s.isDma = true) : s.stated? = none := by
  cases s <;> first | rfl | cases h

def Event.records? : Event → Option Nat
  | .block records _ => some records
  | _ => none

theorem Event.records?_of_isComputeSide {e : Event} (h : e.isComputeSide = true) :
    e.records? = none := by
  cases e <;> first | rfl | cases h

theorem Quiet.records?_events {qs : List Primitive} (h : Quiet qs) :
    (qs.flatMap Primitive.events).filterMap Event.records? = [] :=
  List.filterMap_eq_nil_iff.mpr fun e he => by
    obtain ⟨q, hq, he⟩ := List.mem_flatMap.mp he
    exact Event.records?_of_isComputeSide (Primitive.isComputeSide_of_mem_events (h q hq) e he)

/-! ## Streams -/

section PlanFrom

variable {ctx : Context} {p : LayerParams} {points : List UInt16} {index fetched : Nat} {e : Extent}
  {segments : List Segment}

theorem failure_planFrom (h : checkBlocksFrom index segments = .ok ()) :
    (planFrom ctx p points index fetched e segments).failure = none := by
  fun_induction planFrom ctx p points index fetched e segments with
  | case1 => rfl
  | case2 index fetched e s rest ih => exact ih (checkBlocksFrom_tail h)
  | case3 index e rest count f hbody =>
    obtain ⟨_, hok, -⟩ := bind_eq_ok_iff.mp h
    rw [hbody] at hok
    cases hok
  | case4 index e rest count body hbody ih => exact ih (checkBlocksFrom_tail h)
  | case5 index e rest t ih => exact ih h
  | case6 index e rest l ih => exact ih h
  | case7 index e rest c ih => exact ih h
  | case8 index e rest kind ih => exact ih h
  | case9 index e rest widths ih => exact ih h
  | case10 index e rest s ih => exact ih h

theorem counted_planFrom (h : (planFrom ctx p points index fetched e segments).failure = none) :
    (planFrom ctx p points index fetched e segments).counted = segments.drop fetched := by
  fun_induction planFrom ctx p points index fetched e segments with
  | case1 => simp
  | case2 index fetched e s rest ih => exact ih h
  | case3 index e rest count f hbody => cases h
  | case4 index e rest count body hbody ih =>
    obtain ⟨⟨tail, rfl⟩, -⟩ := blockBody_eq_ok hbody
    simp [ih h]
  | case5 index e rest t ih => simp [ih h]
  | case6 index e rest l ih => simp [ih h]
  | case7 index e rest c ih => simp [ih h]
  | case8 index e rest kind ih => simp [ih h]
  | case9 index e rest widths ih => simp [ih h]
  | case10 index e rest s ih => simp [ih h]

/-- Every marker makes one block with the records it states. -/
theorem records?_planFrom (hfetched : ∀ s ∈ segments.take fetched, s.isDma = true)
    (h : (planFrom ctx p points index fetched e segments).failure = none) :
    (planFrom ctx p points index fetched e segments).events.filterMap Event.records? =
      segments.filterMap Segment.stated? := by
  fun_induction planFrom ctx p points index fetched e segments with
  | case1 => rfl
  | case2 index fetched e s rest ih =>
    rw [List.take_succ_cons, List.forall_mem_cons] at hfetched
    rw [ih hfetched.2 h, List.filterMap_cons_none (Segment.stated?_of_isDma hfetched.1)]
  | case3 index e rest count f hbody => cases h
  | case4 index e rest count body hbody ih =>
    have hcount := recordCount_blockBody hbody
    obtain ⟨⟨tail, rfl⟩, hdma⟩ := blockBody_eq_ok hbody
    simp [ih (by simpa using hdma) h, Primitive.events, Event.records?, Segment.stated?, hcount]
  | case5 index e rest t ih =>
    simp [ih (by simp) h, Primitive.events, Event.records?, Segment.stated?, Segment.transfers,
      List.filterMap_cons]
  | case6 index e rest l ih =>
    simp [ih (by simp) h, Primitive.events, Event.records?, Segment.stated?, Function.comp_def,
      List.filterMap_cons]
  | case7 index e rest c ih =>
    simp [ih (by simp) h, (ctx.quiet_primitives p (ctx.resolve e c)).records?_events,
      Segment.stated?, List.filterMap_cons]
  | case8 index e rest kind ih =>
    simp [ih (by simp) h, Primitive.events, Event.records?, Segment.stated?, List.filterMap_cons]
  | case9 index e rest widths ih =>
    simp [ih (by simp) h, Primitive.events, Event.records?, Segment.stated?, List.filterMap_cons]
  | case10 index e rest s ih => simp [ih (by simp) h, Segment.stated?, List.filterMap_cons]

end PlanFrom

/-! ## Layers -/

namespace Layer

variable {layer : Layer} {hw : Hardware} {points : List UInt16}

def walked (layer : Layer) : List Segment :=
  if layer.params.kind.bypassesStream then [] else layer.segments

theorem failure_plan (h : checkBlocks layer.segments = .ok ()) (f : Fault) :
    (layer.plan hw points).failure ≠ some (.fault f) := by
  unfold plan
  dsimp only
  split
  · simp
  · simp
  · split
    · simp
    · rw [Plan.failure_after, failure_planFrom h]
      simp

theorem counted_plan (h : (layer.plan hw points).failure = none) :
    (layer.plan hw points).counted = layer.walked := by
  unfold walked
  cases hwalks : layer.params.kind.bypassesStream with
  | true =>
    unfold plan
    obtain hkind | hkind := LayerKind.bypassesStream_iff.mp hwalks <;> simp only [hkind] <;> rfl
  | false =>
    obtain ⟨ctx, points', -, hplan⟩ := plan_eq hwalks h
    rw [hplan] at h ⊢
    exact counted_planFrom h

theorem records?_plan (hwalks : layer.params.kind.bypassesStream = false)
    (h : (layer.plan hw points).failure = none) :
    (layer.plan hw points).events.filterMap Event.records? =
      layer.segments.filterMap Segment.stated? := by
  obtain ⟨ctx, points', -, hplan⟩ := plan_eq hwalks h
  rw [hplan] at h ⊢
  rw [Plan.events_after, List.filterMap_append, (quiet_setup _ _).records?_events,
    records?_planFrom (by simp) h, List.nil_append]

end Layer

/-- The numbers of a run stay within their words: the registers that the layer uses, and the clocks
with all that its plan charges. -/
structure Layer.InRange (layer : Layer) (hw : Hardware) (r : Recorder) : Prop where
  registers : layer.params.kind.bypassesStream = false →
    ∃ ctx, Context.ofLayer layer.params hw = .ok ctx
  clock : r.clock.FitsAll ((layer.plan hw r.pillarPoints).charges r.model)

section Range

variable {layer : Layer} {hw : Hardware} {r r' : Recorder}

/-- A layer whose stream is consistent runs as long as its numbers stay in range. -/
theorem exists_succeeds_runLayer (hblocks : checkBlocks layer.segments = .ok ())
    (hrange : layer.InRange hw r) : ∃ stats r', Succeeds (runLayer layer hw) r stats r' := by
  have hfailure : (layer.plan hw r.pillarPoints).failure = none := by
    cases hwalks : layer.params.kind.bypassesStream with
    | true =>
      unfold Layer.plan
      obtain hkind | hkind := LayerKind.bypassesStream_iff.mp hwalks <;> simp only [hkind]
    | false =>
      obtain ⟨ctx, hctx⟩ := hrange.registers hwalks
      rw [layer.plan_of_ok hwalks hctx]
      exact failure_planFrom hblocks
  exact ⟨_, _, succeeds_runLayer_iff.mpr
    ⟨succeeds_carryOut_iff.mpr ⟨hfailure, hrange.clock, rfl⟩, rfl⟩⟩

theorem onlyOverflows_runLayer (hblocks : checkBlocks layer.segments = .ok ()) :
    OnlyOverflows (runLayer layer hw) :=
  onlyOverflows_get.bind fun _ =>
    (Recorder.onlyOverflows_carryOut (layer.failure_plan hblocks)).bind fun _ =>
      onlyOverflows_get.bind fun _ => onlyOverflows_pure _

theorem overflow_of_fails_runLayer (hblocks : checkBlocks layer.segments = .ok ()) {e : Failure}
    (h : Fails (runLayer layer hw) r e r') : (∃ o, e = .overflow o) ∧ ¬layer.InRange hw r := by
  refine ⟨onlyOverflows_runLayer hblocks r e r' h, ?_⟩
  intro hrange
  obtain ⟨_, _, hrun⟩ := exists_succeeds_runLayer hblocks hrange
  exact hrun.not_fails h

end Range

/-! ## Statistics -/

namespace SegmentTally

theorem foldl_count (t : SegmentTally) (segments : List Segment) :
    segments.foldl count t = {
      blocks := t.blocks + segments.countP (·.key == "block")
      computes := t.computes + segments.countP (·.key == "compute")
      loops := t.loops + segments.countP (·.key == "loop")
      paddings := t.paddings + segments.countP (·.key == "padding")
      scatters := t.scatters + segments.countP (·.key == "scatter")
      syncs := t.syncs + segments.countP (·.key == "sync")
      transfers := t.transfers + segments.countP (·.key == "transfer") } := by
  induction segments generalizing t with
  | nil => rfl
  | cons s rest ih =>
    rw [List.foldl_cons, ih]
    cases s <;> simp [count, Segment.key, Nat.add_assoc, Nat.add_comm]

/-- The statistics give for each kind that occurs the number of its segments, and nothing else. -/
theorem mem_entries_ofSegments_iff {segments : List Segment} {key : String} {n : Nat} :
    (key, n) ∈ (ofSegments segments).entries ↔
      n = segments.countP (·.key == key) ∧ 0 < n := by
  rw [ofSegments, foldl_count]
  simp only [entries, Nat.zero_add, List.mem_filter, List.mem_cons, List.not_mem_nil, or_false,
    Prod.mk.injEq, ne_eq, decide_not, Bool.not_eq_true', decide_eq_false_iff_not]
  constructor
  · rintro ⟨⟨rfl, rfl⟩ | ⟨rfl, rfl⟩ | ⟨rfl, rfl⟩ | ⟨rfl, rfl⟩ | ⟨rfl, rfl⟩ | ⟨rfl, rfl⟩ |
      ⟨rfl, rfl⟩, hn⟩ <;> exact ⟨rfl, Nat.pos_of_ne_zero hn⟩
  · rintro ⟨rfl, hn⟩
    obtain ⟨s, -, hs⟩ := List.countP_pos_iff.mp hn
    obtain rfl := beq_iff_eq.mp hs
    refine ⟨?_, hn.ne'⟩
    cases s <;> simp [Segment.key]

end SegmentTally

/-! ## Runs of layers -/

theorem filterMap_transfer?_unroll (segments : List Segment) :
    (unroll segments).filterMap Segment.transfer? = issued segments := by
  unfold unroll issued
  rw [List.filterMap_flatMap]
  refine List.flatMap_congr fun s _ => ?_
  cases s with
  | loop l => simp [Segment.unroll, Segment.transfers, Segment.transfer?, Function.comp_def]
  | transfer _ | compute _ | block _ | sync _ | padding _ | scatter _ => rfl

/-- A layer that walks through a consistent stream issues each of its transfers once and in order,
makes a block for each marker with as many records as the marker states, and counts each segment
once, unless a number leaves its word. -/
theorem runLayer_dispatches_stream {layer : Layer} (hdynamic : layer.params.kind ≠ .dynamicAxis)
    (hscatter : layer.params.kind ≠ .scatterToGrid)
    (hblocks : checkBlocks layer.segments = .ok ()) (hw : Hardware) (r : Recorder) :
    (¬layer.InRange hw r ∧ ∃ o r', Fails (runLayer layer hw) r (.overflow o) r') ∨
    ∃ stats es r', Succeeds (runLayer layer hw) r stats r' ∧
      r'.transfers = r.transfers ++ (unroll layer.segments).filterMap Segment.transfer? ∧
      r'.events = r.events ++ es ∧
      es.filterMap Event.records? = layer.segments.filterMap Segment.stated? ∧
      ∀ key n, (key, n) ∈ stats.segments.entries ↔
        n = layer.segments.countP (·.key == key) ∧ 0 < n := by
  have hwalks : layer.params.kind.bypassesStream = false := by
    rw [← Bool.not_eq_true, LayerKind.bypassesStream_iff]
    rintro (hkind | hkind)
    · exact hdynamic hkind
    · exact hscatter hkind
  rcases succeeds_or_fails (runLayer layer hw) r with ⟨stats, r', h⟩ | ⟨e, r', h⟩
  · obtain ⟨hplan, rfl⟩ := succeeds_runLayer_iff.mp h
    obtain ⟨hfailure, -, rfl⟩ := succeeds_carryOut_iff.mp hplan
    refine .inr ⟨_, _, _, h, ?_, r.events_after _ _, layer.records?_plan hwalks hfailure, ?_⟩
    · rw [Recorder.transfers, r.events_after, List.flatMap_append, layer.transfers_plan hfailure,
        filterMap_transfer?_unroll, Layer.issued, hwalks]
      rfl
    · intro key n
      rw [Layer.stats, layer.counted_plan hfailure, Layer.walked, hwalks]
      exact SegmentTally.mem_entries_ofSegments_iff
  · obtain ⟨⟨o, rfl⟩, hrange⟩ := overflow_of_fails_runLayer hblocks h
    exact .inl ⟨hrange, o, r', h⟩

/-- A block that ends within a run, loops on both sides of its end, and an empty block. -/
def partlyBatched : List Segment :=
  [.transfer (.row .load1d 1 1 0x1000 0 8), .block 3, .transfer (.row .load1d 1 1 0x1010 8 8),
    .loop (twoUnits 0x2000), .transfer (.row .load1d 1 1 0x1020 16 8), .loop (twoUnits 0x3000),
    .sync .dma, .compute { op := .add }, .block 0, .sync .both]
where
  twoUnits (hostAddr : UInt64) : TransferLoop := {
    clusterLen := 0, clusterShift := 0, unitLen := 1, unitShift := 1, innerLen := 0, localStep := 0
    hostStep := 64, count := 2, base := .row .load1d 1 1 hostAddr 32 8 }

theorem runLayer_dispatches_partlyBatched :
    let layer : Layer := { params := { kind := .add }, segments := partlyBatched }
    checkBlocks partlyBatched = .ok () ∧ ∃ stats es r', Succeeds (runLayer layer {}) {} stats r' ∧
      r'.transfers = (unroll partlyBatched).filterMap Segment.transfer? ∧
      r'.events = es ∧ es.filterMap Event.records? = [3, 0] ∧
      ∀ key n, (key, n) ∈ stats.segments.entries ↔
        n = partlyBatched.countP (·.key == key) ∧ 0 < n := by
  intro layer
  have hblocks : checkBlocks partlyBatched = .ok () := by decide
  refine ⟨hblocks, ?_⟩
  have hdynamic : layer.params.kind ≠ .dynamicAxis := by decide
  have hscatter : layer.params.kind ≠ .scatterToGrid := by decide
  rcases runLayer_dispatches_stream hdynamic hscatter hblocks {} {} with ⟨-, o, r', hfails⟩ | h
  · have hok : (((runLayer layer {}).run.run {}).run.1.isOk) = true := by decide +kernel
    rw [hfails] at hok
    cases hok
  · exact h

end CommandStream
