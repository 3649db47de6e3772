import CommandStream.Proofs.PartialLogs

/-! # Commands of a run

The kernels of a run are those of its commands, each command taken with the extent in effect where
it stands. So what is picked from the kernels of a run is picked from the commands of its stream, one
after the other, and a run that ends early has the front of it.
-/

namespace CommandStream

variable {β : Type} {ctx : Context} {p : LayerParams} {points : List UInt16}

/-! ## Commands -/

namespace Context

def setupEvents (ctx : Context) (p : LayerParams) : List Event :=
  .pad p.pad :: ctx.setup.map .config

def commandEvents (ctx : Context) (p : LayerParams) (c : Compute) : List Event :=
  (ctx.primitives p c).flatMap Primitive.events

/-- The commands of a stream, each with the extent in effect where it stands. -/
def commands (ctx : Context) (points : List UInt16) : Extent → List Segment → List Compute
  | _, [] => []
  | e, .block count :: rest =>
    ctx.commands points (ctx.extentAtBlock e (fillBlock count.toNat 0 rest).2) rest
  | e, .compute c :: rest => ctx.resolve e c :: ctx.commands points (extentAfter e points c) rest
  | e, _ :: rest => ctx.commands points e rest

theorem call?_of_mem_setupEvents {e : Event} (h : e ∈ ctx.setupEvents p) : e.call? = none := by
  rcases List.mem_cons.mp h with rfl | hmem
  · rfl
  · obtain ⟨setting, -, rfl⟩ := List.mem_map.mp hmem
    rfl

theorem op_resolve (ctx : Context) (e : Extent) (c : Compute) : (ctx.resolve e c).op = c.op := by
  unfold resolve
  split <;> rfl

theorem commands_cons_of_isDma {s : Segment} (h : s.isDma = true) (e : Extent)
    (rest : List Segment) : ctx.commands points e (s :: rest) = ctx.commands points e rest := by
  cases s <;> first | rfl | cases h

theorem filter_commands {q : Compute → Bool} (hq : ∀ c, q c = true → ctx.isDynamic c.op = false)
    (e : Extent) (segments : List Segment) :
    (ctx.commands points e segments).filter q =
      (segments.filterMap Segment.compute?).filter q := by
  have hresolve : ∀ e c, [ctx.resolve e c].filter q = [c].filter q := by
    intro e c
    cases hdynamic : ctx.isDynamic c.op with
    | false => simp [resolve, hdynamic]
    | true =>
      have hnone : ∀ d : Compute, d.op = c.op → ¬q d = true := by
        intro d hop hd
        rw [← hop, hq d hd] at hdynamic
        cases hdynamic
      simp [hnone c rfl, hnone _ (ctx.op_resolve e c)]
  fun_induction commands ctx points e segments with
  | case1 => rfl
  | case2 e count rest ih => exact ih
  | case3 e c rest ih =>
    rw [← List.singleton_append, List.filter_append, ih, hresolve, ← List.filter_append]
    rfl
  | case4 e s rest hblock hcompute ih =>
    rw [List.filterMap_cons_none, ih]
    cases s <;> first | rfl | exact absurd rfl (hcompute _)

end Context

/-! ## Plans -/

/-- What is picked from the events of a plan is the given list, or the front of it if the plan ends
with a failure. -/
structure Plan.Picks (plan : Plan) (f : Event → Option β) (picked : List β) : Prop where
  front : plan.events.filterMap f <+: picked
  all : plan.failure = none → plan.events.filterMap f = picked

namespace Plan.Picks

variable {plan : Plan} {f : Event → Option β} {picked : List β}

theorem after (h : plan.Picks f picked) (first : List Primitive) :
    (plan.after first).Picks f ((first.flatMap Primitive.events).filterMap f ++ picked) := by
  constructor
  · rw [events_after, List.filterMap_append]
    exact (List.prefix_append_right_inj _).mpr h.front
  · intro hfailure
    rw [events_after, List.filterMap_append, h.all hfailure]

theorem counting (h : plan.Picks f picked) (segments : List Segment) :
    (plan.counting segments).Picks f picked :=
  ⟨by rw [events_counting]; exact h.front, fun hfailure => by rw [events_counting, h.all hfailure]⟩

theorem after_of_idle (h : plan.Picks f picked) (q : Primitive)
    (hq : ∀ e ∈ q.events, f e = none) : (plan.after [q]).Picks f picked := by
  have hevents := h.after [q]
  rwa [List.flatMap_singleton, List.filterMap_eq_nil_iff.mpr hq, List.nil_append] at hevents

end Plan.Picks

theorem snd_fillBlock_of_blockBody {index : Nat} {count : UInt32} {rest body : List Segment}
    (h : blockBody index count rest = .ok body) : (fillBlock count.toNat 0 rest).2 = body := by
  unfold blockBody at h
  dsimp only at h
  split at h
  · exact Except.ok.inj h
  · cases h

theorem picks_planFrom {f : Event → Option β} (hkernels : ∀ e, e.call? = none → f e = none)
    {index fetched : Nat} {e : Extent} {segments : List Segment}
    (hfetched : ∀ s ∈ segments.take fetched, s.isDma = true) :
    (planFrom ctx p points index fetched e segments).Picks f
      ((ctx.commands points e segments).flatMap fun c => (ctx.commandEvents p c).filterMap f) := by
  have hone : ∀ e : Event, e.call? = none → ∀ e' ∈ [e], f e' = none :=
    fun e he => List.forall_mem_singleton.mpr (hkernels e he)
  have hissue : ∀ s : Segment, ∀ e ∈ (Primitive.dmaIssue s).events, f e = none := by
    intro s e he
    obtain ⟨t, -, rfl⟩ := List.mem_map.mp he
    exact hkernels _ rfl
  fun_induction planFrom ctx p points index fetched e segments with
  | case1 => exact ⟨List.prefix_rfl, fun _ => rfl⟩
  | case2 index fetched e s rest ih =>
    rw [List.take_succ_cons, List.forall_mem_cons] at hfetched
    rw [Context.commands_cons_of_isDma hfetched.1]
    exact ih hfetched.2
  | case3 index e rest count fault hbody =>
    exact ⟨List.prefix_append [] _, fun h => absurd h (Option.some_ne_none _)⟩
  | case4 index e rest count body hbody ih =>
    obtain ⟨hfront, hdma⟩ := blockBody_eq_ok hbody
    have hrest := ih (by rwa [← List.prefix_iff_eq_take.mp hfront])
    rw [Context.commands, snd_fillBlock_of_blockBody hbody]
    exact (hrest.after_of_idle (.dmaBlock body) (hone _ rfl)).counting _
  | case5 index e rest t ih =>
    exact ((ih (by simp)).after_of_idle _ (hissue (.transfer t))).counting _
  | case6 index e rest l ih => exact ((ih (by simp)).after_of_idle _ (hissue (.loop l))).counting _
  | case7 index e rest c ih => exact ((ih (by simp)).after _).counting _
  | case8 index e rest kind ih =>
    exact ((ih (by simp)).after_of_idle (.wait kind) (hone _ rfl)).counting _
  | case9 index e rest widths ih =>
    exact ((ih (by simp)).after_of_idle (.setPad widths) (hone _ rfl)).counting _
  | case10 index e rest s ih => exact (ih (by simp)).counting _

/-! ## Layers -/

/-- The events of a layer are those of its setup and then those of its stream. -/
theorem Layer.exists_stream_plan {layer : Layer} {hw : Hardware}
    (hwalks : layer.params.kind.bypassesStream = false)
    (hctx : Context.ofLayer layer.params hw = .ok ctx) (points : List UInt16) :
    ∃ points', (layer.params.kind = .pointPillars → points' = points) ∧
      (layer.plan hw points).failure =
        (planFrom ctx layer.params points' 0 0 {} layer.segments).failure ∧
      (layer.plan hw points).events = ctx.setupEvents layer.params ++
        (planFrom ctx layer.params points' 0 0 {} layer.segments).events := by
  rw [layer.plan_of_ok hwalks hctx, Plan.events_after]
  refine ⟨_, fun hkind => if_pos hkind, rfl, ?_⟩
  rw [Context.setupEvents, List.flatMap_cons, List.flatMap_map, List.map_eq_flatMap]
  rfl

theorem Layer.exists_picks_plan {layer : Layer} {hw : Hardware} {f : Event → Option β}
    (hkernels : ∀ e, e.call? = none → f e = none)
    (hwalks : layer.params.kind.bypassesStream = false)
    (hctx : Context.ofLayer layer.params hw = .ok ctx) (points : List UInt16) :
    ∃ points', (layer.params.kind = .pointPillars → points' = points) ∧
      (layer.plan hw points).Picks f ((ctx.commands points' {} layer.segments).flatMap
        fun c => (ctx.commandEvents layer.params c).filterMap f) := by
  obtain ⟨points', hpoints, hfailure, hevents⟩ := layer.exists_stream_plan hwalks hctx points
  have hsetup : (ctx.setupEvents layer.params).filterMap f = [] :=
    List.filterMap_eq_nil_iff.mpr fun e he => hkernels e (Context.call?_of_mem_setupEvents he)
  have hstream : (planFrom ctx layer.params points' 0 0 {} layer.segments).Picks f _ :=
    picks_planFrom hkernels (by simp)
  refine ⟨points', hpoints, ?_, fun hnone => ?_⟩
  · rw [hevents, List.filterMap_append, hsetup]
    exact hstream.front
  · rw [hevents, List.filterMap_append, hsetup]
    exact hstream.all (hfailure ▸ hnone)

end CommandStream
