import CommandStream.Proofs.CommandEvents

/-! # Extents of point-pillar commands

The extent of a command is held in two registers. A block moves the second into the first and fills
the second from its own rows, and selecting masks overwrites the first. Seen from a command, only
the last block or mask selection before it counts, and a block stands for the rows of the block
before it. Each segment keeps the registers in agreement with this law, so the kernels of a run
carry the extents that it gives.
-/

namespace CommandStream

/-! ## The law -/

def blockBodies : List Segment → List (List Segment)
  | [] => []
  | .block count :: rest => (fillBlock count.toNat 0 rest).2 :: blockBodies rest
  | _ :: rest => blockBodies rest

def widestRow (body : List Segment) : Nat :=
  ((body.flatMap Segment.transfers).map (·.width.toNat)).max?.getD 0

/-- The extent behind some segments, given from the last one to the first. Masks select their point
count, and a block selects the widest row of the block before it. -/
def extentBehind (points : List UInt16) (bodies : List (List Segment)) : List Segment → Nat
  | [] => 0
  | .compute c :: before =>
    if c.op = .setMasks then (points.getD c.offset.toNat 0).toNat - 1
    else extentBehind points bodies before
  | .block _ :: before => widestRow (([] :: bodies).getD (before.countP Segment.isBlock) []) - 1
  | _ :: before => extentBehind points bodies before

/-- The extent of a command that stands at index `i` of a stream. -/
def extentAt (points : List UInt16) (stream : List Segment) (i : Nat) : Nat :=
  extentBehind points (blockBodies stream) (stream.take i).reverse

def Compute.withExtent (c : Compute) (hw : Hardware) (extent : Nat) : Compute :=
  if c.op = .conv1dStart ∨ c.op = .conv1dAdd ∨ c.op = .reluPoolScatter then
    { c with
      zEnd := UInt16.ofNat extent
      nops := UInt8.ofNat (min 255 (hw.writeReadBubble.toNat - extent)) }
  else c

def Context.kernels (ctx : Context) (p : LayerParams) (c : Compute) : List Kernel :=
  ((ctx.commandEvents p c).filterMap Event.call?).map (·.kernel)

def Layer.launches (layer : Layer) (hw : Hardware) (points : List UInt16) : List KernelCall :=
  match Context.ofLayer layer.params hw with
  | .error _ => []
  | .ok ctx => (layer.segments.mapIdx fun i s => s.compute?.toList.flatMap fun c =>
      (ctx.kernels layer.params c).map fun kernel =>
        { kernel, cmd := c.withExtent hw (extentAt points layer.segments i)
          compensate := ctx.compensate }).flatten

/-! ## Widths of rows -/

theorem toNat_longestRow (body : List Segment) : (longestRow body).toNat = widestRow body := by
  have hfold : ∀ (ts : List Transfer) (longest : UInt16),
      (ts.foldl (fun longest t => max longest t.width) longest).toNat =
        max longest.toNat ((ts.map (·.width.toNat)).max?.getD 0) := by
    intro ts
    induction ts with
    | nil => intro longest; simp
    | cons t ts ih =>
      intro longest
      have hmax : (max longest t.width).toNat = max longest.toNat t.width.toNat :=
        apply_ite UInt16.toNat _ _ _
      rw [List.foldl_cons, ih, hmax, List.map_cons, List.max?_cons]
      cases (ts.map (·.width.toNat)).max? <;> simp [Nat.max_assoc]
  unfold longestRow widestRow
  rw [hfold]
  exact Nat.zero_max _

theorem toNat_ofPoints (points : UInt16) : (Extent.ofPoints points).toNat = points.toNat - 1 := by
  have hlt : points.toNat - 1 < 2 ^ 16 := (Nat.sub_le _ _).trans_lt points.toNat_lt
  exact UInt16.toNat_ofNat_of_lt' hlt

theorem widestRow_lt (body : List Segment) : widestRow body < 2 ^ 16 := by
  rw [← toNat_longestRow]
  exact UInt16.toNat_lt _

theorem extentBehind_lt (points : List UInt16) (bodies : List (List Segment))
    (before : List Segment) : extentBehind points bodies before < 2 ^ 16 := by
  fun_induction extentBehind points bodies before with
  | case1 => decide
  | case2 c before hop => exact (Nat.sub_le _ _).trans_lt (UInt16.toNat_lt _)
  | case3 c before hop ih => exact ih
  | case4 count before => exact (Nat.sub_le _ _).trans_lt (widestRow_lt _)
  | case5 s before hcompute hblock ih => exact ih

/-! ## The registers -/

/-- The registers hold what the law gives behind the front of a stream. -/
structure Extent.Follows (e : Extent) (points : List UInt16) (stream front : List Segment) :
    Prop where
  current : e.current.toNat = extentBehind points (blockBodies stream) front.reverse
  next : e.next.toNat =
    widestRow (([] :: blockBodies stream).getD (front.countP Segment.isBlock) []) - 1

theorem drop_blockBodies (front rest : List Segment) :
    (blockBodies (front ++ rest)).drop (front.countP Segment.isBlock) = blockBodies rest := by
  induction front with
  | nil => rfl
  | cons s front ih =>
    cases s with
    | block count =>
      rw [List.countP_cons_of_pos rfl]
      exact ih
    | transfer _ | loop _ | compute _ | sync _ | padding _ | scatter _ =>
      rw [List.countP_cons_of_neg Bool.false_ne_true]
      exact ih

namespace Extent.Follows

variable {e : Extent} {points : List UInt16} {stream front rest : List Segment} {ctx : Context}

theorem init (points : List UInt16) (stream : List Segment) :
    ({} : Extent).Follows points stream [] :=
  ⟨rfl, rfl⟩

theorem other (h : e.Follows points stream front) {s : Segment} (hcompute : s.compute? = none)
    (hblock : s.isBlock = false) : e.Follows points stream (front ++ [s]) := by
  constructor
  · rw [h.current, List.reverse_concat]
    cases s with
    | compute c => cases hcompute
    | block count => cases hblock
    | transfer _ | loop _ | sync _ | padding _ | scatter _ => rfl
  · rw [h.next, List.countP_append, List.countP_singleton, hblock]
    rfl

theorem compute (h : e.Follows points stream front) (c : Compute) :
    (Context.extentAfter e points c).Follows points stream (front ++ [.compute c]) := by
  have hnext :
      (front ++ [Segment.compute c]).countP Segment.isBlock = front.countP Segment.isBlock := by
    rw [List.countP_append]
    rfl
  unfold Context.extentAfter
  split
  · rename_i hop
    constructor
    · rw [List.reverse_concat, extentBehind, if_pos hop]
      exact toNat_ofPoints _
    · rw [hnext]
      exact h.next
  · rename_i hop
    constructor
    · rw [List.reverse_concat, extentBehind, if_neg hop]
      exact h.current
    · rw [hnext]
      exact h.next

theorem block {count : UInt32} (h : e.Follows points (front ++ .block count :: rest) front)
    (hkind : ctx.kind = .pointPillars) :
    (ctx.extentAtBlock e (fillBlock count.toNat 0 rest).2).Follows points
      (front ++ .block count :: rest) (front ++ [.block count]) := by
  have hbody : (blockBodies (front ++ .block count :: rest)).getD (front.countP Segment.isBlock) []
      = (fillBlock count.toNat 0 rest).2 := by
    have hdrop := drop_blockBodies front (.block count :: rest)
    rw [List.getD_eq_getElem?_getD, ← List.head?_drop, hdrop]
    rfl
  rw [Context.extentAtBlock, if_pos hkind, Extent.advance]
  constructor
  · rw [List.reverse_concat, extentBehind, List.countP_reverse]
    exact h.next
  · rw [List.countP_append, List.countP_cons_of_pos rfl, List.countP_nil, List.getD_cons_succ,
      hbody, toNat_ofPoints, toNat_longestRow]

theorem resolve_eq (h : e.Follows points stream front) (hkind : ctx.kind = .pointPillars)
    {hw : Hardware} (hbubble : ctx.writeReadBubble = hw.writeReadBubble.toNat) (c : Compute) :
    ctx.resolve e c =
      c.withExtent hw (extentBehind points (blockBodies stream) front.reverse) := by
  rw [← h.current, Context.resolve, Compute.withExtent, hbubble, UInt16.ofNat_toNat]
  simp only [Context.isDynamic, hkind, decide_true, Bool.true_and, Bool.or_eq_true,
    decide_eq_true_eq, or_assoc]

end Extent.Follows

/-- The commands of a stream have the extents of their places. -/
theorem flatMap_commands {β : Type} (g : Compute → List β) {ctx : Context} {hw : Hardware}
    (hkind : ctx.kind = .pointPillars) (hbubble : ctx.writeReadBubble = hw.writeReadBubble.toNat)
    {points : List UInt16} {e : Extent} {stream front rest : List Segment}
    (hstream : stream = front ++ rest) (h : e.Follows points stream front) :
    (ctx.commands points e rest).flatMap g =
      (rest.mapIdx fun i s => s.compute?.toList.flatMap fun c =>
        g (c.withExtent hw (extentAt points stream (front.length + i)))).flatten := by
  induction rest generalizing front e with
  | nil => rfl
  | cons s rest ih =>
    have hnext : ∀ e', e'.Follows points stream (front ++ [s]) →
        (ctx.commands points e' rest).flatMap g =
          (rest.mapIdx fun i s => s.compute?.toList.flatMap fun c =>
            g (c.withExtent hw (extentAt points stream (front.length + (i + 1))))).flatten := by
      intro e' h'
      have hrest := ih (by rw [hstream, List.append_cons]) h'
      simpa only [List.length_append, List.length_singleton, Nat.add_assoc, Nat.add_comm 1]
        using hrest
    rw [List.mapIdx_cons, List.flatten_cons]
    cases s with
    | compute c =>
      have hextent : extentAt points stream (front.length + 0) =
          extentBehind points (blockBodies stream) front.reverse := by
        rw [extentAt, hstream, Nat.add_zero, List.take_left]
      rw [Context.commands, List.flatMap_cons, hnext _ (h.compute c), h.resolve_eq hkind hbubble,
        ← hextent]
      exact congrArg (· ++ _) (List.append_nil _).symm
    | block count =>
      subst hstream
      exact hnext _ (h.block hkind)
    | transfer _ | loop _ | sync _ | padding _ | scatter _ => exact hnext _ (h.other rfl rfl)

/-! ## Kernels -/

namespace Context

variable (ctx : Context) (p : LayerParams) (c : Compute)

theorem calls_commandEvents :
    (ctx.commandEvents p c).filterMap Event.call? = (ctx.kernels p c).map fun kernel =>
      { kernel, cmd := c, compensate := ctx.compensate } := by
  have hprimitives : ∀ q ∈ ctx.primitives p c, ∀ e ∈ q.events, ∀ call, e.call? = some call →
      { kernel := call.kernel, cmd := c, compensate := ctx.compensate } = call := by
    refine ctx.forall_mem_primitives p c ?_ ?_ ?_ ?_
    · simp [Primitive.events, Event.call?]
    · simp [Primitive.events, Event.call?]
    · simp [Primitive.events, Event.call?]
    · simp [Context.call, Primitive.events, Event.call?]
  have hcalls : ∀ call ∈ (ctx.commandEvents p c).filterMap Event.call?,
      { kernel := call.kernel, cmd := c, compensate := ctx.compensate } = call := by
    intro call hcall
    obtain ⟨e, he, hcall⟩ := List.mem_filterMap.mp hcall
    obtain ⟨q, hq, he⟩ := List.mem_flatMap.mp he
    exact hprimitives q hq e he call hcall
  rw [kernels, List.map_map]
  exact ((List.map_congr_left hcalls).trans (List.map_id' _)).symm

theorem kernels_withExtent (hw : Hardware) (extent : Nat) :
    ctx.kernels p (c.withExtent hw extent) = ctx.kernels p c := by
  have hidle : ∀ c, ((idle c).flatMap Primitive.events).filterMap Event.call? = [] := by
    intro c
    unfold idle
    split <;> rfl
  unfold Compute.withExtent
  split
  · rename_i hop
    rcases hop with hop | hop | hop
    · simp [kernels, commandEvents, primitives, hop, biasLoads, kernelLoads, call, Primitive.events,
        Event.call?]
    · simp [kernels, commandEvents, primitives, hop, call, Primitive.events, Event.call?]
    · simp [kernels, commandEvents, primitives, hop, hidle, call, Primitive.events, Event.call?]
  · rfl

end Context

/-- The plan of a point-pillar layer launches its kernels with the extents of the law. -/
theorem Layer.picks_launches {layer : Layer} (hkind : layer.params.kind = .pointPillars)
    (hw : Hardware) (points : List UInt16) :
    (layer.plan hw points).Picks Event.call? (layer.launches hw points) := by
  have hwalks : layer.params.kind.bypassesStream = false := by
    rw [hkind]
    rfl
  unfold launches
  cases hctx : Context.ofLayer layer.params hw with
  | error o =>
    rw [layer.plan_of_error hwalks hctx]
    exact ⟨List.prefix_rfl, fun h => absurd h (Option.some_ne_none _)⟩
  | ok ctx =>
    obtain ⟨points', hpoints, hpicks⟩ := layer.exists_picks_plan (fun _ => id) hwalks hctx points
    obtain rfl := hpoints hkind
    have hserves := Context.ofLayer_eq_ok_iff.mp hctx
    rw [flatMap_commands _ (hserves.kind.trans hkind) hserves.writeReadBubble
      (List.nil_append layer.segments).symm
      (Extent.Follows.init points' layer.segments)] at hpicks
    simpa only [ctx.calls_commandEvents, ctx.kernels_withExtent, List.length_nil, Nat.zero_add]
      using hpicks

/-- A point-pillar layer launches its kernels with the extents that the last block or mask selection
before each command gives, up to where a number leaves its word, if one does. -/
theorem runLayer_point_pillar_extents {layer : Layer}
    (hkind : layer.params.kind = .pointPillars) (hblocks : checkBlocks layer.segments = .ok ())
    (hw : Hardware) (r : Recorder) :
    ∃ es, (leaves (runLayer layer hw) r).events = r.events ++ es ∧
      (∀ i, extentAt r.pillarPoints layer.segments i < 2 ^ 16) ∧
      es.filterMap Event.call? <+: layer.launches hw r.pillarPoints ∧
      ((¬layer.InRange hw r ∧ ∃ o r', Fails (runLayer layer hw) r (.overflow o) r') ∨
        ((∃ stats r', Succeeds (runLayer layer hw) r stats r') ∧
          es.filterMap Event.call? = layer.launches hw r.pillarPoints)) := by
  obtain ⟨es, hevents, hfront, hall⟩ := exists_log_runLayer layer hw r
  have hpicks := layer.picks_launches hkind hw r.pillarPoints
  refine ⟨es, hevents, fun i => extentBehind_lt _ _ _, (hfront.filterMap _).trans hpicks.front, ?_⟩
  rcases succeeds_or_fails (runLayer layer hw) r with ⟨stats, r', h⟩ | ⟨e, r', h⟩
  · have hfailure := (succeeds_carryOut_iff.mp (succeeds_runLayer_iff.mp h).1).1
    exact .inr ⟨⟨stats, r', h⟩, by rw [hall stats r' h, hpicks.all hfailure]⟩
  · obtain ⟨⟨o, rfl⟩, hrange⟩ := overflow_of_fails_runLayer hblocks h
    exact .inl ⟨hrange, o, r', h⟩

/-- Blocks with a loop, with one row and without any, masks in between, and an index without a point
count. -/
def pillarLayer : Layer where
  params := { kind := .pointPillars }
  segments :=
    [.compute { op := .conv1dStart, zEnd := 9 },
      .block 3, .transfer (.row .load1d 1 1 0x1000 0 8), .loop twoUnits,
      .compute { op := .conv1dAdd, zEnd := 9 },
      .block 0, .compute { op := .conv1dAdd, zEnd := 9 },
      .compute { op := .setMasks, offset := 1 }, .compute { op := .reluPoolScatter, zEnd := 9 },
      .block 1, .transfer (.row .load1d 1 1 0x2000 0 16),
      .compute { op := .reluPoolScatter, zEnd := 9 }, .compute { op := .shiftStore, zEnd := 9 },
      .block 0, .compute { op := .conv1dAdd, zEnd := 9 },
      .compute { op := .setMasks, offset := 2 }, .compute { op := .conv1dAdd, zEnd := 9 }]
where
  twoUnits : TransferLoop := {
    clusterLen := 0, clusterShift := 0, unitLen := 1, unitShift := 1, innerLen := 0, localStep := 0
    hostStep := 64, count := 2, base := .row .load1d 1 1 0x1010 8 24 }

theorem runLayer_point_pillar_extents_pillarLayer :
    checkBlocks pillarLayer.segments = .ok () ∧
      ∃ es, (leaves (runLayer pillarLayer {}) { pillarPoints := [3, 5] }).events = es ∧
        ((es.filterMap Event.call?).filter (·.kernel = .conv1dAdd)).map (·.cmd.zEnd) =
          [0, 23, 15, 0] ∧
        ((es.filterMap Event.call?).filter (·.kernel = .poolScatter)).map (·.cmd.zEnd) = [4, 0] ∧
        ((es.filterMap Event.call?).filter (·.kernel = .shiftStore)).map (·.cmd.zEnd) = [9] := by
  have hblocks : checkBlocks pillarLayer.segments = .ok () := by decide
  refine ⟨hblocks, ?_⟩
  obtain ⟨es, hevents, -, -, ⟨-, o, r', hfails⟩ | ⟨-, hcalls⟩⟩ :=
    runLayer_point_pillar_extents rfl hblocks {} { pillarPoints := [3, 5] }
  · have hok : ((runLayer pillarLayer {}).run.run { pillarPoints := [3, 5] }).run.1.isOk = true :=
      by decide +kernel
    rw [hfails] at hok
    cases hok
  · refine ⟨es, hevents, ?_⟩
    rw [hcalls]
    decide +kernel

end CommandStream
