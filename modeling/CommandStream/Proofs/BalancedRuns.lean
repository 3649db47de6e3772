import CommandStream.Proofs.PipelineFaults
import CommandStream.Proofs.TurnOrder

/-! # Balanced runs

Balancing puts every eligible run of one direction into the order of turns and leaves all else where
it is. So markers see no difference, and balancing again changes nothing.
-/

namespace CommandStream

/-! ## Maximal runs -/

/-- The run is a part of the stream with transfers of one direction only, and the transfers next to
it, if there are any, have another direction. -/
structure MaximalRun (segments front : List Segment) (run : List Transfer) (back : List Segment) :
    Prop where
  split : segments = front ++ (run.map .transfer ++ back)
  nonempty : run ≠ []
  uniform : ∀ t ∈ run, ∀ u ∈ run, t.direction = u.direction
  front : ∀ t, front.getLast? = some (.transfer t) → ∀ u ∈ run, t.direction ≠ u.direction
  back : ∀ t, back.head? = some (.transfer t) → ∀ u ∈ run, u.direction ≠ t.direction

/-- A stream is empty, or starts with a segment that is no transfer or with a maximal run. -/
theorem runs_induction {P : List Segment → Prop} (nil : P [])
    (barrier : ∀ s rest, s.transfer? = none → P rest → P (s :: rest))
    (run : ∀ run rest, MaximalRun (run.map .transfer ++ rest) [] run rest → P rest →
      P (run.map .transfer ++ rest)) (segments : List Segment) : P segments := by
  -- along with `P`, the induction keeps the run that a further transfer would extend
  suffices h : P segments ∧ ∀ t, segments.head? = some (.transfer t) → ∃ run rest,
      MaximalRun segments [] (t :: run) rest ∧ P rest from h.1
  induction segments with
  | nil => exact ⟨nil, by simp⟩
  | cons s segments ih =>
    obtain ⟨hP, hrun⟩ := ih
    cases s with
    | transfer t =>
      have hextended : ∃ others rest, MaximalRun (.transfer t :: segments) [] (t :: others) rest ∧
          P rest := by
        have hsingle (happart : ∀ u, segments.head? = some (.transfer u) →
            t.direction ≠ u.direction) :
            MaximalRun (.transfer t :: segments) [] [t] segments := by
          refine ⟨rfl, by simp, by simp, by simp, ?_⟩
          intro u hu v hv
          rw [List.mem_singleton.mp hv]
          exact happart u hu
        by_cases hsame : ∃ u, segments.head? = some (.transfer u) ∧ t.direction = u.direction
        · obtain ⟨u, hu, hdirection⟩ := hsame
          obtain ⟨others, rest, hmax, hrest⟩ := hrun u hu
          have huniform : ∀ v ∈ t :: u :: others, v.direction = u.direction := by
            rw [List.forall_mem_cons]
            exact ⟨hdirection, fun v hv => hmax.uniform v hv u List.mem_cons_self⟩
          refine ⟨u :: others, rest, ⟨?_, by simp, ?_, by simp, ?_⟩, hrest⟩
          · exact congrArg (Segment.transfer t :: ·) hmax.split
          · intro v hv w hw
            rw [huniform v hv, huniform w hw]
          · intro v hv w hw
            rw [huniform w hw]
            exact hmax.back v hv u List.mem_cons_self
        · refine ⟨[], segments, hsingle fun u hu heq => hsame ⟨u, hu, heq⟩, hP⟩
      obtain ⟨others, rest, hmax, hrest⟩ := hextended
      constructor
      · have hsplit : Segment.transfer t :: segments = (t :: others).map .transfer ++ rest :=
          hmax.split
        rw [hsplit]
        exact run _ _ (hsplit ▸ hmax) hrest
      · rintro u ⟨⟩
        exact ⟨others, rest, hmax, hrest⟩
    | loop _ | compute _ | block _ | sync _ | padding _ | scatter _ =>
      exact ⟨barrier _ _ rfl hP, by simp⟩

section Balance

variable {segments front back : List Segment} {run : List Transfer} {loads : Bool}

theorem balance_append
    (h : RunsApart (fun a b => a.direction == b.direction) front back) :
    balance (front ++ back) loads = balance front loads ++ balance back loads := by
  unfold balance permuteRuns
  exact mapRuns_append _ h

theorem balance_barrier {s : Segment} (h : s.transfer? = none) (rest : List Segment) :
    balance (s :: rest) loads = s :: balance rest loads := by
  cases s with
  | transfer t => cases h
  | loop _ | compute _ | block _ | sync _ | padding _ | scatter _ => rfl

theorem MaximalRun.balance_eq (h : MaximalRun segments front run back) (loads : Bool) :
    balance segments loads = balance front loads ++
      ((balanceRun loads run).map .transfer ++ balance back loads) := by
  have hchain : run.IsChain fun a b => (a.direction == b.direction) = true := by
    apply List.Pairwise.isChain
    apply List.pairwise_of_forall_mem_list
    intro t ht u hu
    exact beq_iff_eq.mpr (h.uniform t ht u hu)
  have hrun : balance (run.map .transfer) loads = (balanceRun loads run).map .transfer := by
    unfold balance permuteRuns
    exact mapRuns_of_isChain _ h.nonempty hchain
  rw [h.split, balance_append, balance_append, hrun]
  · intro t u ht hu
    rw [List.getLast?_map] at ht
    obtain ⟨t, hlast, ⟨⟩⟩ := Option.map_eq_some_iff.mp ht
    exact beq_false_of_ne (h.back u hu t (List.mem_of_getLast? hlast))
  · intro t u ht hu
    apply beq_false_of_ne
    apply h.front t ht u
    obtain ⟨first, rest, hrun⟩ := List.exists_cons_of_ne_nil h.nonempty
    rw [hrun] at hu ⊢
    obtain ⟨⟩ := hu
    exact List.mem_cons_self

theorem balanceRun_eq_turnOrder (h : loads = true ∨ ∀ t ∈ run, t.isStore = true) :
    balanceRun loads run = turnOrder (·.cluster.toNat) run := by
  cases run with
  | nil => simp [balanceRun, turnOrder, withTurns, turnsBehind, sortOn]
  | cons t rest =>
    have hbalanced : t.balanced loads = true := by
      rcases h with rfl | h
      · rfl
      · simp [Transfer.balanced, h t List.mem_cons_self]
    rw [balanceRun, if_pos hbalanced, interleave_eq_turnOrder]

theorem balanceRun_eq_self (h : loads = false) (hrun : ∀ t ∈ run, t.isStore = false) :
    balanceRun loads run = run := by
  cases run with
  | nil => rfl
  | cons t rest => simp [balanceRun, Transfer.balanced, h, hrun t List.mem_cons_self]

theorem MaximalRun.balanceRun_balanceRun (h : MaximalRun segments front run back) (loads : Bool) :
    balanceRun loads (balanceRun loads run) = balanceRun loads run := by
  have hclass : ∀ t ∈ run, ∀ u ∈ run, t.isStore = u.isStore := by
    intro t ht u hu
    rw [Transfer.isStore, h.uniform t ht u hu, Transfer.isStore]
  by_cases hturns : loads = true ∨ ∀ t ∈ run, t.isStore = true
  · rw [balanceRun_eq_turnOrder hturns, balanceRun_eq_turnOrder, turnOrder_turnOrder]
    apply hturns.imp_right
    intro hstore t ht
    exact hstore t ((turnOrder_perm _ run).mem_iff.mp ht)
  · push Not at hturns
    obtain ⟨hloads, t, ht, hload⟩ := hturns
    have hself : balanceRun loads run = run := by
      apply balanceRun_eq_self (by simpa using hloads)
      intro u hu
      rw [hclass u hu t ht]
      simpa using hload
    rw [hself, hself]

theorem MaximalRun.balanced (h : MaximalRun (run.map .transfer ++ back) [] run back)
    (hback : ∀ t, (balance back loads).head? = some (.transfer t) →
      ∃ u, back.head? = some (.transfer u) ∧ u.direction = t.direction) :
    MaximalRun ((balanceRun loads run).map .transfer ++ balance back loads) []
      (balanceRun loads run) (balance back loads) := by
  have hperm := balanceRun_perm loads run
  constructor
  · rfl
  · intro hnil
    rw [hnil] at hperm
    exact h.nonempty hperm.nil_eq.symm
  · intro t ht u hu
    exact h.uniform t (hperm.mem_iff.mp ht) u (hperm.mem_iff.mp hu)
  · simp
  · intro t ht u hu
    obtain ⟨v, hv, hdirection⟩ := hback t ht
    rw [← hdirection]
    exact h.back v hv u (hperm.mem_iff.mp hu)

theorem balance_balance (segments : List Segment) (loads : Bool) :
    balance (balance segments loads) loads = balance segments loads := by
  -- what is put in front needs to know with which direction the balanced rest starts
  suffices h : balance (balance segments loads) loads = balance segments loads ∧
      ∀ t, (balance segments loads).head? = some (.transfer t) →
        ∃ u, segments.head? = some (.transfer u) ∧ u.direction = t.direction from h.1
  induction segments using runs_induction with
  | nil => exact ⟨rfl, fun t ht => nomatch ht⟩
  | barrier s rest hs ih =>
    rw [balance_barrier hs, balance_barrier hs, ih.1]
    refine ⟨rfl, ?_⟩
    rintro t ⟨⟩
    cases hs
  | run run rest hmax ih =>
    have hbalance : balance (run.map .transfer ++ rest) loads =
        (balanceRun loads run).map .transfer ++ balance rest loads := hmax.balance_eq loads
    rw [hbalance]
    constructor
    · rw [(hmax.balanced ih.2).balance_eq loads, hmax.balanceRun_balanceRun, ih.1]
      rfl
    · intro t ht
      have hperm := balanceRun_perm loads run
      obtain ⟨first, others, rfl⟩ := List.exists_cons_of_ne_nil hmax.nonempty
      refine ⟨first, rfl, hmax.uniform first List.mem_cons_self t ?_⟩
      obtain ⟨low, high, hlow⟩ := List.exists_cons_of_ne_nil (hmax.balanced ih.2).nonempty
      rw [hlow] at ht
      obtain ⟨⟩ := ht
      rw [← hperm.mem_iff, hlow]
      exact List.mem_cons_self

end Balance

/-! ## What stays at its place -/

section Places

variable {s : Segment}

theorem Segment.outline_eq_iff (h : s.transfer? = none) {u : Segment} : u.outline = s ↔ u = s := by
  cases u with
  | transfer t =>
    constructor
    · rintro rfl
      cases h
    · rintro rfl
      cases h
  | loop _ | compute _ | block _ | sync _ | padding _ | scatter _ => rfl

theorem getElem?_balance_iff (h : s.transfer? = none) (segments : List Segment) (loads : Bool)
    (i : Nat) : (balance segments loads)[i]? = some s ↔ segments[i]? = some s := by
  have houtline (a : List Segment) : (a.map Segment.outline)[i]? = some s ↔ a[i]? = some s := by
    simp only [List.getElem?_map, Option.map_eq_some_iff, Segment.outline_eq_iff h,
      exists_eq_right]
  rw [← houtline, map_outline_balance, houtline]

theorem fst_fillBlock_map_outline (stated filled : Nat) (segments : List Segment) :
    (fillBlock stated filled (segments.map Segment.outline)).1 =
      (fillBlock stated filled segments).1 := by
  induction segments generalizing filled with
  | nil => rfl
  | cons s rest ih =>
    have hsame : s.outline.isDma = s.isDma ∧ s.outline.records = s.records := by
      cases s <;> exact ⟨rfl, rfl⟩
    rw [List.map_cons, fillBlock, fillBlock, hsame.1, hsame.2]
    split
    · exact ih _
    · rfl

theorem checkBlocksFrom_map_outline (index : Nat) (segments : List Segment) :
    checkBlocksFrom index (segments.map Segment.outline) = checkBlocksFrom index segments := by
  induction segments generalizing index with
  | nil => rfl
  | cons s rest ih =>
    cases s with
    | block count =>
      have hbody := fst_fillBlock_map_outline count.toNat 0 rest
      change (do let _ ← blockBody index count (rest.map Segment.outline); checkBlocksFrom _ _) = _
      rw [checkBlocksFrom, ih, blockBody, blockBody]
      dsimp only
      rw [hbody]
      split <;> rfl
    | transfer _ | loop _ | compute _ | sync _ | padding _ | scatter _ => exact ih (index + 1)

theorem checkBlocks_balance (segments : List Segment) (loads : Bool) :
    checkBlocks (balance segments loads) = checkBlocks segments := by
  rw [checkBlocks, ← checkBlocksFrom_map_outline, map_outline_balance, checkBlocksFrom_map_outline,
    checkBlocks]

end Places

/-! ## The whole stream -/

structure TakesTurns (run mixed : List Transfer) : Prop where
  order : mixed = turnOrder (·.cluster.toNat) run
  perm : mixed.Perm run
  sameClusters : ∀ mask, mixed.filter (·.cluster = mask) = run.filter (·.cluster = mask)
  alternates : ∀ front t u back, mixed = front ++ t :: u :: back → t.cluster = u.cluster →
    ∀ v ∈ back, v.cluster = t.cluster

theorem takesTurns_turnOrder (run : List Transfer) :
    TakesTurns run (turnOrder (·.cluster.toNat) run) where
  order := rfl
  perm := turnOrder_perm _ run
  sameClusters mask := by
    simpa only [UInt32.toNat_inj] using filter_turnOrder (·.cluster.toNat) run mask.toNat
  alternates front t u back h hmask v hv :=
    UInt32.toNat_inj.mp (turnOrder_alternates h (congrArg UInt32.toNat hmask) v hv)

/-- Balancing mixes each maximal run of one direction by taking turns, loads only if asked for, and
leaves all else at its place. Markers are as consistent as before, and once is enough. -/
theorem balance_takes_turns (segments : List Segment) (loads : Bool) :
    (∀ (i : Nat) (s : Segment), s.transfer? = none →
      ((balance segments loads)[i]? = some s ↔ segments[i]? = some s)) ∧
    (∀ front run back, MaximalRun segments front run back →
      ∃ front' mixed back', balance segments loads = front' ++ (mixed.map .transfer ++ back') ∧
        front'.length = front.length ∧ back'.length = back.length ∧
        (loads = true ∨ (∀ t ∈ run, t.isStore = true) → TakesTurns run mixed) ∧
        (loads = false → (∀ t ∈ run, t.isStore = false) → mixed = run)) ∧
    checkBlocks (balance segments loads) = checkBlocks segments ∧
    balance (balance segments loads) loads = balance segments loads := by
  refine ⟨fun i s hs => getElem?_balance_iff hs segments loads i, ?_,
    checkBlocks_balance segments loads, balance_balance segments loads⟩
  intro front run back hmax
  have hlength (a : List Segment) : (balance a loads).length = a.length := by
    simpa using congrArg List.length (map_outline_balance a loads)
  refine ⟨balance front loads, balanceRun loads run, balance back loads, hmax.balance_eq loads,
    hlength front, hlength back, ?_, balanceRun_eq_self⟩
  intro hturns
  rw [balanceRun_eq_turnOrder hturns]
  exact takesTurns_turnOrder run

def clusterByCluster : List Transfer :=
  [.row .store1d 1 1 0x100 0 8, .row .store1d 1 1 0x200 8 8, .row .store1d 1 1 0x300 16 8,
    .row .store1d 1 1 0x400 24 8, .row .store1d 2 1 0x500 0 8]

def unbalanced : List Segment :=
  [.block 6, .transfer (.row .load1d 2 1 0 0 8)] ++
    (clusterByCluster.map .transfer ++ [.sync .dma])

/-- The stores go to both clusters as long as there are stores for both. -/
theorem balance_takes_turns_unbalanced :
    MaximalRun unbalanced [.block 6, .transfer (.row .load1d 2 1 0 0 8)] clusterByCluster
      [.sync .dma] ∧
    ∃ front' back', front'.length = 2 ∧ balance unbalanced false =
      front' ++ ([.row .store1d 1 1 0x100 0 8, .row .store1d 2 1 0x500 0 8,
        .row .store1d 1 1 0x200 8 8, .row .store1d 1 1 0x300 16 8,
        .row .store1d 1 1 0x400 24 8].map .transfer ++ back') := by
  have hmax : MaximalRun unbalanced [.block 6, .transfer (.row .load1d 2 1 0 0 8)]
      clusterByCluster [.sync .dma] := by
    refine ⟨rfl, by decide, by decide, ?_, ?_⟩
    · rintro t ⟨⟩
      decide
    · rintro t ⟨⟩
  obtain ⟨-, hruns, -, -⟩ := balance_takes_turns unbalanced false
  obtain ⟨front', mixed, back', hout, hfront, -, hturns, -⟩ := hruns _ _ _ hmax
  have horder : turnOrder (·.cluster.toNat) clusterByCluster = [.row .store1d 1 1 0x100 0 8,
      .row .store1d 2 1 0x500 0 8, .row .store1d 1 1 0x200 8 8, .row .store1d 1 1 0x300 16 8,
      .row .store1d 1 1 0x400 24 8] := by
    rw [turnOrder, sortOn_eq_insertionSort (turnKey _) fun _ _ => rfl]
    decide +kernel
  rw [(hturns (.inr (by decide))).order, horder] at hout
  exact ⟨hmax, front', back', hfront, hout⟩

end CommandStream
