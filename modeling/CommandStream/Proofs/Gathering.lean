import CommandStream.Proofs.PipelineMeaning
import CommandStream.Proofs.Placement

/-! # Gathering transfers

Merging and batching are the passes that make new transfers: they cut off tails, turn rectangles
into rows, broadcast, and join. What these steps keep, both passes carry along; joining has to be
asked about only if something was joined.
-/

namespace CommandStream

variable {P : PadWidths → Segment → Prop}

/-! ## What the steps do to a transfer -/

namespace Transfer

variable {a b joined : Transfer}

theorem startOfJoin_shape {whole : Transfer} (h : startOfJoin a b whole = .ok (some joined)) :
    joined.direction = whole.direction ∧ joined.target = whole.target ∧
      joined.width = whole.width ∧ joined.height = whole.height := by
  rcases startOfJoin_cases h with ⟨-, rfl⟩ | ⟨-, rfl⟩
  · exact ⟨rfl, rfl, rfl, rfl⟩
  · exact ⟨rfl, rfl, rfl, rfl⟩

theorem joinRow_shape (h : joinRow a b = .ok (some joined)) :
    a.isRect = false ∧ joined.direction = a.direction ∧ joined.target = a.target ∧
      joined.width.toNat = a.width.toNat + b.width.toNat ∧ joined.height = a.height ∧
      joined.skipped = 0 := by
  obtain ⟨hrect, hsame, hsum, hstart⟩ := joinRow_eq_some h
  obtain ⟨-, -, hnone, -⟩ := sameTarget_iff.mp hsame
  obtain ⟨hdirection, htarget, hwidth, hheight⟩ := startOfJoin_shape hstart
  exact ⟨hrect, hdirection, htarget, by rw [hwidth, hsum], hheight, (skipped_joinRow h).trans hnone⟩

theorem joinRect_shape (h : joinRect a b = .ok (some joined)) :
    joined.direction = a.direction ∧ joined.target = a.target ∧ joined.width = a.width ∧
      joined.height.toNat = a.height.toNat + b.height.toNat ∧ joined.skipped = 0 := by
  obtain ⟨-, hsame, -, -, hsum, hstart⟩ := joinRect_eq_some h
  obtain ⟨-, -, hnone, -⟩ := sameTarget_iff.mp hsame
  obtain ⟨hdirection, htarget, hwidth, hheight⟩ := startOfJoin_shape hstart
  exact ⟨hdirection, htarget, hwidth, by rw [hheight, hsum], (skipped_joinRect h).trans hnone⟩

theorem trimSegment_eq_transfer {t : Transfer} {s : Segment} {index : Nat}
    (h : Merging.trimSegment (.transfer t, index) = .ok s) :
    ∃ u : Transfer, s = .transfer u ∧ u.direction = t.direction ∧ u.target = t.target ∧
      u.width.toNat = t.width.toNat - t.skipped.toNat ∧ u.height = t.height ∧ u.skipped = 0 ∧
      (t.isRect = true → t.skipped = 0) := by
  rw [Merging.trimSegment] at h
  split at h
  · rename_i h0
    exact ⟨t, (Except.ok.inj h).symm, rfl, rfl, by simp [h0], rfl, h0, fun _ => h0⟩
  · split at h
    · cases h
    · rename_i hr
      have hlt : t.width.toNat - t.skipped.toNat < 65536 := by have := t.width.toNat_lt; omega
      exact ⟨_, (Except.ok.inj h).symm, rfl, rfl, UInt16.toNat_ofNat_of_lt' hlt, rfl, rfl,
        fun h => absurd h hr⟩

end Transfer

/-! ## Merging -/

structure ReshapeInvariant (P : PadWidths → Segment → Prop) : Prop where
  flatten : ∀ {pad t} maxElements, P pad (.transfer t) →
    P pad (Merging.flattenSegment maxElements (.transfer t))
  trim : ∀ {pad t s index}, Merging.trimSegment (.transfer t, index) = .ok s →
    P pad (.transfer t) → P pad s

structure JoinInvariant (P : PadWidths → Segment → Prop) : Prop where
  row : ∀ {pad a b joined}, Transfer.joinRow a b = .ok (some joined) →
    P pad (.transfer a) → P pad (.transfer b) → P pad (.transfer joined)
  rect : ∀ {pad a b joined}, Transfer.joinRect a b = .ok (some joined) →
    P pad (.transfer a) → P pad (.transfer b) → P pad (.transfer joined)

theorem kept_of_absorbed_nil {ε : Type} {join : Transfer → Transfer → Except ε (Option Transfer)}
    {pending : Option Transfer} {segments : List Segment} {out : Absorbed}
    (h : absorbWith join pending segments = .ok out) (hnone : out.absorbed = []) :
    out.kept = pending.toList.map .transfer ++ segments := by
  induction segments generalizing pending out with
  | nil =>
    rw [absorbWith, pure_eq_ok_iff] at h
    rw [← h, List.append_nil]
  | cons s rest ih =>
    cases hst : s.transfer? with
    | none =>
      rw [absorbWith_barrier hst, bind_eq_ok_iff] at h
      obtain ⟨out', h', hout⟩ := h
      rw [← pure_eq_ok_iff.mp hout] at hnone ⊢
      simpa using ih h' hnone
    | some t =>
      obtain rfl := Segment.transfer?_eq_some_iff.mp hst
      cases pending with
      | none => exact ih h hnone
      | some last =>
        rw [absorbWith, bind_eq_ok_iff] at h
        obtain ⟨joined?, hj, h⟩ := h
        cases joined? with
        | none =>
          obtain ⟨out', h', hout⟩ := bind_eq_ok_iff.mp h
          rw [← pure_eq_ok_iff.mp hout] at hnone ⊢
          simpa using ih h' hnone
        | some joined =>
          obtain ⟨out', h', hout⟩ := bind_eq_ok_iff.mp h
          rw [← pure_eq_ok_iff.mp hout] at hnone
          cases hnone

theorem Carries.absorb {ε : Type} {join : Transfer → Transfer → Except ε (Option Transfer)}
    {segments : List Segment} {out : Absorbed} (h : absorb join segments = .ok out)
    (hjoin : 0 < out.absorbed.length → ∀ {pad a b joined}, join a b = .ok (some joined) →
      P pad (.transfer a) → P pad (.transfer b) → P pad (.transfer joined)) :
    Carries P segments out.kept := by
  rcases Nat.eq_zero_or_pos out.absorbed.length with hnone | hsome
  · rw [kept_of_absorbed_nil h (List.length_eq_zero_iff.mp hnone)]
    exact refl segments
  · exact absorbs (absorbs_of_eq_ok h) (hjoin hsome)

namespace Merging

variable {m m' : Merging}

theorem carries_reorder (key : Transfer → List Nat) :
    Carries P m.segments (m.reorder key).segments :=
  .permuteRuns (sortOn_perm key) m.segments

theorem carries_dropDuplicates (h : m.dropDuplicates = .ok m') :
    Carries P m.segments m'.segments ∧ m'.stats.joins = m.stats.joins := by
  obtain ⟨out, ho, h⟩ := bind_eq_ok_iff.mp h
  obtain ⟨dropped, -, h⟩ := bind_eq_ok_iff.mp h
  rw [pure_eq_ok_iff] at h
  subst h
  refine ⟨.absorb ho fun _ {pad a b joined} hj ha _ => ?_, rfl⟩
  rw [pure_eq_ok_iff] at hj
  split at hj
  · exact Option.some.inj hj ▸ ha
  · cases hj

theorem carries_flatten (hP : ReshapeInvariant P) (maxElements : Nat) :
    Carries P m.segments (m.flatten maxElements).segments := by
  refine .of_forall₂ ?_
  rw [flatten, List.forall₂_map_right_iff, List.forall₂_same]
  intro s _
  cases s with
  | transfer t =>
    refine ⟨fun pad => ?_, fun pad => hP.flatten maxElements⟩
    obtain ⟨u, hu, -⟩ := t.flattenSegment_transfer maxElements
    rw [hu]
    rfl
  | loop _ | compute _ | block _ | sync _ | padding _ | scatter _ =>
    exact ⟨fun _ => rfl, fun _ h => h⟩

theorem carries_trim (hP : ReshapeInvariant P) (h : m.trim = .ok m') :
    Carries P m.segments m'.segments ∧ m'.stats = m.stats := by
  have hsegments := forall₂_trim h
  obtain ⟨_, -, h⟩ := bind_eq_ok_iff.mp h
  obtain rfl := pure_eq_ok_iff.mp h
  refine ⟨.of_forall₂ (hsegments.imp ?_), rfl⟩
  rintro s s' ⟨index, hs'⟩
  cases s with
  | transfer t =>
    refine ⟨fun pad => ?_, fun pad => hP.trim hs'⟩
    obtain ⟨u, rfl, -⟩ := Transfer.trimSegment_eq_transfer hs'
    rfl
  | loop _ | compute _ | block _ | sync _ | padding _ | scatter _ =>
    obtain rfl := Except.ok.inj hs'
    exact ⟨fun _ => rfl, fun _ h => h⟩

theorem Joins.le_joins {join : Transfer → Transfer → Checked (Option Transfer)}
    (h : Joins join m m') : m.stats.joins ≤ m'.stats.joins := by
  obtain ⟨out, -, -, hjoins⟩ := h.absorb
  exact hjoins ▸ Nat.le_add_right _ _

theorem Joins.carries {join : Transfer → Transfer → Checked (Option Transfer)}
    (h : Joins join m m') (hP : m.stats.joins < m'.stats.joins → JoinInvariant P) :
    Carries P m.segments m'.segments := by
  obtain ⟨out, hout, hkept, hjoins⟩ := h.absorb
  rw [hkept]
  refine .absorb hout fun hsome _ _ _ _ => ?_
  have hinvariant := hP (by omega)
  obtain rfl | rfl := h.isJoin
  · exact hinvariant.row
  · exact hinvariant.rect

end Merging

/-- Merging carries along what its steps keep. -/
theorem carries_mergeWithStats {segments out : List Segment} {maxElements : Nat}
    {stats : MergeStats} (h : mergeWithStats segments maxElements = .ok (out, stats))
    (hblock : ∀ pad count, P pad (.block count)) (hreshape : ReshapeInvariant P)
    (hjoin : 0 < stats.joins → JoinInvariant P) : Carries P segments out := by
  obtain ⟨m₁, m₂, m₃, m₄, m₅, m₆, m₇, h₁, h₂, h₃, h₄, h₅, h₆, h₇, rfl, rfl⟩ :=
    mergeWithStats_eq_ok h
  obtain ⟨c₁, j₁⟩ := Merging.carries_dropDuplicates (P := P) h₁
  obtain ⟨c₂, j₂⟩ := Merging.carries_trim hreshape h₂
  obtain ⟨c₅, j₅⟩ := Merging.carries_dropDuplicates (P := P) h₅
  have f₁ : (m₁.flatten maxElements).stats.joins = m₁.stats.joins := rfl
  have f₅ : (m₅.flatten maxElements).stats.joins = m₅.stats.joins := rfl
  have r₄ : (m₄.reorder Transfer.localKey).stats.joins = m₄.stats.joins := rfl
  have j₃ := Merging.joins_of_joinRows h₃
  have j₄ := Merging.joins_of_joinRects h₄
  have j₆ := Merging.joins_of_joinRows h₆
  have j₇ := Merging.joins_of_joinRects h₇
  have l₃ := j₃.le_joins
  have l₄ := j₄.le_joins
  have l₆ := j₆.le_joins
  have l₇ := j₇.le_joins
  have c₃ := j₃.carries fun hlt => hjoin (by omega)
  have c₄ := j₄.carries fun hlt => hjoin (by omega)
  have c₆ := j₆.carries fun hlt => hjoin (by omega)
  have c₇ := j₇.carries fun hlt => hjoin (by omega)
  have front : Carries P segments m₄.segments :=
    ((Merging.carries_reorder _).trans c₁).trans
      ((Merging.carries_flatten hreshape _).trans (c₂.trans (c₃.trans c₄)))
  have back : Carries P m₄.segments m₇.segments :=
    ((Merging.carries_reorder _).trans c₅).trans
      ((Merging.carries_flatten hreshape _).trans (c₆.trans c₇))
  exact (front.trans back).trans ((Merging.carries_reorder _).trans (.refreshBlocks hblock _))

/-! ## Batching -/

def BroadcastInvariant (P : PadWidths → Segment → Prop) : Prop :=
  ∀ ⦃pad a b joined⦄, (a.broadcast b).run = some joined →
    P pad (.transfer a) → P pad (.transfer b) → P pad (.transfer joined)

theorem forall_mem_arrangeWindow {window : List Segment} {Q : Segment → Prop}
    (hQ : ∀ ⦃a b joined⦄, (a.broadcast b).run = some joined →
      Q (.transfer a) → Q (.transfer b) → Q (.transfer joined))
    (h : ∀ s ∈ window, Q s) : ∀ s ∈ arrangeWindow window, Q s := by
  intro s hs
  cases hst : s.transfer? with
  | none =>
    have hmem := (List.mergeSort_perm _ _).mem_iff.mp hs
    have hsorted := (absorbs_run Transfer.broadcast none _).mem_of_mem_kept hmem hst
    exact h s ((sortOn_perm _ _).mem_iff.mp hsorted)
  | some t =>
    obtain rfl := Segment.transfer?_eq_some_iff.mp hst
    have hkept := arrangeWindow_moves ∅ (P := fun t => Q (.transfer t))
      (fun ha hb hj => hQ hj ha hb) (fun u hu => h _ hu)
    exact hkept.1 t hs

theorem carries_batchStretch (hblock : ∀ pad count, P pad (.block count))
    (hbroadcast : BroadcastInvariant P) {stretch : List Segment}
    (hstretch : ∀ s ∈ stretch, s.isBoundary = false) (ahead : Nat) :
    Carries P stretch (batchStretch ahead stretch) := by
  refine .of_no_boundary hstretch (fun s hs => isBoundary_of_mem_batchStretch hs) ?_
  intro pad hP s hs
  rcases mem_batchStretch hs with hs | hs | hs
  · cases s with
    | block count => exact hblock pad count
    | transfer _ | loop _ | compute _ | sync _ | padding _ | scatter _ => cases hs
  · obtain ⟨window, hw, hs⟩ := List.mem_flatMap.mp hs
    exact forall_mem_arrangeWindow (@hbroadcast pad)
      (fun x hx => hP x (isDma_of_mem_window hw hx).1) s hs
  · exact hP s (List.mem_filter.mp hs).1

theorem carries_batch {segments out : List Segment} {ahead : Nat}
    (h : batch segments ahead = .ok out) (hblock : ∀ pad count, P pad (.block count))
    (hbroadcast : BroadcastInvariant P) : Carries P segments out := by
  obtain ⟨hfirst, hmore⟩ := no_boundary_in_stretches segments
  rw [batch_eq_ok h]
  conv => arg 2; rw [← flatten_stretches segments]
  refine (carries_batchStretch hblock hbroadcast hfirst ahead).append ?_
  generalize (stretches segments).2 = more at hmore
  induction more with
  | nil => exact .refl []
  | cons p more ih =>
    rw [List.forall_mem_cons] at hmore
    exact .append (.cons p.1 (carries_batchStretch hblock hbroadcast hmore.1 ahead)) (ih hmore.2)

/-! ## Both -/

def mergeIf (enabled : Bool) (segments : List Segment) (maxElements : Nat) :
    Outcome (List Segment × Nat) :=
  if enabled then do
    let (out, stats) ← mergeWithStats segments maxElements
    return (out, stats.joins)
  else return (segments, 0)

def batchIf (enabled : Bool) (segments : List Segment) (ahead : Nat) : Outcome (List Segment) :=
  if enabled then batch segments ahead else return segments

/-- The stream that the passes behind merging and batching get, and how often merging has joined two
transfers. -/
def gather (segments : List Segment) (cfg : Settings) : Outcome (List Segment × Nat) := do
  let maxElements := cfg.hardware.maxTransferElements.toNat
  let (merged, joins) ← mergeIf cfg.pipeline.merge segments maxElements
  let batched ← batchIf cfg.pipeline.blocks merged cfg.pipeline.blockSplit
  let (gathered, more) ←
    mergeIf (cfg.pipeline.blocks && cfg.pipeline.merge) batched maxElements
  return (gathered, joins + more)

theorem mergeIf_of_ran {enabled : Bool} {maxElements : Nat} {a b : List Segment}
    (h : Ran enabled (merge · maxElements) a b) :
    ∃ joins, mergeIf enabled a maxElements = .ok (b, joins) := by
  unfold Ran at h
  unfold mergeIf
  split at h
  · obtain ⟨stats, hstats⟩ := merge_eq_ok h
    rw [if_pos ‹_›, hstats]
    exact ⟨stats.joins, rfl⟩
  · rw [if_neg ‹_›, h]
    exact ⟨0, rfl⟩

theorem gather_of_optimize {segments : List Segment} {pad : PadWidths} {cfg : Settings}
    {o : Optimized} (h : optimize segments pad cfg = .ok o) :
    ∃ gathered joins spread rolled, gather segments cfg = .ok (gathered, joins) ∧
      Ran cfg.pipeline.splitStores spreadStores gathered spread ∧
      Ran cfg.pipeline.loops (rollLoops · cfg.pipeline.minLoopLen) spread rolled ∧
      Ran cfg.pipeline.balance (fun s => return balance s cfg.pipeline.balanceLoads)
        rolled o.segments := by
  obtain ⟨merged, batched, gathered, spread, rolled, h₁, h₂, h₃, h₄, h₅, h₆⟩ := ran_of_optimize h
  obtain ⟨joins, hmerged⟩ := mergeIf_of_ran h₁
  obtain ⟨more, hgathered⟩ := mergeIf_of_ran h₃
  refine ⟨gathered, joins + more, spread, rolled, ?_, h₄, h₅, h₆⟩
  have hbatched : batchIf cfg.pipeline.blocks merged cfg.pipeline.blockSplit = .ok batched := by
    unfold Ran at h₂
    unfold batchIf
    split at h₂
    · rw [if_pos ‹_›]
      exact h₂
    · rw [if_neg ‹_›, h₂]
      rfl
  rw [gather, hmerged, ok_bind]
  dsimp only
  rw [hbatched, ok_bind, hgathered]
  rfl

theorem carries_mergeIf {enabled : Bool} {segments out : List Segment} {maxElements joins : Nat}
    (h : mergeIf enabled segments maxElements = .ok (out, joins))
    (hblock : ∀ pad count, P pad (.block count)) (hreshape : enabled = true → ReshapeInvariant P)
    (hjoin : 0 < joins → JoinInvariant P) : Carries P segments out := by
  unfold mergeIf at h
  split at h
  · obtain ⟨⟨out', stats⟩, hstats, h⟩ := bind_eq_ok_iff.mp h
    obtain ⟨rfl, rfl⟩ := Prod.mk.inj (pure_eq_ok_iff.mp h)
    exact carries_mergeWithStats hstats hblock (hreshape ‹_›) hjoin
  · obtain ⟨rfl, -⟩ := Prod.mk.inj (pure_eq_ok_iff.mp h)
    exact .refl segments

theorem carries_gather {segments gathered : List Segment} {cfg : Settings} {joins : Nat}
    (h : gather segments cfg = .ok (gathered, joins)) (hblock : ∀ pad count, P pad (.block count))
    (hbroadcast : BroadcastInvariant P)
    (hreshape : cfg.pipeline.merge = true → ReshapeInvariant P)
    (hjoin : 0 < joins → JoinInvariant P) : Carries P segments gathered := by
  obtain ⟨⟨merged, first⟩, hmerged, h⟩ := bind_eq_ok_iff.mp h
  obtain ⟨batched, hbatched, h⟩ := bind_eq_ok_iff.mp h
  obtain ⟨⟨gathered', more⟩, hgathered, h⟩ := bind_eq_ok_iff.mp h
  obtain ⟨rfl, rfl⟩ := Prod.mk.inj (pure_eq_ok_iff.mp h)
  have c₁ := carries_mergeIf hmerged hblock hreshape fun hpos => hjoin (by omega)
  have c₂ : Carries P merged batched := by
    unfold batchIf at hbatched
    split at hbatched
    · exact carries_batch hbatched hblock hbroadcast
    · rw [pure_eq_ok_iff.mp hbatched]
      exact .refl batched
  have c₃ := carries_mergeIf hgathered hblock
    (fun hboth => hreshape (Bool.and_eq_true_iff.mp hboth).2) fun hpos => hjoin (by omega)
  exact c₁.trans (c₂.trans c₃)

def mergingOnly (limit : UInt32) : Settings where
  hardware := { maxTransferElements := limit }
  pipeline := { blocks := false, splitStores := false, loops := false, balance := false }

end CommandStream
