import CommandStream.Proofs.Neighbours
import CommandStream.Proofs.PipelineFaults
import CommandStream.Proofs.PipelineMeaning

/-! # The blocks of a batched stream

Batching always succeeds, stretch by stretch. A stretch becomes a block, its compute commands and
another block. The blocks hold the windows of the stretch one after the other, each with siblings
folded into broadcasts. Nothing is lost, and no cluster is served twice.
-/

namespace CommandStream

/-! ## What a sweep keeps -/

section Sweeps

variable {R : Transfer → Transfer → Option Transfer → Prop} {pending : Option Transfer}
  {segments kept : List Segment}

theorem Absorbs.filter_eq (h : Absorbs R pending segments kept) {p : Segment → Bool}
    (hp : ∀ t, p (.transfer t) = false) : kept.filter p = segments.filter p := by
  have hcons (t : Transfer) (rest : List Segment) :
      (Segment.transfer t :: rest).filter p = rest.filter p :=
    List.filter_cons_of_neg (by simp [hp])
  have hpending (pending : Option Transfer) :
      (pending.toList.map Segment.transfer).filter p = [] := by
    cases pending <;> simp [hp]
  induction h with
  | nil => exact hpending _
  | barrier _ _ ih =>
    rw [List.filter_append, hpending, List.nil_append, List.filter_cons, ih, List.filter_cons]
  | first _ ih => rw [ih, hcons]
  | apart _ _ ih => rw [hcons, ih, hcons]
  | join _ _ ih => rw [ih, hcons]

theorem Absorbs.flatMap_perm {β : Type} {f : Transfer → List β}
    (hf : ∀ {a b joined}, R a b (some joined) → (f joined).Perm (f a ++ f b))
    (h : Absorbs R pending segments kept) :
    ((kept.filterMap Segment.transfer?).flatMap f).Perm
      ((pending.toList ++ segments.filterMap Segment.transfer?).flatMap f) := by
  induction h with
  | @nil pending => cases pending <;> simp [Segment.transfer?]
  | @barrier pending s rest kept hs _ ih =>
    have hpending : (pending.toList.map Segment.transfer).filterMap Segment.transfer? =
        pending.toList := by
      cases pending <;> rfl
    rw [List.filterMap_append, hpending, List.filterMap_cons_none hs, List.filterMap_cons_none hs,
      List.flatMap_append, List.flatMap_append]
    exact ih.append_left _
  | first _ ih => exact ih
  | apart _ _ ih => exact ih.append_left _
  | @join last t joined rest kept hj _ ih =>
    refine ih.trans ?_
    simp only [Option.toList_some, List.singleton_append, List.flatMap_cons, Segment.transfer?,
      List.filterMap_cons]
    rw [← List.append_assoc]
    exact (hf hj).append_right _

theorem Absorbs.map_sublist {β : Type} {key : Segment → β}
    (hkey : ∀ {a b joined}, R a b (some joined) → key (.transfer joined) = key (.transfer a))
    (h : Absorbs R pending segments kept) :
    (kept.map key).Sublist ((pending.toList.map Segment.transfer ++ segments).map key) := by
  induction h with
  | nil => rw [List.append_nil]
  | barrier _ _ ih =>
    rw [List.map_append, List.map_append]
    exact (ih.cons_cons _).append_left _
  | first _ ih => exact ih
  | apart _ _ ih => exact ih.cons_cons _
  | @join last t joined rest kept hj _ ih =>
    refine ih.trans ?_
    simp only [Option.toList_some, List.map_cons, List.map_nil, List.singleton_append, hkey hj]
    exact (List.sublist_cons_self _ _).cons_cons _

end Sweeps

/-! ## One copy for each cluster -/

def Transfer.perCluster (t : Transfer) : List Transfer :=
  t.cluster.engines.map fun e => { t with cluster := UInt32.ofNat (2 ^ e) }

/-- The plain transfers of a stream, once for each of their clusters. -/
def singles (segments : List Segment) : List Transfer :=
  (segments.filterMap Segment.transfer?).flatMap Transfer.perCluster

theorem Mask.nodup_engines (m : Mask) : m.engines.Nodup := List.nodup_range.filter _

theorem Mask.engines_or {a b : Mask} (h : a &&& b = 0) :
    (a ||| b).engines.Perm (a.engines ++ b.engines) := by
  have hdisjoint : a.engines.Disjoint b.engines := by
    intro e ha hb
    have hboth : (a &&& b).toNat.testBit e = true := by
      rw [UInt32.toNat_and, Nat.testBit_and, mem_engines.mp ha, mem_engines.mp hb]
      rfl
    rw [h] at hboth
    simp at hboth
  rw [List.perm_ext_iff_of_nodup (nodup_engines _)
    (List.nodup_append'.mpr ⟨nodup_engines a, nodup_engines b, hdisjoint⟩)]
  intro e
  rw [mem_engines_or, List.mem_append]

theorem Transfer.perCluster_broadcast {a b joined : Transfer}
    (h : (a.broadcast b).run = some joined) :
    joined.perCluster.Perm (a.perCluster ++ b.perCluster) := by
  obtain ⟨hsibling, rfl⟩ := broadcast_eq_some h
  simp only [isSibling, Bool.and_eq_true, beq_iff_eq] at hsibling
  obtain ⟨hdisjoint, hsame⟩ := hsibling
  have hb : b.perCluster =
      b.cluster.engines.map fun e => { a with cluster := UInt32.ofNat (2 ^ e) } := by
    apply List.map_congr_left
    intro e _
    exact (congrArg (fun t : Transfer => { t with cluster := UInt32.ofNat (2 ^ e) }) hsame).symm
  rw [hb]
  exact ((Mask.engines_or hdisjoint).map _).trans (.of_eq List.map_append)

/-! ## Windows -/

/-- The transfers and loops of a stretch, cut where the class changes. -/
structure AreWindows (dma : List Segment) (windows : List (List Segment)) : Prop where
  flatten : windows.flatten = dma
  ne_nil : ∀ window ∈ windows, window ≠ []
  sameClass : ∀ window ∈ windows, ∀ a ∈ window, ∀ b ∈ window, a.isStore = b.isStore
  otherClass : windows.IsChain fun v w => ∀ a ∈ v, ∀ b ∈ w, a.isStore ≠ b.isStore

def windows (stretch : List Segment) : List (List Segment) :=
  (stretch.filter Segment.isDma).splitBy fun a b => a.isStore == b.isStore

theorem areWindows_windows (stretch : List Segment) :
    AreWindows (stretch.filter Segment.isDma) (windows stretch) where
  flatten := List.flatten_splitBy _ _
  ne_nil _ := List.ne_nil_of_mem_splitBy
  sameClass _ hwindow _ ha _ hb := key_eq_of_mem_splitBy hwindow ha hb
  otherClass := isChain_splitBy_key Segment.isStore _

def Segment.placeKey (s : Segment) : List Nat := s.addressKey.take 3

/-- What becomes of a window. Larger segments go first; in the order of their places, no two
neighbours could still become one broadcast. -/
structure Folded (window group : List Segment) : Prop where
  sameClass : ∀ s ∈ group, s.isDma = true ∧ ∀ u ∈ window, s.isStore = u.isStore
  loops : (group.filter Segment.isLoop).Perm (window.filter Segment.isLoop)
  singles : (singles group).Perm (singles window)
  largerFirst : group.Pairwise fun a b => b.area ≤ a.area
  noSiblings : ∃ placed : List Segment, placed.Perm group ∧
    placed.Pairwise (fun a b => keyLe a.placeKey b.placeKey = true) ∧
    Neighbours (fun a b => a.isSibling b = false) placed

theorem keyLe_take {a b : List Nat} (h : keyLe a b = true) (n : Nat) :
    keyLe (a.take n) (b.take n) = true := by
  induction n generalizing a b with
  | zero => simp [keyLe]
  | succ n ih =>
    cases a with
    | nil => simp [keyLe]
    | cons x a =>
      cases b with
      | nil => simp [keyLe]
      | cons y b =>
        rw [keyLe_cons_iff] at h
        rw [List.take_succ_cons, List.take_succ_cons, keyLe_cons_iff]
        exact h.imp_right fun hrest => ⟨hrest.1, ih hrest.2⟩

theorem Mask.and_eq_zero_of_or {x a b : Mask} (h : x &&& (a ||| b) = 0) : x &&& a = 0 := by
  have hbits := congrArg UInt32.toNat h
  rw [UInt32.toNat_and, UInt32.toNat_or, Nat.and_or_distrib_left, UInt32.toNat_zero,
    Nat.or_eq_zero_iff] at hbits
  apply UInt32.toNat_inj.mp
  rw [UInt32.toNat_and]
  exact hbits.1

theorem Transfer.isSibling_of_broadcast {x a b joined : Transfer}
    (hjoined : (a.broadcast b).run = some joined) (h : x.isSibling joined = true) :
    x.isSibling a = true := by
  obtain ⟨-, rfl⟩ := broadcast_eq_some hjoined
  simp only [isSibling, Bool.and_eq_true, beq_iff_eq] at h ⊢
  exact ⟨Mask.and_eq_zero_of_or h.1, h.2⟩

theorem Transfer.broadcast_eq_none_iff {a b : Transfer} :
    (a.broadcast b).run = none ↔ a.isSibling b = false := by
  change (if a.isSibling b then some { a with cluster := a.cluster ||| b.cluster } else none) =
    none ↔ _
  simp

def foldSiblings (window : List Segment) : List Segment :=
  (absorb Transfer.broadcast (sortOn Segment.addressKey window)).run.kept

section Window

variable {window : List Segment}

theorem arrangeWindow_perm (window : List Segment) :
    (arrangeWindow window).Perm (foldSiblings window) :=
  List.mergeSort_perm _ _

theorem absorbs_foldSiblings (window : List Segment) :
    Absorbs (fun a b r => (a.broadcast b).run = r) none (sortOn Segment.addressKey window)
      (foldSiblings window) :=
  absorbs_run Transfer.broadcast none (sortOn Segment.addressKey window)

theorem isStore_of_mem_foldSiblings
    (hclass : ∀ a ∈ window, ∀ b ∈ window, a.isStore = b.isStore) {s : Segment}
    (hs : s ∈ foldSiblings window) {u : Segment} (hu : u ∈ window) : s.isStore = u.isStore := by
  have hsort := sortOn_perm Segment.addressKey window
  cases hst : s.transfer? with
  | some t =>
    obtain rfl := Segment.transfer?_eq_some_iff.mp hst
    apply (absorbs_foldSiblings window).forall_transfer (P := fun t => t.isStore = u.isStore) _ _
      (by simp) t hs
    · intro a b joined ha _ hjoined
      rw [(Transfer.broadcast_eq_some hjoined).2]
      exact ha
    · intro t ht
      exact hclass _ (hsort.mem_iff.mp ht) u hu
  | none =>
    have hsorted := (absorbs_foldSiblings window).mem_of_mem_kept hs hst
    exact hclass s (hsort.mem_iff.mp hsorted) u hu

theorem pairwise_placeKey_foldSiblings (window : List Segment) :
    (foldSiblings window).Pairwise fun a b => keyLe a.placeKey b.placeKey = true := by
  have hplace {a b joined : Transfer} (hjoined : (a.broadcast b).run = some joined) :
      (Segment.transfer joined).placeKey = (Segment.transfer a).placeKey := by
    rw [(Transfer.broadcast_eq_some hjoined).2]
    rfl
  have hsorted := pairwise_sortOn Segment.addressKey (fun a b => by cases a <;> cases b <;> rfl)
    window
  rw [← List.pairwise_map (f := Segment.placeKey) (R := fun k k' => keyLe k k' = true)]
  apply List.Pairwise.sublist ((absorbs_foldSiblings window).map_sublist hplace)
  rw [List.pairwise_map]
  exact hsorted.imp fun h => keyLe_take h 3

/-- A transfer that was not folded into the one before it cannot be later either. -/
theorem noSiblings_foldSiblings (window : List Segment) :
    Neighbours (fun a b => a.isSibling b = false) (foldSiblings window) := by
  have hany : Neighbours (fun _ _ => True)
      ((none : Option Transfer).toList.map .transfer ++ sortOn Segment.addressKey window) :=
    List.Pairwise.isChain (List.pairwise_of_forall fun _ _ _ _ _ _ => trivial)
  have hleft := ((absorbs_foldSiblings window).neighbours (fun _ _ _ => trivial) ?_ hany).1
  · exact hleft.imp fun a b h => Transfer.broadcast_eq_none_iff.mp h.2
  · intro x a b joined _ hnone _ hjoined
    refine ⟨trivial, Transfer.broadcast_eq_none_iff.mpr ?_⟩
    rw [Transfer.broadcast_eq_none_iff] at hnone
    rw [← Bool.not_eq_true] at hnone ⊢
    exact mt (Transfer.isSibling_of_broadcast hjoined) hnone

theorem pairwise_area_arrangeWindow (window : List Segment) :
    (arrangeWindow window).Pairwise fun a b => b.area ≤ a.area :=
  (List.pairwise_mergeSort area_trans area_total _).imp of_decide_eq_true

theorem folded_arrangeWindow (hdma : ∀ s ∈ window, s.isDma = true)
    (hclass : ∀ a ∈ window, ∀ b ∈ window, a.isStore = b.isStore) :
    Folded window (arrangeWindow window) where
  sameClass s hs := ⟨isDma_of_mem_arrangeWindow hdma hs, fun u hu =>
    isStore_of_mem_foldSiblings hclass ((arrangeWindow_perm window).mem_iff.mp hs) hu⟩
  loops := by
    have hloops := (absorbs_foldSiblings window).filter_eq (p := Segment.isLoop) fun _ => rfl
    refine ((arrangeWindow_perm window).filter _).trans ?_
    rw [hloops]
    exact (sortOn_perm _ _).filter _
  singles := by
    have hsingles := (absorbs_foldSiblings window).flatMap_perm Transfer.perCluster_broadcast
    refine (((arrangeWindow_perm window).filterMap _).flatMap_right _).trans (hsingles.trans ?_)
    exact ((sortOn_perm _ _).filterMap _).flatMap_right _
  largerFirst := pairwise_area_arrangeWindow window
  noSiblings := ⟨foldSiblings window, (arrangeWindow_perm window).symm,
    pairwise_placeKey_foldSiblings window, noSiblings_foldSiblings window⟩

end Window

/-! ## Stretches -/

def IsBlock (dma block : List Segment) : Prop :=
  dma = [] ∧ block = [] ∨
    dma ≠ [] ∧ ∃ count : UInt32, count.toNat = recordCount dma ∧ block = .block count :: dma

/-- The segments of `dma` in two blocks around the compute commands. The first block holds the
first `ahead` segments, or all of them if there are no compute commands. -/
def Laid (ahead : Nat) (computes dma out : List Segment) : Prop :=
  let k := if computes = [] then dma.length else min dma.length ahead
  ∃ first second, IsBlock (dma.take k) first ∧ IsBlock (dma.drop k) second ∧
    out = first ++ computes ++ second

/-- What becomes of a stretch: its windows in their order, each of them folded, in two blocks
around the compute commands. -/
structure Batched (ahead : Nat) (stretch out : List Segment) : Prop where
  loops : (out.filter Segment.isLoop).Perm (stretch.filter Segment.isLoop)
  singles : (singles out).Perm (singles stretch)
  layout : ∃ windows groups, AreWindows (stretch.filter Segment.isDma) windows ∧
    List.Forall₂ Folded windows groups ∧
    Laid ahead (stretch.filter Segment.isCompute) groups.flatten out

theorem isBlock_asBlock {dma : List Segment} (h : recordCount dma < 2 ^ 32) :
    IsBlock dma (asBlock dma) := by
  unfold asBlock
  split
  · rename_i hempty
    exact .inl ⟨List.isEmpty_iff.mp hempty, rfl⟩
  · rename_i hne
    exact .inr ⟨mt List.isEmpty_iff.mpr hne, _, UInt32.toNat_ofNat_of_lt' h, rfl⟩

@[simp] theorem singles_append (a b : List Segment) :
    singles (a ++ b) = singles a ++ singles b := by
  simp [singles]

theorem singles_filter_isDma (segments : List Segment) :
    singles (segments.filter Segment.isDma) = singles segments := by
  have hfilter : (segments.filter Segment.isDma).filterMap Segment.transfer? =
      segments.filterMap Segment.transfer? := by
    rw [List.filterMap_filter]
    congr 1
    ext s
    cases s <;> simp [Segment.isDma, Segment.transfer?]
  rw [singles, singles, hfilter]

theorem filter_isLoop_filter_isDma (segments : List Segment) :
    (segments.filter Segment.isDma).filter Segment.isLoop = segments.filter Segment.isLoop := by
  rw [List.filter_filter]
  congr 1
  ext s
  cases s <;> rfl

theorem perm_of_forall₂_folded {windows groups : List (List Segment)}
    (h : List.Forall₂ Folded windows groups) :
    (groups.flatten.filter Segment.isLoop).Perm (windows.flatten.filter Segment.isLoop) ∧
      (singles groups.flatten).Perm (singles windows.flatten) := by
  induction h with
  | nil => exact ⟨.refl _, .refl _⟩
  | cons hfolded _ ih =>
    simp only [List.flatten_cons, List.filter_append, singles_append]
    exact ⟨hfolded.loops.append ih.1, hfolded.singles.append ih.2⟩

theorem forall₂_folded_windows (stretch : List Segment) :
    List.Forall₂ Folded (windows stretch) ((windows stretch).map arrangeWindow) := by
  rw [List.forall₂_map_right_iff, List.forall₂_same]
  intro window hwindow
  exact folded_arrangeWindow (fun s hs => (isDma_of_mem_window hwindow hs).2)
    ((areWindows_windows stretch).sameClass window hwindow)

theorem laid_batchStretch {stretch : List Segment} (h : recordCount (arrange stretch) < 2 ^ 32)
    (ahead : Nat) :
    Laid ahead (stretch.filter Segment.isCompute) (arrange stretch)
      (batchStretch ahead stretch) := by
  unfold Laid batchStretch
  dsimp only
  by_cases hcompute : stretch.filter Segment.isCompute = []
  · refine ⟨asBlock (arrange stretch), [], ?_, .inl ⟨?_, rfl⟩, ?_⟩
    · rw [if_pos hcompute, List.take_length]
      exact isBlock_asBlock h
    · rw [if_pos hcompute, List.drop_length]
    · simp [hcompute]
  · have hsplit := recordCount_append ((arrange stretch).take ahead) ((arrange stretch).drop ahead)
    rw [List.take_append_drop] at hsplit
    rw [if_neg hcompute, if_neg (mt List.isEmpty_iff.mp hcompute), Nat.min_comm,
      ← List.take_eq_take_min, ← List.drop_eq_drop_min]
    exact ⟨_, _, isBlock_asBlock (by omega), isBlock_asBlock (by omega), rfl⟩

theorem batched_batchStretch {stretch : List Segment} (h : FitsCounters stretch) (ahead : Nat) :
    Batched ahead stretch (batchStretch ahead stretch) := by
  have hfolded := forall₂_folded_windows stretch
  obtain ⟨hloops, hsingles⟩ := perm_of_forall₂_folded hfolded
  rw [(areWindows_windows stretch).flatten] at hloops hsingles
  have harrange : ((windows stretch).map arrangeWindow).flatten = arrange stretch :=
    List.flatMap_def.symm
  rw [harrange] at hloops hsingles
  have hrecords : recordCount (arrange stretch) < 2 ^ 32 := by
    rw [← dmaRecords_of_forall_isDma fun s => isDma_of_mem_arrange]
    exact (conserves_arrange stretch).records.trans_lt h.records
  constructor
  case loops =>
    rw [← filter_isLoop_filter_isDma (batchStretch ahead stretch), filter_isDma_batchStretch,
      ← filter_isLoop_filter_isDma stretch]
    exact hloops
  case singles =>
    rw [← singles_filter_isDma (batchStretch ahead stretch), filter_isDma_batchStretch,
      ← singles_filter_isDma stretch]
    exact hsingles
  case layout =>
    refine ⟨_, _, areWindows_windows stretch, hfolded, ?_⟩
    rw [harrange]
    exact laid_batchStretch hrecords ahead

/-! ## The whole stream -/

/-- Every transfer and every loop stands in the run behind a marker. -/
def InBlocks (segments : List Segment) : Prop :=
  ∀ front s rest, segments = front ++ s :: rest → s.isDma = true →
    ∃ before count run, front = before ++ .block count :: run ∧ ∀ r ∈ run, r.isDma = true

theorem InBlocks.append {a b : List Segment} (ha : InBlocks a) (hb : InBlocks b) :
    InBlocks (a ++ b) := by
  intro front s rest hsplit hs
  rcases append_eq_append_cons hsplit with ⟨front', rfl, hb'⟩ | ⟨rest', ha', -⟩
  · obtain ⟨before, count, run, rfl, hrun⟩ := hb front' s rest hb' hs
    exact ⟨a ++ before, count, run, by simp, hrun⟩
  · exact ha front s rest' ha' hs

theorem inBlocks_of_no_dma {a : List Segment} (h : ∀ s ∈ a, s.isDma = false) : InBlocks a := by
  rintro front s rest rfl hs
  rw [h s (by simp)] at hs
  cases hs

theorem inBlocks_asBlock {dma : List Segment} (h : ∀ s ∈ dma, s.isDma = true) :
    InBlocks (asBlock dma) := by
  unfold asBlock
  split
  · exact inBlocks_of_no_dma (by simp)
  · rintro (_ | ⟨marker, run⟩) s rest hsplit hs
    · obtain ⟨rfl, -⟩ := List.cons.inj hsplit
      cases hs
    · obtain ⟨rfl, rfl⟩ := List.cons.inj hsplit
      exact ⟨[], _, run, rfl, fun r hr => h r (List.mem_append_left _ hr)⟩

theorem inBlocks_batchStretch (ahead : Nat) (stretch : List Segment) :
    InBlocks (batchStretch ahead stretch) := by
  have hdma : ∀ s ∈ arrange stretch, s.isDma = true := fun s => isDma_of_mem_arrange
  have hcompute : ∀ s ∈ stretch.filter Segment.isCompute, s.isDma = false := by
    intro s hs
    have := (List.mem_filter.mp hs).2
    cases s <;> simp_all [Segment.isCompute, Segment.isDma]
  unfold batchStretch
  dsimp only
  split
  · exact inBlocks_asBlock hdma
  · exact ((inBlocks_asBlock fun s hs => hdma s (List.mem_of_mem_take hs)).append
      (inBlocks_of_no_dma hcompute)).append
      (inBlocks_asBlock fun s hs => hdma s (List.mem_of_mem_drop hs))

theorem InBlocks.flatMap {α : Type} {f : α → List Segment} {xs : List α}
    (h : ∀ x ∈ xs, InBlocks (f x)) : InBlocks (xs.flatMap f) := by
  induction xs with
  | nil => exact inBlocks_of_no_dma (by simp)
  | cons x xs ih =>
    rw [List.forall_mem_cons] at h
    exact h.1.append (ih h.2)

theorem stretches_flatMap {first : List Segment} {more : List (Segment × List Segment)}
    (hfirst : ∀ s ∈ first, s.isBoundary = false)
    (hmore : ∀ p ∈ more, p.1.isBoundary = true ∧ ∀ s ∈ p.2, s.isBoundary = false) :
    stretches (first ++ more.flatMap fun p => p.1 :: p.2) = (first, more) := by
  induction more generalizing first with
  | nil => simpa using stretches_eq_of_no_boundary hfirst
  | cons p more ih =>
    rw [List.forall_mem_cons] at hmore
    induction first with
    | nil =>
      rw [List.nil_append, List.flatMap_cons, List.cons_append,
        stretches_cons_of_isBoundary hmore.1.1, ih hmore.1.2 hmore.2]
    | cons s first ih' =>
      rw [List.forall_mem_cons] at hfirst
      rw [List.cons_append, stretches_cons_of_not_isBoundary hfirst.1, ih' hfirst.2]

theorem stretches_of_batch {segments out : List Segment} {ahead : Nat}
    (h : batch segments ahead = .ok out) :
    stretches out = (batchStretch ahead (stretches segments).1,
      (stretches segments).2.map fun p => (p.1, batchStretch ahead p.2)) := by
  have hout : out = batchStretch ahead (stretches segments).1 ++
      ((stretches segments).2.map fun p => (p.1, batchStretch ahead p.2)).flatMap
        fun p => p.1 :: p.2 := by
    rw [batch_eq_ok h, List.flatMap_map]
  rw [hout]
  apply stretches_flatMap
  · exact fun s hs => isBoundary_of_mem_batchStretch hs
  · intro p hp
    obtain ⟨q, hq, rfl⟩ := List.mem_map.mp hp
    have hboundary := isBoundary_of_mem_stretches hq
    exact ⟨hboundary, fun s hs => isBoundary_of_mem_batchStretch hs⟩

/-- Batching succeeds whenever the stream can be counted. It keeps the boundaries, batches each
stretch on its own, and leaves no transfer outside a block. -/
theorem batch_forms_blocks {segments : List Segment} (h : FitsCounters segments) (ahead : Nat) :
    ∃ out, batch segments ahead = .ok out ∧ boundaries out = boundaries segments ∧
      List.Forall₂ (Batched ahead) (stretchList segments) (stretchList out) ∧
      InBlocks out ∧ UpToDate out ∧ checkBlocks out = .ok () := by
  obtain ⟨out, hout, hsettled⟩ := h.exists_batch ahead
  have hstretches := stretches_of_batch hout
  have hbatched : ∀ {stretch}, stretch.Sublist segments →
      Batched ahead stretch (batchStretch ahead stretch) :=
    fun hsub => batched_batchStretch (h.of_sublist hsub) ahead
  refine ⟨out, hout, ?_, ?_, ?_, hsettled.markers, hsettled.markers.checkBlocksFrom 0⟩
  · rw [boundaries_eq_map_stretches, boundaries_eq_map_stretches, hstretches, List.map_map]
    rfl
  · rw [stretchList, stretchList, hstretches, List.map_map]
    apply List.Forall₂.cons (hbatched (sublist_first_stretch segments))
    rw [List.forall₂_map_left_iff, List.forall₂_map_right_iff, List.forall₂_same]
    intro p hp
    exact hbatched (sublist_of_mem_stretches hp)
  · rw [batch_eq_ok hout]
    apply (inBlocks_batchStretch ahead _).append
    apply InBlocks.flatMap
    intro p hp
    apply InBlocks.append (a := [p.1]) _ (inBlocks_batchStretch ahead p.2)
    have hboundary := isBoundary_of_mem_stretches hp
    apply inBlocks_of_no_dma
    intro s hs
    obtain rfl := List.mem_singleton.mp hs
    cases hdma : p.1.isDma with
    | false => rfl
    | true => rw [Segment.isBoundary_of_isDma hdma] at hboundary; cases hboundary

def unitPair : TransferLoop where
  clusterLen := 0
  clusterShift := 0
  unitLen := 1
  unitShift := 1
  innerLen := 0
  localStep := 0
  hostStep := 32
  count := 2
  base := .row .load1d 1 1 0x8000 0 16

/-- Three loads of one row, two of which have a cluster in common, and a longer one around a compute
command, then a store; a loop stands behind the boundary. -/
def overlappingLoads : List Segment :=
  [.block 9, .transfer (.row .load1d 4 1 0x1000 0 16), .transfer (.row .load1d 1 1 0x1000 0 16),
    .compute { op := .add }, .transfer (.row .load1d 3 1 0x1000 0 16),
    .transfer (.row .load1d 1 1 0x2000 0 64), .transfer (.row .store1d 1 1 0x4000 0 8),
    .sync .dma, .loop unitPair]

def overlappingBlocks : List Segment :=
  [.block 2, .transfer (.row .load1d 1 1 0x2000 0 64), .transfer (.row .load1d 1 1 0x1000 0 16),
    .compute { op := .add },
    .block 2, .transfer (.row .load1d 7 1 0x1000 0 16), .transfer (.row .store1d 1 1 0x4000 0 8),
    .sync .dma, .block 2, .loop unitPair]

theorem batch_overlappingLoads : batch overlappingLoads 2 = .ok overlappingBlocks := by
  delta batch batchStretch arrange arrangeWindow
  simp only [area_mergeSort,
    sortOn_eq_insertionSort Segment.addressKey fun a b => by cases a <;> cases b <;> rfl]
  decide +kernel

theorem batch_forms_blocks_overlappingLoads :
    FitsCounters overlappingLoads ∧ boundaries overlappingBlocks = boundaries overlappingLoads ∧
      List.Forall₂ (Batched 2) (stretchList overlappingLoads) (stretchList overlappingBlocks) ∧
      InBlocks overlappingBlocks ∧ UpToDate overlappingBlocks ∧
      checkBlocks overlappingBlocks = .ok () := by
  have hfits : FitsCounters overlappingLoads := ⟨by decide, by decide⟩
  obtain ⟨out, hout, hblocks⟩ := batch_forms_blocks hfits 2
  obtain rfl : overlappingBlocks = out := by
    rw [batch_overlappingLoads] at hout
    exact Except.ok.inj hout
  exact ⟨hfits, hblocks⟩

end CommandStream
