import CommandStream.Proofs.MergeMeaning

/-! # Batching keeps the meaning

Within a stretch, batching sorts transfers, folds siblings into broadcasts and moves transfers past
compute commands. None of this changes the moves of the stretch or the order of its commands.
-/

namespace CommandStream

variable {keep : Set WordMove}

theorem flatten_stretches (segments : List Segment) :
    (stretches segments).1 ++ (stretches segments).2.flatMap (fun (b, stretch) => b :: stretch) =
      segments := by
  induction segments with
  | nil => rfl
  | cons s rest ih =>
    cases hs : s.isBoundary with
    | true =>
      rw [stretches_cons_of_isBoundary hs]
      simpa using ih
    | false =>
      rw [stretches_cons_of_not_isBoundary hs]
      simpa using ih

theorem no_boundary_in_stretches (segments : List Segment) :
    (∀ s ∈ (stretches segments).1, s.isBoundary = false) ∧
      ∀ p ∈ (stretches segments).2, ∀ s ∈ p.2, s.isBoundary = false := by
  induction segments with
  | nil => simp [stretches]
  | cons s rest ih =>
    cases hs : s.isBoundary with
    | true =>
      rw [stretches_cons_of_isBoundary hs]
      simpa using ih
    | false =>
      rw [stretches_cons_of_not_isBoundary hs]
      simpa [hs] using ih

section Window

variable {window : List Segment}

theorem isDma_of_mem_arrangeWindow (h : ∀ s ∈ window, s.isDma = true) {s : Segment}
    (hs : s ∈ arrangeWindow window) : s.isDma = true := by
  have hmem : s ∈ (absorb Transfer.broadcast (sortOn Segment.addressKey window)).run.kept :=
    (List.mergeSort_perm _ _).mem_iff.mp hs
  cases hst : s.transfer? with
  | some t => rw [Segment.transfer?_eq_some_iff.mp hst]; rfl
  | none =>
    have hsorted := (absorbs_run Transfer.broadcast none _).mem_of_mem_kept hmem hst
    exact h s ((sortOn_perm _ _).mem_iff.mp hsorted)

variable (keep) in
/-- Arranging a window keeps its moves, and the properties of transfers that broadcasting keeps. -/
theorem arrangeWindow_moves {P : Transfer → Prop}
    (hP : ∀ {a b joined}, P a → P b → (a.broadcast b).run = some joined → P joined)
    (ht : ∀ t, Segment.transfer t ∈ window → P t) :
    (∀ t, Segment.transfer t ∈ arrangeWindow window → P t) ∧
      keep ∩ streamMoves (arrangeWindow window) = keep ∩ streamMoves window := by
  have hsort := sortOn_perm Segment.addressKey window
  have hsorted : ∀ t, Segment.transfer t ∈ sortOn Segment.addressKey window → P t :=
    fun t hmem => ht t (hsort.mem_iff.mp hmem)
  have hkept := absorbs_run Transfer.broadcast none (sortOn Segment.addressKey window)
  have hm := hkept.meaning_eq
    (fun ha hb hj => ⟨hP ha hb hj, fun w (_ : w ∈ keep) => Transfer.mem_moves_broadcast hj⟩)
    hsorted (by simp)
  refine ⟨fun t hmem => ?_, ?_⟩
  · exact hkept.forall_transfer hP hsorted (by simp) t ((List.mergeSort_perm _ _).mem_iff.mp hmem)
  · calc keep ∩ streamMoves (arrangeWindow window)
      _ = keep ∩ streamMoves
          (absorb Transfer.broadcast (sortOn Segment.addressKey window)).run.kept := by
          rw [arrangeWindow, streamMoves_perm (List.mergeSort_perm _ _)]
      _ = keep ∩ streamMoves (sortOn Segment.addressKey window) := streamMoves_eq_of_meaning hm
      _ = keep ∩ streamMoves window := by rw [streamMoves_perm hsort]

end Window

/-! ## Stretches -/

section Stretch

variable {stretch : List Segment}

theorem isDma_of_mem_window {window : List Segment} {s : Segment}
    (hw : window ∈ (stretch.filter Segment.isDma).splitBy fun a b => a.isStore == b.isStore)
    (hs : s ∈ window) : s ∈ stretch ∧ s.isDma = true := by
  have hmem : s ∈ stretch.filter Segment.isDma := by
    rw [← List.flatten_splitBy (fun a b : Segment => a.isStore == b.isStore)
      (stretch.filter Segment.isDma)]
    exact List.mem_flatten.mpr ⟨window, hw, hs⟩
  exact List.mem_filter.mp hmem

theorem isDma_of_mem_arrange {s : Segment} (hs : s ∈ arrange stretch) : s.isDma = true := by
  obtain ⟨window, hw, hs⟩ := List.mem_flatMap.mp hs
  exact isDma_of_mem_arrangeWindow (fun x hx => (isDma_of_mem_window hw hx).2) hs

theorem streamMoves_filter_isDma (segments : List Segment) :
    streamMoves (segments.filter Segment.isDma) = streamMoves segments := by
  ext w
  simp only [streamMoves, List.mem_filter, Set.mem_ofPred_eq]
  constructor
  · rintro ⟨s, ⟨hs, -⟩, hw⟩
    exact ⟨s, hs, hw⟩
  · rintro ⟨s, hs, hw⟩
    refine ⟨s, ⟨hs, ?_⟩, hw⟩
    by_contra hd
    rw [Segment.moves_eq_nil (by simpa using hd)] at hw
    simp at hw

theorem streamMoves_arrange (stretch : List Segment) :
    keep ∩ streamMoves (arrange stretch) = keep ∩ streamMoves stretch := by
  have hflat : ∀ windows : List (List Segment),
      keep ∩ streamMoves (windows.flatMap arrangeWindow) = keep ∩ streamMoves windows.flatten := by
    intro windows
    induction windows with
    | nil => rfl
    | cons w ws ih =>
      have hw : keep ∩ streamMoves (arrangeWindow w) = keep ∩ streamMoves w :=
        (arrangeWindow_moves keep (P := fun _ => True) (fun _ _ _ => trivial)
          (fun _ _ => trivial)).2
      simp only [List.flatMap_cons, List.flatten_cons, streamMoves_append,
        Set.inter_union_distrib_left, hw, ih]
  rw [arrange, hflat, List.flatten_splitBy, streamMoves_filter_isDma]

theorem mem_asBlock {dma : List Segment} {s : Segment} (h : s ∈ asBlock dma) :
    s.isBlock = true ∨ s ∈ dma := by
  unfold asBlock at h
  split at h
  · simp at h
  · rcases List.mem_cons.mp h with rfl | h
    · exact .inl rfl
    · exact .inr h

theorem mem_batchStretch {ahead : Nat} {s : Segment} (h : s ∈ batchStretch ahead stretch) :
    s.isBlock = true ∨ s ∈ arrange stretch ∨ s ∈ stretch.filter Segment.isCompute := by
  unfold batchStretch at h
  dsimp only at h
  split at h
  · exact (mem_asBlock h).imp_right .inl
  · simp only [List.mem_append] at h
    rcases h with (h | h) | h
    · exact (mem_asBlock h).imp_right fun h => .inl (List.mem_of_mem_take h)
    · exact .inr (.inr h)
    · exact (mem_asBlock h).imp_right fun h => .inl (List.mem_of_mem_drop h)

theorem isBoundary_of_mem_batchStretch {ahead : Nat} {s : Segment}
    (h : s ∈ batchStretch ahead stretch) : s.isBoundary = false := by
  rcases mem_batchStretch h with h | h | h
  · cases s <;> simp_all [Segment.isBlock, Segment.isBoundary]
  · exact Segment.isBoundary_of_isDma (isDma_of_mem_arrange h)
  · have hc := (List.mem_filter.mp h).2
    cases s <;> simp_all [Segment.isCompute, Segment.isBoundary]

theorem streamMoves_asBlock (dma : List Segment) : streamMoves (asBlock dma) = streamMoves dma := by
  unfold asBlock
  split
  · rename_i h
    rw [List.isEmpty_iff.mp h]
  · simp [Segment.moves, Segment.transfers]

theorem computes_asBlock {dma : List Segment} (h : ∀ s ∈ dma, s.isDma = true) :
    (asBlock dma).filterMap Segment.compute? = [] := by
  rw [List.filterMap_eq_nil_iff]
  intro s hs
  rcases mem_asBlock hs with hb | hd
  · cases s <;> simp_all [Segment.isBlock, Segment.compute?]
  · exact Segment.compute?_of_isDma (h s hd)

theorem streamMoves_filter_isCompute (segments : List Segment) :
    streamMoves (segments.filter Segment.isCompute) = ∅ := by
  rw [Set.eq_empty_iff_forall_notMem]
  rintro w ⟨s, hs, hw⟩
  have hc := (List.mem_filter.mp hs).2
  cases s <;> simp_all [Segment.isCompute, Segment.moves, Segment.transfers]

theorem computes_filter_isCompute (segments : List Segment) :
    (segments.filter Segment.isCompute).filterMap Segment.compute? =
      segments.filterMap Segment.compute? := by
  rw [List.filterMap_filter]
  congr 1
  ext s
  cases s <;> simp [Segment.isCompute, Segment.compute?]

theorem ofStretch_batchStretch (ahead : Nat) :
    Work.ofStretch keep (batchStretch ahead stretch) = Work.ofStretch keep stretch := by
  have hdma : ∀ s ∈ arrange stretch, s.isDma = true := fun s hs => isDma_of_mem_arrange hs
  have htake : ∀ s ∈ (arrange stretch).take ahead, s.isDma = true :=
    fun s hs => hdma s (List.mem_of_mem_take hs)
  have hdrop : ∀ s ∈ (arrange stretch).drop ahead, s.isDma = true :=
    fun s hs => hdma s (List.mem_of_mem_drop hs)
  have hmoves : keep ∩ streamMoves (batchStretch ahead stretch) = keep ∩ streamMoves stretch := by
    rw [← streamMoves_arrange stretch, batchStretch]
    split
    · rw [streamMoves_asBlock]
    · conv_rhs => rw [← List.take_append_drop ahead (arrange stretch)]
      simp only [streamMoves_append, streamMoves_asBlock, streamMoves_filter_isCompute,
        Set.union_empty]
  have hcomputes : (batchStretch ahead stretch).filterMap Segment.compute? =
      stretch.filterMap Segment.compute? := by
    rw [← computes_filter_isCompute stretch, batchStretch]
    split
    · rename_i he
      rw [List.isEmpty_iff.mp he, computes_asBlock hdma]
      rfl
    · simp only [List.filterMap_append, computes_asBlock htake, computes_asBlock hdrop,
        List.nil_append, List.append_nil]
  rw [Work.ofStretch, Work.ofStretch, hmoves, hcomputes]

theorem meaning_batchStretch (ahead : Nat) (h : ∀ s ∈ stretch, s.isBoundary = false) :
    meaning keep (batchStretch ahead stretch) = meaning keep stretch := by
  have hb : ∀ s ∈ batchStretch ahead stretch, s.isBoundary = false :=
    fun s hs => isBoundary_of_mem_batchStretch hs
  simp only [meaning, stretches_eq_of_no_boundary hb, stretches_eq_of_no_boundary h,
    ofStretch_batchStretch, List.map_nil]

end Stretch

theorem batch_eq_ok {segments out : List Segment} {ahead : Nat}
    (h : batch segments ahead = .ok out) :
    out = batchStretch ahead (stretches segments).1 ++
      (stretches segments).2.flatMap fun (boundary, stretch) =>
        boundary :: batchStretch ahead stretch := by
  unfold batch at h
  simp only [bind_eq_ok_iff] at h
  obtain ⟨before, -, after, -, h⟩ := h
  split at h
  · simp at h
  · exact (pure_eq_ok_iff.mp h).symm

theorem meaning_batch {segments out : List Segment} {ahead : Nat}
    (h : batch segments ahead = .ok out) : meaning keep out = meaning keep segments := by
  obtain ⟨hfirst, hmore⟩ := no_boundary_in_stretches segments
  rw [batch_eq_ok h]
  conv_rhs => rw [← flatten_stretches segments]
  refine meaning_append_congr (meaning_batchStretch ahead hfirst) (meaning_flatMap_congr _ ?_)
  intro p hp
  exact meaning_cons_congr p.1 (meaning_batchStretch ahead (hmore p hp))

theorem Transfer.skipped_broadcast {a b joined : Transfer}
    (h : (a.broadcast b).run = some joined) : joined.skipped = a.skipped := by
  rw [(broadcast_eq_some h).2]

theorem unskipped_batchStretch {ahead : Nat} {stretch : List Segment} (h : Unskipped stretch) :
    Unskipped (batchStretch ahead stretch) := by
  intro t ht
  rcases mem_batchStretch ht with ht | ht | ht
  · cases ht
  · obtain ⟨window, hw, ht⟩ := List.mem_flatMap.mp ht
    have hskip := arrangeWindow_moves ∅ (P := fun t => t.skipped = 0)
      (fun ha _ hj => (Transfer.skipped_broadcast hj).trans ha)
      (fun u hu => h u (isDma_of_mem_window hw hu).1)
    exact hskip.1 t ht
  · cases (List.mem_filter.mp ht).2

theorem unskipped_batch {segments out : List Segment} {ahead : Nat} (hu : Unskipped segments)
    (h : batch segments ahead = .ok out) : Unskipped out := by
  intro t ht
  rw [batch_eq_ok h, List.mem_append, List.mem_flatMap] at ht
  have hfirst : ∀ s ∈ (stretches segments).1, s ∈ segments := by
    intro s hs
    rw [← flatten_stretches segments]
    exact List.mem_append_left _ hs
  have hmore : ∀ p ∈ (stretches segments).2, ∀ s ∈ p.1 :: p.2, s ∈ segments := by
    intro p hp s hs
    rw [← flatten_stretches segments]
    exact List.mem_append_right _ (List.mem_flatMap.mpr ⟨p, hp, hs⟩)
  rcases ht with ht | ⟨p, hp, ht⟩
  · exact unskipped_batchStretch (fun u hs => hu u (hfirst _ hs)) t ht
  · rcases List.mem_cons.mp ht with ht | ht
    · exact hu t (hmore p hp _ (ht ▸ List.mem_cons_self))
    · exact unskipped_batchStretch
        (fun u hs => hu u (hmore p hp _ (List.mem_cons_of_mem _ hs))) t ht

end CommandStream
