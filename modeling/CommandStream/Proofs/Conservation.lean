import CommandStream.Proofs.BatchMeaning
import CommandStream.Proofs.LoopRolling

/-! # Words and records are conserved

A pass that only rearranges or rolls moves the words of its input and takes no more records for its
transfers and loops. Where neighbours are absorbed, the words of the transfers that went into others
are accounted for.
-/

namespace CommandStream

/-! ## Streams that move as many words -/

theorem elementTotal_append (a b : List Segment) :
    elementTotal (a ++ b) = elementTotal a + elementTotal b := by
  simp [elementTotal, issued, total_eq_sum]

theorem issued_filter_isDma (segments : List Segment) :
    issued (segments.filter Segment.isDma) = issued segments := by
  induction segments with
  | nil => rfl
  | cons s rest ih =>
    unfold issued at ih ⊢
    cases s <;> simp [List.filter_cons, Segment.isDma, Segment.transfers, ih]

theorem filter_isDma_map_eraseCount (segments : List Segment) :
    (segments.map Segment.eraseCount).filter Segment.isDma = segments.filter Segment.isDma := by
  induction segments with
  | nil => rfl
  | cons s rest ih => cases s <;> simp [List.filter_cons, Segment.isDma, Segment.eraseCount, ih]

/-- `b` moves the words of `a` and takes no more records for its transfers and loops. -/
structure Conserves (a b : List Segment) : Prop where
  words : elementTotal b = elementTotal a
  records : dmaRecords b ≤ dmaRecords a

namespace Conserves

theorem refl (a : List Segment) : Conserves a a := ⟨rfl, le_rfl⟩

theorem trans {a b c : List Segment} (hab : Conserves a b) (hbc : Conserves b c) : Conserves a c :=
  ⟨hbc.words.trans hab.words, hbc.records.trans hab.records⟩

theorem append {a a' b b' : List Segment} (ha : Conserves a a') (hb : Conserves b b') :
    Conserves (a ++ b) (a' ++ b') where
  words := by rw [elementTotal_append, elementTotal_append, ha.words, hb.words]
  records := by
    rw [dmaRecords_append, dmaRecords_append]
    exact Nat.add_le_add ha.records hb.records

theorem flatMap {α : Type} {f g : α → List Segment} {xs : List α}
    (h : ∀ x ∈ xs, Conserves (f x) (g x)) : Conserves (xs.flatMap f) (xs.flatMap g) := by
  induction xs with
  | nil => exact refl []
  | cons x xs ih =>
    rw [List.forall_mem_cons] at h
    exact h.1.append (ih h.2)

theorem of_perm {a b : List Segment}
    (h : (a.filter Segment.isDma).Perm (b.filter Segment.isDma)) : Conserves a b where
  words := by
    have hissued : (issued a).Perm (issued b) := by
      rw [← issued_filter_isDma a, ← issued_filter_isDma b]
      exact issued_perm h
    exact (hissued.map Transfer.elements).sum_eq.symm
  records := (h.map Segment.records).sum_eq.ge

theorem of_eraseCount_perm {a b : List Segment}
    (h : (a.map Segment.eraseCount).Perm (b.map Segment.eraseCount)) : Conserves a b := by
  have hdma := h.filter Segment.isDma
  rw [filter_isDma_map_eraseCount, filter_isDma_map_eraseCount] at hdma
  exact of_perm hdma

end Conserves

theorem conserves_refreshBlocks (segments : List Segment) :
    Conserves segments (refreshBlocks segments) :=
  .of_eraseCount_perm (.of_eq (map_eraseCount_refreshBlocks segments).symm)

theorem conserves_permuteRuns {joins : Transfer → Transfer → Bool}
    {f : List Transfer → List Transfer} (hf : ∀ run, (f run).Perm run) (segments : List Segment) :
    Conserves segments (permuteRuns joins f segments) :=
  .of_perm ((permuteRuns_perm hf segments).symm.filter _)

theorem HeldBack.conserves {a b : List Segment} (h : HeldBack [] a b) : Conserves a b :=
  .of_eraseCount_perm h.map_eraseCount_perm

/-! ## Rolling loops -/

theorem dmaRecords_of_forall_isDma {segments : List Segment}
    (h : ∀ s ∈ segments, s.isDma = true) : dmaRecords segments = recordCount segments := by
  rw [dmaRecords, List.filter_eq_self.mpr h]

theorem conserves_rollRun {minLen : Nat} (hmin : 2 ≤ minLen) (run : List Transfer) :
    Conserves (run.map .transfer) (rollRun minLen run) where
  words := by
    have hissued := issued_eq_of_unroll (congrArg (List.map Segment.eraseCount)
      (rolls_rollRun hmin run).unroll_eq)
    rw [elementTotal, hissued, elementTotal]
  records := by
    rw [dmaRecords_of_forall_isDma (fun s hs => (isRolled_of_mem_rollRun hs).isDma),
      dmaRecords_of_forall_isDma (by simp [Segment.isDma])]
    exact (rolls_rollRun hmin run).records_le

theorem conserves_rolled {minLen : Nat} (hmin : 2 ≤ minLen) (segments : List Segment) :
    Conserves segments (mapRuns Transfer.sameShape (rollRun minLen) segments) :=
  mapRuns_rel (R := fun b a => Conserves a b) Conserves.refl Conserves.append
    (conserves_rollRun hmin) segments

/-! ## Absorbing neighbours -/

section Absorbing

variable {P : Transfer → Prop} {lost : Transfer → Nat}

theorem elementTotal_transfer_cons (t : Transfer) (rest : List Segment) :
    elementTotal (.transfer t :: rest) = t.elements + elementTotal rest := rfl

theorem dmaRecords_transfer_cons (t : Transfer) (rest : List Segment) :
    dmaRecords (.transfer t :: rest) = 1 + dmaRecords rest := rfl

/-- What a sweep leaves of a stream: every transfer that is kept satisfies `P`, and the words that
are missing are those lost with the transfers that were absorbed. -/
structure Swept (P : Transfer → Prop) (lost : Transfer → Nat) (segments : List Segment)
    (out : Absorbed) : Prop where
  kept : ∀ t, .transfer t ∈ out.kept → P t
  words : elementTotal out.kept + total (out.absorbed.map lost) = elementTotal segments
  records : dmaRecords out.kept ≤ dmaRecords segments

namespace Swept

theorem append {rest : List Segment} {out : Absorbed} (h : Swept P lost rest out)
    {front : List Segment} (hfront : ∀ t, .transfer t ∈ front → P t) :
    Swept P lost (front ++ rest) { out with kept := front ++ out.kept } where
  kept t ht := (List.mem_append.mp ht).elim (hfront t) (h.kept t)
  words := by rw [elementTotal_append, elementTotal_append, ← h.words, Nat.add_assoc]
  records := by
    rw [dmaRecords_append, dmaRecords_append]
    exact Nat.add_le_add_left h.records _

theorem join {a b joined : Transfer} {rest : List Segment} {out : Absorbed}
    (h : Swept P lost (.transfer joined :: rest) out)
    (hwords : joined.elements + lost b = a.elements + b.elements) :
    Swept P lost (.transfer a :: .transfer b :: rest)
      { out with absorbed := b :: out.absorbed } where
  kept := h.kept
  words := by
    have hrest := h.words
    change elementTotal out.kept + (lost b + total (out.absorbed.map lost)) = _
    rw [elementTotal_transfer_cons] at hrest ⊢
    rw [elementTotal_transfer_cons]
    omega
  records := by
    have hrest := h.records
    rw [dmaRecords_transfer_cons] at hrest ⊢
    rw [dmaRecords_transfer_cons]
    exact hrest.trans (Nat.le_add_left _ 1)

end Swept

theorem forall_transfer_held {pending : Option Transfer} (hp : ∀ t ∈ pending, P t) :
    ∀ t, Segment.transfer t ∈ pending.toList.map Segment.transfer → P t := by
  intro t ht
  obtain ⟨u, hu, hut⟩ := List.mem_map.mp ht
  exact hp t (by simpa [← Segment.transfer.inj hut] using hu)

variable {m : Type → Type} [Monad m] [LawfulMonad m]
  {join : Transfer → Transfer → m (Option Transfer)}

theorem absorbWith_eq_pure
    (hjoin : ∀ a b, P a → P b → ∃ r, join a b = pure r ∧
      ∀ joined ∈ r, P joined ∧ joined.elements + lost b = a.elements + b.elements)
    {pending : Option Transfer} {segments : List Segment} (hp : ∀ t ∈ pending, P t)
    (hs : ∀ t, .transfer t ∈ segments → P t) :
    ∃ out, absorbWith join pending segments = pure out ∧
      Swept P lost (pending.toList.map .transfer ++ segments) out := by
  induction segments generalizing pending with
  | nil =>
    refine ⟨⟨pending.toList.map .transfer, []⟩, by rw [absorbWith], ?_⟩
    rw [List.append_nil]
    exact ⟨forall_transfer_held hp, rfl, le_rfl⟩
  | cons s rest ih =>
    have hrest : ∀ t, .transfer t ∈ rest → P t := fun t ht => hs t (List.mem_cons_of_mem s ht)
    have hbarrier : s.transfer? = none → ∃ out, absorbWith join pending (s :: rest) = pure out ∧
        Swept P lost (pending.toList.map .transfer ++ s :: rest) out := by
      intro hst
      obtain ⟨out, hout, hswept⟩ := @ih none (by simp) hrest
      have hs' : ∀ t, .transfer t ∈ [s] → P t := by
        intro t ht
        rw [← List.mem_singleton.mp ht] at hst
        cases hst
      refine ⟨{ out with kept := pending.toList.map .transfer ++ s :: out.kept }, ?_, ?_⟩
      · rw [absorbWith_barrier hst, hout, pure_bind]
      · exact (hswept.append hs').append (forall_transfer_held hp)
    cases s with
    | transfer t =>
      have ht : P t := hs t List.mem_cons_self
      cases pending with
      | none => exact @ih (some t) (by simpa using ht) hrest
      | some last =>
        have hlast : P last := hp last rfl
        obtain ⟨r, hr, hjoined⟩ := hjoin last t hlast ht
        cases r with
        | none =>
          obtain ⟨out, hout, hswept⟩ := @ih (some t) (by simpa using ht) hrest
          refine ⟨{ out with kept := .transfer last :: out.kept }, ?_,
            hswept.append (forall_transfer_held hp)⟩
          rw [absorbWith, hr, pure_bind]
          dsimp only
          rw [hout, pure_bind]
        | some joined =>
          obtain ⟨hP, hwords⟩ := hjoined joined rfl
          obtain ⟨out, hout, hswept⟩ := @ih (some joined) (by simpa using hP) hrest
          refine ⟨{ out with absorbed := t :: out.absorbed }, ?_, hswept.join hwords⟩
          rw [absorbWith, hr, pure_bind]
          dsimp only
          rw [hout, pure_bind]
    | loop _ | compute _ | block _ | sync _ | padding _ | scatter _ => exact hbarrier rfl

theorem absorb_eq_pure
    (hjoin : ∀ a b, P a → P b → ∃ r, join a b = pure r ∧
      ∀ joined ∈ r, P joined ∧ joined.elements + lost b = a.elements + b.elements)
    {segments : List Segment} (hs : ∀ t, .transfer t ∈ segments → P t) :
    ∃ out, absorb join segments = pure out ∧ Swept P lost segments out :=
  have hnone : ∀ t ∈ (none : Option Transfer), P t := by simp
  absorbWith_eq_pure hjoin hnone hs

/-- If joining loses no words, neither does the sweep. -/
theorem absorb_conserves
    (hjoin : ∀ {a b}, P a → P b → ∃ r, join a b = pure r ∧
      ∀ joined ∈ r, P joined ∧ joined.elements = a.elements + b.elements)
    {segments : List Segment} (hs : ∀ t, .transfer t ∈ segments → P t) :
    ∃ out, absorb join segments = pure out ∧ (∀ t, .transfer t ∈ out.kept → P t) ∧
      Conserves segments out.kept := by
  have hjoin' : ∀ a b, P a → P b → ∃ r, join a b = pure r ∧
      ∀ joined ∈ r, P joined ∧ joined.elements + 0 = a.elements + b.elements := by
    intro a b ha hb
    simpa only [Nat.add_zero] using hjoin ha hb
  obtain ⟨out, hout, hswept⟩ := absorb_eq_pure hjoin' hs
  refine ⟨out, hout, hswept.kept, ?_, hswept.records⟩
  simpa [total_eq_sum] using hswept.words

end Absorbing

end CommandStream
