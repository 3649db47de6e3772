import CommandStream.Proofs.Gathering

/-! # How large transfers get

No pass but merging makes a transfer larger, and merging does so only where it joins. The limit on
the words of one transfer bounds what becomes a row and is not looked at when transfers are joined.
-/

namespace CommandStream

/-! ## Passes that only rearrange -/

theorem mem_issued {segments : List Segment} {t : Transfer} :
    t ∈ issued segments ↔ ∃ s ∈ segments, t ∈ s.transfers := List.mem_flatMap

theorem mem_issued_balance {segments : List Segment} {loads : Bool} {t : Transfer} :
    t ∈ issued (balance segments loads) ↔ t ∈ issued segments := by
  simp only [mem_issued, balance, mem_permuteRuns (balanceRun_perm loads)]

theorem HeldBack.issued_perm {a b : List Segment} (h : HeldBack [] a b) :
    (issued a).Perm (issued b) := by
  rw [← issued_map_eraseCount a, ← issued_map_eraseCount b]
  exact CommandStream.issued_perm h.map_eraseCount_perm

/-- Behind merging and batching, no transfer is made or lost. -/
theorem mem_issued_of_gather {segments : List Segment} {pad : PadWidths} {cfg : Settings}
    {o : Optimized} (h : optimize segments pad cfg = .ok o) :
    ∃ gathered joins, gather segments cfg = .ok (gathered, joins) ∧
      ∀ t, t ∈ issued o.segments ↔ t ∈ issued gathered := by
  obtain ⟨gathered, joins, spread, rolled, hgather, hspread, hroll, hbalance⟩ := gather_of_optimize h
  refine ⟨gathered, joins, hgather, fun t => ?_⟩
  have hspread' := hspread.rel (R := fun a b => t ∈ issued b ↔ t ∈ issued a) (fun _ => Iff.rfl)
    fun _ hrun => (heldBack_spreadStores hrun).issued_perm.mem_iff.symm
  have hroll' := hroll.rel (R := fun a b => t ∈ issued b ↔ t ∈ issued a) (fun _ => Iff.rfl)
    fun _ hrun => by rw [issued_rollLoops hrun]
  have hbalance' := hbalance.rel (R := fun a b => t ∈ issued b ↔ t ∈ issued a) (fun _ => Iff.rfl)
    fun _ hrun => by rw [← pure_eq_ok_iff.mp hrun, mem_issued_balance]
  rw [hbalance', hroll', hspread']

/-! ## Areas -/

theorem TransferLoop.area_of_mem_expand {l : TransferLoop} {t : Transfer} (h : t ∈ l.expand) :
    t.area = l.base.area := by
  obtain ⟨cluster, unit, inner, -, -, rfl⟩ := mem_expand_iff.mp h
  rfl

theorem reshapeInvariant_area (limit : Nat) :
    ReshapeInvariant fun _ s => s.area ≤ limit where
  flatten := by
    intro pad t maxElements h
    obtain ⟨u, hu, -, -, harea, -⟩ := t.flattenSegment_transfer maxElements
    rw [hu]
    exact harea.trans_le h
  trim := by
    intro pad t s index hs h
    obtain ⟨u, rfl, -, -, hwidth, hheight, -⟩ := Transfer.trimSegment_eq_transfer hs
    refine le_trans ?_ h
    simp only [Segment.area, Transfer.area, hwidth, hheight]
    exact Nat.mul_le_mul_right _ (Nat.sub_le _ _)

theorem broadcastInvariant_area (limit : Nat) :
    BroadcastInvariant fun _ s => s.area ≤ limit := by
  intro pad a b joined h ha _
  rw [(Transfer.broadcast_eq_some h).2]
  exact ha

theorem mem_of_loop_mem_gather {segments gathered : List Segment} {cfg : Settings} {joins : Nat}
    (h : gather segments cfg = .ok (gathered, joins)) {l : TransferLoop}
    (hl : .loop l ∈ gathered) : .loop l ∈ segments := by
  have hcarries : Carries (fun _ s => ∀ l, s = .loop l → .loop l ∈ segments) segments gathered := by
    refine carries_gather h (by simp) (by simp [BroadcastInvariant]) (fun _ => ⟨?_, ?_⟩)
      (fun _ => ⟨by simp, by simp⟩)
    · intro pad t maxElements _
      obtain ⟨u, hu, -⟩ := t.flattenSegment_transfer maxElements
      simp [hu]
    · intro pad t s index hs _
      obtain ⟨u, rfl, -⟩ := Transfer.trimSegment_eq_transfer hs
      simp
  have hall := hcarries.holds {} (everywhere_const_iff.mpr fun s hs l hsl => hsl ▸ hs)
  exact everywhere_const_iff.mp hall _ hl l rfl

/-- The optimiser keeps to the limit on the words of one transfer exactly if merging does, and it
does if merging joins no two transfers. -/
theorem optimize_within_limit_iff {segments : List Segment} {pad : PadWidths} {cfg : Settings}
    {o : Optimized}
    (hin : ∀ s ∈ segments, s.area ≤ cfg.hardware.maxTransferElements.toNat)
    (h : optimize segments pad cfg = .ok o) :
    ∃ gathered joins, gather segments cfg = .ok (gathered, joins) ∧
      ((∀ t ∈ issued o.segments, t.area ≤ cfg.hardware.maxTransferElements.toNat) ↔
        ∀ t, .transfer t ∈ gathered → t.area ≤ cfg.hardware.maxTransferElements.toNat) ∧
      (joins = 0 →
        ∀ t ∈ issued o.segments, t.area ≤ cfg.hardware.maxTransferElements.toNat) := by
  set limit := cfg.hardware.maxTransferElements.toNat
  obtain ⟨gathered, joins, hgather, hissued⟩ := mem_issued_of_gather h
  have hiff : (∀ t ∈ issued o.segments, t.area ≤ limit) ↔
      ∀ t, .transfer t ∈ gathered → t.area ≤ limit := by
    constructor
    · intro hout t ht
      exact hout t ((hissued t).mpr (mem_issued.mpr ⟨_, ht, List.mem_singleton_self t⟩))
    · intro hplain t ht
      obtain ⟨s, hs, hts⟩ := mem_issued.mp ((hissued t).mp ht)
      cases s with
      | transfer u => exact List.mem_singleton.mp hts ▸ hplain u hs
      | loop l =>
        rw [TransferLoop.area_of_mem_expand hts]
        exact hin _ (mem_of_loop_mem_gather hgather hs)
      | compute _ | block _ | sync _ | padding _ | scatter _ => cases hts
  refine ⟨gathered, joins, hgather, hiff, fun hnone => hiff.mpr fun t ht => ?_⟩
  have hcarries : Carries (fun _ s => s.area ≤ limit) segments gathered :=
    carries_gather hgather (fun _ _ => Nat.zero_le _) (broadcastInvariant_area limit)
      (fun _ => reshapeInvariant_area limit) (fun hpos => by omega)
  have hall := hcarries.holds {} (everywhere_const_iff.mpr hin)
  exact everywhere_const_iff.mp hall _ ht

def twoRows : List Segment :=
  [.transfer (.row .load1d 1 1 0x1000 0 8), .transfer (.row .load1d 1 1 0x1010 8 8)]

theorem gather_twoRows (limit : UInt32) (h : limit = 8 ∨ limit = 16) :
    gather twoRows (mergingOnly limit) = .ok ([.transfer (.row .load1d 1 1 0x1000 0 16)], 1) := by
  delta gather mergeIf mergeWithStats
  simp only [Merging.reorder, sortOn_eq_insertionSort Transfer.hostKey fun _ _ => rfl,
    sortOn_eq_insertionSort Transfer.localKey fun _ _ => rfl,
    sortOn_eq_insertionSort Transfer.addressKey fun _ _ => rfl]
  rcases h with rfl | rfl
  · decide +kernel
  · decide +kernel

theorem optimize_twoRows (limit : UInt32) (h : limit = 8 ∨ limit = 16) :
    Optimized.segments <$> optimize twoRows {} (mergingOnly limit) =
      .ok [.transfer (.row .load1d 1 1 0x1000 0 16)] := by
  delta optimize merge mergeWithStats
  simp only [Merging.reorder, sortOn_eq_insertionSort Transfer.hostKey fun _ _ => rfl,
    sortOn_eq_insertionSort Transfer.localKey fun _ _ => rfl,
    sortOn_eq_insertionSort Transfer.addressKey fun _ _ => rfl]
  rcases h with rfl | rfl
  · decide +kernel
  · decide +kernel

/-- Joined, the rows have exactly the words of the limit. -/
theorem optimize_within_limit_twoRows :
    (∀ s ∈ twoRows, s.area ≤ 16) ∧ ∃ o, optimize twoRows {} (mergingOnly 16) = .ok o ∧
      ∀ t ∈ issued o.segments, t.area ≤ 16 := by
  have hin : ∀ s ∈ twoRows, s.area ≤ 16 := by decide
  obtain ⟨o, ho, -⟩ := map_eq_ok_iff.mp (optimize_twoRows 16 (.inr rfl))
  obtain ⟨gathered, joins, hgather, hiff, -⟩ := optimize_within_limit_iff hin ho
  rw [gather_twoRows 16 (.inr rfl)] at hgather
  obtain ⟨rfl, -⟩ := Prod.mk.inj (Except.ok.inj hgather)
  have hall : ∀ t : Transfer, Segment.transfer t ∈
      [Segment.transfer (.row .load1d 1 1 0x1000 0 16)] → t.area ≤ 16 := by
    intro t ht
    obtain rfl := Segment.transfer.inj (List.mem_singleton.mp ht)
    decide
  exact ⟨hin, o, ho, hiff.mpr hall⟩

/-- With a limit of eight words, the rows are joined all the same. -/
theorem optimize_exceeds_limit :
    (∀ s ∈ twoRows, s.area ≤ 8) ∧ ∃ o, optimize twoRows {} (mergingOnly 8) = .ok o ∧
      ∃ t ∈ issued o.segments, 8 < t.area := by
  obtain ⟨o, ho, hsegments⟩ := map_eq_ok_iff.mp (optimize_twoRows 8 (.inl rfl))
  refine ⟨by decide, o, ho, .row .load1d 1 1 0x1000 0 16, ?_, by decide⟩
  rw [hsegments]
  exact List.mem_singleton_self _

end CommandStream
