import CommandStream.Proofs.Markers
import CommandStream.Proofs.RollMeaning
import CommandStream.Proofs.Spreading

/-! # Rolling loops never fails

A loop that is written states the number of transfers it stands for and stands for two at least. So
unrolling gives the stream back, no count is off, and no records are added.
-/

namespace CommandStream

/-! ## What rolling writes -/

/-- A transfer, or a loop for at least `minLen` transfers that states their number. -/
def Segment.IsRolled (minLen : Nat) : Segment → Prop
  | .transfer _ => True
  | .loop l => minLen ≤ l.expand.length ∧ l.count.toNat = l.expand.length
  | _ => False

theorem Segment.IsRolled.isDma {minLen : Nat} {s : Segment} (h : s.IsRolled minLen) :
    s.isDma = true := by
  cases s with
  | transfer _ | loop _ => rfl
  | compute _ | block _ | sync _ | padding _ | scatter _ => exact h.elim

namespace Progression

variable {p : Progression}

theorem length_transfers (p : Progression) : p.transfers.length = p.length := by
  simp [transfers, length]

theorem count_loop? {l : TransferLoop} (h : p.loop? = some l) : l.count.toNat = p.length := by
  simp only [loop?, Option.bind_eq_bind, Option.bind_eq_some_iff, Option.pure_def,
    Option.some.injEq, Option.guard_eq_some'] at h
  obtain ⟨_, -, _, ⟨-, -, -, hlength⟩, _, -, _, -, rfl⟩ := h
  exact UInt16.toNat_ofNat_of_lt' hlength

theorem isRolled_of_mem_finish {minLen : Nat} {s : Segment} (h : s ∈ p.finish minLen) :
    s.IsRolled minLen := by
  have hplain : s ∈ p.transfers.map .transfer → s.IsRolled minLen := by
    intro hs
    obtain ⟨t, -, rfl⟩ := List.mem_map.mp hs
    trivial
  unfold finish at h
  split at h
  · rename_i l hl
    split at h
    · rename_i hcond
      simp only [Bool.and_eq_true, decide_eq_true_eq, beq_iff_eq] at hcond
      obtain ⟨hmin, hexpand⟩ := hcond
      obtain rfl := List.mem_singleton.mp h
      rw [Segment.IsRolled, hexpand, length_transfers]
      exact ⟨hmin, count_loop? hl⟩
    · exact hplain h
  · exact hplain h

end Progression

theorem isRolled_of_mem_rollFrom {minLen : Nat} {candidate : LoopCandidate} {rest : List Transfer}
    {s : Segment} (h : s ∈ rollFrom minLen candidate rest) : s.IsRolled minLen := by
  fun_induction rollFrom with
  | case1 t =>
    obtain rfl := List.mem_singleton.mp h
    trivial
  | case2 t next rest p hp ih => exact ih h
  | case3 t next rest hp ih =>
    obtain rfl | h := List.mem_cons.mp h
    · trivial
    · exact ih h
  | case4 p => exact Progression.isRolled_of_mem_finish h
  | case5 p next rest p' hp ih => exact ih h
  | case6 p next rest hp ih =>
    obtain h | h := List.mem_append.mp h
    · exact Progression.isRolled_of_mem_finish h
    · exact ih h

theorem isRolled_of_mem_rollRun {minLen : Nat} {run : List Transfer} {s : Segment}
    (h : s ∈ rollRun minLen run) : s.IsRolled minLen := by
  cases run with
  | nil => cases h
  | cons t rest => exact isRolled_of_mem_rollFrom h

/-! ## Counts -/

theorem Segment.IsRolled.counts {minLen : Nat} (hmin : 2 ≤ minLen) {s : Segment}
    (h : s.IsRolled minLen) :
    s.records ≤ s.unroll.length ∧ s.unrolledCount = s.unroll.length := by
  cases s with
  | transfer t => exact ⟨le_rfl, rfl⟩
  | loop l =>
    obtain ⟨hlen, hcount⟩ := h
    simp only [records, unroll, unrolledCount, List.length_map]
    exact ⟨hmin.trans hlen, hcount⟩
  | compute _ | block _ | sync _ | padding _ | scatter _ => exact h.elim

theorem counts_of_isRolled {minLen : Nat} (hmin : 2 ≤ minLen) {segments : List Segment}
    (h : ∀ s ∈ segments, s.IsRolled minLen) :
    recordCount segments ≤ (unroll segments).length ∧
      unrolledCount segments = (unroll segments).length := by
  induction segments with
  | nil => exact ⟨le_rfl, rfl⟩
  | cons s rest ih =>
    rw [List.forall_mem_cons] at h
    obtain ⟨hrecords, hcount⟩ := h.1.counts hmin
    obtain ⟨hrecords', hcount'⟩ := ih h.2
    have hlength : (unroll (s :: rest)).length = s.unroll.length + (unroll rest).length := by
      simp [unroll]
    have hunrolled : unrolledCount (s :: rest) = s.unrolledCount + unrolledCount rest := rfl
    rw [recordCount_cons, hlength, hunrolled]
    omega

/-- Two streams unroll alike, state as many transfers, and the first takes no more records. -/
structure Rolls (a b : List Segment) : Prop where
  unroll_eq : unroll a = unroll b
  records_le : recordCount a ≤ recordCount b
  unrolledCount_eq : unrolledCount a = unrolledCount b

theorem Rolls.append {a a' b b' : List Segment} (ha : Rolls a a') (hb : Rolls b b') :
    Rolls (a ++ b) (a' ++ b') where
  unroll_eq := by rw [unroll_append, unroll_append, ha.unroll_eq, hb.unroll_eq]
  records_le := by
    rw [recordCount_append, recordCount_append]
    exact Nat.add_le_add ha.records_le hb.records_le
  unrolledCount_eq := by
    have hsum : ∀ c d : List Segment, unrolledCount (c ++ d) = unrolledCount c + unrolledCount d :=
      fun c d => by simp [unrolledCount, total_eq_sum]
    rw [hsum, hsum, ha.unrolledCount_eq, hb.unrolledCount_eq]

theorem rolls_rollRun {minLen : Nat} (hmin : 2 ≤ minLen) (run : List Transfer) :
    Rolls (rollRun minLen run) (run.map .transfer) := by
  have hunroll := unroll_rollRun minLen run
  have hrolled : ∀ s ∈ rollRun minLen run, s.IsRolled minLen := fun s => isRolled_of_mem_rollRun
  obtain ⟨hrecords, hcount⟩ := counts_of_isRolled hmin hrolled
  have hrun : recordCount (run.map .transfer) = run.length ∧
      unrolledCount (run.map .transfer) = run.length := by
    simp [recordCount, unrolledCount, total_eq_sum, Function.comp_def, Segment.records,
      Segment.unrolledCount]
  rw [hunroll, List.length_map] at hrecords hcount
  refine ⟨hunroll.trans (Progression.unroll_map_transfer run).symm, ?_, ?_⟩
  · rw [hrun.1]; exact hrecords
  · rw [hrun.2]; exact hcount

theorem rolls_mapRuns {minLen : Nat} (hmin : 2 ≤ minLen) (segments : List Segment) :
    Rolls (mapRuns Transfer.sameShape (rollRun minLen) segments) segments :=
  mapRuns_rel (fun _ => ⟨rfl, le_rfl, rfl⟩) Rolls.append (rolls_rollRun hmin) segments

/-! ## Refreshed markers -/

theorem unrolledCount_refreshBlocks (segments : List Segment) :
    unrolledCount (refreshBlocks segments) = unrolledCount segments := by
  fun_induction refreshBlocks with
  | case1 => rfl
  | case2 count rest ih => exact congrArg (1 + ·) ih
  | case3 s rest _ ih => exact congrArg (s.unrolledCount + ·) ih

theorem Segment.map_eraseCount_unroll (s : Segment) :
    s.unroll.map Segment.eraseCount = s.eraseCount.unroll := by
  cases s <;> simp [unroll, eraseCount]

theorem map_eraseCount_unroll (segments : List Segment) :
    (unroll segments).map Segment.eraseCount = unroll (segments.map Segment.eraseCount) := by
  simp [unroll, List.map_flatMap, List.flatMap_map, Segment.map_eraseCount_unroll]

theorem issued_unroll (segments : List Segment) : issued (unroll segments) = issued segments := by
  unfold issued unroll
  rw [List.flatMap_assoc]
  refine List.flatMap_congr fun s _ => ?_
  cases s with
  | loop l => simp [Segment.unroll, Segment.transfers, List.flatMap_map]
  | transfer _ | compute _ | block _ | sync _ | padding _ | scatter _ => rfl

theorem issued_map_eraseCount (segments : List Segment) :
    issued (segments.map Segment.eraseCount) = issued segments := by
  unfold issued
  rw [List.flatMap_map]
  refine List.flatMap_congr fun s _ => ?_
  cases s <;> rfl

theorem issued_eq_of_unroll {a b : List Segment}
    (h : (unroll a).map Segment.eraseCount = (unroll b).map Segment.eraseCount) :
    issued a = issued b := by
  rw [← issued_unroll a, ← issued_unroll b, ← issued_map_eraseCount, h, issued_map_eraseCount]

/-! ## The whole pass -/

theorem unroll_refreshBlocks_mapRuns (minLen : Nat) (segments : List Segment) :
    (unroll (refreshBlocks (mapRuns Transfer.sameShape (rollRun (max minLen 2)) segments))).map
        Segment.eraseCount = (unroll segments).map Segment.eraseCount := by
  have hrolls := rolls_mapRuns (le_max_right minLen 2) segments
  rw [map_eraseCount_unroll, map_eraseCount_refreshBlocks, ← map_eraseCount_unroll,
    hrolls.unroll_eq]

theorem issued_rollLoops {segments out : List Segment} {minLen : Nat}
    (h : rollLoops segments minLen = .ok out) : issued out = issued segments := by
  rw [rollLoops_eq_ok h]
  exact issued_eq_of_unroll (unroll_refreshBlocks_mapRuns minLen segments)

/-- Rolling loops fails for nothing but the number of the words. -/
theorem rollLoops_of_lt {segments : List Segment} (h : elementTotal segments < 2 ^ 64)
    (minLen : Nat) : rollLoops segments minLen =
      .ok (refreshBlocks (mapRuns Transfer.sameShape (rollRun (max minLen 2)) segments)) := by
  have hrolls := rolls_mapRuns (le_max_right minLen 2) segments
  have hunroll := unroll_refreshBlocks_mapRuns minLen segments
  set rolled := mapRuns Transfer.sameShape (rollRun (max minLen 2)) segments with hrolled
  have hcount : unrolledCount (refreshBlocks rolled) = unrolledCount segments := by
    rw [unrolledCount_refreshBlocks, hrolls.unrolledCount_eq]
  have hbefore : countElements segments = .ok (elementTotal segments) :=
    countElements_eq_ok_iff.mpr ⟨rfl, h⟩
  have hafter : countElements (refreshBlocks rolled) = .ok (elementTotal segments) := by
    refine countElements_eq_ok_iff.mpr ⟨?_, h⟩
    rw [elementTotal, issued_eq_of_unroll hunroll, elementTotal]
  unfold rollLoops
  rw [hbefore, liftM_checked_ok]
  simp [← hrolled, hcount, hafter, liftM_checked_ok]

theorem rollLoops_of_le {segments : List Segment} (h : 2 ^ 64 ≤ elementTotal segments)
    (minLen : Nat) : rollLoops segments minLen = .error (.overflow .sum) := by
  unfold rollLoops
  rw [countElements_eq_error_iff.mpr ⟨rfl, h⟩]
  rfl

/-- Rolling loops succeeds. The result unrolls as the stream does, counts of markers apart, its
markers are consistent, and it takes no more records. -/
theorem rollLoops_exact {segments : List Segment} (hrecords : recordCount segments < 2 ^ 32)
    (helements : elementTotal segments < 2 ^ 64) (minLen : Nat) :
    ∃ out, rollLoops segments minLen = .ok out ∧
      (unroll out).map Segment.eraseCount = (unroll segments).map Segment.eraseCount ∧
      checkBlocks out = .ok () ∧ recordCount out ≤ recordCount segments := by
  have hrolls := rolls_mapRuns (le_max_right minLen 2) segments
  refine ⟨_, rollLoops_of_lt helements minLen, unroll_refreshBlocks_mapRuns minLen segments, ?_, ?_⟩
  · exact checkBlocks_refreshBlocks (hrolls.records_le.trans_lt hrecords)
  · rw [recordCount_refreshBlocks]
    exact hrolls.records_le

def unitSweep : List Segment :=
  .block 2 :: (List.range 6).map (fun unit => .transfer (.row .load1d 1 (UInt32.ofNat (2 ^ unit))
    (UInt64.ofNat (0x1000 + 64 * unit)) 0 32)) ++
  [.loop {
    clusterLen := 1, clusterShift := 1, unitLen := 0, unitShift := 0, innerLen := 0, localStep := 0
    hostStep := 64, count := 9, base := .row .store1d 1 1 0x2000 0 32 }]

theorem rollLoops_exact_unitSweep :
    recordCount unitSweep < 2 ^ 32 ∧ elementTotal unitSweep < 2 ^ 64 ∧
    ∃ out, rollLoops unitSweep 5 = .ok out ∧
      (unroll out).map Segment.eraseCount = (unroll unitSweep).map Segment.eraseCount ∧
      checkBlocks out = .ok () ∧ recordCount out ≤ recordCount unitSweep :=
  have hrecords : recordCount unitSweep < 2 ^ 32 := by decide
  have helements : elementTotal unitSweep < 2 ^ 64 := by decide +kernel
  ⟨hrecords, helements, rollLoops_exact hrecords helements 5⟩

end CommandStream
