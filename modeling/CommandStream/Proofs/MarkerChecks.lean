import CommandStream.Proofs.Markers

/-! # Checking markers

A block is filled segment by segment, and a loop takes two records at once, so the stated number of
records can be missed from below, at the end of the run, or by one, inside a loop. It is met exactly
if it is the size of some front part of the run. Markers that are refreshed state the whole run. A
counter of 32 bits is left only where a loop is cut by a marker that states the largest number.
-/

namespace CommandStream

/-! ## Filling a block -/

/-- Some front part of the run takes exactly the number of records. -/
def Fillable (run : List Segment) (stated : Nat) : Prop :=
  ∃ body, body <+: run ∧ recordCount body = stated

instance (run : List Segment) (stated : Nat) : Decidable (Fillable run stated) :=
  decidable_of_iff (∃ body ∈ run.inits, recordCount body = stated) <| by
    simp only [Fillable, List.mem_inits]

/-- The records at which filling a block ends if the stated number is missed: those of the whole
run, or one too many. -/
def missedAt (run : List Segment) (stated : Nat) : Nat :=
  if recordCount run < stated then recordCount run else stated + 1

theorem fillable_zero (run : List Segment) : Fillable run 0 := ⟨[], List.nil_prefix, rfl⟩

theorem fillable_nil_iff {stated : Nat} : Fillable [] stated ↔ stated = 0 := by
  constructor
  · rintro ⟨body, hbody, rfl⟩
    rw [List.prefix_nil.mp hbody]
    rfl
  · rintro rfl
    exact fillable_zero []

theorem fillable_cons_iff {s : Segment} {run : List Segment} {stated : Nat} :
    Fillable (s :: run) (s.records + stated) ↔ Fillable run stated := by
  constructor
  · rintro ⟨body, hbody, hcount⟩
    cases body with
    | nil =>
      have := s.records_pos
      change 0 = s.records + stated at hcount
      omega
    | cons u body =>
      obtain ⟨rfl, hrest⟩ := List.cons_prefix_cons.mp hbody
      rw [recordCount_cons] at hcount
      exact ⟨body, hrest, by omega⟩
  · rintro ⟨body, hbody, rfl⟩
    exact ⟨s :: body, (List.prefix_cons_inj s).mpr hbody, rfl⟩

theorem not_fillable_of_lt {s : Segment} {stated : Nat} (hpos : 0 < stated)
    (hlt : stated < s.records) (run : List Segment) : ¬Fillable (s :: run) stated := by
  rintro ⟨body, hbody, rfl⟩
  cases body with
  | nil => exact Nat.lt_irrefl 0 hpos
  | cons u body =>
    obtain ⟨rfl, -⟩ := List.cons_prefix_cons.mp hbody
    rw [recordCount_cons] at hlt
    omega

theorem missedAt_cons (s : Segment) (run : List Segment) (stated : Nat) :
    missedAt (s :: run) (s.records + stated) = s.records + missedAt run stated := by
  simp only [missedAt, recordCount_cons, Nat.add_lt_add_iff_left]
  split <;> rfl

/-- Only a marker that states as many records as a word can hold is missed outside of the word, when
a loop takes the last of them. -/
theorem le_missedAt_iff {run : List Segment} {count : UInt32} (h : ¬Fillable run count.toNat) :
    2 ^ 32 ≤ missedAt run count.toNat ↔
      count.toNat + 1 = 2 ^ 32 ∧ 2 ^ 32 ≤ recordCount run := by
  have hcount := count.toNat_lt
  have hrun : recordCount run ≠ count.toNat := fun hall => h ⟨run, List.prefix_rfl, hall⟩
  unfold missedAt
  split <;> omega

theorem Segment.records_le_two (s : Segment) : s.records ≤ 2 := by
  cases s <;> simp [records]

theorem fst_fillBlock (filled missing : Nat) (rest : List Segment) :
    (fillBlock (filled + missing) filled rest).1 =
      if Fillable (dmaRun rest) missing then filled + missing
      else filled + missedAt (dmaRun rest) missing := by
  induction rest generalizing filled missing with
  | nil =>
    cases missing with
    | zero => simp [fillBlock, dmaRun, fillable_zero]
    | succ missing => simp [fillBlock, dmaRun, fillable_nil_iff, missedAt, recordCount, total]
  | cons s rest ih =>
    cases missing with
    | zero => simp [fillBlock_of_le, fillable_zero]
    | succ missing =>
      cases hs : s.isDma with
      | false =>
        have hrun : dmaRun (s :: rest) = [] := List.takeWhile_cons_of_neg (by simp [hs])
        simp [fillBlock, hs, hrun, fillable_nil_iff, missedAt, recordCount, total]
      | true =>
        have hrun : dmaRun (s :: rest) = s :: dmaRun rest := List.takeWhile_cons_of_pos hs
        have hstep : (fillBlock (filled + (missing + 1)) filled (s :: rest)).1 =
            (fillBlock (filled + (missing + 1)) (filled + s.records) rest).1 := by
          simp [fillBlock, hs]
        rw [hstep, hrun]
        rcases Nat.lt_or_ge (missing + 1) s.records with hlt | hle
        · have htwo := s.records_le_two
          obtain rfl : missing = 0 := by omega
          have hmissed : missedAt (s :: dmaRun rest) 1 = 2 := by
            rw [missedAt, if_neg (by rw [recordCount_cons]; omega)]
          rw [fillBlock_of_le (by omega), if_neg (not_fillable_of_lt Nat.one_pos hlt _), hmissed]
          omega
        · obtain ⟨left, hleft⟩ := Nat.exists_eq_add_of_le hle
          have hsum : filled + (s.records + left) = filled + s.records + left := by omega
          rw [hleft, hsum, ih]
          simp only [fillable_cons_iff, missedAt_cons, Nat.add_assoc]

theorem blockBody_eq_error_iff {index : Nat} {count : UInt32} {rest : List Segment}
    {fault : Fault} :
    blockBody index count rest = .error fault ↔ ¬Fillable (dmaRun rest) count.toNat ∧
      fault = .malformedBlock index count.toNat (missedAt (dmaRun rest) count.toNat) := by
  have hreached := fst_fillBlock 0 count.toNat rest
  simp only [Nat.zero_add] at hreached
  unfold blockBody
  by_cases hfill : Fillable (dmaRun rest) count.toNat
  · simp [hreached, hfill]
  · have hmissed : missedAt (dmaRun rest) count.toNat ≠ count.toNat := by
      unfold missedAt
      split <;> omega
    simp [hreached, hfill, hmissed, eq_comm]

theorem exists_blockBody_iff {index : Nat} {count : UInt32} {rest : List Segment} :
    (∃ body, blockBody index count rest = .ok body) ↔ Fillable (dmaRun rest) count.toNat := by
  cases hbody : blockBody index count rest with
  | error fault => simp [(blockBody_eq_error_iff.mp hbody).1]
  | ok body =>
    simp only [Except.ok.injEq, exists_eq', true_iff]
    by_contra hfill
    cases hbody.symm.trans (blockBody_eq_error_iff.mpr ⟨hfill, rfl⟩)

/-! ## The first marker that is wrong -/

/-- A marker stands at the place, and no front part of the run behind it has the size it states. -/
structure Misstated (segments : List Segment) (i : Nat) (count : UInt32) : Prop where
  marker : segments[i]? = some (.block count)
  unfillable : ¬Fillable (dmaRun (segments.drop (i + 1))) count.toNat

structure FirstMisstated (segments : List Segment) (i : Nat) (count : UInt32) : Prop
    extends Misstated segments i count where
  first : ∀ j < i, ∀ earlier, ¬Misstated segments j earlier

theorem misstated_cons_succ_iff {s : Segment} {rest : List Segment} {i : Nat} {count : UInt32} :
    Misstated (s :: rest) (i + 1) count ↔ Misstated rest i count :=
  ⟨fun h => ⟨h.marker, h.unfillable⟩, fun h => ⟨h.marker, h.unfillable⟩⟩

theorem misstated_zero_iff {s : Segment} {rest : List Segment} {count : UInt32} :
    Misstated (s :: rest) 0 count ↔
      s = .block count ∧ ¬Fillable (dmaRun rest) count.toNat :=
  ⟨fun h => ⟨Option.some.inj h.marker, h.unfillable⟩, fun h => ⟨congrArg some h.1, h.2⟩⟩

theorem firstMisstated_of_head {count c : UInt32} {rest : List Segment} {i : Nat}
    (h : ¬Fillable (dmaRun rest) count.toNat) :
    FirstMisstated (.block count :: rest) i c ↔ i = 0 ∧ c = count := by
  have hhead : Misstated (.block count :: rest) 0 count := misstated_zero_iff.mpr ⟨rfl, h⟩
  constructor
  · intro hfirst
    obtain rfl : i = 0 := by
      by_contra hi
      exact hfirst.first 0 (Nat.pos_of_ne_zero hi) count hhead
    exact ⟨rfl, (Segment.block.inj (misstated_zero_iff.mp hfirst.toMisstated).1).symm⟩
  · rintro ⟨rfl, rfl⟩
    exact ⟨hhead, fun j hj => absurd hj (Nat.not_lt_zero j)⟩

theorem firstMisstated_cons_iff {s : Segment} {rest : List Segment} {i : Nat} {count : UInt32}
    (h : ∀ c, ¬Misstated (s :: rest) 0 c) :
    FirstMisstated (s :: rest) i count ↔ ∃ k, i = k + 1 ∧ FirstMisstated rest k count := by
  constructor
  · rintro ⟨hmis, hfirst⟩
    cases i with
    | zero => exact absurd hmis (h count)
    | succ k =>
      refine ⟨k, rfl, misstated_cons_succ_iff.mp hmis, fun j hj c hc => ?_⟩
      exact hfirst (j + 1) (Nat.succ_lt_succ hj) c (misstated_cons_succ_iff.mpr hc)
  · rintro ⟨k, rfl, hmis, hfirst⟩
    refine ⟨misstated_cons_succ_iff.mpr hmis, fun j hj c hc => ?_⟩
    cases j with
    | zero => exact h c hc
    | succ j => exact hfirst j (Nat.lt_of_succ_lt_succ hj) c (misstated_cons_succ_iff.mp hc)

/-- The check of a part that starts at `index` reports the first marker that is wrong. -/
theorem checkBlocksFrom_eq_error_iff {index : Nat} {segments : List Segment} {fault : Fault} :
    checkBlocksFrom index segments = .error fault ↔ ∃ i count, FirstMisstated segments i count ∧
      fault = .malformedBlock (index + i) count.toNat
        (missedAt (dmaRun (segments.drop (i + 1))) count.toNat) := by
  induction segments generalizing index with
  | nil =>
    constructor
    · intro h
      cases h
    · rintro ⟨i, count, hfirst, -⟩
      cases hfirst.marker
  | cons s rest ih =>
    have hrest (hs : ∀ c, ¬Misstated (s :: rest) 0 c) :
        checkBlocksFrom (index + 1) rest = .error fault ↔
          ∃ i count, FirstMisstated (s :: rest) i count ∧
            fault = .malformedBlock (index + i) count.toNat
              (missedAt (dmaRun ((s :: rest).drop (i + 1))) count.toNat) := by
      simp only [ih, firstMisstated_cons_iff hs]
      constructor
      · rintro ⟨k, count, hfirst, hfault⟩
        rw [Nat.add_right_comm] at hfault
        exact ⟨k + 1, count, ⟨k, rfl, hfirst⟩, hfault⟩
      · rintro ⟨_, count, ⟨k, rfl, hfirst⟩, hfault⟩
        rw [← Nat.add_assoc, Nat.add_right_comm] at hfault
        exact ⟨k, count, hfirst, hfault⟩
    cases s with
    | block count =>
      rw [checkBlocksFrom]
      by_cases hfill : Fillable (dmaRun rest) count.toNat
      · obtain ⟨body, hbody⟩ : ∃ body, blockBody index count rest = .ok body :=
          exists_blockBody_iff.mpr hfill
        rw [hbody]
        refine hrest fun c hc => ?_
        obtain ⟨hc, hmis⟩ := misstated_zero_iff.mp hc
        exact hmis (Segment.block.inj hc ▸ hfill)
      · simp only [firstMisstated_of_head hfill, bind_eq_error_iff, blockBody_eq_error_iff]
        have hnone (body : List Segment) : blockBody index count rest ≠ .ok body :=
          fun hbody => hfill (exists_blockBody_iff.mp ⟨body, hbody⟩)
        constructor
        · rintro (⟨-, rfl⟩ | ⟨body, hbody, -⟩)
          · exact ⟨0, count, ⟨rfl, rfl⟩, rfl⟩
          · exact absurd hbody (hnone body)
        · rintro ⟨_, _, ⟨rfl, rfl⟩, hfault⟩
          exact .inl ⟨hfill, hfault⟩
    | transfer _ | loop _ | compute _ | sync _ | padding _ | scatter _ =>
      refine hrest fun c hc => ?_
      cases (misstated_zero_iff.mp hc).1

theorem exists_firstMisstated {segments : List Segment} {i : Nat} {count : UInt32}
    (h : Misstated segments i count) : ∃ j c, FirstMisstated segments j c := by
  induction i using Nat.strong_induction_on generalizing count with
  | _ i ih =>
    by_cases hearlier : ∃ j < i, ∃ c, Misstated segments j c
    · obtain ⟨j, hj, c, hc⟩ := hearlier
      exact ih j hj hc
    · exact ⟨i, count, h, fun j hj c hc => hearlier ⟨j, hj, c, hc⟩⟩

theorem checkBlocks_eq_error_iff {segments : List Segment} {fault : Fault} :
    checkBlocks segments = .error fault ↔ ∃ i count, FirstMisstated segments i count ∧
      fault = .malformedBlock i count.toNat
        (missedAt (dmaRun (segments.drop (i + 1))) count.toNat) := by
  simp only [checkBlocks, checkBlocksFrom_eq_error_iff, Nat.zero_add]

/-! ## Counting within a word -/

namespace Sized

/-- Filling a block, the records counted in 32 bits. -/
def fillBlock (stated : Nat) : Nat → List Segment → Checked (Nat × List Segment)
  | filled, [] => return (filled, [])
  | filled, s :: rest => do
    if filled < stated && s.isDma then
      let (reached, body) ← fillBlock stated (← Checked.add 32 filled s.records) rest
      return (reached, s :: body)
    else return (filled, [])

def blockBody (index : Nat) (count : UInt32) (rest : List Segment) : Outcome (List Segment) := do
  let (reached, body) ← fillBlock count.toNat 0 rest
  if reached = count.toNat then return body
  else refuse (.malformedBlock index count.toNat reached)

def checkBlocksFrom : Nat → List Segment → Outcome Unit
  | _, [] => return ()
  | index, .block count :: rest => do
    let _ ← blockBody index count rest
    checkBlocksFrom (index + 1) rest
  | index, _ :: rest => checkBlocksFrom (index + 1) rest

def checkBlocks (segments : List Segment) : Outcome Unit := checkBlocksFrom 0 segments

theorem le_fst_fillBlock (stated filled : Nat) (rest : List Segment) :
    filled ≤ (CommandStream.fillBlock stated filled rest).1 := by
  induction rest generalizing filled with
  | nil => exact le_rfl
  | cons s rest ih =>
    rw [CommandStream.fillBlock]
    split
    · exact (Nat.le_add_right _ _).trans (ih (filled + s.records))
    · exact le_rfl

theorem fillBlock_eq {stated filled : Nat} (h : filled < 2 ^ 32) (rest : List Segment) :
    fillBlock stated filled rest =
      if (CommandStream.fillBlock stated filled rest).1 < 2 ^ 32 then
        .ok (CommandStream.fillBlock stated filled rest)
      else .error .sum := by
  induction rest generalizing filled with
  | nil => rw [CommandStream.fillBlock, if_pos h]; rfl
  | cons s rest ih =>
    rw [fillBlock, CommandStream.fillBlock]
    split
    · rcases Nat.lt_or_ge (filled + s.records) (2 ^ 32) with hlt | hge
      · rw [Checked.add_eq_ok_iff.mpr ⟨rfl, hlt⟩, ok_bind, ih hlt]
        dsimp only
        split <;> rfl
      · have hreached := hge.trans (le_fst_fillBlock stated (filled + s.records) rest)
        have hadd : Checked.add 32 filled s.records = .error .sum := if_neg (Nat.not_lt.mpr hge)
        rw [hadd, if_neg (Nat.not_lt.mpr hreached)]
        rfl
    · rfl

/-- A report that would count more records than a word holds is never made. -/
def failureOf (fault : Fault) : Failure :=
  match fault with
  | .malformedBlock _ _ available =>
    if available < 2 ^ 32 then .fault fault else .overflow .sum
  | _ => .fault fault

theorem blockBody_eq (index : Nat) (count : UInt32) (rest : List Segment) :
    blockBody index count rest =
      (CommandStream.blockBody index count rest).mapError failureOf := by
  rw [blockBody, fillBlock_eq (Nat.two_pow_pos 32), CommandStream.blockBody]
  have hcount := count.toNat_lt
  generalize CommandStream.fillBlock count.toNat 0 rest = filled
  obtain ⟨reached, body⟩ := filled
  dsimp only
  by_cases hmet : reached = count.toNat
  · rw [if_pos hmet, if_pos (hmet ▸ hcount), liftM_checked_ok, ok_bind]
    exact if_pos hmet
  · rw [if_neg hmet, Except.mapError, failureOf]
    split
    · rw [liftM_checked_ok, ok_bind]
      exact if_neg hmet
    · rfl

theorem checkBlocksFrom_eq (index : Nat) (segments : List Segment) :
    checkBlocksFrom index segments =
      (CommandStream.checkBlocksFrom index segments).mapError failureOf := by
  induction segments generalizing index with
  | nil => rfl
  | cons s rest ih =>
    cases s with
    | block count =>
      rw [checkBlocksFrom, CommandStream.checkBlocksFrom, blockBody_eq, ih]
      cases CommandStream.blockBody index count rest <;> rfl
    | transfer _ | loop _ | compute _ | sync _ | padding _ | scatter _ => exact ih (index + 1)

theorem checkBlocks_eq (segments : List Segment) :
    checkBlocks segments = (CommandStream.checkBlocks segments).mapError failureOf :=
  checkBlocksFrom_eq 0 segments

theorem checkBlocks_eq_error_iff {segments : List Segment} {failure : Failure} :
    checkBlocks segments = .error failure ↔ ∃ i count, FirstMisstated segments i count ∧
      failure = failureOf (.malformedBlock i count.toNat
        (missedAt (dmaRun (segments.drop (i + 1))) count.toNat)) := by
  rw [checkBlocks_eq, mapError_eq_error_iff]
  simp only [CommandStream.checkBlocks_eq_error_iff]
  constructor
  · rintro ⟨_, ⟨i, count, hfirst, rfl⟩, rfl⟩
    exact ⟨i, count, hfirst, rfl⟩
  · rintro ⟨i, count, hfirst, rfl⟩
    exact ⟨_, ⟨i, count, hfirst, rfl⟩, rfl⟩

theorem exists_checkBlocks_eq_error_iff {segments : List Segment} :
    (∃ failure, checkBlocks segments = .error failure) ↔
      ∃ i count, Misstated segments i count := by
  constructor
  · rintro ⟨failure, hfailure⟩
    obtain ⟨i, count, hfirst, -⟩ := checkBlocks_eq_error_iff.mp hfailure
    exact ⟨i, count, hfirst.toMisstated⟩
  · rintro ⟨i, count, hmis⟩
    obtain ⟨j, c, hfirst⟩ := exists_firstMisstated hmis
    exact ⟨_, checkBlocks_eq_error_iff.mpr ⟨j, c, hfirst, rfl⟩⟩

theorem failureOf_malformedBlock (index stated available : Nat) :
    failureOf (.malformedBlock index stated available) =
      if available < 2 ^ 32 then .fault (.malformedBlock index stated available)
      else .overflow .sum :=
  rfl

theorem checkBlocks_eq_fault_iff {segments : List Segment} {fault : Fault} :
    checkBlocks segments = .error (.fault fault) ↔ ∃ i count, FirstMisstated segments i count ∧
      missedAt (dmaRun (segments.drop (i + 1))) count.toNat < 2 ^ 32 ∧
      fault = .malformedBlock i count.toNat
        (missedAt (dmaRun (segments.drop (i + 1))) count.toNat) := by
  simp only [checkBlocks_eq_error_iff, failureOf_malformedBlock]
  refine exists_congr fun i => exists_congr fun count => and_congr_right fun _ => ?_
  split <;> simp_all

theorem checkBlocks_eq_overflow_iff {segments : List Segment} {o : Overflow} :
    checkBlocks segments = .error (.overflow o) ↔ o = .sum ∧
      ∃ i count, FirstMisstated segments i count ∧ count.toNat + 1 = 2 ^ 32 ∧
        2 ^ 32 ≤ recordCount (dmaRun (segments.drop (i + 1))) := by
  simp only [checkBlocks_eq_error_iff, failureOf_malformedBlock]
  constructor
  · rintro ⟨i, count, hfirst, hfailure⟩
    split at hfailure
    · cases hfailure
    · rename_i hmissed
      cases hfailure
      exact ⟨rfl, i, count, hfirst,
        (le_missedAt_iff hfirst.unfillable).mp (Nat.not_lt.mp hmissed)⟩
  · rintro ⟨rfl, i, count, hfirst, hword⟩
    have hmissed := (le_missedAt_iff hfirst.unfillable).mpr hword
    exact ⟨i, count, hfirst, (if_neg (Nat.not_lt.mpr hmissed)).symm⟩

theorem checkBlocks_of_recordCount_lt {segments : List Segment}
    (h : recordCount segments < 2 ^ 32) :
    checkBlocks segments = liftM (CommandStream.checkBlocks segments) := by
  rw [checkBlocks_eq]
  cases hchecked : CommandStream.checkBlocks segments with
  | ok => rfl
  | error fault =>
    obtain ⟨i, count, hfirst, rfl⟩ := CommandStream.checkBlocks_eq_error_iff.mp hchecked
    have hrun := (List.takeWhile_sublist Segment.isDma).trans (List.drop_sublist (i + 1) segments)
    have hmissed : ¬2 ^ 32 ≤ missedAt (dmaRun (segments.drop (i + 1))) count.toNat := by
      rw [le_missedAt_iff hfirst.unfillable]
      intro hword
      exact Nat.not_lt.mpr hword.2 ((recordCount_le_of_sublist hrun).trans_lt h)
    exact congrArg Except.error (if_pos (Nat.not_le.mp hmissed))

end Sized

/-! ## Refreshed markers -/

def SameButCount (s s' : Segment) : Prop :=
  s = s' ∨ s.isBlock = true ∧ s'.isBlock = true

theorem forall₂_refreshBlocks (segments : List Segment) :
    List.Forall₂ SameButCount segments (refreshBlocks segments) := by
  fun_induction refreshBlocks with
  | case1 => exact .nil
  | case2 count rest ih => exact .cons (.inr ⟨rfl, rfl⟩) ih
  | case3 s rest _ ih => exact .cons (.inl rfl) ih

theorem refreshBlocks_refreshBlocks (segments : List Segment) :
    refreshBlocks (refreshBlocks segments) = refreshBlocks segments := by
  fun_induction refreshBlocks segments with
  | case1 => rfl
  | case2 count rest ih => rw [refreshBlocks, ih, dmaRun_refreshBlocks]
  | case3 s rest hs ih => rw [refreshBlocks.eq_3 _ _ hs, ih]

theorem fillable_of_le {run : List Segment} (h : ∀ s ∈ run, s.isLoop = false) {stated : Nat}
    (hle : stated ≤ recordCount run) : Fillable run stated := by
  induction run generalizing stated with
  | nil => exact fillable_nil_iff.mpr (Nat.le_zero.mp hle)
  | cons s run ih =>
    rw [List.forall_mem_cons] at h
    have hs : s.records = 1 := by
      cases s <;> first | rfl | cases h.1
    rw [recordCount_cons, hs] at hle
    cases stated with
    | zero => exact fillable_zero _
    | succ stated =>
      rw [Nat.add_comm, ← hs, fillable_cons_iff]
      exact ih h.2 (by omega)

/-- A count that does not fit its word is cut off, and without loops that is still a block. -/
theorem checkBlocksFrom_refreshBlocks_of_plain {segments : List Segment}
    (h : ∀ s ∈ segments, s.isLoop = false) (index : Nat) :
    checkBlocksFrom index (refreshBlocks segments) = .ok () := by
  induction segments generalizing index with
  | nil => rfl
  | cons s rest ih =>
    rw [List.forall_mem_cons] at h
    cases s with
    | block count =>
      have hrun : ∀ s ∈ dmaRun rest, s.isLoop = false :=
        fun s hs => h.2 s ((List.takeWhile_sublist _).mem hs)
      rw [refreshBlocks, checkBlocksFrom, bind_eq_ok_iff]
      have hfill : Fillable (dmaRun (refreshBlocks rest))
          (UInt32.ofNat (recordCount (dmaRun rest))).toNat := by
        rw [dmaRun_refreshBlocks, UInt32.toNat_ofNat']
        exact fillable_of_le hrun (Nat.mod_le _ _)
      obtain ⟨body, hbody⟩ := exists_blockBody_iff.mpr hfill
      exact ⟨body, hbody, ih h.2 (index + 1)⟩
    | transfer _ | loop _ | compute _ | sync _ | padding _ | scatter _ =>
      exact ih h.2 (index + 1)

theorem UpToDate.drop {segments : List Segment} (h : UpToDate segments) (n : Nat) :
    UpToDate (segments.drop n) := by
  induction n generalizing segments with
  | zero => exact h
  | succ n ih =>
    cases segments with
    | nil => trivial
    | cons s rest =>
      cases s with
      | block count => exact ih h.2
      | transfer _ | loop _ | compute _ | sync _ | padding _ | scatter _ => exact ih h

theorem UpToDate.blockBodyAt {segments : List Segment} (h : UpToDate segments) {i : Nat}
    {count : UInt32} (hi : segments[i]? = some (.block count)) :
    blockBodyAt segments i = .ok (dmaRun (segments.drop (i + 1))) := by
  obtain ⟨hlt, hmarker⟩ := List.getElem?_eq_some_iff.mp hi
  have hdrop : segments.drop i = .block count :: segments.drop (i + 1) := by
    rw [List.drop_eq_getElem_cons hlt, hmarker]
  have hcount := h.drop i
  rw [hdrop] at hcount
  rw [CommandStream.blockBodyAt, hdrop]
  exact blockBody_of_eq hcount.1 i

/-- The first marker ends inside a loop, the last one states more than the run has. -/
def cutLoop : List Segment :=
  [.block 2, .transfer (.row .load1d 1 1 0x1000 0 8), .loop inner, .sync .dma, .block 5,
    .loop inner]
where
  inner : TransferLoop := {
    clusterLen := 0, clusterShift := 0, unitLen := 0, unitShift := 0, innerLen := 1, localStep := 8
    hostStep := 16, count := 2, base := .row .load1d 1 1 0x2000 32 8 }

end CommandStream
