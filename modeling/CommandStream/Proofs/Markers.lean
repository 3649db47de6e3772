import CommandStream.Proofs.StreamCounts

/-! # Markers that are up to date

A marker that states the records of the run behind it takes the whole run. Refreshed markers are of
this kind as long as the records behind each can be counted in a word.
-/

namespace CommandStream

/-- Every marker states the records of the run behind it. -/
def UpToDate : List Segment → Prop
  | [] => True
  | .block count :: rest => count.toNat = recordCount (dmaRun rest) ∧ UpToDate rest
  | _ :: rest => UpToDate rest

/-- The most records that stand behind a marker. -/
def largestBlock : List Segment → Nat
  | [] => 0
  | .block _ :: rest => max (recordCount (dmaRun rest)) (largestBlock rest)
  | _ :: rest => largestBlock rest

theorem upToDate_refreshBlocks {segments : List Segment} (h : largestBlock segments < 2 ^ 32) :
    UpToDate (refreshBlocks segments) := by
  induction segments with
  | nil => trivial
  | cons s rest ih =>
    cases s with
    | block count =>
      obtain ⟨hrun, hrest⟩ := max_lt_iff.mp h
      refine ⟨?_, ih hrest⟩
      rw [dmaRun_refreshBlocks]
      exact UInt32.toNat_ofNat_of_lt' hrun
    | transfer _ | loop _ | compute _ | sync _ | padding _ | scatter _ => exact ih h

/-- The markers are up to date exactly if refreshing does not change them and their records can be
counted in a word. -/
theorem upToDate_iff {segments : List Segment} :
    UpToDate segments ↔ refreshBlocks segments = segments ∧ largestBlock segments < 2 ^ 32 := by
  constructor
  · intro h
    induction segments with
    | nil => exact ⟨rfl, Nat.two_pow_pos 32⟩
    | cons s rest ih =>
      cases s with
      | block count =>
        obtain ⟨hrest, hwords⟩ := ih h.2
        constructor
        · rw [refreshBlocks, hrest, ← h.1, UInt32.ofNat_toNat]
        · exact max_lt (h.1 ▸ count.toNat_lt) hwords
      | transfer _ | loop _ | compute _ | sync _ | padding _ | scatter _ =>
        obtain ⟨hrest, hwords⟩ := ih h
        exact ⟨congrArg (_ :: ·) hrest, hwords⟩
  · rintro ⟨hfresh, hwords⟩
    exact hfresh ▸ upToDate_refreshBlocks hwords

theorem blockBody_front {body : List Segment} {count : UInt32} (h : ∀ s ∈ body, s.isDma = true)
    (hcount : recordCount body = count.toNat) (index : Nat) (others : List Segment) :
    blockBody index count (body ++ others) = .ok body := by
  have hfill := fillBlock_front h 0 others
  rw [Nat.zero_add, hcount] at hfill
  rw [blockBody, hfill]
  exact if_pos rfl

theorem blockBody_of_eq {count : UInt32} {rest : List Segment}
    (h : count.toNat = recordCount (dmaRun rest)) (index : Nat) :
    blockBody index count rest = .ok (dmaRun rest) := by
  have hdma : ∀ s ∈ dmaRun rest, s.isDma = true := fun _ hs => List.mem_takeWhile_imp hs
  have hbody := blockBody_front hdma h.symm index (rest.dropWhile Segment.isDma)
  rwa [dmaRun, List.takeWhile_append_dropWhile] at hbody

theorem blockBody_eq_ok_iff {i j : Nat} {count : UInt32} {rest body : List Segment} :
    blockBody i count rest = .ok body ↔ blockBody j count rest = .ok body := by
  unfold blockBody
  dsimp only
  split
  · rfl
  · exact ⟨fun h => (nomatch h), fun h => (nomatch h)⟩

theorem UpToDate.checkBlocksFrom {segments : List Segment} (h : UpToDate segments) (index : Nat) :
    checkBlocksFrom index segments = .ok () := by
  induction segments generalizing index with
  | nil => rfl
  | cons s rest ih =>
    cases s with
    | block count =>
      exact bind_eq_ok_iff.mpr ⟨_, blockBody_of_eq h.1 index, ih h.2 (index + 1)⟩
    | transfer _ | loop _ | compute _ | sync _ | padding _ | scatter _ => exact ih h (index + 1)

theorem largestBlock_le (segments : List Segment) :
    largestBlock segments ≤ dmaRecords segments := by
  induction segments with
  | nil => exact le_rfl
  | cons s rest ih =>
    have hrest : dmaRecords rest ≤ dmaRecords (s :: rest) := by
      rw [← List.singleton_append, dmaRecords_append]
      exact Nat.le_add_left _ _
    cases s with
    | block count => exact max_le ((recordCount_dmaRun_le rest).trans hrest) (ih.trans hrest)
    | transfer _ | loop _ | compute _ | sync _ | padding _ | scatter _ => exact ih.trans hrest

theorem checkBlocks_refreshBlocks {segments : List Segment} (h : recordCount segments < 2 ^ 32) :
    checkBlocks (refreshBlocks segments) = .ok () := by
  have hle := (largestBlock_le segments).trans (dmaRecords_le_recordCount segments)
  exact (upToDate_refreshBlocks (hle.trans_lt h)).checkBlocksFrom 0

/-! ## Putting streams together -/

theorem Segment.isBlock_of_isDma {s : Segment} (h : s.isDma = true) : s.isBlock = false := by
  cases s <;> first | rfl | cases h

theorem dmaRun_append {a : List Segment} (h : ∀ s ∈ a, s.isDma = true) (x : List Segment) :
    dmaRun (a ++ x) = a ++ dmaRun x :=
  List.takeWhile_append_of_pos h

theorem largestBlock_append {a : List Segment} (h : ∀ s ∈ a, s.isDma = true) (x : List Segment) :
    largestBlock (a ++ x) = largestBlock x := by
  induction a with
  | nil => rfl
  | cons s a ih =>
    rw [List.forall_mem_cons] at h
    cases s with
    | transfer _ | loop _ => exact ih h.2
    | compute _ | block _ | sync _ | padding _ | scatter _ => cases h.1

theorem dmaRun_append_of_nil {b : List Segment} (h : dmaRun b = []) (a : List Segment) :
    dmaRun (a ++ b) = dmaRun a := by
  induction a with
  | nil => exact h
  | cons s a ih =>
    unfold dmaRun at ih ⊢
    rw [List.cons_append, List.takeWhile_cons, List.takeWhile_cons, ih]

/-- Markers in front of a stream that starts with no transfer or loop do not reach into it. -/
theorem upToDate_append {b : List Segment} (h : dmaRun b = []) (a : List Segment) :
    UpToDate (a ++ b) ↔ UpToDate a ∧ UpToDate b := by
  induction a with
  | nil => exact ⟨fun hb => ⟨trivial, hb⟩, And.right⟩
  | cons s a ih =>
    cases s with
    | block count =>
      simp only [List.cons_append, UpToDate, dmaRun_append_of_nil h, ih, and_assoc]
    | transfer _ | loop _ | compute _ | sync _ | padding _ | scatter _ => exact ih

theorem upToDate_append_of_no_block {a : List Segment} (h : ∀ s ∈ a, s.isBlock = false)
    (b : List Segment) : UpToDate (a ++ b) ↔ UpToDate b := by
  induction a with
  | nil => rfl
  | cons s a ih =>
    rw [List.forall_mem_cons] at h
    cases s with
    | block _ => cases h.1
    | transfer _ | loop _ | compute _ | sync _ | padding _ | scatter _ => exact ih h.2

theorem refreshBlocks_append_of_no_block {a : List Segment} (h : ∀ s ∈ a, s.isBlock = false)
    (b : List Segment) : refreshBlocks (a ++ b) = a ++ refreshBlocks b := by
  induction a with
  | nil => rfl
  | cons s a ih =>
    rw [List.forall_mem_cons] at h
    cases s with
    | block _ => cases h.1
    | transfer _ | loop _ | compute _ | sync _ | padding _ | scatter _ =>
      exact congrArg (_ :: ·) (ih h.2)

theorem dmaRun_flatten_of_nil {pieces : List (List Segment)}
    (h : ∀ piece ∈ pieces, dmaRun piece = []) : dmaRun pieces.flatten = [] := by
  induction pieces with
  | nil => rfl
  | cons piece pieces ih =>
    rw [List.forall_mem_cons] at h
    rw [List.flatten_cons, dmaRun_append_of_nil (ih h.2), h.1]

theorem upToDate_flatten {pieces : List (List Segment)} (h : ∀ piece ∈ pieces, dmaRun piece = []) :
    UpToDate pieces.flatten ↔ ∀ piece ∈ pieces, UpToDate piece := by
  induction pieces with
  | nil => simp [UpToDate]
  | cons piece pieces ih =>
    rw [List.forall_mem_cons] at h
    rw [List.flatten_cons, List.forall_mem_cons, ← ih h.2,
      upToDate_append (dmaRun_flatten_of_nil h.2)]

/-! ## Checking parts of a stream -/

theorem fillBlock_append_of_nil {b : List Segment} (h : dmaRun b = []) (stated filled : Nat)
    (a : List Segment) : fillBlock stated filled (a ++ b) = fillBlock stated filled a := by
  induction a generalizing filled with
  | nil =>
    cases b with
    | nil => rfl
    | cons s b =>
      have hs : ¬s.isDma = true := fun hs => by simp [dmaRun, hs] at h
      simp [fillBlock, hs]
  | cons s a ih => rw [List.cons_append, fillBlock, fillBlock, ih]

theorem blockBody_append_of_nil {b : List Segment} (h : dmaRun b = []) (index : Nat)
    (count : UInt32) (a : List Segment) :
    blockBody index count (a ++ b) = blockBody index count a := by
  rw [blockBody, fillBlock_append_of_nil h, blockBody]

theorem checkBlocksFrom_eq_ok_iff {i j : Nat} {segments : List Segment} :
    checkBlocksFrom i segments = .ok () ↔ checkBlocksFrom j segments = .ok () := by
  induction segments generalizing i j with
  | nil => rfl
  | cons s rest ih =>
    cases s with
    | block count =>
      simp only [checkBlocksFrom, bind_eq_ok_iff, blockBody_eq_ok_iff (i := i) (j := j),
        ih (i := i + 1) (j := j + 1)]
    | transfer _ | loop _ | compute _ | sync _ | padding _ | scatter _ => exact ih

theorem checkBlocksFrom_append {b : List Segment} (h : dmaRun b = []) (a : List Segment)
    (index : Nat) : checkBlocksFrom index (a ++ b) = .ok () ↔
      checkBlocksFrom index a = .ok () ∧ checkBlocks b = .ok () := by
  induction a generalizing index with
  | nil => exact ⟨fun hb => ⟨rfl, checkBlocksFrom_eq_ok_iff.mp hb⟩,
      fun hb => checkBlocksFrom_eq_ok_iff.mp hb.2⟩
  | cons s a ih =>
    cases s with
    | block count =>
      simp only [List.cons_append, checkBlocksFrom, bind_eq_ok_iff, blockBody_append_of_nil h, ih,
        exists_and_right, and_assoc]
    | transfer _ | loop _ | compute _ | sync _ | padding _ | scatter _ => exact ih (index + 1)

theorem checkBlocks_flatten {pieces : List (List Segment)}
    (h : ∀ piece ∈ pieces, dmaRun piece = []) :
    checkBlocks pieces.flatten = .ok () ↔ ∀ piece ∈ pieces, checkBlocks piece = .ok () := by
  induction pieces with
  | nil => simp [checkBlocks, checkBlocksFrom]
  | cons piece pieces ih =>
    rw [List.forall_mem_cons] at h
    rw [List.flatten_cons, List.forall_mem_cons, ← ih h.2]
    exact checkBlocksFrom_append (dmaRun_flatten_of_nil h.2) piece 0

end CommandStream
