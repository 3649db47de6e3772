import CommandStream.Proofs.Outcomes
import CommandStream.Proofs.StreamMeaning

/-! # Counting a stream

Words and records are counted as natural numbers here. A checked count gives that number as long as
it fits the word.
-/

namespace CommandStream

/-! ## Words -/

def issued (segments : List Segment) : List Transfer := segments.flatMap Segment.transfers

theorem issued_perm {a b : List Segment} (h : a.Perm b) : (issued a).Perm (issued b) :=
  h.flatMap_right _

theorem issued_append (a b : List Segment) : issued (a ++ b) = issued a ++ issued b :=
  List.flatMap_append

/-- Words a stream moves, however many. -/
def elementTotal (segments : List Segment) : Nat := total ((issued segments).map Transfer.elements)

theorem elementTotal_eq (segments : List Segment) :
    elementTotal segments =
      total (segments.map fun s => total (s.transfers.map Transfer.elements)) := by
  induction segments with
  | nil => rfl
  | cons s rest ih =>
    simp only [elementTotal, issued, total_eq_sum] at ih
    simp [elementTotal, issued, total_eq_sum, ih]

theorem addElements_eq_ok_iff (start : Nat) (s : Segment) (n : Nat) :
    (do Checked.add 64 start (← s.elements) : Checked Nat) = .ok n ↔
      start + total (s.transfers.map Transfer.elements) = n ∧ n < 2 ^ 64 := by
  rw [bind_eq_ok_iff]
  simp only [Checked.add_eq_ok_iff]
  cases s with
  | transfer t => simp [Segment.elements, Segment.transfers, total]
  | loop l =>
    simp only [Segment.elements, TransferLoop.elements, Checked.sum_eq_ok_iff, Segment.transfers]
    constructor
    · rintro ⟨_, ⟨rfl, -⟩, h⟩
      exact h
    · rintro ⟨rfl, hlt⟩
      exact ⟨_, ⟨rfl, by omega⟩, rfl, hlt⟩
  | compute _ | block _ | sync _ | padding _ | scatter _ =>
    simp [Segment.elements, Segment.transfers, total]

theorem countElements_eq_ok_iff {segments : List Segment} {n : Nat} :
    countElements segments = .ok n ↔ elementTotal segments = n ∧ n < 2 ^ 64 := by
  have h := foldlM_eq_ok_iff_total (n := n) _ addElements_eq_ok_iff segments (Nat.two_pow_pos 64)
  rwa [Nat.zero_add, ← elementTotal_eq] at h

theorem countElements_eq_error_iff {segments : List Segment} {o : Overflow} :
    countElements segments = .error o ↔ o = .sum ∧ 2 ^ 64 ≤ elementTotal segments := by
  have hsum {xs : List Nat} {o : Overflow} (h : Checked.sum 64 xs = .error o) : o = .sum := by
    obtain ⟨_, _, h⟩ := exists_of_foldlM_eq_error h
    exact (Checked.add_eq_error_iff.mp h).1
  cases hcount : countElements segments with
  | ok n =>
    obtain ⟨rfl, hlt⟩ := countElements_eq_ok_iff.mp hcount
    exact ⟨fun h => (nomatch h), fun h => absurd hlt (Nat.not_lt.mpr h.2)⟩
  | error o' =>
    have hkind : o' = .sum := by
      obtain ⟨_, s, h⟩ := exists_of_foldlM_eq_error hcount
      obtain h | ⟨_, -, h⟩ := bind_eq_error_iff.mp h
      · cases s with
        | loop l => exact hsum h
        | transfer _ | compute _ | block _ | sync _ | padding _ | scatter _ => cases h
      · exact (Checked.add_eq_error_iff.mp h).1
    have hlarge : 2 ^ 64 ≤ elementTotal segments := by
      by_contra hlt
      cases hcount.symm.trans (countElements_eq_ok_iff.mpr ⟨rfl, Nat.not_le.mp hlt⟩)
    rw [Except.error.injEq, hkind, eq_comm]
    exact ⟨fun h => ⟨h, hlarge⟩, And.left⟩

/-! ## Records -/

theorem recordCount_cons (s : Segment) (rest : List Segment) :
    recordCount (s :: rest) = s.records + recordCount rest := rfl

theorem recordCount_append (a b : List Segment) :
    recordCount (a ++ b) = recordCount a + recordCount b := by
  simp [recordCount, total_eq_sum]

theorem Segment.records_pos (s : Segment) : 0 < s.records := by
  cases s <;> simp [records]

theorem recordCount_refreshBlocks (segments : List Segment) :
    recordCount (refreshBlocks segments) = recordCount segments := by
  fun_induction refreshBlocks with
  | case1 => rfl
  | case2 count rest ih => rw [recordCount_cons, recordCount_cons, ih]; rfl
  | case3 s rest _ ih => rw [recordCount_cons, recordCount_cons, ih]

theorem dmaRun_refreshBlocks (segments : List Segment) :
    dmaRun (refreshBlocks segments) = dmaRun segments := by
  fun_induction refreshBlocks with
  | case1 => rfl
  | case2 count rest _ => rfl
  | case3 s rest _ ih =>
    unfold dmaRun at ih ⊢
    rw [List.takeWhile_cons, List.takeWhile_cons, ih]

def dmaRecords (segments : List Segment) : Nat := recordCount (segments.filter Segment.isDma)

theorem dmaRecords_append (a b : List Segment) :
    dmaRecords (a ++ b) = dmaRecords a + dmaRecords b := by
  simp [dmaRecords, recordCount_append]

theorem recordCount_le_of_sublist {a b : List Segment} (h : a.Sublist b) :
    recordCount a ≤ recordCount b :=
  (h.map Segment.records).sum_le_sum fun _ _ => Nat.zero_le _

theorem dmaRecords_le_recordCount (segments : List Segment) :
    dmaRecords segments ≤ recordCount segments :=
  recordCount_le_of_sublist List.filter_sublist

theorem recordCount_dmaRun_le (segments : List Segment) :
    recordCount (dmaRun segments) ≤ dmaRecords segments := by
  have hrun : (dmaRun segments).filter Segment.isDma = dmaRun segments :=
    List.filter_eq_self.mpr fun _ hs => List.mem_takeWhile_imp hs
  conv_rhs => rw [← List.takeWhile_append_dropWhile (p := Segment.isDma) (l := segments)]
  rw [dmaRecords_append]
  refine Nat.le_add_right_of_le (le_of_eq ?_)
  conv_lhs => rw [← hrun]
  rfl

theorem fillBlock_of_le {stated filled : Nat} (h : stated ≤ filled) (rest : List Segment) :
    fillBlock stated filled rest = (filled, []) := by
  cases rest with
  | nil => rfl
  | cons s rest => simp [fillBlock, Nat.not_lt.mpr h]

theorem fillBlock_front {body : List Segment} (h : ∀ s ∈ body, s.isDma = true) (filled : Nat)
    (others : List Segment) :
    fillBlock (filled + recordCount body) filled (body ++ others) =
      (filled + recordCount body, body) := by
  induction body generalizing filled with
  | nil => exact fillBlock_of_le le_rfl others
  | cons s body ih =>
    rw [List.forall_mem_cons] at h
    have hpos := s.records_pos
    have hlt : filled < filled + recordCount (s :: body) := by rw [recordCount_cons]; omega
    rw [List.cons_append, fillBlock, decide_eq_true hlt, h.1, recordCount_cons, ← Nat.add_assoc,
      ih h.2]
    rfl

end CommandStream
