import Mathlib
import CommandStream.Optimize.Balance
import CommandStream.Optimize.Spread

/-! # Reorderings

Sorting, taking turns, interleaving clusters and rotating stores only permute their input. Sorting
by a key is insertion sort, a form that evaluates.
-/

namespace CommandStream

variable {α : Type}

theorem sortOn_perm (key : α → List Nat) (xs : List α) : (sortOn key xs).Perm xs :=
  List.mergeSort_perm _ _

theorem keyLe_cons_iff {x y : Nat} {a b : List Nat} :
    keyLe (x :: a) (y :: b) = true ↔ x < y ∨ x = y ∧ keyLe a b = true := by
  simp [keyLe]

theorem keyLe_total (a b : List Nat) : keyLe a b = true ∨ keyLe b a = true := by
  fun_induction keyLe a b with
  | case1 x a y b ih =>
    rw [keyLe_cons_iff]
    obtain hlt | rfl | hgt := Nat.lt_trichotomy x y
    · simp [hlt]
    · simpa using ih
    · exact .inr (.inl hgt)
  | case2 => exact .inl rfl

theorem keyLe_trans {a b c : List Nat} (hab : a.length = b.length) (hbc : b.length = c.length)
    (h : keyLe a b = true) (h' : keyLe b c = true) : keyLe a c = true := by
  induction a generalizing b c with
  | nil => simp [keyLe]
  | cons x a ih =>
    obtain ⟨y, b, rfl⟩ := List.exists_cons_of_length_eq_add_one hab.symm
    obtain ⟨z, c, rfl⟩ := List.exists_cons_of_length_eq_add_one hbc.symm
    rw [keyLe_cons_iff] at h h' ⊢
    obtain hxy | ⟨rfl, h⟩ := h <;> obtain hyz | ⟨rfl, h'⟩ := h'
    · exact .inl (hxy.trans hyz)
    · exact .inl hxy
    · exact .inl hyz
    · exact .inr ⟨rfl, ih (by simpa using hab) (by simpa using hbc) h h'⟩

theorem keyLe_antisymm {a b : List Nat} (hlen : a.length = b.length) (h : keyLe a b = true)
    (h' : keyLe b a = true) : a = b := by
  induction a generalizing b with
  | nil => exact (List.length_eq_zero_iff.mp hlen.symm).symm
  | cons x a ih =>
    obtain ⟨y, b, rfl⟩ := List.exists_cons_of_length_eq_add_one hlen.symm
    rw [keyLe_cons_iff] at h h'
    obtain hxy | ⟨rfl, h⟩ := h
    · omega
    · rw [ih (by simpa using hlen) h (by simpa using h')]

theorem mergeSort_eq_insertionSort {le : α → α → Bool}
    (htrans : ∀ a b c, le a b = true → le b c = true → le a c = true)
    (htotal : ∀ a b, (le a b || le b a) = true) (xs : List α) :
    xs.mergeSort le = xs.insertionSort fun a b => le a b = true := by
  induction xs with
  | nil => simp
  | cons x xs ih =>
    obtain ⟨low, high, hcons, hrest, hlow⟩ := List.mergeSort_cons htrans htotal x xs
    have hsorted := List.pairwise_mergeSort htrans htotal (x :: xs)
    rw [hcons, List.pairwise_append, List.pairwise_cons] at hsorted
    rw [hcons, List.insertionSort_cons, ← ih, hrest, List.orderedInsert_eq_take_drop]
    have hlow' : ∀ b ∈ low, (decide ¬le x b = true) = true := by simpa using hlow
    rw [List.takeWhile_append_of_pos hlow', List.dropWhile_append_of_pos hlow']
    cases high with
    | nil => simp
    | cons y high => simp [hsorted.2.1.1 y (by simp)]

section Sorted

variable (key : α → List Nat) (hkey : ∀ x y, (key x).length = (key y).length)

include hkey in
theorem keyLe_on_trans (a b c : α) (h : keyLe (key a) (key b) = true)
    (h' : keyLe (key b) (key c) = true) : keyLe (key a) (key c) = true :=
  keyLe_trans (hkey a b) (hkey b c) h h'

theorem keyLe_on_total (a b : α) : (keyLe (key a) (key b) || keyLe (key b) (key a)) = true := by
  simpa using keyLe_total (key a) (key b)

include hkey

theorem pairwise_sortOn (xs : List α) :
    (sortOn key xs).Pairwise fun a b => keyLe (key a) (key b) = true :=
  List.pairwise_mergeSort (keyLe_on_trans key hkey) (keyLe_on_total key) xs

theorem eq_sortOn_of_perm {xs ys : List α} (hinj : ∀ x ∈ ys, ∀ y ∈ ys, key x = key y → x = y)
    (hperm : xs.Perm ys) (hsorted : xs.Pairwise fun x y => keyLe (key x) (key y) = true) :
    xs = sortOn key ys := by
  have hboth := hperm.trans (sortOn_perm key ys).symm
  apply hboth.eq_of_pairwise ?_ hsorted (pairwise_sortOn key hkey ys)
  intro x y hx hy hxy hyx
  apply hinj
  · exact hperm.mem_iff.mp hx
  · exact (sortOn_perm key ys).mem_iff.mp hy
  · exact keyLe_antisymm (hkey x y) hxy hyx

theorem filter_sortOn (xs : List α) (k : List Nat) :
    (sortOn key xs).filter (key · = k) = xs.filter (key · = k) := by
  have hequal : (xs.filter (key · = k)).Pairwise fun a b => keyLe (key a) (key b) = true := by
    refine List.pairwise_of_forall_mem_list fun a ha b hb => ?_
    simp only [List.mem_filter, decide_eq_true_eq] at ha hb
    simpa [ha.2, hb.2] using keyLe_total k k
  have hsub : (xs.filter (key · = k)).Sublist (sortOn key xs) :=
    List.sublist_mergeSort (keyLe_on_trans key hkey) (keyLe_on_total key) hequal
      List.filter_sublist
  have hboth := hsub.filter (key · = k)
  rw [List.filter_filter] at hboth
  simp only [Bool.and_self] at hboth
  exact (hboth.eq_of_length ((sortOn_perm key xs).filter _).length_eq.symm).symm

theorem sortOn_eq_insertionSort :
    sortOn key = List.insertionSort fun a b => keyLe (key a) (key b) = true := by
  funext xs
  exact mergeSort_eq_insertionSort (keyLe_on_trans key hkey) (keyLe_on_total key) xs

end Sorted

/-! ## Groups of neighbours with equal keys -/

section Groups

variable {κ : Type} [BEq κ] [LawfulBEq κ] {key : α → κ} {xs : List α}

theorem key_eq_of_mem_splitBy {group : List α} (h : group ∈ xs.splitBy fun a b => key a == key b)
    {a b : α} (ha : a ∈ group) (hb : b ∈ group) : key a = key b := by
  have hchain : (group.map key).IsChain (· = ·) := by
    rw [List.isChain_map]
    exact (List.isChain_of_mem_splitBy h).imp fun _ _ => beq_iff_eq.mp
  exact List.Pairwise.forall_of_forall (fun _ _ => rfl) hchain.pairwise (List.mem_map_of_mem ha)
    (List.mem_map_of_mem hb)

theorem isChain_splitBy_key (key : α → κ) (xs : List α) :
    (xs.splitBy fun a b => key a == key b).IsChain fun g g' => ∀ a ∈ g, ∀ b ∈ g', key a ≠ key b := by
  apply (List.isChain_getLast_head_splitBy (fun a b => key a == key b) xs).imp_of_mem_imp
  rintro g g' hg hg' ⟨hne, hne', hchange⟩ a ha b hb heq
  rw [key_eq_of_mem_splitBy hg (List.getLast_mem hne) ha, heq,
    key_eq_of_mem_splitBy hg' hb (List.head_mem hne'), beq_self_eq_true] at hchange
  cases hchange

end Groups

theorem heads_append_tails_perm (queues : List (List α)) :
    (queues.filterMap List.head? ++ (queues.map List.tail).flatten).Perm queues.flatten := by
  induction queues with
  | nil => exact .refl _
  | cons q qs ih =>
    cases q with
    | nil => simpa [List.filterMap_cons] using ih
    | cons x xs =>
      simp only [List.filterMap_cons, List.head?_cons, List.map_cons, List.tail_cons,
        List.flatten_cons, List.cons_append, List.perm_cons]
      exact (List.perm_append_comm_assoc _ _ _).trans (ih.append_left xs)

theorem turns_perm : ∀ (rounds : Nat) (queues : List (List α)),
    (∀ q ∈ queues, q.length ≤ rounds) → (turns rounds queues).Perm queues.flatten
  | 0, queues, h => by
      have he : queues.flatten = [] := by
        simp only [List.flatten_eq_nil_iff]
        intro q hq
        exact List.length_eq_zero_iff.mp (Nat.le_zero.mp (h q hq))
      simp [turns, he]
  | rounds + 1, queues, h => by
      have ht : ∀ q ∈ queues.map List.tail, q.length ≤ rounds := by
        simp only [List.mem_map, forall_exists_index, and_imp, forall_apply_eq_imp_iff₂,
          List.length_tail]
        intro q hq
        have := h q hq
        omega
      exact ((turns_perm rounds _ ht).append_left _).trans (heads_append_tails_perm queues)

theorem le_foldl_max (xs : List Nat) (start : Nat) :
    start ≤ xs.foldl max start ∧ ∀ x ∈ xs, x ≤ xs.foldl max start := by
  induction xs generalizing start with
  | nil => simp
  | cons y ys ih =>
    obtain ⟨hs, hy⟩ := ih (max start y)
    simp only [List.foldl_cons, List.mem_cons, forall_eq_or_imp]
    exact ⟨(le_max_left _ _).trans hs, (le_max_right _ _).trans hs, hy⟩

theorem takeTurns_perm (queues : List (List α)) : (takeTurns queues).Perm queues.flatten := by
  apply turns_perm
  intro q hq
  exact (le_foldl_max _ 0).2 _ (List.mem_map_of_mem hq)

theorem interleave_perm (run : List Transfer) : (interleave run).Perm run := by
  refine (takeTurns_perm _).trans ?_
  rw [List.flatten_splitBy]
  exact sortOn_perm _ run

theorem balanceRun_perm (loads : Bool) (run : List Transfer) :
    (balanceRun loads run).Perm run := by
  cases run with
  | nil => exact .refl _
  | cons t rest =>
    rw [balanceRun]
    split
    · exact interleave_perm _
    · exact .refl _

theorem Mask.highest_lt (m : Mask) : m.highest < 32 := by
  by_cases h : m.toNat = 0
  · simp [Mask.highest, h]
  · exact (Nat.log2_lt h).mpr m.toNat_lt

/-- Sorting into classes keeps every element whose class is among the first `n`. -/
theorem flatMap_filter_perm (f : α → Nat) (xs : List α) (n : Nat) :
    ((List.range n).flatMap fun c => xs.filter (f · == c)).Perm (xs.filter (f · < n)) := by
  induction n with
  | zero => simp
  | succ n ih =>
    have hlow : (xs.filter (f · < n + 1)).filter (f · < n) = xs.filter (f · < n) := by
      rw [List.filter_filter]
      congr 1; ext x; rw [Bool.eq_iff_iff]; simp; omega
    have hlast : (xs.filter (f · < n + 1)).filter (fun x => !decide (f x < n)) =
        xs.filter (f · == n) := by
      rw [List.filter_filter]
      congr 1; ext x; rw [Bool.eq_iff_iff]; simp; omega
    have hsplit := List.filter_append_perm (f · < n) (xs.filter (f · < n + 1))
    rw [hlow, hlast] at hsplit
    rw [List.range_succ, List.flatMap_append, List.flatMap_singleton]
    exact (ih.append_right _).trans hsplit

theorem rotateStores_perm (stores : List Transfer) : (rotateStores stores).Perm stores := by
  refine (takeTurns_perm _).trans ?_
  rw [← List.flatMap_def]
  have hq : ∀ c ∈ List.range 32,
      (sortOn (fun t : Transfer => [t.hostAddr.toNat])
        (stores.filter (·.cluster.highest == c))).reverse.Perm
      (stores.filter (·.cluster.highest == c)) := fun c _ =>
    (List.reverse_perm _).trans (sortOn_perm _ _)
  refine (List.Perm.flatMap_left _ hq).trans ?_
  refine (flatMap_filter_perm (fun t : Transfer => t.cluster.highest) stores 32).trans ?_
  rw [List.filter_eq_self.mpr (fun t _ => by simpa using t.cluster.highest_lt)]

end CommandStream
