import CommandStream.Proofs.SortedRuns
import CommandStream.Proofs.TurnOrder

/-! # Rotating stores

Stores wait on one pile for each highest cluster and are popped from the piles in turn. The order
they come out in is told by their ranks: a store is behind those of its pile with a larger host
address, and of those with the same address behind the later ones.
-/

namespace CommandStream

variable {α : Type}

/-! ## Popping piles in turn -/

/-- Rounds that pop every pile once follow each other while less than `goal` elements are out. -/
inductive PopsInTurn (goal : Nat) : List α → List (List α) → List α → Prop
  | done {out : List α} {piles : List (List α)} (h : goal ≤ out.length) :
      PopsInTurn goal out piles out
  | round {out result : List α} {piles : List (List α)} (h : out.length < goal)
      (next : PopsInTurn goal (out ++ piles.filterMap List.getLast?) (piles.map List.dropLast)
        result) :
      PopsInTurn goal out piles result

theorem foldl_max_tail (queues : List (List α)) (start : Nat) :
    ((queues.map List.tail).map List.length).foldl max (start - 1) =
      (queues.map List.length).foldl max start - 1 := by
  induction queues generalizing start with
  | nil => rfl
  | cons q queues ih =>
    have hmax : max (start - 1) q.tail.length = max start q.length - 1 := by
      rw [List.length_tail]
      omega
    simp only [List.map_cons, List.foldl_cons, hmax, ih]

theorem takeTurns_eq (queues : List (List α)) :
    takeTurns queues = queues.filterMap List.head? ++ takeTurns (queues.map List.tail) := by
  have hmax := foldl_max_tail queues 0
  unfold takeTurns
  rw [hmax]
  cases hrounds : (queues.map List.length).foldl max 0 with
  | zero =>
    have hempty : queues.filterMap List.head? = [] := by
      rw [List.filterMap_eq_nil_iff]
      intro q hq
      have hle := (le_foldl_max _ 0).2 _ (List.mem_map_of_mem (f := List.length) hq)
      rw [hrounds, Nat.le_zero, List.length_eq_zero_iff] at hle
      rw [hle, List.head?_nil]
    simp [turns, hempty]
  | succ rounds => rfl

theorem filterMap_getLast?_eq (piles : List (List α)) :
    piles.filterMap List.getLast? = (piles.map List.reverse).filterMap List.head? := by
  simp [List.filterMap_map]

theorem map_dropLast_map_reverse (piles : List (List α)) :
    (piles.map List.dropLast).map List.reverse = (piles.map List.reverse).map List.tail := by
  simp [Function.comp_def]

theorem length_flatten_round (piles : List (List α)) :
    (piles.filterMap List.getLast?).length + (piles.map List.dropLast).flatten.length =
      piles.flatten.length := by
  have hround := (heads_append_tails_perm (piles.map List.reverse)).length_eq
  rw [← filterMap_getLast?_eq, ← map_dropLast_map_reverse] at hround
  simpa [List.length_flatten, Function.comp_def] using hround

theorem filterMap_getLast?_ne_nil {piles : List (List α)} (h : 0 < piles.flatten.length) :
    piles.filterMap List.getLast? ≠ [] := by
  obtain ⟨x, hx⟩ := List.exists_mem_of_length_pos h
  obtain ⟨pile, hpile, hx⟩ := List.mem_flatten.mp hx
  have hne := List.ne_nil_of_mem hx
  intro hnil
  rw [List.filterMap_eq_nil_iff] at hnil
  exact hne (List.getLast?_eq_none_iff.mp (hnil pile hpile))

/-- The rounds come to an end, with one result: the elements of the reversed piles in turn. -/
theorem popsInTurn_iff {out result : List α} {piles : List (List α)} :
    PopsInTurn (out.length + piles.flatten.length) out piles result ↔
      result = out ++ takeTurns (piles.map List.reverse) := by
  generalize hleft : piles.flatten.length = left
  induction left using Nat.strong_induction_on generalizing out piles with
  | _ left ih =>
    subst hleft
    rcases Nat.eq_zero_or_pos piles.flatten.length with hzero | hpos
    · have hnone : takeTurns (piles.map List.reverse) = [] := by
        apply List.length_eq_zero_iff.mp
        rw [(takeTurns_perm _).length_eq, ← hzero]
        simp [List.length_flatten, Function.comp_def]
      rw [hnone, List.append_nil, hzero]
      constructor
      · rintro (_ | ⟨hlt, -⟩)
        · rfl
        · exact absurd hlt (Nat.lt_irrefl _)
      · rintro rfl
        exact .done le_rfl
    · have hround := length_flatten_round piles
      have htaken := List.length_pos_of_ne_nil (filterMap_getLast?_ne_nil hpos)
      have hnext : PopsInTurn ((out ++ piles.filterMap List.getLast?).length +
            (piles.map List.dropLast).flatten.length) (out ++ piles.filterMap List.getLast?)
            (piles.map List.dropLast) result ↔ _ := ih _ (by omega) rfl
      rw [List.length_append, Nat.add_assoc, hround, map_dropLast_map_reverse, List.append_assoc,
        filterMap_getLast?_eq, ← takeTurns_eq] at hnext
      rw [← hnext, ← filterMap_getLast?_eq]
      constructor
      · rintro (hle | ⟨-, next⟩)
        · omega
        · exact next
      · exact .round (by omega)

/-! ## Sorting -/

section Sorting

variable {β : Type} (key : α → List Nat)

theorem sortOn_map (f : β → α) (xs : List β) :
    sortOn key (xs.map f) = (sortOn (fun x => key (f x)) xs).map f := by
  unfold sortOn
  rw [List.map_mergeSort]
  intro _ _ _ _
  rfl

variable (hkey : ∀ x y, (key x).length = (key y).length)

include hkey

theorem sortOn_filter (p : α → Bool) (xs : List α) :
    sortOn key (xs.filter p) = (sortOn key xs).filter p := by
  apply eq_of_filter_key_eq hkey (pairwise_sortOn key hkey _)
    ((pairwise_sortOn key hkey xs).filter p)
  intro k
  rw [filter_sortOn key hkey, List.filter_comm, ← filter_sortOn key hkey xs, List.filter_comm]

theorem pairwise_sortOn_of_key_eq {R : α → α → Prop} {xs : List α} (h : xs.Pairwise R) :
    (sortOn key xs).Pairwise fun x y => key x = key y → R x y := by
  rw [List.pairwise_iff_forall_sublist]
  intro x y hsub hxy
  have hboth := hsub.filter (key · = key x)
  rw [filter_sortOn key hkey] at hboth
  have hpair : [x, y].filter (key · = key x) = [x, y] := by simp [hxy]
  rw [hpair] at hboth
  exact List.pairwise_iff_forall_sublist.mp h (hboth.trans List.filter_sublist)

end Sorting

/-! ## Ranks -/

theorem split_of_mem_turnsBehind {queue : α → Nat} {seen xs : List α} {p : α × Nat}
    (h : p ∈ turnsBehind queue seen xs) : ∃ front back, xs = front ++ p.1 :: back ∧
      p.2 = seen.countP (queue · == queue p.1) + front.countP (queue · == queue p.1) := by
  induction xs generalizing seen with
  | nil => cases h
  | cons x rest ih =>
    rcases List.mem_cons.mp h with rfl | h
    · exact ⟨[], rest, rfl, rfl⟩
    · obtain ⟨front, back, rfl, hturn⟩ := ih h
      refine ⟨x :: front, back, rfl, ?_⟩
      rw [hturn, List.countP_cons, List.countP_cons]
      omega

/-- In a list that is ordered by `R`, the turn of an element is the number of elements of its queue
that are before it in this order. -/
theorem turn_eq_countP {queue : α → Nat} {R : α → α → Prop} [DecidableRel R] {xs : List α}
    (h : xs.Pairwise R) (hasymm : ∀ x y, R x y → ¬R y x) {p : α × Nat}
    (hp : p ∈ withTurns queue xs) :
    p.2 = xs.countP fun y => queue y = queue p.1 ∧ R y p.1 := by
  obtain ⟨front, back, rfl, hturn⟩ := split_of_mem_turnsBehind hp
  rw [List.pairwise_append, List.pairwise_cons] at h
  obtain ⟨-, ⟨hback, -⟩, hfront⟩ := h
  have hahead : front.countP (fun y => queue y = queue p.1 ∧ R y p.1) =
      front.countP (queue · == queue p.1) := by
    apply List.countP_congr
    intro y hy
    simp [hfront y hy p.1 List.mem_cons_self]
  have hself : ¬R p.1 p.1 := fun hself => hasymm _ _ hself hself
  have hbehind : back.countP (fun y => queue y = queue p.1 ∧ R y p.1) = 0 := by
    rw [List.countP_eq_zero]
    intro y hy
    simp [hasymm _ _ (hback y hy)]
  rw [hturn, List.countP_nil, List.countP_append, List.countP_cons, hahead, hbehind]
  simp [hself]

def Mask.IsHighest (m : Mask) (position : Nat) : Prop :=
  (m = 0 ∧ position = 0) ∨
    m.toNat.testBit position = true ∧ ∀ e, m.toNat.testBit e = true → e ≤ position

theorem Mask.isHighest_highest (m : Mask) : m.IsHighest m.highest := by
  by_cases h : m = 0
  · subst h
    exact .inl ⟨rfl, by decide⟩
  · have hne : m.toNat ≠ 0 := fun hzero => h (UInt32.toNat_inj.mp hzero)
    refine .inr ⟨Nat.testBit_log2 hne, fun e he => ?_⟩
    exact (Nat.le_log2 hne).mpr (Nat.ge_two_pow_of_testBit he)

section Rotation

variable (stores : List Transfer)

def pileOf (i : Fin stores.length) : Nat := (stores.get i).cluster.highest

def addressOf (i : Fin stores.length) : Nat := (stores.get i).hostAddr.toNat

/-- Popped first if on the same pile: the larger address, or the later one of two with the same
address. -/
def PoppedFirst (i j : Fin stores.length) : Prop :=
  addressOf stores j < addressOf stores i ∨ addressOf stores i = addressOf stores j ∧ j < i

instance : DecidableRel (PoppedFirst stores) := fun _ _ => inferInstanceAs (Decidable (_ ∨ _))

/-- How many stores of the pile have a larger address, or the same one and a later place. -/
def storeRank (i : Fin stores.length) : Nat :=
  (List.finRange stores.length).countP
      (fun j => pileOf stores j = pileOf stores i ∧ addressOf stores i < addressOf stores j) +
    (List.finRange stores.length).countP fun j =>
      pileOf stores j = pileOf stores i ∧ addressOf stores j = addressOf stores i ∧ i < j

def popOrder : List (Fin stores.length) :=
  (sortOn (fun i => [addressOf stores i]) (List.finRange stores.length)).reverse

theorem popOrder_perm : (popOrder stores).Perm (List.finRange stores.length) :=
  (List.reverse_perm _).trans (sortOn_perm _ _)

theorem pairwise_popOrder : (popOrder stores).Pairwise (PoppedFirst stores) := by
  rw [popOrder, List.pairwise_reverse]
  have hsorted := pairwise_sortOn (fun i => [addressOf stores i]) (fun _ _ => rfl)
    (List.finRange stores.length)
  have hties := pairwise_sortOn_of_key_eq (fun i => [addressOf stores i]) (fun _ _ => rfl)
    (List.pairwise_lt_finRange stores.length)
  apply (hsorted.and hties).imp
  rintro i j ⟨hle, htie⟩
  rw [keyLe_cons_iff] at hle
  rcases hle with hlt | ⟨heq, -⟩
  · exact .inl hlt
  · exact .inr ⟨heq.symm, htie (by simp [heq])⟩

/-- The stores of each pile, the next to be popped last. -/
def storePiles : List (List Transfer) :=
  (List.range 32).map fun cluster =>
    sortOn (fun t => [t.hostAddr.toNat]) (stores.filter (·.cluster.highest == cluster))

theorem rotateStores_eq_takeTurns :
    rotateStores stores = takeTurns ((storePiles stores).map List.reverse) := by
  rw [rotateStores, storePiles, List.map_map]
  rfl

theorem length_flatten_storePiles : (storePiles stores).flatten.length = stores.length := by
  have hturns := (takeTurns_perm ((storePiles stores).map List.reverse)).length_eq
  rw [← rotateStores_eq_takeTurns, (rotateStores_perm stores).length_eq] at hturns
  simpa [List.length_flatten, Function.comp_def] using hturns.symm

theorem storePiles_eq : (storePiles stores).map List.reverse =
    ((List.range 32).map fun cluster =>
      (popOrder stores).filter (pileOf stores · = cluster)).map (List.map stores.get) := by
  simp only [storePiles, List.map_map]
  apply List.map_congr_left
  intro cluster _
  have hplaces : stores.filter (·.cluster.highest == cluster) =
      ((List.finRange stores.length).filter (pileOf stores · = cluster)).map stores.get := by
    conv_lhs => rw [← List.map_get_finRange stores]
    exact List.filter_map
  have hsort := sortOn_filter (fun i => [addressOf stores i]) (fun _ _ => rfl)
    (pileOf stores · = cluster) (List.finRange stores.length)
  simp only [Function.comp_apply]
  rw [hplaces, sortOn_map, ← List.map_reverse, popOrder, List.filter_reverse, ← hsort]
  rfl

theorem rotateStores_eq_turnOrder :
    rotateStores stores = (turnOrder (pileOf stores) (popOrder stores)).map stores.get := by
  rw [rotateStores_eq_takeTurns, storePiles_eq, takeTurns_map]
  apply congrArg (List.map stores.get)
  apply takeTurns_eq_turnOrder
  · rw [List.pairwise_map]
    apply List.pairwise_lt_range.imp
    intro c d hlt i hi j hj
    have hi := of_decide_eq_true (List.mem_filter.mp hi).2
    have hj := of_decide_eq_true (List.mem_filter.mp hj).2
    omega
  · intro q hq i hi
    obtain ⟨c, -, rfl⟩ := List.mem_map.mp hq
    rw [of_decide_eq_true (List.mem_filter.mp hi).2]
  · intro i hi
    have hpile : pileOf stores i < 32 := Mask.highest_lt _
    exact ⟨_, List.mem_map_of_mem (List.mem_range.mpr hpile),
      List.mem_filter.mpr ⟨hi, decide_eq_true rfl⟩⟩

theorem turn_eq_storeRank {p : Fin stores.length × Nat}
    (h : p ∈ withTurns (pileOf stores) (popOrder stores)) : p.2 = storeRank stores p.1 := by
  rw [turn_eq_countP (pairwise_popOrder stores) ?_ h, (popOrder_perm stores).countP_eq, storeRank]
  · rw [List.countP_eq_countP_filter_add _ _ fun j => addressOf stores p.1 < addressOf stores j,
      List.countP_filter, List.countP_filter]
    congr 1 <;>
    · apply List.countP_congr
      intro j _
      simp only [PoppedFirst, Bool.and_eq_true, Bool.not_eq_true', decide_eq_true_eq,
        decide_eq_false_iff_not]
      grind
  · intro i j hij hji
    unfold PoppedFirst at hij hji
    omega

def RotatesBefore (i j : Fin stores.length) : Prop :=
  storeRank stores i < storeRank stores j ∨
    storeRank stores i = storeRank stores j ∧ pileOf stores i < pileOf stores j

theorem pairwise_turnOrder_popOrder :
    (turnOrder (pileOf stores) (popOrder stores)).Pairwise (RotatesBefore stores) := by
  rw [turnOrder, List.pairwise_map]
  apply (pairwise_sortOn_withTurns (pileOf stores) (popOrder stores)).imp_of_mem
  intro p q hp hq hearlier
  rw [(sortOn_perm _ _).mem_iff] at hp hq
  rwa [RotatesBefore, ← turn_eq_storeRank stores hp, ← turn_eq_storeRank stores hq]

/-- Neighbours are of one pile only if all that follow are of that pile too. -/
theorem rotateStores_alternates {front back : List Transfer} {t u : Transfer}
    (h : rotateStores stores = front ++ t :: u :: back)
    (hpile : t.cluster.highest = u.cluster.highest) :
    ∀ v ∈ back, v.cluster.highest = t.cluster.highest := by
  rw [rotateStores_eq_turnOrder] at h
  obtain ⟨places, rest, hsplit, -, hrest⟩ := List.map_eq_append_iff.mp h
  obtain ⟨i, rest', rfl, rfl, hrest'⟩ := List.map_eq_cons_iff.mp hrest
  obtain ⟨j, behind, rfl, rfl, rfl⟩ := List.map_eq_cons_iff.mp hrest'
  intro v hv
  obtain ⟨k, hk, rfl⟩ := List.mem_map.mp hv
  exact turnOrder_alternates hsplit hpile k hk

end Rotation

/-- The rounds of popping the piles come to an end, with the rotated stores as the only result.
These are all stores, by rank and by pile within a rank, so that neighbours are of one pile only if
all that follow are. -/
theorem rotateStores_by_rank (stores : List Transfer) :
    (∀ t ∈ stores, t.cluster.IsHighest t.cluster.highest) ∧
    (∀ out, PopsInTurn stores.length [] (storePiles stores) out ↔ out = rotateStores stores) ∧
    (∃ order : List (Fin stores.length), order.Perm (List.finRange stores.length) ∧
      rotateStores stores = order.map stores.get ∧ order.Pairwise (RotatesBefore stores)) ∧
    ∀ front t u back, rotateStores stores = front ++ t :: u :: back →
      t.cluster.highest = u.cluster.highest →
      ∀ v ∈ back, v.cluster.highest = t.cluster.highest := by
  refine ⟨fun t _ => t.cluster.isHighest_highest, fun out => ?_,
    ⟨_, ?_, rotateStores_eq_turnOrder stores, pairwise_turnOrder_popOrder stores⟩,
    fun front t u back h hpile => rotateStores_alternates stores h hpile⟩
  · have hgoal : ([] : List Transfer).length + (storePiles stores).flatten.length =
        stores.length := by
      rw [length_flatten_storePiles, List.length_nil, Nat.zero_add]
    rw [← hgoal, popsInTurn_iff, List.nil_append, rotateStores_eq_takeTurns]
  · exact (turnOrder_perm _ _).trans (popOrder_perm stores)

def crowdedCluster : List Transfer :=
  [.row .store1d 1 1 0x200 0 4, .row .store1d 1 1 0x200 8 4, .row .store1d 1 1 0x100 0 4,
    .row .store1d 1 1 0x300 0 4, .row .store1d 3 1 0x400 0 4]

theorem rotateStores_by_rank_crowdedCluster :
    rotateStores crowdedCluster =
      [.row .store1d 1 1 0x300 0 4, .row .store1d 3 1 0x400 0 4] ++
        .row .store1d 1 1 0x200 8 4 :: .row .store1d 1 1 0x200 0 4 ::
        [.row .store1d 1 1 0x100 0 4] ∧
      ∀ v ∈ [Transfer.row .store1d 1 1 0x100 0 4], v.cluster.highest = Mask.highest 1 := by
  have hrotated : rotateStores crowdedCluster =
      [.row .store1d 1 1 0x300 0 4, .row .store1d 3 1 0x400 0 4] ++
        .row .store1d 1 1 0x200 8 4 :: .row .store1d 1 1 0x200 0 4 ::
        [.row .store1d 1 1 0x100 0 4] := by
    delta rotateStores
    simp only [sortOn_eq_insertionSort (fun t : Transfer => [t.hostAddr.toNat]) fun _ _ => rfl]
    decide +kernel
  obtain ⟨-, -, -, hneighbours⟩ := rotateStores_by_rank crowdedCluster
  exact ⟨hrotated, hneighbours _ _ _ _ hrotated rfl⟩

end CommandStream
