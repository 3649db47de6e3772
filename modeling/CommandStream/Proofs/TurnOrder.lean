import CommandStream.Proofs.Reordering

/-! # Whose turn it is

The elements of a list wait in queues, one for each number that `queue` gives. An element's turn is
the number of elements of its queue in front of it. Taking turns over the queues sorts the list by
turn, and by queue within a turn.
-/

namespace CommandStream

variable {α β : Type} {queue : α → Nat}

/-! ## Turns within a list -/

/-- Each element with its turn, when the elements `seen` are in front of the list. -/
def turnsBehind (queue : α → Nat) : List α → List α → List (α × Nat)
  | _, [] => []
  | seen, x :: rest =>
    (x, seen.countP (queue · == queue x)) :: turnsBehind queue (x :: seen) rest

def withTurns (queue : α → Nat) (xs : List α) : List (α × Nat) := turnsBehind queue [] xs

def turnKey (queue : α → Nat) (p : α × Nat) : List Nat := [p.2, queue p.1]

/-- The list in the order of turns, and of queues within a turn. -/
def turnOrder (queue : α → Nat) (xs : List α) : List α :=
  (sortOn (turnKey queue) (withTurns queue xs)).map Prod.fst

def Earlier (queue : α → Nat) (p q : α × Nat) : Prop :=
  p.2 < q.2 ∨ p.2 = q.2 ∧ queue p.1 < queue q.1

theorem Earlier.trans {p q r : α × Nat} (hpq : Earlier queue p q) (hqr : Earlier queue q r) :
    Earlier queue p r := by
  unfold Earlier at *
  omega

theorem Earlier.irrefl (p : α × Nat) : ¬Earlier queue p p := by
  unfold Earlier
  omega

theorem earlier_iff {p q : α × Nat} :
    Earlier queue p q ↔
      keyLe (turnKey queue p) (turnKey queue q) = true ∧ turnKey queue p ≠ turnKey queue q := by
  have hkeys : turnKey queue p = turnKey queue q ↔ p.2 = q.2 ∧ queue p.1 = queue q.1 := by
    simp [turnKey]
  rw [Earlier, ne_eq, hkeys, turnKey, turnKey, keyLe_cons_iff, keyLe_cons_iff]
  simp only [keyLe, and_true]
  omega

theorem map_fst_turnsBehind (seen xs : List α) :
    (turnsBehind queue seen xs).map Prod.fst = xs := by
  induction xs generalizing seen with
  | nil => rfl
  | cons x rest ih => rw [turnsBehind, List.map_cons, ih]

theorem filter_turnsBehind (queue : α → Nat) (seen xs : List α) (n : Nat) :
    (turnsBehind queue seen xs).filter (queue ·.1 = n) =
      (xs.filter (queue · = n)).zipIdx (seen.countP (queue · == n)) := by
  induction xs generalizing seen with
  | nil => rfl
  | cons x rest ih =>
    rw [turnsBehind]
    by_cases h : queue x = n
    · simp [ih, h]
    · simp [ih, h]

theorem mem_withTurns_iff {xs : List α} {x : α} {turn : Nat} :
    (x, turn) ∈ withTurns queue xs ↔ (xs.filter (queue · = queue x))[turn]? = some x := by
  have hfilter := filter_turnsBehind queue [] xs (queue x)
  rw [List.countP_nil] at hfilter
  rw [← List.mk_mem_zipIdx_iff_getElem?, ← hfilter, List.mem_filter, withTurns]
  simp

theorem exists_earlier_turn {xs : List α} {x : α} {turn earlier : Nat}
    (h : (x, turn) ∈ withTurns queue xs) (hle : earlier ≤ turn) :
    ∃ y, (y, earlier) ∈ withTurns queue xs ∧ queue y = queue x := by
  rw [mem_withTurns_iff, List.getElem?_eq_some_iff] at h
  obtain ⟨hlt, -⟩ := h
  have hmem := List.getElem_mem (hle.trans_lt hlt)
  have hqueue := (List.mem_filter.mp hmem).2
  simp only [decide_eq_true_eq] at hqueue
  refine ⟨_, ?_, hqueue⟩
  rw [mem_withTurns_iff, hqueue]
  exact List.getElem?_eq_getElem _

theorem countP_le_of_mem_turnsBehind {seen xs : List α} {p : α × Nat}
    (h : p ∈ turnsBehind queue seen xs) : seen.countP (queue · == queue p.1) ≤ p.2 := by
  induction xs generalizing seen with
  | nil => cases h
  | cons x rest ih =>
    rcases List.mem_cons.mp h with rfl | h
    · exact le_rfl
    · have hrest := ih h
      rw [List.countP_cons] at hrest
      omega

theorem pairwise_turnsBehind (seen xs : List α) :
    (turnsBehind queue seen xs).Pairwise fun p q => queue p.1 = queue q.1 → p.2 < q.2 := by
  induction xs generalizing seen with
  | nil => exact .nil
  | cons x rest ih =>
    constructor
    · rintro p hp hqueue
      have hturn := countP_le_of_mem_turnsBehind hp
      simp only at hqueue
      rw [List.countP_cons, ← hqueue, beq_self_eq_true, if_pos rfl] at hturn
      exact hturn
    · exact ih (x :: seen)

theorem nodup_map_turnKey (xs : List α) :
    ((withTurns queue xs).map (turnKey queue)).Nodup := by
  apply List.pairwise_map.mpr
  apply (pairwise_turnsBehind [] xs).imp
  intro p q h hkey
  simp only [turnKey, List.cons.injEq, and_true] at hkey
  exact Nat.ne_of_lt (h hkey.2) hkey.1

/-- The order of turns is that of the list of turns in which each is earlier than the next. -/
theorem turnOrder_eq_of_pairwise {xs : List α} {turns : List (α × Nat)}
    (hperm : turns.Perm (withTurns queue xs)) (hearlier : turns.Pairwise (Earlier queue)) :
    turnOrder queue xs = turns.map Prod.fst := by
  rw [turnOrder, eq_sortOn_of_perm _ (fun _ _ => rfl) ?_ hperm
    (hearlier.imp fun h => (earlier_iff.mp h).1)]
  intro p hp q hq
  exact List.inj_on_of_nodup_map (nodup_map_turnKey xs) hp hq

/-! ## Taking turns -/

section Queues

theorem turns_map (f : α → β) (rounds : Nat) (queues : List (List α)) :
    turns rounds (queues.map (List.map f)) = (turns rounds queues).map f := by
  induction rounds generalizing queues with
  | zero => rfl
  | succ rounds ih =>
    have htail : (queues.map (List.map f)).map List.tail =
        (queues.map List.tail).map (List.map f) := by
      simp
    have hheads : (queues.map (List.map f)).filterMap List.head? =
        (queues.filterMap List.head?).map f := by
      simp [List.filterMap_map, List.map_filterMap]
    rw [turns, turns, htail, ih, hheads, List.map_append]

theorem takeTurns_map (f : α → β) (queues : List (List α)) :
    takeTurns (queues.map (List.map f)) = (takeTurns queues).map f := by
  rw [takeTurns, turns_map, takeTurns, List.map_map]
  simp [Function.comp_def]

theorem mem_turns {rounds : Nat} {queues : List (List α)} {x : α} (h : x ∈ turns rounds queues) :
    ∃ q ∈ queues, x ∈ q := by
  induction rounds generalizing queues with
  | zero => cases h
  | succ rounds ih =>
    rcases List.mem_append.mp h with h | h
    · obtain ⟨q, hq, hhead⟩ := List.mem_filterMap.mp h
      exact ⟨q, hq, List.mem_of_head? hhead⟩
    · obtain ⟨_, htail, hx⟩ := ih h
      obtain ⟨q, hq, rfl⟩ := List.mem_map.mp htail
      exact ⟨q, hq, List.mem_of_mem_tail hx⟩

def QueueBefore (queue : α → Nat) (q r : List α) : Prop := ∀ x ∈ q, ∀ y ∈ r, queue x < queue y

/-- Numbered from `start` on, the elements of the queues are taken in the order of their numbers,
and by queue for each number. -/
theorem pairwise_turns {queues : List (List α)} (h : queues.Pairwise (QueueBefore queue))
    (rounds start : Nat) :
    (turns rounds (queues.map (·.zipIdx start))).Pairwise (Earlier queue) := by
  induction rounds generalizing queues start with
  | zero => exact .nil
  | succ rounds ih =>
    have htails : (queues.map (·.zipIdx start)).map List.tail =
        (queues.map List.tail).map (·.zipIdx (start + 1)) := by
      simp only [List.map_map]
      apply List.map_congr_left
      rintro (_ | ⟨x, rest⟩) -
      · rfl
      · simp
    rw [turns, htails, List.pairwise_append]
    have hhead {p : α × Nat} (hp : p ∈ (queues.map (·.zipIdx start)).filterMap List.head?) :
        p.2 = start := by
      obtain ⟨_, hqueue, hp⟩ := List.mem_filterMap.mp hp
      obtain ⟨q, -, rfl⟩ := List.mem_map.mp hqueue
      rw [List.head?_zipIdx] at hp
      obtain ⟨x, -, rfl⟩ := Option.map_eq_some_iff.mp hp
      rfl
    refine ⟨?_, ?_, ?_⟩
    · rw [List.pairwise_filterMap, List.pairwise_map]
      apply h.imp
      rintro q r hbefore p hp p' hp'
      rw [List.head?_zipIdx] at hp hp'
      obtain ⟨x, hx, rfl⟩ := Option.map_eq_some_iff.mp hp
      obtain ⟨y, hy, rfl⟩ := Option.map_eq_some_iff.mp hp'
      exact .inr ⟨rfl, hbefore x (List.mem_of_head? hx) y (List.mem_of_head? hy)⟩
    · apply ih
      rw [List.pairwise_map]
      apply h.imp
      intro q r hbefore x hx y hy
      exact hbefore x (List.mem_of_mem_tail hx) y (List.mem_of_mem_tail hy)
    · intro p hp p' hp'
      obtain ⟨_, hqueue, hp'⟩ := mem_turns hp'
      obtain ⟨q, -, rfl⟩ := List.mem_map.mp hqueue
      left
      rw [hhead hp]
      exact List.le_snd_of_mem_zipIdx hp'

/-- Taking turns over the queues of a list gives the order of turns. -/
theorem takeTurns_eq_turnOrder {queues : List (List α)} {xs : List α}
    (hbefore : queues.Pairwise (QueueBefore queue))
    (hqueue : ∀ q ∈ queues, ∀ x ∈ q, q = xs.filter (queue · = queue x))
    (hall : ∀ x ∈ xs, ∃ q ∈ queues, x ∈ q) : takeTurns queues = turnOrder queue xs := by
  have hplace {x : α} {turn : Nat} : (∃ q ∈ queues, (x, turn) ∈ q.zipIdx) ↔
      (x, turn) ∈ withTurns queue xs := by
    rw [mem_withTurns_iff]
    constructor
    · rintro ⟨q, hq, h⟩
      rw [List.mk_mem_zipIdx_iff_getElem?] at h
      rwa [← hqueue q hq x (List.mem_of_getElem? h)]
    · intro h
      have hx : x ∈ xs := (List.mem_filter.mp (List.mem_of_getElem? h)).1
      obtain ⟨q, hq, hmem⟩ := hall x hx
      refine ⟨q, hq, ?_⟩
      rwa [List.mk_mem_zipIdx_iff_getElem?, hqueue q hq x hmem]
  set numbered := takeTurns (queues.map (·.zipIdx)) with hnumbered
  have hearlier : numbered.Pairwise (Earlier queue) := pairwise_turns hbefore _ 0
  have hperm : numbered.Perm (withTurns queue xs) := by
    rw [List.perm_ext_iff_of_nodup]
    · rintro ⟨x, turn⟩
      rw [hnumbered, (takeTurns_perm _).mem_iff, ← hplace]
      simp
    · apply hearlier.imp
      rintro p _ h rfl
      exact Earlier.irrefl p h
    · exact .of_map _ (nodup_map_turnKey xs)
  rw [turnOrder_eq_of_pairwise hperm hearlier, hnumbered, ← takeTurns_map, List.map_map]
  simp [Function.comp_def]

end Queues

/-! ## The order of turns -/

section Order

variable {xs : List α}

theorem pairwise_sortOn_withTurns (queue : α → Nat) (xs : List α) :
    (sortOn (turnKey queue) (withTurns queue xs)).Pairwise (Earlier queue) := by
  have hsorted := pairwise_sortOn (turnKey queue) (fun _ _ => rfl) (withTurns queue xs)
  have hdistinct : (sortOn (turnKey queue) (withTurns queue xs)).Pairwise
      fun p q => turnKey queue p ≠ turnKey queue q :=
    List.pairwise_map.mp
      (((sortOn_perm (turnKey queue) _).map _).nodup_iff.mpr (nodup_map_turnKey xs))
  exact (hsorted.and hdistinct).imp earlier_iff.mpr

theorem turnOrder_perm (queue : α → Nat) (xs : List α) : (turnOrder queue xs).Perm xs := by
  have hperm := (sortOn_perm (turnKey queue) (withTurns queue xs)).map Prod.fst
  rwa [withTurns, map_fst_turnsBehind] at hperm

theorem filter_turnOrder (queue : α → Nat) (xs : List α) (n : Nat) :
    (turnOrder queue xs).filter (queue · = n) = xs.filter (queue · = n) := by
  have hsorted := (pairwise_sortOn_withTurns queue xs).filter (queue ·.1 = n)
  have hgiven : ((withTurns queue xs).filter (queue ·.1 = n)).Pairwise (Earlier queue) := by
    rw [List.pairwise_filter]
    apply (pairwise_turnsBehind [] xs).imp
    intro p q h hp hq
    simp only [decide_eq_true_eq] at hp hq
    exact .inl (h (hp.trans hq.symm))
  have hsame : (sortOn (turnKey queue) (withTurns queue xs)).filter (queue ·.1 = n) =
      (withTurns queue xs).filter (queue ·.1 = n) := by
    apply ((sortOn_perm (turnKey queue) _).filter _).eq_of_pairwise ?_ hsorted hgiven
    intro p q _ _ hpq hqp
    exact absurd (hpq.trans hqp) (Earlier.irrefl p)
  calc (turnOrder queue xs).filter (queue · = n)
    _ = ((sortOn (turnKey queue) (withTurns queue xs)).filter (queue ·.1 = n)).map Prod.fst := by
      rw [turnOrder, List.filter_map]
      rfl
    _ = ((withTurns queue xs).map Prod.fst).filter (queue · = n) := by
      rw [hsame, List.filter_map]
      rfl
    _ = xs.filter (queue · = n) := by rw [withTurns, map_fst_turnsBehind]

theorem turnOrder_congr {ys : List α}
    (h : ∀ n, xs.filter (queue · = n) = ys.filter (queue · = n)) :
    turnOrder queue xs = turnOrder queue ys := by
  have hperm : (withTurns queue xs).Perm (withTurns queue ys) := by
    rw [List.perm_ext_iff_of_nodup (.of_map _ (nodup_map_turnKey xs))
      (.of_map _ (nodup_map_turnKey ys))]
    rintro ⟨x, turn⟩
    rw [mem_withTurns_iff, mem_withTurns_iff, h]
  rw [turnOrder_eq_of_pairwise ((sortOn_perm _ _).trans hperm.symm)
    (pairwise_sortOn_withTurns queue ys), turnOrder]

theorem turnOrder_turnOrder (queue : α → Nat) (xs : List α) :
    turnOrder queue (turnOrder queue xs) = turnOrder queue xs :=
  turnOrder_congr (filter_turnOrder queue xs)

/-- Two neighbours are of one queue only if all that follow are of that queue too. -/
theorem turnOrder_alternates {front back : List α} {x y : α}
    (h : turnOrder queue xs = front ++ x :: y :: back) (hqueue : queue x = queue y) :
    ∀ z ∈ back, queue z = queue x := by
  have hearlier := pairwise_sortOn_withTurns queue xs
  have hmem {p : α × Nat} :
      p ∈ sortOn (turnKey queue) (withTurns queue xs) ↔ p ∈ withTurns queue xs :=
    (sortOn_perm _ _).mem_iff
  obtain ⟨front', tail, hsplit, -, htail⟩ := List.map_eq_append_iff.mp h
  obtain ⟨⟨x, turn⟩, tail', rfl, rfl, htail'⟩ := List.map_eq_cons_iff.mp htail
  obtain ⟨⟨y, turn'⟩, back', rfl, rfl, rfl⟩ := List.map_eq_cons_iff.mp htail'
  replace hqueue : queue x = queue y := hqueue
  rw [hsplit, List.pairwise_append, List.pairwise_cons, List.pairwise_cons] at hearlier
  obtain ⟨-, ⟨hx, hy, -⟩, hfront⟩ := hearlier
  have hgap {p : α × Nat} (hp : p ∈ withTurns queue xs) (hafter : Earlier queue (x, turn) p) :
      ¬Earlier queue p (y, turn') := by
    intro hbefore
    rw [← hmem, hsplit, List.mem_append, List.mem_cons, List.mem_cons] at hp
    rcases hp with hp | rfl | rfl | hp
    · exact Earlier.irrefl p ((hfront p hp _ List.mem_cons_self).trans hafter)
    · exact Earlier.irrefl _ hafter
    · exact Earlier.irrefl _ hbefore
    · exact Earlier.irrefl p (hbefore.trans (hy p hp))
  have hturn : turn < turn' := by
    rcases hx _ List.mem_cons_self with hlt | ⟨-, hlt⟩
    · exact hlt
    · exact absurd hqueue (Nat.ne_of_lt hlt)
  intro z hback
  obtain ⟨⟨z, last⟩, hz, rfl⟩ := List.mem_map.mp hback
  by_contra hother
  have hlast : (z, last) ∈ withTurns queue xs := by
    rw [← hmem, hsplit]
    simp [hz]
  have hle : turn' ≤ last := by
    rcases hy _ hz with hlt | ⟨heq, -⟩
    · exact hlt.le
    · exact heq.le
  -- a later queue has an element in the turn of `x`, and an earlier one in the next turn
  rcases Nat.lt_or_gt_of_ne hother with hlt | hgt
  · obtain ⟨w, hw, hwqueue⟩ := exists_earlier_turn hlast (hturn.trans_le hle : turn + 1 ≤ last)
    apply hgap hw (.inl (Nat.lt_succ_self turn))
    rcases Nat.lt_or_eq_of_le hturn with hturn | hturn
    · exact .inl hturn
    · exact .inr ⟨hturn, by rwa [hwqueue, ← hqueue]⟩
  · obtain ⟨w, hw, hwqueue⟩ := exists_earlier_turn hlast (hturn.le.trans hle)
    exact hgap hw (.inr ⟨rfl, by rwa [hwqueue]⟩) (.inl hturn)

end Order

/-! ## Clusters -/

def clusterQueues (run : List Transfer) : List (List Transfer) :=
  (sortOn (fun t => [t.cluster.toNat]) run).splitBy fun a b => a.cluster == b.cluster

section Clusters

variable {run q : List Transfer}

theorem cluster_eq_of_mem_queue (h : q ∈ clusterQueues run) {t u : Transfer} (ht : t ∈ q)
    (hu : u ∈ q) : t.cluster = u.cluster :=
  key_eq_of_mem_splitBy h ht hu

theorem pairwise_clusterQueues (run : List Transfer) :
    (clusterQueues run).Pairwise (QueueBefore (·.cluster.toNat)) := by
  have hsorted := pairwise_sortOn (fun t : Transfer => [t.cluster.toNat]) (fun _ _ => rfl) run
  rw [← List.flatten_splitBy (fun a b : Transfer => a.cluster == b.cluster)
    (sortOn (fun t => [t.cluster.toNat]) run), List.pairwise_flatten] at hsorted
  have hle : (clusterQueues run).Pairwise
      fun q r => ∀ t ∈ q, ∀ u ∈ r, t.cluster.toNat ≤ u.cluster.toNat := by
    apply hsorted.2.imp
    intro q r h t ht u hu
    have hkey := h t ht u hu
    rw [keyLe_cons_iff] at hkey
    omega
  have hchange : (clusterQueues run).IsChain
      fun q r => ∀ t ∈ q, ∀ u ∈ r, t.cluster ≠ u.cluster :=
    isChain_splitBy_key Transfer.cluster _
  have hne : ∀ q ∈ clusterQueues run, q ≠ [] := fun _ => List.ne_nil_of_mem_splitBy
  generalize clusterQueues run = queues at hle hchange hne
  clear hsorted
  induction queues with
  | nil => exact .nil
  | cons q queues ih =>
    rw [List.forall_mem_cons] at hne
    rw [List.pairwise_cons] at hle
    refine .cons ?_ (ih hle.2 hchange.tail hne.2)
    cases queues with
    | nil => simp
    | cons q' queues =>
      have hnext : QueueBefore (·.cluster.toNat) q q' := by
        intro t ht u hu
        apply Nat.lt_of_le_of_ne (hle.1 q' List.mem_cons_self t ht u hu)
        intro heq
        exact (List.isChain_cons_cons.mp hchange).1 t ht u hu (UInt32.toNat_inj.mp heq)
      obtain ⟨w, hw⟩ := List.exists_mem_of_ne_nil q' (hne.2 q' List.mem_cons_self)
      intro r hr t ht u hu
      rcases List.mem_cons.mp hr with rfl | hr
      · exact hnext t ht u hu
      · exact (hnext t ht w hw).trans_le ((List.pairwise_cons.mp hle.2).1 r hr w hw u hu)

theorem queue_eq_filter (h : q ∈ clusterQueues run) {t : Transfer} (ht : t ∈ q) :
    q = run.filter (·.cluster.toNat = t.cluster.toNat) := by
  have hfilter : (clusterQueues run).flatten.filter (·.cluster.toNat = t.cluster.toNat) =
      run.filter (·.cluster.toNat = t.cluster.toNat) := by
    have hsort := filter_sortOn (fun t : Transfer => [t.cluster.toNat]) (fun _ _ => rfl) run
      [t.cluster.toNat]
    simp only [List.cons.injEq, and_true] at hsort
    rw [clusterQueues, List.flatten_splitBy, hsort]
  have hq : q.filter (·.cluster.toNat = t.cluster.toNat) = q := by
    apply List.filter_eq_self.mpr
    intro u hu
    rw [cluster_eq_of_mem_queue h hu ht]
    exact decide_eq_true rfl
  have hpairwise := pairwise_clusterQueues run
  obtain ⟨front, back, hsplit⟩ := List.append_of_mem h
  rw [hsplit, List.pairwise_append, List.pairwise_cons] at hpairwise
  obtain ⟨-, ⟨hback, -⟩, hfront⟩ := hpairwise
  have hnone {queues : List (List Transfer)}
      (hother : ∀ r ∈ queues, ∀ u ∈ r, u.cluster.toNat ≠ t.cluster.toNat) :
      queues.flatten.filter (·.cluster.toNat = t.cluster.toNat) = [] := by
    apply List.filter_eq_nil_iff.mpr
    intro u hu
    obtain ⟨r, hr, hu⟩ := List.mem_flatten.mp hu
    simpa using hother r hr u hu
  have hfront' := hnone fun r hr u hu =>
    Nat.ne_of_lt (hfront r hr q List.mem_cons_self u hu t ht)
  have hback' := hnone fun r hr u hu => Nat.ne_of_gt (hback r hr t ht u hu)
  rw [← hfilter, hsplit, List.flatten_append, List.flatten_cons, List.filter_append,
    List.filter_append, hfront', hback', hq, List.nil_append, List.append_nil]

theorem exists_queue {t : Transfer} (h : t ∈ run) : ∃ q ∈ clusterQueues run, t ∈ q := by
  rw [← List.mem_flatten, clusterQueues, List.flatten_splitBy, (sortOn_perm _ _).mem_iff]
  exact h

theorem interleave_eq_turnOrder (run : List Transfer) :
    interleave run = turnOrder (·.cluster.toNat) run :=
  takeTurns_eq_turnOrder (pairwise_clusterQueues run) (fun _ hq _ ht => queue_eq_filter hq ht)
    fun _ ht => exists_queue ht

end Clusters

end CommandStream
