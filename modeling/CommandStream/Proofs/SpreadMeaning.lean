import CommandStream.Proofs.LoopExpansion
import CommandStream.Proofs.Spreading

/-! # Spreading stores only delays them

Loads, compute commands and boundaries keep their meaning, no move is lost, and a store never
moves to an earlier stretch.
-/

namespace CommandStream

variable {keep : Set WordMove} {late : List Transfer} {a b : List Segment}

theorem Segment.isStore_of_mem_moves {s : Segment} {w : WordMove} (h : w ∈ s.moves) :
    w.isStore = s.isStore := by
  obtain ⟨t, ht, hw⟩ := List.mem_flatMap.mp h
  rw [Transfer.isStore_of_mem_moves hw]
  cases s with
  | transfer u => rw [List.mem_singleton.mp ht]; rfl
  | loop l => exact TransferLoop.isStore_of_mem_expand ht
  | compute _ | block _ | sync _ | padding _ | scatter _ => cases ht

theorem Segment.isDma_of_isStore {s : Segment} (h : s.isStore = true) : s.isDma = true := by
  cases s <;> first | rfl | cases h

theorem Segment.moves_eraseCount (s : Segment) : s.eraseCount.moves = s.moves := by
  cases s <;> rfl

theorem streamMoves_map_eraseCount (a : List Segment) :
    streamMoves (a.map Segment.eraseCount) = streamMoves a := by
  simp [streamMoves, Segment.moves_eraseCount]

theorem meaning_map_eraseCount (a : List Segment) :
    meaning keep (a.map Segment.eraseCount) = meaning keep a := by
  induction a with
  | nil => rfl
  | cons s a ih =>
    cases s with
    | block count => rw [List.map_cons, Segment.eraseCount, meaning_block_cons, ih,
        meaning_block_cons]
    | transfer _ | loop _ | compute _ | sync _ | padding _ | scatter _ =>
      exact meaning_cons_congr _ ih

theorem meaning_filter_not_isStore (hk : ∀ w ∈ keep, w.isStore = false) (a : List Segment) :
    meaning keep (a.filter (!·.isStore)) = meaning keep a := by
  induction a with
  | nil => rfl
  | cons s a ih =>
    cases hs : s.isStore with
    | false => simpa [hs] using meaning_cons_congr s ih
    | true =>
      have hnone : keep ∩ streamMoves [] = keep ∩ streamMoves [s] := by
        ext w
        simp only [streamMoves_nil, Set.inter_empty, streamMoves_cons, Set.union_empty,
          Set.mem_inter_iff, Set.mem_empty_iff_false, Set.mem_ofPred_eq, false_iff, not_and]
        intro hw hm
        have hstore := Segment.isStore_of_mem_moves hm
        rw [hk w hw, hs] at hstore
        cases hstore
      have hmeaning : meaning keep [] = meaning keep [s] :=
        meaning_eq_of_dma (by simp) (by simpa using Segment.isDma_of_isStore hs) hnone
      rw [List.filter_cons_of_neg (by simp [hs])]
      exact meaning_append_congr hmeaning ih

theorem HeldBack.meaning_eq (h : HeldBack late a b) (hk : ∀ w ∈ keep, w.isStore = false) :
    meaning keep b = meaning keep a := by
  rw [← meaning_filter_not_isStore hk a, ← meaning_filter_not_isStore hk b,
    ← meaning_map_eraseCount, ← h.others, meaning_map_eraseCount]

theorem HeldBack.boundaries_eq (h : HeldBack late a b) : boundaries b = boundaries a := by
  have hm : meaning ∅ b = meaning ∅ a := h.meaning_eq (by simp)
  exact boundaries_eq_of_meaning hm

theorem HeldBack.streamMoves_eq (h : HeldBack late a b) :
    streamMoves a = streamMoves b ∪ streamMoves (late.map .transfer) := by
  have hsplit : ∀ c : List Segment, streamMoves c =
      streamMoves (c.filter Segment.isStore) ∪ streamMoves (c.filter (!·.isStore)) := fun c => by
    rw [← streamMoves_append, streamMoves_perm (List.filter_append_perm Segment.isStore c)]
  have hothers : streamMoves (a.filter (!·.isStore)) = streamMoves (b.filter (!·.isStore)) := by
    rw [← streamMoves_map_eraseCount, h.others, streamMoves_map_eraseCount]
  rw [hsplit a, hsplit b, streamMoves_perm h.stores, streamMoves_append, hothers,
    Set.union_right_comm]

/-! ## Stretch by stretch -/

theorem stretchList_append_cons {x : Segment} (hx : x.isBoundary = true) (p q : List Segment) :
    stretchList (p ++ x :: q) = stretchList p ++ stretchList q := by
  induction p with
  | nil => simp [stretchList, stretches_cons_of_isBoundary hx, stretches]
  | cons s p ih =>
    cases hs : s.isBoundary with
    | true =>
      simp only [stretchList, List.cons_append, stretches_cons_of_isBoundary hs] at ih ⊢
      rw [List.map_cons, ih]
      rfl
    | false =>
      simp only [stretchList, List.cons_append, stretches_cons_of_not_isBoundary hs] at ih ⊢
      obtain ⟨hfirst, hbehind⟩ := List.cons.inj ih
      rw [hfirst, hbehind]

theorem length_stretchList (a : List Segment) :
    (stretchList a).length = (boundaries a).length + 1 := by
  simp [stretchList, boundaries_eq_map_stretches]

theorem leadingMoves_append_cons {x : Segment} (hx : x.isBoundary = true) (p q : List Segment) :
    streamMoves ((stretchList (p ++ x :: q)).take ((boundaries p).length + 1)).flatten =
      streamMoves p := by
  rw [stretchList_append_cons hx, ← length_stretchList, List.take_left, flatten_stretchList_moves]

theorem exists_boundary {n : Nat} (h : n < (boundaries a).length) :
    ∃ p x q, a = p ++ x :: q ∧ x.isBoundary = true ∧ (boundaries p).length = n := by
  induction a generalizing n with
  | nil => simp [boundaries] at h
  | cons s a ih =>
    cases hs : s.isBoundary with
    | false =>
      have hlt : n < (boundaries a).length := by simpa [boundaries, hs] using h
      obtain ⟨p, x, q, rfl, hx, hn⟩ := ih hlt
      exact ⟨s :: p, x, q, rfl, hx, by simpa [boundaries, hs] using hn⟩
    | true =>
      cases n with
      | zero => exact ⟨[], s, a, rfl, hs, rfl⟩
      | succ n =>
        have hlt : n < (boundaries a).length := by simpa [boundaries, hs] using h
        obtain ⟨p, x, q, rfl, hx, hn⟩ := ih hlt
        exact ⟨s :: p, x, q, rfl, hx, by simpa [boundaries, hs] using hn⟩

theorem Segment.not_isStore_of_isBoundary {s : Segment} (h : s.isBoundary = true) :
    s.isStore = false ∧ s.isBlock = false := by
  cases s <;> first | exact ⟨rfl, rfl⟩ | cases h

section Spread

variable {segments out : List Segment}

theorem meaning_spreadStores (hk : ∀ w ∈ keep, w.isStore = false)
    (h : spreadStores segments = .ok out) : meaning keep out = meaning keep segments :=
  (heldBack_spreadStores h).meaning_eq hk

theorem streamMoves_spreadStores (h : spreadStores segments = .ok out) :
    streamMoves out = streamMoves segments := by
  simpa using (heldBack_spreadStores h).streamMoves_eq.symm

/-- The first stretches after spreading hold no move that they did not hold before. -/
theorem leadingMoves_spreadStores (h : spreadStores segments = .ok out) (n : Nat) :
    streamMoves ((stretchList out).take n).flatten ⊆
      streamMoves ((stretchList segments).take n).flatten := by
  have hbounds := (heldBack_spreadStores h).boundaries_eq
  cases n with
  | zero => simp
  | succ n =>
    by_cases hn : n < (boundaries segments).length
    · obtain ⟨p, x, q, hsplit, hx, hp⟩ := exists_boundary hn
      obtain ⟨hstore, hblock⟩ := Segment.not_isStore_of_isBoundary hx
      obtain ⟨p', q', hout, hheld⟩ := spreadStores_holds_back h hsplit hstore hblock
      have hp' : (boundaries p').length = n := by rw [hheld.boundaries_eq, hp]
      rw [hsplit, hout, ← hp, leadingMoves_append_cons hx, hp, ← hp', leadingMoves_append_cons hx,
        hheld.streamMoves_eq]
      exact Set.subset_union_left
    · have hall : (stretchList segments).length ≤ n + 1 := by rw [length_stretchList]; omega
      have hall' : (stretchList out).length ≤ n + 1 := by
        rw [length_stretchList, hbounds]; omega
      rw [List.take_of_length_le hall, List.take_of_length_le hall', flatten_stretchList_moves,
        flatten_stretchList_moves, streamMoves_spreadStores h]

end Spread

end CommandStream
