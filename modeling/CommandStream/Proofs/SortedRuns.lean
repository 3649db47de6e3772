import CommandStream.Proofs.Neighbours
import CommandStream.Proofs.RepeatedTransfers
import CommandStream.Proofs.RolledRuns

/-! # Sorted runs

Reordering the runs of a stream keeps where they begin and end, so a stream that is sorted twice is
sorted as by the second key alone. The counts of markers play no part in it.
-/

namespace CommandStream

/-! ## Sorting by keys -/

section Keys

variable {α : Type} {key key' : α → List Nat}

theorem eq_of_filter_key_eq (hkey : ∀ x y, (key x).length = (key y).length) {xs ys : List α}
    (hxs : xs.Pairwise fun a b => keyLe (key a) (key b) = true)
    (hys : ys.Pairwise fun a b => keyLe (key a) (key b) = true)
    (h : ∀ k, xs.filter (key · = k) = ys.filter (key · = k)) : xs = ys := by
  have hmem {x : α} {as bs : List α} (hsame : ∀ k, as.filter (key · = k) = bs.filter (key · = k))
      (hx : x ∈ as) : x ∈ bs := by
    have hfilter : x ∈ as.filter (key · = key x) := List.mem_filter.mpr ⟨hx, by simp⟩
    rw [hsame] at hfilter
    exact (List.mem_filter.mp hfilter).1
  induction xs generalizing ys with
  | nil =>
    cases ys with
    | nil => rfl
    | cons y ys => exact absurd (hmem (fun k => (h k).symm) (.head ys)) (by simp)
  | cons x xs ih =>
    cases ys with
    | nil => exact absurd (hmem h (.head xs)) (by simp)
    | cons y ys =>
      have hle {a b : α} {as : List α}
          (hsorted : (a :: as).Pairwise fun a b => keyLe (key a) (key b) = true)
          (hb : b ∈ a :: as) : keyLe (key a) (key b) = true := by
        rcases List.mem_cons.mp hb with rfl | hb
        · simpa using keyLe_total (key b) (key b)
        · exact List.rel_of_pairwise_cons hsorted hb
      have hkeys : key x = key y := keyLe_antisymm (hkey x y)
        (hle hxs (hmem (fun k => (h k).symm) (.head ys))) (hle hys (hmem h (.head xs)))
      have hfirst := h (key x)
      simp only [List.filter_cons, hkeys, decide_true, if_true, List.cons.injEq] at hfirst
      obtain ⟨rfl, -⟩ := hfirst
      refine congrArg (x :: ·) (ih hxs.of_cons hys.of_cons fun k => ?_)
      have hk := h k
      simp only [List.filter_cons] at hk
      split at hk
      · exact (List.cons.inj hk).2
      · exact hk

theorem sortOn_of_pairwise {xs : List α}
    (h : xs.Pairwise fun a b => keyLe (key a) (key b) = true) : sortOn key xs = xs :=
  List.mergeSort_of_pairwise h

/-- Two lists are the same after sorting exactly if their elements of each key come in one order. -/
theorem sortOn_eq_sortOn_iff (hkey : ∀ x y, (key x).length = (key y).length) {xs ys : List α} :
    sortOn key xs = sortOn key ys ↔
      ∀ x, xs.filter (key · = key x) = ys.filter (key · = key x) := by
  constructor
  · intro h x
    rw [← filter_sortOn key hkey xs, h, filter_sortOn key hkey]
  · intro h
    refine eq_of_filter_key_eq hkey (pairwise_sortOn key hkey _) (pairwise_sortOn key hkey _) ?_
    intro k
    rw [filter_sortOn key hkey, filter_sortOn key hkey]
    by_cases hk : ∃ x, key x = k
    · obtain ⟨x, rfl⟩ := hk
      exact h x
    · have hnone (zs : List α) : zs.filter (key · = k) = [] :=
        List.filter_eq_nil_iff.mpr fun z _ hz => hk ⟨z, of_decide_eq_true hz⟩
      rw [hnone, hnone]

theorem sortOn_sortOn (hkey : ∀ x y, (key x).length = (key y).length)
    (hkey' : ∀ x y, (key' x).length = (key' y).length)
    (hsame : ∀ x y, key' x = key' y ↔ key x = key y) (xs : List α) :
    sortOn key' (sortOn key xs) = sortOn key' xs := by
  rw [sortOn_eq_sortOn_iff hkey']
  intro x
  simp only [hsame _ x]
  exact filter_sortOn key hkey xs (key x)

end Keys

/-! ## Runs after reordering -/

section Runs

namespace Alternates

variable {first : Transfer} {rest : List Transfer} {ps : List Piece}

theorem isStore_of_mem_run (h : Alternates (.run first rest :: ps)) :
    ∀ t ∈ first :: rest, t.isStore = first.isStore :=
  List.forall_mem_cons.mpr ⟨rfl, h.uniform first rest List.mem_cons_self⟩

theorem isChain_run (h : Alternates (.run first rest :: ps)) :
    (first :: rest).IsChain (Transfer.sameClass · · = true) := by
  refine (List.pairwise_of_forall_mem_list fun a ha b hb => ?_).isChain
  exact beq_iff_eq.mpr ((h.isStore_of_mem_run a ha).trans (h.isStore_of_mem_run b hb).symm)

theorem runsApart (h : Alternates (.run first rest :: ps)) :
    RunsApart Transfer.sameClass ((first :: rest).map .transfer) (ps.flatMap Piece.segments) := by
  intro t u ht hu
  have hmem : t ∈ first :: rest := by simpa using List.mem_of_getLast? ht
  cases ps with
  | nil => cases hu
  | cons p ps =>
    cases p with
    | barrier s =>
      obtain rfl : s = .transfer u := by simpa [Piece.segments] using hu
      cases h.barrier (.transfer u) (by simp)
    | run b bs =>
      obtain rfl : b = u := by simpa [Piece.segments] using hu
      have hne := (List.isChain_cons_cons.mp h.apart).1 first rest b bs rfl rfl
      rw [Transfer.sameClass, h.isStore_of_mem_run t hmem]
      exact beq_false_of_ne hne

/-- Pieces that alternate are the pieces of the stream they spell. -/
theorem pieces_flatMap (h : Alternates ps) :
    pieces Transfer.sameClass (ps.flatMap Piece.segments) = ps := by
  induction ps with
  | nil => rfl
  | cons p ps ih =>
    rw [List.flatMap_cons]
    cases p with
    | barrier s =>
      have hs := h.barrier s List.mem_cons_self
      cases s with
      | transfer t => cases hs
      | loop _ | compute _ | block _ | sync _ | padding _ | scatter _ =>
        exact congrArg (_ :: ·) (ih h.tail)
    | run first rest =>
      rw [Piece.segments, pieces_append h.runsApart, pieces_map_transfer h.isChain_run, ih h.tail]
      rfl

end Alternates

def Piece.permute (f : List Transfer → List Transfer) : Piece → Piece
  | .run first rest =>
    match f (first :: rest) with
    | [] => .run first rest
    | low :: high => .run low high
  | .barrier s => .barrier s

variable {f g : List Transfer → List Transfer} (hf : ∀ run, (f run).Perm run)

include hf

theorem Piece.exists_permute_run (first : Transfer) (rest : List Transfer) :
    ∃ low high, f (first :: rest) = low :: high ∧
      (Piece.run first rest).permute f = .run low high := by
  cases hrun : f (first :: rest) with
  | nil =>
    have hlength := (hf (first :: rest)).length_eq
    rw [hrun] at hlength
    cases hlength
  | cons low high =>
    refine ⟨low, high, rfl, ?_⟩
    rw [permute, hrun]

theorem Piece.segments_permute (p : Piece) :
    (p.permute f).segments = p.mapRun fun run => (f run).map .transfer := by
  cases p with
  | barrier s => rfl
  | run first rest =>
    obtain ⟨low, high, hrun, hp⟩ := exists_permute_run hf first rest
    rw [hp, mapRun, hrun, segments]

theorem permuteRuns_eq_flatMap (segments : List Segment) :
    permuteRuns Transfer.sameClass f segments =
      ((pieces Transfer.sameClass segments).map (Piece.permute f)).flatMap Piece.segments := by
  rw [permuteRuns, mapRuns_eq_flatMap, List.flatMap_map]
  exact List.flatMap_congr fun p _ => (Piece.segments_permute hf p).symm

theorem Alternates.permute {ps : List Piece} (h : Alternates ps) :
    Alternates (ps.map (Piece.permute f)) := by
  induction ps with
  | nil => exact ⟨by simp, by simp, .nil⟩
  | cons p ps ih =>
    rw [List.map_cons]
    cases p with
    | barrier s =>
      refine (ih h.tail).cons ?_ (by simp [Piece.permute]) (by simp [Piece.permute])
      rintro _ ⟨⟩
      exact h.barrier s List.mem_cons_self
    | run first rest =>
      obtain ⟨low, high, hrun, hp⟩ := Piece.exists_permute_run hf first rest
      have hclass (t : Transfer) (ht : t ∈ low :: high) : t.isStore = first.isStore := by
        rw [← hrun, (hf _).mem_iff] at ht
        exact h.isStore_eq ht
      rw [hp]
      refine (ih h.tail).cons (by simp) ?_ ?_
      · rintro _ _ ⟨⟩ t ht
        rw [hclass t (.tail _ ht), hclass low (.head _)]
      · rintro _ _ b bs ⟨⟩ hb
        cases ps with
        | nil => cases hb
        | cons q ps =>
          cases q with
          | barrier s => simp [Piece.permute] at hb
          | run other more =>
            obtain ⟨low', high', hrun', hp'⟩ := Piece.exists_permute_run hf other more
            have hmem : low' ∈ other :: more := by
              rw [← (hf _).mem_iff, hrun']
              exact List.mem_cons_self
            rw [List.map_cons, hp', List.head?_cons] at hb
            obtain ⟨rfl, -⟩ := Piece.run.inj (Option.some.inj hb)
            rw [hclass low (.head _), h.tail.isStore_eq hmem]
            exact (List.isChain_cons_cons.mp h.apart).1 first rest other more rfl rfl

theorem pieces_permuteRuns (segments : List Segment) :
    pieces Transfer.sameClass (permuteRuns Transfer.sameClass f segments) =
      (pieces Transfer.sameClass segments).map (Piece.permute f) := by
  rw [permuteRuns_eq_flatMap hf]
  exact ((alternates_pieces segments).permute hf).pieces_flatMap

theorem permuteRuns_permuteRuns (hg : ∀ run, (g run).Perm run) (segments : List Segment) :
    permuteRuns Transfer.sameClass g (permuteRuns Transfer.sameClass f segments) =
      permuteRuns Transfer.sameClass (g ∘ f) segments := by
  have hgf (run : List Transfer) : ((g ∘ f) run).Perm run := (hg (f run)).trans (hf run)
  rw [permuteRuns_eq_flatMap hg, pieces_permuteRuns hf, permuteRuns_eq_flatMap hgf, List.map_map]
  refine congrArg (List.flatMap Piece.segments) (List.map_congr_left fun p _ => ?_)
  cases p with
  | barrier s => rfl
  | run first rest =>
    obtain ⟨low, high, hrun, hp⟩ := Piece.exists_permute_run hf first rest
    rw [Function.comp_apply, hp, Piece.permute, Piece.permute, Function.comp_apply, hrun]
    cases hlow : g (low :: high) with
    | nil =>
      have hlength := (hg (low :: high)).length_eq
      rw [hlow] at hlength
      cases hlength
    | cons a as => rfl

omit hf in
theorem permuteRuns_eq_self {segments : List Segment}
    (h : ∀ first rest, .run first rest ∈ pieces Transfer.sameClass segments →
      f (first :: rest) = first :: rest) :
    permuteRuns Transfer.sameClass f segments = segments := by
  conv_rhs => rw [← flatMap_pieces Transfer.sameClass segments]
  rw [permuteRuns, mapRuns_eq_flatMap]
  refine List.flatMap_congr fun p hp => ?_
  cases p with
  | barrier s => rfl
  | run first rest => rw [Piece.mapRun, h first rest hp, Piece.segments]

end Runs

/-! ## Neighbours in runs -/

section RunNeighbours

variable {R : Transfer → Transfer → Prop}

/-- Inside a run all transfers are of one class, and the runs on both sides of it are of the
other. -/
theorem Alternates.neighbours {ps : List Piece} (hps : Alternates ps)
    (h : ∀ first rest, .run first rest ∈ ps → (first :: rest).IsChain R) :
    Neighbours (fun a b => a.isStore = b.isStore → R a b) (ps.flatMap Piece.segments) := by
  induction ps with
  | nil => exact .nil
  | cons p ps ih =>
    have hrest := ih hps.tail fun first rest hrun => h first rest (.tail _ hrun)
    rw [List.flatMap_cons]
    cases p with
    | barrier s => exact (neighbours_barrier (hps.barrier s List.mem_cons_self)).mpr hrest
    | run first rest =>
      refine List.isChain_append.mpr ⟨?_, hrest, ?_⟩
      · rw [Piece.segments, List.isChain_map]
        refine (h first rest List.mem_cons_self).imp ?_
        rintro a b hab _ _ ⟨⟩ ⟨⟩ -
        exact hab
      · rintro s hs u hu a b rfl rfl hclass
        have ha : a ∈ first :: rest := by
          simpa [Piece.segments] using List.mem_of_getLast? hs
        cases ps with
        | nil => cases hu
        | cons q ps =>
          cases q with
          | barrier s =>
            obtain rfl : s = .transfer b := by simpa [Piece.segments] using hu
            cases hps.tail.barrier _ List.mem_cons_self
          | run other more =>
            obtain rfl : other = b := by simpa [Piece.segments] using hu
            rw [hps.isStore_eq ha] at hclass
            exact absurd hclass
              ((List.isChain_cons_cons.mp hps.apart).1 first rest other more rfl rfl)

theorem Neighbours.isChain_run {joins : Transfer → Transfer → Bool} {segments : List Segment}
    (h : Neighbours R segments) {first : Transfer} {rest : List Transfer}
    (hrun : .run first rest ∈ pieces joins segments) : (first :: rest).IsChain R := by
  have hinfix : (Piece.run first rest).segments <:+: segments := by
    conv_rhs => rw [← flatMap_pieces joins segments]
    exact List.infix_of_mem_flatten (List.mem_map_of_mem hrun)
  have hchain := h.infix hinfix
  rw [Piece.segments, List.isChain_map] at hchain
  exact hchain.imp fun a b hab => hab a b rfl rfl

end RunNeighbours

/-! ## Counts of markers -/

section Counts

def Piece.eraseCount : Piece → Piece
  | .run first rest => .run first rest
  | .barrier s => .barrier s.eraseCount

theorem pieces_map_eraseCount (joins : Transfer → Transfer → Bool) (segments : List Segment) :
    pieces joins (segments.map Segment.eraseCount) =
      (pieces joins segments).map Piece.eraseCount := by
  fun_induction pieces joins segments with
  | case1 => rfl
  | case2 t rest first others more hp hclass ih =>
    simp [pieces, Segment.eraseCount, ih, hp, hclass, Piece.eraseCount]
  | case3 t rest first others more hp hclass ih =>
    simp [pieces, Segment.eraseCount, ih, hp, hclass, Piece.eraseCount]
  | case4 t rest hno ih =>
    simp only [List.map_cons, Segment.eraseCount, pieces, ih]
    cases hrest : pieces joins rest with
    | nil => rfl
    | cons p ps =>
      cases p with
      | barrier s => rfl
      | run a as => exact (hno a as ps hrest).elim
  | case5 s rest hs ih =>
    cases s with
    | transfer t => exact absurd rfl (hs t)
    | loop _ | compute _ | block _ | sync _ | padding _ | scatter _ =>
      exact congrArg (_ :: ·) ih

theorem permuteRuns_map_eraseCount {joins : Transfer → Transfer → Bool}
    (f : List Transfer → List Transfer) (segments : List Segment) :
    permuteRuns joins f (segments.map Segment.eraseCount) =
      (permuteRuns joins f segments).map Segment.eraseCount := by
  rw [permuteRuns, permuteRuns, mapRuns_eq_flatMap, mapRuns_eq_flatMap, pieces_map_eraseCount,
    List.flatMap_map, List.map_flatMap]
  refine List.flatMap_congr fun p _ => ?_
  cases p with
  | barrier s => rfl
  | run first rest =>
    rw [Piece.eraseCount, Piece.mapRun, List.map_map]
    rfl

theorem refreshBlocks_map_eraseCount (segments : List Segment) :
    refreshBlocks (segments.map Segment.eraseCount) = refreshBlocks segments := by
  induction segments with
  | nil => rfl
  | cons s rest ih =>
    cases s with
    | block count =>
      rw [List.map_cons, Segment.eraseCount, refreshBlocks, refreshBlocks, dmaRun_map_eraseCount,
        ih]
    | transfer _ | loop _ | compute _ | sync _ | padding _ | scatter _ =>
      exact congrArg (_ :: ·) ih

/-- Markers that are refreshed once more after a reordering need not be refreshed before it. -/
theorem refreshBlocks_permuteRuns_refreshBlocks {joins : Transfer → Transfer → Bool}
    (f : List Transfer → List Transfer) (segments : List Segment) :
    refreshBlocks (permuteRuns joins f (refreshBlocks segments)) =
      refreshBlocks (permuteRuns joins f segments) := by
  rw [← refreshBlocks_map_eraseCount, ← permuteRuns_map_eraseCount, map_eraseCount_refreshBlocks,
    permuteRuns_map_eraseCount, refreshBlocks_map_eraseCount]

theorem neighbours_map_eraseCount {R : Transfer → Transfer → Prop} {segments : List Segment} :
    Neighbours R (segments.map Segment.eraseCount) ↔ Neighbours R segments := by
  have htransfer (s : Segment) (t : Transfer) : s.eraseCount = .transfer t ↔ s = .transfer t := by
    cases s <;> simp [Segment.eraseCount]
  rw [Neighbours, List.isChain_map]
  simp only [Segment.Meet, htransfer]
  rfl

theorem neighbours_permuteRuns_refreshBlocks {R : Transfer → Transfer → Prop}
    {joins : Transfer → Transfer → Bool} (f : List Transfer → List Transfer)
    (segments : List Segment) :
    Neighbours R (permuteRuns joins f (refreshBlocks segments)) ↔
      Neighbours R (permuteRuns joins f segments) := by
  rw [← neighbours_map_eraseCount, ← permuteRuns_map_eraseCount, map_eraseCount_refreshBlocks,
    permuteRuns_map_eraseCount, neighbours_map_eraseCount]

end Counts

end CommandStream
