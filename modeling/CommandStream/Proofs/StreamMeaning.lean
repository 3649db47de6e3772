import CommandStream.Proofs.WordMoves

/-! # What a stream means

Boundaries cut a stream into stretches. Within a stretch only the set of word moves and the order of
the compute commands count, so that is its meaning; the meaning of a stream lists its boundaries
with the meanings of its stretches. Equal meanings may be put into any context.
-/

namespace CommandStream

def Segment.moves (s : Segment) : List WordMove := s.transfers.flatMap Transfer.moves

def Segment.compute? : Segment → Option Compute
  | .compute c => some c
  | _ => none

def streamMoves (segments : List Segment) : Set WordMove := {w | ∃ s ∈ segments, w ∈ s.moves}

/-- The stretches of a stream, from the one before the first boundary on. -/
def stretchList (segments : List Segment) : List (List Segment) :=
  (stretches segments).1 :: (stretches segments).2.map Prod.snd

def boundaries (segments : List Segment) : List Segment :=
  segments.filter Segment.isBoundary

@[simp] theorem streamMoves_nil : streamMoves [] = ∅ := by simp [streamMoves]

@[simp] theorem streamMoves_cons (s : Segment) (rest : List Segment) :
    streamMoves (s :: rest) = {w | w ∈ s.moves} ∪ streamMoves rest := by
  ext w; simp [streamMoves]

@[simp] theorem streamMoves_append (a b : List Segment) :
    streamMoves (a ++ b) = streamMoves a ∪ streamMoves b := by
  ext w; simp [streamMoves, or_and_right, exists_or]

theorem streamMoves_perm {a b : List Segment} (h : a.Perm b) : streamMoves a = streamMoves b := by
  ext w; simp [streamMoves, h.mem_iff]

theorem Segment.moves_eq_nil {s : Segment} (h : s.isDma = false) : s.moves = [] := by
  cases s <;> simp_all [isDma, moves, transfers]

@[simp] theorem Segment.moves_transfer (t : Transfer) : (Segment.transfer t).moves = t.moves := by
  simp [moves, transfers]

theorem Segment.transfer?_eq_some_iff {s : Segment} {t : Transfer} :
    s.transfer? = some t ↔ s = .transfer t := by
  cases s <;> simp [transfer?]

structure Work where
  moves : Set WordMove
  computes : List Compute

namespace Work

def append (a b : Work) : Work := ⟨a.moves ∪ b.moves, a.computes ++ b.computes⟩

/-- The work of a stretch, moves outside `keep` left out. -/
def ofStretch (keep : Set WordMove) (stretch : List Segment) : Work where
  moves := keep ∩ streamMoves stretch
  computes := stretch.filterMap Segment.compute?

theorem ofStretch_append (keep : Set WordMove) (a b : List Segment) :
    ofStretch keep (a ++ b) = (ofStretch keep a).append (ofStretch keep b) := by
  simp [ofStretch, append, Set.inter_union_distrib_left]

end Work

/-- The work in front of the first boundary, and each boundary with the work behind it. -/
structure Meaning where
  first : Work
  behind : List (Segment × Work)

namespace Meaning

/-- Put a meaning behind some work and the boundaries that follow it: the last stretch goes on. -/
def behindWork (n : Meaning) : Work → List (Segment × Work) → Meaning
  | last, [] => ⟨last.append n.first, n.behind⟩
  | work, (boundary, next) :: more =>
    let rest := n.behindWork next more
    ⟨work, (boundary, rest.first) :: rest.behind⟩

def append (m n : Meaning) : Meaning := n.behindWork m.first m.behind

theorem behindWork_append (n : Meaning) (x y : Work) (more : List (Segment × Work)) :
    n.behindWork (x.append y) more =
      ⟨x.append (n.behindWork y more).first, (n.behindWork y more).behind⟩ := by
  cases more <;> simp [behindWork, Work.append, Set.union_assoc]

end Meaning

/-- The meaning of a stream, moves outside `keep` left out. -/
def meaning (keep : Set WordMove) (segments : List Segment) : Meaning where
  first := .ofStretch keep (stretches segments).1
  behind := (stretches segments).2.map fun (boundary, stretch) =>
    (boundary, .ofStretch keep stretch)

variable {keep : Set WordMove}

theorem stretches_cons_of_isBoundary {s : Segment} (h : s.isBoundary = true)
    (rest : List Segment) :
    stretches (s :: rest) = ([], (s, (stretches rest).1) :: (stretches rest).2) := by
  simp [stretches, h]

theorem stretches_cons_of_not_isBoundary {s : Segment} (h : s.isBoundary = false)
    (rest : List Segment) :
    stretches (s :: rest) = (s :: (stretches rest).1, (stretches rest).2) := by
  simp [stretches, h]

theorem stretches_eq_of_no_boundary {a : List Segment} (h : ∀ s ∈ a, s.isBoundary = false) :
    stretches a = (a, []) := by
  induction a with
  | nil => rfl
  | cons s a ih =>
    rw [List.forall_mem_cons] at h
    rw [stretches_cons_of_not_isBoundary h.1, ih h.2]

theorem meaning_append (a b : List Segment) :
    meaning keep (a ++ b) = (meaning keep a).append (meaning keep b) := by
  induction a with
  | nil =>
    simp [meaning, Meaning.append, Meaning.behindWork, stretches, Work.ofStretch, Work.append]
  | cons s a ih =>
    simp only [meaning, Meaning.append] at ih ⊢
    cases hs : s.isBoundary with
    | true =>
      simp only [List.cons_append, stretches_cons_of_isBoundary hs, List.map_cons,
        Meaning.behindWork]
      rw [← ih]
    | false =>
      simp only [List.cons_append, stretches_cons_of_not_isBoundary hs]
      have hone := Work.ofStretch_append keep [s]
      simp only [List.singleton_append] at hone
      rw [hone (stretches (a ++ b)).1, hone (stretches a).1, Meaning.behindWork_append, ← ih]

theorem meaning_append_congr {a a' b b' : List Segment} (ha : meaning keep a = meaning keep a')
    (hb : meaning keep b = meaning keep b') :
    meaning keep (a ++ b) = meaning keep (a' ++ b') := by
  rw [meaning_append, meaning_append, ha, hb]

theorem meaning_cons_congr (s : Segment) {a b : List Segment}
    (h : meaning keep a = meaning keep b) : meaning keep (s :: a) = meaning keep (s :: b) :=
  meaning_append_congr (a := [s]) rfl h

theorem meaning_flatMap_congr {α : Type} {f g : α → List Segment} (xs : List α)
    (h : ∀ x ∈ xs, meaning keep (f x) = meaning keep (g x)) :
    meaning keep (xs.flatMap f) = meaning keep (xs.flatMap g) := by
  induction xs with
  | nil => rfl
  | cons x xs ih =>
    rw [List.forall_mem_cons] at h
    exact meaning_append_congr h.1 (ih h.2)

/-! ## Streams of equal meaning -/

theorem Segment.isBoundary_of_isDma {s : Segment} (h : s.isDma = true) : s.isBoundary = false := by
  cases s <;> simp_all [isDma, isBoundary]

theorem Segment.compute?_of_isDma {s : Segment} (h : s.isDma = true) : s.compute? = none := by
  cases s <;> simp_all [isDma, compute?]

theorem meaning_of_dma {a : List Segment} (h : ∀ s ∈ a, s.isDma = true) :
    meaning keep a = ⟨⟨keep ∩ streamMoves a, []⟩, []⟩ := by
  have hc : a.filterMap Segment.compute? = [] :=
    List.filterMap_eq_nil_iff.mpr fun s hs => Segment.compute?_of_isDma (h s hs)
  simp [meaning, stretches_eq_of_no_boundary fun s hs => Segment.isBoundary_of_isDma (h s hs),
    Work.ofStretch, hc]

theorem meaning_eq_of_dma {a b : List Segment} (ha : ∀ s ∈ a, s.isDma = true)
    (hb : ∀ s ∈ b, s.isDma = true) (h : keep ∩ streamMoves a = keep ∩ streamMoves b) :
    meaning keep a = meaning keep b := by
  rw [meaning_of_dma ha, meaning_of_dma hb, h]

/-- The order of transfers within a stretch does not matter. -/
theorem meaning_map_transfer_perm {a b : List Transfer} (h : a.Perm b) :
    meaning keep (a.map .transfer) = meaning keep (b.map .transfer) := by
  refine meaning_eq_of_dma ?_ ?_ (by rw [streamMoves_perm (h.map _)])
  all_goals simp [Segment.isDma]

theorem meaning_block_cons (count : UInt32) (rest : List Segment) :
    meaning keep (.block count :: rest) = meaning keep rest := by
  have hs : (Segment.block count).isBoundary = false := rfl
  simp [meaning, stretches_cons_of_not_isBoundary hs, Work.ofStretch, Segment.moves,
    Segment.transfers, Segment.compute?, List.filterMap_cons]

theorem meaning_refreshBlocks (segments : List Segment) :
    meaning keep (refreshBlocks segments) = meaning keep segments := by
  fun_induction refreshBlocks with
  | case1 => rfl
  | case2 count rest ih => rw [meaning_block_cons, meaning_block_cons, ih]
  | case3 s rest _ ih => exact meaning_cons_congr s ih

theorem mem_refreshBlocks {s : Segment} (h : s.isBlock = false) {segments : List Segment} :
    s ∈ refreshBlocks segments ↔ s ∈ segments := by
  have hne : ∀ count, s ≠ .block count := by rintro count rfl; cases h
  fun_induction refreshBlocks with
  | case1 => rfl
  | case2 count rest ih => simp [hne, ih]
  | case3 x rest _ ih => simp [ih]

/-! ## What the meaning determines -/

section Determined

variable {a b : List Segment}

theorem boundaries_eq_map_stretches (segments : List Segment) :
    boundaries segments = (stretches segments).2.map Prod.fst := by
  induction segments with
  | nil => rfl
  | cons s rest ih =>
    cases hs : s.isBoundary with
    | true => simpa [boundaries, stretches_cons_of_isBoundary hs, hs] using ih
    | false => simpa [boundaries, stretches_cons_of_not_isBoundary hs, hs] using ih

theorem boundaries_eq_of_meaning (h : meaning keep a = meaning keep b) :
    boundaries a = boundaries b := by
  have hb := congrArg (fun m : Meaning => m.behind.map Prod.fst) h
  simpa [meaning, boundaries_eq_map_stretches, Function.comp_def] using hb

def control (segments : List Segment) : List Segment :=
  segments.filter fun s => s.isCompute || s.isBoundary

def Meaning.control (m : Meaning) : List Segment :=
  m.first.computes.map .compute ++
    m.behind.flatMap fun (boundary, work) => boundary :: work.computes.map .compute

theorem control_meaning (keep : Set WordMove) (segments : List Segment) :
    (meaning keep segments).control = control segments := by
  induction segments with
  | nil => rfl
  | cons s rest ih =>
    simp only [Meaning.control, meaning, control, Work.ofStretch] at ih ⊢
    cases hs : s.isBoundary with
    | true => simpa [stretches_cons_of_isBoundary hs, hs] using ih
    | false =>
      simp only [stretches_cons_of_not_isBoundary hs]
      cases s with
      | compute c => rw [List.filter_cons_of_pos rfl, ← ih]; rfl
      | sync _ | padding _ | scatter _ => cases hs
      | transfer _ | loop _ | block _ =>
        rw [List.filter_cons_of_neg Bool.false_ne_true, ← ih]; rfl

theorem control_eq_of_meaning (h : meaning keep a = meaning keep b) : control a = control b := by
  rw [← control_meaning keep, h, control_meaning]

theorem works_eq_of_meaning (h : meaning keep a = meaning keep b) :
    (stretchList a).map (Work.ofStretch keep) = (stretchList b).map (Work.ofStretch keep) := by
  have hw := congrArg (fun m : Meaning => m.first :: m.behind.map Prod.snd) h
  simpa [meaning, stretchList, Function.comp_def] using hw

theorem stretchMoves_eq_of_meaning (h : meaning keep a = meaning keep b) :
    (stretchList a).map (keep ∩ streamMoves ·) = (stretchList b).map (keep ∩ streamMoves ·) := by
  have hm := congrArg (List.map Work.moves) (works_eq_of_meaning h)
  simpa [Work.ofStretch, Function.comp_def] using hm

theorem computes_eq_of_meaning (h : meaning keep a = meaning keep b) :
    (stretchList a).map (·.filterMap Segment.compute?) =
      (stretchList b).map (·.filterMap Segment.compute?) := by
  have hc := congrArg (List.map Work.computes) (works_eq_of_meaning h)
  simpa [Work.ofStretch, Function.comp_def] using hc

theorem flatten_stretchList_moves (segments : List Segment) :
    streamMoves (stretchList segments).flatten = streamMoves segments := by
  induction segments with
  | nil => simp [stretchList, stretches]
  | cons s rest ih =>
    cases hs : s.isBoundary with
    | true =>
      have hd : s.isDma = false := by cases s <;> simp_all [Segment.isDma, Segment.isBoundary]
      simp only [stretchList, stretches_cons_of_isBoundary hs, List.map_cons, List.flatten_cons,
        List.nil_append, streamMoves_cons, Segment.moves_eq_nil hd] at ih ⊢
      simpa using ih
    | false =>
      simp only [stretchList, stretches_cons_of_not_isBoundary hs, List.flatten_cons,
        List.cons_append, streamMoves_cons] at ih ⊢
      rw [ih]

theorem leadingMoves_eq_of_meaning (h : meaning keep a = meaning keep b) (n : Nat) :
    keep ∩ streamMoves ((stretchList a).take n).flatten =
      keep ∩ streamMoves ((stretchList b).take n).flatten := by
  have hunion : ∀ xs : List (List Segment), keep ∩ streamMoves xs.flatten =
      (xs.map (keep ∩ streamMoves ·)).foldr (· ∪ ·) ∅ := by
    intro xs
    induction xs with
    | nil => simp
    | cons x xs ih => simp [Set.inter_union_distrib_left, ih]
  rw [hunion, hunion, List.map_take, List.map_take, stretchMoves_eq_of_meaning h]

theorem streamMoves_eq_of_meaning (h : meaning keep a = meaning keep b) :
    keep ∩ streamMoves a = keep ∩ streamMoves b := by
  have hl : (stretchList a).length = (stretchList b).length := by
    simpa using congrArg List.length (works_eq_of_meaning h)
  have hm := leadingMoves_eq_of_meaning h (stretchList a).length
  rwa [List.take_length, hl, List.take_length, flatten_stretchList_moves,
    flatten_stretchList_moves] at hm

end Determined

end CommandStream
