import CommandStream.Proofs.MergeMeaning

/-! # Repeated transfers

Merging drops a transfer if the latest one in front of it in its run, among those with its target
and addresses, is the same command, whatever the skipped tails of the two are. The words merging
moves are those of the transfers that stay. So no word is lost exactly if the transfers that stay
make up for those that are dropped.
-/

namespace CommandStream

def WordMove.place (w : WordMove) : Bool × Nat × Nat × Int × Int :=
  (w.isStore, w.cluster, w.unit, w.hostAddr, w.localAddr)

/-- Whether a transfer is the same command as the first of the given ones with its target and
addresses. -/
def Transfer.repeats (t : Transfer) (seen : List Transfer) : Bool :=
  (seen.find? (·.hostKey = t.hostKey)).any (·.sameCommand t)

/-- The transfers of a run that repeat another one, or those that do not. The transfers in front of
the run are given with the latest first. -/
def siftRun (repeated : Bool) : List Transfer → List Transfer → List Transfer
  | _, [] => []
  | seen, t :: rest =>
    if t.repeats seen = repeated then t :: siftRun repeated (t :: seen) rest
    else siftRun repeated (t :: seen) rest

def sift (repeated : Bool) (segments : List Segment) : List Segment :=
  mapRuns Transfer.sameClass (fun run => (siftRun repeated [] run).map .transfer) segments

theorem Transfer.sameCommand_iff {a b : Transfer} :
    a.sameCommand b = true ↔
      ({ a with skipped := 0 } : Transfer) = { b with skipped := 0 } := beq_iff_eq

theorem Transfer.hostKey_eq_of_sameCommand {a b : Transfer} (h : a.sameCommand b = true) :
    a.hostKey = b.hostKey := by
  have hcommand := congrArg hostKey (sameCommand_iff.mp h)
  exact hcommand

theorem Transfer.isStore_eq_of_sameCommand {a b : Transfer} (h : a.sameCommand b = true) :
    a.isStore = b.isStore := by
  have hcommand := congrArg isStore (sameCommand_iff.mp h)
  exact hcommand

/-! ## One run -/

/-- The transfers with one key are sifted on their own. -/
theorem filter_siftRun (repeated : Bool) (k : List Nat) (seen run : List Transfer) :
    (siftRun repeated seen run).filter (·.hostKey = k) =
      siftRun repeated (seen.filter (·.hostKey = k)) (run.filter (·.hostKey = k)) := by
  induction run generalizing seen with
  | nil => rfl
  | cons t rest ih =>
    by_cases hk : t.hostKey = k
    · have hfind : t.repeats (seen.filter (·.hostKey = k)) = t.repeats seen := by
        rw [Transfer.repeats, Transfer.repeats, List.find?_filter]
        simp [hk]
      rw [List.filter_cons_of_pos (by simpa using hk), siftRun, siftRun, hfind]
      split <;> simp [hk, ih]
    · rw [List.filter_cons_of_neg (by simpa using hk), siftRun]
      split <;> simp [hk, ih]

theorem siftRun_perm_sortOn (repeated : Bool) (run : List Transfer) :
    (siftRun repeated [] (sortOn Transfer.hostKey run)).Perm (siftRun repeated [] run) := by
  rw [List.perm_iff_count]
  intro t
  have hcount : ∀ xs : List Transfer, xs.count t = (xs.filter (·.hostKey = t.hostKey)).count t :=
    fun xs => (List.count_filter (by simp)).symm
  rw [hcount, hcount (siftRun repeated [] run), filter_siftRun, filter_siftRun,
    filter_sortOn Transfer.hostKey fun _ _ => rfl]

theorem repeats_eq_of_sorted {last t : Transfer} {seen : List Transfer}
    (hsorted : ((last :: seen).reverse ++ [t]).Pairwise fun a b =>
      keyLe a.hostKey b.hostKey = true) :
    t.repeats (last :: seen) = last.sameCommand t := by
  by_cases hkey : last.hostKey = t.hostKey
  · rw [Transfer.repeats, List.find?_cons_of_pos (by simpa using hkey), Option.any_some]
  · have hnone : (last :: seen).find? (·.hostKey = t.hostKey) = none := by
      rw [List.find?_eq_none]
      intro u hu hut
      simp only [decide_eq_true_eq] at hut
      rw [List.reverse_cons, List.append_assoc, List.pairwise_append] at hsorted
      obtain ⟨-, hback, hacross⟩ := hsorted
      have hlast : keyLe last.hostKey t.hostKey = true := by simpa using hback
      rcases List.mem_cons.mp hu with rfl | hu
      · exact hkey hut
      · have hfront := hacross u (List.mem_reverse.mpr hu) last (by simp)
        exact hkey (keyLe_antisymm rfl hlast (hut ▸ hfront))
    have hother : last.sameCommand t = false := by
      by_contra hsame
      exact hkey (Transfer.hostKey_eq_of_sameCommand (by simpa using hsame))
    rw [Transfer.repeats, hnone, hother, Option.any_none]

/-- In a sorted run the transfers with one key are neighbours, so a sweep over neighbours drops
exactly the repeated ones. It holds back `first`, the first copy of the last transfer it saw. -/
theorem destutter'_eq_siftRun {first last : Transfer} {seen run : List Transfer}
    (hfirst : first.sameCommand last = true)
    (hsorted : ((last :: seen).reverse ++ run).Pairwise fun a b =>
      keyLe a.hostKey b.hostKey = true) :
    run.destutter' (fun a b => ¬a.sameCommand b = true) first =
      first :: siftRun false (last :: seen) run := by
  induction run generalizing first last seen with
  | nil => rfl
  | cons t rest ih =>
    have hrest : ((t :: last :: seen).reverse ++ rest).Pairwise fun a b =>
        keyLe a.hostKey b.hostKey = true := by simpa using hsorted
    have hrepeats : t.repeats (last :: seen) = first.sameCommand t := by
      rw [repeats_eq_of_sorted (hsorted.sublist (by simp)), Bool.eq_iff_iff,
        Transfer.sameCommand_iff, Transfer.sameCommand_iff, Transfer.sameCommand_iff.mp hfirst]
    rw [siftRun, hrepeats]
    by_cases hsame : first.sameCommand t = true
    · rw [List.destutter'_cons_neg _ (by simpa using hsame), ih hsame hrest]
      simp [hsame]
    · rw [List.destutter'_cons_pos _ (by simpa using hsame), ih _ hrest]
      · simp [hsame]
      · exact Transfer.sameCommand_iff.mpr rfl

theorem destutter_sortOn (run : List Transfer) :
    (sortOn Transfer.hostKey run).destutter (fun a b => ¬a.sameCommand b = true) =
      siftRun false [] (sortOn Transfer.hostKey run) := by
  have hsorted := pairwise_sortOn Transfer.hostKey (fun _ _ => rfl) run
  cases h : sortOn Transfer.hostKey run with
  | nil => rfl
  | cons first rest =>
    have hrest : ([first].reverse ++ rest).Pairwise fun a b =>
        keyLe a.hostKey b.hostKey = true := by simpa [h] using hsorted
    have hself : first.sameCommand first = true := Transfer.sameCommand_iff.mpr rfl
    rw [List.destutter_cons', siftRun, destutter'_eq_siftRun hself hrest]
    simp [Transfer.repeats]

/-! ## Whole streams -/

def DropsRepeat (a b : Transfer) (r : Option Transfer) : Prop :=
  (if a.sameCommand b then some a else none) = r

theorem Absorbs.destutter {last : Transfer} {run : List Transfer} {rest kept : List Segment}
    (h : Absorbs DropsRepeat (some last) (run.map .transfer ++ rest) kept)
    (hrest : ∀ t u, rest.head? = some (.transfer t) → u ∈ last :: run → u.sameCommand t = false) :
    ∃ kept', Absorbs DropsRepeat none rest kept' ∧
      kept = (run.destutter' (fun a b => ¬a.sameCommand b = true) last).map .transfer ++ kept' := by
  induction run generalizing last kept with
  | nil =>
    cases h with
    | nil => exact ⟨[], .nil, rfl⟩
    | barrier hs h => exact ⟨_, .barrier hs h, rfl⟩
    | apart hj h => exact ⟨_, .first h, rfl⟩
    | join hj h => simp [DropsRepeat, hrest _ _ rfl (List.mem_singleton.mpr rfl)] at hj
  | cons t run ih =>
    cases h with
    | barrier hs => simp [Segment.transfer?] at hs
    | apart hj h =>
      have hother : ¬last.sameCommand t = true := by
        intro hsame
        simp [DropsRepeat, hsame] at hj
      obtain ⟨kept', hkept', rfl⟩ := ih h fun u v hu hv => hrest u v hu (.tail _ hv)
      rw [List.destutter'_cons_pos _ hother]
      exact ⟨kept', hkept', rfl⟩
    | @join _ _ joined _ _ hj h =>
      have hsame : last.sameCommand t = true := by
        by_contra hother
        simp [DropsRepeat, hother] at hj
      obtain rfl : last = joined := by simpa [DropsRepeat, hsame] using hj
      rw [List.destutter'_cons_neg _ (by simpa using hsame)]
      refine ih h fun u v hu hv => hrest u v hu ?_
      rcases List.mem_cons.mp hv with rfl | hv
      · exact List.mem_cons_self
      · exact .tail _ (.tail _ hv)

/-- Runs of loads alternate with runs of stores unless a barrier is between them. -/
structure Alternates (ps : List Piece) : Prop where
  barrier : ∀ s, .barrier s ∈ ps → s.transfer? = none
  uniform : ∀ first rest, .run first rest ∈ ps → ∀ t ∈ rest, t.isStore = first.isStore
  apart : ps.IsChain fun p q => ∀ a as b bs, p = .run a as → q = .run b bs → a.isStore ≠ b.isStore

theorem Alternates.tail {p : Piece} {ps : List Piece} (h : Alternates (p :: ps)) : Alternates ps :=
  ⟨fun s hs => h.barrier s (.tail _ hs), fun first rest hmem => h.uniform first rest (.tail _ hmem),
    h.apart.tail⟩

theorem Alternates.cons {p : Piece} {ps : List Piece} (h : Alternates ps)
    (hbarrier : ∀ s, p = .barrier s → s.transfer? = none)
    (huniform : ∀ first rest, p = .run first rest → ∀ t ∈ rest, t.isStore = first.isStore)
    (hapart : ∀ a as b bs, p = .run a as → ps.head? = some (.run b bs) → a.isStore ≠ b.isStore) :
    Alternates (p :: ps) where
  barrier s hs := by
    rcases List.mem_cons.mp hs with hs | hs
    · exact hbarrier s hs.symm
    · exact h.barrier s hs
  uniform first rest hrun := by
    rcases List.mem_cons.mp hrun with hrun | hrun
    · exact huniform first rest hrun.symm
    · exact h.uniform first rest hrun
  apart := by
    refine List.isChain_cons.mpr ⟨?_, h.apart⟩
    rintro q hq a as b bs ha rfl
    exact hapart a as b bs ha hq

theorem alternates_pieces (segments : List Segment) :
    Alternates (pieces Transfer.sameClass segments) := by
  fun_induction pieces with
  | case1 => exact ⟨by simp, by simp, .nil⟩
  | case2 t rest first others more hp hclass ih =>
    rw [hp] at ih
    have hclass : t.isStore = first.isStore := beq_iff_eq.mp hclass
    refine ih.tail.cons (by simp) ?_ ?_
    · rintro a as ⟨⟩ u hu
      rcases List.mem_cons.mp hu with rfl | hu
      · exact hclass.symm
      · exact (ih.uniform first others List.mem_cons_self u hu).trans hclass.symm
    · rintro a as b bs ⟨⟩ hq
      rw [hclass]
      exact (List.isChain_cons.mp ih.apart).1 _ hq first others b bs rfl rfl
  | case3 t rest first others more hp hclass ih =>
    rw [hp] at ih
    refine ih.cons (by simp) (by simp) ?_
    rintro a as b bs ⟨⟩ ⟨⟩ heq
    exact hclass (beq_iff_eq.mpr heq)
  | case4 t rest hno ih =>
    refine ih.cons (by simp) (by simp) ?_
    rintro a as b bs - hq
    obtain ⟨more, hp⟩ := List.head?_eq_some_iff.mp hq
    exact absurd hp (hno b bs more)
  | case5 s rest hs ih =>
    refine ih.cons ?_ (by simp) (by simp)
    rintro b ⟨⟩
    cases s with
    | transfer t => exact absurd rfl (hs t)
    | loop _ | compute _ | block _ | sync _ | padding _ | scatter _ => rfl

def Piece.mapRun (f : List Transfer → List Segment) : Piece → List Segment
  | .run first rest => f (first :: rest)
  | .barrier s => [s]

theorem mapRuns_eq_flatMap (joins : Transfer → Transfer → Bool) (f : List Transfer → List Segment)
    (segments : List Segment) :
    mapRuns joins f segments = (pieces joins segments).flatMap (Piece.mapRun f) := by
  unfold mapRuns
  refine List.flatMap_congr fun piece _ => ?_
  cases piece <;> rfl

theorem Alternates.isStore_eq {first : Transfer} {rest : List Transfer} {ps : List Piece}
    (h : Alternates (.run first rest :: ps)) {t : Transfer} (ht : t ∈ first :: rest) :
    t.isStore = first.isStore := by
  rcases List.mem_cons.mp ht with rfl | ht
  · rfl
  · exact h.uniform first rest List.mem_cons_self t ht

theorem Alternates.head_other {first : Transfer} {rest : List Transfer} {ps : List Piece}
    (h : Alternates (.run first rest :: ps)) {f : List Transfer → List Transfer}
    (hf : ∀ run, (f run).Perm run) {t u : Transfer}
    (ht : (ps.flatMap (Piece.mapRun fun run => (f run).map .transfer)).head? = some (.transfer t))
    (hu : u ∈ first :: rest) : u.sameCommand t = false := by
  cases ps with
  | nil => cases ht
  | cons q ps =>
    cases q with
    | barrier s =>
      obtain rfl : s = .transfer t := by simpa [Piece.mapRun] using ht
      have hs := h.barrier (.transfer t) (by simp)
      simp [Segment.transfer?] at hs
    | run other more =>
      have hmem : t ∈ other :: more := by
        rw [← (hf (other :: more)).mem_iff]
        cases hrun : f (other :: more) with
        | nil =>
          have hlen := (hf (other :: more)).length_eq
          simp [hrun] at hlen
        | cons v vs =>
          obtain rfl : v = t := by simpa [Piece.mapRun, hrun] using ht
          exact List.mem_cons_self
      have happart := (List.isChain_cons_cons.mp h.apart).1 first rest other more rfl rfl
      by_contra hsame
      have hclass := Transfer.isStore_eq_of_sameCommand (by simpa using hsame)
      rw [h.isStore_eq hu, h.tail.isStore_eq hmem] at hclass
      exact happart hclass

theorem Absorbs.eq_sift {ps : List Piece} (hps : Alternates ps) {kept : List Segment}
    (h : Absorbs DropsRepeat none
      (ps.flatMap (Piece.mapRun fun run => (sortOn Transfer.hostKey run).map .transfer)) kept) :
    kept = ps.flatMap (Piece.mapRun fun run =>
      (siftRun false [] (sortOn Transfer.hostKey run)).map .transfer) := by
  induction ps generalizing kept with
  | nil => cases h; rfl
  | cons p ps ih =>
    rw [List.flatMap_cons] at h ⊢
    cases p with
    | barrier s =>
      have hs := hps.barrier s List.mem_cons_self
      cases h with
      | barrier _ h => rw [ih hps.tail h]; rfl
      | first h => simp [Segment.transfer?] at hs
    | run first rest =>
      have hperm := sortOn_perm Transfer.hostKey (first :: rest)
      have hdrop := destutter_sortOn (first :: rest)
      simp only [Piece.mapRun] at h ⊢
      rw [← hdrop]
      cases hsorted : sortOn Transfer.hostKey (first :: rest) with
      | nil =>
        have hlen := hperm.length_eq
        simp [hsorted] at hlen
      | cons low high =>
        rw [hsorted, List.map_cons, List.cons_append] at h
        cases h with
        | barrier hs => simp [Segment.transfer?] at hs
        | first h =>
          obtain ⟨kept', hkept', rfl⟩ := h.destutter fun t u ht hu =>
            hps.head_other (sortOn_perm Transfer.hostKey) ht (hperm.mem_iff.mp (hsorted ▸ hu))
          rw [ih hps.tail hkept', List.destutter_cons']

theorem meaning_mapRuns_congr {keep : Set WordMove} {joins : Transfer → Transfer → Bool}
    {f g : List Transfer → List Segment}
    (hfg : ∀ run, meaning keep (f run) = meaning keep (g run)) (segments : List Segment) :
    meaning keep (mapRuns joins f segments) = meaning keep (mapRuns joins g segments) :=
  mapRuns_rel_mapRuns (R := fun a b => meaning keep a = meaning keep b) (fun _ => rfl)
    meaning_append_congr hfg segments

theorem meaning_dropDuplicates_reorder {keep : Set WordMove} {segments : List Segment}
    {m : Merging}
    (h : (({ segments := segments } : Merging).reorder Transfer.hostKey).dropDuplicates = .ok m) :
    meaning keep m.segments = meaning keep (sift false segments) := by
  obtain ⟨out, hout, h⟩ := bind_eq_ok_iff.mp h
  obtain ⟨dropped, -, h⟩ := bind_eq_ok_iff.mp h
  rw [pure_eq_ok_iff] at h
  subst h
  have hsweep := absorbs_of_eq_ok hout
  have hrules : (fun a b r => (return if a.sameCommand b then some a else none : Checked _) = .ok r)
      = DropsRepeat := by
    funext a b r
    exact propext pure_eq_ok_iff
  rw [hrules] at hsweep
  simp only [Merging.reorder, permuteRuns, mapRuns_eq_flatMap] at hsweep
  rw [hsweep.eq_sift (alternates_pieces segments), ← mapRuns_eq_flatMap]
  exact meaning_mapRuns_congr
    (fun run => meaning_map_transfer_perm (siftRun_perm_sortOn false run)) segments

theorem streamMoves_merge {segments out : List Segment} {maxElements : Nat}
    (h : merge segments maxElements = .ok out) :
    streamMoves out = streamMoves (sift false segments) := by
  obtain ⟨m, hm, -, hmeaning⟩ := meaning_merge_of_dropDuplicates h
  have hmoves := streamMoves_eq_of_meaning
    ((hmeaning Set.univ).trans (meaning_dropDuplicates_reorder hm))
  simpa using hmoves

theorem siftRun_perm (seen run : List Transfer) :
    (siftRun true seen run ++ siftRun false seen run).Perm run := by
  induction run generalizing seen with
  | nil => exact .refl _
  | cons t rest ih =>
    rw [siftRun, siftRun]
    cases t.repeats seen with
    | true => exact (ih (t :: seen)).cons t
    | false => exact List.perm_middle.trans ((ih (t :: seen)).cons t)

theorem streamMoves_sift (segments : List Segment) :
    streamMoves segments = streamMoves (sift true segments) ∪ streamMoves (sift false segments) := by
  conv_lhs => rw [← mapRuns_map_transfer Transfer.sameClass segments]
  simp only [sift, mapRuns_eq_flatMap]
  induction pieces Transfer.sameClass segments with
  | nil => simp
  | cons p ps ih =>
    have hpiece : streamMoves (p.mapRun (List.map .transfer)) =
        streamMoves (p.mapRun fun run => (siftRun true [] run).map .transfer) ∪
          streamMoves (p.mapRun fun run => (siftRun false [] run).map .transfer) := by
      cases p with
      | run first rest =>
        rw [← streamMoves_append]
        simp only [Piece.mapRun]
        rw [← List.map_append]
        exact streamMoves_perm ((siftRun_perm [] (first :: rest)).symm.map _)
      | barrier s => exact (Set.union_self _).symm
    rw [List.flatMap_cons, List.flatMap_cons, List.flatMap_cons, streamMoves_append,
      streamMoves_append, streamMoves_append, hpiece, ih, Set.union_union_union_comm]

/-- Merging loses no word exactly if the words of every repeated transfer are words of transfers
that repeat no other one, or of loops. -/
theorem merge_keeps_words_iff {segments out : List Segment} {maxElements : Nat}
    (h : merge segments maxElements = .ok out) :
    streamMoves out = streamMoves (sift false segments) ∧
    ((∀ w ∈ streamMoves segments, ∃ w' ∈ streamMoves out, w'.place = w.place) ↔
      ∀ w ∈ streamMoves (sift true segments),
        ∃ w' ∈ streamMoves (sift false segments), w'.place = w.place) := by
  refine ⟨streamMoves_merge h, ?_⟩
  rw [streamMoves_merge h]
  constructor
  · intro hkeeps w hw
    exact hkeeps w (streamMoves_sift segments ▸ .inl hw)
  · intro hrepeated w hw
    rw [streamMoves_sift] at hw
    rcases hw with hw | hw
    · exact hrepeated w hw
    · exact ⟨w, hw, rfl⟩

def wholeFirst : List Segment :=
  [.transfer (.row .load1d 1 1 0x1000 0 8),
    .transfer { Transfer.row .load1d 1 1 0x1000 0 8 with skipped := 4 },
    .transfer (.row .load1d 1 1 0x1010 8 8)]

theorem merge_wholeFirst :
    merge wholeFirst 8192 = .ok [.transfer (.row .load1d 1 1 0x1000 0 16)] := by
  delta merge mergeWithStats
  simp only [Merging.reorder, sortOn_eq_insertionSort Transfer.hostKey fun _ _ => rfl,
    sortOn_eq_insertionSort Transfer.localKey fun _ _ => rfl,
    sortOn_eq_insertionSort Transfer.addressKey fun _ _ => rfl]
  decide +kernel

theorem merge_keeps_words_wholeFirst :
    ∃ out, merge wholeFirst 8192 = .ok out ∧
      ∀ w ∈ streamMoves wholeFirst, ∃ w' ∈ streamMoves out, w'.place = w.place := by
  refine ⟨_, merge_wholeFirst, (merge_keeps_words_iff merge_wholeFirst).2.mpr ?_⟩
  have hcovered : ∀ s ∈ sift true wholeFirst, ∀ w ∈ s.moves,
      ∃ s' ∈ sift false wholeFirst, ∃ w' ∈ s'.moves, w'.place = w.place := by decide +kernel
  rintro w ⟨s, hs, hw⟩
  obtain ⟨s', hs', w', hw', hplace⟩ := hcovered s hs w hw
  exact ⟨w', ⟨s', hs', hw'⟩, hplace⟩

def tailFirst : List Segment :=
  [.transfer { Transfer.row .load1d 1 1 0x1000 0 8 with skipped := 4 },
    .transfer (.row .load1d 1 1 0x1000 0 8)]

theorem merge_tailFirst :
    merge tailFirst 8192 = .ok [.transfer (.row .load1d 1 1 0x1000 0 4)] := by
  delta merge mergeWithStats
  simp only [Merging.reorder, sortOn_eq_insertionSort Transfer.hostKey fun _ _ => rfl,
    sortOn_eq_insertionSort Transfer.localKey fun _ _ => rfl,
    sortOn_eq_insertionSort Transfer.addressKey fun _ _ => rfl]
  decide +kernel

/-- The whole row is dropped as a repetition, and the tail of the other one is cut off. -/
theorem merge_loses_tail :
    ∃ out, merge tailFirst 8192 = .ok out ∧
      ∃ w ∈ streamMoves tailFirst, ∀ w' ∈ streamMoves out, w'.place ≠ w.place := by
  let whole : Transfer := .row .load1d 1 1 0x1000 0 8
  have hlast : whole.move 0 0 7 ∈ (Segment.transfer whole).moves := by decide +kernel
  refine ⟨_, merge_tailFirst, whole.move 0 0 7, ⟨_, by simp [tailFirst, whole], hlast⟩, ?_⟩
  have hout : ∀ w' ∈ (Transfer.row .load1d 1 1 0x1000 0 4).moves,
      w'.place ≠ (whole.move 0 0 7).place := by decide +kernel
  rintro w' ⟨s, hs, hw'⟩
  obtain rfl := List.mem_singleton.mp hs
  rw [Segment.moves_transfer] at hw'
  exact hout w' hw'

end CommandStream
