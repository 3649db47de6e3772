import CommandStream.Optimize.Roll
import CommandStream.Proofs.Outcomes
import CommandStream.Proofs.Reordering
import CommandStream.Proofs.StreamMeaning

/-! # Merging and balancing keep the meaning

Balancing reorders the runs of transfers in a stream, and merging also lets a transfer go into its
neighbour. Merging may drop a transfer that repeats its neighbour up to the skipped tail, so it
keeps the meaning only where such transfers have equal moves.
-/

namespace CommandStream

variable {keep : Set WordMove}

/-! ## Runs -/

def Piece.segments : Piece → List Segment
  | .run first rest => (first :: rest).map .transfer
  | .barrier s => [s]

theorem flatMap_pieces (joins : Transfer → Transfer → Bool) (segments : List Segment) :
    (pieces joins segments).flatMap Piece.segments = segments := by
  fun_induction pieces with
  | case1 => rfl
  | case2 t rest first others more hp _ ih => simpa [hp, Piece.segments] using ih
  | case3 t rest first others more hp _ ih => simpa [hp, Piece.segments] using ih
  | case4 t rest _ ih => simpa [Piece.segments] using ih
  | case5 s rest _ ih => simpa [Piece.segments] using ih

theorem mapRuns_map_transfer (joins : Transfer → Transfer → Bool) (segments : List Segment) :
    mapRuns joins (List.map .transfer) segments = segments := by
  conv_rhs => rw [← flatMap_pieces joins segments]
  unfold mapRuns
  refine List.flatMap_congr fun piece _ => ?_
  cases piece <;> rfl

section Pieces

variable {joins : Transfer → Transfer → Bool} {a b : List Segment}

/-- No run goes on from the end of the first stream into the second. -/
def RunsApart (joins : Transfer → Transfer → Bool) (a b : List Segment) : Prop :=
  ∀ t u, a.getLast? = some (.transfer t) → b.head? = some (.transfer u) → joins t u = false

theorem RunsApart.of_cons {s : Segment} (h : RunsApart joins (s :: a) b) : RunsApart joins a b := by
  intro t u ht hu
  apply h t u ?_ hu
  rw [List.getLast?_cons, ht]
  rfl

theorem head?_of_pieces {first : Transfer} {rest : List Transfer} {more : List Piece}
    (h : pieces joins a = .run first rest :: more) : a.head? = some (.transfer first) := by
  have hflat := flatMap_pieces joins a
  rw [h, List.flatMap_cons] at hflat
  rw [← hflat]
  rfl

theorem pieces_append (h : RunsApart joins a b) :
    pieces joins (a ++ b) = pieces joins a ++ pieces joins b := by
  induction a with
  | nil => rfl
  | cons s a ih =>
    have hrest := ih h.of_cons
    cases s with
    | transfer t =>
      rw [List.cons_append, pieces, hrest, pieces]
      cases hp : pieces joins a with
      | cons p ps =>
        cases p with
        | run first others =>
          dsimp only [List.cons_append]
          split <;> rfl
        | barrier s => rfl
      | nil =>
        obtain rfl : a = [] := by
          rw [← flatMap_pieces joins a, hp]
          rfl
        cases hb : pieces joins b with
        | nil => rfl
        | cons p ps =>
          cases p with
          | run first others =>
            dsimp only [List.nil_append]
            rw [h t first rfl (head?_of_pieces hb), if_neg Bool.false_ne_true]
            rfl
          | barrier s => rfl
    | loop _ | compute _ | block _ | sync _ | padding _ | scatter _ => exact congrArg (_ :: ·) hrest

theorem mapRuns_append (f : List Transfer → List Segment) (h : RunsApart joins a b) :
    mapRuns joins f (a ++ b) = mapRuns joins f a ++ mapRuns joins f b := by
  unfold mapRuns
  rw [pieces_append h, List.flatMap_append]

theorem pieces_map_transfer {first : Transfer} {rest : List Transfer}
    (h : (first :: rest).IsChain (joins · · = true)) :
    pieces joins ((first :: rest).map .transfer) = [.run first rest] := by
  induction rest generalizing first with
  | nil => rfl
  | cons t rest ih =>
    rw [List.isChain_cons_cons] at h
    rw [List.map_cons, pieces, ih h.2]
    exact if_pos h.1

theorem mapRuns_of_isChain (f : List Transfer → List Segment) {run : List Transfer}
    (hrun : run ≠ []) (h : run.IsChain (joins · · = true)) :
    mapRuns joins f (run.map .transfer) = f run := by
  obtain ⟨first, rest, rfl⟩ := List.exists_cons_of_ne_nil hrun
  unfold mapRuns
  rw [pieces_map_transfer h, List.flatMap_singleton]

end Pieces

section Rewriting

variable {R : List Segment → List Segment → Prop} (hrefl : ∀ a, R a a)
  (happend : ∀ {a a' b b'}, R a a' → R b b' → R (a ++ b) (a' ++ b'))
  {joins : Transfer → Transfer → Bool} {f g : List Transfer → List Segment}

include hrefl happend

/-- A relation between streams that may be put together relates two ways of rewriting the runs of a
stream, if it does so for every run. -/
theorem mapRuns_rel_mapRuns (hfg : ∀ run, R (f run) (g run)) (segments : List Segment) :
    R (mapRuns joins f segments) (mapRuns joins g segments) := by
  unfold mapRuns
  generalize pieces joins segments = ps
  induction ps with
  | nil => exact hrefl _
  | cons piece ps ih =>
    refine happend ?_ ih
    cases piece with
    | run first rest => exact hfg (first :: rest)
    | barrier s => exact hrefl _

theorem mapRuns_rel (hf : ∀ run, R (f run) (run.map .transfer)) (segments : List Segment) :
    R (mapRuns joins f segments) segments := by
  have h : R (mapRuns joins f segments) (mapRuns joins (List.map .transfer) segments) :=
    mapRuns_rel_mapRuns hrefl happend hf segments
  rwa [mapRuns_map_transfer] at h

end Rewriting

/-- Rewriting every run by something of equal meaning. -/
theorem meaning_mapRuns {joins : Transfer → Transfer → Bool} {f : List Transfer → List Segment}
    (hf : ∀ run, meaning keep (f run) = meaning keep (run.map .transfer))
    (segments : List Segment) :
    meaning keep (mapRuns joins f segments) = meaning keep segments :=
  mapRuns_rel (R := fun a b => meaning keep a = meaning keep b) (fun _ => rfl)
    meaning_append_congr hf segments

theorem meaning_permuteRuns {joins : Transfer → Transfer → Bool}
    {f : List Transfer → List Transfer} (hf : ∀ run, (f run).Perm run) (segments : List Segment) :
    meaning keep (permuteRuns joins f segments) = meaning keep segments :=
  meaning_mapRuns (fun run => meaning_map_transfer_perm (hf run)) segments

theorem permuteRuns_perm {joins : Transfer → Transfer → Bool} {f : List Transfer → List Transfer}
    (hf : ∀ run, (f run).Perm run) (segments : List Segment) :
    (permuteRuns joins f segments).Perm segments :=
  mapRuns_rel .refl List.Perm.append (fun run => (hf run).map _) segments

theorem mem_permuteRuns {joins : Transfer → Transfer → Bool} {f : List Transfer → List Transfer}
    (hf : ∀ run, (f run).Perm run) {segments : List Segment} {s : Segment} :
    s ∈ permuteRuns joins f segments ↔ s ∈ segments :=
  (permuteRuns_perm hf segments).mem_iff

theorem meaning_balance (segments : List Segment) (loads : Bool) :
    meaning keep (balance segments loads) = meaning keep segments :=
  meaning_permuteRuns (balanceRun_perm loads) segments

/-! ## Combining neighbours -/

/-- What a sweep keeps of a stream behind the transfer it holds back, where `R a b r` says that the
attempt to let `b` go into `a` ends in `r`. -/
inductive Absorbs (R : Transfer → Transfer → Option Transfer → Prop) :
    Option Transfer → List Segment → List Segment → Prop where
  | nil {pending} : Absorbs R pending [] (pending.toList.map .transfer)
  | barrier {pending s rest kept} (hs : s.transfer? = none) (h : Absorbs R none rest kept) :
      Absorbs R pending (s :: rest) (pending.toList.map .transfer ++ s :: kept)
  | first {t rest kept} (h : Absorbs R (some t) rest kept) :
      Absorbs R none (.transfer t :: rest) kept
  | apart {last t rest kept} (hj : R last t none) (h : Absorbs R (some t) rest kept) :
      Absorbs R (some last) (.transfer t :: rest) (.transfer last :: kept)
  | join {last t joined rest kept} (hj : R last t (some joined))
      (h : Absorbs R (some joined) rest kept) : Absorbs R (some last) (.transfer t :: rest) kept

theorem absorbWith_barrier {m : Type → Type} [Monad m]
    {join : Transfer → Transfer → m (Option Transfer)} {s : Segment} (h : s.transfer? = none)
    (pending : Option Transfer) (rest : List Segment) :
    absorbWith join pending (s :: rest) = (do
      let out ← absorbWith join none rest
      return { out with kept := pending.toList.map .transfer ++ s :: out.kept }) := by
  cases s with
  | transfer t => exact absurd h (Option.some_ne_none t)
  | loop _ | compute _ | block _ | sync _ | padding _ | scatter _ => cases pending <;> rfl

theorem absorbs_of_eq_ok {ε : Type} {join : Transfer → Transfer → Except ε (Option Transfer)}
    {pending : Option Transfer} {segments : List Segment} {out : Absorbed}
    (h : absorbWith join pending segments = .ok out) :
    Absorbs (fun a b r => join a b = .ok r) pending segments out.kept := by
  induction segments generalizing pending out with
  | nil =>
    rw [absorbWith, pure_eq_ok_iff] at h
    exact h ▸ .nil
  | cons s rest ih =>
    cases hst : s.transfer? with
    | none =>
      rw [absorbWith_barrier hst, bind_eq_ok_iff] at h
      obtain ⟨out', h', hout⟩ := h
      exact pure_eq_ok_iff.mp hout ▸ .barrier hst (ih h')
    | some t =>
      obtain rfl := Segment.transfer?_eq_some_iff.mp hst
      cases pending with
      | none => exact .first (ih h)
      | some last =>
        rw [absorbWith, bind_eq_ok_iff] at h
        obtain ⟨joined?, hj, h⟩ := h
        cases joined? with
        | none =>
          obtain ⟨out', h', hout⟩ := bind_eq_ok_iff.mp h
          exact pure_eq_ok_iff.mp hout ▸ .apart hj (ih h')
        | some joined =>
          obtain ⟨out', h', hout⟩ := bind_eq_ok_iff.mp h
          obtain rfl := pure_eq_ok_iff.mp hout
          have hrest := ih h'
          exact .join hj hrest

theorem absorbs_run (join : Transfer → Transfer → Id (Option Transfer))
    (pending : Option Transfer) (segments : List Segment) :
    Absorbs (fun a b r => (join a b).run = r) pending segments
      (absorbWith join pending segments).run.kept := by
  induction segments generalizing pending with
  | nil => rw [absorbWith]; exact .nil
  | cons s rest ih =>
    cases hst : s.transfer? with
    | none => rw [absorbWith_barrier hst]; exact .barrier hst (ih none)
    | some t =>
      obtain rfl := Segment.transfer?_eq_some_iff.mp hst
      cases pending with
      | none => exact .first (ih (some t))
      | some last =>
        rw [absorbWith]
        cases hj : (join last t).run with
        | none =>
          have hpure : join last t = pure none := hj
          rw [hpure, pure_bind]
          exact .apart hj (ih (some t))
        | some joined =>
          have hpure : join last t = pure (some joined) := hj
          rw [hpure, pure_bind]
          exact .join hj (ih (some joined))

theorem meaning_joined {a b joined : Transfer}
    (h : ∀ w ∈ keep, w ∈ joined.moves ↔ w ∈ a.moves ∨ w ∈ b.moves) (rest : List Segment) :
    meaning keep (.transfer joined :: rest) =
      meaning keep (.transfer a :: .transfer b :: rest) := by
  have hpair : meaning keep [.transfer joined] = meaning keep [.transfer a, .transfer b] := by
    refine meaning_eq_of_dma (by simp [Segment.isDma]) (by simp [Segment.isDma]) ?_
    ext w
    simp only [streamMoves_cons, streamMoves_nil, Segment.moves_transfer, Set.mem_inter_iff,
      Set.mem_union, Set.mem_ofPred_eq, Set.mem_empty_iff_false, or_false]
    exact and_congr_right fun hk => h w hk
  exact meaning_append_congr hpair (b := rest) rfl

namespace Absorbs

variable {R : Transfer → Transfer → Option Transfer → Prop} {pending : Option Transfer}
  {segments kept : List Segment}

theorem forall_transfer {P : Transfer → Prop} (h : Absorbs R pending segments kept)
    (hjoin : ∀ {a b joined}, P a → P b → R a b (some joined) → P joined)
    (hs : ∀ t, .transfer t ∈ segments → P t) (hp : ∀ t ∈ pending, P t) :
    ∀ t, .transfer t ∈ kept → P t := by
  induction h with
  | nil => simpa using hp
  | barrier hst _ ih =>
    intro t ht
    rcases List.mem_append.mp ht with ht | ht
    · exact hp t (by simpa using ht)
    · rcases List.mem_cons.mp ht with rfl | ht
      · simp [Segment.transfer?] at hst
      · exact ih (fun u hu => hs u (.tail _ hu)) (by simp) t ht
  | first _ ih =>
    exact ih (fun u hu => hs u (.tail _ hu)) (by simpa using hs _ (.head _))
  | apart _ _ ih =>
    intro t ht
    rcases List.mem_cons.mp ht with ht | ht
    · exact hp t (Segment.transfer.inj ht ▸ rfl)
    · exact ih (fun u hu => hs u (.tail _ hu))
        (by simpa using hs _ (.head _)) t ht
  | join hj _ ih =>
    refine ih (fun u hu => hs u (.tail _ hu)) ?_
    simpa using hjoin (hp _ rfl) (hs _ (.head _)) hj

/-- A sweep keeps the meaning if joining two transfers keeps their moves. -/
theorem meaning_eq {P : Transfer → Prop} (h : Absorbs R pending segments kept)
    (hjoin : ∀ {a b joined}, P a → P b → R a b (some joined) →
      P joined ∧ ∀ w ∈ keep, w ∈ joined.moves ↔ w ∈ a.moves ∨ w ∈ b.moves)
    (hs : ∀ t, .transfer t ∈ segments → P t) (hp : ∀ t ∈ pending, P t) :
    meaning keep kept = meaning keep (pending.toList.map .transfer ++ segments) := by
  induction h with
  | nil => simp
  | barrier _ _ ih =>
    have hrest := ih (fun u hu => hs u (.tail _ hu)) (by simp)
    exact meaning_append_congr rfl (meaning_cons_congr _ (by simpa using hrest))
  | first _ ih =>
    exact ih (fun u hu => hs u (.tail _ hu)) (by simpa using hs _ (.head _))
  | apart _ _ ih =>
    exact meaning_cons_congr _ (ih (fun u hu => hs u (.tail _ hu))
      (by simpa using hs _ (.head _)))
  | join hj _ ih =>
    obtain ⟨hjoined, hmoves⟩ := hjoin (hp _ rfl) (hs _ (.head _)) hj
    have hrest := ih (fun u hu => hs u (.tail _ hu)) (by simpa using hjoined)
    exact hrest.trans (meaning_joined hmoves _)

theorem mem_of_mem_kept (h : Absorbs R pending segments kept) {s : Segment} (hs : s ∈ kept)
    (hst : s.transfer? = none) : s ∈ segments := by
  have hlast : ∀ last : Transfer, s ≠ .transfer last := by
    rintro last rfl
    exact Option.some_ne_none _ hst
  induction h with
  | nil =>
    obtain ⟨t, -, rfl⟩ := List.mem_map.mp hs
    exact absurd rfl (hlast t)
  | barrier _ _ ih =>
    rcases List.mem_append.mp hs with hs | hs
    · obtain ⟨t, -, rfl⟩ := List.mem_map.mp hs
      exact absurd rfl (hlast t)
    · rcases List.mem_cons.mp hs with rfl | hs
      · exact List.mem_cons_self
      · exact List.mem_cons_of_mem _ (ih hs)
  | first _ ih => exact List.mem_cons_of_mem _ (ih hs)
  | apart _ _ ih =>
    rcases List.mem_cons.mp hs with rfl | hs
    · exact absurd rfl (hlast _)
    · exact List.mem_cons_of_mem _ (ih hs)
  | join _ _ ih => exact List.mem_cons_of_mem _ (ih hs)

end Absorbs

theorem absorb_meaning {ε : Type} {join : Transfer → Transfer → Except ε (Option Transfer)}
    {P : Transfer → Prop}
    (hjoin : ∀ {a b joined}, P a → P b → join a b = .ok (some joined) →
      P joined ∧ ∀ w ∈ keep, w ∈ joined.moves ↔ w ∈ a.moves ∨ w ∈ b.moves)
    {segments : List Segment} (hs : ∀ t, Segment.transfer t ∈ segments → P t) {out : Absorbed}
    (h : absorb join segments = .ok out) :
    (∀ t, Segment.transfer t ∈ out.kept → P t) ∧
      meaning keep out.kept = meaning keep segments := by
  have hkept := absorbs_of_eq_ok h
  exact ⟨hkept.forall_transfer (fun ha hb hj => (hjoin ha hb hj).1) hs (by simp),
    hkept.meaning_eq hjoin hs (by simp)⟩

/-! ## Merging -/

/-- Transfers that differ at most in the skipped tail have equal moves. -/
def RepeatsAgree (keep : Set WordMove) (segments : List Segment) : Prop :=
  ∀ t u, Segment.transfer t ∈ segments → Segment.transfer u ∈ segments → t.sameCommand u = true →
    ∀ w ∈ keep, w ∈ t.moves ↔ w ∈ u.moves

def Unskipped (segments : List Segment) : Prop :=
  ∀ t, Segment.transfer t ∈ segments → t.skipped = 0

theorem Unskipped.repeatsAgree {segments : List Segment} (h : Unskipped segments) :
    RepeatsAgree keep segments := by
  intro t u ht hu hs w _
  have heq : ({ t with skipped := 0 } : Transfer) = { u with skipped := 0 } := beq_iff_eq.mp hs
  have htu : t = u := by
    have ht0 := h t ht
    have hu0 := h u hu
    cases t; cases u
    simp_all
  rw [htu]

theorem Unskipped.absorb {ε : Type} {join : Transfer → Transfer → Except ε (Option Transfer)}
    {segments : List Segment} {out : Absorbed} (hu : Unskipped segments)
    (hjoin : ∀ {a b joined}, join a b = .ok (some joined) → joined.skipped = a.skipped ∧
      ∀ w, w ∈ joined.moves ↔ w ∈ a.moves ∨ w ∈ b.moves)
    (h : CommandStream.absorb join segments = .ok out) :
    Unskipped out.kept ∧ meaning keep out.kept = meaning keep segments := by
  refine absorb_meaning (P := fun t => t.skipped = 0) ?_ hu h
  intro a b joined ha _ hj
  obtain ⟨hskipped, hmoves⟩ := hjoin hj
  exact ⟨hskipped.trans ha, fun w _ => hmoves w⟩

theorem Transfer.skipped_startOfJoin {a b whole joined : Transfer}
    (h : startOfJoin a b whole = .ok (some joined)) : joined.skipped = whole.skipped := by
  rcases startOfJoin_cases h with ⟨-, rfl⟩ | ⟨-, rfl⟩ <;> rfl

theorem Transfer.skipped_joinRow {a b joined : Transfer} (h : joinRow a b = .ok (some joined)) :
    joined.skipped = a.skipped := by
  obtain ⟨-, -, -, h⟩ := joinRow_eq_some h
  exact (skipped_startOfJoin h :)

theorem Transfer.skipped_joinRect {a b joined : Transfer} (h : joinRect a b = .ok (some joined)) :
    joined.skipped = a.skipped := by
  obtain ⟨-, -, -, -, -, h⟩ := joinRect_eq_some h
  exact (skipped_startOfJoin h :)

theorem Transfer.flattenSegment_transfer (t : Transfer) (maxElements : Nat) :
    ∃ u : Transfer, Merging.flattenSegment maxElements (.transfer t) = .transfer u ∧
      u.target = t.target ∧ u.skipped = t.skipped ∧ u.area = t.area ∧
      (t.padding.isEmpty = false → u.width = t.width ∧ u.height = t.height) ∧
      (u.isRect = true → t.isRect = true) := by
  rw [Merging.flattenSegment]
  split
  · exact ⟨t, rfl, rfl, rfl, rfl, fun _ => ⟨rfl, rfl⟩, id⟩
  · split
    · rename_i hf
      simp only [flattenable, Bool.and_eq_true, decide_eq_true_eq] at hf
      obtain ⟨⟨-, hempty⟩, harea⟩ := hf
      have hwidth : (UInt16.ofNat t.area).toNat = t.area :=
        UInt16.toNat_ofNat_of_lt' (by change t.area < 65536; omega)
      refine ⟨_, rfl, by simp [target, isStore], rfl, ?_, ?_, by simp [isRect]⟩
      · rw [area, hwidth]
        exact Nat.mul_one _
      · intro hpad
        rw [hempty] at hpad
        cases hpad
    · split
      · exact ⟨_, rfl, by simp [target, isStore], rfl, rfl, fun _ => ⟨rfl, rfl⟩, by simp [isRect]⟩
      · exact ⟨t, rfl, rfl, rfl, rfl, fun _ => ⟨rfl, rfl⟩, id⟩

theorem meaning_forall₂ {a b : List Segment}
    (h : List.Forall₂ (fun x y => meaning keep [x] = meaning keep [y]) a b) :
    meaning keep a = meaning keep b := by
  induction h with
  | nil => rfl
  | cons hx _ ih => exact meaning_append_congr hx ih

theorem meaning_transfer {t u : Transfer} (h : t.moves = u.moves) :
    meaning keep [.transfer t] = meaning keep [.transfer u] :=
  meaning_eq_of_dma (by simp [Segment.isDma]) (by simp [Segment.isDma])
    (by simp [h])

def MergeStats.joins (s : MergeStats) : Nat := s.joinedRows + s.joinedRects

namespace Merging

variable {m m' : Merging}

theorem meaning_reorder (key : Transfer → List Nat) :
    meaning keep (m.reorder key).segments = meaning keep m.segments :=
  meaning_permuteRuns (sortOn_perm key) m.segments

theorem mem_reorder {key : Transfer → List Nat} {s : Segment} :
    s ∈ (m.reorder key).segments ↔ s ∈ m.segments :=
  mem_permuteRuns (sortOn_perm key)

theorem meaning_dropDuplicates (hr : RepeatsAgree keep m.segments)
    (h : m.dropDuplicates = .ok m') :
    (∀ t, Segment.transfer t ∈ m'.segments → Segment.transfer t ∈ m.segments) ∧
      meaning keep m'.segments = meaning keep m.segments := by
  obtain ⟨out, ho, h⟩ := bind_eq_ok_iff.mp h
  obtain ⟨dropped, -, h⟩ := bind_eq_ok_iff.mp h
  rw [pure_eq_ok_iff] at h
  subst h
  refine absorb_meaning (P := fun t => Segment.transfer t ∈ m.segments) ?_ (fun t ht => ht) ho
  intro a b joined ha hb hj
  rw [pure_eq_ok_iff] at hj
  split at hj
  · rename_i hs
    obtain rfl := Option.some.inj hj
    refine ⟨ha, fun w hw => ?_⟩
    rw [hr a b ha hb hs w hw, or_self]
  · simp at hj

theorem meaning_flattenSegment (maxElements : Nat) (s : Segment) :
    meaning keep [flattenSegment maxElements s] = meaning keep [s] := by
  cases s with
  | transfer t =>
    rw [flattenSegment]
    split
    · rfl
    · rename_i hr
      have hr : t.isRect = true := by simpa using hr
      split
      · rename_i hf
        exact meaning_transfer (Transfer.moves_flatten hr hf)
      · split
        · rename_i hh
          exact meaning_transfer (Transfer.moves_oneRow hr hh)
        · rfl
  | loop _ | compute _ | block _ | sync _ | padding _ | scatter _ => rfl

theorem meaning_flatten (maxElements : Nat) :
    meaning keep (m.flatten maxElements).segments = meaning keep m.segments := by
  refine meaning_forall₂ ?_
  rw [flatten, List.forall₂_map_left_iff, List.forall₂_same]
  exact fun s _ => meaning_flattenSegment maxElements s

theorem unskipped_flatten {maxElements : Nat} (h : Unskipped m.segments) :
    Unskipped (m.flatten maxElements).segments := by
  intro t ht
  obtain ⟨s, hs, hst⟩ := List.mem_map.mp ht
  cases s with
  | transfer u =>
    obtain ⟨u', hu', -, hskipped, -⟩ := u.flattenSegment_transfer maxElements
    obtain rfl : u' = t := Segment.transfer.inj (hu'.symm.trans hst)
    exact hskipped.trans (h u hs)
  | loop _ | compute _ | block _ | sync _ | padding _ | scatter _ => cases hst

variable (keep) in
theorem trimSegment_eq_ok {s s' : Segment} {index : Nat} (h : trimSegment (s, index) = .ok s') :
    meaning keep [s'] = meaning keep [s] ∧ ∀ t, s' = .transfer t → t.skipped = 0 := by
  cases s with
  | transfer t =>
    rw [trimSegment] at h
    split at h
    · rename_i h0
      obtain rfl := Except.ok.inj h
      exact ⟨rfl, fun u hu => (Segment.transfer.inj hu) ▸ h0⟩
    · split at h
      · cases h
      · rename_i hr
        obtain rfl := Except.ok.inj h
        refine ⟨meaning_transfer (Transfer.moves_trim (by simpa using hr)), fun u hu => ?_⟩
        exact (Segment.transfer.inj hu) ▸ rfl
  | loop _ | compute _ | block _ | sync _ | padding _ | scatter _ =>
    obtain rfl := Except.ok.inj h
    exact ⟨rfl, fun t ht => by cases ht⟩

theorem forall₂_trim (h : m.trim = .ok m') :
    List.Forall₂ (fun s s' => ∃ index, trimSegment (s, index) = .ok s')
      m.segments m'.segments := by
  obtain ⟨segments, hs, h⟩ := bind_eq_ok_iff.mp h
  obtain rfl := pure_eq_ok_iff.mp h
  rw [← List.zipIdx_map_fst 0 m.segments, List.forall₂_map_left_iff]
  exact (mapM_eq_ok_iff.mp hs).imp fun x _ hx => ⟨x.2, hx⟩

variable (keep) in
theorem meaning_trim (h : m.trim = .ok m') :
    meaning keep m'.segments = meaning keep m.segments ∧ Unskipped m'.segments := by
  constructor
  · refine (meaning_forall₂ ((forall₂_trim h).imp ?_)).symm
    rintro s s' ⟨index, hs⟩
    exact (trimSegment_eq_ok keep hs).1.symm
  · intro t ht
    obtain ⟨s, -, index, hs⟩ := exists_of_mem_forall₂ (forall₂_trim h) ht
    exact (trimSegment_eq_ok keep hs).2 t rfl

/-- A step that lets neighbours go into each other by `join`, one of the two joins. -/
structure Joins (join : Transfer → Transfer → Checked (Option Transfer)) (m m' : Merging) :
    Prop where
  isJoin : join = Transfer.joinRow ∨ join = Transfer.joinRect
  absorb : ∃ out, CommandStream.absorb join m.segments = .ok out ∧ m'.segments = out.kept ∧
    m'.stats.joins = m.stats.joins + out.absorbed.length

theorem joins_of_joinRows (h : m.joinRows = .ok m') : Joins Transfer.joinRow m m' := by
  obtain ⟨out, hout, h⟩ := bind_eq_ok_iff.mp h
  obtain rfl := pure_eq_ok_iff.mp h
  exact ⟨.inl rfl, out, hout, rfl, Nat.add_right_comm _ _ _⟩

theorem joins_of_joinRects (h : m.joinRects = .ok m') : Joins Transfer.joinRect m m' := by
  obtain ⟨out, hout, h⟩ := bind_eq_ok_iff.mp h
  obtain rfl := pure_eq_ok_iff.mp h
  exact ⟨.inr rfl, out, hout, rfl, (Nat.add_assoc _ _ _).symm⟩

variable (keep) in
theorem Joins.meaning {join : Transfer → Transfer → Checked (Option Transfer)}
    (h : Joins join m m') (hu : Unskipped m.segments) :
    Unskipped m'.segments ∧ meaning keep m'.segments = meaning keep m.segments := by
  obtain ⟨out, hout, hkept, -⟩ := h.absorb
  rw [hkept]
  refine hu.absorb (fun hj => ?_) hout
  obtain rfl | rfl := h.isJoin
  · exact ⟨Transfer.skipped_joinRow hj, fun _ => Transfer.mem_moves_joinRow hj⟩
  · exact ⟨Transfer.skipped_joinRect hj, fun _ => Transfer.mem_moves_joinRect hj⟩

end Merging

theorem mergeWithStats_eq_ok {segments out : List Segment} {maxElements : Nat} {stats : MergeStats}
    (h : mergeWithStats segments maxElements = .ok (out, stats)) :
    ∃ m₁ m₂ m₃ m₄ m₅ m₆ m₇ : Merging,
      (({ segments := segments } : Merging).reorder Transfer.hostKey).dropDuplicates = .ok m₁ ∧
      (m₁.flatten maxElements).trim = .ok m₂ ∧ m₂.joinRows = .ok m₃ ∧ m₃.joinRects = .ok m₄ ∧
      (m₄.reorder Transfer.localKey).dropDuplicates = .ok m₅ ∧
      (m₅.flatten maxElements).joinRows = .ok m₆ ∧ m₆.joinRects = .ok m₇ ∧
      out = refreshBlocks (m₇.reorder Transfer.addressKey).segments ∧ stats = m₇.stats := by
  unfold mergeWithStats at h
  simp only [bind_eq_ok_iff, liftM_checked_eq_ok_iff, liftM_fault_eq_ok_iff] at h
  obtain ⟨before, -, m₁, h₁, m₂, h₂, m₃, h₃, m₄, h₄, m₅, h₅, m₆, h₆, m₇, h₇, after, -, expected, -,
    h⟩ := h
  split at h
  · simp at h
  · rw [pure_eq_ok_iff, Prod.mk.injEq] at h
    exact ⟨m₁, m₂, m₃, m₄, m₅, m₆, m₇, h₁, h₂, h₃, h₄, h₅, h₆, h₇, h.1.symm, h.2.symm⟩

theorem merge_eq_ok {segments out : List Segment} {maxElements : Nat}
    (h : merge segments maxElements = .ok out) :
    ∃ stats, mergeWithStats segments maxElements = .ok (out, stats) := by
  obtain ⟨⟨out', stats⟩, h', ho⟩ := bind_eq_ok_iff.mp h
  rw [pure_eq_ok_iff] at ho
  exact ⟨stats, ho ▸ h'⟩

/-- Only the first dropping of repeated transfers can change the meaning: behind it no transfer that
repeats another has a different tail. -/
theorem meaning_merge_of_dropDuplicates {segments out : List Segment} {maxElements : Nat}
    (h : merge segments maxElements = .ok out) :
    ∃ m : Merging,
      (({ segments := segments } : Merging).reorder Transfer.hostKey).dropDuplicates = .ok m ∧
      Unskipped out ∧ ∀ keep, meaning keep out = meaning keep m.segments := by
  obtain ⟨stats, h⟩ := merge_eq_ok h
  obtain ⟨m₁, m₂, m₃, m₄, m₅, m₆, m₇, h₁, h₂, h₃, h₄, h₅, h₆, h₇, rfl, -⟩ :=
    mergeWithStats_eq_ok h
  have steps (keep : Set WordMove) : Unskipped m₇.segments ∧
      meaning keep m₇.segments = meaning keep m₁.segments := by
    obtain ⟨e₂, u₂⟩ := Merging.meaning_trim keep h₂
    obtain ⟨u₃, e₃⟩ := (Merging.joins_of_joinRows h₃).meaning keep u₂
    obtain ⟨u₄, e₄⟩ := (Merging.joins_of_joinRects h₄).meaning keep u₃
    have u₄' : Unskipped (m₄.reorder Transfer.localKey).segments :=
      fun t ht => u₄ t (Merging.mem_reorder.mp ht)
    have r₄ : RepeatsAgree keep (m₄.reorder Transfer.localKey).segments := u₄'.repeatsAgree
    obtain ⟨sub, e₅⟩ := Merging.meaning_dropDuplicates r₄ h₅
    have u₅ : Unskipped m₅.segments := fun t ht => u₄' t (sub t ht)
    obtain ⟨u₆, e₆⟩ := (Merging.joins_of_joinRows h₆).meaning keep (Merging.unskipped_flatten u₅)
    obtain ⟨u₇, e₇⟩ := (Merging.joins_of_joinRects h₇).meaning keep u₆
    refine ⟨u₇, ?_⟩
    calc meaning keep m₇.segments
      _ = meaning keep m₅.segments := by rw [e₇, e₆, Merging.meaning_flatten]
      _ = meaning keep m₄.segments := by rw [e₅, Merging.meaning_reorder]
      _ = meaning keep m₁.segments := by rw [e₄, e₃, e₂, Merging.meaning_flatten]
  refine ⟨m₁, h₁, fun t ht => ?_, fun keep => ?_⟩
  · exact (steps ∅).1 t (Merging.mem_reorder.mp ((mem_refreshBlocks rfl).mp ht))
  · rw [meaning_refreshBlocks, Merging.meaning_reorder, (steps keep).2]

theorem meaning_merge {segments out : List Segment} {maxElements : Nat}
    (hr : RepeatsAgree keep segments) (h : merge segments maxElements = .ok out) :
    Unskipped out ∧ meaning keep out = meaning keep segments := by
  obtain ⟨m, hm, hout, hmeaning⟩ := meaning_merge_of_dropDuplicates h
  have hr' : RepeatsAgree keep
      (({ segments := segments } : Merging).reorder Transfer.hostKey).segments :=
    fun t u ht hu => hr t u (Merging.mem_reorder.mp ht) (Merging.mem_reorder.mp hu)
  refine ⟨hout, (hmeaning keep).trans ?_⟩
  rw [(Merging.meaning_dropDuplicates hr' hm).2, Merging.meaning_reorder]

end CommandStream
