import CommandStream.Proofs.BatchMeaning
import CommandStream.Proofs.LoopExpansion
import CommandStream.Proofs.LoopRolling

/-! # Segments and the pad widths at their places

A padding command sets the widths for everything behind it. A pass carries a property along if it
changes no widths at the end of a stream and the property holds at every place of its output,
whatever the widths in front, once it holds at every place of its input.
-/

namespace CommandStream

def Segment.widthsBehind (pad : PadWidths) : Segment → PadWidths
  | .padding widths => widths
  | _ => pad

def widthsBehind (pad : PadWidths) (segments : List Segment) : PadWidths :=
  segments.foldl Segment.widthsBehind pad

/-- Every segment with the pad widths in effect at its place. -/
def placed : PadWidths → List Segment → List (PadWidths × Segment)
  | _, [] => []
  | pad, s :: rest => (pad, s) :: placed (s.widthsBehind pad) rest

def Everywhere (P : PadWidths → Segment → Prop) (pad : PadWidths) (segments : List Segment) :
    Prop :=
  ∀ p ∈ placed pad segments, P p.1 p.2

variable {P Q : PadWidths → Segment → Prop} {pad : PadWidths} {a b c : List Segment}

@[simp] theorem everywhere_nil : Everywhere P pad [] := by simp [Everywhere, placed]

@[simp] theorem everywhere_cons {s : Segment} {rest : List Segment} :
    Everywhere P pad (s :: rest) ↔ P pad s ∧ Everywhere P (s.widthsBehind pad) rest := by
  simp [Everywhere, placed]

theorem widthsBehind_append (pad : PadWidths) (a b : List Segment) :
    widthsBehind pad (a ++ b) = widthsBehind (widthsBehind pad a) b := List.foldl_append

@[simp] theorem everywhere_append :
    Everywhere P pad (a ++ b) ↔ Everywhere P pad a ∧ Everywhere P (widthsBehind pad a) b := by
  induction a generalizing pad with
  | nil => simp [widthsBehind]
  | cons s a ih =>
    rw [List.cons_append, everywhere_cons, everywhere_cons, ih, and_assoc]
    rfl

theorem everywhere_const_iff {Q : Segment → Prop} :
    Everywhere (fun _ s => Q s) pad a ↔ ∀ s ∈ a, Q s := by
  induction a generalizing pad with
  | nil => simp
  | cons s a ih => rw [everywhere_cons, ih, List.forall_mem_cons]

theorem Everywhere.imp (h : Everywhere P pad a) (hPQ : ∀ pad s, P pad s → Q pad s) :
    Everywhere Q pad a :=
  fun p hp => hPQ p.1 p.2 (h p hp)

theorem Segment.widthsBehind_of_not_isBoundary {s : Segment} (h : s.isBoundary = false) :
    s.widthsBehind pad = pad := by
  cases s <;> first | rfl | cases h

theorem widthsBehind_of_no_boundary (h : ∀ s ∈ a, s.isBoundary = false) :
    widthsBehind pad a = pad := by
  induction a with
  | nil => rfl
  | cons s a ih =>
    rw [List.forall_mem_cons] at h
    rw [widthsBehind, List.foldl_cons, Segment.widthsBehind_of_not_isBoundary h.1]
    exact ih h.2

theorem isBoundary_of_mem_map_transfer {run : List Transfer} :
    ∀ s ∈ run.map Segment.transfer, s.isBoundary = false := by
  simp [Segment.isBoundary]

theorem everywhere_iff_of_no_boundary (h : ∀ s ∈ a, s.isBoundary = false) :
    Everywhere P pad a ↔ ∀ s ∈ a, P pad s := by
  induction a with
  | nil => simp
  | cons s a ih =>
    rw [List.forall_mem_cons] at h ⊢
    rw [everywhere_cons, Segment.widthsBehind_of_not_isBoundary h.1, ih h.2]

/-- What holds everywhere in the first stream holds everywhere in the second, and both leave the
same widths behind. -/
structure Carries (P : PadWidths → Segment → Prop) (a b : List Segment) : Prop where
  widths : ∀ pad, widthsBehind pad b = widthsBehind pad a
  holds : ∀ pad, Everywhere P pad a → Everywhere P pad b

namespace Carries

theorem refl (a : List Segment) : Carries P a a := ⟨fun _ => rfl, fun _ h => h⟩

theorem trans (hab : Carries P a b) (hbc : Carries P b c) : Carries P a c :=
  ⟨fun pad => (hbc.widths pad).trans (hab.widths pad), fun pad h => hbc.holds pad (hab.holds pad h)⟩

theorem append {a' b' : List Segment} (ha : Carries P a a') (hb : Carries P b b') :
    Carries P (a ++ b) (a' ++ b') where
  widths pad := by rw [widthsBehind_append, widthsBehind_append, ha.widths, hb.widths]
  holds pad h := by
    rw [everywhere_append] at h ⊢
    rw [ha.widths]
    exact ⟨ha.holds pad h.1, hb.holds _ h.2⟩

theorem cons (s : Segment) (h : Carries P a b) : Carries P (s :: a) (s :: b) :=
  append (refl [s]) h

theorem of_no_boundary (ha : ∀ s ∈ a, s.isBoundary = false) (hb : ∀ s ∈ b, s.isBoundary = false)
    (h : ∀ pad, (∀ s ∈ a, P pad s) → ∀ s ∈ b, P pad s) : Carries P a b where
  widths pad := by rw [widthsBehind_of_no_boundary hb, widthsBehind_of_no_boundary ha]
  holds pad := by
    rw [everywhere_iff_of_no_boundary ha, everywhere_iff_of_no_boundary hb]
    exact h pad

theorem of_perm {run run' : List Transfer} (h : run'.Perm run) :
    Carries P (run.map .transfer) (run'.map .transfer) := by
  refine of_no_boundary isBoundary_of_mem_map_transfer isBoundary_of_mem_map_transfer ?_
  intro pad hrun s hs
  exact hrun s ((h.map _).mem_iff.mp hs)

theorem of_forall₂
    (h : List.Forall₂ (fun s s' => (∀ pad, s'.widthsBehind pad = s.widthsBehind pad) ∧
      ∀ pad, P pad s → P pad s') a b) : Carries P a b := by
  induction h with
  | nil => exact refl []
  | @cons s s' a b hs _ ih =>
    have hfirst : Carries P [s] [s'] := by
      refine ⟨hs.1, fun pad hP => ?_⟩
      rw [everywhere_cons] at hP ⊢
      exact ⟨hs.2 pad hP.1, everywhere_nil⟩
    exact append hfirst ih

theorem of_eraseCount (hblock : ∀ pad count, P pad (.block count))
    (h : a.map Segment.eraseCount = b.map Segment.eraseCount) : Carries P a b := by
  refine of_forall₂ ?_
  have hpairs : List.Forall₂ (fun s s' => s.eraseCount = s'.eraseCount) a b := by
    have heq : List.Forall₂ (· = ·) (a.map Segment.eraseCount) (b.map Segment.eraseCount) :=
      h ▸ List.forall₂_refl _
    simpa only [List.forall₂_map_left_iff, List.forall₂_map_right_iff] using heq
  refine hpairs.imp fun s s' hs => ?_
  cases s' with
  | block count =>
    cases s with
    | block _ => exact ⟨fun _ => rfl, fun pad _ => hblock pad count⟩
    | transfer _ | loop _ | compute _ | sync _ | padding _ | scatter _ => cases hs
  | transfer _ | loop _ | compute _ | sync _ | padding _ | scatter _ =>
    obtain rfl := Segment.eq_of_eraseCount rfl hs
    exact ⟨fun _ => rfl, fun _ h => h⟩

theorem refreshBlocks (hblock : ∀ pad count, P pad (.block count)) (segments : List Segment) :
    Carries P segments (refreshBlocks segments) :=
  of_eraseCount hblock (map_eraseCount_refreshBlocks segments).symm

theorem mapRuns {joins : Transfer → Transfer → Bool} {f : List Transfer → List Segment}
    (hf : ∀ run, Carries P (run.map .transfer) (f run)) (segments : List Segment) :
    Carries P segments (mapRuns joins f segments) :=
  mapRuns_rel (R := fun b a => Carries P a b) refl append hf segments

theorem permuteRuns {joins : Transfer → Transfer → Bool} {f : List Transfer → List Transfer}
    (hf : ∀ run, (f run).Perm run) (segments : List Segment) :
    Carries P segments (permuteRuns joins f segments) :=
  mapRuns (fun run => of_perm (hf run)) segments

theorem absorbs {R : Transfer → Transfer → Option Transfer → Prop} {pending : Option Transfer}
    {segments kept : List Segment} (h : Absorbs R pending segments kept)
    (hjoin : ∀ {pad a b joined}, R a b (some joined) → P pad (.transfer a) → P pad (.transfer b) →
      P pad (.transfer joined)) :
    Carries P (pending.toList.map .transfer ++ segments) kept := by
  induction h with
  | nil => simpa using refl _
  | barrier _ _ ih => exact append (refl _) (cons _ (by simpa using ih))
  | first _ ih => exact ih
  | apart _ _ ih => exact cons _ ih
  | @join last t joined rest kept hj _ ih =>
    have hpair : Carries P [.transfer last, .transfer t] [.transfer joined] := by
      refine of_no_boundary ?_ ?_ ?_
      · simp [Segment.isBoundary]
      · simp [Segment.isBoundary]
      · intro pad hboth
        simp only [List.forall_mem_cons, List.not_mem_nil, false_imp_iff, implies_true,
          and_true] at hboth ⊢
        exact hjoin hj hboth.1 hboth.2
    exact (append hpair (refl rest)).trans ih

end Carries

/-! ## Passes that make no new transfers -/

theorem carries_balance (segments : List Segment) (loads : Bool) :
    Carries P segments (balance segments loads) :=
  .permuteRuns (balanceRun_perm loads) segments

theorem carries_of_balance (segments : List Segment) (loads : Bool) :
    Carries P (balance segments loads) segments :=
  mapRuns_rel (R := Carries P) .refl .append (fun run => .of_perm (balanceRun_perm loads run).symm)
    segments

section Spread

variable {share : Nat} {stores : List Transfer} {segments : List Segment}

theorem widthsBehind_dealStores (pad : PadWidths) :
    widthsBehind pad (dealStores share stores segments) = widthsBehind pad segments := by
  induction segments generalizing stores pad with
  | nil => rfl
  | cons s rest ih =>
    rw [dealStores]
    split
    · rw [List.cons_append, widthsBehind, List.foldl_cons]
      change widthsBehind _ _ = _
      rw [widthsBehind_append, widthsBehind_of_no_boundary isBoundary_of_mem_map_transfer, ih]
      rfl
    · exact ih _

theorem everywhere_dealStores (hstores : ∀ t ∈ stores, ∀ pad, P pad (.transfer t))
    (h : Everywhere P pad segments) : Everywhere P pad (dealStores share stores segments) := by
  induction segments generalizing stores pad with
  | nil => exact everywhere_nil
  | cons s rest ih =>
    rw [everywhere_cons] at h
    rw [dealStores]
    split
    · rw [List.cons_append, everywhere_cons, everywhere_append,
        widthsBehind_of_no_boundary isBoundary_of_mem_map_transfer,
        everywhere_iff_of_no_boundary isBoundary_of_mem_map_transfer]
      refine ⟨h.1, ?_, ih (fun t ht => hstores t (List.mem_of_mem_drop ht)) h.2⟩
      rw [List.forall_mem_map]
      exact fun t ht => hstores t (List.mem_of_mem_take ht) _
    · rw [everywhere_cons]
      exact ⟨h.1, ih hstores h.2⟩

/-- Spreading carries along what does not depend on the widths at a store. -/
theorem carries_spreadStores {out : List Segment} (h : spreadStores segments = .ok out)
    (hblock : ∀ pad count, P pad (.block count))
    (hstore : ∀ {t : Transfer}, t.isStore = true → ∀ {pad}, P pad (.transfer t) →
      ∀ pad, P pad (.transfer t)) : Carries P segments out := by
  obtain ⟨first, spans, spans', hspans, hspread, rfl⟩ := spreadStores_eq_ok h
  obtain ⟨rfl, hmarker⟩ := storeSpans_flatten hspans
  refine (Carries.refl first).append ?_
  clear h hspans
  induction hspread with
  | nil => exact .refl []
  | @cons span span' spans spans' hspan _ ih =>
    rw [List.forall_mem_cons] at hmarker
    refine .append ?_ (ih hmarker.2)
    obtain ⟨-, rfl⟩ | ⟨-, hcandidate⟩ := spreadSpan_cases hspan
    · exact .refl _
    obtain ⟨count, body, rfl⟩ := hmarker.1
    obtain ⟨rest, hbody, -, -, rfl⟩ := spreadSpan?_eq_some hcandidate
    set dealt := spanStores (.block count :: body) with hdealt
    refine Carries.trans (b := dealStores (spanShare (.block count :: body)) (rotateStores dealt)
      (.block count :: rest)) ⟨fun pad => ?_, fun pad hall => ?_⟩ (.refreshBlocks hblock _)
    · rw [widthsBehind_dealStores, hbody]
      change widthsBehind pad rest = widthsBehind pad (dealt.map .transfer ++ rest)
      rw [widthsBehind_append, widthsBehind_of_no_boundary isBoundary_of_mem_map_transfer]
    · rw [hbody, everywhere_cons, everywhere_append,
        widthsBehind_of_no_boundary isBoundary_of_mem_map_transfer,
        everywhere_iff_of_no_boundary isBoundary_of_mem_map_transfer, List.forall_mem_map] at hall
      refine everywhere_dealStores (fun t ht => ?_) (everywhere_cons.mpr ⟨hall.1, hall.2.2⟩)
      have ht' : t ∈ dealt := (rotateStores_perm dealt).mem_iff.mp ht
      exact hstore (isStore_of_mem_spanStores _ t ht') (hall.2.1 t ht')

end Spread

section Roll

variable {segments out : List Segment} {minLen : Nat}

theorem TransferLoop.base_mem_expand {l : TransferLoop} (h : l.expand ≠ []) : l.base ∈ l.expand := by
  obtain ⟨t, ht⟩ := List.exists_mem_of_ne_nil _ h
  obtain ⟨cluster, unit, inner, -, hcount, -⟩ := mem_expand_iff.mp ht
  refine mem_expand_iff.mpr ⟨0, 0, 0, ⟨Nat.zero_le _, Nat.zero_le _, Nat.zero_le _⟩, ?_, ?_⟩
  · have hzero : l.number 0 0 0 = 0 := by simp [number]
    omega
  · simp [transferAt, number]

theorem isBoundary_of_mem_rollRun {run : List Transfer} :
    ∀ s ∈ rollRun minLen run, s.isBoundary = false := by
  intro s hs
  have hrolled := isRolled_of_mem_rollRun hs
  cases s with
  | transfer _ | loop _ | compute _ | block _ => rfl
  | sync _ | padding _ | scatter _ => exact hrolled.elim

theorem mem_run_of_mem_rollRun {run : List Transfer} {s : Segment} (hs : s ∈ rollRun minLen run)
    {t : Transfer} (ht : t ∈ s.transfers) : t ∈ run := by
  have hunroll := congrArg issued (unroll_rollRun minLen run)
  rw [issued_unroll] at hunroll
  have hmem : t ∈ issued (rollRun minLen run) := List.mem_flatMap.mpr ⟨s, hs, ht⟩
  rw [hunroll] at hmem
  simpa [issued, Segment.transfers] using hmem

theorem carries_rollLoops (h : rollLoops segments minLen = .ok out)
    (hblock : ∀ pad count, P pad (.block count))
    (hloop : ∀ {pad l}, P pad (.transfer l.base) → P pad (.loop l)) : Carries P segments out := by
  rw [rollLoops_eq_ok h]
  refine (Carries.mapRuns (fun run => ?_) segments).trans (.refreshBlocks hblock _)
  refine .of_no_boundary isBoundary_of_mem_map_transfer isBoundary_of_mem_rollRun ?_
  intro pad hrun s hs
  have hplain : ∀ t ∈ s.transfers, P pad (.transfer t) :=
    fun t ht => hrun _ (List.mem_map_of_mem (mem_run_of_mem_rollRun hs ht))
  have hrolled := isRolled_of_mem_rollRun hs
  cases s with
  | transfer t => exact hplain t (List.mem_singleton_self t)
  | loop l =>
    have hlen : l.expand ≠ [] := List.length_pos_iff.mp (by have := hrolled.1; omega)
    exact hloop (hplain _ (TransferLoop.base_mem_expand hlen))
  | compute _ | block _ | sync _ | padding _ | scatter _ => exact hrolled.elim

theorem carries_of_rollLoops (h : rollLoops segments minLen = .ok out)
    (hblock : ∀ pad count, P pad (.block count))
    (hexpand : ∀ {pad l t}, t ∈ l.expand → P pad (.loop l) → P pad (.transfer t)) :
    Carries P out segments := by
  rw [rollLoops_eq_ok h]
  refine (Carries.of_eraseCount hblock (map_eraseCount_refreshBlocks _)).trans ?_
  refine mapRuns_rel (R := Carries P) .refl .append (fun run => ?_) segments
  refine .of_no_boundary isBoundary_of_mem_rollRun isBoundary_of_mem_map_transfer ?_
  intro pad hrolled s hs
  have hmem : s ∈ unroll (rollRun (max minLen 2) run) := by rwa [unroll_rollRun]
  obtain ⟨x, hx, hsx⟩ := List.mem_flatMap.mp hmem
  cases x with
  | loop l =>
    obtain ⟨t, ht, rfl⟩ := List.mem_map.mp hsx
    exact hexpand ht (hrolled _ hx)
  | transfer _ | compute _ | block _ | sync _ | padding _ | scatter _ =>
    obtain rfl := List.mem_singleton.mp hsx
    exact hrolled _ hx

end Roll

end CommandStream
