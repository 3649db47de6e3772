import CommandStream.Proofs.Outcomes
import CommandStream.Proofs.Reordering
import CommandStream.Proofs.StreamMeaning

/-! # Spreading stores

A span whose stores are spread keeps its other segments in order; its stores, in rotated order, are
dealt out behind its markers, an equal share to each.
-/

namespace CommandStream

theorem append_eq_append_cons {α : Type} {a b p q : List α} {x : α} (h : a ++ b = p ++ x :: q) :
    (∃ r, p = a ++ r ∧ b = r ++ x :: q) ∨ ∃ r, a = p ++ x :: r ∧ q = r ++ b := by
  obtain ⟨r, hp, hb⟩ | ⟨r, ha, hq⟩ := List.append_eq_append_iff.mp h
  · exact .inl ⟨r, hp, hb⟩
  · cases r with
    | nil => exact .inl ⟨[], by simpa using ha.symm, by simpa using hq.symm⟩
    | cons y r =>
      obtain ⟨rfl, htail⟩ := List.cons.inj hq
      exact .inr ⟨r, ha, htail⟩

/-! ## Spans -/

def spanStores (span : List Segment) : List Transfer :=
  (span.filter Segment.isStore).filterMap Segment.transfer?

def spanShare (span : List Segment) : Nat :=
  let blocks := max ((span.filter (!·.isStore)).countP Segment.isBlock) 1
  ((spanStores span).length + blocks - 1) / blocks

theorem storeSpans_flatten {index : Nat} {segments first : List Segment}
    {spans : List (List Segment)} (h : storeSpans index segments = .ok (first, spans)) :
    first ++ spans.flatten = segments ∧
      ∀ span ∈ spans, ∃ count rest, span = .block count :: rest := by
  induction segments generalizing index first spans with
  | nil =>
    obtain ⟨rfl, rfl⟩ := Prod.mk.inj (Except.ok.inj h)
    simp
  | cons s rest ih =>
    cases s with
    | block count =>
      rw [storeSpans] at h
      obtain ⟨body, -, h⟩ := bind_eq_ok_iff.mp h
      obtain ⟨⟨first', spans'⟩, h', h⟩ := bind_eq_ok_iff.mp h
      obtain ⟨hflat, hblock⟩ := ih h'
      dsimp only at h
      split at h
      · obtain ⟨rfl, rfl⟩ := Prod.mk.inj (pure_eq_ok_iff.mp h)
        refine ⟨by simpa using hflat, ?_⟩
        rw [List.forall_mem_cons]
        exact ⟨⟨count, first', rfl⟩, hblock⟩
      · obtain ⟨rfl, rfl⟩ := Prod.mk.inj (pure_eq_ok_iff.mp h)
        exact ⟨by simpa using hflat, hblock⟩
    | transfer _ | loop _ | compute _ | sync _ | padding _ | scatter _ =>
      rw [storeSpans] at h
      · obtain ⟨⟨first', spans'⟩, h', h⟩ := bind_eq_ok_iff.mp h
        obtain ⟨hflat, hblock⟩ := ih h'
        obtain ⟨rfl, rfl⟩ := Prod.mk.inj (pure_eq_ok_iff.mp h)
        exact ⟨by simpa using hflat, hblock⟩
      · simp

/-- Looking for spans checks every marker, and nothing else in it can fail. -/
theorem checkBlocksFrom_eq_map_storeSpans (index : Nat) (segments : List Segment) :
    checkBlocksFrom index segments = (fun _ => ()) <$> storeSpans index segments := by
  induction segments generalizing index with
  | nil => rfl
  | cons s rest ih =>
    cases s with
    | block count =>
      rw [checkBlocksFrom, storeSpans, ih]
      cases blockBody index count rest with
      | error _ => rfl
      | ok body =>
        cases storeSpans (index + 1) rest with
        | error _ => rfl
        | ok parts =>
          rw [ok_bind, ok_bind]
          dsimp only
          split <;> rfl
    | transfer _ | loop _ | compute _ | sync _ | padding _ | scatter _ =>
      rw [checkBlocksFrom, storeSpans, ih]
      · cases storeSpans (index + 1) rest <;> rfl
      all_goals simp

theorem spreadStores_eq_ok {segments out : List Segment} (h : spreadStores segments = .ok out) :
    ∃ first spans spans', storeSpans 0 segments = .ok (first, spans) ∧
      List.Forall₂ (fun span span' => spreadSpan span = .ok span') spans spans' ∧
      out = first ++ spans'.flatten := by
  unfold spreadStores at h
  simp only [bind_eq_ok_iff, liftM_checked_eq_ok_iff, liftM_fault_eq_ok_iff] at h
  obtain ⟨⟨first, spans⟩, hs, spans', hm, h⟩ := h
  exact ⟨first, spans, spans', hs, mapM_eq_ok_iff.mp hm, (pure_eq_ok_iff.mp h).symm⟩

theorem spreadStores_of_spans {segments first : List Segment} {spans spans' : List (List Segment)}
    (hparts : storeSpans 0 segments = .ok (first, spans))
    (hspans' : spans.mapM spreadSpan = .ok spans') :
    spreadStores segments = .ok (first ++ spans'.flatten) :=
  bind_eq_ok_iff.mpr ⟨_, liftM_fault_eq_ok_iff.mpr hparts,
    bind_eq_ok_iff.mpr ⟨_, liftM_checked_eq_ok_iff.mpr hspans', rfl⟩⟩

def spreads (span : List Segment) : Bool :=
  match spreadSpan? span with
  | none => false
  | some candidate =>
    match acceptsSpread span candidate with
    | .ok accepted => accepted
    | .error _ => false

theorem spreadSpan_cases {span span' : List Segment} (h : spreadSpan span = .ok span') :
    (spreads span = false ∧ span' = span) ∨
      (spreads span = true ∧ spreadSpan? span = some span') := by
  unfold spreadSpan at h
  unfold spreads
  cases hc : spreadSpan? span with
  | none =>
    rw [hc] at h
    exact .inl ⟨rfl, (pure_eq_ok_iff.mp h).symm⟩
  | some candidate =>
    rw [hc] at h
    obtain ⟨accepted, ha, h⟩ := bind_eq_ok_iff.mp h
    have hout := pure_eq_ok_iff.mp h
    simp only [ha]
    cases accepted with
    | true => exact .inr ⟨rfl, congrArg some hout⟩
    | false => exact .inl ⟨rfl, hout.symm⟩

/-! ## Dealing -/

section Deal

variable {share : Nat}

theorem dealStores_append (stores : List Transfer) (a b : List Segment) :
    dealStores share stores (a ++ b) = dealStores share stores a ++
      dealStores share (stores.drop (share * a.countP Segment.isBlock)) b := by
  induction a generalizing stores with
  | nil => simp [dealStores]
  | cons s a ih =>
    cases hs : s.isBlock with
    | true => simp [dealStores, hs, ih, Nat.mul_add, Nat.add_comm]
    | false => simp [dealStores, hs, ih]

theorem dealStores_append_cons {x : Segment} (hx : x.isBlock = false) (stores : List Transfer)
    (a b : List Segment) :
    dealStores share stores (a ++ x :: b) = dealStores share stores a ++
      x :: dealStores share (stores.drop (share * a.countP Segment.isBlock)) b := by
  rw [dealStores_append]
  simp [dealStores, hx]

variable {stores : List Transfer} {segments : List Segment}

theorem isStore_of_mem_map (h : ∀ t ∈ stores, t.isStore = true) :
    ∀ s ∈ stores.map Segment.transfer, s.isStore = true :=
  List.forall_mem_map.mpr h

theorem filter_not_isStore_dealStores (h : ∀ t ∈ stores, t.isStore = true) :
    (dealStores share stores segments).filter (!·.isStore) = segments.filter (!·.isStore) := by
  induction segments generalizing stores with
  | nil => rfl
  | cons s rest ih =>
    have htake : ((stores.take share).map Segment.transfer).filter (!·.isStore) = [] :=
      List.filter_eq_nil_iff.mpr fun s hs => by
        simp [isStore_of_mem_map (fun t ht => h t (List.mem_of_mem_take ht)) s hs]
    have hrest := ih fun t (ht : t ∈ stores.drop share) => h t (List.mem_of_mem_drop ht)
    cases hs : s.isBlock with
    | true => simp [dealStores, hs, List.filter_cons, htake, hrest, -List.map_take]
    | false => simp [dealStores, hs, List.filter_cons, ih h]

theorem filter_isStore_dealStores (h : ∀ t ∈ stores, t.isStore = true)
    (hs : ∀ s ∈ segments, s.isStore = false) :
    (dealStores share stores segments).filter Segment.isStore =
      (stores.take (share * segments.countP Segment.isBlock)).map .transfer := by
  induction segments generalizing stores with
  | nil => simp [dealStores]
  | cons s rest ih =>
    rw [List.forall_mem_cons] at hs
    have htake : ((stores.take share).map Segment.transfer).filter Segment.isStore =
        (stores.take share).map .transfer :=
      List.filter_eq_self.mpr (isStore_of_mem_map fun t ht => h t (List.mem_of_mem_take ht))
    have hrest := ih (fun t (ht : t ∈ stores.drop share) => h t (List.mem_of_mem_drop ht)) hs.2
    cases hb : s.isBlock with
    | true =>
      simp [dealStores, hb, hs.1, htake, hrest, Nat.mul_add, Nat.add_comm _ share, List.take_add,
        -List.map_take]
    | false => simp [dealStores, hb, hs.1, ih h hs.2]

end Deal

theorem length_spanStores_le (span : List Segment) :
    (spanStores span).length ≤
      spanShare span * max ((span.filter (!·.isStore)).countP Segment.isBlock) 1 := by
  have hpos : 0 < max ((span.filter (!·.isStore)).countP Segment.isBlock) 1 := by omega
  have hdiv := Nat.lt_div_mul_add hpos
    (a := (spanStores span).length + max ((span.filter (!·.isStore)).countP Segment.isBlock) 1 - 1)
  unfold spanShare
  dsimp only
  omega

/-! ## Streams up to their stores -/

def Segment.eraseCount : Segment → Segment
  | .block _ => .block 0
  | s => s

@[simp] theorem Segment.isStore_eraseCount (s : Segment) : s.eraseCount.isStore = s.isStore := by
  cases s <;> rfl

theorem Segment.eraseCount_of_isStore {s : Segment} (h : s.isStore = true) :
    s.eraseCount = s := by
  cases s <;> first | rfl | cases h

theorem Segment.eq_of_eraseCount {s x : Segment} (hx : x.isBlock = false)
    (h : s.eraseCount = x.eraseCount) : s = x := by
  cases x with
  | block _ => cases hx
  | transfer _ | loop _ | compute _ | sync _ | padding _ | scatter _ =>
    cases s <;> first | exact h | cases h

theorem map_eraseCount_refreshBlocks (segments : List Segment) :
    (refreshBlocks segments).map Segment.eraseCount = segments.map Segment.eraseCount := by
  fun_induction refreshBlocks with
  | case1 => rfl
  | case2 count rest ih => simp [Segment.eraseCount, ih]
  | case3 s rest _ ih => simp [ih]

theorem refreshBlocks_append_cons {x : Segment} (hx : x.isBlock = false) (a b : List Segment) :
    ∃ a' b', refreshBlocks (a ++ x :: b) = a' ++ x :: b' ∧
      a.map Segment.eraseCount = a'.map Segment.eraseCount := by
  have h := map_eraseCount_refreshBlocks (a ++ x :: b)
  rw [List.map_append, List.map_cons] at h
  obtain ⟨a', l, hl, ha, htail⟩ := List.map_eq_append_iff.mp h
  obtain ⟨y, b', rfl, hy, -⟩ := List.map_eq_cons_iff.mp htail
  obtain rfl := Segment.eq_of_eraseCount hx hy
  exact ⟨a', b', hl, ha.symm⟩

theorem filter_isStore_eq_of_eraseCount {a b : List Segment}
    (h : a.map Segment.eraseCount = b.map Segment.eraseCount) :
    a.filter Segment.isStore = b.filter Segment.isStore := by
  have herase : ∀ c : List Segment,
      (c.map Segment.eraseCount).filter Segment.isStore = c.filter Segment.isStore := by
    intro c
    induction c with
    | nil => rfl
    | cons s c ih =>
      cases hs : s.isStore with
      | true => simp [hs, ih, Segment.eraseCount_of_isStore hs]
      | false => simp [hs, ih]
  rw [← herase, h, herase]

/-- The second stream is the first with the stores `late` taken out, up to the order of the stores
among themselves, their places and the counts of markers. -/
structure HeldBack (late : List Transfer) (a b : List Segment) : Prop where
  stores : (a.filter Segment.isStore).Perm (b.filter Segment.isStore ++ late.map .transfer)
  others : (a.filter (!·.isStore)).map Segment.eraseCount =
    (b.filter (!·.isStore)).map Segment.eraseCount

namespace HeldBack

theorem refl (a : List Segment) : HeldBack [] a a := ⟨by simp, rfl⟩

theorem append {late : List Transfer} {a a' b b' : List Segment} (ha : HeldBack [] a a')
    (hb : HeldBack late b b') : HeldBack late (a ++ b) (a' ++ b') where
  stores := by
    have hs : (a.filter Segment.isStore).Perm (a'.filter Segment.isStore) := by
      simpa using ha.stores
    simpa [List.append_assoc] using hs.append hb.stores
  others := by simp [ha.others, hb.others]

theorem eraseCount_right {late : List Transfer} {a b b' : List Segment} (h : HeldBack late a b)
    (hb : b.map Segment.eraseCount = b'.map Segment.eraseCount) : HeldBack late a b' where
  stores := filter_isStore_eq_of_eraseCount hb ▸ h.stores
  others := by
    have hfilter : ∀ c : List Segment, (c.filter (!·.isStore)).map Segment.eraseCount =
        (c.map Segment.eraseCount).filter (!·.isStore) := by
      simp [List.filter_map, Function.comp_def]
    rw [h.others, hfilter, hfilter, hb]

theorem map_eraseCount_perm {a b : List Segment} (h : HeldBack [] a b) :
    (a.map Segment.eraseCount).Perm (b.map Segment.eraseCount) := by
  have hsplit : ∀ c : List Segment, (c.map Segment.eraseCount).Perm
      ((c.filter Segment.isStore).map Segment.eraseCount ++
        (c.filter (!·.isStore)).map Segment.eraseCount) := by
    intro c
    rw [← List.map_append]
    exact (List.filter_append_perm Segment.isStore c).symm.map _
  have hstores : (a.filter Segment.isStore).Perm (b.filter Segment.isStore) := by
    simpa using h.stores
  refine (hsplit a).trans (.trans ?_ (hsplit b).symm)
  rw [h.others]
  exact (hstores.map _).append_right _

end HeldBack

/-! ## One span -/

theorem isStore_of_mem_spanStores (span : List Segment) :
    ∀ t ∈ spanStores span, t.isStore = true := by
  intro t ht
  obtain ⟨s, hs, hst⟩ := List.mem_filterMap.mp ht
  rw [Segment.transfer?_eq_some_iff] at hst
  subst hst
  exact (List.mem_filter.mp hs).2

theorem map_spanStores {span : List Segment} (h : span.any Segment.isLoop = false) :
    (spanStores span).map .transfer = span.filter Segment.isStore := by
  induction span with
  | nil => rfl
  | cons s span ih =>
    simp only [List.any_cons, Bool.or_eq_false_iff] at h
    have hrest := ih h.2
    unfold spanStores at hrest ⊢
    cases hs : s.isStore with
    | false => simpa [hs] using hrest
    | true =>
      cases s with
      | transfer t => simpa [hs, Segment.transfer?] using hrest
      | loop l => cases h.1
      | compute _ | block _ | sync _ | padding _ | scatter _ => cases hs

theorem filter_eq_takeWhile {α : Type} {p : α → Bool} {xs : List α}
    (h : (xs.takeWhile p).length = (xs.filter p).length) :
    xs.filter p = xs.takeWhile p ∧ xs.filter (!p ·) = xs.dropWhile p := by
  have hsplit := List.takeWhile_append_dropWhile (p := p) (l := xs)
  have htake : ∀ x ∈ xs.takeWhile p, p x = true := fun x hx => List.mem_takeWhile_imp hx
  have hfilter : xs.filter p = xs.takeWhile p ++ (xs.dropWhile p).filter p := by
    conv_lhs => rw [← hsplit, List.filter_append, List.filter_eq_self.mpr htake]
  have hrest : (xs.dropWhile p).filter p = [] := by
    rw [hfilter, List.length_append] at h
    exact List.length_eq_zero_iff.mp (by omega)
  refine ⟨by rw [hfilter, hrest, List.append_nil], ?_⟩
  conv_lhs => rw [← hsplit, List.filter_append]
  rw [List.filter_eq_nil_iff.mpr, List.filter_eq_self.mpr, List.nil_append]
  · simpa using List.filter_eq_nil_iff.mp hrest
  · simpa using htake

/-- A span whose stores are dealt out has them all right behind its marker. -/
theorem spreadSpan?_eq_some {count : UInt32} {body candidate : List Segment}
    (h : spreadSpan? (.block count :: body) = some candidate) :
    ∃ rest, body = (spanStores (.block count :: body)).map .transfer ++ rest ∧
      (∀ s ∈ rest, s.isStore = false) ∧
      (spanStores (.block count :: body)).length ≤
        spanShare (.block count :: body) * (Segment.block count :: rest).countP Segment.isBlock ∧
      candidate = refreshBlocks (dealStores (spanShare (.block count :: body))
        (rotateStores (spanStores (.block count :: body))) (.block count :: rest)) := by
  unfold spreadSpan? at h
  dsimp only at h
  split at h
  · cases h
  · rename_i hcond
    simp only [Bool.or_eq_true, not_or, Bool.not_eq_true, bne_eq_false_iff_eq] at hcond
    obtain ⟨hloop, hlead⟩ := hcond
    have hmap : (spanStores (.block count :: body)).map .transfer = body.filter Segment.isStore :=
      map_spanStores hloop
    have hlength : (body.takeWhile Segment.isStore).length =
        (body.filter Segment.isStore).length := by
      rw [← hmap, List.length_map]
      exact hlead
    obtain ⟨hstores, hothers⟩ := filter_eq_takeWhile hlength
    have hhead : (Segment.block count :: body).filter (!·.isStore) =
        .block count :: body.dropWhile Segment.isStore := by
      rw [List.filter_cons_of_pos rfl, hothers]
    refine ⟨body.dropWhile Segment.isStore, ?_, ?_, ?_, ?_⟩
    · rw [hmap, hstores, List.takeWhile_append_dropWhile]
    · intro s hs
      rw [← hothers] at hs
      simpa using (List.mem_filter.mp hs).2
    · have hle := length_spanStores_le (.block count :: body)
      rwa [hhead, max_eq_left (by simp [Segment.isBlock])] at hle
    · rw [← hhead]
      exact (Option.some.inj h).symm

theorem countP_isBlock_leading (count : UInt32) (stores : List Transfer) (rest : List Segment) :
    (Segment.block count :: (stores.map .transfer ++ rest)).countP Segment.isBlock =
      (Segment.block count :: rest).countP Segment.isBlock := by
  have hnone : (stores.map Segment.transfer).countP Segment.isBlock = 0 := by
    simp [List.countP_eq_zero, Segment.isBlock]
  simp [List.countP_cons, hnone]

theorem isStore_of_mem_rotateStores {stores : List Transfer}
    (h : ∀ t ∈ stores, t.isStore = true) : ∀ t ∈ rotateStores stores, t.isStore = true :=
  fun t ht => h t ((rotateStores_perm stores).mem_iff.mp ht)

/-- Behind the marker and the segments `p`, the stores of later blocks are still to come. -/
theorem heldBack_dealStores (share : Nat) {stores : List Transfer} {s : Segment}
    {p : List Segment} (hstores : ∀ t ∈ stores, t.isStore = true)
    (hp : ∀ x ∈ s :: p, x.isStore = false) :
    HeldBack ((rotateStores stores).drop (share * (s :: p).countP Segment.isBlock))
      (s :: (stores.map .transfer ++ p)) (dealStores share (rotateStores stores) (s :: p)) := by
  have hrotated := isStore_of_mem_rotateStores hstores
  have hmap := isStore_of_mem_map hstores
  constructor
  · have hleft : (s :: (stores.map Segment.transfer ++ p)).filter Segment.isStore =
        stores.map .transfer := by
      rw [List.forall_mem_cons] at hp
      rw [List.filter_cons_of_neg (by simp [hp.1]), List.filter_append,
        List.filter_eq_self.mpr hmap, List.filter_eq_nil_iff.mpr (by simpa using hp.2),
        List.append_nil]
    rw [hleft, filter_isStore_dealStores hrotated hp, ← List.map_append, List.take_append_drop]
    exact ((rotateStores_perm stores).map _).symm
  · rw [filter_not_isStore_dealStores hrotated]
    congr 1
    have hnil : (stores.map Segment.transfer).filter (!·.isStore) = [] :=
      List.filter_eq_nil_iff.mpr fun x hx => by simp [hmap x hx]
    simp [List.filter_cons, hnil]

theorem heldBack_spreadSpan? {count : UInt32} {body candidate : List Segment}
    (h : spreadSpan? (.block count :: body) = some candidate) :
    HeldBack [] (.block count :: body) candidate := by
  obtain ⟨rest, hbody, hrest, hall, rfl⟩ := spreadSpan?_eq_some h
  have hp : ∀ x ∈ Segment.block count :: rest, x.isStore = false :=
    List.forall_mem_cons.mpr ⟨rfl, hrest⟩
  have hdeal := heldBack_dealStores (spanShare (.block count :: body))
    (isStore_of_mem_spanStores (.block count :: body)) hp
  rw [List.drop_eq_nil_of_le (by rwa [(rotateStores_perm _).length_eq]), ← hbody] at hdeal
  exact hdeal.eraseCount_right (map_eraseCount_refreshBlocks _).symm

/-- The same up to a segment `x` within the span: what is held back there is what the blocks that
have begun leave over. -/
theorem spreadSpan?_append_cons {span candidate p q : List Segment} {x : Segment}
    (h : spreadSpan? span = some candidate) (hspan : ∃ count body, span = .block count :: body)
    (hx : x.isStore = false) (hb : x.isBlock = false) (hsplit : span = p ++ x :: q) :
    ∃ p' q', candidate = p' ++ x :: q' ∧ HeldBack
      ((rotateStores (spanStores span)).drop (spanShare span * p.countP Segment.isBlock)) p p' := by
  obtain ⟨count, body, rfl⟩ := hspan
  obtain ⟨rest, hbody, hrest, -, rfl⟩ := spreadSpan?_eq_some h
  set stores := spanStores (.block count :: body)
  obtain ⟨p, rfl⟩ : ∃ r, p = .block count :: r := by
    cases p with
    | nil => cases (List.cons.inj hsplit).1; cases hb
    | cons y r => exact ⟨r, by rw [(List.cons.inj hsplit).1]⟩
  have htail : stores.map .transfer ++ rest = p ++ x :: q := by
    rw [← hbody]; exact (List.cons.inj hsplit).2
  obtain ⟨r, rfl, hr⟩ : ∃ r, p = stores.map .transfer ++ r ∧ rest = r ++ x :: q := by
    obtain hafter | ⟨r, hstores, -⟩ := append_eq_append_cons htail
    · exact hafter
    · have hmem : x ∈ stores.map Segment.transfer := by rw [hstores]; simp
      rw [isStore_of_mem_map (isStore_of_mem_spanStores _) x hmem] at hx
      cases hx
  rw [hr, ← List.cons_append, dealStores_append_cons hb, countP_isBlock_leading]
  obtain ⟨p', q', hout, hp'⟩ := refreshBlocks_append_cons hb
    (dealStores (spanShare (.block count :: body)) (rotateStores stores) (.block count :: r)) _
  refine ⟨p', q', hout, ?_⟩
  refine (heldBack_dealStores _ (isStore_of_mem_spanStores _) ?_).eraseCount_right hp'
  refine List.forall_mem_cons.mpr ⟨rfl, fun y hy => hrest y ?_⟩
  rw [hr]; exact List.mem_append_left _ hy

/-! ## The whole stream -/

def overtakenIn : List (List Segment) → Nat → List Transfer
  | [], _ => []
  | span :: more, i =>
    if i < span.length then
      if spreads span then
        (rotateStores (spanStores span)).drop
          (spanShare span * (span.take i).countP Segment.isBlock)
      else []
    else overtakenIn more (i - span.length)

/-- The stores that fall behind the segment at place `i` of the stream: those of its span, if they
are dealt out, that the blocks begun so far leave over. -/
def overtaken (segments : List Segment) (i : Nat) : List Transfer :=
  match storeSpans 0 segments with
  | .error _ => []
  | .ok (first, spans) => if i < first.length then [] else overtakenIn spans (i - first.length)

theorem heldBack_spreadSpan {span span' : List Segment} (h : spreadSpan span = .ok span')
    (hspan : ∃ count body, span = .block count :: body) : HeldBack [] span span' := by
  obtain ⟨-, rfl⟩ | ⟨-, hs⟩ := spreadSpan_cases h
  · exact .refl _
  · obtain ⟨count, body, rfl⟩ := hspan
    exact heldBack_spreadSpan? hs

theorem spans_append_cons {spans spans' : List (List Segment)} {x : Segment}
    (h : List.Forall₂ (fun span span' => spreadSpan span = .ok span') spans spans')
    (hspans : ∀ span ∈ spans, ∃ count body, span = .block count :: body)
    (hx : x.isStore = false) (hb : x.isBlock = false) {p q : List Segment}
    (hsplit : spans.flatten = p ++ x :: q) :
    ∃ p' q', spans'.flatten = p' ++ x :: q' ∧ HeldBack (overtakenIn spans p.length) p p' := by
  induction h generalizing p with
  | nil => simp at hsplit
  | @cons span span' spans spans' hspan _ ih =>
    rw [List.forall_mem_cons] at hspans
    rw [List.flatten_cons] at hsplit
    obtain ⟨r, rfl, hr⟩ | ⟨r, hr, -⟩ := append_eq_append_cons hsplit
    · obtain ⟨p', q', hout, hheld⟩ := ih hspans.2 hr
      refine ⟨span' ++ p', q', by simp [hout], ?_⟩
      have hover : overtakenIn (span :: spans) (span ++ r).length = overtakenIn spans r.length := by
        simp [overtakenIn]
      rw [hover]
      exact (heldBack_spreadSpan hspan hspans.1).append hheld
    · have hin : p.length < span.length := by simp [hr]
      have htake : span.take p.length = p := by simp [hr]
      rw [overtakenIn, if_pos hin, htake]
      obtain ⟨hs, rfl⟩ | ⟨hs, hcandidate⟩ := spreadSpan_cases hspan
      · rw [if_neg (by simp [hs])]
        exact ⟨p, r ++ spans'.flatten, by simp [hr], .refl p⟩
      · rw [if_pos hs]
        obtain ⟨p', q', rfl, hheld⟩ := spreadSpan?_append_cons hcandidate hspans.1 hx hb hr
        exact ⟨p', q' ++ spans'.flatten, by simp, hheld⟩

theorem heldBack_spreadStores {segments out : List Segment} (h : spreadStores segments = .ok out) :
    HeldBack [] segments out := by
  obtain ⟨first, spans, spans', hspans, hspread, rfl⟩ := spreadStores_eq_ok h
  obtain ⟨rfl, hblock⟩ := storeSpans_flatten hspans
  refine (HeldBack.refl first).append ?_
  clear h hspans
  induction hspread with
  | nil => exact .refl []
  | cons hspan _ ih =>
    rw [List.forall_mem_cons] at hblock
    exact (heldBack_spreadSpan hspan hblock.1).append (ih hblock.2)

/-- Every load, compute command and boundary keeps its place among the others, and the stores that
were in front of it stay there but for those that `overtaken` lists, which fall behind it. -/
theorem spreadStores_holds_back {segments out p q : List Segment} {x : Segment}
    (h : spreadStores segments = .ok out) (hsplit : segments = p ++ x :: q)
    (hx : x.isStore = false) (hb : x.isBlock = false) :
    ∃ p' q', out = p' ++ x :: q' ∧ HeldBack (overtaken segments p.length) p p' := by
  obtain ⟨first, spans, spans', hspans, hspread, rfl⟩ := spreadStores_eq_ok h
  obtain ⟨hflat, hblock⟩ := storeSpans_flatten hspans
  unfold overtaken
  rw [hspans]
  dsimp only
  obtain ⟨r, rfl, hr⟩ | ⟨r, rfl, -⟩ := append_eq_append_cons (hflat.trans hsplit)
  · obtain ⟨p', q', hout, hheld⟩ := spans_append_cons hspread hblock hx hb hr
    refine ⟨first ++ p', q', by simp [hout], ?_⟩
    rw [if_neg (by simp), List.length_append, Nat.add_sub_cancel_left]
    exact (HeldBack.refl first).append hheld
  · rw [if_pos (by simp)]
    exact ⟨p, r ++ spans'.flatten, by simp, .refl p⟩

/-! ## Stores and the loads behind them -/

theorem HeldBack.count {late : List Transfer} {a b : List Segment} (h : HeldBack late a b)
    {s : Transfer} (hs : s.isStore = true) :
    a.count (.transfer s) = b.count (.transfer s) + late.count s := by
  have hstore : (Segment.transfer s).isStore = true := hs
  have hcount := h.stores.count_eq (.transfer s)
  rwa [List.count_append, List.count_filter hstore, List.count_filter hstore,
    List.count_map_of_injective _ _ (fun _ _ h => Segment.transfer.inj h)] at hcount

/-- A load, or whatever else is not a store, keeps its place among the other segments, and a store
in front of it stays in front unless it is overtaken. What is overtaken is behind it then. -/
theorem spreadStores_keeps_store_ahead {segments out p q : List Segment} {x : Segment}
    (h : spreadStores segments = .ok out) (hsplit : segments = p ++ x :: q)
    (hx : x.isStore = false) (hb : x.isBlock = false) :
    ∃ p' q', out = p' ++ x :: q' ∧
      (p.filter (!·.isStore)).map Segment.eraseCount =
        (p'.filter (!·.isStore)).map Segment.eraseCount ∧
      ∀ s : Transfer, s.isStore = true →
        (.transfer s ∈ p → s ∉ overtaken segments p.length → .transfer s ∈ p') ∧
        p.count (.transfer s) =
          p'.count (.transfer s) + (overtaken segments p.length).count s ∧
        q'.count (.transfer s) =
          q.count (.transfer s) + (overtaken segments p.length).count s := by
  obtain ⟨p', q', hout, hheld⟩ := spreadStores_holds_back h hsplit hx hb
  refine ⟨p', q', hout, hheld.others, fun s hs => ?_⟩
  have hfront := hheld.count hs
  refine ⟨fun hp hlate => ?_, hfront, ?_⟩
  · rw [List.count_eq_zero.mpr hlate, Nat.add_zero] at hfront
    exact List.count_pos_iff.mp (hfront ▸ List.count_pos_iff.mpr hp)
  · have hall := (heldBack_spreadStores h).count hs
    rw [hsplit, hout] at hall
    simp only [List.count_append, List.count_cons, List.count_nil, Nat.add_zero] at hall
    omega

/-- The load writes, in some unit, words that the store reads. -/
def Transfer.overwrites (l s : Transfer) : Bool :=
  s.cluster &&& l.cluster != 0 && s.unit &&& l.unit != 0 &&
    max s.localAddr.toNat l.localAddr.toNat <
      min (s.localAddr.toNat + s.localSpan) (l.localAddr.toNat + l.localSpan)

/-- Two blocks, the first with a store of each half of a buffer and a load that fills its lower half
again. -/
def refilled : List Segment :=
  [.block 3, .transfer (.row .store1d 1 1 0x100 0 8), .transfer (.row .store1d 1 1 0x200 8 8),
    .transfer (.row .load1d 1 1 0x1000 0 8), .block 1, .transfer (.row .load1d 1 1 0x2000 16 8)]

theorem spreadStores_refilled :
    spreadStores refilled = .ok
      [.block 2, .transfer (.row .store1d 1 1 0x200 8 8), .transfer (.row .load1d 1 1 0x1000 0 8),
        .block 2, .transfer (.row .store1d 1 1 0x100 0 8),
        .transfer (.row .load1d 1 1 0x2000 16 8)] := by
  delta spreadStores spreadSpan acceptsSpread sameTransfers spreadSpan? rotateStores
  simp only [sortOn_eq_insertionSort Transfer.identityKey fun _ _ => rfl,
    sortOn_eq_insertionSort (fun t : Transfer => [t.hostAddr.toNat]) fun _ _ => rfl]
  decide +kernel

theorem overtaken_refilled : overtaken refilled 3 = [.row .store1d 1 1 0x100 0 8] := by
  have hspans : storeSpans 0 refilled = .ok ([], [refilled]) := by decide +kernel
  have hspreads : spreads refilled = true := by
    delta spreads acceptsSpread sameTransfers spreadSpan? rotateStores
    simp only [sortOn_eq_insertionSort Transfer.identityKey fun _ _ => rfl,
      sortOn_eq_insertionSort (fun t : Transfer => [t.hostAddr.toNat]) fun _ _ => rfl]
    decide +kernel
  have hrotated : rotateStores (spanStores refilled) =
      [.row .store1d 1 1 0x200 8 8, .row .store1d 1 1 0x100 0 8] := by
    delta rotateStores
    simp only [sortOn_eq_insertionSort (fun t : Transfer => [t.hostAddr.toNat]) fun _ _ => rfl]
    decide +kernel
  rw [overtaken, hspans]
  change overtakenIn [refilled] 3 = _
  rw [overtakenIn, if_pos (by decide), if_pos hspreads, hrotated]
  decide +kernel

/-- The upper half is stored first and stays in front of the load. -/
theorem spreadStores_keeps_upper_half_ahead :
    ∃ out p' q', spreadStores refilled = .ok out ∧
      out = p' ++ .transfer (.row .load1d 1 1 0x1000 0 8) :: q' ∧
      .transfer (.row .store1d 1 1 0x200 8 8) ∈ p' := by
  obtain ⟨p', q', hout, -, hstores⟩ := spreadStores_keeps_store_ahead
    (p := refilled.take 3) (q := refilled.drop 4) spreadStores_refilled rfl rfl rfl
  refine ⟨_, p', q', spreadStores_refilled, hout, (hstores _ rfl).1 (by decide) ?_⟩
  have hlate : overtaken refilled (refilled.take 3).length = _ := overtaken_refilled
  rw [hlate]
  decide

/-- The lower half is stored when the load has written over it. -/
theorem spreadStores_overtakes_load :
    ¬∀ (segments out : List Segment) (s l : Transfer), spreadStores segments = .ok out →
      s.isStore = true → l.isStore = false → l.overwrites s = true →
      [.transfer s, .transfer l].Sublist segments → [.transfer s, .transfer l].Sublist out := by
  intro h
  have hahead := h _ _ (.row .store1d 1 1 0x100 0 8) (.row .load1d 1 1 0x1000 0 8)
    spreadStores_refilled rfl rfl (by decide) (by decide)
  exact absurd hahead (by decide)

end CommandStream
