import CommandStream.Proofs.MarkerChecks
import CommandStream.Proofs.PipelineFaults

/-! # Spans and the shares of their blocks

A stream is cut in front of each of its blocks that store. Within a span the stores either stay
where they are or are dealt out evenly, and every block starts with the stores that it got. The
words of a span are counted before and after, which is all that can fail once the markers are right:
with counts that wrap around nothing can.
-/

namespace CommandStream

/-! ## Where the spans begin -/

/-- A block that stores stands at place `i` of the stream. -/
def StoresAt (segments : List Segment) (i : Nat) : Prop :=
  ∃ body, blockBodyAt segments i = .ok body ∧ body.any Segment.isStore = true

def spanStarts : Nat → List (List Segment) → List Nat
  | _, [] => []
  | start, span :: more => start :: spanStarts (start + span.length) more

theorem spanStarts_succ (start : Nat) (spans : List (List Segment)) :
    spanStarts (start + 1) spans = (spanStarts start spans).map (· + 1) := by
  induction spans generalizing start with
  | nil => rfl
  | cons span more ih =>
    rw [spanStarts, spanStarts, List.map_cons, ← ih, Nat.add_right_comm]

theorem storesAt_cons_succ (s : Segment) (rest : List Segment) (i : Nat) :
    StoresAt (s :: rest) (i + 1) ↔ StoresAt rest i := by
  unfold StoresAt blockBodyAt
  rw [List.drop_succ_cons]
  cases rest.drop i with
  | nil => rfl
  | cons x tail =>
    cases x with
    | block count => simp only [blockBody_eq_ok_iff (i := i + 1) (j := i)]
    | transfer _ | loop _ | compute _ | sync _ | padding _ | scatter _ => rfl

theorem not_storesAt_zero {s : Segment} (hs : s.isBlock = false) (rest : List Segment) :
    ¬StoresAt (s :: rest) 0 := by
  rintro ⟨body, hbody, hstore⟩
  cases s with
  | block _ => cases hs
  | transfer _ | loop _ | compute _ | sync _ | padding _ | scatter _ =>
    obtain rfl := Except.ok.inj hbody
    cases hstore

theorem storesAt_block_zero_iff {index : Nat} {count : UInt32} {rest body : List Segment}
    (h : blockBody index count rest = .ok body) :
    StoresAt (.block count :: rest) 0 ↔ body.any Segment.isStore = true := by
  constructor
  · rintro ⟨body', hbody', hstore⟩
    obtain rfl := Except.ok.inj (h.symm.trans (blockBody_eq_ok_iff.mp hbody'))
    exact hstore
  · exact fun hstore => ⟨body, blockBody_eq_ok_iff.mp h, hstore⟩

section Cons

variable {s : Segment} {rest first : List Segment} {spans : List (List Segment)}
  (h : ∀ i, StoresAt rest i ↔ i ∈ spanStarts first.length spans) (i : Nat)

include h

theorem storesAt_cons_iff (hs : ¬StoresAt (s :: rest) 0) :
    StoresAt (s :: rest) i ↔ i ∈ spanStarts (s :: first).length spans := by
  rw [List.length_cons, spanStarts_succ]
  cases i with
  | zero => simp [hs]
  | succ i => simp [storesAt_cons_succ, h]

theorem storesAt_cons_span_iff (hs : StoresAt (s :: rest) 0) :
    StoresAt (s :: rest) i ↔ i ∈ spanStarts 0 ((s :: first) :: spans) := by
  rw [spanStarts, Nat.zero_add, List.length_cons, spanStarts_succ]
  cases i with
  | zero => simp [hs]
  | succ i => simp [storesAt_cons_succ, h]

end Cons

/-- The spans begin at the blocks that store, and only there. -/
theorem storesAt_iff_mem_spanStarts {index : Nat} {segments first : List Segment}
    {spans : List (List Segment)} (h : storeSpans index segments = .ok (first, spans)) (i : Nat) :
    StoresAt segments i ↔ i ∈ spanStarts first.length spans := by
  induction segments generalizing index first spans i with
  | nil =>
    obtain ⟨rfl, rfl⟩ := Prod.mk.inj (Except.ok.inj h)
    simp [StoresAt, blockBodyAt, spanStarts]
  | cons s rest ih =>
    cases s with
    | block count =>
      rw [storeSpans] at h
      obtain ⟨body, hbody, h⟩ := bind_eq_ok_iff.mp h
      obtain ⟨⟨first', spans'⟩, h', h⟩ := bind_eq_ok_iff.mp h
      dsimp only at h
      split at h
      · rename_i hstore
        obtain ⟨rfl, rfl⟩ := Prod.mk.inj (pure_eq_ok_iff.mp h)
        exact storesAt_cons_span_iff (ih h') i ((storesAt_block_zero_iff hbody).mpr hstore)
      · rename_i hstore
        obtain ⟨rfl, rfl⟩ := Prod.mk.inj (pure_eq_ok_iff.mp h)
        exact storesAt_cons_iff (ih h') i fun hs => hstore ((storesAt_block_zero_iff hbody).mp hs)
    | transfer _ | loop _ | compute _ | sync _ | padding _ | scatter _ =>
      rw [storeSpans] at h
      · obtain ⟨⟨first', spans'⟩, h', h⟩ := bind_eq_ok_iff.mp h
        obtain ⟨rfl, rfl⟩ := Prod.mk.inj (pure_eq_ok_iff.mp h)
        exact storesAt_cons_iff (ih h') i (not_storesAt_zero rfl rest)
      · simp

/-! ## Blocks that start with their stores -/

/-- A block that starts with its stores and holds no others. -/
structure StoringBlock where
  count : UInt32
  stores : List Transfer
  rest : List Segment
  isStore : ∀ t ∈ stores, t.isStore = true
  others : ∀ s ∈ rest, s.isStore = false ∧ s.isBlock = false

def StoringBlock.segments (b : StoringBlock) : List Segment :=
  .block b.count :: (b.stores.map .transfer ++ b.rest)

/-- The number of stores that each of `blocks` blocks gets if they take `share` of `n` in turn. -/
def shares (share n blocks : Nat) : List Nat :=
  (List.range blocks).map fun j => min share (n - j * share)

theorem shares_succ (share n blocks : Nat) :
    shares share n (blocks + 1) = min share n :: shares share (n - share) blocks := by
  unfold shares
  rw [List.range_succ_eq_map, List.map_cons, List.map_map, Nat.zero_mul, Nat.sub_zero]
  congr 1
  apply List.map_congr_left
  intro j _
  rw [Function.comp_apply, Nat.succ_mul, Nat.sub_sub, Nat.add_comm]

/-- Dealing out over segments without stores gives blocks that start with their shares, behind what
stands in front of the first marker. -/
theorem exists_dealStores (share : Nat) {stores : List Transfer} {segments : List Segment}
    (hstores : ∀ t ∈ stores, t.isStore = true) (hothers : ∀ s ∈ segments, s.isStore = false) :
    ∃ (front : List Segment) (blocks : List StoringBlock),
      dealStores share stores segments = front ++ blocks.flatMap StoringBlock.segments ∧
      (∀ s ∈ front, s.isStore = false ∧ s.isBlock = false) ∧
      blocks.map (·.stores.length) =
        shares share stores.length (segments.countP Segment.isBlock) := by
  induction segments generalizing stores with
  | nil => exact ⟨[], [], rfl, by simp, rfl⟩
  | cons s rest ih =>
    rw [List.forall_mem_cons] at hothers
    cases hs : s.isBlock with
    | true =>
      obtain ⟨count, rfl⟩ : ∃ count, s = .block count := by
        cases s <;> first | exact ⟨_, rfl⟩ | cases hs
      have hdrop : ∀ t ∈ stores.drop share, t.isStore = true :=
        fun t ht => hstores t (List.mem_of_mem_drop ht)
      obtain ⟨front, blocks, hdeal, hfront, hlengths⟩ := ih hdrop hothers.2
      refine ⟨[], ⟨count, stores.take share, front,
        fun t ht => hstores t (List.mem_of_mem_take ht), hfront⟩ :: blocks, ?_, by simp, ?_⟩
      · rw [dealStores, if_pos hs, hdeal]
        simp [StoringBlock.segments]
      · rw [List.map_cons, hlengths, List.countP_cons_of_pos hs, shares_succ, List.length_take,
          List.length_drop]
    | false =>
      obtain ⟨front, blocks, hdeal, hfront, hlengths⟩ := ih hstores hothers.2
      refine ⟨s :: front, blocks, ?_, ?_, ?_⟩
      · rw [dealStores, if_neg (by simp [hs]), hdeal, List.cons_append]
      · exact List.forall_mem_cons.mpr ⟨⟨hothers.1, hs⟩, hfront⟩
      · rw [hlengths, List.countP_cons_of_neg (by simp [hs])]

theorem exists_refreshBlocks_flatMap (blocks : List StoringBlock) :
    ∃ blocks' : List StoringBlock,
      refreshBlocks (blocks.flatMap StoringBlock.segments) =
        blocks'.flatMap StoringBlock.segments ∧
      blocks'.map (·.stores.length) = blocks.map (·.stores.length) := by
  induction blocks with
  | nil => exact ⟨[], rfl, rfl⟩
  | cons b blocks ih =>
    obtain ⟨blocks', hrefresh, hlengths⟩ := ih
    have hbody : ∀ s ∈ b.stores.map Segment.transfer ++ b.rest, s.isBlock = false := by
      intro s hs
      rcases List.mem_append.mp hs with hs | hs
      · obtain ⟨t, -, rfl⟩ := List.mem_map.mp hs
        rfl
      · exact (b.others s hs).2
    rw [List.flatMap_cons, StoringBlock.segments, List.cons_append, refreshBlocks,
      refreshBlocks_append_of_no_block hbody, hrefresh]
    exact ⟨{ b with count := _ } :: blocks', rfl, by simp [hlengths]⟩

/-! ## Spans whose stores are dealt out -/

/-- The span has no loops, and all its stores stand right behind its marker. -/
structure StoresLead (span : List Segment) : Prop where
  plain : ∀ s ∈ span, s.isLoop = false
  front : ∃ count stores rest, span = .block count :: (stores ++ rest) ∧
    (∀ s ∈ stores, s.isStore = true) ∧ ∀ s ∈ rest, s.isStore = false

theorem length_takeWhile_eq_iff {α : Type} {p : α → Bool} {xs : List α} :
    (xs.takeWhile p).length = (xs.filter p).length ↔
      ∃ a b, xs = a ++ b ∧ (∀ x ∈ a, p x = true) ∧ ∀ x ∈ b, p x = false := by
  constructor
  · intro h
    obtain ⟨-, hothers⟩ := filter_eq_takeWhile h
    refine ⟨xs.takeWhile p, xs.dropWhile p, List.takeWhile_append_dropWhile.symm,
      fun x hx => List.mem_takeWhile_imp hx, fun x hx => ?_⟩
    rw [← hothers] at hx
    simpa using (List.mem_filter.mp hx).2
  · rintro ⟨a, b, rfl, ha, hb⟩
    have htake : b.takeWhile p = [] := by
      cases b with
      | nil => rfl
      | cons x b => exact List.takeWhile_cons_of_neg (by simp [hb])
    rw [List.takeWhile_append_of_pos ha, htake, List.filter_append, List.filter_eq_self.mpr ha,
      List.filter_eq_nil_iff.mpr (by simpa using hb)]

theorem storesLead_iff (count : UInt32) (body : List Segment) :
    StoresLead (.block count :: body) ↔
      (Segment.block count :: body).any Segment.isLoop = false ∧
        (body.takeWhile Segment.isStore).length = (body.filter Segment.isStore).length := by
  rw [length_takeWhile_eq_iff, List.any_eq_false]
  constructor
  · rintro ⟨hplain, _, stores, rest, hspan, hstores, hrest⟩
    exact ⟨by simpa using hplain, stores, rest, (List.cons.inj hspan).2, hstores, hrest⟩
  · rintro ⟨hplain, stores, rest, rfl, hstores, hrest⟩
    exact ⟨fun s hs => by simpa using hplain s hs, count, stores, rest, rfl, hstores, hrest⟩

theorem exists_spreadSpan?_iff (count : UInt32) (body : List Segment) :
    (∃ candidate, spreadSpan? (.block count :: body) = some candidate) ↔
      StoresLead (.block count :: body) := by
  rw [storesLead_iff]
  cases hloop : (Segment.block count :: body).any Segment.isLoop with
  | true => simp [spreadSpan?, hloop]
  | false =>
    have hlength : (spanStores (.block count :: body)).length =
        (body.filter Segment.isStore).length := by
      rw [← List.length_map (f := Segment.transfer), map_spanStores hloop]
      rfl
    unfold spanStores at hlength
    simp [spreadSpan?, hloop, hlength, -List.any_eq_true]

/-- The stores of the span, which led it, are dealt out evenly over its blocks: each block starts
with its share, as long as there are stores left, and holds no others. Besides the stores and the
counts of markers nothing changes. -/
structure DealtOut (span span' : List Segment) : Prop where
  lead : StoresLead span
  moved : HeldBack [] span span'
  shared : ∃ blocks : List StoringBlock, span' = blocks.flatMap StoringBlock.segments ∧
    blocks.map (·.stores.length) =
      shares (span.countP Segment.isStore ⌈/⌉ span.countP Segment.isBlock)
        (span.countP Segment.isStore) (span.countP Segment.isBlock)

theorem StoresLead.length_spanStores {span : List Segment} (h : StoresLead span) :
    (spanStores span).length = span.countP Segment.isStore := by
  rw [← List.length_map (f := Segment.transfer), map_spanStores, List.countP_eq_length_filter]
  exact List.any_eq_false.mpr (by simpa using h.plain)

theorem StoresLead.spanShare_eq {span : List Segment} (h : StoresLead span) :
    spanShare span = span.countP Segment.isStore ⌈/⌉ span.countP Segment.isBlock := by
  obtain ⟨count, stores, rest, hspan, -, -⟩ := h.front
  have hblocks : (span.filter (!·.isStore)).countP Segment.isBlock =
      span.countP Segment.isBlock := by
    rw [List.countP_filter]
    apply List.countP_congr
    intro s _
    cases s <;> simp [Segment.isBlock, Segment.isStore]
  have hpos : 1 ≤ span.countP Segment.isBlock := by
    rw [hspan, List.countP_cons_of_pos rfl]
    exact Nat.le_add_left 1 _
  rw [spanShare, hblocks, max_eq_left hpos, h.length_spanStores, Nat.ceilDiv_eq_add_pred_div]

theorem exists_dealStores_block (share : Nat) {stores : List Transfer} (count : UInt32)
    {rest : List Segment} (hstores : ∀ t ∈ stores, t.isStore = true)
    (hrest : ∀ s ∈ rest, s.isStore = false) :
    ∃ blocks : List StoringBlock,
      dealStores share stores (.block count :: rest) = blocks.flatMap StoringBlock.segments ∧
      blocks.map (·.stores.length) =
        shares share stores.length ((Segment.block count :: rest).countP Segment.isBlock) := by
  obtain ⟨front, blocks, hdeal, hfront, hlengths⟩ := exists_dealStores share hstores
    (List.forall_mem_cons.mpr ⟨(rfl : (Segment.block count).isStore = false), hrest⟩)
  cases front with
  | nil => exact ⟨blocks, hdeal, hlengths⟩
  | cons s front =>
    have hs : Segment.block count = s := (List.cons.inj hdeal).1
    obtain rfl := hs
    cases (hfront _ List.mem_cons_self).2

theorem dealtOut_of_spreadSpan? {count : UInt32} {body candidate : List Segment}
    (h : spreadSpan? (.block count :: body) = some candidate) :
    DealtOut (.block count :: body) candidate := by
  have hlead := (exists_spreadSpan?_iff count body).mp ⟨candidate, h⟩
  refine ⟨hlead, heldBack_spreadSpan? h, ?_⟩
  obtain ⟨rest, hbody, hrest, -, rfl⟩ := spreadSpan?_eq_some h
  have hblocks := countP_isBlock_leading count (spanStores (.block count :: body)) rest
  rw [← hbody] at hblocks
  obtain ⟨dealt, hdealt, hshares⟩ := exists_dealStores_block (spanShare (.block count :: body))
    count (isStore_of_mem_rotateStores (isStore_of_mem_spanStores _)) hrest
  obtain ⟨blocks, hrefresh, hkept⟩ := exists_refreshBlocks_flatMap dealt
  refine ⟨blocks, by rw [hdealt, hrefresh], ?_⟩
  rw [hkept, hshares, (rotateStores_perm _).length_eq, hlead.length_spanStores, ← hblocks,
    hlead.spanShare_eq]

theorem DealtOut.plain {span span' : List Segment} (h : DealtOut span span') :
    ∀ s ∈ span', s.isLoop = false := by
  have hkept : ∀ s : Segment, s.eraseCount.isLoop = s.isLoop := by
    intro s
    cases s <;> rfl
  intro s hs
  have hmem := h.moved.map_eraseCount_perm.mem_iff.mpr (List.mem_map_of_mem hs)
  obtain ⟨u, hu, heq⟩ := List.mem_map.mp hmem
  rw [← hkept, ← heq, hkept, h.lead.plain u hu]

theorem DealtOut.dmaRun_eq_nil {span span' : List Segment} (h : DealtOut span span') :
    dmaRun span' = [] := by
  obtain ⟨blocks, rfl, -⟩ := h.shared
  cases blocks <;> rfl

/-! ## What becomes of a span -/

/-- The stores of the span lead, and its transfers are told apart by what they are compared by. -/
structure Spreadable (span : List Segment) : Prop extends StoresLead span where
  distinct : ∀ t ∈ span.filterMap Segment.transfer?, ∀ u ∈ span.filterMap Segment.transfer?,
    t.identityKey = u.identityKey → t = u

theorem filterMap_transfer?_eraseCount (segments : List Segment) :
    (segments.map Segment.eraseCount).filterMap Segment.transfer? =
      segments.filterMap Segment.transfer? := by
  rw [List.filterMap_map]
  congr 1
  ext1 s
  cases s <;> rfl

theorem HeldBack.transfers_perm {a b : List Segment} (h : HeldBack [] a b) :
    (a.filterMap Segment.transfer?).Perm (b.filterMap Segment.transfer?) := by
  have hperm := h.map_eraseCount_perm.filterMap Segment.transfer?
  rwa [filterMap_transfer?_eraseCount, filterMap_transfer?_eraseCount] at hperm

theorem Spreadable.sameTransfers_eq {span candidate : List Segment} (h : Spreadable span)
    (hmoved : HeldBack [] span candidate) : sameTransfers span candidate = true := by
  have hsorted := pairwise_sortOn Transfer.identityKey (fun _ _ => rfl)
    (candidate.filterMap Segment.transfer?)
  have hperm := (sortOn_perm Transfer.identityKey _).trans hmoved.transfers_perm.symm
  rw [sameTransfers, beq_iff_eq]
  exact (eq_sortOn_of_perm _ (fun _ _ => rfl) h.distinct hperm hsorted).symm

def SpanSpread (span span' : List Segment) : Prop :=
  DealtOut span span' ∨ span' = span ∧ ¬Spreadable span

section SpanSpread

variable {span span' : List Segment}

theorem SpanSpread.heldBack (h : SpanSpread span span') : HeldBack [] span span' := by
  obtain h | ⟨rfl, -⟩ := h
  · exact h.moved
  · exact .refl span'

theorem SpanSpread.filter_isLoop (h : SpanSpread span span') :
    span'.filter Segment.isLoop = span.filter Segment.isLoop := by
  obtain h | ⟨rfl, -⟩ := h
  · rw [List.filter_eq_nil_iff.mpr (by simpa using h.plain),
      List.filter_eq_nil_iff.mpr (by simpa using h.lead.plain)]
  · rfl

theorem SpanSpread.dmaRun_eq_nil (h : SpanSpread span span') (hspan : dmaRun span = []) :
    dmaRun span' = [] := by
  obtain h | ⟨rfl, -⟩ := h
  · exact h.dmaRun_eq_nil
  · exact hspan

theorem spanSpread_flatten {spans spans' : List (List Segment)}
    (h : List.Forall₂ SpanSpread spans spans') :
    HeldBack [] spans.flatten spans'.flatten ∧
      spans'.flatten.filter Segment.isLoop = spans.flatten.filter Segment.isLoop := by
  induction h with
  | nil => exact ⟨.refl [], rfl⟩
  | cons hspan _ ih =>
    simp only [List.flatten_cons, List.filter_append, hspan.filter_isLoop, ih.2, and_true]
    exact hspan.heldBack.append ih.1

end SpanSpread

/-! ## Counts that wrap around -/

namespace Wrapping

/-- Words a stream moves, up to a multiple of `2 ^ 64`. -/
def countElements (segments : List Segment) : UInt64 :=
  segments.foldl (fun n s => n + s.transfers.foldl (fun n t => n + .ofNat t.elements) 0) 0

def acceptsSpread (span candidate : List Segment) : Bool :=
  match checkBlocks candidate with
  | .error _ => false
  | .ok () => countElements span == countElements candidate && sameTransfers span candidate

def spreadSpan (span : List Segment) : List Segment :=
  match spreadSpan? span with
  | none => span
  | some candidate => if acceptsSpread span candidate then candidate else span

/-- Spread the stores of every span, with words counted in a register that wraps around. -/
def spreadStores (segments : List Segment) : Except Fault (List Segment) := do
  let (first, spans) ← storeSpans 0 segments
  return first ++ spans.flatMap spreadSpan

theorem foldl_add_ofNat {α : Type} {f : UInt64 → α → UInt64} {weight : α → Nat}
    (hf : ∀ n x, f n x = n + .ofNat (weight x)) (xs : List α) (start : Nat) :
    xs.foldl f (.ofNat start) = .ofNat (start + total (xs.map weight)) := by
  induction xs generalizing start with
  | nil => rfl
  | cons x xs ih =>
    rw [List.foldl_cons, hf, ← UInt64.ofNat_add, ih, List.map_cons, Nat.add_assoc]
    rfl

theorem countElements_eq (segments : List Segment) :
    countElements segments = .ofNat (elementTotal segments) := by
  have hsegment (n : UInt64) (s : Segment) :
      n + s.transfers.foldl (fun n t => n + .ofNat t.elements) 0 =
        n + .ofNat (total (s.transfers.map Transfer.elements)) := by
    have h := foldl_add_ofNat (f := fun n t => n + .ofNat (Transfer.elements t))
      (fun _ _ => rfl) s.transfers 0
    rw [Nat.zero_add] at h
    exact congrArg (n + ·) h
  have h := foldl_add_ofNat hsegment segments 0
  rwa [Nat.zero_add, ← elementTotal_eq] at h

end Wrapping

section Candidate

variable {count : UInt32} {body candidate : List Segment}
  (h : spreadSpan? (.block count :: body) = some candidate)

include h

/-- The refreshed markers pass the check, however many records there are. -/
theorem checkBlocks_spreadSpan? : checkBlocks candidate = .ok () := by
  obtain ⟨rest, -, -, -, hcandidate⟩ := spreadSpan?_eq_some h
  have hfresh : refreshBlocks candidate = candidate := by
    rw [hcandidate, refreshBlocks_refreshBlocks]
  rw [← hfresh]
  exact checkBlocksFrom_refreshBlocks_of_plain (dealtOut_of_spreadSpan? h).plain 0

theorem Wrapping.acceptsSpread_eq :
    Wrapping.acceptsSpread (.block count :: body) candidate =
      sameTransfers (.block count :: body) candidate := by
  have hwords := (heldBack_spreadSpan? h).conserves.words
  unfold Wrapping.acceptsSpread
  simp only [checkBlocks_spreadSpan? h, Wrapping.countElements_eq, hwords, beq_self_eq_true,
    Bool.true_and]

theorem acceptsSpread_of_lt (hlt : elementTotal (.block count :: body) < 2 ^ 64) :
    acceptsSpread (.block count :: body) candidate =
      .ok (sameTransfers (.block count :: body) candidate) := by
  have hwords := (heldBack_spreadSpan? h).conserves.words
  unfold acceptsSpread
  simp only [checkBlocks_spreadSpan? h, countElements_eq_ok_iff.mpr ⟨rfl, hlt⟩,
    countElements_eq_ok_iff.mpr ⟨hwords, hlt⟩, ok_bind, beq_self_eq_true, Bool.true_and]
  rfl

theorem acceptsSpread_of_le (hle : 2 ^ 64 ≤ elementTotal (.block count :: body)) :
    acceptsSpread (.block count :: body) candidate = .error .sum := by
  unfold acceptsSpread
  simp only [checkBlocks_spreadSpan? h, countElements_eq_error_iff.mpr ⟨rfl, hle⟩]
  rfl

end Candidate

/-- The stores of the span lead, and it moves more words than can be counted. -/
structure Overfull (span : List Segment) : Prop extends StoresLead span where
  words : 2 ^ 64 ≤ elementTotal span

section Span

variable {span : List Segment} (hspan : ∃ count body, span = .block count :: body)

include hspan

theorem spreadSpan_of_not_overfull (h : ¬Overfull span) :
    spreadSpan span = .ok (Wrapping.spreadSpan span) := by
  obtain ⟨count, body, rfl⟩ := hspan
  unfold spreadSpan Wrapping.spreadSpan
  cases hcandidate : spreadSpan? (.block count :: body) with
  | none => rfl
  | some candidate =>
    have hlead := (exists_spreadSpan?_iff count body).mp ⟨candidate, hcandidate⟩
    have hlt := Nat.not_le.mp fun hle => h ⟨hlead, hle⟩
    dsimp only
    rw [acceptsSpread_of_lt hcandidate hlt, Wrapping.acceptsSpread_eq hcandidate]
    rfl

theorem Overfull.spreadSpan_eq (h : Overfull span) : spreadSpan span = .error .sum := by
  obtain ⟨count, body, rfl⟩ := hspan
  obtain ⟨candidate, hcandidate⟩ := (exists_spreadSpan?_iff count body).mpr h.toStoresLead
  unfold spreadSpan
  rw [hcandidate]
  dsimp only
  rw [acceptsSpread_of_le hcandidate h.words]
  rfl

theorem Wrapping.spreadSpan_cases :
    spreadSpan? span = some (Wrapping.spreadSpan span) ∨
      Wrapping.spreadSpan span = span ∧ ¬Spreadable span := by
  obtain ⟨count, body, rfl⟩ := hspan
  unfold Wrapping.spreadSpan
  cases hcandidate : spreadSpan? (.block count :: body) with
  | none =>
    refine .inr ⟨rfl, fun hspreadable => ?_⟩
    obtain ⟨_, hsome⟩ := (exists_spreadSpan?_iff count body).mpr hspreadable.toStoresLead
    cases hcandidate.symm.trans hsome
  | some candidate =>
    dsimp only
    rw [Wrapping.acceptsSpread_eq hcandidate]
    split
    · exact .inl rfl
    · rename_i hdiffers
      exact .inr ⟨rfl, fun hspreadable =>
        hdiffers (hspreadable.sameTransfers_eq (heldBack_spreadSpan? hcandidate))⟩

theorem Wrapping.spanSpread_spreadSpan : SpanSpread span (Wrapping.spreadSpan span) := by
  obtain hsome | hkept := Wrapping.spreadSpan_cases hspan
  · obtain ⟨count, body, rfl⟩ := hspan
    exact .inl (dealtOut_of_spreadSpan? hsome)
  · exact .inr hkept

theorem Wrapping.checkBlocks_spreadSpan (hchecked : checkBlocks span = .ok ()) :
    checkBlocks (Wrapping.spreadSpan span) = .ok () := by
  obtain hsome | ⟨hkept, -⟩ := Wrapping.spreadSpan_cases hspan
  · obtain ⟨count, body, rfl⟩ := hspan
    exact checkBlocks_spreadSpan? hsome
  · rwa [hkept]

end Span

theorem mapM_spreadSpan_of_not_overfull {spans : List (List Segment)}
    (hspans : ∀ span ∈ spans, ∃ count body, span = .block count :: body)
    (h : ∀ span ∈ spans, ¬Overfull span) :
    spans.mapM spreadSpan = .ok (spans.map Wrapping.spreadSpan) := by
  rw [mapM_eq_ok_iff, List.forall₂_map_right_iff, List.forall₂_same]
  exact fun span hspan => spreadSpan_of_not_overfull (hspans span hspan) (h span hspan)

theorem Overfull.mapM_spreadSpan_eq {spans : List (List Segment)} {span : List Segment}
    (hspans : ∀ span ∈ spans, ∃ count body, span = .block count :: body) (hspan : span ∈ spans)
    (h : Overfull span) : spans.mapM spreadSpan = .error .sum := by
  cases hm : spans.mapM spreadSpan with
  | ok spans' =>
    obtain ⟨span', hok⟩ := exists_mapM_eq_ok_iff.mp ⟨spans', hm⟩ span hspan
    rw [h.spreadSpan_eq (hspans span hspan)] at hok
    cases hok
  | error o =>
    obtain ⟨other, hother, ho⟩ := exists_of_mapM_eq_error hm
    by_cases hfull : Overfull other
    · rw [hfull.spreadSpan_eq (hspans other hother)] at ho
      rw [Except.error.inj ho]
    · rw [spreadSpan_of_not_overfull (hspans other hother) hfull] at ho
      cases ho

/-! ## The whole stream -/

/-- The stream is cut in front of each block that stores, and nowhere else. -/
structure CutAtStores (segments first : List Segment) (spans : List (List Segment)) : Prop where
  flatten : first ++ spans.flatten = segments
  ne_nil : ∀ span ∈ spans, span ≠ []
  starts : ∀ i, StoresAt segments i ↔ i ∈ spanStarts first.length spans

/-- The stores of a stream are spread within its spans. The other segments keep their order, and
the part in front of the first span stays as it is. -/
structure IsSpread (segments out : List Segment) : Prop where
  others : (segments.filter (!·.isStore)).map Segment.eraseCount =
    (out.filter (!·.isStore)).map Segment.eraseCount
  transfers : (segments.filterMap Segment.transfer?).Perm (out.filterMap Segment.transfer?)
  loops : out.filter Segment.isLoop = segments.filter Segment.isLoop
  consistent : checkBlocks out = .ok ()
  spans : ∃ first spans spans', CutAtStores segments first spans ∧
    out = first ++ spans'.flatten ∧ List.Forall₂ SpanSpread spans spans'

def HasOverfullSpan (segments : List Segment) : Prop :=
  ∃ first spans, storeSpans 0 segments = .ok (first, spans) ∧ ∃ span ∈ spans, Overfull span

/-- The markers of a span do not reach out of it, so the stream can be checked span by span. -/
theorem checkBlocks_spans_iff {first : List Segment} {spans : List (List Segment)}
    (h : ∀ span ∈ spans, dmaRun span = []) :
    checkBlocks (first ++ spans.flatten) = .ok () ↔
      checkBlocksFrom 0 first = .ok () ∧ ∀ span ∈ spans, checkBlocks span = .ok () := by
  rw [checkBlocks, checkBlocksFrom_append (dmaRun_flatten_of_nil h), checkBlocks_flatten h]

section Spans

variable {segments first : List Segment} {spans : List (List Segment)}
  (hparts : storeSpans 0 segments = .ok (first, spans))

include hparts

theorem cutAtStores_storeSpans : CutAtStores segments first spans := by
  obtain ⟨hflatten, hmarkers⟩ := storeSpans_flatten hparts
  refine ⟨hflatten, fun span hspan => ?_, storesAt_iff_mem_spanStarts hparts⟩
  obtain ⟨count, rest, rfl⟩ := hmarkers span hspan
  exact List.cons_ne_nil _ _

theorem hasOverfullSpan_iff : HasOverfullSpan segments ↔ ∃ span ∈ spans, Overfull span := by
  unfold HasOverfullSpan
  simp only [hparts, Except.ok.injEq, Prod.mk.injEq, ↓existsAndEq, and_true, true_and]

theorem isSpread_spreadSpans (hchecked : checkBlocks segments = .ok ()) :
    IsSpread segments (first ++ spans.flatMap Wrapping.spreadSpan) := by
  obtain ⟨hflatten, hmarkers⟩ := storeSpans_flatten hparts
  have hspread : List.Forall₂ SpanSpread spans (spans.map Wrapping.spreadSpan) := by
    rw [List.forall₂_map_right_iff, List.forall₂_same]
    exact fun span hspan => Wrapping.spanSpread_spreadSpan (hmarkers span hspan)
  obtain ⟨hmoved, hloops⟩ := spanSpread_flatten hspread
  have hheld := (HeldBack.refl first).append hmoved
  have hstart := dmaRun_of_mem_storeSpans hparts
  have hstart' : ∀ span' ∈ spans.map Wrapping.spreadSpan, dmaRun span' = [] :=
    List.forall_mem_map.mpr fun span hspan =>
      (Wrapping.spanSpread_spreadSpan (hmarkers span hspan)).dmaRun_eq_nil (hstart span hspan)
  rw [hflatten] at hheld
  rw [← hflatten, checkBlocks_spans_iff hstart] at hchecked
  rw [List.flatMap_def]
  constructor
  · exact hheld.others
  · exact hheld.transfers_perm
  · rw [← hflatten, List.filter_append, List.filter_append, hloops]
  · rw [checkBlocks_spans_iff hstart', List.forall_mem_map]
    exact ⟨hchecked.1, fun span hspan =>
      Wrapping.checkBlocks_spreadSpan (hmarkers span hspan) (hchecked.2 span hspan)⟩
  · exact ⟨first, spans, _, cutAtStores_storeSpans hparts, rfl, hspread⟩

theorem spreadStores_of_not_overfull (h : ∀ span ∈ spans, ¬Overfull span) :
    spreadStores segments = .ok (first ++ spans.flatMap Wrapping.spreadSpan) := by
  rw [List.flatMap_def]
  exact spreadStores_of_spans hparts
    (mapM_spreadSpan_of_not_overfull (storeSpans_flatten hparts).2 h)

theorem spreadStores_of_overfull (h : ∃ span ∈ spans, Overfull span) :
    spreadStores segments = .error (.overflow .sum) := by
  obtain ⟨span, hspan, hfull⟩ := h
  have hsum := hfull.mapM_spreadSpan_eq (storeSpans_flatten hparts).2 hspan
  rw [spreadStores, hparts]
  change (liftM (spans.mapM spreadSpan) >>= _ : Outcome _) = _
  rw [hsum]
  rfl

end Spans

def threeStores : List Segment :=
  [.block 1, .transfer (.row .load1d 1 1 0x1000 0 8),
    .block 4, .transfer (.row .store1d 1 1 0x100 0 8), .transfer (.row .store1d 1 1 0x200 8 8),
    .transfer (.row .store1d 2 1 0x300 0 8), .transfer (.row .load1d 1 1 0x2000 16 8),
    .block 1, .transfer (.row .load1d 1 1 0x3000 24 8)]

def threeStoresSpread : List Segment :=
  [.block 1, .transfer (.row .load1d 1 1 0x1000 0 8),
    .block 3, .transfer (.row .store1d 1 1 0x200 8 8), .transfer (.row .store1d 2 1 0x300 0 8),
    .transfer (.row .load1d 1 1 0x2000 16 8),
    .block 2, .transfer (.row .store1d 1 1 0x100 0 8), .transfer (.row .load1d 1 1 0x3000 24 8)]

theorem spreadStores_threeStores : spreadStores threeStores = .ok threeStoresSpread := by
  delta spreadStores spreadSpan acceptsSpread sameTransfers spreadSpan? rotateStores
  simp only [sortOn_eq_insertionSort Transfer.identityKey fun _ _ => rfl,
    sortOn_eq_insertionSort (fun t : Transfer => [t.hostAddr.toNat]) fun _ _ => rfl]
  decide +kernel

theorem storeSpans_of_no_block {segments : List Segment} (h : ∀ s ∈ segments, s.isBlock = false)
    (index : Nat) : storeSpans index segments = .ok (segments, []) := by
  induction segments generalizing index with
  | nil => rfl
  | cons s rest ih =>
    rw [List.forall_mem_cons] at h
    cases s with
    | block _ => cases h.1
    | transfer _ | loop _ | compute _ | sync _ | padding _ | scatter _ =>
      rw [storeSpans, ih h.2]
      · rfl
      · simp

def vastStore : Transfer := .rect .store2d 0xFFFFFFFF 0xFFFFFFFF 0 0 65535 65535 1

/-- It takes four million stores in one span to overflow. -/
theorem spreadStores_vastStores {n : Nat} (h : 4194432 ≤ n) :
    spreadStores (.block 1 :: List.replicate (n + 1) (.transfer vastStore)) =
      .error (.overflow .sum) := by
  set stores := List.replicate (n + 1) (Segment.transfer vastStore) with hstores
  have hmem : ∀ s ∈ stores, s = .transfer vastStore := fun s => List.eq_of_mem_replicate
  have hparts : storeSpans 0 (.block 1 :: stores) = .ok ([], [.block 1 :: stores]) := by
    have hbody : blockBody 0 1 stores = .ok [.transfer vastStore] := by
      have hdma : ∀ s ∈ [Segment.transfer vastStore], s.isDma = true := by decide
      exact blockBody_front hdma rfl 0 (List.replicate n _)
    rw [storeSpans, hbody, storeSpans_of_no_block fun s hs => by rw [hmem s hs]; rfl]
    rfl
  refine spreadStores_of_overfull hparts ⟨_, List.mem_singleton_self _, ⟨?_, ?_⟩, ?_⟩
  · exact List.forall_mem_cons.mpr ⟨rfl, fun s hs => by rw [hmem s hs]; rfl⟩
  · exact ⟨1, stores, [], by rw [List.append_nil], fun s hs => by rw [hmem s hs]; rfl, by simp⟩
  · have hwords : elementTotal (.block 1 :: stores) = (n + 1) * vastStore.elements := by
      simp [elementTotal_eq, hstores, total_eq_sum, Segment.transfers]
    have hstore : vastStore.elements = 65535 * 65535 * 1024 := by decide +kernel
    rw [hwords, hstore]
    omega

end CommandStream
