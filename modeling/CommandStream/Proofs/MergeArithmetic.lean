import CommandStream.Proofs.MergeNormalForm

/-! # Merging within words

Here every sum, difference and product of a merge is taken in the word that holds it, and one that
leaves its word stops the merge. On short streams without loops this is the merge itself: the pitch
of a rectangle and the words that must be left over are the only numbers that can leave their word.
-/

namespace CommandStream

namespace Sized

/-! ## Arithmetic of transfers -/

/-- Words moved, where the skipped tail takes at most all of them away. -/
def elements (t : Transfer) : Checked Nat := do
  let area ← Checked.mul 64 t.width.toNat t.height.toNat
  let words ← Checked.mul 64 (area - t.skipped.toNat) t.cluster.count
  Checked.mul 64 words t.unit.count

def hostSpan (t : Transfer) : Checked Nat := do
  if t.isRect then
    let reach ← Checked.add 64 t.width.toNat t.leap.toNat
    let pitch ← Checked.sub reach 1
    let words ← Checked.mul 64 pitch t.height.toNat
    Checked.mul 64 words 2
  else
    Checked.mul 64 t.width.toNat 2

def localSpan (t : Transfer) : Checked Nat :=
  if t.isRect then Checked.mul 32 t.width.toNat t.height.toNat else return t.width.toNat

/-- An end behind the last address meets no start, and the local memory is looked at only if the
host memory is continued. -/
def continuedBy (a b : Transfer) : Checked Bool := do
  let span ← hostSpan a
  if (Checked.add 64 a.hostAddr.toNat span).toOption = some b.hostAddr.toNat then
    let span ← localSpan a
    return (Checked.add 32 a.localAddr.toNat span).toOption = some b.localAddr.toNat
  else
    return false

def startOfJoin (a b whole : Transfer) : Checked (Option Transfer) := do
  if ← continuedBy a b then
    return some whole
  else if ← continuedBy b a then
    return some { whole with hostAddr := b.hostAddr, localAddr := b.localAddr }
  else
    return none

def joinRow (a b : Transfer) : Checked (Option Transfer) := do
  if a.isRect || !a.sameTarget b then return none
  else
    let width ← Checked.add 32 a.width.toNat b.width.toNat
    if 65535 < width then return none
    else startOfJoin a b { a with width := UInt16.ofNat width }

def joinRect (a b : Transfer) : Checked (Option Transfer) := do
  if !a.isRect || !a.sameTarget b || a.leap != b.leap || a.width != b.width then return none
  else
    let height ← Checked.add 32 a.height.toNat b.height.toNat
    if 65535 < height then return none
    else startOfJoin a b { a with height := UInt16.ofNat height }

def flattenable (t : Transfer) (maxElements : Nat) : Checked Bool := do
  if 1 < t.height && t.leap == 1 && t.padding.isEmpty then
    return (← Checked.mul 32 t.width.toNat t.height.toNat) ≤ min maxElements 65535
  else
    return false

def flattenSegment (maxElements : Nat) : Segment → Checked Segment
  | .transfer t => do
    if !t.isRect then return .transfer t
    else if ← flattenable t maxElements then
      let width ← Checked.mul 16 t.width.toNat t.height.toNat
      return .transfer { t with
        direction := t.direction.toRow, width := UInt16.ofNat width, height := 1 }
    else if t.height = 1 then return .transfer { t with direction := t.direction.toRow }
    else return .transfer t
  | s => return s

/-! ## Steps -/

def raise (counter times : Nat) : Checked Nat :=
  (List.replicate times 1).foldlM (Checked.add 64) counter

def segmentElements : Segment → Checked Nat
  | .transfer t => elements t
  | .loop l => do Checked.sum 64 (← l.expand.mapM elements)
  | _ => return 0

def countElements (segments : List Segment) : Checked Nat :=
  segments.foldlM (fun total s => do Checked.add 64 total (← segmentElements s)) 0

def dropDuplicates (m : Merging) : Checked Merging := do
  let out ← absorb (fun a b => return if a.sameCommand b then some a else none) m.segments
  let dropped ← out.absorbed.foldlM (fun n t => do Checked.add 64 n (← elements t)) m.dropped
  let duplicates ← raise m.stats.duplicates out.absorbed.length
  return { m with segments := out.kept, dropped, stats := { m.stats with duplicates } }

def flatten (m : Merging) (maxElements : Nat) : Checked Merging := do
  let segments ← m.segments.mapM (flattenSegment maxElements)
  let flattened ← raise m.stats.flattened (m.segments.countP (Merging.flattens maxElements))
  return { m with segments, stats := { m.stats with flattened } }

def joinRows (m : Merging) : Checked Merging := do
  let out ← absorb joinRow m.segments
  let joinedRows ← Checked.add 64 m.stats.joinedRows (← raise 0 out.absorbed.length)
  return { m with segments := out.kept, stats := { m.stats with joinedRows } }

def joinRects (m : Merging) : Checked Merging := do
  let out ← absorb joinRect m.segments
  let joinedRects ← Checked.add 64 m.stats.joinedRects (← raise 0 out.absorbed.length)
  return { m with segments := out.kept, stats := { m.stats with joinedRects } }

def mergeWithStats (segments : List Segment) (maxElements : Nat) :
    Outcome (List Segment × MergeStats) := do
  let before ← countElements segments
  let start : Merging := { segments := segments }
  let m ← dropDuplicates (start.reorder Transfer.hostKey)
  let m ← flatten m maxElements
  let m ← m.trim
  let m ← joinRows m
  let m ← joinRects m
  let m ← dropDuplicates (m.reorder Transfer.localKey)
  let m ← flatten m maxElements
  let m ← joinRows m
  let m ← joinRects m
  let after ← countElements m.segments
  let expected ← Checked.sub before m.dropped
  if expected ≠ after then
    refuse (.elementCountMismatch .merge expected after)
  else
    return (refreshBlocks (m.reorder Transfer.addressKey).segments, m.stats)

def merge (segments : List Segment) (maxElements : Nat) : Outcome (List Segment) := do
  return (← mergeWithStats segments maxElements).1

/-! ## Transfers fit their words -/

theorem area_le (t : Transfer) : t.width.toNat * t.height.toNat ≤ 65535 * 65535 :=
  Nat.mul_le_mul (Nat.le_of_lt_succ t.width.toNat_lt) (Nat.le_of_lt_succ t.height.toNat_lt)

theorem elements_eq (t : Transfer) : elements t = .ok t.elements := by
  have harea := area_le t
  have hwords : (t.width.toNat * t.height.toNat - t.skipped.toNat) * t.cluster.count ≤
      65535 * 65535 * 32 :=
    Nat.mul_le_mul ((Nat.sub_le _ _).trans harea) t.cluster.count_le
  have hall := t.elements_lt
  rw [elements, Checked.mul_eq_ok_iff.mpr ⟨rfl, by omega⟩, ok_bind,
    Checked.mul_eq_ok_iff.mpr ⟨rfl, by omega⟩, ok_bind]
  exact Checked.mul_eq_ok_iff.mpr ⟨rfl, hall.trans (by decide)⟩

theorem hostSpan_eq (t : Transfer) : hostSpan t = t.hostSpan := by
  have hwidth := t.width.toNat_lt
  have hleap := t.leap.toNat_lt
  have hheight := t.height.toNat_lt
  unfold hostSpan Transfer.hostSpan
  cases t.isRect with
  | false =>
    rw [if_neg Bool.false_ne_true, if_neg Bool.false_ne_true]
    exact Checked.mul_eq_ok_iff.mpr ⟨rfl, by omega⟩
  | true =>
    rw [if_pos rfl, if_pos rfl, Checked.add_eq_ok_iff.mpr ⟨rfl, by omega⟩, ok_bind]
    unfold Checked.sub
    split
    · have hwords : (t.width.toNat + t.leap.toNat - 1) * t.height.toNat ≤ 2 ^ 17 * 2 ^ 16 :=
        Nat.mul_le_mul (by omega) hheight.le
      rw [ok_bind, ok_bind, Checked.mul_eq_ok_iff.mpr ⟨rfl, by omega⟩, ok_bind]
      exact Checked.mul_eq_ok_iff.mpr ⟨rfl, by omega⟩
    · rfl

theorem localSpan_eq (t : Transfer) : localSpan t = .ok t.localSpan := by
  unfold localSpan Transfer.localSpan
  split
  · exact Checked.mul_eq_ok_iff.mpr ⟨rfl, (area_le t).trans_lt (by decide)⟩
  · rfl

theorem toOption_add_eq_some_iff {bits x y n : Nat} (hn : n < 2 ^ bits) :
    (Checked.add bits x y).toOption = some n ↔ x + y = n := by
  unfold Checked.add
  split
  · exact Option.some_inj
  · rename_i hlt
    constructor
    · intro h
      cases h
    · rintro rfl
      exact absurd hn hlt

theorem continuedBy_eq (a b : Transfer) : continuedBy a b = a.continuedBy b := by
  unfold continuedBy Transfer.continuedBy
  rw [hostSpan_eq]
  cases a.hostSpan with
  | error o => rfl
  | ok span =>
    have hhost := b.hostAddr.toNat_lt
    have hlocal := b.localAddr.toNat_lt
    simp only [ok_bind, toOption_add_eq_some_iff hhost, toOption_add_eq_some_iff hlocal,
      localSpan_eq]
    by_cases h : a.hostAddr.toNat + span = b.hostAddr.toNat
    · rw [if_pos h, beq_iff_eq.mpr h, Bool.true_and]
      rfl
    · rw [if_neg h, beq_eq_false_iff_ne.mpr h, Bool.false_and]

theorem startOfJoin_eq (a b whole : Transfer) :
    startOfJoin a b whole = Transfer.startOfJoin a b whole := by
  unfold startOfJoin Transfer.startOfJoin
  rw [continuedBy_eq, continuedBy_eq]

theorem ofNat_toNat_add (x y : UInt16) : UInt16.ofNat (x.toNat + y.toNat) = x + y := by
  rw [UInt16.ofNat_add, UInt16.ofNat_toNat, UInt16.ofNat_toNat]

theorem joinRow_eq (a b : Transfer) : joinRow a b = a.joinRow b := by
  have ha := a.width.toNat_lt
  have hb := b.width.toNat_lt
  unfold joinRow Transfer.joinRow
  rw [Checked.add_eq_ok_iff.mpr ⟨rfl, by omega⟩, ok_bind, startOfJoin_eq, ofNat_toNat_add]
  cases a.isRect || !a.sameTarget b with
  | true => rfl
  | false => simp

theorem joinRect_eq (a b : Transfer) : joinRect a b = a.joinRect b := by
  have ha := a.height.toNat_lt
  have hb := b.height.toNat_lt
  unfold joinRect Transfer.joinRect
  rw [Checked.add_eq_ok_iff.mpr ⟨rfl, by omega⟩, ok_bind, startOfJoin_eq, ofNat_toNat_add]
  cases !a.isRect || !a.sameTarget b || a.leap != b.leap || a.width != b.width with
  | true => rfl
  | false => simp

theorem flattenable_eq (t : Transfer) (maxElements : Nat) :
    flattenable t maxElements = .ok (t.flattenable maxElements) := by
  have harea := area_le t
  unfold flattenable Transfer.flattenable Transfer.area
  rw [Checked.mul_eq_ok_iff.mpr ⟨rfl, by omega⟩, ok_bind]
  cases decide (1 < t.height) && t.leap == 1 && t.padding.isEmpty <;> rfl

theorem flattenSegment_eq (maxElements : Nat) (s : Segment) :
    flattenSegment maxElements s = .ok (Merging.flattenSegment maxElements s) := by
  cases s with
  | transfer t =>
    unfold flattenSegment Merging.flattenSegment
    simp only [flattenable_eq, ok_bind]
    cases t.isRect with
    | false => rfl
    | true =>
      cases hflat : t.flattenable maxElements with
      | false => simp; split <;> rfl
      | true =>
        obtain ⟨-, -, -, hsmall⟩ := Transfer.flattenable_iff.mp hflat
        rw [Checked.mul_eq_ok_iff.mpr ⟨rfl, by omega⟩]
        rfl
  | loop _ | compute _ | block _ | sync _ | padding _ | scatter _ => rfl

/-! ## Counters fit their words -/

theorem raise_eq {counter times : Nat} (h : counter + times < 2 ^ 64) :
    raise counter times = .ok (counter + times) := by
  have hones : total ((List.replicate times 1).map id) = times := by simp [total_eq_sum]
  refine (foldlM_eq_ok_iff_total id (fun _ _ _ => Checked.add_eq_ok_iff) _ (by omega)).mpr ?_
  rw [hones]
  exact ⟨rfl, h⟩

theorem segmentElements_eq (s : Segment) : segmentElements s = s.elements := by
  cases s with
  | transfer t => exact elements_eq t
  | loop l =>
    have hexpand : l.expand.mapM elements = .ok (l.expand.map Transfer.elements) := by
      rw [show elements = fun t => pure t.elements from funext elements_eq]
      exact List.mapM_pure
    rw [segmentElements, hexpand]
    rfl
  | compute _ | block _ | sync _ | padding _ | scatter _ => rfl

theorem countElements_eq (segments : List Segment) :
    countElements segments = CommandStream.countElements segments := by
  unfold countElements CommandStream.countElements
  rw [show segmentElements = Segment.elements from funext segmentElements_eq]

end Sized

/-! ## Sweeps -/

section Sweeps

variable {ε : Type} {join : Transfer → Transfer → Except ε (Option Transfer)}
  {pending : Option Transfer} {segments : List Segment} {out : Absorbed}

theorem length_absorbWith (h : absorbWith join pending segments = .ok out) :
    out.kept.length + out.absorbed.length = pending.toList.length + segments.length := by
  induction segments generalizing pending out with
  | nil =>
    rw [absorbWith, pure_eq_ok_iff] at h
    rw [← h, List.length_map]
    rfl
  | cons s rest ih =>
    cases hst : s.transfer? with
    | none =>
      rw [absorbWith_barrier hst, bind_eq_ok_iff] at h
      obtain ⟨out', h', hout⟩ := h
      obtain rfl := pure_eq_ok_iff.mp hout
      have hrest := ih h'
      simp only [List.length_append, List.length_map, List.length_cons, Option.toList_none,
        List.length_nil] at hrest ⊢
      omega
    | some t =>
      obtain rfl := Segment.transfer?_eq_some_iff.mp hst
      cases pending with
      | none =>
        have hrest := @ih (some t) out h
        simp only [Option.toList_none, Option.toList_some, List.length_cons, List.length_nil]
          at hrest ⊢
        omega
      | some last =>
        rw [absorbWith, bind_eq_ok_iff] at h
        obtain ⟨joined?, -, h⟩ := h
        cases joined? with
        | none =>
          obtain ⟨out', h', hout⟩ := bind_eq_ok_iff.mp h
          obtain rfl := pure_eq_ok_iff.mp hout
          have hrest := ih h'
          simp only [Option.toList_some, List.length_cons, List.length_nil] at hrest ⊢
          omega
        | some joined =>
          obtain ⟨out', h', hout⟩ := bind_eq_ok_iff.mp h
          obtain rfl := pure_eq_ok_iff.mp hout
          have hrest := ih h'
          simp only [Option.toList_some, List.length_cons, List.length_nil] at hrest ⊢
          omega

theorem length_absorb (h : absorb join segments = .ok out) :
    out.kept.length + out.absorbed.length = segments.length := by
  rw [length_absorbWith h, Option.toList_none, List.length_nil, Nat.zero_add]

theorem exists_absorbWith (hjoin : ∀ a b, ∃ r, join a b = .ok r) :
    ∃ out, absorbWith join pending segments = .ok out := by
  induction segments generalizing pending with
  | nil => exact ⟨_, by rw [absorbWith]; rfl⟩
  | cons s rest ih =>
    cases hst : s.transfer? with
    | none =>
      obtain ⟨out, hout⟩ := @ih none
      exact ⟨_, by rw [absorbWith_barrier hst, hout]; rfl⟩
    | some t =>
      obtain rfl := Segment.transfer?_eq_some_iff.mp hst
      cases pending with
      | none => exact @ih (some t)
      | some last =>
        obtain ⟨joined?, hjoined⟩ := hjoin last t
        cases joined? with
        | none =>
          obtain ⟨out, hout⟩ := @ih (some t)
          exact ⟨_, bind_eq_ok_iff.mpr ⟨none, hjoined, bind_eq_ok_iff.mpr ⟨out, hout, rfl⟩⟩⟩
        | some joined =>
          obtain ⟨out, hout⟩ := @ih (some joined)
          exact ⟨_, bind_eq_ok_iff.mpr ⟨some joined, hjoined, bind_eq_ok_iff.mpr ⟨out, hout, rfl⟩⟩⟩

end Sweeps

theorem Shortens.not_mem_loop {a b : List Segment} (h : Shortens a b)
    (hloops : ∀ l, .loop l ∉ a) (l : TransferLoop) : .loop l ∉ b := by
  intro hl
  have hbarrier : .loop l ∈ CommandStream.barriers b :=
    List.mem_map.mpr ⟨.loop l, List.mem_filter.mpr ⟨hl, rfl⟩, rfl⟩
  rw [h.barriers] at hbarrier
  obtain ⟨s, hs, hsl⟩ := List.mem_map.mp hbarrier
  cases s with
  | loop l' => exact hloops l' (List.mem_of_mem_filter hs)
  | transfer _ | compute _ | block _ | sync _ | padding _ | scatter _ => cases hsl

namespace Merging

/-- So few segments that no counter gets near the end of its word: each one that has been combined
with another is a segment less, and a flattening counts each at most once. -/
structure Few (flattenings : Nat) (m : Merging) : Prop where
  loops : ∀ l, .loop l ∉ m.segments
  combined : m.stats.duplicates + m.stats.joinedRows + m.stats.joinedRects + m.segments.length <
    2 ^ 20
  flattened : m.stats.flattened ≤ flattenings * 2 ^ 20
  dropped : m.dropped + m.segments.length * 2 ^ 43 < 2 ^ 63

variable {flattenings : Nat} {m m' : Merging}

namespace Few

theorem reorder (h : Few flattenings m) (key : Transfer → List Nat) :
    Few flattenings (m.reorder key) := by
  have hlength : (m.reorder key).segments.length = m.segments.length :=
    (permuteRuns_perm (sortOn_perm key) m.segments).length_eq
  refine ⟨(shortens_sortRuns key m.segments).not_mem_loop h.loops, ?_, h.flattened, ?_⟩
  · rw [hlength]
    exact h.combined
  · rw [hlength]
    exact h.dropped

theorem of_absorb {join : Transfer → Transfer → Checked (Option Transfer)} {out : Absorbed}
    {dropped : Nat} {stats : MergeStats} (h : Few flattenings m)
    (hout : absorb join m.segments = .ok out)
    (hstats : stats.duplicates + stats.joinedRows + stats.joinedRects =
      m.stats.duplicates + m.stats.joinedRows + m.stats.joinedRects + out.absorbed.length)
    (hflattened : stats.flattened = m.stats.flattened)
    (hdropped : dropped ≤ m.dropped + out.absorbed.length * 2 ^ 43) :
    Few flattenings { segments := out.kept, dropped, stats } := by
  have hlength := length_absorb hout
  have hcombined := h.combined
  have hbudget := h.dropped
  rw [← hlength, Nat.add_mul] at hbudget
  refine ⟨(shortens_absorb hout).not_mem_loop h.loops, ?_, hflattened ▸ h.flattened, ?_⟩
  · dsimp only
    omega
  · dsimp only
    omega

theorem total_elements_le (ts : List Transfer) :
    total (ts.map Transfer.elements) ≤ ts.length * 2 ^ 43 := by
  induction ts with
  | nil => exact le_rfl
  | cons t ts ih =>
    have := t.elements_lt
    simp only [List.map_cons, List.length_cons, total_eq_sum, List.sum_cons] at ih ⊢
    omega

theorem exists_dropDuplicates (h : Few flattenings m) :
    ∃ m', m.dropDuplicates = .ok m' ∧ Sized.dropDuplicates m = .ok m' ∧ Few flattenings m' := by
  obtain ⟨out, hout⟩ : ∃ out,
      absorb (fun a b => return if a.sameCommand b then some a else none) m.segments =
        (.ok out : Checked Absorbed) := exists_absorbWith fun _ _ => ⟨_, rfl⟩
  have hlength := length_absorb hout
  have hcombined := h.combined
  have hbudget := h.dropped
  have hlost := total_elements_le out.absorbed
  have hdropped := @addElements_eq m.dropped out.absorbed (by omega)
  refine ⟨_, bind_eq_ok_iff.mpr ⟨out, hout, bind_eq_ok_iff.mpr ⟨_, hdropped, rfl⟩⟩, ?_, ?_⟩
  · unfold Sized.dropDuplicates
    simp only [hout, ok_bind, Sized.elements_eq, hdropped]
    rw [Sized.raise_eq (by omega)]
    rfl
  · exact h.of_absorb hout (by dsimp only; omega) rfl (Nat.add_le_add_left hlost _)

theorem flatten (h : Few flattenings m) (maxElements : Nat) (hfew : flattenings < 2 ^ 20) :
    Sized.flatten m maxElements = .ok (m.flatten maxElements) ∧
      Few (flattenings + 1) (m.flatten maxElements) := by
  have hcombined := h.combined
  have hflattened := h.flattened
  have hcount := List.countP_le_length (p := flattens maxElements) (l := m.segments)
  have hsegments : m.segments.mapM (Sized.flattenSegment maxElements) =
      .ok (m.segments.map (flattenSegment maxElements)) := by
    rw [show Sized.flattenSegment maxElements = fun s => pure (flattenSegment maxElements s) from
      funext (Sized.flattenSegment_eq maxElements)]
    exact List.mapM_pure
  constructor
  · unfold Sized.flatten
    rw [hsegments, ok_bind, Sized.raise_eq (by omega)]
    rfl
  · have hshortens := Shortens.of_sameKind (m.sameKind_flatten maxElements)
    refine ⟨hshortens.not_mem_loop h.loops, ?_, ?_, ?_⟩
    · rw [Merging.flatten, List.length_map]
      exact hcombined
    · change m.stats.flattened + m.segments.countP (flattens maxElements) ≤ _
      omega
    · rw [Merging.flatten, List.length_map]
      exact h.dropped

theorem trim (h : Few flattenings m) (ht : m.trim = .ok m') : Few flattenings m' := by
  have hsegments := sameKind_trim ht
  have hlength := hsegments.length_eq
  obtain ⟨_, -, ht⟩ := bind_eq_ok_iff.mp ht
  obtain rfl := pure_eq_ok_iff.mp ht
  refine ⟨(Shortens.of_sameKind hsegments).not_mem_loop h.loops, ?_, h.flattened, ?_⟩
  · rw [← hlength]
    exact h.combined
  · rw [← hlength]
    exact h.dropped

theorem exists_joinRows (h : Few flattenings m) :
    ∃ m', m.joinRows = .ok m' ∧ Sized.joinRows m = .ok m' ∧ Few flattenings m' := by
  obtain ⟨out, hout⟩ : ∃ out, absorb Transfer.joinRow m.segments = .ok out :=
    exists_absorbWith Transfer.exists_joinRow
  have hlength := length_absorb hout
  have hcombined := h.combined
  refine ⟨_, bind_eq_ok_iff.mpr ⟨out, hout, rfl⟩, ?_, ?_⟩
  · unfold Sized.joinRows
    rw [show Sized.joinRow = Transfer.joinRow from funext₂ Sized.joinRow_eq, hout, ok_bind,
      Sized.raise_eq (by omega), ok_bind, Checked.add_eq_ok_iff.mpr ⟨rfl, by omega⟩, ok_bind,
      Nat.zero_add]
    rfl
  · exact h.of_absorb hout (by dsimp only; omega) rfl (Nat.le_add_right _ _)

theorem joinRects_cases (h : Few flattenings m) :
    Sized.joinRects m = m.joinRects ∧ ∀ m', m.joinRects = .ok m' → Few flattenings m' := by
  unfold Sized.joinRects Merging.joinRects
  rw [show Sized.joinRect = Transfer.joinRect from funext₂ Sized.joinRect_eq]
  cases hout : absorb Transfer.joinRect m.segments with
  | error o =>
    refine ⟨rfl, ?_⟩
    intro m' hm'
    cases hm'
  | ok out =>
    have hlength := length_absorb hout
    have hcombined := h.combined
    constructor
    · rw [ok_bind, ok_bind, Sized.raise_eq (by omega), ok_bind,
        Checked.add_eq_ok_iff.mpr ⟨rfl, by omega⟩, ok_bind, Nat.zero_add]
    · intro m' hm'
      obtain rfl := pure_eq_ok_iff.mp hm'
      exact h.of_absorb hout (by dsimp only; omega) rfl (Nat.le_add_right _ _)

theorem countElements (h : Few flattenings m) :
    CommandStream.countElements m.segments = .ok (elementTotal m.segments) := by
  have hcombined := h.combined
  exact (fitsCounters_of_length h.loops (by omega)).countElements

end Few

theorem few_start {segments : List Segment} (hlength : segments.length < 2 ^ 20)
    (hloops : ∀ l, .loop l ∉ segments) : Few 0 { segments := segments } where
  loops := hloops
  combined := by simpa using hlength
  flattened := Nat.zero_le _
  dropped := by
    dsimp only
    omega

end Merging

/-! ## The whole merge -/

theorem Sized.mergeWithStats_eq {segments : List Segment} {maxElements : Nat}
    (hlength : segments.length < 2 ^ 20) (hloops : ∀ l, .loop l ∉ segments) :
    Sized.mergeWithStats segments maxElements =
      CommandStream.mergeWithStats segments maxElements := by
  have hstart := Merging.few_start hlength hloops
  obtain ⟨m₁, h₁, s₁, f₁⟩ := (hstart.reorder Transfer.hostKey).exists_dropDuplicates
  obtain ⟨s₂, f₂⟩ := f₁.flatten maxElements (by decide)
  unfold mergeWithStats CommandStream.mergeWithStats
  rw [countElements_eq]
  refine bind_congr_of_ok fun before _ => ?_
  dsimp only
  rw [s₁, h₁, liftM_checked_ok, ok_bind, ok_bind, s₂, liftM_checked_ok, ok_bind]
  refine bind_congr_of_ok fun m₃ h₃ => ?_
  obtain ⟨m₄, h₄, s₄, f₄⟩ := (f₂.trim (liftM_fault_eq_ok_iff.mp h₃)).exists_joinRows
  obtain ⟨s₅, hrest⟩ := f₄.joinRects_cases
  rw [s₄, h₄, liftM_checked_ok, ok_bind, ok_bind, s₅]
  refine bind_congr_of_ok fun m₅ h₅ => ?_
  obtain ⟨m₆, h₆, s₆, f₆⟩ := ((hrest m₅ (liftM_checked_eq_ok_iff.mp h₅)).reorder
    Transfer.localKey).exists_dropDuplicates
  obtain ⟨s₇, f₇⟩ := f₆.flatten maxElements (by decide)
  obtain ⟨m₈, h₈, s₈, f₈⟩ := f₇.exists_joinRows
  rw [s₆, h₆, liftM_checked_ok, ok_bind, ok_bind, s₇, liftM_checked_ok, ok_bind, s₈, h₈,
    liftM_checked_ok, ok_bind, ok_bind, f₈.joinRects_cases.1]
  simp only [countElements_eq]

theorem Sized.merge_eq {segments : List Segment} {maxElements : Nat}
    (hlength : segments.length < 2 ^ 20) (hloops : ∀ l, .loop l ∉ segments) :
    Sized.merge segments maxElements = CommandStream.merge segments maxElements := by
  rw [merge, CommandStream.merge, mergeWithStats_eq hlength hloops]

end CommandStream
