import CommandStream.Proofs.MergeMeaning
import CommandStream.Proofs.StreamCounts

/-! # Neighbouring transfers

A sweep looks at neighbours only. It changes nothing exactly if no two neighbours are joined, every
transfer that goes into another saves a record, and where a joined transfer meets the one before it
as its first part did, no two neighbours are left that could be joined.
-/

namespace CommandStream

def Segment.Meet (R : Transfer → Transfer → Prop) (s u : Segment) : Prop :=
  ∀ a b, s = .transfer a → u = .transfer b → R a b

/-- Every two neighbouring transfers satisfy `R`. -/
def Neighbours (R : Transfer → Transfer → Prop) (segments : List Segment) : Prop :=
  segments.IsChain (Segment.Meet R)

section Neighbours

variable {R R' : Transfer → Transfer → Prop} {segments rest : List Segment} {s : Segment}
  {a b : Transfer}

theorem Neighbours.nil : Neighbours R [] := List.IsChain.nil

theorem Neighbours.imp (h : Neighbours R segments) (hR : ∀ a b, R a b → R' a b) :
    Neighbours R' segments :=
  List.IsChain.imp (fun _ _ hmeet a b ha hb => hR a b (hmeet a b ha hb)) h

theorem Neighbours.and (h : Neighbours R segments) (h' : Neighbours R' segments) :
    Neighbours (fun a b => R a b ∧ R' a b) segments := by
  induction segments with
  | nil => exact .nil
  | cons s rest ih =>
    obtain ⟨hhead, hrest⟩ := List.isChain_cons.mp h
    obtain ⟨hhead', hrest'⟩ := List.isChain_cons.mp h'
    refine List.isChain_cons.mpr ⟨fun u hu a b ha hb => ?_, ih hrest hrest'⟩
    exact ⟨hhead u hu a b ha hb, hhead' u hu a b ha hb⟩

@[simp] theorem neighbours_singleton : Neighbours R [s] := List.isChain_singleton s

theorem neighbours_transfers :
    Neighbours R (.transfer a :: .transfer b :: rest) ↔
      R a b ∧ Neighbours R (.transfer b :: rest) := by
  refine List.isChain_cons_cons.trans (and_congr_left fun _ => ?_)
  constructor
  · intro h
    exact h a b rfl rfl
  · rintro h _ _ ⟨⟩ ⟨⟩
    exact h

theorem neighbours_of_forall_left (h : ∀ b, R a b) :
    Neighbours R (.transfer a :: rest) ↔ Neighbours R rest := by
  refine List.isChain_cons.trans (and_iff_right ?_)
  rintro u - _ b ⟨⟩ -
  exact h b

theorem neighbours_pending (pending : Option Transfer) :
    Neighbours R (pending.toList.map .transfer) := by
  cases pending with
  | none => exact .nil
  | some t => exact neighbours_singleton

theorem neighbours_barrier (hs : s.transfer? = none) :
    Neighbours R (s :: rest) ↔ Neighbours R rest := by
  refine List.isChain_cons.trans (and_iff_right ?_)
  rintro u - a b rfl
  cases hs

theorem neighbours_before_barrier (hs : s.transfer? = none) (pending : List Transfer) :
    Neighbours R (pending.map .transfer ++ s :: rest) ↔
      Neighbours R (pending.map .transfer) ∧ Neighbours R rest := by
  refine List.isChain_append.trans ?_
  rw [show List.IsChain (Segment.Meet R) (s :: rest) ↔ Neighbours R rest from
    neighbours_barrier hs]
  refine and_congr_right fun _ => and_iff_left ?_
  rintro x - y hy a b - rfl
  obtain rfl : s = .transfer b := by simpa using hy
  cases hs

end Neighbours

/-! ## Sweeps that join nothing -/

section Sweeps

variable {ε : Type} {join : Transfer → Transfer → Except ε (Option Transfer)}
  {pending : Option Transfer} {segments : List Segment} {out : Absorbed}

theorem absorbWith_of_neighbours
    (h : Neighbours (fun a b => join a b = .ok none) (pending.toList.map .transfer ++ segments)) :
    absorbWith join pending segments = .ok ⟨pending.toList.map .transfer ++ segments, []⟩ := by
  induction segments generalizing pending with
  | nil => rw [absorbWith, List.append_nil]; rfl
  | cons s rest ih =>
    cases hst : s.transfer? with
    | none =>
      obtain ⟨-, hrest⟩ := (neighbours_before_barrier hst _).mp h
      have hout : absorbWith join none rest = .ok ⟨rest, []⟩ := ih hrest
      rw [absorbWith_barrier hst, hout]
      rfl
    | some t =>
      obtain rfl := Segment.transfer?_eq_some_iff.mp hst
      cases pending with
      | none => rw [absorbWith, ih h]; rfl
      | some last =>
        obtain ⟨hjoin, hrest⟩ := neighbours_transfers.mp h
        have hout : absorbWith join (some t) rest = .ok ⟨.transfer t :: rest, []⟩ := ih hrest
        rw [absorbWith, hjoin, ok_bind, hout]
        rfl

theorem absorb_of_neighbours (h : Neighbours (fun a b => join a b = .ok none) segments) :
    absorb join segments = .ok ⟨segments, []⟩ :=
  absorbWith_of_neighbours h

/-- Every transfer that goes into another one saves its record, so a sweep that saves none has found
nothing to join. -/
theorem Absorbs.recordCount_cases {R : Transfer → Transfer → Option Transfer → Prop}
    {kept : List Segment} (h : Absorbs R pending segments kept) :
    recordCount kept ≤ recordCount (pending.toList.map .transfer ++ segments) ∧
      (recordCount kept = recordCount (pending.toList.map .transfer ++ segments) →
        kept = pending.toList.map .transfer ++ segments ∧
          Neighbours (fun a b => R a b none) (pending.toList.map .transfer ++ segments)) := by
  induction h with
  | @nil pending =>
    rw [List.append_nil]
    refine ⟨le_rfl, fun _ => ⟨rfl, ?_⟩⟩
    cases pending <;> simp [Neighbours.nil]
  | @barrier pending s rest kept hs _ ih =>
    simp only [Option.toList_none, List.map_nil, List.nil_append] at ih
    obtain ⟨hle, hsame⟩ := ih
    simp only [recordCount_append, recordCount_cons]
    refine ⟨by omega, fun hcount => ?_⟩
    obtain ⟨rfl, hrest⟩ := hsame (by omega)
    refine ⟨rfl, (neighbours_before_barrier hs _).mpr ⟨?_, hrest⟩⟩
    cases pending <;> simp [Neighbours.nil]
  | first _ ih => exact ih
  | apart hj _ ih =>
    obtain ⟨hle, hsame⟩ := ih
    simp only [Option.toList_some, List.map_cons, List.map_nil, List.cons_append, List.nil_append,
      recordCount_cons] at hle hsame ⊢
    refine ⟨by omega, fun hcount => ?_⟩
    obtain ⟨rfl, hrest⟩ := hsame (by omega)
    exact ⟨rfl, neighbours_transfers.mpr ⟨hj, hrest⟩⟩
  | join _ _ ih =>
    obtain ⟨hle, -⟩ := ih
    simp only [Option.toList_some, List.map_cons, List.map_nil, List.cons_append, List.nil_append,
      recordCount_cons, Segment.records] at hle ⊢
    exact ⟨by omega, fun hcount => by omega⟩

theorem absorb_cases (h : absorb join segments = .ok out) :
    recordCount out.kept ≤ recordCount segments ∧
      (recordCount out.kept = recordCount segments →
        out.kept = segments ∧ Neighbours (fun a b => join a b = .ok none) segments) :=
  (absorbs_of_eq_ok h).recordCount_cases

end Sweeps

/-! ## What a sweep leaves -/

section Leaves

variable {R : Transfer → Transfer → Option Transfer → Prop} {N : Transfer → Transfer → Prop}
  (hafter : ∀ {a b joined c}, N a b → R a b (some joined) → N b c → N joined c)
  (hbefore : ∀ {x a b joined}, N x a → R x a none → N a b → R a b (some joined) →
    N x joined ∧ R x joined none)

include hafter in
theorem neighbours_joined {a b joined : Transfer} {rest : List Segment}
    (h : Neighbours N (.transfer a :: .transfer b :: rest)) (hj : R a b (some joined)) :
    Neighbours N (.transfer joined :: rest) := by
  obtain ⟨hab, hrest⟩ := neighbours_transfers.mp h
  obtain ⟨hhead, hrest⟩ := List.isChain_cons.mp hrest
  refine List.isChain_cons.mpr ⟨?_, hrest⟩
  rintro u hu x c ⟨⟩ rfl
  exact hafter hab hj (hhead _ hu b c rfl rfl)

include hafter hbefore

/-- A joined transfer meets what is behind it as its second part did, and what is before it as its
first part did: then neighbours that were not joined cannot be joined later. -/
theorem Absorbs.neighbours {pending : Option Transfer} {segments kept : List Segment}
    (h : Absorbs R pending segments kept)
    (hN : Neighbours N (pending.toList.map .transfer ++ segments)) :
    Neighbours (fun a b => N a b ∧ R a b none) kept ∧
      ∀ x, ∀ t ∈ pending, N x t → R x t none →
        Neighbours (fun a b => N a b ∧ R a b none) (.transfer x :: kept) := by
  induction h with
  | @nil pending =>
    cases pending with
    | none => exact ⟨.nil, by simp⟩
    | some t =>
      refine ⟨neighbours_singleton, ?_⟩
      rintro x _ ⟨⟩ hx hnone
      exact neighbours_transfers.mpr ⟨⟨hx, hnone⟩, neighbours_singleton⟩
  | @barrier pending s rest kept hs _ ih =>
    obtain ⟨-, hrest⟩ := (neighbours_before_barrier hs _).mp hN
    obtain ⟨hkept, -⟩ := ih hrest
    have hsingle : Neighbours (fun a b => N a b ∧ R a b none) (pending.toList.map .transfer) := by
      cases pending <;> simp [Neighbours.nil]
    refine ⟨(neighbours_before_barrier hs _).mpr ⟨hsingle, hkept⟩, ?_⟩
    rintro x t ⟨⟩ hx hnone
    refine neighbours_transfers.mpr ⟨⟨hx, hnone⟩, ?_⟩
    exact (neighbours_before_barrier hs [t]).mpr ⟨neighbours_singleton, hkept⟩
  | first _ ih => exact ⟨(ih hN).1, by simp⟩
  | @apart last t rest kept hj _ ih =>
    obtain ⟨hlast, hrest⟩ := neighbours_transfers.mp hN
    have hkept := (ih hrest).2 last t rfl hlast hj
    refine ⟨hkept, ?_⟩
    rintro x _ ⟨⟩ hx hnone
    exact neighbours_transfers.mpr ⟨⟨hx, hnone⟩, hkept⟩
  | @join last t joined rest kept hj _ ih =>
    obtain ⟨hkept, hfront⟩ := ih (neighbours_joined hafter hN hj)
    refine ⟨hkept, ?_⟩
    rintro x _ ⟨⟩ hx hnone
    obtain ⟨hx, hnone⟩ := hbefore hx hnone (neighbours_transfers.mp hN).1 hj
    exact hfront x joined rfl hx hnone

end Leaves

theorem Neighbours.forall₂ {R R' : Transfer → Transfer → Prop} {P : Transfer → Transfer → Prop}
    {xs ys : List Segment}
    (hR : ∀ {a b a' b'}, P a a' → P b b' → R a b → R' a' b')
    (h : List.Forall₂ (fun s s' => ∀ b, s' = .transfer b → ∃ a, s = .transfer a ∧ P a b) xs ys)
    (hxs : Neighbours R xs) : Neighbours R' ys := by
  induction h with
  | nil => exact .nil
  | @cons s s' xs ys hs htail ih =>
    obtain ⟨hhead, hrest⟩ := List.isChain_cons.mp hxs
    refine List.isChain_cons.mpr ⟨?_, ih hrest⟩
    rintro u' hu' a' b' rfl rfl
    obtain ⟨a, rfl, ha⟩ := hs a' rfl
    cases htail with
    | nil => cases hu'
    | cons hu _ =>
      obtain rfl := Option.some.inj hu'
      obtain ⟨b, rfl, hb⟩ := hu b' rfl
      exact hR ha hb (hhead _ rfl a b rfl rfl)

end CommandStream
