import CommandStream.Proofs.MergeMeaning

/-! # Rolling loops keeps the meaning

A loop takes the place of a run only if it expands to that run, so unrolling undoes rolling.
-/

namespace CommandStream

variable {keep : Set WordMove}

namespace Progression

variable {p p' : Progression} {t next : Transfer}

theorem transfers_start? (h : start? t next = some p) : p.transfers = [t, next] := by
  simp only [start?, Option.bind_eq_bind, Option.bind_eq_some_iff, Option.pure_def,
    Option.some.injEq] at h
  obtain ⟨_, -, _, -, rfl⟩ := h
  rfl

theorem stepInner?_transfers {cluster unit : Int} (h : p.stepInner? next cluster unit = some p') :
    p'.first = p.first ∧ p'.others = p.others := by
  unfold stepInner? at h
  split at h
  · exact (Option.some.inj h) ▸ ⟨rfl, rfl⟩
  · split at h
    · split at h
      · exact (Option.some.inj h) ▸ ⟨rfl, rfl⟩
      · cases h
    · exact (Option.some.inj h) ▸ ⟨rfl, rfl⟩

theorem stepUnit?_transfers {cluster unit : Int} (h : p.stepUnit? cluster unit = some p') :
    p'.first = p.first ∧ p'.others = p.others := by
  unfold stepUnit? at h
  split at h
  · exact (Option.some.inj h) ▸ ⟨rfl, rfl⟩
  · split at h
    · split at h
      · exact (Option.some.inj h) ▸ ⟨rfl, rfl⟩
      · cases h
    · split at h <;> exact (Option.some.inj h) ▸ ⟨rfl, rfl⟩

theorem stepCluster_transfers (p : Progression) (cluster : Int) :
    (p.stepCluster cluster).first = p.first ∧ (p.stepCluster cluster).others = p.others := by
  unfold stepCluster
  split <;> exact ⟨rfl, rfl⟩

theorem transfers_push? (h : p.push? next = some p') : p'.transfers = p.transfers ++ [next] := by
  simp only [push?, Option.bind_eq_bind, Option.bind_eq_some_iff, Option.pure_def,
    Option.some.injEq] at h
  obtain ⟨⟨cluster, unit⟩, -, _, -, p₁, h₁, p₂, h₂, rfl⟩ := h
  obtain ⟨f₁, o₁⟩ := stepInner?_transfers h₁
  obtain ⟨f₂, o₂⟩ := stepUnit?_transfers h₂
  obtain ⟨f₃, o₃⟩ := stepCluster_transfers p₂ cluster
  simp only [transfers, noteShifts, f₃, f₂, f₁, o₃, o₂, o₁, List.reverse_cons, List.cons_append]

theorem unroll_map_transfer (run : List Transfer) :
    unroll (run.map .transfer) = run.map .transfer := by
  induction run with
  | nil => rfl
  | cons t run ih =>
    rw [List.map_cons, unroll, List.flatMap_cons]
    exact congrArg (Segment.transfer t :: ·) ih

theorem unroll_finish (p : Progression) (minLen : Nat) :
    unroll (p.finish minLen) = p.transfers.map .transfer := by
  unfold finish
  split
  · rename_i l _
    split
    · rename_i hl
      have he : l.expand = p.transfers := by
        simp only [Bool.and_eq_true, beq_iff_eq] at hl
        exact hl.2
      simp [unroll, Segment.unroll, he]
    · exact unroll_map_transfer _
  · exact unroll_map_transfer _

end Progression

def LoopCandidate.transfers : LoopCandidate → List Transfer
  | .single t => [t]
  | .progression p => p.transfers

theorem unroll_append (a b : List Segment) : unroll (a ++ b) = unroll a ++ unroll b :=
  List.flatMap_append

theorem unroll_rollFrom (minLen : Nat) (candidate : LoopCandidate) (rest : List Transfer) :
    unroll (rollFrom minLen candidate rest) = (candidate.transfers ++ rest).map .transfer := by
  fun_induction rollFrom with
  | case1 t => rfl
  | case2 t next rest p hp ih =>
    have ht : (LoopCandidate.progression p).transfers = [t, next] := Progression.transfers_start? hp
    rw [ih, ht]
    rfl
  | case3 t next rest hp ih =>
    exact congrArg (Segment.transfer t :: ·) ih
  | case4 p => rw [Progression.unroll_finish, LoopCandidate.transfers, List.append_nil]
  | case5 p next rest p' hp ih =>
    have ht : (LoopCandidate.progression p').transfers = p.transfers ++ [next] :=
      Progression.transfers_push? hp
    rw [ih, ht, List.append_assoc]
    rfl
  | case6 p next rest hp ih =>
    rw [unroll_append, Progression.unroll_finish, ih, ← List.map_append]
    rfl

theorem unroll_rollRun (minLen : Nat) (run : List Transfer) :
    unroll (rollRun minLen run) = run.map .transfer := by
  cases run with
  | nil => rfl
  | cons t rest => exact unroll_rollFrom minLen (.single t) rest

theorem meaning_unroll (segments : List Segment) :
    meaning keep (unroll segments) = meaning keep segments := by
  conv_rhs => rw [← List.flatMap_singleton' segments]
  refine meaning_flatMap_congr segments fun s _ => ?_
  cases s with
  | loop l =>
    refine meaning_eq_of_dma (by simp [Segment.unroll, Segment.isDma]) (by simp [Segment.isDma]) ?_
    congr 1
    ext w
    simp [streamMoves, Segment.unroll, Segment.moves, Segment.transfers]
  | transfer _ | compute _ | block _ | sync _ | padding _ | scatter _ => rfl

theorem meaning_rollRun (minLen : Nat) (run : List Transfer) :
    meaning keep (rollRun minLen run) = meaning keep (run.map .transfer) := by
  rw [← meaning_unroll, unroll_rollRun]

theorem rollLoops_eq_ok {segments out : List Segment} {minLen : Nat}
    (h : rollLoops segments minLen = .ok out) :
    out = refreshBlocks (mapRuns Transfer.sameShape (rollRun (max minLen 2)) segments) := by
  unfold rollLoops at h
  simp only [bind_eq_ok_iff] at h
  obtain ⟨before, -, h⟩ := h
  split at h
  · obtain ⟨_, hr, -⟩ := bind_eq_ok_iff.mp h
    exact absurd hr refuse_ne_ok
  · obtain ⟨after, -, h⟩ := bind_eq_ok_iff.mp h
    split at h
    · obtain ⟨_, hr, -⟩ := bind_eq_ok_iff.mp h
      exact absurd hr refuse_ne_ok
    · exact (pure_eq_ok_iff.mp h).symm

theorem meaning_rollLoops {segments out : List Segment} {minLen : Nat}
    (h : rollLoops segments minLen = .ok out) : meaning keep out = meaning keep segments := by
  rw [rollLoops_eq_ok h, meaning_refreshBlocks]
  exact meaning_mapRuns (meaning_rollRun _) segments

end CommandStream
