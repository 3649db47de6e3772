import CommandStream.Proofs.Outcomes
import CommandStream.Schedule.Recorder

/-! # Working on a recorder

Work on a recorder succeeds or fails, and leaves a recorder either way. What composed work does is
said in terms of its parts.
-/

namespace CommandStream

variable {α β : Type}

def Succeeds (x : Recording α) (r : Recorder) (a : α) (r' : Recorder) : Prop :=
  (x.run.run r).run = (.ok a, r')

def Fails (x : Recording α) (r : Recorder) (e : Failure) (r' : Recorder) : Prop :=
  (x.run.run r).run = (.error e, r')

theorem succeeds_or_fails (x : Recording α) (r : Recorder) :
    (∃ a r', Succeeds x r a r') ∨ ∃ e r', Fails x r e r' := by
  rcases hx : (x.run.run r).run with ⟨e | a, r'⟩
  · exact .inr ⟨e, r', hx⟩
  · exact .inl ⟨a, r', hx⟩

theorem Succeeds.not_fails {x : Recording α} {r r₁ r₂ : Recorder} {a : α} {e : Failure}
    (h : Succeeds x r a r₁) : ¬Fails x r e r₂ := by
  intro hfails
  cases h.symm.trans hfails

theorem exists_succeeds {x : Recording α} {r : Recorder} (h : (x.run.run r).run.1.isOk = true) :
    ∃ a r', Succeeds x r a r' := by
  obtain hx | ⟨e, r', hx⟩ := succeeds_or_fails x r
  · exact hx
  · rw [hx] at h
    cases h

theorem run_bind (x : Recording α) (f : α → Recording β) (r : Recorder) :
    ((x >>= f).run.run r).run = match (x.run.run r).run with
      | (.ok a, r₁) => ((f a).run.run r₁).run
      | (.error e, r₁) => (.error e, r₁) := by
  rw [ExceptT.run_bind, StateT.run_bind]
  rcases x.run.run r with ⟨a | a, r₁⟩ <;> rfl

theorem succeeds_bind_iff {x : Recording α} {f : α → Recording β} {r r' : Recorder} {b : β} :
    Succeeds (x >>= f) r b r' ↔ ∃ a r₁, Succeeds x r a r₁ ∧ Succeeds (f a) r₁ b r' := by
  unfold Succeeds
  rw [run_bind]
  rcases (x.run.run r).run with ⟨e | a, r₁⟩
  · simp
  · simp only [Prod.mk.injEq, Except.ok.injEq]
    constructor
    · intro h
      exact ⟨a, r₁, ⟨rfl, rfl⟩, h⟩
    · rintro ⟨_, _, ⟨rfl, rfl⟩, h⟩
      exact h

theorem fails_bind_iff {x : Recording α} {f : α → Recording β} {r r' : Recorder} {e : Failure} :
    Fails (x >>= f) r e r' ↔ Fails x r e r' ∨ ∃ a r₁, Succeeds x r a r₁ ∧ Fails (f a) r₁ e r' := by
  unfold Fails Succeeds
  rw [run_bind]
  rcases (x.run.run r).run with ⟨e | a, r₁⟩
  · simp
  · simp only [Prod.mk.injEq, reduceCtorEq, false_and, Except.ok.injEq, false_or]
    constructor
    · intro h
      exact ⟨a, r₁, ⟨rfl, rfl⟩, h⟩
    · rintro ⟨_, _, ⟨rfl, rfl⟩, h⟩
      exact h

@[simp] theorem succeeds_pure_iff {a b : α} {r r' : Recorder} :
    Succeeds (pure a) r b r' ↔ a = b ∧ r = r' := by
  change ((Except.ok a : Except Failure α), r) = (Except.ok b, r') ↔ _
  simp

@[simp] theorem succeeds_get_iff {r r' s : Recorder} : Succeeds get r s r' ↔ r = s ∧ r = r' := by
  change ((Except.ok r : Except Failure Recorder), r) = (Except.ok s, r') ↔ _
  simp

@[simp] theorem succeeds_set_iff {r r' s : Recorder} {u : PUnit} :
    Succeeds (set s) r u r' ↔ s = r' := by
  change ((Except.ok PUnit.unit : Except Failure PUnit), s) = (Except.ok u, r') ↔ _
  simp

@[simp] theorem succeeds_modify_iff {r r' : Recorder} {f : Recorder → Recorder} {u : PUnit} :
    Succeeds (modify f) r u r' ↔ f r = r' := by
  change ((Except.ok PUnit.unit : Except Failure PUnit), f r) = (Except.ok u, r') ↔ _
  simp

@[simp] theorem succeeds_checked_iff {x : Checked α} {a : α} {r r' : Recorder} :
    Succeeds (liftM x) r a r' ↔ x = .ok a ∧ r = r' := by
  change ((liftM x : Outcome α), r) = (Except.ok a, r') ↔ _
  simp

@[simp] theorem succeeds_fault_iff {x : Except Fault α} {a : α} {r r' : Recorder} :
    Succeeds (liftM x) r a r' ↔ x = .ok a ∧ r = r' := by
  change ((liftM x : Outcome α), r) = (Except.ok a, r') ↔ _
  simp

@[simp] theorem fails_fault_iff {x : Except Fault α} {e : Failure} {r r' : Recorder} :
    Fails (liftM x) r e r' ↔ ∃ f, x = .error f ∧ .fault f = e ∧ r = r' := by
  change ((liftM x : Outcome α), r) = (Except.error e, r') ↔ _
  cases x with
  | error f => simp [liftM, monadLift, MonadLift.monadLift, Except.mapError]
  | ok a => simp [liftM, monadLift, MonadLift.monadLift, Except.mapError]

@[simp] theorem not_succeeds_throw {f : Failure} {a : α} {r r' : Recorder} :
    ¬Succeeds (throw f) r a r' := by
  change ((Except.error f : Except Failure α), r) ≠ (Except.ok a, r')
  simp

theorem forall₂_of_succeeds_mapM {f : α → Recording β} {xs : List α} {ys : List β}
    {r r' : Recorder} (h : Succeeds (xs.mapM f) r ys r') :
    List.Forall₂ (fun x y => ∃ r₁ r₂, Succeeds (f x) r₁ y r₂) xs ys := by
  induction xs generalizing r ys with
  | nil =>
    rw [List.mapM_nil, succeeds_pure_iff] at h
    obtain ⟨rfl, -⟩ := h
    exact .nil
  | cons x xs ih =>
    simp only [List.mapM_cons, succeeds_bind_iff, succeeds_pure_iff] at h
    obtain ⟨y, r₁, hx, ys, _, hxs, rfl, rfl⟩ := h
    exact .cons ⟨r, r₁, hx⟩ (ih hxs)

theorem succeeds_mapM_append_iff {f : α → Recording β} {xs xs' : List α} {ys : List β}
    {r r' : Recorder} :
    Succeeds ((xs ++ xs').mapM f) r ys r' ↔ ∃ ys₁ ys₂ r₁,
      Succeeds (xs.mapM f) r ys₁ r₁ ∧ Succeeds (xs'.mapM f) r₁ ys₂ r' ∧ ys = ys₁ ++ ys₂ := by
  rw [List.mapM_append]
  simp only [succeeds_bind_iff, succeeds_pure_iff]
  constructor
  · rintro ⟨ys₁, r₁, h₁, ys₂, _, h₂, rfl, rfl⟩
    exact ⟨ys₁, ys₂, r₁, h₁, h₂, rfl⟩
  · rintro ⟨ys₁, ys₂, r₁, h₁, h₂, rfl⟩
    exact ⟨ys₁, r₁, h₁, ys₂, r', h₂, rfl, rfl⟩

theorem exists_of_fails_mapM {f : α → Recording β} {xs : List α} {r r' : Recorder} {e : Failure}
    (h : Fails (xs.mapM f) r e r') :
    ∃ front x back ys r₁, xs = front ++ x :: back ∧ Succeeds (front.mapM f) r ys r₁ ∧
      Fails (f x) r₁ e r' := by
  induction xs generalizing r with
  | nil => cases h
  | cons x xs ih =>
    rw [List.mapM_cons, fails_bind_iff] at h
    rcases h with hx | ⟨y, r₁, hx, h⟩
    · exact ⟨[], x, xs, [], r, rfl, succeeds_pure_iff.mpr ⟨rfl, rfl⟩, hx⟩
    · rcases fails_bind_iff.mp h with hxs | ⟨_, _, -, hpure⟩
      · obtain ⟨front, z, back, ys, r₂, rfl, hfront, hz⟩ := ih hxs
        refine ⟨x :: front, z, back, y :: ys, r₂, rfl, ?_, hz⟩
        rw [List.mapM_cons]
        exact succeeds_bind_iff.mpr ⟨y, r₁, hx, succeeds_bind_iff.mpr
          ⟨ys, r₂, hfront, succeeds_pure_iff.mpr ⟨rfl, rfl⟩⟩⟩
      · cases hpure

/-! ## Overflows -/

def OnlyOverflows (x : Recording α) : Prop := ∀ r e r', Fails x r e r' → ∃ o, e = .overflow o

theorem onlyOverflows_pure (a : α) : OnlyOverflows (pure a) := by
  rintro r e r' ⟨⟩

theorem onlyOverflows_get : OnlyOverflows get := by
  rintro r e r' ⟨⟩

theorem onlyOverflows_set (s : Recorder) : OnlyOverflows (set s) := by
  rintro r e r' ⟨⟩

theorem onlyOverflows_modify (f : Recorder → Recorder) : OnlyOverflows (modify f) := by
  rintro r e r' ⟨⟩

theorem onlyOverflows_throw (o : Overflow) : OnlyOverflows (throw (.overflow o) : Recording α) := by
  rintro r e r' ⟨⟩
  exact ⟨o, rfl⟩

theorem onlyOverflows_checked (x : Checked α) : OnlyOverflows (liftM x) := by
  cases x with
  | error o => exact onlyOverflows_throw o
  | ok a => exact onlyOverflows_pure a

namespace OnlyOverflows

theorem bind {x : Recording α} {f : α → Recording β} (hx : OnlyOverflows x)
    (hf : ∀ a, OnlyOverflows (f a)) : OnlyOverflows (x >>= f) := by
  intro r e r' h
  rcases fails_bind_iff.mp h with h | ⟨a, r₁, -, h⟩
  · exact hx r e r' h
  · exact hf a r₁ e r' h

theorem forM {f : α → Recording Unit} (hf : ∀ a, OnlyOverflows (f a)) (xs : List α) :
    OnlyOverflows (xs.forM f) := by
  induction xs with
  | nil => exact onlyOverflows_pure ()
  | cons x xs ih => exact (hf x).bind fun _ => ih

end OnlyOverflows

end CommandStream
