import Mathlib
import CommandStream.Fault

/-! # Successful outcomes

A computation that can fail gives a result only if each of its parts does. Checked arithmetic gives
the number that the unbounded operation gives, as long as it fits the word.
-/

namespace CommandStream

variable {ε α β : Type}

theorem bind_eq_ok_iff {x : Except ε α} {f : α → Except ε β} {b : β} :
    (x >>= f) = .ok b ↔ ∃ a, x = .ok a ∧ f a = .ok b := by
  cases x with
  | error e => simp [bind, Except.bind]
  | ok a => simp [bind, Except.bind]

theorem bind_eq_error_iff {x : Except ε α} {f : α → Except ε β} {e : ε} :
    (x >>= f) = .error e ↔ x = .error e ∨ ∃ a, x = .ok a ∧ f a = .error e := by
  cases x with
  | error e => simp [bind, Except.bind]
  | ok a => simp [bind, Except.bind]

theorem bind_pure_eq_error_iff {x : Except ε α} {f : α → β} {e : ε} :
    (x >>= fun a => pure (f a)) = .error e ↔ x = .error e := by
  rw [bind_eq_error_iff]
  constructor
  · rintro (h | ⟨a, -, h⟩)
    · exact h
    · cases h
  · exact .inl

theorem bind_congr_of_ok {x : Except ε α} {f g : α → Except ε β}
    (h : ∀ a, x = .ok a → f a = g a) : x >>= f = x >>= g := by
  cases x with
  | error e => rfl
  | ok a => exact h a rfl

theorem check_bind_eq_ok_iff {x : Except ε Unit} {f : Unit → Except ε β} {b : β} :
    (x >>= f) = .ok b ↔ x = .ok () ∧ f () = .ok b := by
  cases x with
  | error e => simp [bind, Except.bind]
  | ok a => simp [bind, Except.bind]

theorem guarded_eq_ok_iff {c : Prop} [Decidable c] {e : ε} {f : Unit → Except ε β} {b : β} :
    (if c then throw e >>= f else f ()) = .ok b ↔ ¬c ∧ f () = .ok b := by
  by_cases hc : c
  · rw [if_pos hc]
    exact ⟨fun h => (nomatch h), fun h => absurd hc h.1⟩
  · rw [if_neg hc]
    exact ⟨fun h => ⟨hc, h⟩, And.right⟩

@[simp] theorem ok_bind (a : α) (f : α → Except ε β) : (Except.ok a >>= f) = f a := rfl

theorem map_eq_ok_iff {x : Except ε α} {f : α → β} {b : β} :
    f <$> x = .ok b ↔ ∃ a, x = .ok a ∧ f a = b := by
  cases x with
  | error e => simp [Functor.map, Except.map]
  | ok a => simp [Functor.map, Except.map]

@[simp] theorem pure_eq_ok_iff {a b : α} : (pure a : Except ε α) = .ok b ↔ a = b := by
  simp [pure, Except.pure]

theorem mapM_eq_ok_iff {f : α → Except ε β} {xs : List α} {ys : List β} :
    xs.mapM f = .ok ys ↔ List.Forall₂ (fun x y => f x = .ok y) xs ys := by
  induction xs generalizing ys with
  | nil =>
    cases ys <;> simp [pure, Except.pure]
  | cons x xs ih =>
    simp only [List.mapM_cons, bind_eq_ok_iff, pure_eq_ok_iff, ih]
    cases ys with
    | nil => simp
    | cons y ys => simp

theorem exists_forall₂_iff {R : α → β → Prop} {xs : List α} :
    (∃ ys, List.Forall₂ R xs ys) ↔ ∀ x ∈ xs, ∃ y, R x y := by
  induction xs with
  | nil => simp
  | cons x xs ih =>
    rw [List.forall_mem_cons, ← ih]
    constructor
    · rintro ⟨ys, h⟩
      cases h with
      | cons hx hxs => exact ⟨⟨_, hx⟩, _, hxs⟩
    · rintro ⟨⟨y, hx⟩, ys, hxs⟩
      exact ⟨y :: ys, .cons hx hxs⟩

theorem exists_mapM_eq_ok_iff {f : α → Except ε β} {xs : List α} :
    (∃ ys, xs.mapM f = .ok ys) ↔ ∀ x ∈ xs, ∃ y, f x = .ok y := by
  simp only [mapM_eq_ok_iff, exists_forall₂_iff]

theorem exists_of_mapM_eq_error {f : α → Except ε β} {xs : List α} {e : ε}
    (h : xs.mapM f = .error e) : ∃ x ∈ xs, f x = .error e := by
  induction xs with
  | nil => cases h
  | cons x xs ih =>
    rw [List.mapM_cons] at h
    cases hx : f x with
    | error e' =>
      rw [hx] at h
      exact ⟨x, List.mem_cons_self, hx.trans (congrArg _ (Except.error.inj h))⟩
    | ok y =>
      rw [hx, ok_bind] at h
      cases hxs : xs.mapM f with
      | error e' =>
        rw [hxs] at h
        obtain ⟨z, hz, hfz⟩ := ih (hxs.trans (congrArg _ (Except.error.inj h)))
        exact ⟨z, List.mem_cons_of_mem x hz, hfz⟩
      | ok ys => rw [hxs] at h; cases h

theorem exists_of_foldlM_eq_error {f : β → α → Except ε β} {xs : List α} {b : β} {e : ε}
    (h : xs.foldlM f b = .error e) : ∃ b' x, f b' x = .error e := by
  induction xs generalizing b with
  | nil => cases h
  | cons x xs ih =>
    rw [List.foldlM_cons, bind_eq_error_iff] at h
    obtain h | ⟨b', -, h⟩ := h
    · exact ⟨b, x, h⟩
    · exact ih h

theorem exists_of_mem_forall₂ {R : α → β → Prop} {xs : List α} {ys : List β}
    (h : List.Forall₂ R xs ys) {y : β} (hy : y ∈ ys) : ∃ x ∈ xs, R x y := by
  induction h with
  | nil => simp at hy
  | cons hx _ ih =>
    rcases List.mem_cons.mp hy with rfl | hy
    · exact ⟨_, List.mem_cons_self, hx⟩
    · obtain ⟨x, hx', hxy⟩ := ih hy
      exact ⟨x, List.mem_cons_of_mem _ hx', hxy⟩

theorem forall₂_comp {γ : Type} {R : α → β → Prop} {S : β → γ → Prop} {T : α → γ → Prop}
    (hcomp : ∀ a b c, R a b → S b c → T a c) {xs : List α} {ys : List β} {zs : List γ}
    (h : List.Forall₂ R xs ys) (h' : List.Forall₂ S ys zs) : List.Forall₂ T xs zs := by
  induction h generalizing zs with
  | nil =>
    cases h'
    exact .nil
  | cons hab _ ih =>
    cases h' with
    | cons hbc htail => exact .cons (hcomp _ _ _ hab hbc) (ih htail)

theorem exists_of_mem_mapM {f : α → Except ε β} {xs : List α} {ys : List β}
    (h : xs.mapM f = .ok ys) {y : β} (hy : y ∈ ys) : ∃ x ∈ xs, f x = .ok y :=
  exists_of_mem_forall₂ (mapM_eq_ok_iff.mp h) hy

theorem forM_eq_ok_iff {f : α → Except ε Unit} {xs : List α} :
    xs.forM f = .ok () ↔ ∀ x ∈ xs, f x = .ok () := by
  induction xs with
  | nil => simp [List.forM]
  | cons x xs ih =>
    rw [List.forM, check_bind_eq_ok_iff, List.forall_mem_cons, ih]

theorem mapError_eq_ok_iff {δ : Type} {f : ε → δ} {x : Except ε α} {a : α} :
    x.mapError f = .ok a ↔ x = .ok a := by
  cases x <;> simp [Except.mapError]

theorem mapError_eq_error_iff {δ : Type} {f : ε → δ} {x : Except ε α} {d : δ} :
    x.mapError f = .error d ↔ ∃ e, x = .error e ∧ f e = d := by
  cases x <;> simp [Except.mapError]

@[simp] theorem liftM_checked_eq_ok_iff {x : Checked α} {a : α} :
    (liftM x : Outcome α) = .ok a ↔ x = .ok a :=
  mapError_eq_ok_iff

theorem liftM_checked_ok (a : α) : (liftM (Except.ok a : Checked α) : Outcome α) = .ok a := rfl

@[simp] theorem liftM_fault_eq_ok_iff {x : Except Fault α} {a : α} :
    (liftM x : Outcome α) = .ok a ↔ x = .ok a :=
  mapError_eq_ok_iff

theorem liftM_checked_eq_overflow_iff {x : Checked α} {o : Overflow} :
    (liftM x : Outcome α) = .error (.overflow o) ↔ x = .error o := by
  cases x with
  | error o' =>
    constructor
    · rintro ⟨⟩
      rfl
    · rintro ⟨⟩
      rfl
  | ok a =>
    constructor
    · intro h
      cases h
    · intro h
      cases h

theorem liftM_fault_ne_overflow {x : Except Fault α} {o : Overflow} :
    (liftM x : Outcome α) ≠ .error (.overflow o) := by
  intro h
  cases x <;> cases h

@[simp] theorem refuse_ne_ok {f : Fault} {a : α} : (refuse f : Outcome α) ≠ .ok a := by
  simp [refuse]

/-! ## Checked arithmetic -/

theorem total_eq_sum (xs : List Nat) : total xs = xs.sum := rfl

/-- A running sum that must stay below a bound does so exactly if the whole sum does. -/
theorem foldlM_eq_ok_iff_total {α : Type} {f : Nat → α → Checked Nat} {bound : Nat}
    (weight : α → Nat) (hf : ∀ start x m, f start x = .ok m ↔ start + weight x = m ∧ m < bound)
    (xs : List α) {start n : Nat} (hstart : start < bound) :
    xs.foldlM f start = .ok n ↔ start + total (xs.map weight) = n ∧ n < bound := by
  induction xs generalizing start with
  | nil =>
    rw [List.foldlM_nil, pure_eq_ok_iff]
    constructor
    · rintro rfl
      exact ⟨rfl, hstart⟩
    · exact fun h => h.1
  | cons x xs ih =>
    have hsum : start + total ((x :: xs).map weight) =
        start + weight x + total (xs.map weight) := by
      simp [total_eq_sum, Nat.add_assoc]
    rw [List.foldlM_cons, bind_eq_ok_iff, hsum]
    constructor
    · rintro ⟨m, hm, hrest⟩
      obtain ⟨rfl, hlt⟩ := (hf _ _ _).mp hm
      exact (ih hlt).mp hrest
    · rintro ⟨rfl, hlt⟩
      have hfirst : start + weight x < bound := by omega
      exact ⟨_, (hf _ _ _).mpr ⟨rfl, hfirst⟩, (ih hfirst).mpr ⟨rfl, hlt⟩⟩

theorem bounded_eq_ok_iff {v bound n : Nat} {e : ε} :
    (if v < bound then .ok v else .error e : Except ε Nat) = .ok n ↔ v = n ∧ n < bound := by
  split
  · rename_i h
    rw [Except.ok.injEq]
    constructor
    · rintro rfl
      exact ⟨rfl, h⟩
    · exact fun h => h.1
  · rename_i h
    constructor
    · exact fun hn => nomatch hn
    · rintro ⟨rfl, hlt⟩
      exact absurd hlt h

theorem Checked.add_eq_ok_iff {bits a b n : Nat} :
    Checked.add bits a b = .ok n ↔ a + b = n ∧ n < 2 ^ bits :=
  bounded_eq_ok_iff

theorem Checked.add_eq_error_iff {bits a b : Nat} {o : Overflow} :
    Checked.add bits a b = .error o ↔ o = .sum ∧ 2 ^ bits ≤ a + b := by
  unfold Checked.add
  split
  · rename_i hlt
    exact ⟨fun h => (nomatch h), fun h => absurd hlt (Nat.not_lt.mpr h.2)⟩
  · rename_i hge
    rw [Except.error.injEq, eq_comm]
    exact ⟨fun h => ⟨h, Nat.not_lt.mp hge⟩, And.left⟩

theorem Checked.mul_eq_ok_iff {bits a b n : Nat} :
    Checked.mul bits a b = .ok n ↔ a * b = n ∧ n < 2 ^ bits :=
  bounded_eq_ok_iff

theorem Checked.sub_eq_error_iff {a b : Nat} {o : Overflow} :
    Checked.sub a b = .error o ↔ o = .difference ∧ a < b := by
  unfold Checked.sub
  split
  · rename_i hle
    constructor
    · intro h
      cases h
    · rintro ⟨-, hlt⟩
      omega
  · rename_i hlt
    constructor
    · rintro ⟨⟩
      exact ⟨rfl, by omega⟩
    · rintro ⟨rfl, -⟩
      rfl

theorem Checked.sum_eq_ok_iff {bits n : Nat} {xs : List Nat} :
    Checked.sum bits xs = .ok n ↔ total xs = n ∧ n < 2 ^ bits := by
  have h := foldlM_eq_ok_iff_total (n := n) id (fun _ _ _ => Checked.add_eq_ok_iff) xs
    (Nat.two_pow_pos bits)
  rwa [Nat.zero_add, List.map_id] at h

end CommandStream
