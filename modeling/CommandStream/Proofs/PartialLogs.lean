import CommandStream.Proofs.Dispatch

/-! # Logs of runs that may fail

Work that fails has logged something by then. What a run leaves in the log is always the front of
what its plan books, and all of it if the run succeeds.
-/

namespace CommandStream

variable {α β : Type}

/-- The recorder that the work leaves, however it ends. -/
def leaves (x : Recording α) (r : Recorder) : Recorder := (x.run.run r).run.2

theorem Succeeds.leaves_eq {x : Recording α} {r r' : Recorder} {a : α} (h : Succeeds x r a r') :
    leaves x r = r' :=
  congrArg Prod.snd h

theorem Fails.leaves_eq {x : Recording α} {r r' : Recorder} {e : Failure} (h : Fails x r e r') :
    leaves x r = r' :=
  congrArg Prod.snd h

/-! ## Failing without a trace -/

def FailsClean (x : Recording α) : Prop := ∀ r e r', Fails x r e r' → r' = r

def Keeps (x : Recording α) : Prop := ∀ r, leaves x r = r

def NeverFails (x : Recording α) : Prop := ∀ r e r', ¬Fails x r e r'

theorem keeps_get : Keeps get := fun _ => rfl

theorem keeps_checked (x : Checked α) : Keeps (liftM x) := by
  intro r
  cases x <;> rfl

theorem neverFails_pure (a : α) : NeverFails (pure a) := by
  rintro r e r' ⟨⟩

theorem neverFails_get : NeverFails get := by
  rintro r e r' ⟨⟩

theorem neverFails_set (s : Recorder) : NeverFails (set s) := by
  rintro r e r' ⟨⟩

theorem neverFails_modify (f : Recorder → Recorder) : NeverFails (modify f) := by
  rintro r e r' ⟨⟩

namespace NeverFails

theorem bind {x : Recording α} {f : α → Recording β} (hx : NeverFails x)
    (hf : ∀ a, NeverFails (f a)) : NeverFails (x >>= f) := by
  intro r e r' h
  rcases fails_bind_iff.mp h with h | ⟨a, r₁, -, h⟩
  · exact hx r e r' h
  · exact hf a r₁ e r' h

theorem failsClean {x : Recording α} (hx : NeverFails x) : FailsClean x :=
  fun r e r' h => absurd h (hx r e r')

end NeverFails

theorem Keeps.bind {x : Recording α} {f : α → Recording β} (hx : Keeps x)
    (hf : ∀ a, FailsClean (f a)) : FailsClean (x >>= f) := by
  intro r e r' h
  rcases fails_bind_iff.mp h with hfirst | ⟨a, r₁, ha, hrest⟩
  · exact hfirst.leaves_eq.symm.trans (hx r)
  · obtain rfl : r₁ = r := ha.leaves_eq.symm.trans (hx r)
    exact hf a r₁ e r' hrest

/-! ## The front of a log -/

/-- However the work ends, it logs events from the front of `es`, all of them if it succeeds. -/
structure Logs (x : Recording α) (es : List Event) : Prop where
  of_succeeds : ∀ r a r', Succeeds x r a r' → r'.events = r.events ++ es
  of_fails : ∀ r e r', Fails x r e r' → ∃ front, front <+: es ∧ r'.events = r.events ++ front

theorem Books.logs {x : Recording Unit} {es : List Event} {qs : CycleModel → List Charge}
    (h : Books x es qs) (hclean : FailsClean x) : Logs x es where
  of_succeeds r u r' hx := by
    obtain ⟨-, rfl⟩ := (h r u r').mp hx
    exact r.events_after es _
  of_fails r e r' hx := by
    obtain rfl := hclean r e r' hx
    exact ⟨[], List.nil_prefix, (List.append_nil _).symm⟩

namespace Logs

theorem bind {x : Recording α} {f : α → Recording β} {es es' : List Event} (hx : Logs x es)
    (hf : ∀ a, Logs (f a) es') : Logs (x >>= f) (es ++ es') where
  of_succeeds r b r' h := by
    obtain ⟨a, r₁, ha, hb⟩ := succeeds_bind_iff.mp h
    rw [(hf a).of_succeeds _ _ _ hb, hx.of_succeeds _ _ _ ha, List.append_assoc]
  of_fails r e r' h := by
    rcases fails_bind_iff.mp h with h | ⟨a, r₁, ha, h⟩
    · obtain ⟨front, hfront, hevents⟩ := hx.of_fails _ _ _ h
      exact ⟨front, hfront.trans (List.prefix_append es es'), hevents⟩
    · obtain ⟨front, hfront, hevents⟩ := (hf a).of_fails _ _ _ h
      refine ⟨es ++ front, (List.prefix_append_right_inj es).mpr hfront, ?_⟩
      rw [hevents, hx.of_succeeds _ _ _ ha, List.append_assoc]

theorem pure (a : α) : Logs (Pure.pure a) [] where
  of_succeeds r b r' h := by
    obtain ⟨-, rfl⟩ := succeeds_pure_iff.mp h
    exact (List.append_nil _).symm
  of_fails r e r' h := absurd h (neverFails_pure a r e r')

theorem throw (f : Failure) : Logs (MonadExcept.throw f : Recording α) [] where
  of_succeeds r a r' h := absurd h not_succeeds_throw
  of_fails r e r' h := by
    cases h
    exact ⟨[], List.prefix_rfl, (List.append_nil _).symm⟩

theorem forM {f : α → Recording Unit} {es : α → List Event} (h : ∀ x, Logs (f x) (es x))
    (xs : List α) : Logs (xs.forM f) (xs.flatMap es) := by
  induction xs with
  | nil => exact pure ()
  | cons x xs ih => exact (h x).bind fun _ => ih

end Logs

/-! ## Primitives -/

namespace Recorder

theorem failsClean_chargeWrites (count : Nat) : FailsClean (chargeWrites count) :=
  keeps_get.bind fun _ => (keeps_checked _).bind fun _ => (keeps_checked _).bind fun _ =>
    (neverFails_set _).failsClean

theorem failsClean_queueDma (transfers : List Transfer) : FailsClean (queueDma transfers) :=
  keeps_get.bind fun _ => (keeps_checked _).bind fun _ => (keeps_checked _).bind fun _ =>
    (neverFails_set _).failsClean

theorem failsClean_queueLanes (call : KernelCall) : FailsClean (queueLanes call) :=
  keeps_get.bind fun _ => (keeps_checked _).bind fun _ => (keeps_checked _).bind fun _ =>
    (keeps_checked _).bind fun _ => (neverFails_set _).failsClean

theorem failsClean_nops (count : Nat) : FailsClean (nops count) :=
  keeps_get.bind fun _ => (keeps_checked _).bind fun _ =>
    ((neverFails_set _).bind fun _ => neverFails_modify _).failsClean

theorem failsClean_scatter (layer : UInt16) (commands : List Scatter) (viaDma : Bool) :
    FailsClean (scatter layer commands viaDma) := by
  refine keeps_get.bind fun _ => (keeps_checked _).bind fun _ => ?_
  cases viaDma <;>
    exact (keeps_checked _).bind fun _ =>
      ((neverFails_set _).bind fun _ => neverFails_modify _).failsClean

theorem logs_record (e : Event) : Logs (record e) [e] :=
  (books_record e).logs (neverFails_modify _).failsClean

theorem logs_chargeWrites (count : Nat) : Logs (chargeWrites count) [] :=
  (books_chargeWrites count).logs (failsClean_chargeWrites count)

theorem logs_queueDma (transfers : List Transfer) : Logs (queueDma transfers) [] :=
  (books_queueDma transfers).logs (failsClean_queueDma transfers)

theorem logs_dmaTransfer (t : Transfer) : Logs (dmaTransfer t) [.dma t] :=
  (logs_chargeWrites 8).bind fun _ => (logs_queueDma [t]).bind fun _ => logs_record (.dma t)

/-- A primitive that fails has logged some of its events, from the first one on. -/
theorem logs_issue (p : Primitive) : Logs (issue p) p.events := by
  cases p with
  | setPad _ | configure _ => exact (logs_chargeWrites _).bind fun _ => logs_record _
  | dmaBlock records =>
    exact (logs_chargeWrites 2).bind fun _ => (logs_queueDma _).bind fun _ => logs_record _
  | dmaIssue s =>
    have hall := Logs.forM logs_dmaTransfer s.transfers
    rwa [← List.map_eq_flatMap] at hall
  | wait kind =>
    exact (books_wait kind).logs
      ((neverFails_modify _).bind fun _ => neverFails_modify _).failsClean
  | nops count => exact (books_nops count).logs (failsClean_nops count)
  | kernel call =>
    have hlanes := (books_queueLanes call).logs (failsClean_queueLanes call)
    exact (logs_chargeWrites 1).bind fun _ => hlanes.bind fun _ => logs_record _
  | scatter layer commands viaDma =>
    exact (books_scatter layer commands viaDma).logs (failsClean_scatter layer commands viaDma)
  | dynamicShape _ | preLayer _ _ | postLayer _ _ => exact logs_record _

theorem logs_carryOut (plan : Plan) : Logs (carryOut plan) plan.events := by
  have hplan : Logs (carryOut plan) (plan.events ++ []) := by
    refine (Logs.forM logs_issue plan.primitives).bind fun _ => ?_
    cases plan.failure with
    | some f => exact Logs.throw f
    | none => exact Logs.pure ()
  rwa [List.append_nil] at hplan

end Recorder

/-! ## Layers -/

/-- However the run of a layer ends, it has logged the front of its plan, and all of the plan if it
succeeds. -/
theorem exists_log_runLayer (layer : Layer) (hw : Hardware) (r : Recorder) :
    ∃ es, (leaves (runLayer layer hw) r).events = r.events ++ es ∧
      es <+: (layer.plan hw r.pillarPoints).events ∧
      ∀ stats r', Succeeds (runLayer layer hw) r stats r' →
        es = (layer.plan hw r.pillarPoints).events := by
  have hlogs := Recorder.logs_carryOut (layer.plan hw r.pillarPoints)
  rcases succeeds_or_fails (runLayer layer hw) r with ⟨stats, r', h⟩ | ⟨e, r', h⟩
  · rw [h.leaves_eq, hlogs.of_succeeds _ _ _ (succeeds_runLayer_iff.mp h).1]
    exact ⟨_, rfl, List.prefix_rfl, fun _ _ _ => rfl⟩
  · rw [h.leaves_eq]
    have hplan : Fails (Recorder.carryOut (layer.plan hw r.pillarPoints)) r e r' := by
      unfold runLayer at h
      rcases fails_bind_iff.mp h with h | ⟨_, _, hget, h⟩
      · exact absurd h (neverFails_get _ _ _)
      · obtain ⟨rfl, rfl⟩ := succeeds_get_iff.mp hget
        rcases fails_bind_iff.mp h with h | ⟨_, _, -, h⟩
        · exact h
        · exact absurd h ((neverFails_get.bind fun _ => neverFails_pure _) _ _ _)
    obtain ⟨es, hfront, hevents⟩ := hlogs.of_fails _ _ _ hplan
    exact ⟨es, hevents, hfront, fun _ _ hsucceeds => absurd h hsucceeds.not_fails⟩

end CommandStream
