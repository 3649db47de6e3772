import Mathlib
import CommandStream.Settings.Reader

/-! # Values of settings

Settings are a table of numbers and flags under keys in two sections. Assigning a value to a key
that is in the table changes the entry of this key and no other, provided that the value can be read
as what the key takes.
-/

namespace CommandStream

inductive SettingsValue where
  | number (n : Nat)
  | flag (b : Bool)
  deriving DecidableEq, Repr

namespace SettingsValue

def ofNumber? (value : String) : Option SettingsValue :=
  (Text.natural? value.toList).bind fun n => if n < UInt32.size then some (.number n) else none

def ofFlag? (value : String) : Option SettingsValue :=
  if value = "true" then some (.flag true)
  else if value = "false" then some (.flag false)
  else none

def reread? : SettingsValue → String → Option SettingsValue
  | .number _ => ofNumber?
  | .flag _ => ofFlag?

end SettingsValue

def Hardware.value? (h : Hardware) : String → Option SettingsValue
  | "clusters" => some (.number h.clusters.toNat)
  | "units" => some (.number h.units.toNat)
  | "lanes" => some (.number h.lanes.toNat)
  | "rf_size" => some (.number h.registerFileSize.toNat)
  | "lm_size" => some (.number h.localMemorySize.toNat)
  | "max_transfer_elements" => some (.number h.maxTransferElements.toNat)
  | "w2r_bubble" => some (.number h.writeReadBubble.toNat)
  | "min_vector_length" => some (.number h.minVectorLength.toNat)
  | _ => none

def Pipeline.value? (p : Pipeline) : String → Option SettingsValue
  | "merge" => some (.flag p.merge)
  | "blocks" => some (.flag p.blocks)
  | "split_stores" => some (.flag p.splitStores)
  | "loops" => some (.flag p.loops)
  | "balance" => some (.flag p.balance)
  | "balance_loads" => some (.flag p.balanceLoads)
  | "min_loop_len" => some (.number p.minLoopLen)
  | "block_split" => some (.number p.blockSplit)
  | _ => none

theorem Hardware.eq_of_value?_eq {g h : Hardware} (heq : ∀ key, g.value? key = h.value? key) :
    g = h := by
  have hclusters := heq "clusters"
  have hunits := heq "units"
  have hlanes := heq "lanes"
  have hregisters := heq "rf_size"
  have hmemory := heq "lm_size"
  have htransfer := heq "max_transfer_elements"
  have hbubble := heq "w2r_bubble"
  have hvector := heq "min_vector_length"
  simp only [value?, Option.some.injEq, SettingsValue.number.injEq, UInt32.toNat_inj] at *
  cases g
  simp_all

theorem Pipeline.eq_of_value?_eq {p q : Pipeline} (heq : ∀ key, p.value? key = q.value? key) :
    p = q := by
  have hmerge := heq "merge"
  have hblocks := heq "blocks"
  have hsplit := heq "split_stores"
  have hloops := heq "loops"
  have hbalance := heq "balance"
  have hloads := heq "balance_loads"
  have hlength := heq "min_loop_len"
  have hahead := heq "block_split"
  simp only [value?, Option.some.injEq, SettingsValue.number.injEq, SettingsValue.flag.injEq] at *
  cases p
  simp_all

namespace Settings

def value? (s : Settings) : SettingsSection → String → Option SettingsValue
  | .hardware => s.hardware.value?
  | .pipeline => s.pipeline.value?

/-- Read a value as the kind of value that the key has by default. -/
def readValue (sec : SettingsSection) (key value : String) : Option SettingsValue :=
  (({} : Settings).value? sec key).bind (·.reread? value)

/-- Reading gives a value, which is the expected one, or a problem where none is expected. -/
def ReadsAs {β : Type} (read : Except LineProblem β) (wrap : β → SettingsValue)
    (expected : Option SettingsValue) : Prop :=
  (∃ b, read = .ok b ∧ expected = some (wrap b)) ∨
    (∃ problem, read = .error problem) ∧ expected = none

theorem readsAs_readNumber (sec : SettingsSection) (key value : String) :
    ReadsAs (readNumber sec key value) (fun n => .number n.toNat)
      (SettingsValue.ofNumber? value) := by
  unfold readNumber SettingsValue.ofNumber?
  cases Text.natural? value.toList with
  | none => exact .inr ⟨⟨_, rfl⟩, rfl⟩
  | some n =>
    by_cases hn : n < UInt32.size
    · exact .inl ⟨UInt32.ofNat n, if_pos hn, by simp [hn, UInt32.toNat_ofNat_of_lt' hn]⟩
    · exact .inr ⟨⟨_, if_neg hn⟩, by simp [hn]⟩

theorem readsAs_readFlag (sec : SettingsSection) (key value : String) :
    ReadsAs (readFlag sec key value) .flag (SettingsValue.ofFlag? value) := by
  unfold readFlag SettingsValue.ofFlag?
  split
  · exact .inl ⟨true, rfl, by simp⟩
  · exact .inl ⟨false, rfl, by simp⟩
  · rename_i htrue hfalse
    exact .inr ⟨⟨_, rfl⟩, by rw [if_neg htrue, if_neg hfalse]⟩

/-! ## Assignments -/

/-- A value that can be read becomes the entry of the key, and the other entries stay as they were;
other values are refused. -/
def Assigns {σ : Type} (entries : σ → String → Option SettingsValue) (sec : SettingsSection)
    (key value : String) (s : σ) (result : Except LineProblem σ) : Prop :=
  (∃ v s', readValue sec key value = some v ∧ result = .ok s' ∧
    entries s' = Function.update (entries s) key (some v)) ∨
  readValue sec key value = none ∧ ∃ problem, result = .error problem

section Kinds

variable {σ : Type} {entries : σ → String → Option SettingsValue} {sec : SettingsSection}
  {key value : String} {s : σ}

theorem assigns_of_readsAs {β : Type} {read : Except LineProblem β} {wrap : β → SettingsValue}
    {set : β → σ} (hread : ReadsAs read wrap (readValue sec key value))
    (hset : ∀ b, entries (set b) = Function.update (entries s) key (some (wrap b))) :
    Assigns entries sec key value s (do return set (← read)) := by
  rcases hread with ⟨b, rfl, hvalue⟩ | ⟨⟨problem, rfl⟩, hnone⟩
  · exact .inl ⟨wrap b, set b, hvalue, rfl, hset b⟩
  · exact .inr ⟨hnone, problem, rfl⟩

theorem assigns_number {default : Nat} {set : UInt32 → σ}
    (hkind : ({} : Settings).value? sec key = some (.number default))
    (hset : ∀ n, entries (set n) = Function.update (entries s) key (some (.number n.toNat))) :
    Assigns entries sec key value s (do return set (← readNumber sec key value)) := by
  refine assigns_of_readsAs ?_ hset
  rw [readValue, hkind]
  exact readsAs_readNumber sec key value

theorem assigns_flag {default : Bool} {set : Bool → σ}
    (hkind : ({} : Settings).value? sec key = some (.flag default))
    (hset : ∀ b, entries (set b) = Function.update (entries s) key (some (.flag b))) :
    Assigns entries sec key value s (do return set (← readFlag sec key value)) := by
  refine assigns_of_readsAs ?_ hset
  rw [readValue, hkind]
  exact readsAs_readFlag sec key value

end Kinds

theorem update_eq {entries entries' : String → Option SettingsValue} {key : String}
    {v : Option SettingsValue} (hkey : entries' key = v)
    (hother : ∀ k, k ≠ key → entries' k = entries k) :
    entries' = Function.update entries key v := by
  funext k
  by_cases hk : k = key
  · rw [hk, Function.update_self, hkey]
  · rw [Function.update_of_ne hk, hother k hk]

theorem assigns_assignHardware (h : Hardware) (key value : String) :
    Assigns Hardware.value? .hardware key value h (assignHardware h key value) := by
  unfold assignHardware
  split
  case h_9 =>
    have hunknown : Hardware.value? {} key = none := by
      unfold Hardware.value?
      split <;> simp_all
    exact .inr ⟨by rw [readValue, value?, hunknown]; rfl, _, rfl⟩
  all_goals
    refine assigns_number rfl fun n => update_eq rfl fun k hk => ?_
    unfold Hardware.value?
    split <;> simp_all

theorem assigns_assignPipeline (p : Pipeline) (key value : String) :
    Assigns Pipeline.value? .pipeline key value p (assignPipeline p key value) := by
  unfold assignPipeline
  split
  case h_7 | h_8 =>
    refine assigns_number rfl fun n => update_eq rfl fun k hk => ?_
    unfold Pipeline.value?
    split <;> simp_all
  case h_9 =>
    have hunknown : Pipeline.value? {} key = none := by
      unfold Pipeline.value?
      split <;> simp_all
    exact .inr ⟨by rw [readValue, value?, hunknown]; rfl, _, rfl⟩
  all_goals
    refine assigns_flag rfl fun b => update_eq rfl fun k hk => ?_
    unfold Pipeline.value?
    split <;> simp_all

end Settings

end CommandStream
