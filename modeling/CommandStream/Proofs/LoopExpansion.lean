import CommandStream.Proofs.MaskMoves
import CommandStream.Transfer.Loop

/-! # What a loop expands to

The transfers of a loop are those of three nested counters, numbered through and cut off at the
count of the loop. So each of them has a closed form: its counters are the digits of its number, and
the steps that lead to it add up modulo the word.
-/

namespace CommandStream

/-! ## Progressions of words -/

section Words

theorem toBitVec_ofInt64 (x : Int) : (UInt64.ofInt x).toBitVec = BitVec.ofInt 64 x := by
  apply BitVec.eq_of_toNat_eq
  rw [BitVec.toNat_ofInt]
  exact UInt64.toNat_ofNat_of_lt' (by change (x % 2 ^ 64).toNat < 2 ^ 64; omega)

theorem toBitVec_ofInt32 (x : Int) : (UInt32.ofInt x).toBitVec = BitVec.ofInt 32 x := by
  apply BitVec.eq_of_toNat_eq
  rw [BitVec.toNat_ofInt]
  exact UInt32.toNat_ofNat_of_lt' (by change (x % 2 ^ 32).toNat < 2 ^ 32; omega)

theorem bitVec_progress {w : Nat} (a : BitVec w) (n : Nat) (step : Int) :
    a + BitVec.ofNat w n * BitVec.ofInt w step = BitVec.ofInt w (a.toNat + n * step) := by
  rw [BitVec.ofInt_add, BitVec.ofInt_mul, BitVec.ofInt_natCast, BitVec.ofInt_natCast,
    BitVec.ofNat_toNat, BitVec.setWidth_eq]

theorem hostProgress_eq (a : UInt64) (n : Nat) (step : Int32) :
    a + UInt64.ofNat n * step.toInt64.toUInt64 = UInt64.ofInt (a.toNat + n * step.toInt) := by
  have hstep : step.toInt64.toUInt64.toBitVec = BitVec.ofInt 64 step.toInt := by
    rw [← Int32.toInt_toInt64]
    exact BitVec.ofInt_toInt.symm
  have hword := bitVec_progress a.toBitVec n step.toInt
  rw [← hstep, ← toBitVec_ofInt64] at hword
  exact UInt64.toBitVec_inj.mp hword

theorem localProgress_eq (a : UInt32) (n : Nat) (step : Int16) :
    a + UInt32.ofNat n * step.toInt32.toUInt32 = UInt32.ofInt (a.toNat + n * step.toInt) := by
  have hstep : step.toInt32.toUInt32.toBitVec = BitVec.ofInt 32 step.toInt := by
    rw [← Int16.toInt_toInt32]
    exact BitVec.ofInt_toInt.symm
  have hword := bitVec_progress a.toBitVec n step.toInt
  rw [← hstep, ← toBitVec_ofInt32] at hword
  exact UInt32.toBitVec_inj.mp hword

end Words

namespace TransferLoop

/-! ## Numbered transfers -/

variable (l : TransferLoop)

def innerRounds : Nat := l.innerLen.toNat + 1

def unitRounds : Nat := l.unitLen.toNat + 1

/-- Transfers before the counters are used up. -/
def rounds : Nat := (l.clusterLen.toNat + 1) * l.unitRounds * l.innerRounds

def number (cluster unit inner : Nat) : Nat :=
  (cluster * l.unitRounds + unit) * l.innerRounds + inner

def transferAt (cluster unit inner : Nat) : Transfer :=
  { l.base with
    hostAddr := l.base.hostAddr +
      UInt64.ofNat (l.number cluster unit inner) * l.hostStep.toInt64.toUInt64
    localAddr := l.base.localAddr + UInt32.ofNat inner * l.localStep.toInt32.toUInt32
    unit := (Mask.shift · l.unitShift)^[unit] l.base.unit
    cluster := (Mask.shift · l.clusterShift)^[cluster] l.base.cluster }

def nth (k : Nat) : Transfer :=
  l.transferAt (k / l.innerRounds / l.unitRounds) (k / l.innerRounds % l.unitRounds)
    (k % l.innerRounds)

def cursorAt (cluster unit inner : Nat) : Cursor where
  current := l.transferAt cluster unit inner
  clusters := l.clusterLen.toNat - cluster
  units := l.unitLen.toNat - unit
  inner := l.innerLen.toNat - inner

theorem innerRounds_pos : 0 < l.innerRounds := Nat.succ_pos _

theorem unitRounds_pos : 0 < l.unitRounds := Nat.succ_pos _

@[simp] theorem number_zero : l.number 0 0 0 = 0 := by simp [number]

@[simp] theorem transferAt_zero : l.transferAt 0 0 0 = l.base := by simp [transferAt]

variable {l}

theorem nth_number {cluster unit inner : Nat} (hu : unit ≤ l.unitLen.toNat)
    (hi : inner ≤ l.innerLen.toNat) :
    l.nth (l.number cluster unit inner) = l.transferAt cluster unit inner := by
  have hinner : l.number cluster unit inner / l.innerRounds = cluster * l.unitRounds + unit ∧
      l.number cluster unit inner % l.innerRounds = inner :=
    (Nat.div_mod_unique l.innerRounds_pos).mpr
      ⟨by rw [number, Nat.add_comm, Nat.mul_comm], Nat.lt_succ_of_le hi⟩
  have hunit : (cluster * l.unitRounds + unit) / l.unitRounds = cluster ∧
      (cluster * l.unitRounds + unit) % l.unitRounds = unit :=
    (Nat.div_mod_unique l.unitRounds_pos).mpr
      ⟨by rw [Nat.add_comm, Nat.mul_comm], Nat.lt_succ_of_le hu⟩
  rw [nth, hinner.1, hinner.2, hunit.1, hunit.2]

/-! ## The engine's steps -/

theorem start_eq_cursorAt : l.start = l.cursorAt 0 0 0 := by
  simp [start, cursorAt]

theorem hostAddr_succ {cluster unit inner cluster' unit' inner' : Nat}
    (h : l.number cluster' unit' inner' = l.number cluster unit inner + 1) :
    (l.transferAt cluster' unit' inner').hostAddr =
      (l.transferAt cluster unit inner).hostAddr + l.hostStep.toInt64.toUInt64 := by
  have hone : UInt64.ofNat 1 = 1 := rfl
  simp only [transferAt, h, UInt64.ofNat_add, hone, UInt64.add_mul, UInt64.one_mul,
    UInt64.add_assoc]

section Step

variable {cluster unit inner : Nat}

theorem number_succ_inner :
    l.number cluster unit (inner + 1) = l.number cluster unit inner + 1 := rfl

theorem number_succ_unit :
    l.number cluster (unit + 1) 0 = l.number cluster unit l.innerLen.toNat + 1 := by
  simp only [number, innerRounds]; ring

theorem number_succ_cluster :
    l.number (cluster + 1) 0 0 = l.number cluster l.unitLen.toNat l.innerLen.toNat + 1 := by
  simp only [number, innerRounds, unitRounds]; ring

theorem next?_inner (h : inner < l.innerLen.toNat) :
    l.next? (l.cursorAt cluster unit inner) = some (l.cursorAt cluster unit (inner + 1)) := by
  have hleft : l.innerLen.toNat - inner = l.innerLen.toNat - (inner + 1) + 1 := by omega
  have hone : UInt32.ofNat 1 = 1 := rfl
  rw [next?]
  simp only [cursorAt, hleft, ← hostAddr_succ number_succ_inner]
  simp only [transferAt, UInt32.ofNat_add, hone, UInt32.add_mul, UInt32.one_mul, UInt32.add_assoc]

theorem next?_unit (h : unit < l.unitLen.toNat) :
    l.next? (l.cursorAt cluster unit l.innerLen.toNat) =
      some (l.cursorAt cluster (unit + 1) 0) := by
  have hleft : l.unitLen.toNat - unit = l.unitLen.toNat - (unit + 1) + 1 := by omega
  rw [next?]
  simp only [cursorAt, Nat.sub_self, Nat.sub_zero, hleft, ← hostAddr_succ number_succ_unit]
  simp [transferAt, Function.iterate_succ_apply']

theorem next?_cluster (h : cluster < l.clusterLen.toNat) :
    l.next? (l.cursorAt cluster l.unitLen.toNat l.innerLen.toNat) =
      some (l.cursorAt (cluster + 1) 0 0) := by
  have hleft : l.clusterLen.toNat - cluster = l.clusterLen.toNat - (cluster + 1) + 1 := by omega
  rw [next?]
  simp only [cursorAt, Nat.sub_self, Nat.sub_zero, hleft, ← hostAddr_succ number_succ_cluster]
  simp [transferAt, Function.iterate_succ_apply']

theorem next?_last :
    l.next? (l.cursorAt l.clusterLen.toNat l.unitLen.toNat l.innerLen.toNat) = none := by
  rw [next?]
  simp only [cursorAt, Nat.sub_self]

theorem number_last :
    l.number l.clusterLen.toNat l.unitLen.toNat l.innerLen.toNat + 1 = l.rounds := by
  simp only [number, rounds, innerRounds, unitRounds]; ring

variable (l) in
def InRange (cluster unit inner : Nat) : Prop :=
  cluster ≤ l.clusterLen.toNat ∧ unit ≤ l.unitLen.toNat ∧ inner ≤ l.innerLen.toNat

theorem InRange.nth_number (h : l.InRange cluster unit inner) :
    l.nth (l.number cluster unit inner) = l.transferAt cluster unit inner :=
  TransferLoop.nth_number h.2.1 h.2.2

theorem next?_cursorAt (h : l.InRange cluster unit inner) :
    (l.number cluster unit inner + 1 = l.rounds ∧
      l.next? (l.cursorAt cluster unit inner) = none) ∨
    ∃ cluster' unit' inner', l.InRange cluster' unit' inner' ∧
      l.number cluster' unit' inner' = l.number cluster unit inner + 1 ∧
      l.next? (l.cursorAt cluster unit inner) = some (l.cursorAt cluster' unit' inner') := by
  obtain ⟨hc, hu, hi⟩ := h
  obtain hi' | rfl := Nat.lt_or_eq_of_le hi
  · exact .inr ⟨cluster, unit, inner + 1, ⟨hc, hu, hi'⟩, number_succ_inner, next?_inner hi'⟩
  obtain hu' | rfl := Nat.lt_or_eq_of_le hu
  · exact .inr ⟨cluster, unit + 1, 0, ⟨hc, hu', Nat.zero_le _⟩, number_succ_unit, next?_unit hu'⟩
  obtain hc' | rfl := Nat.lt_or_eq_of_le hc
  · exact .inr ⟨cluster + 1, 0, 0, ⟨hc', Nat.zero_le _, Nat.zero_le _⟩, number_succ_cluster,
      next?_cluster hc'⟩
  · exact .inl ⟨number_last, next?_last⟩

theorem number_lt_rounds (h : l.InRange cluster unit inner) :
    l.number cluster unit inner < l.rounds := by
  obtain ⟨hc, hu, hi⟩ := h
  refine Nat.lt_of_lt_of_eq (Nat.lt_succ_of_le ?_) number_last
  unfold number
  gcongr

end Step

/-! ## The whole walk -/

theorem walk_cursorAt {cluster unit inner : Nat} (h : l.InRange cluster unit inner) (n : Nat)
    (done : List Transfer) :
    l.walk n (l.cursorAt cluster unit inner) done =
      ((List.range' (l.number cluster unit inner)
        (min n (l.rounds - l.number cluster unit inner))).map l.nth).reverse ++ done := by
  induction n generalizing cluster unit inner done with
  | zero => simp [walk]
  | succ n ih =>
    have hlt := number_lt_rounds h
    have hcount : min (n + 1) (l.rounds - l.number cluster unit inner) =
        min n (l.rounds - (l.number cluster unit inner + 1)) + 1 := by omega
    have hcurrent : l.nth (l.number cluster unit inner) =
        (l.cursorAt cluster unit inner).current := h.nth_number
    rw [hcount, List.range'_succ, List.map_cons, hcurrent]
    obtain ⟨hend, hnone⟩ | ⟨_, _, _, hrange, hnumber, hsome⟩ := next?_cursorAt h
    · simp [walk, hnone, hend]
    · rw [walk, hsome]
      dsimp only
      rw [ih hrange, hnumber]
      simp

/-- A loop issues its transfers by number, until the count or the counters run out. -/
theorem expand_eq_map_range (l : TransferLoop) :
    l.expand = (List.range (min l.count.toNat l.rounds)).map l.nth := by
  rw [expand, start_eq_cursorAt,
    walk_cursorAt ⟨Nat.zero_le _, Nat.zero_le _, Nat.zero_le _⟩, number_zero]
  simp [List.range_eq_range']

theorem length_expand (l : TransferLoop) : l.expand.length = min l.count.toNat l.rounds := by
  rw [expand_eq_map_range, List.length_map, List.length_range]

theorem getElem?_expand (l : TransferLoop) (i : Nat) :
    l.expand[i]? = if i < min l.count.toNat l.rounds then some (l.nth i) else none := by
  rw [expand_eq_map_range, List.getElem?_map]
  split
  · rename_i h
    rw [List.getElem?_range h, Option.map_some]
  · rename_i h
    rw [List.getElem?_eq_none (by rw [List.length_range]; omega), Option.map_none]

theorem number_digits (l : TransferLoop) (k : Nat) :
    l.number (k / l.innerRounds / l.unitRounds) (k / l.innerRounds % l.unitRounds)
      (k % l.innerRounds) = k := by
  rw [number, Nat.div_add_mod', Nat.div_add_mod']

/-- The counters behind a number. -/
theorem exists_number_eq {k : Nat} (h : k < l.rounds) :
    ∃ cluster unit inner, l.InRange cluster unit inner ∧ l.number cluster unit inner = k := by
  have hcluster : k / l.innerRounds / l.unitRounds < l.clusterLen.toNat + 1 :=
    Nat.div_lt_of_lt_mul <| Nat.div_lt_of_lt_mul <| h.trans_eq <| by
      rw [rounds]; ring
  refine ⟨k / l.innerRounds / l.unitRounds, k / l.innerRounds % l.unitRounds, k % l.innerRounds,
    ⟨Nat.le_of_lt_succ hcluster, Nat.le_of_lt_succ (Nat.mod_lt _ l.unitRounds_pos),
      Nat.le_of_lt_succ (Nat.mod_lt _ l.innerRounds_pos)⟩, l.number_digits k⟩

theorem mem_expand_iff {t : Transfer} :
    t ∈ l.expand ↔ ∃ cluster unit inner, l.InRange cluster unit inner ∧
      l.number cluster unit inner < l.count.toNat ∧ t = l.transferAt cluster unit inner := by
  rw [expand_eq_map_range]
  simp only [List.mem_map, List.mem_range, Nat.lt_min]
  constructor
  · rintro ⟨k, ⟨hcount, hrounds⟩, rfl⟩
    obtain ⟨cluster, unit, inner, hrange, rfl⟩ := exists_number_eq hrounds
    exact ⟨cluster, unit, inner, hrange, hcount, hrange.nth_number⟩
  · rintro ⟨cluster, unit, inner, hrange, hcount, rfl⟩
    exact ⟨_, ⟨hcount, number_lt_rounds hrange⟩, hrange.nth_number⟩

theorem isStore_of_mem_expand {t : Transfer} (h : t ∈ l.expand) : t.isStore = l.base.isStore := by
  obtain ⟨cluster, unit, inner, -, -, rfl⟩ := mem_expand_iff.mp h
  rfl

/-! ## The closed form -/

theorem nth_eq (l : TransferLoop) (i : Nat) :
    l.nth i = { l.base with
      hostAddr := UInt64.ofInt (l.base.hostAddr.toNat + i * l.hostStep.toInt)
      localAddr := UInt32.ofInt
        (l.base.localAddr.toNat + (i % l.innerRounds : Nat) * l.localStep.toInt)
      unit := (Mask.shift · l.unitShift)^[i / l.innerRounds % l.unitRounds] l.base.unit
      cluster := (Mask.shift · l.clusterShift)^[i / (l.innerRounds * l.unitRounds)]
        l.base.cluster } := by
  rw [nth, transferAt, number_digits, hostProgress_eq, localProgress_eq, Nat.div_div_eq_div_mul]

/-- A loop issues as many transfers as its count and its counters allow. In the one with number `i`
the host address has moved `i` times, the local address once for each inner round of the unit
position, the unit mask once for each unit position of the cluster position and the cluster mask
once for each cluster position. Addresses wrap, and masks lose the engines that leave their 32
places. -/
theorem expand_closed_form (l : TransferLoop) :
    l.expand.length = min l.count.toNat
      ((l.clusterLen.toNat + 1) * (l.unitLen.toNat + 1) * (l.innerLen.toNat + 1)) ∧
    (∀ i, l.expand[i]? =
      if i < min l.count.toNat
          ((l.clusterLen.toNat + 1) * (l.unitLen.toNat + 1) * (l.innerLen.toNat + 1)) then
        some { l.base with
          hostAddr := UInt64.ofInt (l.base.hostAddr.toNat + i * l.hostStep.toInt)
          localAddr := UInt32.ofInt
            (l.base.localAddr.toNat + (i % (l.innerLen.toNat + 1) : Nat) * l.localStep.toInt)
          unit := (Mask.shift · l.unitShift)^[i / (l.innerLen.toNat + 1) % (l.unitLen.toNat + 1)]
            l.base.unit
          cluster := (Mask.shift · l.clusterShift)^[i /
            ((l.innerLen.toNat + 1) * (l.unitLen.toNat + 1))] l.base.cluster }
      else none) ∧
    ∀ (m : Mask) (s : Int8) (e : Nat), (m.shift s).toNat.testBit e = true ↔
      e < 32 ∧ ∃ d : Nat, m.toNat.testBit d = true ∧ (d : Int) + s.toInt = e := by
  refine ⟨l.length_expand, fun i => ?_, fun m s e => m.testBit_move s.toInt e⟩
  rw [getElem?_expand, nth_eq]
  rfl

end TransferLoop

end CommandStream
