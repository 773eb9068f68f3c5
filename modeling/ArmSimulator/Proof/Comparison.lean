/-
Comparisons and the conditional instructions that follow them.

A conditional instruction sees the operands of a comparison only through the flags.
Two slips of the flag code come between them: the carry before the comparison is
never cleared, and the second operand is complemented only when the first is not
zero.  `compare_decides_iff` says for which operands and flags they do no harm.
-/
import ArmSimulator.Proof.DataProcessing

namespace ArmSimulator

/-! ## What a comparison decides -/

/-- CMP with an immediate or an unshifted register operand.  It has no destination; the
field of one should be zero, and the code looks at it only to compare it with 15. -/
structure IsCompare (ins : BitVec 32) : Prop where
  type : getBits ins 27 25 = 0b001 ∨ (getBits ins 27 25 = 0b000 ∧ getBits ins 11 4 = 0)
  opcode : getBits ins 24 21 = 0b1010
  s : getBit ins 20 = true
  rd : regField ins 12 ≠ 15

/-- The value of a register as an instruction reads it. -/
def registerOperand (p : Core) (reg : Fin 16) : BitVec 32 :=
  pcBias reg (readRegister (afterFetch p).reg reg)

/-- The operand of a comparison: an 8-bit immediate rotated right by twice its
rotation field, or a register. -/
def compareOperand (p : Core) (ins : BitVec 32) : BitVec 32 :=
  if getBit ins 25 then (ins &&& 0xFF).rotateRight (2 * (getBits ins 11 8).toNat)
  else registerOperand p (regField ins 0)

/-- The relation a condition tests after the comparison of `a` with `b`. -/
def relation : Condition → Option (BitVec 32 → BitVec 32 → Bool)
  | .eq => some fun a b => a == b
  | .ne => some fun a b => a != b
  | .cs => some fun a b => b.ule a
  | .cc => some fun a b => a.ult b
  | .hi => some fun a b => b.ult a
  | .ls => some fun a b => a.ule b
  | .ge => some fun a b => b.sle a
  | .lt => some fun a b => a.slt b
  | .gt => some fun a b => b.slt a
  | .le => some fun a b => a.sle b
  | _ => none

/-- A status word after which every conditional instruction decides its relation. -/
def DecidesRelations (cpsr a b : BitVec 32) : Prop :=
  ∀ next rel, relation (insCondition next) = some rel → executes cpsr next = rel a b

theorem decidesRelations_iff (cpsr a b : BitVec 32) :
    DecidesRelations cpsr a b ↔
      getBit cpsr Flag.z = (a == b) ∧ getBit cpsr Flag.c = b.ule a ∧
        (getBit cpsr Flag.n == getBit cpsr Flag.v) = b.sle a := by
  constructor
  · intro h
    exact ⟨h 0x00000000 _ rfl, h 0x20000000 _ rfl, h 0xA0000000 _ rfl⟩
  · rintro ⟨hz, hc, hs⟩ next rel hrel
    obtain ⟨hult, hult', hule⟩ := Word.unsigned_order a b
    obtain ⟨hslt, hslt', hsle⟩ := Word.signed_order a b
    unfold executes
    cases hcond : insCondition next <;> rw [hcond] at hrel <;> cases hrel <;>
      simp only [conditionPassed, hz, hc, bne, hs, hult, hult', hule, hslt, hslt', hsle]

/-! ## The flags of a comparison -/

section

variable (a b cpsr : BitVec 32)

/-- The status word `arm_data_processing` leaves after the comparison of `a` with
`b`. -/
def compareStatus : BitVec 32 :=
  flagWord .cmp (getBit a 31) (flagSign .cmp a b) (a - b) (getBit cpsr Flag.c) cpsr

theorem compareStatus_n : getBit (compareStatus a b cpsr) Flag.n = getBit (a - b) 31 := by
  simp [compareStatus, flagWord, Opcode.code, Flag.n, Flag.z, Flag.c, Flag.v]

theorem compareStatus_z : getBit (compareStatus a b cpsr) Flag.z = (a == b) := by
  have hz : decide (a - b = 0) = (a == b) := by
    rw [Bool.eq_iff_iff, decide_eq_true_eq, beq_iff_eq]
    exact sub_eq_zero
  simp [compareStatus, flagWord, Opcode.code, Flag.n, Flag.z, Flag.c, Flag.v, ← hz]

theorem compareStatus_c :
    getBit (compareStatus a b cpsr) Flag.c =
      (getBit cpsr Flag.c || (getBit a 31 && flagSign .cmp a b) ||
        (!getBit (a - b) 31 && getBit a 31 != flagSign .cmp a b)) := by
  simp [compareStatus, flagWord, Opcode.code, Flag.n, Flag.z, Flag.c, Flag.v]

theorem compareStatus_v :
    getBit (compareStatus a b cpsr) Flag.v =
      (getBit a 31 == flagSign .cmp a b && flagSign .cmp a b != getBit (a - b) 31) := by
  simp [compareStatus, flagWord, Opcode.code, Flag.n, Flag.z, Flag.c, Flag.v]

/-- With `Rn` not zero the flags are those of the subtraction, with the old carry
or-ed in. -/
theorem compareStatus_of_ne_zero (ha : a ≠ 0) :
    getBit (compareStatus a b cpsr) Flag.c = (getBit cpsr Flag.c || b.ule a) ∧
      (getBit (compareStatus a b cpsr) Flag.n == getBit (compareStatus a b cpsr) Flag.v) =
        b.sle a := by
  have hsign : flagSign .cmp a b = !getBit b 31 := by
    unfold flagSign
    rw [if_pos ⟨ha, by decide⟩]
    simp [getBit]
  rw [compareStatus_n, compareStatus_c, compareStatus_v, hsign, Word.ule_eq_signs,
    Word.sle_eq_signs, Bool.or_assoc]
  exact ⟨rfl, rfl⟩

/-- With `Rn` zero they are right only when the operand is zero as well and the
carry was set before. -/
theorem compareStatus_zero_iff :
    (getBit (compareStatus 0 b cpsr) Flag.c = b.ule 0 ∧
      (getBit (compareStatus 0 b cpsr) Flag.n == getBit (compareStatus 0 b cpsr) Flag.v) =
        b.sle 0) ↔ b = 0 ∧ getBit cpsr Flag.c = true := by
  have hsign : flagSign .cmp 0 b = getBit b 31 := by
    simp [flagSign]
  have hzero : getBit 0 31 = false := by decide
  rw [compareStatus_n, compareStatus_c, compareStatus_v, hsign, hzero]
  by_cases hb : b = 0
  · subst hb
    cases getBit cpsr Flag.c <;> decide
  · have hpos : 0 < b.toNat := by
      rcases Nat.eq_zero_or_pos b.toNat with h | h
      · exact absurd (BitVec.eq_of_toNat_eq h) hb
      · exact h
    have hneg : (0 - b).toNat = (2 ^ 32 - b.toNat + 0) % 2 ^ 32 := BitVec.toNat_sub 0 b
    have hule : b.ule 0 = false := by
      rw [BitVec.ule_eq_decide, decide_eq_false_iff_not]
      have : (0 : BitVec 32).toNat = 0 := rfl
      omega
    have hsle : b.sle 0 = getBit b 31 := by
      have hlt := b.isLt
      rw [BitVec.sle_eq_decide, BitVec.toInt_eq_toNat_cond, getBit]
      rcases Word.sign_cases b with ⟨h, h'⟩ | ⟨h, h'⟩ <;> rw [h] <;> simp <;> omega
    rw [hule, hsle]
    refine iff_of_false ?_ (fun h => hb h.1)
    -- A positive operand has overflow, a negative one a carry; the smallest word has neither.
    rintro ⟨hc, hs⟩
    unfold getBit at hc hs
    rcases Word.sign_cases b with ⟨hb', hlt⟩ | ⟨hb', hlt⟩ <;>
      rcases Word.sign_cases (0 - b) with ⟨hr, hr'⟩ | ⟨hr, hr'⟩ <;> rw [hb', hr] at hc hs
    · exact absurd hs (by decide)
    · simp at hc
    · exact absurd hs (by decide)
    · omega

end

/-! ## The step of a comparison -/

section

variable {host : Host} {locals : Locals} {p : Core} {ins : BitVec 32}

theorem immediateRotation (ins : BitVec 32) :
    ((((ins >>> 8) &&& 0xF) * 2).setWidth 8 : BitVec 8).toNat = 2 * (getBits ins 11 8).toNat := by
  have hfield : (getBits ins 11 8).toNat = ins.toNat / 2 ^ 8 % 2 ^ 4 := by
    unfold getBits
    rw [BitVec.extractLsb_toNat, Nat.shiftRight_eq_div_pow]
  have hmask : ((ins >>> 8) &&& 0xF).toNat = ins.toNat / 2 ^ 8 % 2 ^ 4 := by
    rw [BitVec.toNat_and, BitVec.toNat_ushiftRight, Nat.shiftRight_eq_div_pow]
    exact Nat.and_two_pow_sub_one_eq_mod _ 4
  have htwo : (2 : BitVec 32).toNat = 2 := rfl
  rw [BitVec.toNat_setWidth, BitVec.toNat_mul, hmask, hfield, htwo]
  omega

theorem dataProcessingOperand_immediate (host : Host) {ins : BitVec 32} (h : getBit ins 25 = true)
    (s : Core) :
    (dataProcessingOperand host ins s).value =
      ((ins &&& 0xFF).rotateRight (2 * (getBits ins 11 8).toNat),
        getBit (readCpsr s.reg) Flag.c) := by
  have hlt : (getBits ins 11 8).toNat < 2 ^ 4 := (getBits ins 11 8).isLt
  have hrot := immediateRotation ins
  simp only [dataProcessingOperand, h, if_true, Traced.bind_value, Traced.pure_apply]
  rw [ror_eq_rotateRight host _ (by omega), hrot]
  rfl

theorem dataProcessingOperand_compare (host : Host) (h : IsCompare ins) (p : Core) :
    (dataProcessingOperand host ins (afterFetch p)).value =
        (compareOperand p ins, getBit (readCpsr p.reg) Flag.c) ∧
      (dataProcessingOperand host ins (afterFetch p)).state = afterFetch p := by
  refine ⟨?_, dataProcessingOperand_state host ins _⟩
  rcases h.type with himm | ⟨hshift, hfield⟩
  · have h25 : getBit ins 25 = true := getBit_of_getBits himm (by decide) (by decide)
    rw [dataProcessingOperand_immediate host h25, compareOperand, if_pos h25, readCpsr_afterFetch]
  · have h25 : getBit ins 25 = false := getBit_of_getBits hshift (by decide) (by decide)
    simp only [dataProcessingOperand, h25, Bool.false_eq_true, if_false,
      shifterOperand_unshifted host hfield, compareOperand, readCpsr_afterFetch]
    rfl

theorem dispatch_compare (host : Host) (locals : Locals) (h : IsCompare ins) (s : Core) :
    (dispatch host locals ins s).value = some 0 ∧
      (dispatch host locals ins s).state = (armDataProcessing host ins s).state := by
  rcases h.type with himm | ⟨hshift, hfield⟩
  · have htype : insType ins = .dataProcessingImmediate := insType_of_getBits himm
    simp only [dispatch, htype, Traced.bind_value, Traced.bind_state, Traced.pure_apply, and_self]
  · have htype : insType ins = .dataProcessingShift := insType_of_getBits hshift
    have h4 : getBit ins 4 = false := getBit_of_getBits hfield (by decide) (by decide)
    simp only [dispatch, htype, h4, Bool.false_eq_true, false_and, if_false, Traced.bind_value,
      Traced.bind_state, Traced.pure_apply, and_self]

theorem flagOperand_cmp (shifter : BitVec 32) (s : Core) :
    flagOperand .cmp shifter s = { value := shifter, state := s, trace := [] } := rfl

theorem readCpsr_armStep_compare (host : Host) (locals : Locals) (h : IsCompare ins)
    (hf : fetched p = .ok ins) (hc : executes (readCpsr p.reg) ins = true) :
    readCpsr (armStep host locals p).state.reg =
      compareStatus (registerOperand p (regField ins 16)) (compareOperand p ins)
        (readCpsr p.reg) := by
  have hop : insOpcode ins = .cmp := by
    unfold insOpcode
    rw [h.opcode]
    rfl
  have hmajor : getBits ins 24 23 = 0b10 :=
    getBits_of_getBits h.opcode (by decide) (by decide) (by decide)
  have hdispatch := dispatch_compare host locals h (afterFetch p)
  rw [(armStep_of_fetched host locals hf hc hdispatch.1).2, hdispatch.2]
  obtain ⟨hvalue, hstate⟩ := dataProcessingOperand_compare host h p
  have hrn : (armReadRegister (regField ins 16) (afterFetch p)).value =
      registerOperand p (regField ins 16) := rfl
  have hrnstate : (armReadRegister (regField ins 16) (afterFetch p)).state = afterFetch p := rfl
  simp only [armDataProcessing, Traced.bind_state, Traced.bind_value, hrn, hrnstate, hvalue,
    hstate, dataProcessingResult, hop, compareMiscellaneous, h.s, if_true, Traced.pure_apply,
    hmajor, ne_eq, not_true_eq_false, if_false, dataProcessingStatus, if_neg h.rd,
    Bool.false_eq_true, updateFlags, flagOperand_cmp, armReadCpsr, armWriteCpsr,
    readCpsr_writeCpsr, readCpsr_afterFetch, compareStatus]

end

/-! ## When a comparison decides -/

/-- The operands and the carry for which the two slips do no harm. -/
def ComparesRight (a b : BitVec 32) (carry : Bool) : Prop :=
  (a ≠ 0 ∧ (carry = false ∨ b.ule a = true)) ∨ (a = 0 ∧ b = 0 ∧ carry = true)

theorem compareStatus_decides_iff (a b cpsr : BitVec 32) :
    DecidesRelations (compareStatus a b cpsr) a b ↔
      ComparesRight a b (getBit cpsr Flag.c) := by
  rw [decidesRelations_iff, compareStatus_z]
  by_cases ha : a = 0
  · subst ha
    simp only [true_and, compareStatus_zero_iff, ComparesRight, ne_eq, not_true_eq_false,
      false_and, false_or]
  · obtain ⟨hcarry, hsigned⟩ := compareStatus_of_ne_zero a b cpsr ha
    rw [hcarry, hsigned]
    simp only [true_and, and_true, ComparesRight, ne_eq, ha, not_false_eq_true, false_and, or_false]
    cases getBit cpsr Flag.c <;> simp

/-- After a comparison the ten conditions decide their relations exactly when the
first operand is not zero and the carry was clear or there is no borrow, or both
operands are zero and the carry was set. -/
theorem compare_decides_iff (host : Host) (locals : Locals) (p : Core) (ins : BitVec 32)
    (h : IsCompare ins) (hf : fetched p = .ok ins) (hc : executes (readCpsr p.reg) ins = true) :
    DecidesRelations (readCpsr (armStep host locals p).state.reg)
        (registerOperand p (regField ins 16)) (compareOperand p ins) ↔
      ComparesRight (registerOperand p (regField ins 16)) (compareOperand p ins)
        (getBit (readCpsr p.reg) Flag.c) := by
  rw [readCpsr_armStep_compare host locals h hf hc, compareStatus_decides_iff]

/-- A core about to execute `CMP r1, #3` with `r1` as given. -/
def compareCore (cpsr r1 : BitVec 32) : Core where
  cycleCount := 0
  reg := fun i => if i = 1 then r1 else if i = cpsrIndex then cpsr else 0
  mem := memoryOfWords false 64 [0xE3510003]

theorem compare_decides_five :
    DecidesRelations (readCpsr (armStep (.modular false) ⟨0, 0⟩ (compareCore 0x10 5)).state.reg)
      5 3 :=
  (compare_decides_iff (.modular false) ⟨0, 0⟩ (compareCore 0x10 5) 0xE3510003
    ⟨by decide, by decide, by decide, by decide⟩ (by decide +kernel) (by decide)).mpr
    (Or.inl ⟨by decide, Or.inl (by decide)⟩)

/-- With the carry set before, `2 < 3` is not decided: CS passes after `CMP r1, #3`. -/
theorem compare_keeps_stale_carry :
    IsCompare 0xE3510003 ∧ fetched (compareCore 0x20000010 2) = .ok 0xE3510003 ∧
      executes (readCpsr (compareCore 0x20000010 2).reg) 0xE3510003 = true ∧
      registerOperand (compareCore 0x20000010 2) (regField 0xE3510003 16) = 2 ∧
      compareOperand (compareCore 0x20000010 2) 0xE3510003 = 3 ∧
      ¬ DecidesRelations
        (readCpsr (armStep (.modular false) ⟨0, 0⟩ (compareCore 0x20000010 2)).state.reg) 2 3 :=
  ⟨⟨by decide, by decide, by decide, by decide⟩, by decide +kernel, by decide, by decide,
    by decide, fun h => absurd (h 0x20000000 _ rfl) (by decide +kernel)⟩

end ArmSimulator
