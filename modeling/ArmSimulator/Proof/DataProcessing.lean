/-
What a data processing instruction computes and where it puts it.

`opcodeResult` is the operation of an opcode on its two operands and the carry.  The
stages before the write of the destination only read, the status register transfers
apart, so the core after the instruction is the core before it with the result
written and the status stage run.
-/
import ArmSimulator.Proof.Effects

namespace ArmSimulator

open Traced (Effect)

/-- The result of an opcode on the value of `Rn`, the operand and the carry flag. -/
def opcodeResult (opcode : Opcode) (rn operand : BitVec 32) (carry : Bool) : BitVec 32 :=
  match opcode with
  | .and | .tst => rn &&& operand
  | .eor | .teq => rn ^^^ operand
  | .sub | .cmp => rn - operand
  | .rsb => operand - rn
  | .add | .cmn => rn + operand
  | .adc => rn + operand + bitWord carry
  | .sbc => rn - operand - bitWord (!carry)
  | .rsc => operand - rn - bitWord (!carry)
  | .orr => rn ||| operand
  | .mov => operand
  | .bic => rn &&& ~~~operand
  | .mvn => ~~~operand

/-- The four opcodes that have no destination. -/
def isCompareOpcode (ins : BitVec 32) : Bool := getBits ins 24 23 = 0b10

theorem isCompareOpcode_iff (ins : BitVec 32) :
    isCompareOpcode ins = true ↔ insOpcode ins ∈ [Opcode.tst, .teq, .cmp, .cmn] := by
  have hfield : ∀ f : BitVec 4, f.extractLsb' 2 2 = 0b10 ↔
      Opcode.ofField f ∈ [Opcode.tst, .teq, .cmp, .cmn] := by
    decide
  have hbits : getBits ins 24 23 = (getBits ins 24 21).extractLsb' 2 2 :=
    getBits_of_getBits rfl (by decide) (by decide) (by decide)
  unfold isCompareOpcode
  rw [decide_eq_true_eq, hbits]
  exact hfield _

/-- The readings of the operand stage leave the core as it is. -/
theorem readEffect_eq : ReadEffect (fun s t => t = s) fun _ => True where
  refl _ := rfl
  trans _ _ _ h h' := h'.trans h
  readRegister _ _ := ⟨rfl, fun _ _ => trivial⟩
  readCpsr _ := ⟨rfl, fun _ _ => trivial⟩

theorem dataProcessingOperand_state (host : Host) (ins : BitVec 32) (s : Core) :
    (dataProcessingOperand host ins s).state = s :=
  (dataProcessingOperand_effect readEffect_eq host ins s).1

/-- A register operand that is not shifted, with the carry flag for its carry. -/
theorem shifterOperand_unshifted (host : Host) {ins : BitVec 32} (h : getBits ins 11 4 = 0)
    (s : Core) :
    (shifterOperand host ins s).value =
      ((armReadRegister (regField ins 0) s).value, getBit (readCpsr s.reg) Flag.c) := by
  have h4 : getBit ins 4 = false := getBit_of_getBits h (by decide) (by decide)
  have hamount : getBits ins 11 7 = 0 := getBits_of_getBits h (by decide) (by decide) (by decide)
  have hkind : getBits ins 6 5 = 0 := getBits_of_getBits h (by decide) (by decide) (by decide)
  have hlsl : ShiftKind.ofField 0 = .lsl := by decide
  have hcount : (0 : BitVec 5).setWidth 32 = (0 : BitVec 32) := rfl
  have hstate : (armReadRegister (regField ins 0) s).state = s := rfl
  have hcarry : (armReadCarry s).value = getBit (readCpsr s.reg) Flag.c := rfl
  simp only [shifterOperand, shifterAmount, h4, hamount, hkind, hlsl, hcount, hstate, hcarry,
    Bool.false_eq_true, if_false, Traced.bind_value, Traced.bind_state, Traced.pure_apply,
    and_false, if_true]
  rw [Host.shl_of_lt host _ (by decide)]
  simp

/-- The status word MRS copies.  MSR, and MRS of an SPSR that the mode does not have,
copy nothing. -/
def mrsValue (ins : BitVec 32) (r : Registers) : Option (BitVec 32) :=
  if getBit ins 21 then none
  else if getBit ins 22 then
    if currentModeHasSpsr r then some (readSpsr r) else none
  else some (readCpsr r)

theorem armMiscellaneous_state (ins : BitVec 32) (s : Core) :
    (armMiscellaneous ins s).state =
      match mrsValue ins s.reg with
      | some value => { s with reg := writeRegister s.reg (regField ins 12) value }
      | none => s := by
  unfold armMiscellaneous mrsValue
  cases getBit ins 21 with
  | true => rfl
  | false =>
    cases getBit ins 22 with
    | false => rfl
    | true =>
      show ((armCurrentModeHasSpsr >>= _) s).state = _
      rw [Traced.bind_state]
      show ((if currentModeHasSpsr s.reg then _ else _ : Arm (BitVec 32)) s).state = _
      cases currentModeHasSpsr s.reg <;> rfl

theorem compareMiscellaneous_state (ins : BitVec 32) (s : Core) :
    (compareMiscellaneous ins s).state =
      if getBit ins 20 then s else (armMiscellaneous ins s).state := by
  unfold compareMiscellaneous
  cases getBit ins 20 <;> rfl

section

variable (ins rn operand : BitVec 32) (s : Core)

theorem dataProcessingResult_value :
    (dataProcessingResult ins rn operand s).value =
      opcodeResult (insOpcode ins) rn operand (getBit (readCpsr s.reg) Flag.c) := by
  unfold dataProcessingResult
  cases insOpcode ins <;> rfl

/-- Only the comparisons do anything: without S they are the status register
transfers. -/
theorem dataProcessingResult_state :
    (dataProcessingResult ins rn operand s).state =
      if isCompareOpcode ins then (compareMiscellaneous ins s).state else s := by
  have hiff := isCompareOpcode_iff ins
  unfold dataProcessingResult
  cases hop : insOpcode ins <;> rw [hop] at hiff <;>
    simp only [List.mem_cons, reduceCtorEq, List.not_mem_nil, or_false, or_true,
      iff_true, iff_false] at hiff <;>
    simp only [hiff, if_true, if_false, Bool.false_eq_true] <;> rfl

end

section

variable (host : Host) (ins : BitVec 32) (s : Core)

/-- The result of the instruction `ins` in the core `s`. -/
def insResult : BitVec 32 :=
  opcodeResult (insOpcode ins) (armReadRegister (regField ins 16) s).value
    (dataProcessingOperand host ins s).value.1 (getBit (readCpsr s.reg) Flag.c)

/-- The core after the write of the destination. -/
def afterResult : Core :=
  if isCompareOpcode ins then (compareMiscellaneous ins s).state
  else { s with reg := writeRegister s.reg (regField ins 12) (insResult host ins s) }

theorem armDataProcessing_state :
    (armDataProcessing host ins s).state =
      (dataProcessingStatus ins (armReadRegister (regField ins 16) s).value
        (dataProcessingOperand host ins s).value.1 (insResult host ins s)
        (dataProcessingOperand host ins s).value.2 (afterResult host ins s)).state := by
  have hrn : (armReadRegister (regField ins 16) s).state = s := rfl
  simp only [armDataProcessing, Traced.bind_state, hrn,
    dataProcessingOperand_state, dataProcessingResult_value, dataProcessingResult_state,
    Traced.pure_apply, afterResult, insResult]
  by_cases hc : isCompareOpcode ins = true
  · have hbits : getBits ins 24 23 = 0b10 := by simpa [isCompareOpcode] using hc
    simp only [hc, hbits, if_true, ne_eq, not_true_eq_false, if_false, Traced.pure_apply]
  · have hbits : ¬getBits ins 24 23 = 0b10 := by simpa [isCompareOpcode] using hc
    simp only [hc, hbits, if_false, ne_eq, not_false_eq_true, if_true, Bool.false_eq_true]
    rfl

end

end ArmSimulator
