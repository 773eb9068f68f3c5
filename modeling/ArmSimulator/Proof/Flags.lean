/-
Results, destinations and flags of data processing.

The core after the instruction differs from the core before it in the destination and
in the status word.  N and Z describe the result, and for the logical opcodes the carry
is the one of the operand, which for an immediate is the old flag.
-/
import ArmSimulator.Proof.Comparison

namespace ArmSimulator

/-! ## Kinds of opcodes -/

/-- The eight opcodes whose carry is that of the operand. -/
def Opcode.isLogical : Opcode → Bool
  | .and | .eor | .tst | .teq | .orr | .mov | .bic | .mvn => true
  | _ => false

def Opcode.isCompare : Opcode → Bool
  | .tst | .teq | .cmp | .cmn => true
  | _ => false

theorem isCompareOpcode_eq (ins : BitVec 32) :
    isCompareOpcode ins = (insOpcode ins).isCompare := by
  rw [Bool.eq_iff_iff, isCompareOpcode_iff]
  cases insOpcode ins <;> decide

/-! ## The status word -/

section

variable (opcode : Opcode) (a b : Bool) (res : BitVec 32) (carryOut : Bool) (cpsr : BitVec 32)

/-- The test on the number of the opcode selects the arithmetic ones. -/
theorem flagWord_eq :
    flagWord opcode a b res carryOut cpsr =
      let logical := changeBit (changeBit (changeBit cpsr Flag.n (getBit res 31)) Flag.z (res = 0))
        Flag.c carryOut
      if opcode.isLogical then logical
      else changeBit (changeBit logical Flag.c (carryOut || Word.signCarry a b (getBit res 31)))
        Flag.v (Word.signOverflow a b (getBit res 31)) := by
  unfold flagWord Word.signCarry
  rw [← Bool.or_assoc]
  cases opcode <;> rfl

theorem flagWord_n : getBit (flagWord opcode a b res carryOut cpsr) Flag.n = getBit res 31 := by
  rw [flagWord_eq]
  cases opcode.isLogical <;> simp [Flag.n, Flag.z, Flag.c, Flag.v]

theorem flagWord_z : getBit (flagWord opcode a b res carryOut cpsr) Flag.z = (res == 0) := by
  rw [flagWord_eq]
  cases opcode.isLogical <;> simp [Flag.n, Flag.z, Flag.c, Flag.v, beq_eq_decide]

theorem flagWord_low {i : Nat} (hi : i < 28) :
    getBit (flagWord opcode a b res carryOut cpsr) i = getBit cpsr i := by
  have h31 : i ≠ 31 := by omega
  have h30 : i ≠ 30 := by omega
  have h29 : i ≠ 29 := by omega
  have h28 : i ≠ 28 := by omega
  rw [flagWord_eq]
  cases opcode.isLogical <;> simp [Flag.n, Flag.z, Flag.c, Flag.v, h31, h30, h29, h28]

theorem flagWord_logical (h : opcode.isLogical = true) :
    getBit (flagWord opcode a b res carryOut cpsr) Flag.c = carryOut ∧
      getBit (flagWord opcode a b res carryOut cpsr) Flag.v = getBit cpsr Flag.v := by
  rw [flagWord_eq, h]
  simp [Flag.n, Flag.z, Flag.c, Flag.v]

theorem flagWord_arithmetic (h : opcode.isLogical = false) :
    getBit (flagWord opcode a b res carryOut cpsr) Flag.c =
        (carryOut || Word.signCarry a b (getBit res 31)) ∧
      getBit (flagWord opcode a b res carryOut cpsr) Flag.v =
        Word.signOverflow a b (getBit res 31) := by
  rw [flagWord_eq, h]
  simp [Flag.n, Flag.z, Flag.c, Flag.v]

end

/-! ## The status stage -/

/-- The operand as the flag code adjusts it for the carry. -/
def adjustedOperand (opcode : Opcode) (carry : Bool) (operand : BitVec 32) : BitVec 32 :=
  match opcode with
  | .adc => if carry then operand + 1 else operand
  | .sbc | .rsb => if carry then operand else operand - 1
  | _ => operand

theorem flagOperand_value (opcode : Opcode) (operand : BitVec 32) (s : Core) :
    (flagOperand opcode operand s).value =
      adjustedOperand opcode (getBit (readCpsr s.reg) Flag.c) operand := by
  cases opcode <;> rfl

theorem flagOperand_state (opcode : Opcode) (operand : BitVec 32) (s : Core) :
    (flagOperand opcode operand s).state = s :=
  (flagOperand_effect readEffect_eq opcode operand s).1

theorem writeCpsr_readCpsr (r : Registers) : writeCpsr r (readCpsr r) = r :=
  Function.update_eq_self cpsrIndex r

theorem dataProcessingStatus_state (ins rn operand res : BitVec 32) (carryOut : Bool) (s : Core) :
    (dataProcessingStatus ins rn operand res carryOut s).state =
      { s with
        reg := writeCpsr s.reg
          (if getBit ins 20 then
            if regField ins 12 = 15 ∧ currentModeHasSpsr s.reg then readSpsr s.reg
            else flagWord (insOpcode ins) (getBit rn 31)
              (flagSign (insOpcode ins) rn
                (adjustedOperand (insOpcode ins) (getBit (readCpsr s.reg) Flag.c) operand))
              res carryOut (readCpsr s.reg)
          else readCpsr s.reg) } := by
  have hflags : ∀ opcode, (updateFlags opcode rn operand res carryOut s).state =
      { s with
        reg := writeCpsr s.reg (flagWord opcode (getBit rn 31)
          (flagSign opcode rn (adjustedOperand opcode (getBit (readCpsr s.reg) Flag.c) operand))
          res carryOut (readCpsr s.reg)) } := by
    intro opcode
    simp only [updateFlags, Traced.bind_state, flagOperand_value, flagOperand_state]
    rfl
  unfold dataProcessingStatus
  cases getBit ins 20 with
  | false =>
    show s = { s with reg := writeCpsr s.reg (readCpsr s.reg) }
    rw [writeCpsr_readCpsr]
  | true =>
    by_cases hrd : regField ins 12 = 15
    · cases hhas : currentModeHasSpsr s.reg with
      | true =>
        simp only [hrd, hhas, if_true, and_self, Traced.bind_state, armCurrentModeHasSpsr]
        rfl
      | false =>
        simp only [hrd, hhas, if_true, and_false, Bool.false_eq_true, if_false, Traced.bind_state,
          armCurrentModeHasSpsr, hflags]
    · simp only [hrd, if_true, false_and, if_false, Bool.false_eq_true, Traced.bind_state,
        Traced.pure_apply, hflags]

section

variable (host : Host) (ins : BitVec 32) (s : Core)

/-- The status word with the flags of the instruction `ins` in the core `s`. -/
def insStatus : BitVec 32 :=
  let rn := (armReadRegister (regField ins 16) s).value
  let operand := (dataProcessingOperand host ins s).value
  flagWord (insOpcode ins) (getBit rn 31)
    (flagSign (insOpcode ins) rn
      (adjustedOperand (insOpcode ins) (getBit (readCpsr s.reg) Flag.c) operand.1))
    (insResult host ins s) operand.2 (readCpsr s.reg)

/-- The status word after the instruction. -/
def statusAfter : BitVec 32 :=
  if getBit ins 20 then
    if regField ins 12 = 15 ∧ currentModeHasSpsr s.reg then readSpsr s.reg
    else insStatus host ins s
  else readCpsr s.reg

/-- The registers after the write of the destination. -/
def destinationAfter : Registers :=
  if (insOpcode ins).isCompare then s.reg
  else writeRegister s.reg (regField ins 12) (insResult host ins s)

theorem readCpsr_destinationAfter :
    readCpsr (destinationAfter host ins s) = readCpsr s.reg := by
  unfold destinationAfter
  cases (insOpcode ins).isCompare
  · exact readCpsr_writeRegister _ _ _
  · rfl

theorem readSpsr_destinationAfter :
    readSpsr (destinationAfter host ins s) = readSpsr s.reg := by
  unfold destinationAfter
  cases (insOpcode ins).isCompare
  · show readSpsr (writeRegister _ _ _) = _
    unfold readSpsr
    rw [getMode_writeRegister]
    cases hspsr : spsrIndex (getMode s.reg) with
    | none => rfl
    | some i =>
      have hi := (spsrIndex_bounds hspsr).1
      have hrd := registerIndex_lt (getMode s.reg) (regField ins 12)
      exact Function.update_of_ne (by omega) _ _
  · rfl

/-- With S the comparisons do nothing but set the flags, so that every instruction writes
its destination, if it has one, and then the status word. -/
theorem armDataProcessing_core
    (h : (insOpcode ins).isCompare = true → getBit ins 20 = true) :
    (armDataProcessing host ins s).state =
      { s with reg := writeCpsr (destinationAfter host ins s) (statusAfter host ins s) } := by
  have hafter : afterResult host ins s = { s with reg := destinationAfter host ins s } := by
    unfold afterResult destinationAfter
    rw [isCompareOpcode_eq, compareMiscellaneous_state]
    cases hcompare : (insOpcode ins).isCompare with
    | false => rfl
    | true => rw [if_pos rfl, if_pos rfl, if_pos (h hcompare)]
  have hhas : currentModeHasSpsr (destinationAfter host ins s) = currentModeHasSpsr s.reg := by
    unfold currentModeHasSpsr getMode
    rw [readCpsr_destinationAfter]
  rw [armDataProcessing_state, hafter, dataProcessingStatus_state, hhas,
    readSpsr_destinationAfter, readCpsr_destinationAfter]
  rfl

end

/-! ## The outcome of an instruction -/

/-- The flags of a result: of the status word only the top four bits change, and the
logical opcodes take the carry of their operand and keep the overflow. -/
structure SetsFlags (opcode : Opcode) (res : BitVec 32) (carry : Bool) (cpsr cpsr' : BitVec 32) :
    Prop where
  n : getBit cpsr' Flag.n = getBit res 31
  z : getBit cpsr' Flag.z = (res == 0)
  rest : ∀ i, i < 28 → getBit cpsr' i = getBit cpsr i
  c : opcode.isLogical = true → getBit cpsr' Flag.c = carry
  v : opcode.isLogical = true → getBit cpsr' Flag.v = getBit cpsr Flag.v

/-- The outcome of a data processing instruction with the result `res`, from the core `s`
to the core `t`. -/
structure DataProcessed (ins res : BitVec 32) (carry : Bool) (s t : Core) : Prop where
  register : ∀ i, i ≠ cpsrIndex → t.reg i =
    if (insOpcode ins).isCompare = false ∧ i = registerIndex (getMode s.reg) (regField ins 12)
    then res else s.reg i
  mem : t.mem = s.mem
  cycleCount : t.cycleCount = s.cycleCount
  kept : getBit ins 20 = false → readCpsr t.reg = readCpsr s.reg
  restored : getBit ins 20 = true → regField ins 12 = 15 →
    ∀ i, spsrIndex (getMode s.reg) = some i → readCpsr t.reg = s.reg i
  flags : getBit ins 20 = true → (regField ins 12 = 15 → spsrIndex (getMode s.reg) = none) →
    SetsFlags (insOpcode ins) res carry (readCpsr s.reg) (readCpsr t.reg)

theorem currentModeHasSpsr_iff {r : Registers} (h : Mode.Valid (getMode r)) :
    currentModeHasSpsr r = (spsrIndex (getMode r)).isSome := by
  unfold currentModeHasSpsr
  rcases Mode.valid_cases h with h | h | h | h | h | h | h <;> rw [h] <;> decide

theorem readSpsr_of_index {r : Registers} {i : Nat} (h : spsrIndex (getMode r) = some i) :
    readSpsr r = r i := by
  unfold readSpsr
  rw [h]

section

variable (host : Host) (ins : BitVec 32) (s : Core)

theorem insStatus_setsFlags :
    SetsFlags (insOpcode ins) (insResult host ins s) (dataProcessingOperand host ins s).value.2
      (readCpsr s.reg) (insStatus host ins s) where
  n := flagWord_n _ _ _ _ _ _
  z := flagWord_z _ _ _ _ _ _
  rest _ hi := flagWord_low _ _ _ _ _ _ hi
  c h := (flagWord_logical _ _ _ _ _ _ h).1
  v h := (flagWord_logical _ _ _ _ _ _ h).2

theorem destinationAfter_reg (i : Nat) :
    destinationAfter host ins s i =
      if (insOpcode ins).isCompare = false ∧ i = registerIndex (getMode s.reg) (regField ins 12)
      then insResult host ins s else s.reg i := by
  unfold destinationAfter
  cases (insOpcode ins).isCompare with
  | true => rfl
  | false =>
    show Function.update s.reg _ _ i = _
    rw [Function.update_apply]
    simp only [true_and]

/-- Every data processing instruction computes the result of its opcode, puts it in its
destination and nowhere else, and leaves the status word that S and the destination ask
for. -/
theorem armDataProcessing_outcome (hmode : Mode.Valid (getMode s.reg))
    (hcompare : (insOpcode ins).isCompare = true → getBit ins 20 = true) :
    let x := (armReadRegister (regField ins 16) s).value
    let operand := (dataProcessingOperand host ins s).value
    let res := opcodeResult (insOpcode ins) x operand.1 (getBit (readCpsr s.reg) Flag.c)
    (∀ p, s = afterFetch p → regField ins 16 = 15 → x = fetchAddress p.reg + 8) ∧
      (dataProcessingResult ins x operand.1 s).value = res ∧
      DataProcessed ins res operand.2 s (armDataProcessing host ins s).state := by
  intro x operand res
  have hcore := armDataProcessing_core host ins s hcompare
  have hcpsr : readCpsr (armDataProcessing host ins s).state.reg = statusAfter host ins s := by
    rw [hcore]
    exact readCpsr_writeCpsr _ _
  refine ⟨?_, dataProcessingResult_value ins x operand.1 s, ?_⟩
  · intro p hp hrn
    show (armReadRegister (regField ins 16) s).value = _
    rw [hp, hrn, armReadRegister_pc]
  · exact
      { register := by
          intro i hi
          rw [hcore]
          exact (Function.update_of_ne hi _ _).trans (destinationAfter_reg host ins s i)
        mem := by rw [hcore]
        cycleCount := by rw [hcore]
        kept := by
          intro hs
          rw [hcpsr, statusAfter, hs]
          rfl
        restored := by
          intro hs hrd i hi
          have hhas : currentModeHasSpsr s.reg = true := by
            rw [currentModeHasSpsr_iff hmode, hi]
            rfl
          rw [hcpsr, statusAfter, if_pos hs, if_pos ⟨hrd, hhas⟩, readSpsr_of_index hi]
        flags := by
          intro hs hnone
          have hrestore : ¬(regField ins 12 = 15 ∧ currentModeHasSpsr s.reg = true) := by
            rintro ⟨hrd, hhas⟩
            rw [currentModeHasSpsr_iff hmode, hnone hrd] at hhas
            exact absurd hhas (by decide)
          rw [hcpsr, statusAfter, if_pos hs, if_neg hrestore]
          exact insStatus_setsFlags host ins s }

end

/-- `ADDS r2, r1, #3`, with 5 in `r1`. -/
theorem armDataProcessing_outcome_five :
    DataProcessed 0xE2912003 8 false (compareCore 0x10 5)
      (armDataProcessing (.modular false) 0xE2912003 (compareCore 0x10 5)).state :=
  (armDataProcessing_outcome (.modular false) 0xE2912003 (compareCore 0x10 5) (by decide)
    (by decide)).2.2

/-! ## The carry of an immediate operand -/

theorem readCpsr_armDataProcessing {ins : BitVec 32} (hs : getBit ins 20 = true)
    (hrd : regField ins 12 ≠ 15) (host : Host) (s : Core) :
    readCpsr (armDataProcessing host ins s).state.reg = insStatus host ins s := by
  rw [armDataProcessing_core host ins s fun _ => hs, readCpsr_writeCpsr, statusAfter, if_pos hs,
    if_neg fun h => hrd h.1]

/-- The immediate is rotated as the architecture has it, and its carry is always the old flag:
that is right without a rotation, and otherwise where the flag is bit 31 of the operand
already. -/
theorem immediate_carry_iff (host : Host) (ins : BitVec 32) (s : Core)
    (hop : (insOpcode ins).isLogical = true) (hs : getBit ins 20 = true)
    (hrd : regField ins 12 ≠ 15) (himm : getBit ins 25 = true) :
    let r := (getBits ins 11 8).toNat
    let operand := (ins &&& 0xFF).rotateRight (2 * r)
    let carry := getBit (readCpsr s.reg) Flag.c
    let cpsr := readCpsr (armDataProcessing host ins s).state.reg
    ((dataProcessingOperand host ins s).value.1 = operand ∧
      getBit cpsr Flag.c = if r = 0 then carry else getBit operand 31) ↔
        r = 0 ∨ carry = getBit operand 31 := by
  intro r operand carry cpsr
  have hvalue : (dataProcessingOperand host ins s).value = (operand, carry) :=
    dataProcessingOperand_immediate host himm s
  have hc : getBit cpsr Flag.c = carry := by
    have hcpsr : cpsr = insStatus host ins s := readCpsr_armDataProcessing hs hrd host s
    rw [hcpsr, (insStatus_setsFlags host ins s).c hop, hvalue]
  rw [hvalue, hc]
  by_cases hr : r = 0
  · rw [if_pos hr]
    exact iff_of_true ⟨rfl, rfl⟩ (Or.inl hr)
  · rw [if_neg hr]
    exact ⟨fun h => Or.inr h.2, fun h => ⟨rfl, h.resolve_left hr⟩⟩

/-- `MOVS r2, #3`. -/
theorem immediate_carry_unrotated :
    (dataProcessingOperand (.modular false) 0xE3B02003 (compareCore 0x20000010 0)).value.1 = 3 ∧
      getBit (readCpsr (armDataProcessing (.modular false) 0xE3B02003
        (compareCore 0x20000010 0)).state.reg) Flag.c = true :=
  (immediate_carry_iff (.modular false) 0xE3B02003 (compareCore 0x20000010 0) (by decide)
    (by decide) (by decide) (by decide)).mpr (Or.inl (by decide))

/-- `MOVS r2, #0x80000000`, which is 2 rotated by 2, leaves the carry clear. -/
theorem immediate_carry_lost :
    (insOpcode 0xE3B02102).isLogical = true ∧ getBit 0xE3B02102 20 = true ∧
      regField 0xE3B02102 12 ≠ 15 ∧ getBit 0xE3B02102 25 = true ∧
      (getBits 0xE3B02102 11 8).toNat = 1 ∧
      (dataProcessingOperand (.modular false) 0xE3B02102 (compareCore 0x10 0)).value.1 =
        0x80000000 ∧
      ¬ getBit (readCpsr (armDataProcessing (.modular false) 0xE3B02102
        (compareCore 0x10 0)).state.reg) Flag.c = getBit 0x80000000 31 := by
  decide +kernel

end ArmSimulator
