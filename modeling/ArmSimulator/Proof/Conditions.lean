/-
Conditional execution.

The switch on the condition field is compared with the predicates of the architecture.
After it no handler looks at the four bits again: two words that agree below bit 28 are
dispatched alike.
-/
import ArmSimulator.Model.Instruction

namespace ArmSimulator

/-! ## The predicates -/

/-- The predicate of a condition field other than 1111: the upper three bits select a test and
the lowest one inverts it. -/
def armCondition (field : BitVec 4) (n z c v : Bool) : Bool :=
  let test := match (field.extractLsb' 1 3).toNat with
    | 0b000 => z
    | 0b001 => c
    | 0b010 => n
    | 0b011 => v
    | 0b100 => c && !z
    | 0b101 => n == v
    | 0b110 => n == v && !z
    | _ => true
  test != field.getLsbD 0

theorem conditionPassed_eq {field : BitVec 4} (h : field ≠ 0b1111) (n z c v : Bool) :
    conditionPassed (.ofField field) n z c v = armCondition field n z c v := by
  revert field
  cases n <;> cases z <;> cases c <;> cases v <;> decide

/-! ## Words that agree below the condition field -/

section

variable {ins ins' : BitVec 32} (h : ∀ i, i < 28 → getBit ins' i = getBit ins i)
include h

theorem getBits_agree {hi lo : Nat} (hlo : lo ≤ hi) (hhi : hi < 28) :
    getBits ins' hi lo = getBits ins hi lo := by
  apply BitVec.eq_of_getLsbD_eq
  intro i hi'
  rw [getLsbD_getBits _ (by omega), getLsbD_getBits _ (by omega), h _ (by omega)]

theorem regField_agree {lo : Nat} (hlo : lo < 25) : regField ins' lo = regField ins lo := by
  have hfield : ins'.extractLsb' lo 4 = ins.extractLsb' lo 4 := by
    apply BitVec.eq_of_getLsbD_eq
    intro i hi
    rw [BitVec.getLsbD_extractLsb', BitVec.getLsbD_extractLsb']
    exact congrArg _ (h (lo + i) (by omega))
  unfold regField
  rw [hfield]

theorem and_agree {mask : BitVec 32} (hmask : ∀ i, i < 32 → 28 ≤ i → mask.getLsbD i = false) :
    ins' &&& mask = ins &&& mask := by
  apply BitVec.eq_of_getLsbD_eq
  intro i hi
  rw [BitVec.getLsbD_and, BitVec.getLsbD_and]
  by_cases hlt : i < 28
  · exact congrArg (· && mask.getLsbD i) (h i hlt)
  · rw [hmask i hi (by omega), Bool.and_false, Bool.and_false]

theorem rotation_agree : (ins' >>> 8) &&& (0xF : BitVec 32) = (ins >>> 8) &&& 0xF := by
  apply BitVec.eq_of_getLsbD_eq
  intro i hi
  have hmask : ∀ j, j < 32 → (0xF : BitVec 32).getLsbD j = decide (j < 4) := by decide
  rw [BitVec.getLsbD_and, BitVec.getLsbD_and, hmask i hi, BitVec.getLsbD_ushiftRight,
    BitVec.getLsbD_ushiftRight]
  by_cases hlt : i < 4
  · exact congrArg (· && decide (i < 4)) (h (8 + i) (by omega))
  · rw [decide_eq_false hlt, Bool.and_false, Bool.and_false]

theorem shifterOperand_agree (host : Host) : shifterOperand host ins' = shifterOperand host ins := by
  simp (disch := omega) only [shifterOperand, shifterAmount, h, getBits_agree h, regField_agree h]

theorem addressingMode_agree (host : Host) : addressingMode host ins' = addressingMode host ins := by
  simp (disch := omega) only [addressingMode, h, getBits_agree h, regField_agree h,
    shifterOperand_agree h]

theorem armDataProcessing_agree (host : Host) :
    armDataProcessing host ins' = armDataProcessing host ins := by
  have hbyte : ins' &&& 0xFF = ins &&& 0xFF := and_agree h (by decide)
  have hmisc : armMiscellaneous ins' = armMiscellaneous ins := by
    simp (disch := omega) only [armMiscellaneous, h, regField_agree h]
  simp (disch := omega) only [armDataProcessing, dataProcessingOperand, dataProcessingResult,
    dataProcessingStatus, compareMiscellaneous, insOpcode, h, hbyte, hmisc, rotation_agree h,
    getBits_agree h, regField_agree h, shifterOperand_agree h]

theorem armLoadStore_agree (host : Host) (locals : Locals) :
    armLoadStore host locals ins' = armLoadStore host locals ins := by
  have hload : loadValue host locals ins' = loadValue host locals ins := by
    funext a
    simp (disch := omega) only [loadValue, h]
  have hstore : storeValue ins' = storeValue ins := by
    funext a val
    simp (disch := omega) only [storeValue, h]
  have huser : isUserTransfer ins' = isUserTransfer ins := by
    simp (disch := omega) only [isUserTransfer, h]
  simp (disch := omega) only [armLoadStore, transferValue, h, huser, hload, hstore,
    regField_agree h, addressingMode_agree h]

theorem blockLoop_agree (regs : List (Fin 16)) : blockLoop ins' regs = blockLoop ins regs := by
  induction regs with
  | nil => rfl
  | cons ri rest ih =>
    funext b
    simp (disch := omega) only [blockLoop, h, ih]

theorem armLoadStoreMultiple_agree (locals : Locals) :
    armLoadStoreMultiple locals ins' = armLoadStoreMultiple locals ins := by
  simp (disch := omega) only [armLoadStoreMultiple, blockStart, blockBase, h, regField_agree h,
    blockLoop_agree h]

/-- No handler looks at the condition field. -/
theorem dispatch_agree (host : Host) (locals : Locals) :
    dispatch host locals ins' = dispatch host locals ins := by
  have hoffset : ins' &&& 0xFFFFFF = ins &&& 0xFFFFFF := and_agree h (by decide)
  simp (disch := omega) only [dispatch, insType, armBranch, armCoprocessorOthersSwi, h, hoffset,
    getBits_agree h, armDataProcessing_agree h, armLoadStore_agree h, armLoadStoreMultiple_agree h]

end

/-! ## The step -/

/-- The word with its condition field replaced by AL. -/
def alwaysWord (ins : BitVec 32) : BitVec 32 := (ins &&& 0x0FFFFFFF) ||| 0xE0000000

theorem alwaysWord_agree (ins : BitVec 32) {i : Nat} (hi : i < 28) :
    getBit (alwaysWord ins) i = getBit ins i := by
  have hmask : ∀ j, j < 28 →
      (0x0FFFFFFF : BitVec 32).getLsbD j = true ∧ (0xE0000000 : BitVec 32).getLsbD j = false := by
    decide
  unfold alwaysWord getBit
  rw [BitVec.getLsbD_or, BitVec.getLsbD_and, (hmask i hi).1, (hmask i hi).2, Bool.and_true,
    Bool.or_false]

/-- The effects of an instruction are gated by its condition and depend on it in no other way.
An instruction whose condition fails only advances the program counter and counts a cycle;
one whose condition holds is dispatched as the word with AL is.  The only result that enters
an exception is that of the coprocessor loads and stores. -/
theorem armStep_condition (host : Host) (locals : Locals) (p : Core) (ins : BitVec 32)
    (hpc : getBit (p.reg 15) 1 = false) (hf : fetched p = .ok ins)
    (hcond : getBits ins 31 28 ≠ 0b1111) :
    let cpsr := readCpsr p.reg
    let passed := armCondition (getBits ins 31 28) (getBit cpsr Flag.n) (getBit cpsr Flag.z)
      (getBit cpsr Flag.c) (getBit cpsr Flag.v)
    let step := armStep host locals p
    let run := dispatch host locals (alwaysWord ins) (afterFetch p)
    (passed = false → step.value = some 0 ∧
      step.state =
        { cycleCount := p.cycleCount + 1, reg := Function.update p.reg 15 (p.reg 15 + 4),
          mem := p.mem }) ∧
    (passed = true → step.value = run.value ∧
      step.state = (enterException run.value run.state).state ∧
      (insType ins ≠ .loadStoreCoproc → step.state = run.state)) := by
  intro cpsr passed step run
  have hpassed : executes (readCpsr p.reg) ins = passed :=
    conditionPassed_eq hcond _ _ _ _
  have hrun : run = dispatch host locals ins (afterFetch p) := by
    have hagree := dispatch_agree (fun i hi => alwaysWord_agree ins hi) host locals
    exact congrFun hagree (afterFetch p)
  constructor
  · intro hfalse
    obtain ⟨hvalue, hstate⟩ := armStep_of_skipped host locals hf (hpassed.trans hfalse)
    refine ⟨hvalue, hstate.trans ?_⟩
    unfold afterFetch
    rw [fetchAddress_of_getBit hpc]
  · intro htrue
    obtain ⟨hvalue, hstate⟩ := armStep_of_dispatch host locals hf (hpassed.trans htrue)
    rw [hrun]
    refine ⟨hvalue, hstate, fun htype => hstate.trans ?_⟩
    rcases dispatch_value_cases host locals ins (afterFetch p) htype with h | h <;> rw [h]
    · exact enterException_zero _
    · exact enterException_none _

/-- A core about to execute `MOVEQ r2, #3`. -/
def conditionCore (cpsr : BitVec 32) : Core where
  cycleCount := 0
  reg := fun i => if i = cpsrIndex then cpsr else 0
  mem := memoryOfWords false 64 [0x03A02003]

theorem armStep_condition_fails :
    (armStep (.modular false) ⟨0, 0⟩ (conditionCore 0x10)).value = some 0 ∧
      (armStep (.modular false) ⟨0, 0⟩ (conditionCore 0x10)).state =
        { cycleCount := 1, reg := Function.update (conditionCore 0x10).reg 15 4,
          mem := (conditionCore 0x10).mem } :=
  (armStep_condition (.modular false) ⟨0, 0⟩ (conditionCore 0x10) 0x03A02003 (by decide)
    (by decide +kernel) (by decide)).1 (by decide)

end ArmSimulator
