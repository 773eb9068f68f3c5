/-
Branches, calls and returns.

The fetch leaves the program counter one instruction ahead and reading it adds another
four, so a branch at `A` adds its offset to `A + 8` and a call leaves `A + 4` in R14.
The sign extension of the offset fills six bits only; the shift by two that follows
moves out the two it leaves.
-/
import ArmSimulator.Proof.DataProcessing

namespace ArmSimulator

/-! ## The target of a branch -/

theorem signExtending_bit (ins : BitVec 32) {j : Nat} (hj : j < 30) :
    (signExtending (ins &&& 0xFFFFFF)).getLsbD j =
      if j < 24 then getBit ins j else getBit ins 23 := by
  have hmask : ∀ j, j < 30 → (0xFFFFFF : BitVec 32).getLsbD j = decide (j < 24) := by decide
  have hfill : ∀ j, j < 30 → (0x3F000000 : BitVec 32).getLsbD j = decide (24 ≤ j) := by decide
  have hsign : getBit (ins &&& 0xFFFFFF) 23 = getBit ins 23 := by
    simp [getBit]
  unfold signExtending
  rw [hsign]
  cases hneg : getBit ins 23 with
  | false =>
    rw [if_neg (by decide), BitVec.getLsbD_and, hmask j hj]
    by_cases h : j < 24 <;> simp [h, getBit]
  | true =>
    rw [if_pos rfl, BitVec.getLsbD_or, BitVec.getLsbD_and, hmask j hj, hfill j hj]
    by_cases h : j < 24
    · simp [h, Nat.not_le.mpr h, getBit]
    · simp [h, Nat.not_lt.mp h]

theorem signExtending_shift (ins : BitVec 32) :
    signExtending (ins &&& 0xFFFFFF) <<< 2 = BitVec.ofInt 32 (4 * (getBits ins 23 0).toInt) := by
  have hspec : BitVec.ofInt 32 (4 * (getBits ins 23 0).toInt) =
      ((getBits ins 23 0).signExtend 32) <<< 2 := by
    rw [BitVec.ofInt_mul, BitVec.mul_comm, BitVec.shiftLeft_eq_mul_twoPow]
    rfl
  have hmsb : (getBits ins 23 0).msb = getBit ins 23 := by
    rw [BitVec.msb_eq_getLsbD_last]
    exact getLsbD_getBits ins (by decide)
  rw [hspec]
  apply BitVec.eq_of_getLsbD_eq
  intro i hi
  rw [BitVec.getLsbD_shiftLeft, BitVec.getLsbD_shiftLeft, BitVec.getLsbD_signExtend, hmsb]
  by_cases h2 : i < 2
  · simp [h2]
  · rw [signExtending_bit ins (by omega)]
    have hlt : i - 2 < 32 := by omega
    by_cases hk : i - 2 < 24
    · rw [if_pos hk, if_pos hk, getLsbD_getBits ins (by omega), Nat.zero_add]
      simp [hlt]
    · rw [if_neg hk, if_neg hk]
      simp [hlt]

/-- Where a branch at `a` goes: the 24-bit field counts instructions from the one after
the next. -/
def branchTarget (a ins : BitVec 32) : BitVec 32 :=
  a + 8 + BitVec.ofInt 32 (4 * (getBits ins 23 0).toInt)

theorem branchTarget_aligned {a : BitVec 32} (h : a.toNat % 4 = 0) (ins : BitVec 32) :
    (branchTarget a ins).toNat % 4 = 0 := by
  have h8 : (8 : BitVec 32).toNat = 8 := rfl
  unfold branchTarget
  rw [← signExtending_shift, BitVec.toNat_add, BitVec.toNat_add, BitVec.toNat_shiftLeft,
    Nat.shiftLeft_eq, h8]
  omega

/-! ## The step of a branch -/

theorem fetched_of_aligned {p : Core} (h : (p.reg 15).toNat % 4 = 0) :
    fetched p = memoryReadWord p.mem (p.reg 15) := by
  unfold fetched
  rw [fetchAddress_of_getBit (Word.getLsbD_one_of_aligned h)]

theorem fetchAddress_of_aligned {r : Registers} (h : (r 15).toNat % 4 = 0) :
    fetchAddress r = r 15 :=
  fetchAddress_of_getBit (Word.getLsbD_one_of_aligned h)

/-- The registers after a branch from the core `s`, where `pc` is what the program
counter reads as. -/
theorem armBranch_reg (ins : BitVec 32) (s : Core) (i : Nat) :
    (armBranch ins s).state.reg i =
      if i = 15 then (armReadRegister 15 s).value + signExtending (ins &&& 0xFFFFFF) <<< 2
      else if getBit ins 24 = true ∧ i = registerIndex (getMode s.reg) 14 then
        (armReadRegister 15 s).value - 4
      else s.reg i := by
  have h14 : (15 : Nat) ≠ registerIndex (getMode s.reg) 14 :=
    (registerIndex_ne_pc _ (by decide)).symm
  cases hlink : getBit ins 24 with
  | false =>
    have hstate : (armBranch ins s).state =
        { s with
          reg := writeRegister s.reg 15
            ((armReadRegister 15 s).value + signExtending (ins &&& 0xFFFFFF) <<< 2) } := by
      simp only [armBranch, hlink, Bool.false_eq_true, if_false, Traced.bind_state,
        Traced.pure_apply]
      rfl
    simp only [hstate, writeRegister, registerIndex_pc, Function.update_apply, false_and,
      Bool.false_eq_true, if_false]
  | true =>
    let linked : Core :=
      { s with reg := writeRegister s.reg 14 ((armReadRegister 15 s).value - 4) }
    have hpc : (armReadRegister 15 linked).value = (armReadRegister 15 s).value := by
      simp only [armReadRegister, readRegister, registerIndex_pc, linked, writeRegister,
        Function.update_of_ne h14]
    have hstate : (armBranch ins s).state =
        { s with
          reg := writeRegister linked.reg 15
            ((armReadRegister 15 linked).value + signExtending (ins &&& 0xFFFFFF) <<< 2) } := by
      simp only [armBranch, hlink, if_true, armBranchLink, Traced.bind_state, Traced.pure_apply]
      rfl
    rw [hstate, hpc]
    simp only [linked, writeRegister, registerIndex_pc, Function.update_apply, true_and]

theorem armBranch_mem (ins : BitVec 32) (s : Core) : (armBranch ins s).state.mem = s.mem := by
  unfold armBranch
  cases getBit ins 24 <;> rfl

/-- B or BL, which bit 24 tells apart. -/
def IsBranch (ins : BitVec 32) : Prop := getBits ins 27 25 = 0b101

/-- The step of a branch at an aligned address. -/
theorem armStep_branch (host : Host) (locals : Locals) {p : Core} {ins : BitVec 32}
    (hA : (p.reg 15).toNat % 4 = 0) (hf : fetched p = .ok ins)
    (hc : executes (readCpsr p.reg) ins = true) (hins : IsBranch ins) :
    (armStep host locals p).state.mem = p.mem ∧
      ∀ i, (armStep host locals p).state.reg i =
        if i = 15 then branchTarget (p.reg 15) ins
        else if getBit ins 24 = true ∧ i = registerIndex (getMode p.reg) 14 then p.reg 15 + 4
        else p.reg i := by
  have htype : insType ins = .branch := insType_of_getBits hins
  have hzero : (dispatch host locals ins (afterFetch p)).value = some 0 := by
    simp only [dispatch, htype, Traced.bind_value, Traced.pure_apply]
  have hstate : (dispatch host locals ins (afterFetch p)).state =
      (armBranch ins (afterFetch p)).state := by
    simp only [dispatch, htype, Traced.bind_state, Traced.pure_apply]
  rw [(armStep_of_fetched host locals hf hc hzero).2, hstate]
  refine ⟨armBranch_mem ins _, fun i => ?_⟩
  have hlink : p.reg 15 + 8 - 4 = p.reg 15 + 4 := by bv_omega
  rw [armBranch_reg, getMode_afterFetch, armReadRegister_pc, fetchAddress_of_aligned hA,
    signExtending_shift, hlink]
  by_cases h15 : i = 15
  · rw [if_pos h15, if_pos h15]
    rfl
  · rw [if_neg h15, if_neg h15, afterFetch_reg_of_ne p h15]

/-! ## The return -/

/-- `MOV PC, LR` under any condition. -/
def IsMovPcLr (ins : BitVec 32) : Prop := getBits ins 27 0 = 0x1A0F00E

instance (ins : BitVec 32) : Decidable (IsMovPcLr ins) :=
  inferInstanceAs (Decidable (_ = _))

theorem armDataProcessing_movPcLr (host : Host) {ins : BitVec 32} (h : IsMovPcLr ins) (s : Core) :
    (armDataProcessing host ins s).state =
      { s with reg := writeRegister s.reg 15 (readRegister s.reg 14) } := by
  have hop : insOpcode ins = .mov := by
    unfold insOpcode
    rw [getBits_of_getBits h (by decide) (by decide) (by decide)]
    decide
  have hcompare : isCompareOpcode ins = false := by
    unfold isCompareOpcode
    rw [getBits_of_getBits h (by decide) (by decide) (by decide)]
    decide
  have himm : getBit ins 25 = false := getBit_of_getBits h (by decide) (by decide)
  have hs : getBit ins 20 = false := getBit_of_getBits h (by decide) (by decide)
  have hshift : getBits ins 11 4 = 0 := getBits_of_getBits h (by decide) (by decide) (by decide)
  have hrd : regField ins 12 = 15 := by
    have hfield : getBits ins 15 12 = 15 := getBits_of_getBits h (by decide) (by decide) (by decide)
    exact congrArg BitVec.toFin hfield
  have hrm : regField ins 0 = 14 := by
    have hfield : getBits ins 3 0 = 14 := getBits_of_getBits h (by decide) (by decide) (by decide)
    exact congrArg BitVec.toFin hfield
  have hvalue : (armReadRegister 14 s).value = readRegister s.reg 14 :=
    armReadRegister_value_of_ne (by decide) s
  rw [armDataProcessing_state]
  simp only [dataProcessingStatus, hs, Bool.false_eq_true, if_false, Traced.pure_apply, afterResult,
    hcompare, insResult, hop, opcodeResult, dataProcessingOperand, himm,
    shifterOperand_unshifted host hshift, hrd, hrm, hvalue]

/-- The step of `MOV PC, LR`. -/
theorem armStep_movPcLr (host : Host) (locals : Locals) {p : Core} {ins : BitVec 32}
    (hf : fetched p = .ok ins) (hc : executes (readCpsr p.reg) ins = true) (hins : IsMovPcLr ins) :
    (armStep host locals p).state.mem = p.mem ∧
      ∀ i, (armStep host locals p).state.reg i =
        if i = 15 then readRegister p.reg 14 else p.reg i := by
  have htype : insType ins = .dataProcessingShift :=
    insType_of_getBits (getBits_of_getBits hins (by decide) (by decide) (by decide))
  have h4 : getBit ins 4 = false := getBit_of_getBits hins (by decide) (by decide)
  have hzero : (dispatch host locals ins (afterFetch p)).value = some 0 := by
    simp only [dispatch, htype, h4, Bool.false_eq_true, false_and, if_false, Traced.bind_value,
      Traced.pure_apply]
  have hstate : (dispatch host locals ins (afterFetch p)).state =
      (armDataProcessing host ins (afterFetch p)).state := by
    simp only [dispatch, htype, h4, Bool.false_eq_true, false_and, if_false, Traced.bind_state,
      Traced.pure_apply]
  rw [(armStep_of_fetched host locals hf hc hzero).2, hstate, armDataProcessing_movPcLr host hins,
    readRegister_afterFetch p (by decide)]
  refine ⟨rfl, fun i => ?_⟩
  simp only [writeRegister, registerIndex_pc, Function.update_apply]
  by_cases h15 : i = 15
  · rw [if_pos h15, if_pos h15]
  · rw [if_neg h15, if_neg h15, afterFetch_reg_of_ne p h15]

/-! ## Call and return -/

/-- What a branch at `a` makes of the core `p`. -/
structure Branched (a ins : BitVec 32) (p q : Core) : Prop where
  next : fetchAddress q.reg = branchTarget a ins
  link : q.reg (registerIndex (getMode p.reg) 14) =
    if getBit ins 24 then a + 4 else p.reg (registerIndex (getMode p.reg) 14)
  others : ∀ i, i ≠ 15 → i ≠ registerIndex (getMode p.reg) 14 → q.reg i = p.reg i
  mem : q.mem = p.mem

/-- What a call at `a` and its return leave. -/
structure Returned (a : BitVec 32) (p q : Core) : Prop where
  next : fetchAddress q.reg = a + 4
  others : ∀ i, i ≠ 15 → i ≠ registerIndex (getMode p.reg) 14 → q.reg i = p.reg i
  mem : q.mem = p.mem

/-- A branch at an aligned address `a` jumps by its offset and, with link, leaves `a + 4`
in R14 of the current mode.  `MOV PC, LR` at the target of a call then comes back to the
instruction after the call with everything but R14 as it was. -/
theorem call_and_return (host : Host) (locals locals' : Locals) (p : Core) (a ins : BitVec 32)
    (ha : p.reg 15 = a) (haligned : a.toNat % 4 = 0) (hins : IsBranch ins)
    (hword : memoryReadWord p.mem a = .ok ins) (hc : executes (readCpsr p.reg) ins = true) :
    Branched a ins p (armStep host locals p).state ∧
      ∀ ret, getBit ins 24 = true → IsMovPcLr ret →
        memoryReadWord p.mem (branchTarget a ins) = .ok ret →
        executes (readCpsr p.reg) ret = true →
        Returned a p (armStep host locals' (armStep host locals p).state).state := by
  subst ha
  have h14 : registerIndex (getMode p.reg) 14 ≠ 15 := registerIndex_ne_pc _ (by decide)
  have h14' : registerIndex (getMode p.reg) 14 ≠ cpsrIndex := registerIndex_ne_cpsr _ _
  have hf : fetched p = .ok ins := (fetched_of_aligned haligned).trans hword
  obtain ⟨hmem, hreg⟩ := armStep_branch host locals haligned hf hc hins
  generalize (armStep host locals p).state = q at hmem hreg
  have hpc : q.reg 15 = branchTarget (p.reg 15) ins := (hreg 15).trans (if_pos rfl)
  have htarget : (q.reg 15).toNat % 4 = 0 := by
    rw [hpc]
    exact branchTarget_aligned haligned ins
  have hothers : ∀ i, i ≠ 15 → i ≠ registerIndex (getMode p.reg) 14 → q.reg i = p.reg i := by
    intro i h15 hi
    rw [hreg, if_neg h15, if_neg (fun h => hi h.2)]
  have hcpsr : readCpsr q.reg = readCpsr p.reg := hothers cpsrIndex (by decide) h14'.symm
  have hmode : getMode q.reg = getMode p.reg := by
    unfold getMode
    rw [hcpsr]
  constructor
  · refine ⟨(fetchAddress_of_aligned htarget).trans hpc, ?_, hothers, hmem⟩
    rw [hreg, if_neg h14]
    cases getBit ins 24 <;> simp
  · intro ret hlink hret hword' hc'
    have hf' : fetched q = .ok ret := by
      rw [fetched_of_aligned htarget, hpc, hmem, hword']
    obtain ⟨hmem', hreg'⟩ := armStep_movPcLr host locals' hf' (hcpsr.symm ▸ hc') hret
    have hback : readRegister q.reg 14 = p.reg 15 + 4 := by
      unfold readRegister
      rw [hmode, hreg, if_neg h14, if_pos ⟨hlink, rfl⟩]
    refine ⟨?_, fun i h15 hi => ?_, hmem'.trans hmem⟩
    · rw [fetchAddress_of_aligned] <;> rw [hreg', if_pos rfl, hback]
      bv_omega
    · rw [hreg', if_neg h15, hothers i h15 hi]

/-- A core with `BL` to address 0x10 at address 0 and `MOV PC, LR` there. -/
def callCore : Core where
  cycleCount := 0
  reg := fun i => if i = cpsrIndex then 0x10 else 0
  mem := memoryOfWords false 64 [0xEB000002, 0, 0, 0, 0xE1A0F00E]

theorem call_and_return_callCore :
    Branched 0 0xEB000002 callCore (armStep (.modular false) ⟨0, 0⟩ callCore).state ∧
      Returned 0 callCore (armStep (.modular false) ⟨0, 0⟩
        (armStep (.modular false) ⟨0, 0⟩ callCore).state).state := by
  have h := call_and_return (.modular false) ⟨0, 0⟩ ⟨0, 0⟩ callCore 0 0xEB000002 (by decide)
    (by decide) (by unfold IsBranch; decide) (by decide +kernel) (by decide)
  exact ⟨h.1, h.2 0xE1A0F00E (by decide) (by decide) (by decide +kernel) (by decide)⟩

end ArmSimulator
