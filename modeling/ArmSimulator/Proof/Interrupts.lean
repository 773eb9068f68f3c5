/-
Interrupts, from their delivery to the return of their handler.

The interrupt thread hands every byte it receives to `arm_exception`.  The first
part is about the shortest handler there is, one instruction at the vector that
returns at once.  The second is about delivery in general.
-/
import ArmSimulator.Proof.Exceptions

namespace ArmSimulator

/-! ## The return from an interrupt -/

/-- `SUBS PC, LR, #4`, which returns from an interrupt. -/
def subsPcLr4 : BitVec 32 := 0xE25EF004

/-- In IRQ mode it continues 4 before R14 and takes the SPSR for the CPSR. -/
theorem armDataProcessing_subsPcLr4 (host : Host) {s : Core} (hmode : getMode s.reg = Mode.irq) :
    (armDataProcessing host subsPcLr4 s).state =
      { s with reg := writeCpsr (Function.update s.reg 15 (s.reg 24 - 4)) (s.reg 35) } := by
  have hop : insOpcode subsPcLr4 = .sub := by decide
  have hrn : regField subsPcLr4 16 = 14 := by decide
  have hrd : regField subsPcLr4 12 = 15 := by decide
  have himm : getBit subsPcLr4 25 = true := by decide
  have hs : getBit subsPcLr4 20 = true := by decide
  have hwrite : getBits subsPcLr4 24 23 ≠ 0b10 := by decide
  have hvalue : ror host (subsPcLr4 &&& 0xFF) ((((subsPcLr4 >>> 8) &&& 0xF) * 2).setWidth 8) = 4 :=
    ror_zero host 4
  have h14 : registerIndex Mode.irq 14 = 24 := by decide
  have h35 : spsrIndex Mode.irq = some 35 := by decide
  have hread : (armReadRegister 14 s).value = s.reg 24 := by
    simp only [armReadRegister, readRegister, hmode, h14]
    rfl
  have hpc : (armWriteRegister 15 (s.reg 24 - 4) s).state =
      { s with reg := Function.update s.reg 15 (s.reg 24 - 4) } := by
    simp only [armWriteRegister, writeRegister, registerIndex_pc]
  -- The write of the program counter keeps the mode, so the SPSR is still that of IRQ mode.
  have hirq : getMode (Function.update s.reg 15 (s.reg 24 - 4)) = Mode.irq := by
    unfold getMode at hmode ⊢
    rw [readCpsr_update_of_ne _ (by decide), hmode]
  have hspsr : readSpsr (Function.update s.reg 15 (s.reg 24 - 4)) = s.reg 35 := by
    unfold readSpsr
    rw [hirq, h35]
    exact Function.update_of_ne (by decide) _ _
  have hhas : currentModeHasSpsr (Function.update s.reg 15 (s.reg 24 - 4)) = true := by
    unfold currentModeHasSpsr
    rw [hirq]
    decide
  have hstate : (armReadCarry (armReadRegister 14 s).state).state = s := rfl
  simp only [armDataProcessing, dataProcessingOperand, dataProcessingResult, dataProcessingStatus,
    hop, hrn, hrd, himm, hs, hwrite, hvalue, hread, hstate, hpc, Traced.bind_state,
    Traced.bind_value, Traced.pure_apply, ne_eq, not_false_eq_true, if_true,
    armCurrentModeHasSpsr, hhas, armReadSpsr, armWriteCpsr, hspsr]

theorem armStep_subsPcLr4 (host : Host) (locals : Locals) {q : Core}
    (hmode : getMode q.reg = Mode.irq) (hf : fetched q = .ok subsPcLr4) :
    (armStep host locals q).state =
      { afterFetch q with
        reg := writeCpsr (Function.update (afterFetch q).reg 15 (q.reg 24 - 4)) (q.reg 35) } := by
  have hc : executes (readCpsr q.reg) subsPcLr4 = true := by
    have : insCondition subsPcLr4 = .al := by decide
    simp only [executes, this, conditionPassed]
  have htype : insType subsPcLr4 = .dataProcessingImmediate := by decide
  have hzero : (dispatch host locals subsPcLr4 (afterFetch q)).value = some 0 := by
    simp only [dispatch, htype, Traced.bind_value, Traced.pure_apply]
  rw [(armStep_of_fetched host locals hf hc hzero).2]
  simp only [dispatch, htype, Traced.bind_state, Traced.pure_apply]
  rw [armDataProcessing_subsPcLr4 host (by rw [getMode_afterFetch, hmode]),
    afterFetch_reg_of_ne _ (by decide), afterFetch_reg_of_ne _ (by decide)]

def interruptAndStep (host : Host) (locals : Locals) (p : Core) : Core :=
  (runCalls host [.exception Trap.interrupt.code, .step locals] p).state

theorem interruptAndStep_eq (host : Host) (locals : Locals) (p : Core) :
    interruptAndStep host locals p =
      (armStep host locals (armException Trap.interrupt.code p).state).state := by
  have hfirst : (Call.run host (.exception Trap.interrupt.code) p).value = some 0 := rfl
  unfold interruptAndStep runCalls
  rw [(Traced.runAll_cons_some hfirst _).2, Traced.runAll_singleton_state]
  rfl

/-- An interrupt is transparent when only R14 and the SPSR of IRQ mode change. -/
structure TransparentInterrupt (p q : Core) : Prop where
  reg : ∀ i, i < registersSize → i ≠ Trap.interrupt.r14 → i ≠ Trap.interrupt.spsr →
    q.reg i = p.reg i
  mem : q.mem = p.mem

/-- The states in which the banks hold already what the interrupt and its return
would put there. -/
structure InterruptReturnInPlace (p : Core) : Prop where
  link : p.reg Trap.interrupt.r14 = p.reg 15 + 4
  spsr : p.reg Trap.interrupt.spsr = readCpsr p.reg
  interruptedLink : p.reg (registerIndex (getMode p.reg) 14) = p.reg 15 + 12
  interruptedSpsr : ∀ i, spsrIndex (getMode p.reg) = some i → p.reg i = readCpsr p.reg

section

variable {p : Core}

theorem fetched_interrupt (hw : memoryReadWord p.mem 0x18 = .ok subsPcLr4) :
    fetched (armException Trap.interrupt.code p).state = .ok subsPcLr4 := by
  have hpc : (armException Trap.interrupt.code p).state.reg 15 = 0x18 := by
    rw [trap_reg, if_pos rfl]
    rfl
  unfold fetched fetchAddress
  rw [hpc, armException_mem]
  exact hw

theorem interruptAndStep_reg (host : Host) (locals : Locals) (hm : Mode.Valid (getMode p.reg))
    (hne : getMode p.reg ≠ Mode.irq) (hw : memoryReadWord p.mem 0x18 = .ok subsPcLr4) (i : Nat) :
    (interruptAndStep host locals p).reg i =
      if i = cpsrIndex then p.reg Trap.interrupt.spsr
      else if i = 15 then p.reg Trap.interrupt.r14 - 4
      else (armException Trap.interrupt.code p).state.reg i := by
  rw [interruptAndStep_eq, armStep_subsPcLr4 host locals (getMode_trap .interrupt p)
    (fetched_interrupt hw)]
  have h14 : (armException Trap.interrupt.code p).state.reg 24 = p.reg Trap.interrupt.r14 :=
    trap_reg_r14 .interrupt hm hne
  have hspsr : (armException Trap.interrupt.code p).state.reg 35 = p.reg Trap.interrupt.spsr :=
    trap_reg_spsr .interrupt hm hne
  simp only [writeCpsr, Function.update_apply, afterFetch, h14, hspsr]
  split_ifs <;> rfl

theorem interruptAndStep_mem (host : Host) (locals : Locals)
    (hw : memoryReadWord p.mem 0x18 = .ok subsPcLr4) :
    (interruptAndStep host locals p).mem = p.mem := by
  rw [interruptAndStep_eq, armStep_subsPcLr4 host locals (getMode_trap .interrupt p)
    (fetched_interrupt hw)]
  simp

end

/-- An interrupt is transparent exactly when its return state, and what its entry
writes to the interrupted bank, were in place before it. -/
theorem interrupt_transparent_iff (host : Host) (locals : Locals) (p : Core)
    (hm : Mode.Valid (getMode p.reg)) (hne : getMode p.reg ≠ Mode.irq)
    (hpc : (p.reg 15).toNat % 4 = 0) (hw : memoryReadWord p.mem 0x18 = .ok subsPcLr4) :
    TransparentInterrupt p (interruptAndStep host locals p) ↔ InterruptReturnInPlace p := by
  have hreg := interruptAndStep_reg host locals hm hne hw
  have hlink : Trap.interrupt.writtenLink p = p.reg 15 + 12 := by
    have hnext := fetchAddress_of_getBit (Word.getLsbD_one_of_aligned hpc)
    show fetchAddress p.reg + 12 = _
    rw [hnext]
  have hothers := trap_others_iff .interrupt hm hne
  rw [hlink] at hothers
  constructor
  · intro h
    have hbank := hothers.mp fun i hi h15 hcpsr h14 hspsr => by
      rw [← h.reg i hi h14 hspsr, hreg, if_neg hcpsr, if_neg h15]
    refine ⟨?_, ?_, hbank.1, hbank.2⟩
    · have hback := h.reg 15 (by decide) (by decide) (by decide)
      rw [hreg, if_neg (by decide), if_pos rfl] at hback
      rw [← hback, BitVec.sub_add_cancel]
    · have hback := h.reg cpsrIndex (by decide) (by decide) (by decide)
      rw [hreg, if_pos rfl] at hback
      exact hback
  · intro h
    refine ⟨?_, interruptAndStep_mem host locals hw⟩
    intro i hi h14 hspsr
    rw [hreg]
    by_cases hcpsr : i = cpsrIndex
    · rw [if_pos hcpsr, hcpsr]
      exact h.spsr
    rw [if_neg hcpsr]
    by_cases h15 : i = 15
    · rw [if_pos h15, h15, h.link, BitVec.add_sub_cancel]
    · rw [if_neg h15]
      exact hothers.mpr ⟨h.interruptedLink, h.interruptedSpsr⟩ i hi h15 hcpsr h14 hspsr

/-- A core with the one-instruction handler at 0x18, its registers as given. -/
def handlerCore (reg : Registers) : Core where
  cycleCount := 0
  reg := reg
  mem := memoryOfWords false 64 [0, 0, 0, 0, 0, 0, subsPcLr4]

theorem interrupt_transparent_returnCore :
    TransparentInterrupt (handlerCore returnCore.reg)
      (interruptAndStep (.modular false) ⟨0, 0⟩ (handlerCore returnCore.reg)) :=
  (interrupt_transparent_iff (.modular false) ⟨0, 0⟩ (handlerCore returnCore.reg) (by decide)
    (by decide) (by decide) (by decide +kernel)).mpr
    ⟨by decide, by decide, by decide, by decide⟩

/-- A program that was never interrupted before does not come back to its address. -/
theorem interrupt_freshCore_not_transparent :
    Mode.Valid (getMode (handlerCore freshCore.reg).reg) ∧
      getMode (handlerCore freshCore.reg).reg ≠ Mode.irq ∧
      ((handlerCore freshCore.reg).reg 15).toNat % 4 = 0 ∧
      memoryReadWord (handlerCore freshCore.reg).mem 0x18 = .ok subsPcLr4 ∧
      ¬ TransparentInterrupt (handlerCore freshCore.reg)
        (interruptAndStep (.modular false) ⟨0, 0⟩ (handlerCore freshCore.reg)) :=
  ⟨by decide, by decide, by decide, by decide +kernel,
    fun h => absurd (h.reg 15 (by decide) (by decide) (by decide)) (by decide +kernel)⟩

/-! ## Delivery

`irq_listener` passes on every byte, and nothing between it and the registers
looks at the I and F bits.  `send_irq` alone checks that the byte it sends is the
code of an exception. -/

/-- The two cores differ at most in the program counter, the CPSR, and R14 and SPSR of the
mode that was interrupted. -/
structure SameOutsideReturnState (p q : Core) : Prop where
  mem : q.mem = p.mem
  cycleCount : q.cycleCount = p.cycleCount
  reg : ∀ i, i ≠ 15 → i ≠ cpsrIndex → i ≠ registerIndex (getMode p.reg) 14 →
    spsrIndex (getMode p.reg) ≠ some i → q.reg i = p.reg i

theorem armException_sameOutside {byte : BitVec 8} (h : byte.setWidth 32 ≠ reset) (p : Core) :
    SameOutsideReturnState p (armException byte p).state := by
  refine ⟨armException_mem byte p, armException_cycleCount byte p, ?_⟩
  intro i h15 hcpsr h14 hspsr
  rw [armException_reg h, if_neg h15, if_neg hcpsr, if_neg h14, if_neg hspsr]

theorem trap_taken (trap : Trap) (p : Core) :
    getMode (armException trap.code p).state.reg = trap.mode ∧
      getBit (readCpsr (armException trap.code p).state.reg) 7 = true ∧
      (armException trap.code p).state.reg 15 = trap.vector := by
  refine ⟨getMode_trap trap p, ?_, ?_⟩
  · rw [readCpsr_trap]
    exact (trap.exceptionCpsr_bits _).2.1
  · rw [trap_reg, if_pos rfl]

/-- A byte that is not the code of an exception. -/
def UnknownCode (byte : BitVec 8) : Prop := byte = 0 ∨ 8 < byte.toNat

instance (byte : BitVec 8) : Decidable (UnknownCode byte) :=
  inferInstanceAs (Decidable (byte = 0 ∨ 8 < byte.toNat))

theorem UnknownCode.ne {byte : BitVec 8} (h : UnknownCode byte) (code : BitVec 32)
    (hcode : 0 < code.toNat ∧ code.toNat ≤ 8) : byte.setWidth 32 ≠ code := by
  intro heq
  have hnat : byte.toNat = code.toNat := by
    rw [← heq, BitVec.toNat_setWidth]
    have := byte.isLt
    omega
  rcases h with h | h
  · rw [h] at hnat
    have : (0 : BitVec 8).toNat = 0 := rfl
    omega
  · omega

theorem armException_unknown {byte : BitVec 8} (h : UnknownCode byte) (p : Core) :
    readCpsr (armException byte p).state.reg = readCpsr p.reg ∧
      (armException byte p).state.reg 15 = (byte.setWidth 32 - 1) * 4 := by
  have hreset : byte.setWidth 32 ≠ reset := h.ne reset (by decide)
  constructor
  · show (armException byte p).state.reg cpsrIndex = _
    rw [armException_reg hreset, if_neg (by decide), if_pos rfl]
    simp only [exceptionCpsr, if_neg (h.ne undefinedInstruction (by decide)),
      if_neg (h.ne softwareInterrupt (by decide)),
      if_neg (h.ne prefetchAbort (by decide)),
      if_neg (h.ne dataAbort (by decide)),
      if_neg (h.ne interrupt (by decide)),
      if_neg (h.ne fastInterrupt (by decide))]
  · rw [armException_reg hreset, if_pos rfl]
    rfl

/-- Whatever calls came before, and whether the status word masks them or not, an
interrupt and a fast interrupt are taken, and a byte that is not the code of an
exception is a jump.  None of them touches memory or a register outside the return
state of the mode it finds. -/
theorem delivery_unfiltered (host : Host) (reg : Registers) (mem : Memory) (calls : List Call)
    (byte : BitVec 8) (hbyte : UnknownCode byte) :
    let p := (runCalls host calls (armCreate reg mem)).state
    let afterInterrupt := (armException Trap.interrupt.code p).state
    let afterFast := (armException Trap.fastInterrupt.code p).state
    let afterUnknown := (armException byte p).state
    (getMode afterInterrupt.reg = Mode.irq ∧ getBit (readCpsr afterInterrupt.reg) 7 = true ∧
        readCpsr afterInterrupt.reg = (readCpsr p.reg &&& 0x40) ||| 0x192 ∧
        afterInterrupt.reg 15 = 0x18 ∧ SameOutsideReturnState p afterInterrupt) ∧
      (getMode afterFast.reg = Mode.fiq ∧ getBit (readCpsr afterFast.reg) 7 = true ∧
        readCpsr afterFast.reg = 0x1D1 ∧ afterFast.reg 15 = 0x1C ∧
        SameOutsideReturnState p afterFast) ∧
      (readCpsr afterUnknown.reg = readCpsr p.reg ∧
        afterUnknown.reg 15 = (byte.setWidth 32 - 1) * 4 ∧
        SameOutsideReturnState p afterUnknown) := by
  intro p afterInterrupt afterFast afterUnknown
  obtain ⟨hmode, hmask, hpc⟩ := trap_taken .interrupt p
  obtain ⟨hmode', hmask', hpc'⟩ := trap_taken .fastInterrupt p
  obtain ⟨hcpsr, hjump⟩ := armException_unknown hbyte p
  exact ⟨⟨hmode, hmask, readCpsr_trap .interrupt p, hpc,
      armException_sameOutside Trap.interrupt.code_ne_reset p⟩,
    ⟨hmode', hmask', readCpsr_trap .fastInterrupt p, hpc',
      armException_sameOutside Trap.fastInterrupt.code_ne_reset p⟩,
    hcpsr, hjump, armException_sameOutside (hbyte.ne reset (by decide)) p⟩

/-- The core `arm_create` makes over an empty memory; RESET masks both interrupts. -/
def createdCore : Core := armCreate (fun _ => 0) (memoryOfWords false 64 [])

theorem delivery_unfiltered_createdCore :
    UnknownCode 9 ∧
      (armException 9 createdCore).state.reg 15 = 0x20 :=
  ⟨by decide, (delivery_unfiltered (.modular false) (fun _ => 0) (memoryOfWords false 64 []) [] 9
    (by decide)).2.2.2.1⟩

/-- Both interrupts are masked, and they and the byte 9 still move the program
counter. -/
theorem masked_interrupt_moves_createdCore :
    getBit (readCpsr createdCore.reg) 7 = true ∧
      (armException Trap.interrupt.code createdCore).state.reg 15 ≠ createdCore.reg 15 ∧
      getBit (readCpsr createdCore.reg) 6 = true ∧
      (armException Trap.fastInterrupt.code createdCore).state.reg 15 ≠ createdCore.reg 15 ∧
      UnknownCode 9 ∧ (armException 9 createdCore).state.reg 15 ≠ createdCore.reg 15 := by
  decide +kernel

end ArmSimulator
