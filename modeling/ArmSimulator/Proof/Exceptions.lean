/-
What exception entry does to the register array.

`arm_exception` saves the status word and the link register before it switches the
mode, so both land in the bank of the interrupted mode.  `armException_reg` is the
whole effect, one index at a time.
-/
import ArmSimulator.Model.Instruction

namespace ArmSimulator

/-! ## The effect of an exception -/

@[simp] theorem getMode_writeSpsr (r : Registers) (value : BitVec 32) :
    getMode (writeSpsr r value) = getMode r := by
  unfold getMode
  rw [readCpsr_writeSpsr]

theorem writeSpsr_apply (r : Registers) (value : BitVec 32) (i : Nat) :
    writeSpsr r value i = if spsrIndex (getMode r) = some i then value else r i := by
  unfold writeSpsr
  cases h : spsrIndex (getMode r) with
  | none => simp
  | some j =>
    simp only [Function.update_apply, Option.some.injEq, eq_comm (a := i)]

theorem spsrIndex_ne_of_lt {mode : BitVec 8} {i : Nat} (hi : i < 32) : spsrIndex mode ≠ some i := by
  intro h
  have := spsrIndex_bounds h
  omega

/-- Every register after an exception other than RESET. -/
theorem armException_reg {exception : BitVec 8} (h : exception.setWidth 32 ≠ reset) (p : Core)
    (i : Nat) :
    (armException exception p).state.reg i =
      if i = 15 then exceptionVector exception
      else if i = cpsrIndex then exceptionCpsr exception (readCpsr p.reg)
      else if i = registerIndex (getMode p.reg) 14 then
        pcBias 15 (p.reg 15) + exceptionLinkOffset exception
      else if spsrIndex (getMode p.reg) = some i then readCpsr p.reg
      else p.reg i := by
  have hpc : writeSpsr p.reg (readCpsr p.reg) 15 = p.reg 15 := by
    rw [writeSpsr_apply, if_neg (spsrIndex_ne_of_lt (by decide))]
  simp only [armException, exceptionEntry, Traced.bind_state, if_neg h, armReadCpsr, armWriteSpsr,
    armReadRegister, armWriteRegister, armWriteCpsr, armWriteUsrRegister, writeUsrRegister,
    writeCpsr, writeRegister, readRegister, getMode_writeSpsr, registerIndex_pc, hpc,
    Function.update_apply, writeSpsr_apply]
  rfl

/-- An exception changes registers and nothing else. -/
theorem armException_state (exception : BitVec 8) (p : Core) :
    (armException exception p).state = { p with reg := (armException exception p).state.reg } := by
  by_cases h : exception.setWidth 32 = reset
  · simp only [armException, resetEntry, Traced.bind_state, if_pos h]
    rfl
  · simp only [armException, exceptionEntry, Traced.bind_state, if_neg h]
    rfl

@[simp] theorem armException_mem (exception : BitVec 8) (p : Core) :
    (armException exception p).state.mem = p.mem := by
  rw [armException_state]

@[simp] theorem armException_cycleCount (exception : BitVec 8) (p : Core) :
    (armException exception p).state.cycleCount = p.cycleCount := by
  rw [armException_state]

/-! ## Banking the return state

The six exceptions that have a return state, with what the architecture gives
each: the mode it enters, its vector and the link value it leaves in R14. -/

inductive Trap where
  | undefinedInstruction | softwareInterrupt | prefetchAbort | dataAbort | interrupt | fastInterrupt
  deriving DecidableEq, Repr

namespace Trap

def code : Trap → BitVec 8
  | undefinedInstruction => 2
  | softwareInterrupt => 3
  | prefetchAbort => 4
  | dataAbort => 5
  | interrupt => 7
  | fastInterrupt => 8

def mode : Trap → BitVec 8
  | undefinedInstruction => Mode.und
  | softwareInterrupt => Mode.svc
  | prefetchAbort => Mode.abt
  | dataAbort => Mode.abt
  | interrupt => Mode.irq
  | fastInterrupt => Mode.fiq

def spsr : Trap → Nat
  | undefinedInstruction => 34
  | softwareInterrupt => 32
  | prefetchAbort => 33
  | dataAbort => 33
  | interrupt => 35
  | fastInterrupt => 36

def r14 (trap : Trap) : Nat := registerIndex trap.mode 14

def vector : Trap → BitVec 32
  | undefinedInstruction => 0x04
  | softwareInterrupt => 0x08
  | prefetchAbort => 0x0C
  | dataAbort => 0x10
  | interrupt => 0x18
  | fastInterrupt => 0x1C

/-- The link value.  The fetch leaves the program counter 4 past the faulting
instruction, and an interrupt arrives between two instructions, before the fetch
of the next one. -/
def link (trap : Trap) (p : Core) : BitVec 32 :=
  let faulting := p.reg 15 - 4
  let next := fetchAddress p.reg
  match trap with
  | undefinedInstruction => faulting + 4
  | softwareInterrupt => faulting + 4
  | prefetchAbort => faulting + 4
  | dataAbort => faulting + 8
  | interrupt => next + 4
  | fastInterrupt => next + 4

/-- The value the code writes to R14 instead: the program counter as it is read is 4
past the next fetch, and 4 or 8 is added to that. -/
def writtenLink (trap : Trap) (p : Core) : BitVec 32 :=
  let next := fetchAddress p.reg
  match trap with
  | undefinedInstruction => next + 8
  | softwareInterrupt => next + 8
  | prefetchAbort => next + 8
  | dataAbort => next + 12
  | interrupt => next + 12
  | fastInterrupt => next + 12

theorem spsrIndex_mode (trap : Trap) : spsrIndex trap.mode = some trap.spsr := by
  cases trap <;> decide

theorem code_ne_reset (trap : Trap) : trap.code.setWidth 32 ≠ reset := by
  cases trap <;> decide

theorem vector_eq (trap : Trap) : exceptionVector trap.code = trap.vector := by
  cases trap <;> decide

theorem r14_bounds (trap : Trap) : trap.r14 < 32 ∧ trap.r14 ≠ 15 ∧ trap.r14 ≠ cpsrIndex := by
  cases trap <;> decide

theorem spsr_bounds (trap : Trap) : 32 ≤ trap.spsr ∧ trap.spsr < registersSize :=
  spsrIndex_bounds trap.spsrIndex_mode

theorem bank_disjoint (trap : Trap) {m : BitVec 8} (hm : Mode.Valid m) (hne : m ≠ trap.mode) :
    registerIndex m 14 ≠ trap.r14 ∧ spsrIndex m ≠ some trap.spsr := by
  revert hne
  rcases Mode.valid_cases hm with h | h | h | h | h | h | h <;> subst h <;> cases trap <;> decide

/-- The status word of an exception: its mode, interrupts masked and the flags
clear. -/
theorem exceptionCpsr_bits (trap : Trap) (cpsr : BitVec 32) :
    modeField (exceptionCpsr trap.code cpsr) = trap.mode ∧
      getBit (exceptionCpsr trap.code cpsr) 7 = true ∧
      ∀ b, 28 ≤ b → b < 32 → getBit (exceptionCpsr trap.code cpsr) b = false := by
  have masked : ∀ mask bits : BitVec 32, mask &&& 0b11111 = 0 → bits.getLsbD 7 = true →
      (∀ b, b < 32 → 28 ≤ b → mask.getLsbD b = false ∧ bits.getLsbD b = false) →
      modeField ((cpsr &&& mask) ||| bits) = modeField bits ∧
        getBit ((cpsr &&& mask) ||| bits) 7 = true ∧
        ∀ b, 28 ≤ b → b < 32 → getBit ((cpsr &&& mask) ||| bits) b = false := by
    intro mask bits hmask h7 hhigh
    refine ⟨modeField_masked hmask _ _, ?_, fun b hb hb' => ?_⟩
    · simp [getBit, h7]
    · obtain ⟨h1, h2⟩ := hhigh b hb' hb
      simp [getBit, h1, h2]
  cases trap with
  | undefinedInstruction => exact masked 0x140 0x9b (by decide) (by decide) (by decide)
  | softwareInterrupt => exact masked 0x140 0x93 (by decide) (by decide) (by decide)
  | prefetchAbort => exact masked 0x40 0x197 (by decide) (by decide) (by decide)
  | dataAbort => exact masked 0x40 0x197 (by decide) (by decide) (by decide)
  | interrupt => exact masked 0x40 0x192 (by decide) (by decide) (by decide)
  | fastInterrupt =>
    have h : exceptionCpsr fastInterrupt.code cpsr = 0x1d1 := rfl
    have high : ∀ b, b < 32 → 28 ≤ b → getBit 0x1d1 b = false := by decide
    rw [h]
    exact ⟨by decide, by decide, fun b hb hb' => high b hb' hb⟩

theorem exceptionLink_eq (trap : Trap) (p : Core) :
    pcBias 15 (p.reg 15) + exceptionLinkOffset trap.code = trap.writtenLink p := by
  have hnext : pcBias 15 (p.reg 15) = fetchAddress p.reg + 4 := by
    unfold fetchAddress
    rw [BitVec.sub_add_cancel]
  rw [hnext, BitVec.add_assoc]
  cases trap <;> rfl

theorem writtenLink_ne (trap : Trap) (p : Core) : trap.writtenLink p ≠ trap.link p := by
  have hbias : fetchAddress p.reg = p.reg 15 ∨ fetchAddress p.reg = p.reg 15 - 2 :=
    fetchAddress_cases p.reg
  cases trap <;> simp only [writtenLink, link] <;> rcases hbias with h | h <;> rw [h] <;> bv_omega

end Trap

/-- What exception entry is for: the return state is saved in the bank of the mode
being entered and nothing else of the interrupted program is lost. -/
structure BanksReturnState (trap : Trap) (p : Core) (r : Registers) : Prop where
  spsr : r trap.spsr = readCpsr p.reg
  link : r trap.r14 = trap.link p
  mode : getMode r = trap.mode
  masked : getBit (readCpsr r) 7 = true
  flags : ∀ b, 28 ≤ b → b < 32 → getBit (readCpsr r) b = getBit (readCpsr p.reg) b
  pc : r 15 = trap.vector
  others : ∀ i, i < registersSize → i ≠ 15 → i ≠ cpsrIndex → i ≠ trap.r14 → i ≠ trap.spsr →
    r i = p.reg i

/-- The states in which the code's order of writes makes no difference: the return
state is in the entered bank already, and what is written to the interrupted bank
was there before. -/
structure ReturnStateInPlace (trap : Trap) (p : Core) : Prop where
  mode : getMode p.reg ≠ trap.mode
  spsr : p.reg trap.spsr = readCpsr p.reg
  link : p.reg trap.r14 = trap.link p
  flags : ∀ b, 28 ≤ b → b < 32 → getBit (readCpsr p.reg) b = false
  interruptedLink : p.reg (registerIndex (getMode p.reg) 14) = trap.writtenLink p
  interruptedSpsr : ∀ i, spsrIndex (getMode p.reg) = some i → p.reg i = readCpsr p.reg

section

variable {p : Core}

theorem trap_reg (trap : Trap) (p : Core) (i : Nat) :
    (armException trap.code p).state.reg i =
      if i = 15 then trap.vector
      else if i = cpsrIndex then exceptionCpsr trap.code (readCpsr p.reg)
      else if i = registerIndex (getMode p.reg) 14 then trap.writtenLink p
      else if spsrIndex (getMode p.reg) = some i then readCpsr p.reg
      else p.reg i := by
  rw [armException_reg trap.code_ne_reset, trap.exceptionLink_eq, trap.vector_eq]

theorem readCpsr_trap (trap : Trap) (p : Core) :
    readCpsr (armException trap.code p).state.reg = exceptionCpsr trap.code (readCpsr p.reg) := by
  show (armException trap.code p).state.reg cpsrIndex = _
  rw [trap_reg, if_neg (by decide), if_pos rfl]

theorem getMode_trap (trap : Trap) (p : Core) :
    getMode (armException trap.code p).state.reg = trap.mode := by
  unfold getMode
  rw [readCpsr_trap]
  exact (trap.exceptionCpsr_bits _).1

theorem trap_reg_spsr (trap : Trap) (hm : Mode.Valid (getMode p.reg))
    (hne : getMode p.reg ≠ trap.mode) :
    (armException trap.code p).state.reg trap.spsr = p.reg trap.spsr := by
  obtain ⟨hlow, -⟩ := trap.spsr_bounds
  have h14 := registerIndex_lt (getMode p.reg) 14
  have hcpsr : cpsrIndex = 16 := rfl
  rw [trap_reg, if_neg (by omega), if_neg (by omega), if_neg (by omega),
    if_neg (trap.bank_disjoint hm hne).2]

theorem trap_reg_r14 (trap : Trap) (hm : Mode.Valid (getMode p.reg))
    (hne : getMode p.reg ≠ trap.mode) :
    (armException trap.code p).state.reg trap.r14 = p.reg trap.r14 := by
  obtain ⟨hlt, hpc, hcpsr⟩ := trap.r14_bounds
  rw [trap_reg, if_neg hpc, if_neg hcpsr, if_neg (trap.bank_disjoint hm hne).1.symm,
    if_neg (spsrIndex_ne_of_lt hlt)]

theorem trap_reg_interrupted_r14 (trap : Trap) (p : Core) :
    (armException trap.code p).state.reg (registerIndex (getMode p.reg) 14) =
      trap.writtenLink p := by
  rw [trap_reg, if_neg (registerIndex_ne_pc _ (by decide)),
    if_neg (registerIndex_ne_cpsr _ _), if_pos rfl]

theorem trap_reg_interrupted_spsr (trap : Trap) {i : Nat}
    (hi : spsrIndex (getMode p.reg) = some i) :
    (armException trap.code p).state.reg i = readCpsr p.reg := by
  obtain ⟨hlow, -⟩ := spsrIndex_bounds hi
  have h14 := registerIndex_lt (getMode p.reg) 14
  have hcpsr : cpsrIndex = 16 := rfl
  rw [trap_reg, if_neg (by omega), if_neg (by omega), if_neg (by omega), if_pos hi]

/-- The interrupted program keeps its registers exactly when what is written to its
bank was there before. -/
theorem trap_others_iff (trap : Trap) (hm : Mode.Valid (getMode p.reg))
    (hne : getMode p.reg ≠ trap.mode) :
    (∀ i, i < registersSize → i ≠ 15 → i ≠ cpsrIndex → i ≠ trap.r14 → i ≠ trap.spsr →
        (armException trap.code p).state.reg i = p.reg i) ↔
      p.reg (registerIndex (getMode p.reg) 14) = trap.writtenLink p ∧
        ∀ i, spsrIndex (getMode p.reg) = some i → p.reg i = readCpsr p.reg := by
  obtain ⟨hd14, hdspsr⟩ := trap.bank_disjoint hm hne
  have h14lt := registerIndex_lt (getMode p.reg) 14
  have hr14 := trap.r14_bounds
  have hspsr := trap.spsr_bounds
  have hcpsr : cpsrIndex = 16 := rfl
  have hsize : registersSize = 37 := rfl
  constructor
  · intro h
    constructor
    · have hsame := h _ (by omega) (registerIndex_ne_pc _ (by decide))
        (registerIndex_ne_cpsr _ _) hd14 (by omega)
      rw [← hsame, trap_reg_interrupted_r14 trap p]
    · intro i hi
      obtain ⟨hlow, hlt⟩ := spsrIndex_bounds hi
      have hsame := h i hlt (by omega) (by omega) (by omega) (fun heq => hdspsr (heq ▸ hi))
      rw [← hsame, trap_reg_interrupted_spsr trap hi]
  · rintro ⟨hlink, hsaved⟩ i - h15 hi - -
    by_cases hi14 : i = registerIndex (getMode p.reg) 14
    · rw [hi14, trap_reg_interrupted_r14 trap p, hlink]
    · by_cases hisaved : spsrIndex (getMode p.reg) = some i
      · rw [trap_reg_interrupted_spsr trap hisaved, hsaved i hisaved]
      · rw [trap_reg, if_neg h15, if_neg hi, if_neg hi14, if_neg hisaved]

end

/-- The return state is banked exactly when it was in place before the exception. -/
theorem armException_banks_iff (trap : Trap) (p : Core) (hm : Mode.Valid (getMode p.reg)) :
    BanksReturnState trap p (armException trap.code p).state.reg ↔ ReturnStateInPlace trap p := by
  obtain ⟨hmode, hmasked, hflags⟩ := trap.exceptionCpsr_bits (readCpsr p.reg)
  constructor
  · intro h
    -- In the entered mode itself R14 is written, but not with the link value.
    have hne : getMode p.reg ≠ trap.mode := by
      intro heq
      have hr14 := trap_reg_interrupted_r14 trap p
      rw [heq] at hr14
      exact trap.writtenLink_ne p (hr14.symm.trans h.link)
    obtain ⟨hlink, hsaved⟩ := (trap_others_iff trap hm hne).mp h.others
    refine ⟨hne, ?_, ?_, ?_, hlink, hsaved⟩
    · exact (trap_reg_spsr trap hm hne).symm.trans h.spsr
    · exact (trap_reg_r14 trap hm hne).symm.trans h.link
    · intro b hb hb'
      rw [← h.flags b hb hb', readCpsr_trap]
      exact hflags b hb hb'
  · intro h
    refine ⟨?_, ?_, getMode_trap trap p, ?_, ?_, ?_, ?_⟩
    · exact (trap_reg_spsr trap hm h.mode).trans h.spsr
    · exact (trap_reg_r14 trap hm h.mode).trans h.link
    · rw [readCpsr_trap]
      exact hmasked
    · intro b hb hb'
      rw [readCpsr_trap, hflags b hb hb', h.flags b hb hb']
    · rw [trap_reg, if_pos rfl]
    · exact (trap_others_iff trap hm h.mode).mpr ⟨h.interruptedLink, h.interruptedSpsr⟩

/-- A core in USR mode at address 0x20, with the return state of an interrupt in
place. -/
def returnCore : Core where
  cycleCount := 0
  reg := fun i =>
    if i = 15 then 0x20 else if i = cpsrIndex then 0x10 else if i = 14 then 0x2C
    else if i = 24 then 0x24 else if i = 35 then 0x10 else 0
  mem := memoryOfWords false 64 []

theorem armException_banks_returnCore :
    BanksReturnState .interrupt returnCore
      (armException Trap.interrupt.code returnCore).state.reg :=
  (armException_banks_iff .interrupt returnCore (by decide)).mpr
    ⟨by decide, by decide, by decide, fun b hb hb' => by interval_cases b <;> decide, by decide,
      by decide⟩

/-- A core in USR mode at address 0x20 that never took an exception. -/
def freshCore : Core where
  cycleCount := 0
  reg := fun i => if i = 15 then 0x20 else if i = cpsrIndex then 0x10 else 0
  mem := memoryOfWords false 64 []

/-- Its interrupt leaves the SPSR of IRQ mode as it was. -/
theorem interrupt_freshCore_not_banked :
    Mode.Valid (getMode freshCore.reg) ∧
      ¬ BanksReturnState .interrupt freshCore
        (armException Trap.interrupt.code freshCore).state.reg :=
  ⟨by decide, fun h => absurd h.spsr (by decide)⟩

end ArmSimulator
