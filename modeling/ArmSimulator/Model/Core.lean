/-
The core of `arm_core.c`: registers, memory and the accessors through which the
instructions reach them.

`arm_core.c` reports each access to the trace module.  The events below are those
reports, with the array index an access to a register uses and the result of an
access to memory added.  They have no effect on the core.
-/
import ArmSimulator.Base.Traced
import ArmSimulator.Model.Memory
import ArmSimulator.Model.Registers

namespace ArmSimulator

structure Core where
  cycleCount : BitVec 32
  reg : Registers
  mem : Memory

/-- The `type` argument of `trace_register` and `trace_memory`. -/
inductive AccessType where
  | read | write
  deriving DecidableEq, Repr

/-- The `cause` argument of `trace_memory`. -/
inductive Cause where
  | opcodeFetch | otherAccess
  deriving DecidableEq, Repr

/-- One access to the register array, in the mode the core is in, or to memory.
`usrRegister` is an access through `arm_read_usr_register` or
`arm_write_usr_register`, and `result` is the code the memory module returned. -/
inductive Access where
  | register (type : AccessType) (mode : BitVec 8) (index : Nat)
  | usrRegister (type : AccessType) (mode : BitVec 8) (index : Nat)
  | memory (type : AccessType) (size : Nat) (cause : Cause) (address : BitVec 32)
      (result : BitVec 32)
  deriving DecidableEq, Repr

abbrev Arm := Traced Access Core

/-! ## Registers -/

/-- The program counter is read 4 further than it is stored, with bit 1 clear. -/
def pcBias (reg : Fin 16) (value : BitVec 32) : BitVec 32 :=
  if reg = 15 then (value + 4) &&& 0xFFFFFFFD else value

def armCurrentModeHasSpsr : Arm Bool := fun p =>
  { value := currentModeHasSpsr p.reg, state := p, trace := [] }

def armReadRegister (reg : Fin 16) : Arm (BitVec 32) := fun p =>
  { value := pcBias reg (readRegister p.reg reg), state := p,
    trace := [.register .read (getMode p.reg) (registerIndex (getMode p.reg) reg)] }

theorem armReadRegister_value_of_ne {reg : Fin 16} (h : reg ≠ 15) (p : Core) :
    (armReadRegister reg p).value = readRegister p.reg reg := by
  unfold armReadRegister pcBias
  exact if_neg h

def armReadUsrRegister (reg : Fin 16) : Arm (BitVec 32) := fun p =>
  { value := pcBias reg (readUsrRegister p.reg reg), state := p,
    trace := [.usrRegister .read (getMode p.reg) reg] }

def armReadCpsr : Arm (BitVec 32) := fun p =>
  { value := readCpsr p.reg, state := p,
    trace := [.register .read (getMode p.reg) cpsrIndex] }

/-- The accesses of `read_spsr` and `write_spsr`: none in a mode without SPSR. -/
def spsrAccess (type : AccessType) (r : Registers) : List Access :=
  ((spsrIndex (getMode r)).map (Access.register type (getMode r))).toList

def armReadSpsr : Arm (BitVec 32) := fun p =>
  { value := readSpsr p.reg, state := p, trace := spsrAccess .read p.reg }

def armWriteRegister (reg : Fin 16) (value : BitVec 32) : Arm Unit := fun p =>
  { value := (), state := { p with reg := writeRegister p.reg reg value },
    trace := [.register .write (getMode p.reg) (registerIndex (getMode p.reg) reg)] }

def armWriteUsrRegister (reg : Fin 16) (value : BitVec 32) : Arm Unit := fun p =>
  { value := (), state := { p with reg := writeUsrRegister p.reg reg value },
    trace := [.usrRegister .write (getMode p.reg) reg] }

def armWriteCpsr (value : BitVec 32) : Arm Unit := fun p =>
  { value := (), state := { p with reg := writeCpsr p.reg value },
    trace := [.register .write (getMode p.reg) cpsrIndex] }

def armWriteSpsr (value : BitVec 32) : Arm Unit := fun p =>
  { value := (), state := { p with reg := writeSpsr p.reg value },
    trace := spsrAccess .write p.reg }

/-! ## Memory -/

/-- A read through the memory module, reported to the trace module. -/
def armRead {α : Type} (size : Nat) (cause : Cause)
    (read : Memory → BitVec 32 → Except (BitVec 32) α) (address : BitVec 32) :
    Arm (Except (BitVec 32) α) := fun p =>
  { value := read p.mem address, state := p,
    trace := [.memory .read size cause address (resultCode (read p.mem address))] }

def armWrite {α : Type} (size : Nat) (write : Memory → BitVec 32 → α → Except (BitVec 32) Memory)
    (address : BitVec 32) (value : α) : Arm (BitVec 32) := fun p =>
  { value := resultCode (write p.mem address value),
    state := { p with mem := match write p.mem address value with
                             | .ok mem => mem
                             | .error _ => p.mem },
    trace := [.memory .write size .otherAccess address
      (resultCode (write p.mem address value))] }

def armReadByte (address : BitVec 32) : Arm (Except (BitVec 32) (BitVec 8)) :=
  armRead 1 .otherAccess memoryReadByte address

def armReadHalf (address : BitVec 32) : Arm (Except (BitVec 32) (BitVec 16)) :=
  armRead 2 .otherAccess memoryReadHalf address

def armReadWord (address : BitVec 32) : Arm (Except (BitVec 32) (BitVec 32)) :=
  armRead 4 .otherAccess memoryReadWord address

def armWriteByte (address : BitVec 32) (value : BitVec 8) : Arm (BitVec 32) :=
  armWrite 1 memoryWriteByte address value

def armWriteHalf (address : BitVec 32) (value : BitVec 16) : Arm (BitVec 32) :=
  armWrite 2 memoryWriteHalf address value

def armWriteWord (address : BitVec 32) (value : BitVec 32) : Arm (BitVec 32) :=
  armWrite 4 memoryWriteWord address value

/-- `p->cycle_count++`. -/
def countCycle : Arm Unit := fun p =>
  { value := (), state := { p with cycleCount := p.cycleCount + 1 }, trace := [] }

/-- The program counter is advanced by the fetch, whether it succeeds or not. -/
def armFetch : Arm (Except (BitVec 32) (BitVec 32)) := do
  countCycle
  let pc ← armReadRegister 15
  let address := pc - 4
  let result ← armRead 4 .opcodeFetch memoryReadWord address
  armWriteRegister 15 (address + 4)
  pure result

def fetchAddress (r : Registers) : BitVec 32 := pcBias 15 (r 15) - 4

def fetched (p : Core) : Except (BitVec 32) (BitVec 32) :=
  memoryReadWord p.mem (fetchAddress p.reg)

def afterFetch (p : Core) : Core where
  cycleCount := p.cycleCount + 1
  reg := Function.update p.reg 15 (fetchAddress p.reg + 4)
  mem := p.mem

theorem armFetch_eq (p : Core) :
    armFetch p =
      { value := fetched p, state := afterFetch p,
        trace := [.register .read (getMode p.reg) 15,
          .memory .read 4 .opcodeFetch (fetchAddress p.reg) (resultCode (fetched p)),
          .register .write (getMode p.reg) 15] } := by
  have hidx : registerIndex (getMode p.reg) 15 = 15 := registerIndex_pc _
  simp only [armFetch, countCycle, armReadRegister, armRead, armWriteRegister, bind, pure,
    readRegister, writeRegister, hidx]
  rfl

@[simp] theorem afterFetch_mem (p : Core) : (afterFetch p).mem = p.mem := rfl

@[simp] theorem readCpsr_afterFetch (p : Core) : readCpsr (afterFetch p).reg = readCpsr p.reg :=
  readCpsr_update_of_ne _ (by decide) _

@[simp] theorem getMode_afterFetch (p : Core) : getMode (afterFetch p).reg = getMode p.reg := by
  unfold getMode
  rw [readCpsr_afterFetch]

theorem afterFetch_reg_of_ne (p : Core) {i : Nat} (h : i ≠ 15) :
    (afterFetch p).reg i = p.reg i :=
  Function.update_of_ne h _ _

theorem readRegister_afterFetch (p : Core) {reg : Fin 16} (h : reg ≠ 15) :
    readRegister (afterFetch p).reg reg = readRegister p.reg reg := by
  unfold readRegister
  rw [getMode_afterFetch, afterFetch_reg_of_ne _ (registerIndex_ne_pc _ h)]

theorem fetchAddress_of_getBit {r : Registers} (h : getBit (r 15) 1 = false) :
    fetchAddress r = r 15 := by
  have h4 : (r 15 + 4).getLsbD 1 = false := (Word.getLsbD_one_add_four _).trans h
  unfold fetchAddress pcBias
  rw [if_pos rfl, Word.and_clear_bit_one h4, BitVec.add_sub_cancel]

theorem fetchAddress_of_getBit_one {r : Registers} (h : getBit (r 15) 1 = true) :
    fetchAddress r = r 15 - 2 := by
  have h4 : (r 15 + 4).getLsbD 1 = true := (Word.getLsbD_one_add_four _).trans h
  unfold fetchAddress pcBias
  rw [if_pos rfl, Word.and_clear_bit_one_of_set h4]
  bv_omega

theorem fetchAddress_cases (r : Registers) :
    fetchAddress r = r 15 ∨ fetchAddress r = r 15 - 2 := by
  cases h : getBit (r 15) 1 with
  | false => exact Or.inl (fetchAddress_of_getBit h)
  | true => exact Or.inr (fetchAddress_of_getBit_one h)

theorem getLsbD_one_fetchAddress (r : Registers) : (fetchAddress r).getLsbD 1 = false := by
  have h : ((r 15 + 4) &&& 0xFFFFFFFD).getLsbD 1 = false := by
    rw [BitVec.getLsbD_and]
    exact Bool.and_false _
  unfold fetchAddress pcBias
  rw [if_pos rfl, ← Word.getLsbD_one_add_four, BitVec.sub_add_cancel, h]

/-- In an instruction the program counter reads as the address of the instruction plus 8. -/
theorem armReadRegister_pc (p : Core) :
    (armReadRegister 15 (afterFetch p)).value = fetchAddress p.reg + 8 := by
  have hstored : (afterFetch p).reg 15 = fetchAddress p.reg + 4 := Function.update_self 15 _ p.reg
  have hbit : (fetchAddress p.reg + 4 + 4).getLsbD 1 = false := by
    rw [Word.getLsbD_one_add_four, Word.getLsbD_one_add_four, getLsbD_one_fetchAddress]
  simp only [armReadRegister, readRegister, registerIndex_pc, hstored, pcBias, if_true]
  rw [Word.and_clear_bit_one hbit, BitVec.add_assoc]
  rfl

/-- Reading the program counter clears bit 1 alone, so the address of the next fetch is
aligned when bit 0 is clear. -/
theorem fetchAddress_aligned_iff (r : Registers) :
    (fetchAddress r).toNat % 4 = 0 ↔ getBit (r 15) 0 = false := by
  have hzero := Word.getLsbD_zero_iff (r 15)
  have hone := Word.getLsbD_one_iff (r 15)
  unfold getBit
  rw [← Bool.not_eq_true, hzero]
  cases h : getBit (r 15) 1 with
  | false =>
    rw [fetchAddress_of_getBit h]
    have : ¬(r 15).toNat / 2 % 2 = 1 := fun h1 => absurd (h.symm.trans (hone.mpr h1)) (by decide)
    omega
  | true =>
    have hbit : (r 15).toNat / 2 % 2 = 1 := hone.mp h
    rw [fetchAddress_of_getBit_one h]
    bv_omega

end ArmSimulator
