/-
The register array of `registers.c`.

The file is one array of 37 words.  The layout table of `registers.h` gives every
banked register its own index, and `mode_offset` is what maps a register number
to that index.  The array is a function on indices, so that an index the program
computes is a number that can be compared with 37 and not one that is below 37 by
its type.
-/
import Mathlib.Logic.Function.Basic
import Mathlib.Tactic.IntervalCases
import ArmSimulator.Model.Constants

namespace ArmSimulator

abbrev Registers := Nat → BitVec 32

/-- `malloc (sizeof (uint32_t[37]))`: the number of words of the array. -/
def registersSize : Nat := 37

def cpsrIndex : Nat := 16

def readCpsr (r : Registers) : BitVec 32 := r cpsrIndex

def modeField (psr : BitVec 32) : BitVec 8 := (psr &&& 0b11111).setWidth 8

def getMode (r : Registers) : BitVec 8 := modeField (readCpsr r)

def currentModeHasSpsr (r : Registers) : Bool :=
  getMode r ≠ Mode.usr && getMode r ≠ Mode.sys

def modeOffset (mode : BitVec 8) : Nat :=
  if mode = Mode.usr then 0
  else if mode = Mode.sys then 0
  else if mode = Mode.svc then 4
  else if mode = Mode.abt then 6
  else if mode = Mode.und then 8
  else if mode = Mode.irq then 10
  else if mode = Mode.fiq then 17
  else 0

/-- The index that `read_register` and `write_register` use. -/
def registerIndex (mode : BitVec 8) (reg : Fin 16) : Nat :=
  if reg = 13 ∨ reg = 14 ∨ (8 ≤ reg ∧ reg ≤ 12 ∧ mode = Mode.fiq) then
    reg + modeOffset mode
  else
    reg

/-- The index that `read_spsr` and `write_spsr` use, in the modes that have one. -/
def spsrIndex (mode : BitVec 8) : Option Nat :=
  if mode = Mode.svc then some 32
  else if mode = Mode.abt then some 33
  else if mode = Mode.und then some 34
  else if mode = Mode.irq then some 35
  else if mode = Mode.fiq then some 36
  else none

def readRegister (r : Registers) (reg : Fin 16) : BitVec 32 := r (registerIndex (getMode r) reg)

def readUsrRegister (r : Registers) (reg : Fin 16) : BitVec 32 := r reg

def readSpsr (r : Registers) : BitVec 32 :=
  match spsrIndex (getMode r) with
  | some i => r i
  | none => 0

def writeRegister (r : Registers) (reg : Fin 16) (value : BitVec 32) : Registers :=
  Function.update r (registerIndex (getMode r) reg) value

def writeUsrRegister (r : Registers) (reg : Fin 16) (value : BitVec 32) : Registers :=
  Function.update r reg value

def writeCpsr (r : Registers) (value : BitVec 32) : Registers :=
  Function.update r cpsrIndex value

def writeSpsr (r : Registers) (value : BitVec 32) : Registers :=
  match spsrIndex (getMode r) with
  | some i => Function.update r i value
  | none => r

/-! ## The layout table

`bank mode` is what the table of `registers.h` shows a mode: its sixteen
registers, the CPSR, and the SPSR where the mode has one. -/

def bank (mode : BitVec 8) : List Nat :=
  if mode = Mode.fiq then [0, 1, 2, 3, 4, 5, 6, 7, 25, 26, 27, 28, 29, 30, 31, 15, 16, 36]
  else [0, 1, 2, 3, 4, 5, 6, 7, 8, 9, 10, 11, 12] ++
    (if mode = Mode.svc then [17, 18, 15, 16, 32]
     else if mode = Mode.abt then [19, 20, 15, 16, 33]
     else if mode = Mode.und then [21, 22, 15, 16, 34]
     else if mode = Mode.irq then [23, 24, 15, 16, 35]
     else [13, 14, 15, 16])

/-! ## Indices -/

/-- In every mode, valid or not, a register number reaches one of the registers
and never a status register. -/
theorem registerIndex_general (mode : BitVec 8) (reg : Fin 16) :
    registerIndex mode reg < 32 ∧ registerIndex mode reg ≠ 16 ∧
      (reg ≠ 15 → registerIndex mode reg ≠ 15) := by
  have hoff : modeOffset mode ∈ [0, 4, 6, 8, 10, 17] := by
    unfold modeOffset
    split_ifs <;> decide
  by_cases hfiq : mode = Mode.fiq
  · subst hfiq
    revert reg
    decide
  · unfold registerIndex
    generalize modeOffset mode = offset at hoff
    simp only [hfiq, and_false, or_false]
    revert reg
    simp only [List.mem_cons, List.not_mem_nil, or_false] at hoff
    rcases hoff with h | h | h | h | h | h <;> subst h <;> decide

theorem registerIndex_lt (mode : BitVec 8) (reg : Fin 16) : registerIndex mode reg < 32 :=
  (registerIndex_general mode reg).1

theorem registerIndex_ne_cpsr (mode : BitVec 8) (reg : Fin 16) :
    registerIndex mode reg ≠ cpsrIndex :=
  (registerIndex_general mode reg).2.1

theorem registerIndex_ne_pc (mode : BitVec 8) {reg : Fin 16} (h : reg ≠ 15) :
    registerIndex mode reg ≠ 15 :=
  (registerIndex_general mode reg).2.2 h

@[simp] theorem registerIndex_pc (mode : BitVec 8) : registerIndex mode 15 = 15 := by
  simp [registerIndex]

@[simp] theorem registerIndex_usr (reg : Fin 16) : registerIndex Mode.usr reg = reg := by
  revert reg
  decide

theorem spsrIndex_bounds {mode : BitVec 8} {i : Nat} (h : spsrIndex mode = some i) :
    32 ≤ i ∧ i < registersSize := by
  unfold spsrIndex at h
  unfold registersSize
  split_ifs at h <;> simp_all <;> omega

theorem registerIndex_mem_bank {mode : BitVec 8} (hmode : Mode.Valid mode) (reg : Fin 16) :
    registerIndex mode reg ∈ bank mode := by
  rcases Mode.valid_cases hmode with h | h | h | h | h | h | h <;> subst h <;> revert reg <;> decide

theorem cpsrIndex_mem_bank (mode : BitVec 8) : cpsrIndex ∈ bank mode := by
  unfold bank cpsrIndex
  split_ifs <;> decide

theorem spsrIndex_mem_bank {mode : BitVec 8} {i : Nat} (h : spsrIndex mode = some i) :
    i ∈ bank mode := by
  unfold spsrIndex at h
  split_ifs at h with hm hm hm hm hm <;> cases h <;> subst hm <;> decide

theorem registerIndex_injective {mode : BitVec 8} (hmode : Mode.Valid mode) :
    Function.Injective (registerIndex mode) := by
  intro a b
  rcases Mode.valid_cases hmode with h | h | h | h | h | h | h <;> subst h <;> revert a b <;> decide

/-- A mode the header does not name has the registers of user mode. -/
theorem registerIndex_of_not_valid {mode : BitVec 8} (h : ¬Mode.Valid mode) (reg : Fin 16) :
    registerIndex mode reg = reg := by
  simp only [Mode.Valid, Mode.all, List.mem_cons, List.not_mem_nil, or_false, not_or] at h
  obtain ⟨husr, hfiq, hirq, hsvc, habt, hund, hsys⟩ := h
  have hoffset : modeOffset mode = 0 := by
    simp only [modeOffset, husr, hsys, hsvc, habt, hund, hirq, hfiq, if_false]
  unfold registerIndex
  rw [hoffset, Nat.add_zero, ite_self]

theorem registerIndex_injective_any (mode : BitVec 8) : Function.Injective (registerIndex mode) := by
  by_cases h : Mode.Valid mode
  · exact registerIndex_injective h
  · intro a b hab
    rw [registerIndex_of_not_valid h, registerIndex_of_not_valid h] at hab
    exact Fin.ext hab

/-! ## What a write leaves of the mode -/

@[simp] theorem readCpsr_update_of_ne (r : Registers) {i : Nat} (h : i ≠ cpsrIndex)
    (value : BitVec 32) : readCpsr (Function.update r i value) = readCpsr r := by
  unfold readCpsr
  exact Function.update_of_ne h.symm value r

@[simp] theorem readCpsr_writeCpsr (r : Registers) (value : BitVec 32) :
    readCpsr (writeCpsr r value) = value := by
  unfold readCpsr writeCpsr
  exact Function.update_self cpsrIndex value r

@[simp] theorem readCpsr_writeRegister (r : Registers) (reg : Fin 16) (value : BitVec 32) :
    readCpsr (writeRegister r reg value) = readCpsr r :=
  readCpsr_update_of_ne r (registerIndex_ne_cpsr _ _) value

@[simp] theorem getMode_writeRegister (r : Registers) (reg : Fin 16) (value : BitVec 32) :
    getMode (writeRegister r reg value) = getMode r := by
  unfold getMode
  rw [readCpsr_writeRegister]

theorem readRegister_writeRegister_self (r : Registers) (reg : Fin 16) (value : BitVec 32) :
    readRegister (writeRegister r reg value) reg = value := by
  unfold readRegister
  rw [getMode_writeRegister]
  exact Function.update_self _ _ _

theorem readCpsr_writeSpsr (r : Registers) (value : BitVec 32) :
    readCpsr (writeSpsr r value) = readCpsr r := by
  unfold writeSpsr
  cases h : spsrIndex (getMode r) with
  | none => rfl
  | some i =>
    have hi := spsrIndex_bounds h
    have hne : i ≠ cpsrIndex := by
      unfold cpsrIndex
      omega
    exact readCpsr_update_of_ne r hne value

theorem modeField_eq_of_getBit {x y : BitVec 32} (h : ∀ i, i < 5 → getBit x i = getBit y i) :
    modeField x = modeField y := by
  apply BitVec.eq_of_getLsbD_eq
  intro i hi
  have hmask : ∀ z : BitVec 32, (modeField z).getLsbD i = (decide (i < 5) && getBit z i) := by
    intro z
    unfold modeField getBit
    interval_cases i <;> simp
  rw [hmask, hmask]
  by_cases h5 : i < 5
  · rw [h i h5]
  · simp [h5]

/-- Bits kept from another status word do not reach the mode field when their
mask avoids it. -/
theorem modeField_masked {mask : BitVec 32} (h : mask &&& 0b11111 = 0) (psr bits : BitVec 32) :
    modeField ((psr &&& mask) ||| bits) = modeField bits := by
  unfold modeField
  rw [BitVec.and_or_distrib_right, BitVec.and_assoc, h]
  simp

end ArmSimulator
