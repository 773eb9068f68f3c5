/-
The mode fields of the status registers stay among the seven modes.

A foreign value in a mode field would give the following accesses to r13 and r14
another index.  The CPSR is written from constants, from an SPSR and by the flag
code, the SPSRs from the CPSR, and a register write never reaches a status
register, so validity of all six is an invariant of every sequence of calls.
-/
import ArmSimulator.Proof.Respects
import ArmSimulator.Proof.UserAccesses

namespace ArmSimulator

open Traced (Sim)

/-- The indices of the CPSR and of the five SPSRs. -/
def isPsrIndex (i : Nat) : Prop := i = cpsrIndex ∨ (32 ≤ i ∧ i < registersSize)

def ValidPsr (psr : BitVec 32) : Prop := Mode.Valid (modeField psr)

instance (psr : BitVec 32) : Decidable (ValidPsr psr) :=
  inferInstanceAs (Decidable (Mode.Valid _))

/-- The mode fields of the CPSR and of the five SPSRs are all modes. -/
def ModesValid (r : Registers) : Prop := ∀ i, isPsrIndex i → ValidPsr (r i)

theorem ModesValid.mode {r : Registers} (h : ModesValid r) : Mode.Valid (getMode r) :=
  h cpsrIndex (Or.inl rfl)

theorem ModesValid.update {r : Registers} (h : ModesValid r) {i : Nat} {value : BitVec 32}
    (hi : isPsrIndex i → ValidPsr value) : ModesValid (Function.update r i value) := by
  intro j hj
  rw [Function.update_apply]
  split
  · rename_i he
    exact hi (he ▸ hj)
  · exact h j hj

theorem not_isPsrIndex_of_lt {i : Nat} (h : i < 32) (hne : i ≠ 16) : ¬isPsrIndex i := by
  unfold isPsrIndex cpsrIndex
  omega

theorem ModesValid.writeRegister {r : Registers} (h : ModesValid r) (reg : Fin 16)
    (value : BitVec 32) : ModesValid (writeRegister r reg value) :=
  h.update fun hi => absurd hi (not_isPsrIndex_of_lt (registerIndex_lt _ _)
    (registerIndex_ne_cpsr _ _))

theorem ModesValid.writeUsrRegister {r : Registers} (h : ModesValid r) (reg : Fin 16)
    (value : BitVec 32) : ModesValid (writeUsrRegister r reg value) :=
  h.update fun hi => absurd hi (not_isPsrIndex_of_lt (by omega) (by omega))

theorem ModesValid.writeCpsr {r : Registers} (h : ModesValid r) {value : BitVec 32}
    (hv : ValidPsr value) : ModesValid (writeCpsr r value) :=
  h.update fun _ => hv

theorem ModesValid.writeSpsr {r : Registers} (h : ModesValid r) {value : BitVec 32}
    (hv : ValidPsr value) : ModesValid (writeSpsr r value) := by
  unfold ArmSimulator.writeSpsr
  split
  · exact h.update fun _ => hv
  · exact h

theorem ModesValid.readSpsr {r : Registers} (h : ModesValid r)
    (hs : currentModeHasSpsr r = true) : ValidPsr (readSpsr r) := by
  have hmode := Mode.valid_cases h.mode
  simp only [currentModeHasSpsr, ne_eq, Bool.and_eq_true, decide_eq_true_eq] at hs
  unfold ArmSimulator.readSpsr
  cases hi : spsrIndex (getMode r) with
  | some i => exact h i (Or.inr (spsrIndex_bounds hi))
  | none =>
    rcases hmode with hm | hm | hm | hm | hm | hm | hm
    · exact absurd hm hs.1
    all_goals first
      | exact absurd hm hs.2
      | rw [hm] at hi; exact absurd hi (by decide)

theorem modeField_changeBit (psr : BitVec 32) {n : Nat} (hn : 5 ≤ n) (hn' : n < 32) (b : Bool) :
    modeField (changeBit psr n b) = modeField psr := by
  refine modeField_eq_of_getBit fun i hi => ?_
  rw [getBit_changeBit psr hn', if_neg (by omega)]

theorem validPsr_exceptionCpsr {psr : BitVec 32} (h : ValidPsr psr) (exception : BitVec 8) :
    ValidPsr (exceptionCpsr exception psr) := by
  unfold exceptionCpsr ValidPsr
  simp only
  split_ifs
  · rw [modeField_masked (by decide)]; decide
  · rw [modeField_masked (by decide)]; decide
  · rw [modeField_masked (by decide)]; decide
  · rw [modeField_masked (by decide)]; decide
  · rw [modeField_masked (by decide)]; decide
  · decide
  · exact h

/-- A register access of the run: its index is inside the array and in the bank of
the current mode.  The user accessors reach the user registers instead. -/
def InBank : Access → Prop
  | .register _ mode index => index < registersSize ∧ index ∈ bank mode
  | .usrRegister _ _ index => index < 16
  | .memory .. => True

theorem inBank_spsrAccess (type : AccessType) (r : Registers) :
    ∀ e ∈ spsrAccess type r, InBank e := by
  intro e he
  unfold spsrAccess at he
  cases hi : spsrIndex (getMode r) with
  | none => simp [hi] at he
  | some i =>
    simp only [hi, Option.map_some, Option.toList_some, List.mem_singleton] at he
    subst he
    exact ⟨(spsrIndex_bounds hi).2, spsrIndex_mem_bank hi⟩

theorem inBank_register {r : Registers} (h : ModesValid r) (type : AccessType) (reg : Fin 16) :
    InBank (.register type (getMode r) (registerIndex (getMode r) reg)) := by
  have hlt := registerIndex_lt (getMode r) reg
  exact ⟨by unfold registersSize; omega, registerIndex_mem_bank h.mode reg⟩

theorem inBank_cpsr (type : AccessType) (mode : BitVec 8) :
    InBank (.register type mode cpsrIndex) :=
  ⟨by decide, cpsrIndex_mem_bank mode⟩

section

variable {A : Access → Prop}

theorem armRead_modesValid {α : Type} (size : Nat) (cause : Cause)
    (read : Memory → BitVec 32 → Except (BitVec 32) α) (address : BitVec 32) :
    Sim (fun s t => s = t ∧ ModesValid s.reg) A InBank (fun _ => True)
      (armRead size cause read address) (armRead size cause read address) :=
  Sim.invariant fun _ h => ⟨h, trivial, by simp [armRead, InBank]⟩

theorem armWrite_modesValid {α : Type} (size : Nat)
    (write : Memory → BitVec 32 → α → Except (BitVec 32) Memory) (address : BitVec 32)
    (value : α) :
    Sim (fun s t => s = t ∧ ModesValid s.reg) A InBank (fun _ => True)
      (armWrite size write address value) (armWrite size write address value) :=
  Sim.invariant fun _ h => ⟨h, trivial, by simp [armWrite, InBank]⟩

theorem modesValid_respects :
    RespectsExceptions (fun s t => s = t ∧ ModesValid s.reg) A InBank ValidPsr where
  countCycle := Sim.invariant fun _ h => ⟨h, trivial, by simp [countCycle]⟩
  readRegister reg := Sim.invariant fun _ h =>
    ⟨h, trivial, by simpa [armReadRegister] using inBank_register h .read reg⟩
  readUsrRegister reg := Sim.invariant fun _ h =>
    ⟨h, trivial, by simp [armReadUsrRegister, InBank]⟩
  readCpsr := Sim.invariant fun _ h =>
    ⟨h, h.mode, by simpa [armReadCpsr] using inBank_cpsr .read _⟩
  readSpsr := by
    refine readSpsr_respects ?_
    rintro s _ ⟨rfl, h⟩
    exact ⟨rfl, fun hs => ⟨rfl, rfl, h.readSpsr hs, inBank_spsrAccess .read s.reg⟩⟩
  writeRegister reg value := Sim.invariant fun _ h =>
    ⟨h.writeRegister reg value, trivial,
      by simpa [armWriteRegister] using inBank_register h .write reg⟩
  writeUsrRegister reg value := Sim.invariant fun _ h =>
    ⟨h.writeUsrRegister reg value, trivial, by simp [armWriteUsrRegister, InBank]⟩
  writeCpsr hv := Sim.invariant fun _ h =>
    ⟨h.writeCpsr hv, trivial, by simpa [armWriteCpsr] using inBank_cpsr .write _⟩
  changeFlag b hn hn' h := by
    unfold ValidPsr at h ⊢
    rwa [modeField_changeBit _ (by omega) hn']
  readOpcode _ := armRead_modesValid _ _ _ _
  readByte _ := armRead_modesValid _ _ _ _
  readHalf _ := armRead_modesValid _ _ _ _
  readWord _ := armRead_modesValid _ _ _ _
  writeByte _ _ := armWrite_modesValid _ _ _ _
  writeHalf _ _ := armWrite_modesValid _ _ _ _
  writeWord _ _ := armWrite_modesValid _ _ _ _
  writeSpsr hv := Sim.invariant fun s h =>
    ⟨h.writeSpsr hv, trivial, inBank_spsrAccess .write s.reg⟩
  resetCpsr := by decide
  exceptionCpsr exception h := validPsr_exceptionCpsr h exception

end

/-- Mode validity is kept by every sequence of calls, on any memory and with any
exception code.  Every register access of the sequence then uses an index of the
array that belongs to the bank of the mode the core is in, or to the user
registers where it is made through a user accessor.  Such an access is that of a
user transfer or of the vector of an exception, in the call that makes it. -/
theorem runCalls_modesValid (host : Host) (calls : List Call) {p : Core}
    (h : ModesValid p.reg) :
    ModesValid (runCalls host calls p).state.reg ∧
      (∀ e ∈ (runCalls host calls p).trace, InBank e) ∧
      ∀ type mode index, .usrRegister type mode index ∈ (runCalls host calls p).trace →
        ∃ before call after, calls = before ++ call :: after ∧
          none ∉ (runCalls host before p).value ∧
          .usrRegister type mode index ∈ (call.run host (runCalls host before p).state).trace ∧
          UserAccess host (runCalls host before p).state call type index := by
  obtain ⟨-, -, ⟨-, hmodes⟩, -, hbank⟩ :=
    runCalls_respects (A := fun _ => True) modesValid_respects host calls p p ⟨rfl, h⟩
      (fun _ _ => trivial)
  exact ⟨hmodes, hbank, fun _ _ _ => runCalls_user host calls p⟩

/-- A core in SVC mode about to execute `LDR r13, [r0], #0` in the form that loads
the user register. -/
def userLoadCore : Core where
  cycleCount := 0
  reg i := if i = cpsrIndex ∨ 32 ≤ i then 0xd3 else 0
  mem := memoryOfWords true 0x20 [0xE4B0D000]

theorem userLoadCore_modesValid : ModesValid userLoadCore.reg := by
  intro i hi
  have hpsr : i = cpsrIndex ∨ 32 ≤ i := by
    unfold isPsrIndex at hi
    omega
  show ValidPsr (if _ then _ else _)
  rw [if_pos hpsr]
  decide

theorem runCalls_modesValid_userLoad :
    let host := Host.modular false
    let calls := [Call.step ⟨0, 0⟩, .exception 7]
    ModesValid userLoadCore.reg ∧
      ModesValid (runCalls host calls userLoadCore).state.reg ∧
      (∀ e ∈ (runCalls host calls userLoadCore).trace, InBank e) ∧
      ∀ type mode index, .usrRegister type mode index ∈ (runCalls host calls userLoadCore).trace →
        ∃ before call after, calls = before ++ call :: after ∧
          none ∉ (runCalls host before userLoadCore).value ∧
          .usrRegister type mode index ∈
            (call.run host (runCalls host before userLoadCore).state).trace ∧
          UserAccess host (runCalls host before userLoadCore).state call type index :=
  ⟨userLoadCore_modesValid, runCalls_modesValid _ _ userLoadCore_modesValid⟩

/-- Not every register access stays in the bank of the current mode: the user
load writes index 13 in SVC mode, whose stack pointer is at index 17. -/
theorem userLoad_leaves_bank :
    ModesValid userLoadCore.reg ∧
      ∃ e ∈ (runCalls (Host.modular false) [.step ⟨0, 0⟩] userLoadCore).trace,
        ∃ index, e = .usrRegister .write (getMode userLoadCore.reg) index ∧
          index ∉ bank (getMode userLoadCore.reg) := by
  refine ⟨userLoadCore_modesValid, .usrRegister .write Mode.svc 13, ?_, 13, rfl, ?_⟩
  · decide +kernel
  · decide

end ArmSimulator
