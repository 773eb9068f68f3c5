/-
The banked registers behind the array.

The architecture has 37 registers: the sixteen of user mode, those that an exception mode
keeps for itself, and the status registers.  The array of `registers.c` holds each of them
at its own index.  Every sequence of calls that write registers leaves in each of them the
last value written to it, and the calls that read find it there.
-/
import ArmSimulator.Base.Bytes
import ArmSimulator.Model.Registers

namespace ArmSimulator

/-! ## The architecture -/

/-- The modes with registers of their own. -/
inductive Bank where
  | svc | abt | und | irq | fiq
  deriving DecidableEq, Repr

/-- The registers of the architecture.  System mode has those of user mode. -/
inductive ArmRegister where
  /-- `r0` to `r15` of user mode. -/
  | user (reg : Fin 16)
  /-- `r8` to `r12` of FIQ mode. -/
  | fiq (i : Fin 5)
  | stackPointer (b : Bank)
  | link (b : Bank)
  | cpsr
  | spsr (b : Bank)
  deriving DecidableEq, Repr

def bankOf (mode : BitVec 8) : Option Bank :=
  if mode = Mode.svc then some .svc
  else if mode = Mode.abt then some .abt
  else if mode = Mode.und then some .und
  else if mode = Mode.irq then some .irq
  else if mode = Mode.fiq then some .fiq
  else none

/-- The register that a number names in a mode. -/
def namedRegister (mode : BitVec 8) (reg : Fin 16) : ArmRegister :=
  match bankOf mode with
  | none => .user reg
  | some b =>
    if reg = 13 then .stackPointer b
    else if reg = 14 then .link b
    else if h : b = .fiq ∧ 8 ≤ reg.val ∧ reg.val < 13 then .fiq ⟨reg - 8, by omega⟩
    else .user reg

/-- The table of `registers.h`. -/
def layout : ArmRegister → Nat
  | .user reg => reg
  | .cpsr => 16
  | .stackPointer .svc => 17
  | .link .svc => 18
  | .stackPointer .abt => 19
  | .link .abt => 20
  | .stackPointer .und => 21
  | .link .und => 22
  | .stackPointer .irq => 23
  | .link .irq => 24
  | .fiq i => 25 + i
  | .stackPointer .fiq => 30
  | .link .fiq => 31
  | .spsr .svc => 32
  | .spsr .abt => 33
  | .spsr .und => 34
  | .spsr .irq => 35
  | .spsr .fiq => 36

/-- The register at an index of the table. -/
def registerAt (i : Nat) : ArmRegister :=
  if h : i < 16 then .user ⟨i, h⟩
  else if h : 25 ≤ i ∧ i < 30 then .fiq ⟨i - 25, by omega⟩
  else [.cpsr, .stackPointer .svc, .link .svc, .stackPointer .abt, .link .abt, .stackPointer .und,
    .link .und, .stackPointer .irq, .link .irq, .cpsr, .cpsr, .cpsr, .cpsr, .cpsr,
    .stackPointer .fiq, .link .fiq, .spsr .svc, .spsr .abt, .spsr .und, .spsr .irq,
    .spsr .fiq].getD (i - 16) .cpsr

theorem registerAt_layout (a : ArmRegister) : registerAt (layout a) = a := by
  cases a with
  | user reg => revert reg; decide
  | fiq i => revert i; decide
  | stackPointer b => cases b <;> rfl
  | link b => cases b <;> rfl
  | cpsr => rfl
  | spsr b => cases b <;> rfl

theorem layout_injective : Function.Injective layout :=
  Function.LeftInverse.injective registerAt_layout

theorem layout_lt (a : ArmRegister) : layout a < registersSize := by
  cases a with
  | user reg => revert reg; decide
  | fiq i => revert i; decide
  | stackPointer b => cases b <;> decide
  | link b => cases b <;> decide
  | cpsr => decide
  | spsr b => cases b <;> decide

/-! ## Indices -/

/-- A mode is that of a bank or has no bank. -/
theorem bankOf_cases (mode : BitVec 8) :
    mode = Mode.svc ∨ mode = Mode.abt ∨ mode = Mode.und ∨ mode = Mode.irq ∨ mode = Mode.fiq ∨
      (bankOf mode = none ∧ modeOffset mode = 0 ∧ spsrIndex mode = none) := by
  by_cases hsvc : mode = Mode.svc
  · exact Or.inl hsvc
  by_cases habt : mode = Mode.abt
  · exact Or.inr (Or.inl habt)
  by_cases hund : mode = Mode.und
  · exact Or.inr (Or.inr (Or.inl hund))
  by_cases hirq : mode = Mode.irq
  · exact Or.inr (Or.inr (Or.inr (Or.inl hirq)))
  by_cases hfiq : mode = Mode.fiq
  · exact Or.inr (Or.inr (Or.inr (Or.inr (Or.inl hfiq))))
  refine Or.inr (Or.inr (Or.inr (Or.inr (Or.inr ⟨?_, ?_, ?_⟩))))
  · simp only [bankOf, hsvc, habt, hund, hirq, hfiq, if_false]
  · simp only [modeOffset, hsvc, habt, hund, hirq, hfiq, if_false, ite_self]
  · simp only [spsrIndex, hsvc, habt, hund, hirq, hfiq, if_false]

/-- `mode_offset` leads to the index of the register that a number names. -/
theorem registerIndex_eq_layout (mode : BitVec 8) (reg : Fin 16) :
    registerIndex mode reg = layout (namedRegister mode reg) := by
  rcases bankOf_cases mode with rfl | rfl | rfl | rfl | rfl | ⟨hbank, hoffset, -⟩
  · revert reg; decide
  · revert reg; decide
  · revert reg; decide
  · revert reg; decide
  · revert reg; decide
  · unfold registerIndex namedRegister
    rw [hbank, hoffset, Nat.add_zero, ite_self]
    rfl

theorem spsrIndex_eq_layout (mode : BitVec 8) :
    spsrIndex mode = (bankOf mode).map fun b => layout (.spsr b) := by
  rcases bankOf_cases mode with rfl | rfl | rfl | rfl | rfl | ⟨hbank, -, hspsr⟩
  · rfl
  · rfl
  · rfl
  · rfl
  · rfl
  · rw [hbank, hspsr]
    rfl

/-! ## Calls -/

/-- A call that writes a register. -/
inductive RegisterCall where
  | writeRegister (reg : Fin 16) (value : BitVec 32)
  | writeUsrRegister (reg : Fin 16) (value : BitVec 32)
  | writeSpsr (value : BitVec 32)
  | writeCpsr (value : BitVec 32)
  deriving DecidableEq, Repr

namespace RegisterCall

def run : RegisterCall → Registers → Registers
  | writeRegister reg value, r => ArmSimulator.writeRegister r reg value
  | writeUsrRegister reg value, r => ArmSimulator.writeUsrRegister r reg value
  | writeSpsr value, r => ArmSimulator.writeSpsr r value
  | writeCpsr value, r => ArmSimulator.writeCpsr r value

def runAll (calls : List RegisterCall) (r : Registers) : Registers :=
  calls.foldl (fun r c => c.run r) r

/-- The register that a call writes in a mode, with the value. -/
def written (mode : BitVec 8) : RegisterCall → Option (ArmRegister × BitVec 32)
  | writeRegister reg value => some (namedRegister mode reg, value)
  | writeUsrRegister reg value => some (.user reg, value)
  | writeSpsr value => (bankOf mode).map fun b => (.spsr b, value)
  | writeCpsr value => some (.cpsr, value)

def nextMode (mode : BitVec 8) : RegisterCall → BitVec 8
  | writeCpsr value => modeField value
  | _ => mode

/-- The writes of a sequence of calls that starts in a mode. -/
def log : BitVec 8 → List RegisterCall → List (ArmRegister × BitVec 32)
  | _, [] => []
  | mode, c :: rest => (c.written mode).toList ++ log (c.nextMode mode) rest

/-- A call writes the index of its register and nothing else. -/
theorem run_eq (c : RegisterCall) (r : Registers) :
    c.run r =
      Bytes.writeAll r ((c.written (getMode r)).toList.map fun e => (layout e.1, e.2)) := by
  cases c with
  | writeRegister reg value =>
    show Function.update r (registerIndex (getMode r) reg) value = _
    rw [registerIndex_eq_layout]
    rfl
  | writeUsrRegister reg value => rfl
  | writeSpsr value =>
    show ArmSimulator.writeSpsr r value = _
    unfold ArmSimulator.writeSpsr
    rw [spsrIndex_eq_layout, written]
    cases bankOf (getMode r) with
    | none => rfl
    | some b => rfl
  | writeCpsr value => rfl

theorem getMode_run (c : RegisterCall) (r : Registers) :
    getMode (c.run r) = c.nextMode (getMode r) := by
  cases c with
  | writeRegister reg value => exact getMode_writeRegister r reg value
  | writeUsrRegister reg value =>
    have hne : (reg : Nat) ≠ cpsrIndex := by
      unfold cpsrIndex
      omega
    exact congrArg modeField (readCpsr_update_of_ne r hne value)
  | writeSpsr value => exact congrArg modeField (readCpsr_writeSpsr r value)
  | writeCpsr value => exact congrArg modeField (readCpsr_writeCpsr r value)

theorem runAll_eq (calls : List RegisterCall) (r : Registers) :
    runAll calls r = Bytes.writeAll r ((log (getMode r) calls).map fun e => (layout e.1, e.2)) := by
  induction calls generalizing r with
  | nil => rfl
  | cons c rest ih =>
    have hstep : runAll (c :: rest) r = runAll rest (c.run r) := rfl
    rw [hstep, ih, getMode_run, log, List.map_append, Bytes.writeAll_append, ← run_eq]

/-- After a sequence of calls each register holds the last value written to it. -/
theorem runAll_layout (calls : List RegisterCall) (r : Registers) (a : ArmRegister) :
    runAll calls r (layout a) =
      (Bytes.lastWritten (log (getMode r) calls) a).getD (r (layout a)) := by
  rw [runAll_eq, Bytes.writeAll_layout layout_injective, Bytes.writeAll_apply]

theorem run_layout_of_ne {c : RegisterCall} {r : Registers} {a : ArmRegister}
    (h : ∀ value, c.written (getMode r) ≠ some (a, value)) : c.run r (layout a) = r (layout a) := by
  rw [run_eq, Bytes.writeAll_layout layout_injective]
  apply Bytes.writeAll_of_not_mem
  intro hmem
  obtain ⟨⟨_, value⟩, he, rfl⟩ := List.mem_map.mp hmem
  exact h value (Option.mem_toList.mp he)

end RegisterCall

/-- The array is the register file of the architecture.  What is held by a register is the
last value written to it, or its first one. -/
theorem registers_refine_bankedFile (r : Registers) (calls : List RegisterCall) :
    let now := RegisterCall.runAll calls r
    let held := fun a =>
      (Bytes.lastWritten (RegisterCall.log (getMode r) calls) a).getD (r (layout a))
    let mode := modeField (held .cpsr)
    Function.Injective layout ∧ (∀ a, layout a < registersSize) ∧
      (∀ reg, readRegister now reg = held (namedRegister mode reg)) ∧
      (∀ reg, readUsrRegister now reg = held (.user reg)) ∧
      readCpsr now = held .cpsr ∧
      (∀ b, bankOf mode = some b → readSpsr now = held (.spsr b)) ∧
      ∀ (c : RegisterCall) (a : ArmRegister), (∀ value, c.written mode ≠ some (a, value)) →
        c.run now (layout a) = now (layout a) := by
  intro now held mode
  have hheld : ∀ a, now (layout a) = held a := RegisterCall.runAll_layout calls r
  have hmode : getMode now = mode := congrArg modeField (hheld .cpsr)
  refine ⟨layout_injective, layout_lt, ?_, fun reg => hheld (.user reg), hheld .cpsr, ?_, ?_⟩
  · intro reg
    unfold readRegister
    rw [hmode, registerIndex_eq_layout, hheld]
  · intro b hb
    unfold readSpsr
    rw [hmode, spsrIndex_eq_layout, hb]
    exact hheld (.spsr b)
  · intro c a h
    rw [← hmode] at h
    exact RegisterCall.run_layout_of_ne h

/-- In FIQ mode `r8` is written apart from the one of user mode. -/
theorem registers_refine_bankedFile_fiq :
    let now := RegisterCall.runAll
      [.writeCpsr 0x11, .writeRegister 8 5, .writeSpsr 7, .writeCpsr 0x10, .writeRegister 8 6,
        .writeCpsr 0x11] fun _ => 0
    readRegister now 8 = 5 ∧ readUsrRegister now 8 = 6 ∧ readSpsr now = 7 := by
  intro now
  obtain ⟨-, -, hread, husr, -, hspsr, -⟩ := registers_refine_bankedFile (fun _ => 0)
    [.writeCpsr 0x11, .writeRegister 8 5, .writeSpsr 7, .writeCpsr 0x10, .writeRegister 8 6,
      .writeCpsr 0x11]
  exact ⟨hread 8, husr 8, hspsr .fiq (by decide)⟩

end ArmSimulator
