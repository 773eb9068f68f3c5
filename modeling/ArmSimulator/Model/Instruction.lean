/-
Branches and software interrupts, `arm_branch_other.c`, and the execution of one
instruction, `arm_instruction.c`.

A function that can end the simulation returns `none` when it calls `exit`.
-/
import ArmSimulator.Model.Exception
import ArmSimulator.Model.LoadStore

namespace ArmSimulator

/-! ## Branches and software interrupts -/

def signExtending (x : BitVec 32) : BitVec 32 := if getBit x 23 then x ||| 0x3F000000 else x

def armBranchLink : Arm Unit := do
  let pc ← armReadRegister 15
  armWriteRegister 14 (pc - 4)

def armBranch (ins : BitVec 32) : Arm (BitVec 32) := do
  (if getBit ins 24 then armBranchLink else pure ())
  let pc ← armReadRegister 15
  armWriteRegister 15 (pc + signExtending (ins &&& 0xFFFFFF) <<< 2)
  pure 0

/-- `swi 0x123456` ends the simulation. -/
def armCoprocessorOthersSwi (ins : BitVec 32) : Arm (Option (BitVec 32)) :=
  if getBit ins 24 then
    if ins &&& 0xFFFFFF = 0x123456 then pure none else pure (some softwareInterrupt)
  else pure (some undefinedInstruction)

/-! ## One instruction -/

def insCondition (ins : BitVec 32) : Condition := .ofField (getBits ins 31 28)

def insType (ins : BitVec 32) : InstructionType := .ofField (getBits ins 27 25)

/-- The switch on the condition field: whether the instruction goes on to the
switch on its type. -/
def conditionPassed (condition : Condition) (n z c v : Bool) : Bool :=
  match condition with
  | .eq => z
  | .ne => !z
  | .cs => c
  | .cc => !c
  | .mi => n
  | .pl => !n
  | .vs => v
  | .vc => !v
  | .hi => c && !z
  | .ls => !c || z
  | .ge => n == v
  | .lt => n != v
  | .gt => !z && n == v
  | .le => z || n != v
  | .al => true
  | .other => true

def executes (cpsr ins : BitVec 32) : Bool :=
  conditionPassed (insCondition ins) (getBit cpsr Flag.n) (getBit cpsr Flag.z)
    (getBit cpsr Flag.c) (getBit cpsr Flag.v)

/-- The switch on the type.  Every handler's code is dropped: after the switch
the function returns 0. -/
def dispatch (host : Host) (locals : Locals) (ins : BitVec 32) : Arm (Option (BitVec 32)) :=
  match insType ins with
  | .dataProcessingShift =>
    if getBit ins 4 ∧ getBit ins 7 then do
      let _ ← armLoadStore host locals ins
      pure (some 0)
    else do
      let _ ← armDataProcessing host ins
      pure (some 0)
  | .dataProcessingImmediate => do
    let _ ← armDataProcessing host ins
    pure (some 0)
  | .loadStoreImmediate => do
    let _ ← armLoadStore host locals ins
    pure (some 0)
  | .loadStoreRegister => do
    let _ ← armLoadStore host locals ins
    pure (some 0)
  | .loadStoreMultiple => do
    let _ ← armLoadStoreMultiple locals ins
    pure (some 0)
  | .branch => do
    let _ ← armBranch ins
    pure (some 0)
  | .coprocessorOthersSwi => do
    match ← armCoprocessorOthersSwi ins with
    | none => pure none
    | some _ => pure (some 0)
  | .loadStoreCoproc => pure (some undefinedInstruction)

/-- The flags are read before the fetch. -/
def armExecuteInstruction (host : Host) (locals : Locals) : Arm (Option (BitVec 32)) := do
  let cpsr ← armReadCpsr
  match ← armFetch with
  | .error result => pure (some result)
  | .ok ins => if executes cpsr ins then dispatch host locals ins else pure (some 0)

def armStep (host : Host) (locals : Locals) : Arm (Option (BitVec 32)) := do
  match ← armExecuteInstruction host locals with
  | none => pure none
  | some result => do
    (if result ≠ 0 then armException (result.setWidth 8) else pure ())
    pure (some result)

/-! ## The execution of a fetched instruction -/

theorem insType_of_getBits {ins : BitVec 32} {f : BitVec 3} (h : getBits ins 27 25 = f) :
    insType ins = .ofField f := by
  unfold insType
  rw [h]

theorem armExecuteInstruction_of_fetched (host : Host) (locals : Locals) {p : Core}
    {ins : BitVec 32} (hf : fetched p = .ok ins) (hc : executes (readCpsr p.reg) ins = true) :
    (armExecuteInstruction host locals p).value = (dispatch host locals ins (afterFetch p)).value ∧
      (armExecuteInstruction host locals p).state =
        (dispatch host locals ins (afterFetch p)).state := by
  have hv : (armReadCpsr p).value = readCpsr p.reg := rfl
  have hs : (armReadCpsr p).state = p := rfl
  simp only [armExecuteInstruction, Traced.bind_value, Traced.bind_state, hv, hs, armFetch_eq, hf,
    hc, if_true, and_self]

theorem armExecuteInstruction_of_rejected (host : Host) (locals : Locals) {p : Core}
    {code : BitVec 32} (hf : fetched p = .error code) :
    (armExecuteInstruction host locals p).value = some code ∧
      (armExecuteInstruction host locals p).state = afterFetch p := by
  have hs : (armReadCpsr p).state = p := rfl
  simp only [armExecuteInstruction, Traced.bind_value, Traced.bind_state, hs, armFetch_eq, hf,
    Traced.pure_apply, and_self]

theorem armStep_value (host : Host) (locals : Locals) (p : Core) :
    (armStep host locals p).value = (armExecuteInstruction host locals p).value := by
  simp only [armStep, Traced.bind_value]
  cases (armExecuteInstruction host locals p).value <;> rfl

theorem armStep_state_of_zero {host : Host} {locals : Locals} {p : Core}
    (h : (armExecuteInstruction host locals p).value = some 0) :
    (armStep host locals p).state = (armExecuteInstruction host locals p).state := by
  simp only [armStep, Traced.bind_state, h]
  rfl

theorem armStep_of_fetched (host : Host) (locals : Locals) {p : Core} {ins : BitVec 32}
    (hf : fetched p = .ok ins) (hc : executes (readCpsr p.reg) ins = true)
    (hzero : (dispatch host locals ins (afterFetch p)).value = some 0) :
    (armStep host locals p).value = some 0 ∧
      (armStep host locals p).state = (dispatch host locals ins (afterFetch p)).state := by
  obtain ⟨hvalue, hstate⟩ := armExecuteInstruction_of_fetched host locals hf hc
  have hz : (armExecuteInstruction host locals p).value = some 0 := hvalue.trans hzero
  exact ⟨(armStep_value host locals p).trans hz, (armStep_state_of_zero hz).trans hstate⟩

/-- The switch returns 0 or ends the simulation, its default branch apart. -/
theorem dispatch_value_cases (host : Host) (locals : Locals) (ins : BitVec 32) (s : Core) :
    insType ins ≠ .loadStoreCoproc →
      (dispatch host locals ins s).value = some 0 ∨ (dispatch host locals ins s).value = none := by
  intro htype
  unfold dispatch
  cases hins : insType ins with
  | loadStoreCoproc => exact absurd hins htype
  | coprocessorOthersSwi =>
    simp only [Traced.bind_value]
    cases (armCoprocessorOthersSwi ins s).value with
    | none => exact Or.inr rfl
    | some code => exact Or.inl rfl
  | dataProcessingShift =>
    left
    simp only
    split <;> rfl
  | _ => exact Or.inl rfl

theorem dispatch_loadStoreCoproc (host : Host) (locals : Locals) {ins : BitVec 32}
    (h : insType ins = .loadStoreCoproc) (s : Core) :
    dispatch host locals ins s =
      { value := some undefinedInstruction, state := s, trace := [] } := by
  unfold dispatch
  rw [h]
  rfl

/-- The end of `arm_step`: the exception of the result is entered. -/
def enterException : Option (BitVec 32) → Arm (Option (BitVec 32))
  | none => pure none
  | some result => do
    (if result ≠ 0 then armException (result.setWidth 8) else pure ())
    pure (some result)

@[simp] theorem enterException_none (s : Core) : (enterException none s).state = s := rfl

@[simp] theorem enterException_zero (s : Core) : (enterException (some 0) s).state = s := rfl

theorem enterException_of_ne {code : BitVec 32} (h : code ≠ 0) (s : Core) :
    (enterException (some code) s).state = (armException (code.setWidth 8) s).state := by
  simp only [enterException, Traced.bind_state, ne_eq, h, not_false_eq_true, if_true,
    Traced.pure_apply]

theorem armStep_eq (host : Host) (locals : Locals) :
    armStep host locals = armExecuteInstruction host locals >>= enterException := rfl

section

variable (host : Host) (locals : Locals) {p : Core} {ins : BitVec 32}

theorem armStep_of_dispatch (hf : fetched p = .ok ins)
    (hc : executes (readCpsr p.reg) ins = true) :
    (armStep host locals p).value = (dispatch host locals ins (afterFetch p)).value ∧
      (armStep host locals p).state =
        (enterException (dispatch host locals ins (afterFetch p)).value
          (dispatch host locals ins (afterFetch p)).state).state := by
  obtain ⟨hvalue, hstate⟩ := armExecuteInstruction_of_fetched host locals hf hc
  rw [armStep_value, hvalue, armStep_eq, Traced.bind_state, hvalue, hstate]
  exact ⟨rfl, rfl⟩

theorem armStep_of_skipped (hf : fetched p = .ok ins)
    (hc : executes (readCpsr p.reg) ins = false) :
    (armStep host locals p).value = some 0 ∧ (armStep host locals p).state = afterFetch p := by
  have hv : (armReadCpsr p).value = readCpsr p.reg := rfl
  have hs : (armReadCpsr p).state = p := rfl
  have hexec : (armExecuteInstruction host locals p).value = some 0 ∧
      (armExecuteInstruction host locals p).state = afterFetch p := by
    simp only [armExecuteInstruction, Traced.bind_value, Traced.bind_state, hv, hs, armFetch_eq,
      hf, hc, Bool.false_eq_true, if_false, Traced.pure_apply, and_self]
  exact ⟨(armStep_value host locals p).trans hexec.1,
    (armStep_state_of_zero hexec.1).trans hexec.2⟩

theorem armStep_of_rejected {code : BitVec 32} (hf : fetched p = .error code) :
    (armStep host locals p).value = some dataAbort ∧
      (armStep host locals p).state = (armException 5 (afterFetch p)).state := by
  obtain ⟨hvalue, hstate⟩ := armExecuteInstruction_of_rejected host locals hf
  rw [(memoryReadWord_eq_error.mp hf).1] at hvalue
  refine ⟨(armStep_value host locals p).trans hvalue, ?_⟩
  rw [armStep_eq, Traced.bind_state, hvalue, hstate]
  rfl

end

/-! ## Runs

The gdb thread steps the core and the interrupt thread delivers the bytes it
receives.  Both hold the lock of the simulator for the whole of a call, so a run
is a sequence of calls. -/

inductive Call where
  /-- `arm_step`, with what the handlers find in their uninitialised locals. -/
  | step (locals : Locals)
  /-- `arm_exception` with a byte. -/
  | exception (code : BitVec 8)

def Call.run (host : Host) : Call → Arm (Option (BitVec 32))
  | .step locals => armStep host locals
  | .exception code => do
    armException code
    pure (some 0)

def runCalls (host : Host) : List Call → Arm (List (Option (BitVec 32))) :=
  Traced.runAll (Call.run host)

end ArmSimulator
