/-
What becomes of the codes the handlers return.

A handler reports an exception by the code it returns, and `arm_step` enters the
exception of the code it gets.  The switch of `arm_execute_instruction` stands between
them and drops every code but that of its default branch, and `arm_data_processing`
drops the code of `arm_miscellaneous`.  The exceptions that still happen are those of
the fetch and of the default branch.
-/
import ArmSimulator.Proof.DataProcessing
import ArmSimulator.Proof.Exceptions
import ArmSimulator.Proof.Transfers

namespace ArmSimulator

/-! ## A step, from its handler -/

def keepCode (m : Arm (BitVec 32)) : Arm (Option (BitVec 32)) := do
  let code ← m
  pure (some code)

/-- `arm_miscellaneous` where `arm_data_processing` calls it, with its operands read. -/
def calledMiscellaneous (host : Host) (ins : BitVec 32) : Arm (BitVec 32) := do
  let _ ← armReadRegister (regField ins 16)
  let _ ← dataProcessingOperand host ins
  armMiscellaneous ins

/-- `arm_data_processing` with the code of the function that executes the instruction, which
is `arm_miscellaneous` for the four comparisons without S. -/
def dataProcessingHandler (host : Host) (ins : BitVec 32) : Arm (BitVec 32) := fun s =>
  { armDataProcessing host ins s with
    value := if isCompareOpcode ins = true ∧ getBit ins 20 = false then
        (calledMiscellaneous host ins s).value
      else (armDataProcessing host ins s).value }

/-- The specialised handler of an instruction. -/
def handler (host : Host) (locals : Locals) (ins : BitVec 32) : Arm (Option (BitVec 32)) :=
  match insType ins with
  | .dataProcessingShift =>
    if getBit ins 4 ∧ getBit ins 7 then keepCode (armLoadStore host locals ins)
    else keepCode (dataProcessingHandler host ins)
  | .dataProcessingImmediate => keepCode (dataProcessingHandler host ins)
  | .loadStoreImmediate => keepCode (armLoadStore host locals ins)
  | .loadStoreRegister => keepCode (armLoadStore host locals ins)
  | .loadStoreMultiple => keepCode (armLoadStoreMultiple locals ins)
  | .branch => keepCode (armBranch ins)
  | .coprocessorOthersSwi => armCoprocessorOthersSwi ins
  | .loadStoreCoproc => pure (some undefinedInstruction)

/-- The switch keeps the effect of the handler and replaces its code by 0. -/
theorem dispatch_handler (host : Host) (locals : Locals) (ins : BitVec 32) (s : Core) :
    (dispatch host locals ins s).state = (handler host locals ins s).state ∧
      (dispatch host locals ins s).value =
        if insType ins = .loadStoreCoproc then (handler host locals ins s).value
        else (handler host locals ins s).value.map fun _ => 0 := by
  unfold dispatch handler
  cases insType ins with
  | dataProcessingShift =>
    by_cases h : getBit ins 4 ∧ getBit ins 7
    · simp only [if_pos h]
      exact ⟨rfl, rfl⟩
    · simp only [if_neg h]
      exact ⟨rfl, rfl⟩
  | coprocessorOthersSwi =>
    simp only [Traced.bind_state, Traced.bind_value]
    cases h : (armCoprocessorOthersSwi ins s).value with
    | none => exact ⟨rfl, rfl⟩
    | some code => exact ⟨rfl, rfl⟩
  | _ => exact ⟨rfl, rfl⟩

/-! ## Results that are kept -/

/-- The words that `arm_data_processing` executes. -/
def IsDataProcessing (ins : BitVec 32) : Prop :=
  insType ins = .dataProcessingImmediate ∨
    (insType ins = .dataProcessingShift ∧ ¬(getBit ins 4 = true ∧ getBit ins 7 = true))

/-- MRS of the SPSR, as the handlers decode it: CMP without S, whatever its operand is. -/
structure IsMrsSpsr (ins : BitVec 32) : Prop where
  handled : IsDataProcessing ins
  opcode : insOpcode ins = .cmp
  status : getBit ins 20 = false

/-- A step that returns the code of its handler and enters its exception. -/
structure ResultKept (host : Host) (locals : Locals) (p : Core) (ins : BitVec 32) : Prop where
  code : (armStep host locals p).value = (handler host locals ins (afterFetch p)).value
  entered : (armStep host locals p).state =
    (enterException (handler host locals ins (afterFetch p)).value
      (handler host locals ins (afterFetch p)).state).state
  swi : getBits ins 27 24 = 0b1111 → ins &&& 0xFFFFFF ≠ 0x123456 →
    (armStep host locals p).value = some softwareInterrupt ∧
      (armStep host locals p).state.reg 15 = 0x08 ∧
      getMode (armStep host locals p).state.reg = Mode.svc
  undefined : getBits ins 27 25 = 0b111 → getBit ins 24 = false →
    (armStep host locals p).value = some undefinedInstruction
  mrs : IsMrsSpsr ins → getMode p.reg = Mode.usr ∨ getMode p.reg = Mode.sys →
    (armStep host locals p).value = some undefinedInstruction

/-- The instruction has no code to lose: it is no software interrupt but the one that
ends the simulation, no undefined instruction, no CMP without S in a mode without SPSR,
no single store to an address that is not acceptable, and no block transfer whose last
store goes to such an address or whose list is empty while the local holds a code. -/
structure NothingToLose (host : Host) (locals : Locals) (p : Core) (ins : BitVec 32) : Prop where
  swi : getBits ins 27 25 = 0b111 → getBit ins 24 = true ∧ ins &&& 0xFFFFFF = 0x123456
  mrs : IsMrsSpsr ins → getMode p.reg ≠ Mode.usr ∧ getMode p.reg ≠ Mode.sys
  single : IsLoadStore ins → getBit ins 20 = false →
    Accepted p.mem false (transferWidth ins) (transferAddress host ins (afterFetch p))
  empty : insType ins = .loadStoreMultiple → blockList ins = [] → locals.res = 0
  last : insType ins = .loadStoreMultiple → getBit ins 20 = false →
    ∀ a ∈ (blockAddresses ins (blockTransferBase ins (afterFetch p))).getLast?,
      Accepted p.mem false 4 a

theorem insType_swi {ins : BitVec 32} : insType ins = .coprocessorOthersSwi ↔
    getBits ins 27 25 = 0b111 := by
  have h : ∀ f : BitVec 3, InstructionType.ofField f = .coprocessorOthersSwi ↔ f = 0b111 := by
    decide
  exact h _

theorem insOpcode_cmp_iff (ins : BitVec 32) : insOpcode ins = .cmp ↔
    isCompareOpcode ins = true ∧ getBit ins 22 = true ∧ getBit ins 21 = false := by
  have hfield : ∀ f : BitVec 4, Opcode.ofField f = .cmp ↔
      f.extractLsb' 2 2 = 0b10 ∧ f.getLsbD 1 = true ∧ f.getLsbD 0 = false := by
    decide
  have hbits : getBits ins 24 23 = (getBits ins 24 21).extractLsb' 2 2 :=
    getBits_of_getBits rfl (by decide) (by decide) (by decide)
  have h22 : getBit ins 22 = (getBits ins 24 21).getLsbD 1 :=
    getBit_of_getBits rfl (by decide) (by decide)
  have h21 : getBit ins 21 = (getBits ins 24 21).getLsbD 0 :=
    getBit_of_getBits rfl (by decide) (by decide)
  rw [isCompareOpcode, decide_eq_true_eq, hbits, h22, h21]
  exact hfield _

theorem armMiscellaneous_value (ins : BitVec 32) (s : Core) :
    (armMiscellaneous ins s).value =
      if getBit ins 22 = true ∧ getBit ins 21 = false ∧ currentModeHasSpsr s.reg = false then
        undefinedInstruction
      else 0 := by
  unfold armMiscellaneous
  cases getBit ins 21 with
  | true => simp
  | false =>
    cases getBit ins 22 with
    | false => simp
    | true =>
      have hvalue : (armCurrentModeHasSpsr s).value = currentModeHasSpsr s.reg := rfl
      have hstate : (armCurrentModeHasSpsr s).state = s := rfl
      simp only [Bool.false_eq_true, if_false, if_true, Traced.bind_value, hvalue, hstate,
        true_and]
      cases currentModeHasSpsr s.reg <;> rfl

/-- Of the codes of data processing only that of a missing SPSR is not 0. -/
theorem dataProcessingHandler_value_eq_zero (host : Host) (ins : BitVec 32) (s : Core) :
    (dataProcessingHandler host ins s).value = 0 ↔
      (insOpcode ins = .cmp → getBit ins 20 = false → currentModeHasSpsr s.reg = true) := by
  have hcalled : (calledMiscellaneous host ins s).value = (armMiscellaneous ins s).value := by
    simp only [calledMiscellaneous, Traced.bind_value]
    show (armMiscellaneous ins (dataProcessingOperand host ins s).state).value = _
    rw [dataProcessingOperand_state]
  have hzero : (armDataProcessing host ins s).value = 0 := rfl
  have hcode : (undefinedInstruction = 0) = False := eq_false (by decide)
  simp only [dataProcessingHandler, hcalled, hzero, armMiscellaneous_value, insOpcode_cmp_iff]
  cases isCompareOpcode ins <;> cases getBit ins 20 <;> cases getBit ins 22 <;>
    cases getBit ins 21 <;> cases currentModeHasSpsr s.reg <;>
    simp only [hcode, Bool.false_eq_true, Bool.true_eq_false, and_true, and_false, if_true,
      if_false, forall_const, IsEmpty.forall_iff]

theorem dispatch_value_eq_handler (host : Host) (locals : Locals) (ins : BitVec 32) (s : Core) :
    (dispatch host locals ins s).value = (handler host locals ins s).value ↔
      (insType ins ≠ .loadStoreCoproc →
        ∀ code, (handler host locals ins s).value = some code → code = 0) := by
  rw [(dispatch_handler host locals ins s).2]
  by_cases hcoproc : insType ins = .loadStoreCoproc
  · simp [hcoproc]
  · rw [if_neg hcoproc]
    cases (handler host locals ins s).value with
    | none => simp
    | some code =>
      simp only [Option.map_some, Option.some.injEq, ne_eq, hcoproc, not_false_eq_true,
        forall_const, forall_eq']
      exact eq_comm

theorem armCoprocessorOthersSwi_silent_iff (ins : BitVec 32) (s : Core) :
    (∀ code, (armCoprocessorOthersSwi ins s).value = some code → code = 0) ↔
      getBit ins 24 = true ∧ ins &&& 0xFFFFFF = 0x123456 := by
  unfold armCoprocessorOthersSwi
  by_cases h24 : getBit ins 24 = true
  · rw [if_pos h24]
    by_cases hexit : ins &&& 0xFFFFFF = 0x123456
    · rw [if_pos hexit]
      exact iff_of_true (fun code h => by cases h) ⟨h24, hexit⟩
    · rw [if_neg hexit]
      exact iff_of_false (fun h => absurd (h _ rfl) (by decide)) fun h => hexit h.2
  · rw [if_neg h24]
    exact iff_of_false (fun h => absurd (h _ rfl) (by decide)) fun h => h24 h.1

theorem handler_silent_iff (host : Host) (locals : Locals) (ins : BitVec 32) (s : Core) :
    (insType ins ≠ .loadStoreCoproc →
        ∀ code, (handler host locals ins s).value = some code → code = 0) ↔
      (getBits ins 27 25 = 0b111 → getBit ins 24 = true ∧ ins &&& 0xFFFFFF = 0x123456) ∧
      (IsDataProcessing ins → insOpcode ins = .cmp → getBit ins 20 = false →
        currentModeHasSpsr s.reg = true) ∧
      (IsLoadStore ins → getBit ins 20 = false →
        Accepted s.mem false (transferWidth ins) (transferAddress host ins s)) ∧
      (insType ins = .loadStoreMultiple →
        (blockList ins = [] → locals.res = 0) ∧
          (getBit ins 20 = false → ∀ a ∈ (blockAddresses ins (blockTransferBase ins s)).getLast?,
            Accepted s.mem false 4 a)) := by
  have hkeep : ∀ m : Arm (BitVec 32),
      (∀ code, (keepCode m s).value = some code → code = 0) ↔ (m s).value = 0 := by
    intro m
    simp [keepCode]
  have hload := armLoadStore_value_eq_zero host locals ins s
  have hdata := dataProcessingHandler_value_eq_zero host ins s
  have hbranch : (armBranch ins s).value = 0 := rfl
  rw [← insType_swi]
  unfold handler IsLoadStore IsDataProcessing
  cases htype : insType ins with
  | dataProcessingShift =>
    by_cases h : getBit ins 4 = true ∧ getBit ins 7 = true
    · simp only [if_true, hkeep, hload, h, reduceCtorEq, ne_eq, not_false_eq_true, forall_const,
        and_self, or_true, or_self, not_true_eq_false, and_false, IsEmpty.forall_iff, true_and,
        and_true]
    · simp only [if_false, hkeep, h, hdata, reduceCtorEq, ne_eq, not_false_eq_true, forall_const,
        and_false, and_true, true_and, or_true, or_self, IsEmpty.forall_iff]
  | dataProcessingImmediate =>
    simp only [hkeep, hdata, reduceCtorEq, ne_eq, not_false_eq_true, forall_const, false_and,
      true_or, or_self, IsEmpty.forall_iff, true_and, and_true]
  | loadStoreImmediate | loadStoreRegister =>
    simp only [hkeep, hload, reduceCtorEq, ne_eq, not_false_eq_true, forall_const, true_or,
      or_true, false_and, or_self, IsEmpty.forall_iff, true_and, and_true]
  | loadStoreMultiple =>
    simp only [hkeep, armLoadStoreMultiple_value_eq_zero, reduceCtorEq, ne_eq, not_false_eq_true,
      forall_const, false_and, or_self, IsEmpty.forall_iff, true_and]
  | branch =>
    simp only [hkeep, hbranch, reduceCtorEq, ne_eq, not_false_eq_true, forall_const, false_and,
      or_self, IsEmpty.forall_iff, and_self]
  | coprocessorOthersSwi =>
    simp only [reduceCtorEq, ne_eq, not_false_eq_true, forall_const, false_and, or_self,
      IsEmpty.forall_iff, and_true]
    exact armCoprocessorOthersSwi_silent_iff ins s
  | loadStoreCoproc =>
    simp only [reduceCtorEq, ne_eq, not_true_eq_false, false_and, or_self, IsEmpty.forall_iff,
      and_self]

/-- A step keeps the code of its handler exactly when there is none to lose. -/
theorem resultKept_iff (host : Host) (locals : Locals) (p : Core) (ins : BitVec 32)
    (hf : fetched p = .ok ins) (hc : executes (readCpsr p.reg) ins = true) :
    ResultKept host locals p ins ↔ NothingToLose host locals p ins := by
  obtain ⟨hvalue, hstate⟩ := armStep_of_dispatch host locals hf hc
  have hsilent := (dispatch_value_eq_handler host locals ins (afterFetch p)).trans
    (handler_silent_iff host locals ins (afterFetch p))
  have hspsr : currentModeHasSpsr (afterFetch p).reg = true ↔
      getMode p.reg ≠ Mode.usr ∧ getMode p.reg ≠ Mode.sys := by
    simp only [currentModeHasSpsr, getMode_afterFetch, ne_eq, Bool.and_eq_true, decide_eq_true_eq]
  rw [afterFetch_mem, hspsr] at hsilent
  constructor
  · intro h
    obtain ⟨hswi, hmrs, hsingle, hblock⟩ := hsilent.mp (hvalue.symm.trans h.code)
    exact ⟨hswi, fun hins => hmrs hins.handled hins.opcode hins.status, hsingle,
      fun ht => (hblock ht).1, fun ht => (hblock ht).2⟩
  · intro h
    have hsame := hsilent.mpr ⟨h.swi, fun hins hop hs => h.mrs ⟨hins, hop, hs⟩, h.single,
      fun ht => ⟨h.empty ht, h.last ht⟩⟩
    refine ⟨hvalue.trans hsame, ?_, ?_, ?_, ?_⟩
    · rw [hstate, hsame, (dispatch_handler host locals ins (afterFetch p)).1]
    · intro hbits hword
      have h111 : getBits ins 27 25 = 0b111 :=
        getBits_of_getBits hbits (by decide) (by decide) (by decide)
      exact absurd (h.swi h111).2 hword
    · intro hbits h24
      exact absurd ((h.swi hbits).1.symm.trans h24) (by decide)
    · intro hmrs hmode
      obtain ⟨husr, hsys⟩ := h.mrs hmrs
      exact (hmode.elim husr hsys).elim

/-- A core in USR mode about to execute `ins`, with `r1` as given. -/
def instructionCore (ins r1 : BitVec 32) : Core where
  cycleCount := 0
  reg := fun i => if i = 1 then r1 else if i = cpsrIndex then 0x10 else 0
  mem := memoryOfWords false 64 [ins]

theorem resultKept_store :
    ResultKept (.modular false) ⟨0, 0⟩ (instructionCore 0xE5810000 0x20) 0xE5810000 :=
  (resultKept_iff (.modular false) ⟨0, 0⟩ (instructionCore 0xE5810000 0x20) 0xE5810000
    (by decide +kernel) (by decide)).mpr
    ⟨fun h => absurd h (by decide), fun h => absurd h.opcode (by decide),
      fun _ _ => by decide +kernel, fun h => absurd h (by decide), fun h => absurd h (by decide)⟩

/-- `SWI 0` returns 0 and enters nothing. -/
theorem swi_result_lost :
    fetched (instructionCore 0xEF000000 0) = .ok 0xEF000000 ∧
      executes (readCpsr (instructionCore 0xEF000000 0).reg) 0xEF000000 = true ∧
      (armStep (.modular false) ⟨0, 0⟩ (instructionCore 0xEF000000 0)).value = some 0 ∧
      ¬ResultKept (.modular false) ⟨0, 0⟩ (instructionCore 0xEF000000 0) 0xEF000000 :=
  ⟨by decide +kernel, by decide, by decide +kernel,
    fun h => absurd (h.swi (by decide) (by decide)).1 (by decide +kernel)⟩

/-! ## Aborts -/

/-- LDR, STR, LDRB and STRB. -/
def IsWordOrByteTransfer (ins : BitVec 32) : Prop :=
  getBits ins 27 25 = 0b010 ∨ (getBits ins 27 25 = 0b011 ∧ getBit ins 4 = false)

/-- LDRH and STRH. -/
def IsHalfTransfer (ins : BitVec 32) : Prop :=
  getBits ins 27 25 = 0b000 ∧ getBits ins 7 4 = 0b1011

/-- The loads and stores of the instruction set the simulator knows. -/
def IsTransfer (ins : BitVec 32) : Prop :=
  IsWordOrByteTransfer ins ∨ IsHalfTransfer ins ∨ getBits ins 27 25 = 0b100

def Access.WritesRegister : Access → Prop
  | .register .write _ _ => True
  | .usrRegister .write _ _ => True
  | _ => False

/-- A register is written right after a rejected read. -/
def LoadsRejected (trace : List Access) : Prop :=
  ∃ before size address result load after,
    trace = before ++ .memory .read size .otherAccess address result :: load :: after ∧
      result ≠ 0 ∧ load.WritesRegister

/-- Every rejected access of a step is reported as the abort it is. -/
structure AbortsReported (host : Host) (locals : Locals) (p : Core) : Prop where
  prefetch : ∀ code, fetched p = .error code →
    (armStep host locals p).value = some prefetchAbort ∧
      (armStep host locals p).state.reg 15 = 0x0C
  data : ∀ ins, fetched p = .ok ins → executes (readCpsr p.reg) ins = true → IsTransfer ins →
    SomeRejected (armStep host locals p).trace →
      (armStep host locals p).value = some dataAbort ∧
        (armStep host locals p).state.reg 15 = 0x10 ∧
        ¬LoadsRejected (armStep host locals p).trace

/-- Every address a step uses is acceptable. -/
structure AddressesAccepted (host : Host) (p : Core) : Prop where
  prefetch : (fetchAddress p.reg).toNat < p.mem.size
  data : ∀ ins, fetched p = .ok ins → executes (readCpsr p.reg) ins = true → IsTransfer ins →
    ∀ a ∈ transferAddresses host ins (afterFetch p),
      Accepted p.mem (getBit ins 20) (accessWidth ins) a

theorem IsTransfer.accessesMemory {ins : BitVec 32} (h : IsTransfer ins) : AccessesMemory ins := by
  rcases h with (h | ⟨h, -⟩) | ⟨h, hfield⟩ | h
  · exact Or.inl (Or.inl (insType_of_getBits h))
  · exact Or.inl (Or.inr (Or.inl (insType_of_getBits h)))
  · refine Or.inl (Or.inr (Or.inr ⟨insType_of_getBits h, ?_, ?_⟩))
    · exact getBit_of_getBits hfield (by decide) (by decide)
    · exact getBit_of_getBits hfield (by decide) (by decide)
  · exact Or.inr (insType_of_getBits h)

theorem armStep_rejected (host : Host) (locals : Locals) {p : Core} {ins : BitVec 32}
    (hf : fetched p = .ok ins) (hc : executes (readCpsr p.reg) ins = true)
    (hins : AccessesMemory ins) :
    SomeRejected (armStep host locals p).trace ↔
      ∃ a ∈ transferAddresses host ins (afterFetch p),
        ¬Accepted p.mem (getBit ins 20) (accessWidth ins) a := by
  rw [← someRejected_memoryAccesses, armStep_accesses, executed_of_fetched hf hc]
  simp only [dataAccesses, if_pos hins, someRejected_cons, someRejected_dataAccesses]
  exact or_iff_right id

/-- Rejected accesses are reported exactly when there are none. -/
theorem abortsReported_iff (host : Host) (locals : Locals) (p : Core) :
    AbortsReported host locals p ↔ AddressesAccepted host p := by
  constructor
  · intro h
    refine ⟨?_, ?_⟩
    · by_contra hsize
      have hf : fetched p = .error dataAbort :=
        memoryReadWord_eq_error.mpr ⟨rfl, Nat.not_lt.mp hsize⟩
      have hcode := (h.prefetch dataAbort hf).1
      rw [(armStep_of_rejected host locals hf).1] at hcode
      exact absurd hcode (by decide)
    · intro ins hf hc hins a ha
      have hzero := dispatch_accessesMemory_value host locals hins.accessesMemory (afterFetch p)
      by_contra hrejected
      have hsome := (armStep_rejected host locals hf hc hins.accessesMemory).mpr ⟨a, ha, hrejected⟩
      have hcode := (h.data ins hf hc hins hsome).1
      rw [(armStep_of_dispatch host locals hf hc).1, hzero] at hcode
      exact absurd hcode (by decide)
  · intro h
    refine ⟨?_, ?_⟩
    · intro code hf
      exact absurd h.prefetch (Nat.not_lt.mpr (memoryReadWord_eq_error.mp hf).2)
    · intro ins hf hc hins hsome
      obtain ⟨a, ha, hrejected⟩ := (armStep_rejected host locals hf hc hins.accessesMemory).mp hsome
      exact absurd (h.data ins hf hc hins a ha) hrejected

/-- `LDR r0, [r1]` past the end of the memory returns 0. -/
theorem rejected_load_not_reported :
    SomeRejected (armStep (.modular false) ⟨0, 0⟩ (instructionCore 0xE5910000 0x40)).trace ∧
      (armStep (.modular false) ⟨0, 0⟩ (instructionCore 0xE5910000 0x40)).value = some 0 ∧
      ¬AbortsReported (.modular false) ⟨0, 0⟩ (instructionCore 0xE5910000 0x40) := by
  have hrejected :
      SomeRejected (armStep (.modular false) ⟨0, 0⟩ (instructionCore 0xE5910000 0x40)).trace := by
    decide +kernel
  refine ⟨hrejected, by decide +kernel, fun h => ?_⟩
  have htransfer : IsTransfer 0xE5910000 := Or.inl (Or.inl (by decide))
  exact absurd (h.data 0xE5910000 (by decide +kernel) (by decide) htransfer hrejected).1
    (by decide +kernel)

/-! ## Instructions without an implementation

The dispatcher looks at bits 27 to 25 and, for the first class, at bits 4 and 7.  The
classes below share these bits with an implemented one. -/

/-- Multiply and swap, the signed and doubleword transfers, the media space of the
register transfers, and everything unconditional. -/
def Unimplemented (ins : BitVec 32) : Prop :=
  (getBits ins 27 25 = 0b000 ∧ getBits ins 7 4 = 0b1001) ∨
    (getBits ins 27 25 = 0b000 ∧ getBit ins 7 = true ∧ getBit ins 4 = true ∧
      getBit ins 6 = true) ∨
    (getBits ins 27 25 = 0b011 ∧ getBit ins 4 = true) ∨
    getBits ins 31 28 = 0b1111

instance (ins : BitVec 32) : Decidable (Unimplemented ins) :=
  inferInstanceAs (Decidable (_ ∨ _ ∨ _ ∨ _))

theorem insType_coproc {ins : BitVec 32} : insType ins = .loadStoreCoproc ↔
    getBits ins 27 25 = 0b110 := by
  have h : ∀ f : BitVec 3, InstructionType.ofField f = .loadStoreCoproc ↔ f = 0b110 := by
    decide
  exact h _

/-- An instruction that is not implemented is reported as undefined only by the default
branch of the dispatcher, which among these classes the unconditional coprocessor
transfers alone reach. -/
theorem unimplemented_undefined_iff (host : Host) (locals : Locals) (p : Core) (ins : BitVec 32)
    (hf : fetched p = .ok ins) (hc : executes (readCpsr p.reg) ins = true)
    (hclass : Unimplemented ins) :
    ((armStep host locals p).value = some undefinedInstruction ∧
        (armStep host locals p).state.mem = p.mem) ↔
      getBits ins 31 28 = 0b1111 ∧ getBits ins 27 25 = 0b110 := by
  obtain ⟨hvalue, hstate⟩ := armStep_of_dispatch host locals hf hc
  constructor
  · rintro ⟨hundefined, -⟩
    have htype : getBits ins 27 25 = 0b110 := by
      rw [← insType_coproc]
      by_contra htype
      rw [hvalue] at hundefined
      rcases dispatch_value_cases host locals ins (afterFetch p) htype with h | h
      · exact absurd (h.symm.trans hundefined) (by decide)
      · exact absurd (h.symm.trans hundefined) (by decide)
    refine ⟨?_, htype⟩
    rcases hclass with h | h | h | h
    · exact absurd (h.1.symm.trans htype) (by decide)
    · exact absurd (h.1.symm.trans htype) (by decide)
    · exact absurd (h.1.symm.trans htype) (by decide)
    · exact h
  · rintro ⟨-, htype⟩
    have hdispatch := dispatch_loadStoreCoproc host locals (insType_coproc.mpr htype) (afterFetch p)
    rw [hvalue, hstate, hdispatch, enterException_of_ne (by decide), armException_mem]
    exact ⟨rfl, rfl⟩

theorem unimplemented_undefined_coproc :
    (armStep (.modular false) ⟨0, 0⟩ (instructionCore 0xFC000000 0)).value =
        some undefinedInstruction ∧
      (armStep (.modular false) ⟨0, 0⟩ (instructionCore 0xFC000000 0)).state.mem =
        (instructionCore 0xFC000000 0).mem :=
  (unimplemented_undefined_iff (.modular false) ⟨0, 0⟩ (instructionCore 0xFC000000 0) 0xFC000000
    (by decide +kernel) (by decide) (by decide)).mpr ⟨by decide, by decide⟩

/-- `MLA r1, r2, r3, r1` returns 0 and stores a halfword at the address in `r1`. -/
theorem mla_stores_half :
    fetched (instructionCore 0xE0211392 0x20) = .ok 0xE0211392 ∧
      executes (readCpsr (instructionCore 0xE0211392 0x20).reg) 0xE0211392 = true ∧
      Unimplemented 0xE0211392 ∧
      (armStep (.modular false) ⟨0, 0⟩ (instructionCore 0xE0211392 0x20)).value = some 0 ∧
      (armStep (.modular false) ⟨0, 0⟩ (instructionCore 0xE0211392 0x20)).state.mem.m 0x20 ≠
        (instructionCore 0xE0211392 0x20).mem.m 0x20 ∧
      ¬((armStep (.modular false) ⟨0, 0⟩ (instructionCore 0xE0211392 0x20)).value =
          some undefinedInstruction ∧
        (armStep (.modular false) ⟨0, 0⟩ (instructionCore 0xE0211392 0x20)).state.mem =
          (instructionCore 0xE0211392 0x20).mem) := by
  have hvalue : (armStep (.modular false) ⟨0, 0⟩ (instructionCore 0xE0211392 0x20)).value =
      some 0 := by
    decide +kernel
  refine ⟨by decide +kernel, by decide, by decide, hvalue, by decide +kernel, ?_⟩
  rintro ⟨hundefined, -⟩
  exact absurd (hvalue.symm.trans hundefined) (by decide)

end ArmSimulator
