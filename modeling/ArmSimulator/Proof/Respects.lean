/-
Every handler reaches the core through its accessors only.

`Respects R A G Psr` says what the accessors of `arm_core.c` do to two cores
related by `R`: they return the same values and keep the relation.  `Psr` is what
is known of the status words that reach the CPSR.
`armExecuteInstruction_respects` then carries the relation through the decoder
and all handlers.  A two-run property of the simulator is one instance of
`Respects`, and so is an invariant, with the diagonal for `R`.
-/
import ArmSimulator.Model.Instruction

namespace ArmSimulator

open Traced (Sim)

structure Respects (R : Core → Core → Prop) (A G : Access → Prop) (Psr : BitVec 32 → Prop) :
    Prop where
  countCycle : Sim R A G (fun _ => True) countCycle countCycle
  readRegister (reg : Fin 16) :
    Sim R A G (fun _ => True) (armReadRegister reg) (armReadRegister reg)
  readUsrRegister (reg : Fin 16) :
    Sim R A G (fun _ => True) (armReadUsrRegister reg) (armReadUsrRegister reg)
  readCpsr : Sim R A G Psr armReadCpsr armReadCpsr
  /-- The SPSR is read only after a test that the mode has one. -/
  readSpsr {α : Type} {f : BitVec 32 → Arm α} {g : Arm α}
    (hf : ∀ v, Psr v → Sim R A G (fun _ => True) (f v) (f v)) (hg : Sim R A G (fun _ => True) g g) :
    Sim R A G (fun _ => True)
      (armCurrentModeHasSpsr >>= fun b => if b then armReadSpsr >>= f else g)
      (armCurrentModeHasSpsr >>= fun b => if b then armReadSpsr >>= f else g)
  writeRegister (reg : Fin 16) (value : BitVec 32) :
    Sim R A G (fun _ => True) (armWriteRegister reg value) (armWriteRegister reg value)
  writeUsrRegister (reg : Fin 16) (value : BitVec 32) :
    Sim R A G (fun _ => True) (armWriteUsrRegister reg value) (armWriteUsrRegister reg value)
  writeCpsr {value : BitVec 32} (h : Psr value) :
    Sim R A G (fun _ => True) (armWriteCpsr value) (armWriteCpsr value)
  changeFlag {value : BitVec 32} {n : Nat} (b : Bool) (hn : 28 ≤ n) (hn' : n < 32)
    (h : Psr value) : Psr (changeBit value n b)
  readOpcode (address : BitVec 32) :
    Sim R A G (fun _ => True) (armRead 4 .opcodeFetch memoryReadWord address)
      (armRead 4 .opcodeFetch memoryReadWord address)
  readByte (address : BitVec 32) :
    Sim R A G (fun _ => True) (armReadByte address) (armReadByte address)
  readHalf (address : BitVec 32) :
    Sim R A G (fun _ => True) (armReadHalf address) (armReadHalf address)
  readWord (address : BitVec 32) :
    Sim R A G (fun _ => True) (armReadWord address) (armReadWord address)
  writeByte (address : BitVec 32) (value : BitVec 8) :
    Sim R A G (fun _ => True) (armWriteByte address value) (armWriteByte address value)
  writeHalf (address : BitVec 32) (value : BitVec 16) :
    Sim R A G (fun _ => True) (armWriteHalf address value) (armWriteHalf address value)
  writeWord (address value : BitVec 32) :
    Sim R A G (fun _ => True) (armWriteWord address value) (armWriteWord address value)

/-- What exception entry needs beyond that. -/
structure RespectsExceptions (R : Core → Core → Prop) (A G : Access → Prop)
    (Psr : BitVec 32 → Prop) : Prop extends Respects R A G Psr where
  writeSpsr {value : BitVec 32} (h : Psr value) :
    Sim R A G (fun _ => True) (armWriteSpsr value) (armWriteSpsr value)
  resetCpsr : Psr 0xd3
  exceptionCpsr {value : BitVec 32} (exception : BitVec 8) (h : Psr value) :
    Psr (exceptionCpsr exception value)

/-- What two related cores must share for the SPSR to be read. -/
theorem readSpsr_respects {R : Core → Core → Prop} {A G : Access → Prop} {Psr : BitVec 32 → Prop}
    (h : ∀ s t, R s t → currentModeHasSpsr t.reg = currentModeHasSpsr s.reg ∧
      (currentModeHasSpsr s.reg = true →
        (armReadSpsr t).value = (armReadSpsr s).value ∧
        (armReadSpsr t).trace = (armReadSpsr s).trace ∧
        Psr (armReadSpsr s).value ∧ ∀ e ∈ (armReadSpsr s).trace, G e))
    {α : Type} {f : BitVec 32 → Arm α} {g : Arm α}
    (hf : ∀ v, Psr v → Sim R A G (fun _ => True) (f v) (f v)) (hg : Sim R A G (fun _ => True) g g) :
    Sim R A G (fun _ => True)
      (armCurrentModeHasSpsr >>= fun b => if b then armReadSpsr >>= f else g)
      (armCurrentModeHasSpsr >>= fun b => if b then armReadSpsr >>= f else g) := by
  intro s t hR
  obtain ⟨hhas, hspsr⟩ := h s t hR
  have run : ∀ p, ((armCurrentModeHasSpsr >>= fun b => if b then armReadSpsr >>= f else g) : Arm α) p =
      (if currentModeHasSpsr p.reg then armReadSpsr >>= f else g) p := fun p => rfl
  rw [run s, run t, hhas]
  by_cases hs : currentModeHasSpsr s.reg = true
  · obtain ⟨hv, htr, hpsr, hG⟩ := hspsr hs
    rw [if_pos hs]
    intro hA
    simp only [Traced.bind_trace, List.mem_append] at hA
    obtain ⟨hv', htr', hR', -, hG'⟩ :=
      hf _ hpsr s t hR (fun e he => hA e (Or.inr he))
    simp only [Traced.bind_value, Traced.bind_state, Traced.bind_trace, hv, htr]
    refine ⟨hv', congrArg _ htr', hR', trivial, fun e he => ?_⟩
    rcases List.mem_append.mp he with he | he
    · exact hG e he
    · exact hG' e he
  · rw [if_neg hs]
    exact hg s t hR

section Handlers

variable {R : Core → Core → Prop} {A G : Access → Prop} {Psr : BitVec 32 → Prop}
variable (H : Respects R A G Psr)
include H

/-! ## Data processing -/

theorem armReadCarry_respects : Sim R A G (fun _ => True) armReadCarry armReadCarry :=
  Sim.bind H.readCpsr fun _ _ => Sim.pure trivial

theorem shifterAmount_respects (ins : BitVec 32) :
    Sim R A G (fun _ => True) (shifterAmount ins) (shifterAmount ins) := by
  refine Sim.bind (Sim.ite (fun _ => H.readRegister _) fun _ => Sim.pure trivial) fun _ _ => ?_
  exact Sim.pure trivial

theorem shifterOperand_respects (host : Host) (ins : BitVec 32) :
    Sim R A G (fun _ => True) (shifterOperand host ins) (shifterOperand host ins) := by
  refine Sim.bind (H.readRegister _) fun rm _ => ?_
  refine Sim.bind (shifterAmount_respects H ins) fun shift _ => ?_
  refine Sim.bind (Sim.ite (fun _ => armReadCarry_respects H) fun _ => Sim.pure trivial)
    fun carryIn _ => ?_
  cases ShiftKind.ofField (getBits ins 6 5) with
  | lsl => exact Sim.pure trivial
  | lsr => exact Sim.pure trivial
  | asr => exact Sim.pure trivial
  | ror =>
    refine Sim.ite (fun _ => ?_) fun _ => Sim.pure trivial
    exact Sim.bind (armReadCarry_respects H) fun _ _ => Sim.pure trivial

theorem armMiscellaneous_respects (ins : BitVec 32) :
    Sim R A G (fun _ => True) (armMiscellaneous ins) (armMiscellaneous ins) := by
  refine Sim.ite (fun _ => Sim.pure trivial) fun _ => Sim.ite (fun _ => ?_) fun _ => ?_
  · refine H.readSpsr (fun spsr _ => ?_) (Sim.pure trivial)
    exact Sim.bind (H.writeRegister _ _) fun _ _ => Sim.pure trivial
  · refine Sim.bind H.readCpsr fun _ _ => ?_
    exact Sim.bind (H.writeRegister _ _) fun _ _ => Sim.pure trivial

theorem dataProcessingOperand_respects (host : Host) (ins : BitVec 32) :
    Sim R A G (fun _ => True) (dataProcessingOperand host ins)
      (dataProcessingOperand host ins) := by
  refine Sim.ite (fun _ => ?_) fun _ => shifterOperand_respects H host ins
  exact Sim.bind (armReadCarry_respects H) fun _ _ => Sim.pure trivial

theorem compareMiscellaneous_respects (ins : BitVec 32) :
    Sim R A G (fun _ => True) (compareMiscellaneous ins) (compareMiscellaneous ins) := by
  refine Sim.ite (fun _ => Sim.pure trivial) fun _ => ?_
  exact Sim.bind (armMiscellaneous_respects H ins) fun _ _ => Sim.pure trivial

theorem dataProcessingResult_respects (ins rn shifter : BitVec 32) :
    Sim R A G (fun _ => True) (dataProcessingResult ins rn shifter)
      (dataProcessingResult ins rn shifter) := by
  unfold dataProcessingResult
  cases insOpcode ins with
  | adc | sbc | rsc => exact Sim.bind (armReadCarry_respects H) fun _ _ => Sim.pure trivial
  | tst | teq | cmp | cmn =>
    exact Sim.bind (compareMiscellaneous_respects H ins) fun _ _ => Sim.pure trivial
  | _ => exact Sim.pure trivial

theorem flagOperand_respects (opcode : Opcode) (shifter : BitVec 32) :
    Sim R A G (fun _ => True) (flagOperand opcode shifter) (flagOperand opcode shifter) := by
  have carry : ∀ f : Bool → BitVec 32, Sim R A G (fun _ => True)
      (armReadCarry >>= fun c => pure (f c)) (armReadCarry >>= fun c => pure (f c)) :=
    fun _ => Sim.bind (armReadCarry_respects H) fun _ _ => Sim.pure trivial
  refine Sim.bind (Sim.ite (fun _ => carry _) fun _ => Sim.pure trivial) fun _ _ => ?_
  exact Sim.ite (fun _ => carry _) fun _ => Sim.pure trivial

theorem flagWord_respects (opcode : Opcode) (a b : Bool) (res : BitVec 32) (carryOut : Bool)
    {cpsr : BitVec 32} (h : Psr cpsr) : Psr (flagWord opcode a b res carryOut cpsr) := by
  have hn := H.changeFlag (n := Flag.n) (getBit res 31) (by decide) (by decide) h
  have hz := H.changeFlag (n := Flag.z) (decide (res = 0)) (by decide) (by decide) hn
  have hc := H.changeFlag (n := Flag.c) carryOut (by decide) (by decide) hz
  unfold flagWord
  simp only
  split
  · exact H.changeFlag (n := Flag.v) _ (by decide) (by decide)
      (H.changeFlag (n := Flag.c) _ (by decide) (by decide) hc)
  · exact hc

theorem dataProcessingStatus_respects (ins rn shifter res : BitVec 32) (carryOut : Bool) :
    Sim R A G (fun _ => True) (dataProcessingStatus ins rn shifter res carryOut)
      (dataProcessingStatus ins rn shifter res carryOut) := by
  have flags : Sim R A G (fun _ => True) (updateFlags (insOpcode ins) rn shifter res carryOut)
      (updateFlags (insOpcode ins) rn shifter res carryOut) := by
    refine Sim.bind (flagOperand_respects H _ _) fun _ _ => ?_
    exact Sim.bind H.readCpsr fun _ h => H.writeCpsr (flagWord_respects H _ _ _ _ _ h)
  refine Sim.ite (fun _ => ?_) fun _ => Sim.pure trivial
  by_cases hrd : regField ins 12 = 15
  · rw [if_pos hrd]
    exact H.readSpsr (fun _ h => H.writeCpsr h) flags
  · -- The test is not made, and the flags are updated.
    rw [if_neg hrd]
    exact flags

theorem armDataProcessing_respects (host : Host) (ins : BitVec 32) :
    Sim R A G (fun _ => True) (armDataProcessing host ins) (armDataProcessing host ins) := by
  refine Sim.bind (H.readRegister _) fun rn _ => ?_
  refine Sim.bind (dataProcessingOperand_respects H host ins) fun operand _ => ?_
  refine Sim.bind (dataProcessingResult_respects H ins rn operand.1) fun res _ => ?_
  refine Sim.bind (Sim.ite (fun _ => H.writeRegister _ _) fun _ => Sim.pure trivial)
    fun _ _ => ?_
  exact Sim.bind (dataProcessingStatus_respects H _ _ _ _ _) fun _ _ => Sim.pure trivial

/-! ## Loads and stores -/

theorem addressingMode_respects (host : Host) (ins : BitVec 32) :
    Sim R A G (fun _ => True) (addressingMode host ins) (addressingMode host ins) := by
  refine Sim.bind (V := fun _ => True) ?_ fun _ _ => Sim.pure trivial
  refine Sim.ite (fun _ => ?_) fun _ => Sim.ite (fun _ => ?_) fun _ => Sim.pure trivial
  · exact Sim.bind (shifterOperand_respects H host ins) fun _ _ => Sim.pure trivial
  · exact Sim.ite (fun _ => Sim.pure trivial) fun _ => H.readRegister _

omit H in
theorem readInto_respects {α : Type} (val : BitVec 32) (store : BitVec 32 → α → BitVec 32)
    {read : Arm (Except (BitVec 32) α)} (h : Sim R A G (fun _ => True) read read) :
    Sim R A G (fun _ => True) (readInto val store read) (readInto val store read) := by
  refine Sim.bind h fun result _ => ?_
  cases result <;> exact Sim.pure trivial

theorem loadValue_respects (host : Host) (locals : Locals) (ins address : BitVec 32) :
    Sim R A G (fun _ => True) (loadValue host locals ins address)
      (loadValue host locals ins address) := by
  refine Sim.ite (fun _ => ?_) fun _ => Sim.ite (fun _ => ?_) fun _ => ?_
  · exact readInto_respects _ _ (H.readHalf _)
  · exact readInto_respects _ _ (H.readByte _)
  · exact readInto_respects _ _ (H.readWord _)

theorem storeValue_respects (ins address val : BitVec 32) :
    Sim R A G (fun _ => True) (storeValue ins address val) (storeValue ins address val) := by
  refine Sim.ite (fun _ => H.writeHalf _ _) fun _ => ?_
  exact Sim.ite (fun _ => H.writeByte _ _) fun _ => H.writeWord _ _

theorem transferValue_respects (host : Host) (locals : Locals) (ins address : BitVec 32) :
    Sim R A G (fun _ => True) (transferValue host locals ins address)
      (transferValue host locals ins address) := by
  refine Sim.ite (fun _ => ?_) fun _ => ?_
  · refine Sim.bind (loadValue_respects H host locals ins address) fun _ _ => ?_
    refine Sim.bind (V := fun _ => True) ?_ fun _ _ => Sim.pure trivial
    exact Sim.ite (fun _ => H.writeUsrRegister _ _) fun _ => H.writeRegister _ _
  · refine Sim.bind (V := fun _ => True) ?_ fun _ _ => storeValue_respects H _ _ _
    exact Sim.ite (fun _ => H.readUsrRegister _) fun _ => H.readRegister _

theorem armLoadStore_respects (host : Host) (locals : Locals) (ins : BitVec 32) :
    Sim R A G (fun _ => True) (armLoadStore host locals ins) (armLoadStore host locals ins) := by
  have offset : ∀ base : BitVec 32, Sim R A G (fun _ => True)
      (addressingMode host ins >>= fun o => pure (base + o))
      (addressingMode host ins >>= fun o => pure (base + o)) :=
    fun _ => Sim.bind (addressingMode_respects H host ins) fun _ _ => Sim.pure trivial
  refine Sim.bind (H.readRegister _) fun base _ => ?_
  refine Sim.bind (Sim.ite (fun _ => offset _) fun _ => Sim.pure trivial) fun address _ => ?_
  refine Sim.bind (transferValue_respects H host locals ins address) fun res _ => ?_
  refine Sim.bind (addressingMode_respects H host ins) fun _ _ => ?_
  refine Sim.bind (Sim.ite (fun _ => Sim.pure trivial) fun _ => offset _) fun address _ => ?_
  refine Sim.bind (Sim.ite (fun _ => H.writeRegister _ _) fun _ => Sim.pure trivial)
    fun _ _ => ?_
  exact Sim.pure trivial

theorem blockStep_respects (isLoad : Bool) (ri : Fin 16) (b : Block) :
    Sim R A G (fun _ => True) (blockStep isLoad ri b) (blockStep isLoad ri b) := by
  refine Sim.ite (fun _ => ?_) fun _ => ?_
  · refine Sim.bind (readInto_respects _ _ (H.readWord _)) fun _ _ => ?_
    exact Sim.bind (H.writeRegister _ _) fun _ _ => Sim.pure trivial
  · refine Sim.bind (H.readRegister _) fun _ _ => ?_
    exact Sim.bind (H.writeWord _ _) fun _ _ => Sim.pure trivial

theorem blockLoop_respects (ins : BitVec 32) (regs : List (Fin 16)) (b : Block) :
    Sim R A G (fun _ => True) (blockLoop ins regs b) (blockLoop ins regs b) := by
  induction regs generalizing b with
  | nil => exact Sim.pure trivial
  | cons ri rest ih =>
    refine Sim.bind (V := fun _ => True) ?_ fun b _ => ih b
    exact Sim.ite (fun _ => blockStep_respects H _ ri b) fun _ => Sim.pure trivial

theorem armLoadStoreMultiple_respects (locals : Locals) (ins : BitVec 32) :
    Sim R A G (fun _ => True) (armLoadStoreMultiple locals ins)
      (armLoadStoreMultiple locals ins) := by
  refine Sim.bind (H.readRegister _) fun base _ => ?_
  refine Sim.bind (blockLoop_respects H ins _ _) fun b _ => ?_
  refine Sim.bind (Sim.ite (fun _ => H.writeRegister _ _) fun _ => Sim.pure trivial)
    fun _ _ => ?_
  exact Sim.pure trivial

/-! ## Branches and the decoder -/

theorem armBranch_respects (ins : BitVec 32) :
    Sim R A G (fun _ => True) (armBranch ins) (armBranch ins) := by
  refine Sim.bind (V := fun _ => True) (Sim.ite (fun _ => ?_) fun _ => Sim.pure trivial)
    fun _ _ => ?_
  · exact Sim.bind (H.readRegister _) fun _ _ => H.writeRegister _ _
  · refine Sim.bind (H.readRegister _) fun _ _ => ?_
    exact Sim.bind (H.writeRegister _ _) fun _ _ => Sim.pure trivial

theorem armFetch_respects : Sim R A G (fun _ => True) armFetch armFetch := by
  refine Sim.bind H.countCycle fun _ _ => ?_
  refine Sim.bind (H.readRegister _) fun _ _ => ?_
  refine Sim.bind (H.readOpcode _) fun _ _ => ?_
  exact Sim.bind (H.writeRegister _ _) fun _ _ => Sim.pure trivial

omit H in
theorem armCoprocessorOthersSwi_respects (ins : BitVec 32) :
    Sim R A G (fun _ => True) (armCoprocessorOthersSwi ins) (armCoprocessorOthersSwi ins) := by
  refine Sim.ite (fun _ => ?_) fun _ => Sim.pure trivial
  exact Sim.ite (fun _ => Sim.pure trivial) fun _ => Sim.pure trivial

theorem dispatch_respects (host : Host) (locals : Locals) (ins : BitVec 32) :
    Sim R A G (fun _ => True) (dispatch host locals ins) (dispatch host locals ins) := by
  -- The decoder drops what a handler returns, so one step closes every case.
  have drop : ∀ {m : Arm (BitVec 32)}, Sim R A G (fun _ => True) m m →
      Sim R A G (fun _ => True) (m >>= fun _ => pure (some 0 : Option (BitVec 32)))
        (m >>= fun _ => pure (some 0 : Option (BitVec 32))) :=
    fun h => Sim.bind h fun _ _ => Sim.pure trivial
  unfold dispatch
  cases insType ins with
  | dataProcessingShift =>
    exact Sim.ite (fun _ => drop (armLoadStore_respects H host locals ins))
      fun _ => drop (armDataProcessing_respects H host ins)
  | dataProcessingImmediate => exact drop (armDataProcessing_respects H host ins)
  | loadStoreImmediate | loadStoreRegister => exact drop (armLoadStore_respects H host locals ins)
  | loadStoreMultiple => exact drop (armLoadStoreMultiple_respects H locals ins)
  | branch => exact drop (armBranch_respects H ins)
  | loadStoreCoproc => exact Sim.pure trivial
  | coprocessorOthersSwi =>
    refine Sim.bind (armCoprocessorOthersSwi_respects ins) fun code _ => ?_
    cases code <;> exact Sim.pure trivial

/-- A relation the accessors respect is respected by the execution of every
instruction. -/
theorem armExecuteInstruction_respects (host : Host) (locals : Locals) :
    Sim R A G (fun _ => True) (armExecuteInstruction host locals)
      (armExecuteInstruction host locals) := by
  refine Sim.bind H.readCpsr fun cpsr _ => ?_
  refine Sim.bind (armFetch_respects H) fun fetched _ => ?_
  cases fetched with
  | error result => exact Sim.pure trivial
  | ok ins => exact Sim.ite (fun _ => dispatch_respects H host locals ins) fun _ => Sim.pure trivial

end Handlers

/-! ## Exceptions and runs -/

section Exceptions

variable {R : Core → Core → Prop} {A G : Access → Prop} {Psr : BitVec 32 → Prop}
variable (H : RespectsExceptions R A G Psr)
include H

theorem armException_respects (exception : BitVec 8) :
    Sim R A G (fun _ => True) (armException exception) (armException exception) := by
  refine Sim.bind (V := fun _ => True) (Sim.ite (fun _ => ?_) fun _ => ?_)
    fun _ _ => H.writeUsrRegister _ _
  · exact Sim.bind (H.writeCpsr H.resetCpsr) fun _ _ => H.writeRegister _ _
  · refine Sim.bind H.readCpsr fun cpsr h => ?_
    refine Sim.bind (H.writeSpsr h) fun _ _ => ?_
    refine Sim.bind (H.readRegister _) fun _ _ => ?_
    exact Sim.bind (H.writeRegister _ _) fun _ _ => H.writeCpsr (H.exceptionCpsr _ h)

theorem armStep_respects (host : Host) (locals : Locals) :
    Sim R A G (fun _ => True) (armStep host locals) (armStep host locals) := by
  refine Sim.bind (armExecuteInstruction_respects H.toRespects host locals) fun result _ => ?_
  cases result with
  | none => exact Sim.pure trivial
  | some result =>
    refine Sim.bind (V := fun _ => True) ?_ fun _ _ => Sim.pure trivial
    exact Sim.ite (fun _ => armException_respects H _) fun _ => Sim.pure trivial

theorem runCalls_respects (host : Host) (calls : List Call) :
    Sim R A G (fun _ => True) (runCalls host calls) (runCalls host calls) := by
  refine Sim.runAll (fun call => ?_) calls
  cases call with
  | step locals => exact armStep_respects H host locals
  | exception code => exact Sim.bind (armException_respects H code) fun _ _ => Sim.pure trivial

end Exceptions

end ArmSimulator
