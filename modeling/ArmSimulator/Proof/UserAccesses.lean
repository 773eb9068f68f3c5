/-
Who uses the user accessors.

`arm_read_usr_register` and `arm_write_usr_register` reach the user registers in every
mode.  `arm_load_store` calls them for the transfers with P clear and W set, and
`arm_exception` for its vector, and nothing else does.
-/
import ArmSimulator.Proof.Transfers

namespace ArmSimulator

open Traced (Effect)

/-- The accesses a call makes through the user accessors when it finds the core `p`: the
register of a user transfer, and the program counter of an exception. -/
inductive UserAccess (host : Host) (p : Core) : Call → AccessType → Nat → Prop where
  | transfer {locals : Locals} {ins : BitVec 32} (executed : executed p = some ins)
      (handled : IsLoadStore ins) (post : getBit ins 24 = false) (back : getBit ins 21 = true) :
      UserAccess host p (.step locals) (if getBit ins 20 then .write else .read) (regField ins 12)
  | exception (code : BitVec 8) : UserAccess host p (.exception code) .write 15
  | entered {locals : Locals} {code : BitVec 32}
      (returned : (armStep host locals p).value = some code) (nonzero : code ≠ 0) :
      UserAccess host p (.step locals) .write 15

/-- What is known of an access through a user accessor. -/
def Access.User (U : AccessType → Nat → Prop) : Access → Prop
  | .usrRegister type _ index => U type index
  | .register _ _ _ | .memory _ _ _ _ _ => True

theorem user_spsrAccess {U : AccessType → Nat → Prop} (type : AccessType) (r : Registers) :
    ∀ e ∈ spsrAccess type r, e.User U := by
  intro e he
  obtain ⟨i, -, rfl⟩ := Option.map_eq_some_iff.mp (Option.mem_toList.mp he)
  exact trivial

theorem registerEffect_user (U : AccessType → Nat → Prop) :
    RegisterEffect (fun _ _ => True) (Access.User U) fun _ => True where
  refl _ := trivial
  trans _ _ _ _ _ := trivial
  readRegister _ := fun _ => ⟨trivial, fun e he => by cases List.mem_singleton.mp he; trivial⟩
  readCpsr := fun _ => ⟨trivial, fun e he => by cases List.mem_singleton.mp he; trivial⟩
  readSpsr := fun s => ⟨trivial, user_spsrAccess .read s.reg⟩
  writeRegister _ _ := fun _ => ⟨trivial, fun e he => by cases List.mem_singleton.mp he; trivial⟩
  writeCpsr _ := fun _ => ⟨trivial, fun e he => by cases List.mem_singleton.mp he; trivial⟩

section

variable {U : AccessType → Nat → Prop}

/-! ## Loads and stores -/

theorem armRead_user {α : Type} (size : Nat) (cause : Cause)
    (read : Memory → BitVec 32 → Except (BitVec 32) α) (a : BitVec 32) :
    Effect (fun _ _ => True) (Access.User U) (armRead size cause read a) :=
  fun _ => ⟨trivial, fun e he => by cases List.mem_singleton.mp he; trivial⟩

theorem armWrite_user {α : Type} (size : Nat)
    (write : Memory → BitVec 32 → α → Except (BitVec 32) Memory) (a : BitVec 32) (value : α) :
    Effect (fun _ _ => True) (Access.User U) (armWrite size write a value) :=
  fun _ => ⟨trivial, fun e he => by cases List.mem_singleton.mp he; trivial⟩

theorem readInto_user {α : Type} (val : BitVec 32) (store : BitVec 32 → α → BitVec 32)
    {read : Arm (Except (BitVec 32) α)} (h : Effect (fun _ _ => True) (Access.User U) read) :
    Effect (fun _ _ => True) (Access.User U) (readInto val store read) := by
  intro s
  obtain ⟨-, htrace⟩ := readInto_outcome val store read s
  rw [htrace]
  exact ⟨trivial, (h s).2⟩

theorem loadValue_user (host : Host) (locals : Locals) (ins a : BitVec 32) :
    Effect (fun _ _ => True) (Access.User U) (loadValue host locals ins a) := by
  refine Effect.ite (fun _ => ?_) fun _ => Effect.ite (fun _ => ?_) fun _ => ?_
  · exact readInto_user _ _ (armRead_user _ _ _ _)
  · exact readInto_user _ _ (armRead_user _ _ _ _)
  · exact readInto_user _ _ (armRead_user _ _ _ _)

theorem storeValue_user (ins a val : BitVec 32) :
    Effect (fun _ _ => True) (Access.User U) (storeValue ins a val) := by
  refine Effect.ite (fun _ => ?_) fun _ => Effect.ite (fun _ => ?_) fun _ => ?_
  · exact armWrite_user _ _ _ _
  · exact armWrite_user _ _ _ _
  · exact armWrite_user _ _ _ _

theorem isUserTransfer_iff (ins : BitVec 32) :
    isUserTransfer ins = true ↔ getBit ins 24 = false ∧ getBit ins 21 = true := by
  simp [isUserTransfer]

section

variable (host : Host) (locals : Locals) {ins : BitVec 32}
  (h : getBit ins 24 = false → getBit ins 21 = true →
    U (if getBit ins 20 then .write else .read) (regField ins 12))
include h

theorem transferValue_user (a : BitVec 32) :
    Effect (fun _ _ => True) (Access.User U) (transferValue host locals ins a) := by
  have H := registerEffect_user U
  have huser : isUserTransfer ins = true →
      U (if getBit ins 20 then .write else .read) (regField ins 12) := fun hu =>
    h ((isUserTransfer_iff ins).mp hu).1 ((isUserTransfer_iff ins).mp hu).2
  refine Effect.ite (fun hl => ?_) fun hl => ?_
  · rw [if_pos hl] at huser
    refine Effect.bind H.trans (loadValue_user host locals ins a) fun val => ?_
    refine Effect.bind H.trans (Effect.ite (fun hu => ?_) fun _ => H.writeRegister trivial _)
      fun _ => Effect.pure H.refl _
    exact fun _ => ⟨trivial, fun e he => by cases List.mem_singleton.mp he; exact huser hu⟩
  · rw [if_neg hl] at huser
    refine Effect.bind H.trans (Effect.ite (fun hu => ?_) fun _ => H.readRegister _)
      fun val => storeValue_user ins a val
    exact fun _ => ⟨trivial, fun e he => by cases List.mem_singleton.mp he; exact huser hu⟩

theorem armLoadStore_user :
    Effect (fun _ _ => True) (Access.User U) (armLoadStore host locals ins) := by
  have H := registerEffect_user U
  have hoffset : ∀ base : BitVec 32, Effect (fun _ _ => True) (Access.User U)
      (addressingMode host ins >>= fun offset => pure (base + offset)) := fun _ =>
    Effect.bind H.trans (addressingMode_effect H.toReadEffect host ins)
      fun _ => Effect.pure H.refl _
  refine Effect.bind H.trans (H.readRegister _) fun base => ?_
  refine Effect.bind H.trans (Effect.ite (fun _ => hoffset base) fun _ => Effect.pure H.refl _)
    fun a => ?_
  refine Effect.bind H.trans (transferValue_user host locals h a) fun res => ?_
  refine Effect.bind H.trans (addressingMode_effect H.toReadEffect host ins) fun _ => ?_
  refine Effect.bind H.trans (Effect.ite (fun _ => Effect.pure H.refl _) fun _ => hoffset a)
    fun a => ?_
  exact Effect.bind H.trans (Effect.ite (fun _ => H.writeRegister trivial _)
    fun _ => Effect.pure H.refl _) fun _ => Effect.pure H.refl _

end

theorem blockLoop_user (ins : BitVec 32) (regs : List (Fin 16)) (b : Block) :
    Effect (fun _ _ => True) (Access.User U) (blockLoop ins regs b) := by
  have H := registerEffect_user U
  induction regs generalizing b with
  | nil => exact Effect.pure H.refl _
  | cons ri rest ih =>
    refine Effect.bind H.trans (Effect.ite (fun _ => Effect.ite (fun _ => ?_) fun _ => ?_)
      fun _ => Effect.pure H.refl _) ih
    · refine Effect.bind H.trans (readInto_user _ _ (armRead_user _ _ _ _)) fun _ => ?_
      exact Effect.bind H.trans (H.writeRegister trivial _) fun _ => Effect.pure H.refl _
    · refine Effect.bind H.trans (H.readRegister _) fun _ => ?_
      exact Effect.bind H.trans (armWrite_user _ _ _ _) fun _ => Effect.pure H.refl _

theorem armLoadStoreMultiple_user (locals : Locals) (ins : BitVec 32) :
    Effect (fun _ _ => True) (Access.User U) (armLoadStoreMultiple locals ins) := by
  have H := registerEffect_user U
  refine Effect.bind H.trans (H.readRegister _) fun base => ?_
  refine Effect.bind H.trans (blockLoop_user ins _ _) fun b => ?_
  exact Effect.bind H.trans (Effect.ite (fun _ => H.writeRegister trivial _)
    fun _ => Effect.pure H.refl _) fun _ => Effect.pure H.refl _

/-! ## Steps and exceptions -/

theorem dispatch_user (host : Host) (locals : Locals) {ins : BitVec 32}
    (h : IsLoadStore ins → getBit ins 24 = false → getBit ins 21 = true →
      U (if getBit ins 20 then .write else .read) (regField ins 12)) :
    Effect (fun _ _ => True) (Access.User U) (dispatch host locals ins) := by
  have H := registerEffect_user U
  have hdrop : ∀ {m : Arm (BitVec 32)}, Effect (fun _ _ => True) (Access.User U) m →
      Effect (fun _ _ => True) (Access.User U)
        (m >>= fun _ => pure (some 0 : Option (BitVec 32))) :=
    fun hm => Effect.bind H.trans hm fun _ => Effect.pure H.refl _
  unfold dispatch
  cases htype : insType ins with
  | dataProcessingShift =>
    refine Effect.ite (fun hbits => hdrop (armLoadStore_user host locals ?_))
      fun _ => hdrop (armDataProcessing_effect H host trivial)
    exact h (Or.inr (Or.inr ⟨htype, hbits⟩))
  | dataProcessingImmediate => exact hdrop (armDataProcessing_effect H host trivial)
  | loadStoreImmediate => exact hdrop (armLoadStore_user host locals (h (Or.inl htype)))
  | loadStoreRegister => exact hdrop (armLoadStore_user host locals (h (Or.inr (Or.inl htype))))
  | loadStoreMultiple => exact hdrop (armLoadStoreMultiple_user locals ins)
  | branch => exact hdrop (armBranch_effect H trivial trivial ins)
  | loadStoreCoproc => exact Effect.pure H.refl _
  | coprocessorOthersSwi =>
    refine Effect.bind H.trans (Effect.ite (fun _ => Effect.ite (fun _ => Effect.pure H.refl _)
      fun _ => Effect.pure H.refl _) fun _ => Effect.pure H.refl _) fun code => ?_
    cases code <;> exact Effect.pure H.refl _

theorem armException_user (h : U .write 15) (exception : BitVec 8) :
    Effect (fun _ _ => True) (Access.User U) (armException exception) := by
  have H := registerEffect_user U
  refine Effect.bind H.trans (Effect.ite (fun _ => ?_) fun _ => ?_) fun _ => ?_
  · exact Effect.bind H.trans (H.writeCpsr _) fun _ => H.writeRegister trivial _
  · refine Effect.bind H.trans H.readCpsr fun cpsr => ?_
    refine Effect.bind H.trans (fun s => ⟨trivial, user_spsrAccess .write s.reg⟩) fun _ => ?_
    refine Effect.bind H.trans (H.readRegister _) fun _ => ?_
    exact Effect.bind H.trans (H.writeRegister trivial _) fun _ => H.writeCpsr _
  · exact fun _ => ⟨trivial, fun e he => by cases List.mem_singleton.mp he; exact h⟩

end

/-- The fetch and the condition come before every other access of a step, and the exception
of its code after them. -/
theorem armStep_user (host : Host) (locals : Locals) (p : Core) :
    ∀ e ∈ (armStep host locals p).trace, e.User (UserAccess host p (.step locals)) := by
  have H := registerEffect_user (UserAccess host p (.step locals))
  have hexecute : ∀ e ∈ (armExecuteInstruction host locals p).trace,
      e.User (UserAccess host p (.step locals)) := by
    have hcpsr : (armReadCpsr p).value = readCpsr p.reg := rfl
    have hstate : (armReadCpsr p).state = p := rfl
    have hfetch : ∀ e ∈ (armFetch p).trace, e.User (UserAccess host p (.step locals)) := by
      rw [armFetch_eq]
      simp [Access.User]
    simp only [armExecuteInstruction, Traced.bind_trace, hcpsr, hstate, List.forall_mem_append]
    refine ⟨(H.readCpsr p).2, hfetch, ?_⟩
    rw [armFetch_eq]
    cases hf : fetched p with
    | error code => exact fun e he => absurd he List.not_mem_nil
    | ok ins =>
      refine (Effect.ite (fun hc => dispatch_user host locals fun hins hpost hback => ?_)
        (fun _ => Effect.pure H.refl _) _).2
      exact .transfer (executed_of_fetched hf hc) hins hpost hback
  rw [armStep_eq, Traced.bind_trace, List.forall_mem_append]
  refine ⟨hexecute, ?_⟩
  have hvalue := armStep_value host locals p
  cases hcode : (armExecuteInstruction host locals p).value with
  | none => exact fun e he => absurd he List.not_mem_nil
  | some code =>
    rw [hcode] at hvalue
    refine (Effect.bind H.trans (Effect.ite (fun hne => ?_) fun _ => Effect.pure H.refl _)
      (fun _ => Effect.pure H.refl _) _).2
    exact armException_user (.entered hvalue hne) _

theorem call_user (host : Host) (call : Call) (p : Core) :
    ∀ e ∈ (call.run host p).trace, e.User (UserAccess host p call) := by
  cases call with
  | step locals => exact armStep_user host locals p
  | exception code =>
    have H := registerEffect_user (UserAccess host p (.exception code))
    exact (Effect.bind H.trans (armException_user (.exception code) code)
      (fun _ => Effect.pure H.refl _) p).2

/-- An access of a run through a user accessor is that of one of its calls. -/
theorem runCalls_user (host : Host) (calls : List Call) (p : Core) {type : AccessType}
    {mode : BitVec 8} {index : Nat}
    (h : .usrRegister type mode index ∈ (runCalls host calls p).trace) :
    ∃ before call after, calls = before ++ call :: after ∧
      none ∉ (runCalls host before p).value ∧
      .usrRegister type mode index ∈ (call.run host (runCalls host before p).state).trace ∧
      UserAccess host (runCalls host before p).state call type index := by
  obtain ⟨before, call, after, hcalls, hreturns, hmem⟩ := Traced.mem_runAll_trace h
  exact ⟨before, call, after, hcalls, hreturns, hmem, call_user host call _ _ hmem⟩

end ArmSimulator
