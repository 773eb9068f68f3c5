/-
The data accesses of loads and stores.

A single transfer makes one access, a block transfer one for each register of its
list.  The lemmas below say which addresses these are, in terms of the core before
the transfer, when the memory module rejects one of them, and what code the handler
then returns.
-/
import ArmSimulator.Proof.BlockTransfer
import ArmSimulator.Proof.Bytes
import ArmSimulator.Proof.Effects

namespace ArmSimulator

open Traced (Reads)

/-! ## Rejected accesses -/

/-- A data access that the memory module rejected. -/
def Access.Rejected : Access → Prop
  | .memory _ _ .otherAccess _ result => result ≠ 0
  | _ => False

instance (e : Access) : Decidable e.Rejected :=
  match e with
  | .memory _ _ .otherAccess _ result => inferInstanceAs (Decidable (result ≠ 0))
  | .memory _ _ .opcodeFetch _ _ => inferInstanceAs (Decidable False)
  | .register _ _ _ => inferInstanceAs (Decidable False)
  | .usrRegister _ _ _ => inferInstanceAs (Decidable False)

def SomeRejected (trace : List Access) : Prop := ∃ e ∈ trace, e.Rejected

instance (trace : List Access) : Decidable (SomeRejected trace) :=
  decidable_of_iff (trace.any fun e => e.Rejected) (by simp [SomeRejected])

theorem someRejected_cons {e : Access} {t : List Access} :
    SomeRejected (e :: t) ↔ e.Rejected ∨ SomeRejected t := by
  simp [SomeRejected]

/-! ## Accesses to memory -/

def Access.isMemory : Access → Bool
  | .memory _ _ _ _ _ => true
  | _ => false

/-- The accesses to memory among the events of a computation, in order. -/
def memoryAccesses (trace : List Access) : List Access := trace.filter Access.isMemory

/-- A data access of `width` bytes at `a`, with the code the memory module gives it. -/
def dataAccess (mem : Memory) (isLoad : Bool) (width : Nat) (a : BitVec 32) : Access :=
  .memory (if isLoad then .read else .write) width .otherAccess a
    (accessResult mem isLoad width a)

@[simp] theorem memoryAccesses_nil : memoryAccesses [] = [] := rfl

@[simp] theorem memoryAccesses_append (t u : List Access) :
    memoryAccesses (t ++ u) = memoryAccesses t ++ memoryAccesses u :=
  List.filter_append ..

@[simp] theorem memoryAccesses_register (type : AccessType) (mode : BitVec 8) (index : Nat)
    (t : List Access) : memoryAccesses (.register type mode index :: t) = memoryAccesses t := rfl

@[simp] theorem memoryAccesses_usrRegister (type : AccessType) (mode : BitVec 8) (index : Nat)
    (t : List Access) : memoryAccesses (.usrRegister type mode index :: t) = memoryAccesses t := rfl

@[simp] theorem memoryAccesses_memory (type : AccessType) (size : Nat) (cause : Cause)
    (a result : BitVec 32) (t : List Access) :
    memoryAccesses (.memory type size cause a result :: t) =
      .memory type size cause a result :: memoryAccesses t := rfl

theorem memoryAccesses_quiet {t : List Access} (h : ∀ e ∈ t, e.isMemory = false) :
    memoryAccesses t = [] := by
  apply List.filter_eq_nil_iff.mpr
  intro e he
  rw [h e he]
  decide

theorem someRejected_memoryAccesses {t : List Access} :
    SomeRejected (memoryAccesses t) ↔ SomeRejected t := by
  have hmemory : ∀ e : Access, e.Rejected → e.isMemory = true := by
    intro e he
    cases e with
    | memory => rfl
    | register => exact absurd he id
    | usrRegister => exact absurd he id
  constructor
  · rintro ⟨e, he, hr⟩
    exact ⟨e, (List.mem_filter.mp he).1, hr⟩
  · rintro ⟨e, he, hr⟩
    exact ⟨e, List.mem_filter.mpr ⟨he, hmemory e hr⟩, hr⟩

theorem someRejected_dataAccesses {mem : Memory} {isLoad : Bool} {width : Nat}
    {as : List (BitVec 32)} :
    SomeRejected (as.map (dataAccess mem isLoad width)) ↔
      ∃ a ∈ as, ¬Accepted mem isLoad width a := by
  have hiff : ∀ a, (dataAccess mem isLoad width a).Rejected ↔ ¬Accepted mem isLoad width a :=
    fun a => not_congr accessResult_eq_zero
  simp only [SomeRejected, List.mem_map, exists_exists_and_eq_and, hiff]

/-! ## Single transfers -/

/-- The bytes of a single transfer, as the handler decodes them. -/
def transferWidth (ins : BitVec 32) : Nat :=
  if getBit ins 7 ∧ getBit ins 4 then 2 else if getBit ins 22 then 1 else 4

/-- The address of a single transfer from the core `s`. -/
def transferAddress (host : Host) (ins : BitVec 32) (s : Core) : BitVec 32 :=
  if getBit ins 24 then
    (armReadRegister (regField ins 16) s).value + (addressingMode host ins s).value
  else (armReadRegister (regField ins 16) s).value

theorem armReadRegister_reads (reg : Fin 16) :
    Reads (fun e => e.isMemory = false) (armReadRegister reg) :=
  fun _ => ⟨rfl, fun e he => by cases List.mem_singleton.mp he; rfl⟩

theorem readEffect_reads : ReadEffect (fun s t => t = s) fun e => e.isMemory = false where
  refl _ := rfl
  trans _ _ _ h h' := h'.trans h
  readRegister := armReadRegister_reads
  readCpsr := fun _ => ⟨rfl, fun e he => by cases List.mem_singleton.mp he; rfl⟩

theorem addressingMode_reads (host : Host) (ins : BitVec 32) :
    Reads (fun e => e.isMemory = false) (addressingMode host ins) :=
  addressingMode_effect readEffect_reads host ins

theorem readInto_outcome {α : Type} (val : BitVec 32) (store : BitVec 32 → α → BitVec 32)
    (read : Arm (Except (BitVec 32) α)) (s : Core) :
    (readInto val store read s).state = (read s).state ∧
      (readInto val store read s).trace = (read s).trace := by
  simp only [readInto, Traced.bind_state, Traced.bind_trace]
  cases (read s).value <;> exact ⟨rfl, List.append_nil _⟩

section

variable (host : Host) (locals : Locals) (ins a : BitVec 32) (s : Core)

theorem loadValue_trace :
    (loadValue host locals ins a s).trace =
      [dataAccess s.mem true (transferWidth ins) a] := by
  unfold loadValue transferWidth
  split_ifs <;> rw [(readInto_outcome _ _ _ s).2, dataAccess]
  · rw [← resultCode_readHalf s.mem a]
    rfl
  · rw [← resultCode_readByte s.mem a]
    rfl
  · rw [← resultCode_readWord s.mem a]
    rfl

theorem storeValue_trace (val : BitVec 32) :
    (storeValue ins a val s).trace =
      [dataAccess s.mem false (transferWidth ins) a] := by
  unfold storeValue transferWidth
  split_ifs <;> rw [dataAccess]
  · rw [← resultCode_writeHalf s.mem a (val.setWidth 16)]
    rfl
  · rw [← resultCode_writeByte s.mem a (val.setWidth 8)]
    rfl
  · rw [← resultCode_writeWord s.mem a val]
    rfl

theorem storeValue_value (val : BitVec 32) :
    (storeValue ins a val s).value = accessResult s.mem false (transferWidth ins) a := by
  unfold storeValue transferWidth
  split_ifs
  · exact resultCode_writeHalf s.mem a (val.setWidth 16)
  · exact resultCode_writeByte s.mem a (val.setWidth 8)
  · exact resultCode_writeWord s.mem a val

theorem transferValue_value :
    (transferValue host locals ins a s).value =
      if getBit ins 20 then 0 else accessResult s.mem false (transferWidth ins) a := by
  unfold transferValue
  by_cases hload : getBit ins 20 = true
  · simp only [hload, if_true, Traced.bind_value, Traced.pure_apply]
  · simp only [hload, if_false, Traced.bind_value, Bool.false_eq_true]
    by_cases huser : isUserTransfer ins = true
    · rw [if_pos huser]
      exact storeValue_value ins a s _
    · rw [if_neg huser]
      exact storeValue_value ins a s _

theorem transferValue_accesses :
    memoryAccesses (transferValue host locals ins a s).trace =
      [dataAccess s.mem (getBit ins 20) (transferWidth ins) a] := by
  unfold transferValue
  by_cases hload : getBit ins 20 = true
  · by_cases huser : isUserTransfer ins = true <;>
      simp [hload, huser, loadValue_trace, dataAccess, armWriteRegister, armWriteUsrRegister]
  · by_cases huser : isUserTransfer ins = true <;>
      simp [hload, huser, storeValue_trace, dataAccess, armReadRegister, armReadUsrRegister]

theorem loadValue_state : (loadValue host locals ins a s).state = s := by
  unfold loadValue
  split_ifs <;> rw [(readInto_outcome _ _ _ s).1] <;> rfl

theorem storeValue_reg (val : BitVec 32) : (storeValue ins a val s).state.reg = s.reg := by
  unfold storeValue
  split_ifs <;> rfl

/-- The core after a single transfer: the transfer itself, then the write-back of the
base.  With P clear the offset is evaluated after the transfer. -/
theorem armLoadStore_state :
    (armLoadStore host locals ins s).state =
      let t := (transferValue host locals ins (transferAddress host ins s) s).state
      if getBit ins 24 = false ∨ getBit ins 21 = true then
        { t with
          reg := writeRegister t.reg (regField ins 16)
            (if getBit ins 24 then transferAddress host ins s
              else transferAddress host ins s + (addressingMode host ins t).value) }
      else t := by
  have hoffset := fun s => (addressingMode_reads host ins s).1
  have hbase := (armReadRegister_reads (regField ins 16) s).1
  unfold armLoadStore transferAddress
  by_cases hp : getBit ins 24 = true
  · by_cases hw : getBit ins 21 = true
    · simp only [hp, hw, Traced.bind_value, Traced.bind_state, Traced.pure_apply, hbase, hoffset,
        if_true, or_true]
      rfl
    · simp only [hp, hw, Traced.bind_value, Traced.bind_state, Traced.pure_apply, hbase, hoffset,
        if_true, if_false, Bool.not_true, Bool.false_eq_true, or_self, Bool.true_eq_false]
  · simp only [hp, Traced.bind_value, Traced.bind_state, Traced.pure_apply, hbase, hoffset,
      if_true, if_false, Bool.not_false, Bool.false_eq_true, true_or]
    rfl

theorem armLoadStore_value :
    (armLoadStore host locals ins s).value =
      if getBit ins 20 then 0
      else accessResult s.mem false (transferWidth ins) (transferAddress host ins s) := by
  have hoffset := (addressingMode_reads host ins s).1
  have hbase := (armReadRegister_reads (regField ins 16) s).1
  unfold armLoadStore transferAddress
  by_cases hp : getBit ins 24 = true <;>
    simp only [hp, Traced.bind_value, Traced.bind_state, Traced.pure_apply, if_true, if_false,
      Bool.false_eq_true, hbase, hoffset, transferValue_value]

theorem armLoadStore_value_eq_zero :
    (armLoadStore host locals ins s).value = 0 ↔
      (getBit ins 20 = false →
        Accepted s.mem false (transferWidth ins) (transferAddress host ins s)) := by
  rw [armLoadStore_value]
  cases getBit ins 20 with
  | true => simp
  | false => simpa using accessResult_eq_zero

theorem armLoadStore_accesses :
    memoryAccesses (armLoadStore host locals ins s).trace =
      [dataAccess s.mem (getBit ins 20) (transferWidth ins) (transferAddress host ins s)] := by
  have hoffset := fun s => (addressingMode_reads host ins s).1
  have hquiet := fun s => memoryAccesses_quiet (addressingMode_reads host ins s).2
  have hbase := (armReadRegister_reads (regField ins 16) s).1
  have hbase' := memoryAccesses_quiet (armReadRegister_reads (regField ins 16) s).2
  unfold armLoadStore transferAddress
  by_cases hp : getBit ins 24 = true <;> by_cases hw : getBit ins 21 = true <;>
    simp [hp, hw, hbase, hoffset, transferValue_accesses, hquiet, hbase', armWriteRegister]

end

/-! ## Block transfers -/

theorem accepted_congr {mem mem' : Memory} (h : mem'.size = mem.size) (isLoad : Bool) (width : Nat)
    (a : BitVec 32) : Accepted mem' isLoad width a ↔ Accepted mem isLoad width a := by
  unfold Accepted
  rw [h]

theorem accessResult_congr {mem mem' : Memory} (h : mem'.size = mem.size) (isLoad : Bool)
    (width : Nat) (a : BitVec 32) :
    accessResult mem' isLoad width a = accessResult mem isLoad width a := by
  unfold accessResult
  rw [if_congr (accepted_congr h isLoad width a) rfl rfl]

section

variable (isLoad : Bool) (ri : Fin 16) (b : Block) (s : Core)

theorem blockStep_size : (blockStep isLoad ri b s).state.mem.size = s.mem.size := by
  cases isLoad with
  | true =>
    simp only [blockStep, if_true, Traced.bind_state, Traced.pure_apply]
    show (readInto _ _ _ s).state.mem.size = _
    rw [(readInto_outcome _ _ _ s).1]
    rfl
  | false => exact storeWord_size s.mem b.address _

theorem blockStep_res :
    (blockStep isLoad ri b s).value.res =
      if isLoad then 0 else accessResult s.mem false 4 b.address := by
  cases isLoad with
  | true => rfl
  | false => exact resultCode_writeWord s.mem b.address _

theorem blockStep_accesses :
    memoryAccesses (blockStep isLoad ri b s).trace = [dataAccess s.mem isLoad 4 b.address] := by
  cases isLoad with
  | true =>
    simp [blockStep, (readInto_outcome _ _ _ s).2, armReadWord, armRead, armWriteRegister,
      dataAccess, resultCode_readWord]
  | false =>
    simp [blockStep, armWriteWord, armWrite, armReadRegister, dataAccess, resultCode_writeWord]

end

/-- A block transfer returns the result of its last access, and what the local held when
its list is empty. -/
theorem blockTransfer_res (isLoad : Bool) (regs : List (Fin 16)) (b : Block) (s : Core) :
    (blockTransfer isLoad regs b s).value.res =
      match (addresses b.address regs.length).getLast? with
      | none => b.res
      | some a => if isLoad then 0 else accessResult s.mem false 4 a := by
  induction regs generalizing b s with
  | nil => rfl
  | cons ri rest ih =>
    rw [blockTransfer, Traced.bind_value, ih, (blockStep_next isLoad ri b s).1, blockStep_res,
      List.length_cons, addresses, List.getLast?_cons]
    cases (addresses (b.address + 4) rest.length).getLast? with
    | none => rfl
    | some a =>
      simp only [accessResult_congr (blockStep_size isLoad ri b s)]
      rfl

theorem dataAccess_congr {mem mem' : Memory} (h : mem'.size = mem.size) (isLoad : Bool)
    (width : Nat) : dataAccess mem' isLoad width = dataAccess mem isLoad width := by
  funext a
  unfold dataAccess
  rw [accessResult_congr h]

/-- The loop goes on after a rejected access. -/
theorem blockTransfer_accesses (isLoad : Bool) (regs : List (Fin 16)) (b : Block) (s : Core) :
    memoryAccesses (blockTransfer isLoad regs b s).trace =
      (addresses b.address regs.length).map (dataAccess s.mem isLoad 4) := by
  induction regs generalizing b s with
  | nil => rfl
  | cons ri rest ih =>
    rw [blockTransfer, Traced.bind_trace, memoryAccesses_append, blockStep_accesses, ih,
      (blockStep_next isLoad ri b s).1, dataAccess_congr (blockStep_size isLoad ri b s)]
    rfl

section

variable (locals : Locals) (ins : BitVec 32) (s : Core)

def blockTransferBase : BitVec 32 := (armReadRegister (regField ins 16) s).value

theorem armLoadStoreMultiple_value :
    (armLoadStoreMultiple locals ins s).value =
      match (blockAddresses ins (blockTransferBase ins s)).getLast? with
      | none => locals.res
      | some a => if getBit ins 20 then 0 else accessResult s.mem false 4 a := by
  have hbase := (armReadRegister_reads (regField ins 16) s).1
  simp only [armLoadStoreMultiple, Traced.bind_value, Traced.pure_apply, blockLoop_eq, hbase]
  exact blockTransfer_res _ _ _ s

theorem armLoadStoreMultiple_value_eq_zero :
    (armLoadStoreMultiple locals ins s).value = 0 ↔
      (blockList ins = [] → locals.res = 0) ∧
        (getBit ins 20 = false →
          ∀ a ∈ (blockAddresses ins (blockTransferBase ins s)).getLast?,
            Accepted s.mem false 4 a) := by
  rw [armLoadStoreMultiple_value]
  unfold blockAddresses
  cases hlist : blockList ins with
  | nil => simp [addresses]
  | cons ri rest =>
    rw [List.length_cons, addresses, List.getLast?_cons]
    cases getBit ins 20 with
    | true => simp
    | false => simpa using accessResult_eq_zero

theorem armLoadStoreMultiple_accesses :
    memoryAccesses (armLoadStoreMultiple locals ins s).trace =
      (blockAddresses ins (blockTransferBase ins s)).map (dataAccess s.mem (getBit ins 20) 4) := by
  have hbase := (armReadRegister_reads (regField ins 16) s).1
  have hquiet := memoryAccesses_quiet (armReadRegister_reads (regField ins 16) s).2
  have hrun := blockTransfer_accesses (getBit ins 20) (blockList ins)
    { address := blockStart ins (blockTransferBase ins s), val := locals.val, res := locals.res,
      numberOfSetBits := 0 } s
  simp only [armLoadStoreMultiple, Traced.bind_trace, Traced.pure_apply, blockLoop_eq, hbase,
    memoryAccesses_append, hquiet, List.nil_append, List.append_nil]
  refine Eq.trans ?_ hrun
  by_cases hw : getBit ins 21 = true <;>
    simp [hw, armWriteRegister, blockTransferBase, blockList]

end

/-! ## Steps -/

/-- The instructions of `arm_load_store`. -/
def IsLoadStore (ins : BitVec 32) : Prop :=
  insType ins = .loadStoreImmediate ∨ insType ins = .loadStoreRegister ∨
    (insType ins = .dataProcessingShift ∧ getBit ins 4 = true ∧ getBit ins 7 = true)

/-- The instructions that access memory after the fetch. -/
def AccessesMemory (ins : BitVec 32) : Prop :=
  IsLoadStore ins ∨ insType ins = .loadStoreMultiple

instance (ins : BitVec 32) : Decidable (AccessesMemory ins) :=
  inferInstanceAs (Decidable ((_ ∨ _ ∨ (_ ∧ _ ∧ _)) ∨ _))

def transferAddresses (host : Host) (ins : BitVec 32) (s : Core) : List (BitVec 32) :=
  if insType ins = .loadStoreMultiple then blockAddresses ins (blockTransferBase ins s)
  else [transferAddress host ins s]

def accessWidth (ins : BitVec 32) : Nat :=
  if insType ins = .loadStoreMultiple then 4 else transferWidth ins

/-- The data accesses of an instruction that starts from the core `s`. -/
def dataAccesses (host : Host) (ins : BitVec 32) (s : Core) : List Access :=
  if AccessesMemory ins then
    (transferAddresses host ins s).map (dataAccess s.mem (getBit ins 20) (accessWidth ins))
  else []

/-- The instruction a step executes: fetched, and its condition passes. -/
def executed (p : Core) : Option (BitVec 32) :=
  match fetched p with
  | .ok ins => if executes (readCpsr p.reg) ins then some ins else none
  | .error _ => none

theorem registerEffect_quiet :
    RegisterEffect (fun _ _ => True) (fun e => e.isMemory = false) fun _ => True where
  refl _ := trivial
  trans _ _ _ _ _ := trivial
  readRegister _ := fun _ => ⟨trivial, fun e he => by cases List.mem_singleton.mp he; rfl⟩
  readCpsr := fun _ => ⟨trivial, fun e he => by cases List.mem_singleton.mp he; rfl⟩
  readSpsr := fun s => ⟨trivial, fun e he => by
    obtain ⟨i, -, rfl⟩ := Option.map_eq_some_iff.mp (Option.mem_toList.mp he)
    rfl⟩
  writeRegister _ _ := fun _ => ⟨trivial, fun e he => by cases List.mem_singleton.mp he; rfl⟩
  writeCpsr _ := fun _ => ⟨trivial, fun e he => by cases List.mem_singleton.mp he; rfl⟩

theorem armException_accesses (exception : BitVec 8) (s : Core) :
    memoryAccesses (armException exception s).trace = [] := by
  have hspsr : ∀ type r, memoryAccesses (spsrAccess type r) = [] := by
    intro type r
    apply memoryAccesses_quiet
    intro e he
    obtain ⟨i, -, rfl⟩ := Option.map_eq_some_iff.mp (Option.mem_toList.mp he)
    rfl
  unfold armException
  by_cases h : exception.setWidth 32 = reset
  · simp [h, resetEntry, armWriteCpsr, armWriteRegister, armWriteUsrRegister]
  · simp [h, exceptionEntry, armReadCpsr, armWriteSpsr, armReadRegister, armWriteRegister,
      armWriteCpsr, armWriteUsrRegister, hspsr]

theorem dispatch_accesses (host : Host) (locals : Locals) (ins : BitVec 32) (s : Core) :
    memoryAccesses (dispatch host locals ins s).trace = dataAccesses host ins s := by
  have hdrop : ∀ m : Arm (BitVec 32),
      memoryAccesses ((m >>= fun _ => pure (some (0 : BitVec 32))) s).trace =
        memoryAccesses (m s).trace := by
    intro m
    rw [Traced.bind_trace, memoryAccesses_append, Traced.pure_apply]
    exact List.append_nil _
  have hsingle : insType ins ≠ .loadStoreMultiple → AccessesMemory ins →
      memoryAccesses (armLoadStore host locals ins s).trace = dataAccesses host ins s := by
    intro htype hins
    unfold dataAccesses transferAddresses accessWidth
    rw [armLoadStore_accesses, if_pos hins, if_neg htype, if_neg htype]
    rfl
  have hquiet : ∀ m : Arm (BitVec 32), ¬AccessesMemory ins →
      Traced.Effect (fun _ _ => True) (fun e => e.isMemory = false) m →
      memoryAccesses (m s).trace = dataAccesses host ins s := by
    intro m hins hm
    rw [memoryAccesses_quiet (hm s).2, dataAccesses, if_neg hins]
  unfold dispatch
  cases hins : insType ins with
  | dataProcessingShift =>
    by_cases h : getBit ins 4 = true ∧ getBit ins 7 = true
    · simp only [if_pos h, hdrop]
      exact hsingle (by rw [hins]; decide) (Or.inl (Or.inr (Or.inr ⟨hins, h⟩)))
    · simp only [if_neg h, hdrop]
      refine hquiet _ ?_ (armDataProcessing_effect registerEffect_quiet host trivial)
      rintro ((h' | h' | ⟨-, h'⟩) | h') <;> simp_all
  | loadStoreImmediate =>
    simp only [hdrop]
    exact hsingle (by rw [hins]; decide) (Or.inl (Or.inl hins))
  | loadStoreRegister =>
    simp only [hdrop]
    exact hsingle (by rw [hins]; decide) (Or.inl (Or.inr (Or.inl hins)))
  | loadStoreMultiple =>
    simp only [hdrop, armLoadStoreMultiple_accesses]
    have hmemory : AccessesMemory ins := Or.inr hins
    rw [dataAccesses, if_pos hmemory, transferAddresses, if_pos hins, accessWidth, if_pos hins]
  | dataProcessingImmediate =>
    simp only [hdrop]
    exact hquiet _ (by simp [AccessesMemory, IsLoadStore, hins])
      (armDataProcessing_effect registerEffect_quiet host trivial)
  | branch =>
    simp only [hdrop]
    exact hquiet _ (by simp [AccessesMemory, IsLoadStore, hins])
      (armBranch_effect registerEffect_quiet trivial trivial ins)
  | coprocessorOthersSwi =>
    have hswi : (armCoprocessorOthersSwi ins s).trace = [] := by
      unfold armCoprocessorOthersSwi
      split_ifs <;> rfl
    have hnone : dataAccesses host ins s = [] := by
      simp [dataAccesses, AccessesMemory, IsLoadStore, hins]
    simp only [Traced.bind_trace, hswi, hnone]
    cases (armCoprocessorOthersSwi ins s).value <;> rfl
  | loadStoreCoproc =>
    simp [dataAccesses, AccessesMemory, IsLoadStore, hins]

theorem dispatch_accessesMemory_value (host : Host) (locals : Locals) {ins : BitVec 32}
    (h : AccessesMemory ins) (s : Core) : (dispatch host locals ins s).value = some 0 := by
  unfold dispatch
  rcases h with (h | h | ⟨h, h'⟩) | h
  · rw [h]
    rfl
  · rw [h]
    rfl
  · rw [h]
    simp only [if_pos h']
    rfl
  · rw [h]
    rfl

theorem executed_of_fetched {p : Core} {ins : BitVec 32} (hf : fetched p = .ok ins)
    (hc : executes (readCpsr p.reg) ins = true) : executed p = some ins := by
  rw [executed, hf]
  exact if_pos hc

theorem enterException_accesses (code : Option (BitVec 32)) (s : Core) :
    memoryAccesses (enterException code s).trace = [] := by
  cases code with
  | none => rfl
  | some code =>
    by_cases h : code = 0
    · subst h
      rfl
    · simp only [enterException, ne_eq, h, not_false_eq_true, if_true, Traced.bind_trace,
        armException_accesses, Traced.pure_apply, List.append_nil]

/-- Every access of a step to memory: the fetch, and the data accesses of the
instruction it executes. -/
theorem armStep_accesses (host : Host) (locals : Locals) (p : Core) :
    memoryAccesses (armStep host locals p).trace =
      .memory .read 4 .opcodeFetch (fetchAddress p.reg) (resultCode (fetched p)) ::
        match executed p with
        | some ins => dataAccesses host ins (afterFetch p)
        | none => [] := by
  have hcpsr : (armReadCpsr p).value = readCpsr p.reg := rfl
  have hstate : (armReadCpsr p).state = p := rfl
  have hquiet : memoryAccesses (armReadCpsr p).trace = [] := rfl
  rw [armStep_eq, Traced.bind_trace, memoryAccesses_append, enterException_accesses,
    List.append_nil]
  simp only [armExecuteInstruction, Traced.bind_trace, memoryAccesses_append, hcpsr, hstate,
    hquiet, armFetch_eq, List.nil_append, executed, memoryAccesses_register,
    memoryAccesses_memory, List.cons_append]
  cases hf : fetched p with
  | error code => rfl
  | ok ins =>
    by_cases hc : executes (readCpsr p.reg) ins = true
    · simp only [hc, if_true, dispatch_accesses]
    · simp only [hc, if_false, Bool.false_eq_true, Traced.pure_apply, memoryAccesses_nil]

end ArmSimulator
