/-
Where the program counter can point.

Reading the program counter clears bit 1, a load into it clears bit 0, and branches,
exceptions and the fetch itself move it by multiples of four.  What is left are the
writers that give it any word: data processing and MRS with the program counter for
destination, and the write-back of a single transfer whose base it is.  A run keeps
every fetch aligned exactly when none of them writes an odd word.
-/
import ArmSimulator.Proof.DataProcessing
import ArmSimulator.Proof.Transfers

namespace ArmSimulator

open Traced (Effect)

def PcEven (p : Core) : Prop := getBit (p.reg 15) 0 = false

theorem pcEven_iff (p : Core) : PcEven p ↔ (fetchAddress p.reg).toNat % 4 = 0 :=
  (fetchAddress_aligned_iff p.reg).symm

/-- The program counter as an instruction reads it, while its bit 0 is clear. -/
theorem PcEven.readPc {s : Core} (h : PcEven s) : (armReadRegister 15 s).value.toNat % 4 = 0 := by
  have hvalue : (armReadRegister 15 s).value = fetchAddress s.reg + 4 := by
    have hidx : (armReadRegister 15 s).value = pcBias 15 (s.reg 15) := by
      simp only [armReadRegister, readRegister, registerIndex_pc]
    rw [hidx, fetchAddress, BitVec.sub_add_cancel]
  have haligned := (pcEven_iff s).mp h
  rw [hvalue]
  bv_omega

theorem even_of_mod_four {v : BitVec 32} (h : v.toNat % 4 = 0) : getBit v 0 = false := by
  unfold getBit
  rw [← Bool.not_eq_true, Word.getLsbD_zero_iff]
  omega

theorem even_clear_bit_zero (v : BitVec 32) : getBit (v &&& 0xFFFFFFFE) 0 = false := by
  simp [getBit]

/-! ## The writers that give the program counter any word -/

/-- The word a data processing instruction writes to the program counter. -/
def dataProcessingTarget (host : Host) (ins : BitVec 32) (s : Core) : Option (BitVec 32) :=
  if regField ins 12 ≠ 15 then none
  else if isCompareOpcode ins then (if getBit ins 20 then none else mrsValue ins s.reg)
  else some (insResult host ins s)

/-- The word a single transfer writes back to the program counter.  With P clear the
offset is evaluated after the transfer. -/
def writeBackTarget (host : Host) (locals : Locals) (ins : BitVec 32) (s : Core) :
    Option (BitVec 32) :=
  if regField ins 16 = 15 ∧ (getBit ins 24 = false ∨ getBit ins 21 = true) then
    some (if getBit ins 24 then transferAddress host ins s
      else transferAddress host ins s + (addressingMode host ins
        (transferValue host locals ins (transferAddress host ins s) s).state).value)
  else none

def jumpTarget (host : Host) (locals : Locals) (ins : BitVec 32) (s : Core) :
    Option (BitVec 32) :=
  match insType ins with
  | .dataProcessingShift =>
    if getBit ins 4 ∧ getBit ins 7 then writeBackTarget host locals ins s
    else dataProcessingTarget host ins s
  | .dataProcessingImmediate => dataProcessingTarget host ins s
  | .loadStoreImmediate => writeBackTarget host locals ins s
  | .loadStoreRegister => writeBackTarget host locals ins s
  | _ => none

/-! ## Data processing -/

theorem writeRegister_pc_of_ne (r : Registers) {reg : Fin 16} (h : reg ≠ 15) (value : BitVec 32) :
    writeRegister r reg value 15 = r 15 :=
  Function.update_of_ne (registerIndex_ne_pc _ h).symm _ _

theorem writeRegister_pc (r : Registers) (value : BitVec 32) :
    writeRegister r 15 value 15 = value := by
  unfold writeRegister
  rw [registerIndex_pc, Function.update_self]

theorem writeCpsr_pc (r : Registers) (value : BitVec 32) : writeCpsr r value 15 = r 15 :=
  Function.update_of_ne (by decide) _ _

theorem pcKept : RegisterEffect (fun s t => t.reg 15 = s.reg 15) (fun _ => True) (· ≠ 15) where
  refl _ := rfl
  trans _ _ _ h h' := h'.trans h
  readRegister _ _ := ⟨rfl, fun _ _ => trivial⟩
  readCpsr _ := ⟨rfl, fun _ _ => trivial⟩
  readSpsr _ := ⟨rfl, fun _ _ => trivial⟩
  writeRegister h value s := ⟨writeRegister_pc_of_ne s.reg h value, fun _ _ => trivial⟩
  writeCpsr value s := ⟨writeCpsr_pc s.reg value, fun _ _ => trivial⟩

theorem compareMiscellaneous_pc {ins : BitVec 32} (hrd : regField ins 12 = 15) (s : Core) :
    (compareMiscellaneous ins s).state.reg 15 =
      (if getBit ins 20 then none else mrsValue ins s.reg).getD (s.reg 15) := by
  rw [compareMiscellaneous_state, armMiscellaneous_state]
  cases getBit ins 20 with
  | true => rfl
  | false =>
    cases mrsValue ins s.reg with
    | none => rfl
    | some value =>
      show writeRegister s.reg (regField ins 12) value 15 = value
      rw [hrd, writeRegister_pc]

theorem armDataProcessing_pc (host : Host) (ins : BitVec 32) (s : Core) :
    (armDataProcessing host ins s).state.reg 15 =
      (dataProcessingTarget host ins s).getD (s.reg 15) := by
  unfold dataProcessingTarget
  by_cases hrd : regField ins 12 = 15
  · rw [armDataProcessing_state, (dataProcessingStatus_effect pcKept _ _ _ _ _ _).1]
    unfold afterResult
    by_cases hc : isCompareOpcode ins = true
    · simp only [hrd, hc, if_true, ne_eq, not_true_eq_false, if_false]
      exact compareMiscellaneous_pc hrd s
    · simp only [hrd, hc, if_false, ne_eq, not_true_eq_false, Bool.false_eq_true,
        writeRegister_pc, Option.getD_some]
  · rw [(armDataProcessing_effect pcKept host hrd s).1, if_pos hrd]
    rfl

/-! ## Loads and stores -/

/-- A load into the program counter clears bit 0. -/
theorem transferValue_even (host : Host) (locals : Locals) (ins a : BitVec 32) {s : Core}
    (h : PcEven s) : PcEven (transferValue host locals ins a s).state := by
  unfold transferValue PcEven
  by_cases hload : getBit ins 20 = true
  · simp only [hload, if_true, Traced.bind_state, Traced.pure_apply, loadValue_state]
    generalize (loadValue host locals ins a s).value = val
    by_cases hrd : regField ins 12 = 15
    · have hidx : ((15 : Fin 16) : Nat) = 15 := rfl
      split
      · simp only [armWriteUsrRegister, writeUsrRegister, hrd, hidx, Function.update_self]
        exact even_clear_bit_zero val
      · simp only [armWriteRegister, hrd, writeRegister_pc]
        exact even_clear_bit_zero val
    · have hne : (15 : Nat) ≠ (regField ins 12 : Nat) := fun heq => hrd (Fin.ext heq.symm)
      split
      · simp only [armWriteUsrRegister, writeUsrRegister, Function.update_of_ne hne]
        exact h
      · simp only [armWriteRegister, writeRegister_pc_of_ne _ hrd]
        exact h
  · simp only [hload, Bool.false_eq_true, if_false, Traced.bind_state, storeValue_reg]
    split <;> exact h

theorem armLoadStore_even_iff (host : Host) (locals : Locals) (ins : BitVec 32) {s : Core}
    (h : PcEven s) :
    PcEven (armLoadStore host locals ins s).state ↔
      ∀ v ∈ writeBackTarget host locals ins s, getBit v 0 = false := by
  have heven := transferValue_even host locals ins (transferAddress host ins s) h
  unfold writeBackTarget
  rw [armLoadStore_state]
  by_cases hwrite : getBit ins 24 = false ∨ getBit ins 21 = true
  · by_cases hrn : regField ins 16 = 15
    · simp only [hwrite, hrn, and_self, if_true, Option.mem_some_iff, forall_eq', PcEven,
        writeRegister_pc]
    · simp only [hwrite, hrn, if_true, false_and, if_false, Option.not_mem_none,
        IsEmpty.forall_iff, implies_true, iff_true]
      simp only [PcEven, writeRegister_pc_of_ne _ hrn]
      exact heven
  · simp only [hwrite, if_false, and_false, Option.not_mem_none, IsEmpty.forall_iff, implies_true,
      iff_true]
    exact heven

theorem blockStep_even (isLoad : Bool) (ri : Fin 16) (b : Block) {s : Core} (h : PcEven s) :
    PcEven (blockStep isLoad ri b s).state := by
  cases isLoad with
  | false => exact h
  | true =>
    have hread := (readInto_outcome b.val (fun _ word => word) (armReadWord b.address) s).1
    simp only [blockStep, if_true, Traced.bind_state, Traced.pure_apply, hread]
    unfold PcEven
    by_cases hri : ri = 15
    · simp only [hri, if_true, armWriteRegister, writeRegister_pc]
      exact even_clear_bit_zero _
    · simp only [armWriteRegister, writeRegister_pc_of_ne _ hri]
      exact h

theorem blockTransfer_even (isLoad : Bool) (regs : List (Fin 16)) (b : Block) {s : Core}
    (h : PcEven s) : PcEven (blockTransfer isLoad regs b s).state := by
  induction regs generalizing b s with
  | nil => exact h
  | cons ri rest ih =>
    rw [blockTransfer, Traced.bind_state]
    exact ih _ (blockStep_even isLoad ri b h)

theorem blockBase_even (ins : BitVec 32) {base : BitVec 32} (h : base.toNat % 4 = 0)
    (count : BitVec 8) : getBit (blockBase ins base count) 0 = false := by
  apply even_of_mod_four
  have hcount := count.isLt
  have hwidth : (count.setWidth 32).toNat = count.toNat := by
    rw [BitVec.toNat_setWidth]
    omega
  have hbytes : (count.setWidth 32 * 4).toNat = count.toNat * 4 := by
    have h4 : (4 : BitVec 32).toNat = 4 := rfl
    rw [BitVec.toNat_mul, hwidth, h4]
    omega
  unfold blockBase
  split
  · rw [BitVec.toNat_add, hbytes]
    omega
  · rw [BitVec.toNat_sub, hbytes]
    omega

theorem armLoadStoreMultiple_even (locals : Locals) (ins : BitVec 32) {s : Core} (h : PcEven s) :
    PcEven (armLoadStoreMultiple locals ins s).state := by
  have hbase : (armReadRegister (regField ins 16) s).state = s := rfl
  simp only [armLoadStoreMultiple, Traced.bind_state, Traced.pure_apply, blockLoop_eq, hbase]
  split
  · unfold PcEven
    by_cases hrn : regField ins 16 = 15
    · simp only [armWriteRegister, hrn, writeRegister_pc]
      exact blockBase_even ins h.readPc _
    · simp only [armWriteRegister, writeRegister_pc_of_ne _ hrn]
      exact blockTransfer_even _ _ _ h
  · exact blockTransfer_even _ _ _ h

/-! ## Branches -/

theorem armBranch_even (ins : BitVec 32) {s : Core} (h : PcEven s) :
    PcEven (armBranch ins s).state := by
  have hlink : PcEven ((if getBit ins 24 then armBranchLink else pure ()) s).state := by
    split
    · have hne : (14 : Fin 16) ≠ 15 := by decide
      simp only [armBranchLink, Traced.bind_state, armWriteRegister, PcEven,
        writeRegister_pc_of_ne _ hne]
      exact h
    · exact h
  simp only [armBranch, Traced.bind_state, Traced.pure_apply]
  generalize ((if getBit ins 24 then armBranchLink else pure ()) s).state = t at hlink
  have hpc := hlink.readPc
  have hread : (armReadRegister 15 t).state = t := rfl
  unfold PcEven
  simp only [armWriteRegister, writeRegister_pc, hread]
  apply even_of_mod_four
  rw [BitVec.toNat_add, BitVec.toNat_shiftLeft, Nat.shiftLeft_eq]
  omega

/-! ## Steps and runs -/

theorem dispatch_even_iff (host : Host) (locals : Locals) (ins : BitVec 32) {s : Core}
    (h : PcEven s) :
    PcEven (dispatch host locals ins s).state ↔
      ∀ v ∈ jumpTarget host locals ins s, getBit v 0 = false := by
  have hdata : PcEven (armDataProcessing host ins s).state ↔
      ∀ v ∈ dataProcessingTarget host ins s, getBit v 0 = false := by
    unfold PcEven
    rw [armDataProcessing_pc]
    cases dataProcessingTarget host ins s with
    | none => simpa [PcEven] using h
    | some v => simp
  have hnone : ∀ t : Core, PcEven t →
      (PcEven t ↔ ∀ v ∈ (none : Option (BitVec 32)), getBit v 0 = false) :=
    fun t ht => iff_of_true ht fun v hv => absurd hv (Option.not_mem_none v)
  unfold dispatch jumpTarget
  cases insType ins with
  | dataProcessingShift =>
    by_cases hhalf : getBit ins 4 = true ∧ getBit ins 7 = true
    · simp only [if_pos hhalf, Traced.bind_state, Traced.pure_apply]
      exact armLoadStore_even_iff host locals ins h
    · simp only [if_neg hhalf, Traced.bind_state, Traced.pure_apply]
      exact hdata
  | dataProcessingImmediate =>
    simp only [Traced.bind_state, Traced.pure_apply]
    exact hdata
  | loadStoreImmediate | loadStoreRegister =>
    simp only [Traced.bind_state, Traced.pure_apply]
    exact armLoadStore_even_iff host locals ins h
  | loadStoreMultiple =>
    simp only [Traced.bind_state, Traced.pure_apply]
    exact hnone _ (armLoadStoreMultiple_even locals ins h)
  | branch =>
    simp only [Traced.bind_state, Traced.pure_apply]
    exact hnone _ (armBranch_even ins h)
  | loadStoreCoproc => exact hnone _ h
  | coprocessorOthersSwi =>
    refine hnone _ ?_
    simp only [Traced.bind_state]
    have hstate : (armCoprocessorOthersSwi ins s).state = s := by
      unfold armCoprocessorOthersSwi
      split_ifs <;> rfl
    cases (armCoprocessorOthersSwi ins s).value <;> rw [hstate] <;> exact h

theorem armException_even (exception : BitVec 8) (p : Core) :
    PcEven (armException exception p).state := by
  have hpc : (armException exception p).state.reg 15 = exceptionVector exception := by
    simp only [armException, Traced.bind_state, armWriteUsrRegister, writeUsrRegister]
    exact Function.update_self _ _ _
  unfold PcEven
  rw [hpc]
  apply even_of_mod_four
  unfold exceptionVector
  bv_omega

/-- The step executes an instruction that gives the program counter an odd word. -/
def WritesOddPc (host : Host) (locals : Locals) (p : Core) : Prop :=
  ∃ ins, fetched p = .ok ins ∧ executes (readCpsr p.reg) ins = true ∧
    ∃ v ∈ jumpTarget host locals ins (afterFetch p), getBit v 0 = true

theorem afterFetch_even {p : Core} (h : PcEven p) : PcEven (afterFetch p) := by
  have haligned := (pcEven_iff p).mp h
  apply even_of_mod_four
  show (Function.update p.reg 15 (fetchAddress p.reg + 4) 15).toNat % 4 = 0
  rw [Function.update_self]
  bv_omega

theorem armStep_even_iff (host : Host) (locals : Locals) {p : Core} (h : PcEven p) :
    PcEven (armStep host locals p).state ↔ ¬WritesOddPc host locals p := by
  unfold WritesOddPc
  cases hf : fetched p with
  | error code =>
    refine iff_of_true ?_ fun ⟨ins, hins, _⟩ => by cases hins
    rw [(armStep_of_rejected host locals hf).2]
    exact armException_even _ _
  | ok ins =>
    by_cases hc : executes (readCpsr p.reg) ins = true
    · have hdispatch := dispatch_even_iff host locals ins (afterFetch_even h)
      have htarget : (∀ v ∈ jumpTarget host locals ins (afterFetch p), getBit v 0 = false) ↔
          ¬∃ ins', (Except.ok ins : Except (BitVec 32) (BitVec 32)) = .ok ins' ∧
            executes (readCpsr p.reg) ins' = true ∧
            ∃ v ∈ jumpTarget host locals ins' (afterFetch p), getBit v 0 = true := by
        simp [hc]
      rw [← htarget, ← hdispatch, (armStep_of_dispatch host locals hf hc).2]
      by_cases htype : insType ins = .loadStoreCoproc
      · rw [dispatch_loadStoreCoproc host locals htype, enterException_of_ne (by decide)]
        exact iff_of_true (armException_even _ _) (afterFetch_even h)
      · rcases dispatch_value_cases host locals ins (afterFetch p) htype with hv | hv
        · rw [hv, enterException_zero]
        · rw [hv, enterException_none]
    · have hskip : executes (readCpsr p.reg) ins = false := by simpa using hc
      rw [(armStep_of_skipped host locals hf hskip).2]
      refine iff_of_true (afterFetch_even h) ?_
      rintro ⟨ins', hins, hc', -⟩
      cases hins
      exact hc hc'

/-- None of the steps of the calls, as far as they are performed, writes an odd word to
the program counter. -/
def NoOddPc (host : Host) : List Call → Core → Prop
  | [], _ => True
  | .step locals :: rest, p =>
    ¬WritesOddPc host locals p ∧
      ((armStep host locals p).value ≠ none → NoOddPc host rest (armStep host locals p).state)
  | .exception code :: rest, p => NoOddPc host rest (armException code p).state

theorem runCalls_even_iff (host : Host) (calls : List Call) {p : Core} (h : PcEven p) :
    (∀ n, PcEven (runCalls host (calls.take n) p).state) ↔ NoOddPc host calls p := by
  induction calls generalizing p with
  | nil =>
    refine iff_of_true (fun n => ?_) trivial
    rw [List.take_nil]
    exact h
  | cons call rest ih =>
    -- The states after the first call are those of the rest, if the rest is performed.
    have hsplit : (∀ n, PcEven (runCalls host ((call :: rest).take n) p).state) ↔
        ∀ n, PcEven (runCalls host (call :: rest.take n) p).state := by
      constructor
      · intro hall n
        exact hall (n + 1)
      · intro hall n
        cases n with
        | zero => exact h
        | succ n => exact hall n
    rw [hsplit]
    unfold runCalls at ih ⊢
    cases call with
    | exception code =>
      have hvalue : (Call.run host (.exception code) p).value = some 0 := rfl
      simp only [(Traced.runAll_cons_some hvalue _).2]
      exact ih (armException_even code p)
    | step locals =>
      have hstep := armStep_even_iff host locals h
      unfold NoOddPc
      rw [← hstep]
      cases hvalue : (armStep host locals p).value with
      | none =>
        have hrun := fun n => (Traced.runAll_cons_none (f := Call.run host) (i := .step locals)
          hvalue (rest.take n)).2
        simp only [hrun]
        exact ⟨fun hall => ⟨hall 0, fun hne => absurd rfl hne⟩, fun hall _ => hall.1⟩
      | some code =>
        have hrun := fun n => (Traced.runAll_cons_some (f := Call.run host) (i := .step locals)
          hvalue (rest.take n)).2
        simp only [hrun]
        constructor
        · intro hall
          have hnext : PcEven (armStep host locals p).state := hall 0
          exact ⟨hnext, fun _ => (ih hnext).mp hall⟩
        · rintro ⟨hnext, hrest⟩
          exact (ih hnext).mpr (hrest (by simp))

theorem armCreate_even (reg : Registers) (mem : Memory) : PcEven (armCreate reg mem) :=
  armException_even 1 { cycleCount := 0, reg := reg, mem := mem }

/-- Along a run from `arm_create` every fetch is at a multiple of four exactly when no
step writes an odd word to the program counter. -/
theorem fetch_aligned_iff (host : Host) (reg : Registers) (mem : Memory) (calls : List Call) :
    (∀ n, (fetchAddress
        (runCalls host (calls.take n) (armCreate reg mem)).state.reg).toNat % 4 = 0) ↔
      NoOddPc host calls (armCreate reg mem) := by
  simp only [← pcEven_iff]
  exact runCalls_even_iff host calls (armCreate_even reg mem)

/-- `MOV PC, #1` makes the next fetch at address 1. -/
theorem mov_odd_pc_fetches_unaligned :
    (fetchAddress (runCalls (.modular false) [.step ⟨0, 0⟩]
      (armCreate (fun _ => 0) (memoryOfWords false 64 [0xE3A0F001]))).state.reg).toNat = 1 := by
  decide +kernel


end ArmSimulator
