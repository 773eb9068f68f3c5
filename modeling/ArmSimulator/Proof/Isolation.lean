/-
A program in user mode neither changes nor observes the other modes.

Two cores in user mode that agree on what the mode shows, the memory, r0 to r15,
the CPSR and the cycle count, execute the same instructions with the same
results.  Neither execution writes an index from 17 on, where the banked registers
and the SPSRs are, nor a bit of the CPSR below the flags.
-/
import ArmSimulator.Proof.Respects

namespace ArmSimulator

open Traced (Sim)

/-- The two cores agree on everything user mode shows. -/
structure UserView (p q : Core) : Prop where
  mem : q.mem = p.mem
  cycleCount : q.cycleCount = p.cycleCount
  reg : ∀ i, i ≤ cpsrIndex → q.reg i = p.reg i

/-- A status word with the bits 27 to 0 of the CPSR of `p`. -/
def SameStatus (p : Core) (psr : BitVec 32) : Prop :=
  ∀ b, b < 28 → getBit psr b = getBit (readCpsr p.reg) b

/-- The relation between two runs from `p` and `q`: the cores agree in user mode,
and each still has the banks it started with. -/
structure Isolated (p q s t : Core) : Prop where
  view : UserView s t
  left : ∀ i, cpsrIndex < i → s.reg i = p.reg i
  right : ∀ i, cpsrIndex < i → t.reg i = q.reg i
  status : SameStatus p (readCpsr s.reg)

section

variable {p q : Core} (hmode : getMode p.reg = Mode.usr)

namespace Isolated

variable {s t : Core}

theorem readCpsr_eq (h : Isolated p q s t) : readCpsr t.reg = readCpsr s.reg :=
  h.view.reg cpsrIndex (Nat.le_refl _)

include hmode in
theorem mode_left (h : Isolated p q s t) : getMode s.reg = Mode.usr := by
  rw [← hmode]
  exact modeField_eq_of_getBit fun i hi => h.status i (by omega)

include hmode in
theorem mode_right (h : Isolated p q s t) : getMode t.reg = Mode.usr := by
  unfold getMode
  rw [h.readCpsr_eq]
  exact h.mode_left hmode

theorem update (h : Isolated p q s t) {i : Nat} (hi : i ≤ cpsrIndex) {value : BitVec 32}
    (hv : i = cpsrIndex → SameStatus p value) :
    Isolated p q { s with reg := Function.update s.reg i value }
      { t with reg := Function.update t.reg i value } where
  view := by
    refine ⟨h.view.mem, h.view.cycleCount, fun j hj => ?_⟩
    simp only [Function.update_apply]
    rw [h.view.reg j hj]
  left j hj := by
    have hne : j ≠ i := by omega
    simp only [Function.update_of_ne hne]
    exact h.left j hj
  right j hj := by
    have hne : j ≠ i := by omega
    simp only [Function.update_of_ne hne]
    exact h.right j hj
  status := by
    by_cases he : i = cpsrIndex
    · subst he
      have hw : readCpsr (Function.update s.reg cpsrIndex value) = value := readCpsr_writeCpsr _ _
      rw [hw]
      exact hv rfl
    · rw [readCpsr_update_of_ne _ he]
      exact h.status

end Isolated

include hmode in
theorem readRegister_isolated {s t : Core} (h : Isolated p q s t) (reg : Fin 16) :
    armReadRegister reg t =
      { armReadRegister reg s with state := t } := by
  have hle : (reg : Nat) ≤ cpsrIndex := by
    unfold cpsrIndex
    omega
  simp only [armReadRegister, readRegister, h.mode_left hmode, h.mode_right hmode,
    registerIndex_usr, h.view.reg reg hle]

theorem armRead_isolated {α : Type} (size : Nat) (cause : Cause)
    (read : Memory → BitVec 32 → Except (BitVec 32) α) (address : BitVec 32) :
    Sim (Isolated p q) (fun _ => True) (fun _ => True) (fun _ => True)
      (armRead size cause read address) (armRead size cause read address) := by
  intro s t h _
  simp only [armRead, h.view.mem]
  exact ⟨trivial, trivial, h, trivial, fun _ _ => trivial⟩

theorem armWrite_isolated {α : Type} (size : Nat)
    (write : Memory → BitVec 32 → α → Except (BitVec 32) Memory) (address : BitVec 32)
    (value : α) :
    Sim (Isolated p q) (fun _ => True) (fun _ => True) (fun _ => True)
      (armWrite size write address value) (armWrite size write address value) := by
  intro s t h _
  simp only [armWrite, h.view.mem]
  refine ⟨trivial, trivial, ?_, trivial, fun _ _ => trivial⟩
  exact ⟨⟨rfl, h.view.cycleCount, h.view.reg⟩, h.left, h.right, h.status⟩

include hmode in
theorem isolated_respects :
    Respects (Isolated p q) (fun _ => True) (fun _ => True) (SameStatus p) where
  countCycle := by
    intro s t h _
    refine ⟨rfl, rfl, ?_, trivial, fun _ _ => trivial⟩
    exact ⟨⟨h.view.mem, congrArg (· + 1) h.view.cycleCount, h.view.reg⟩, h.left, h.right, h.status⟩
  readRegister reg := by
    intro s t h _
    rw [readRegister_isolated hmode h reg]
    exact ⟨rfl, rfl, h, trivial, fun _ _ => trivial⟩
  readUsrRegister reg := by
    intro s t h _
    have hle : (reg : Nat) ≤ cpsrIndex := by
      unfold cpsrIndex
      omega
    refine ⟨?_, ?_, h, trivial, fun _ _ => trivial⟩
    · simp only [armReadUsrRegister, readUsrRegister, h.view.reg reg hle]
    · simp only [armReadUsrRegister, h.mode_left hmode, h.mode_right hmode]
  readCpsr := by
    intro s t h _
    refine ⟨h.readCpsr_eq, ?_, h, h.status, fun _ _ => trivial⟩
    simp only [armReadCpsr, h.mode_left hmode, h.mode_right hmode]
  readSpsr := by
    refine readSpsr_respects fun s t h => ?_
    have hs : currentModeHasSpsr s.reg = false := by
      simp [currentModeHasSpsr, h.mode_left hmode]
    have ht : currentModeHasSpsr t.reg = false := by
      simp [currentModeHasSpsr, h.mode_right hmode]
    exact ⟨ht.trans hs.symm, fun htrue => by simp [hs] at htrue⟩
  writeRegister reg value := by
    intro s t h _
    have hle : (reg : Nat) ≤ cpsrIndex := by
      unfold cpsrIndex
      omega
    simp only [armWriteRegister, writeRegister, h.mode_left hmode, h.mode_right hmode,
      registerIndex_usr]
    exact ⟨trivial, trivial, h.update hle (by unfold cpsrIndex; omega), trivial, fun _ _ => trivial⟩
  writeUsrRegister reg value := by
    intro s t h _
    have hle : (reg : Nat) ≤ cpsrIndex := by
      unfold cpsrIndex
      omega
    simp only [armWriteUsrRegister, writeUsrRegister, h.mode_left hmode, h.mode_right hmode]
    exact ⟨trivial, trivial, h.update hle (by unfold cpsrIndex; omega), trivial, fun _ _ => trivial⟩
  writeCpsr hv := by
    intro s t h _
    simp only [armWriteCpsr, writeCpsr, h.mode_left hmode, h.mode_right hmode]
    exact ⟨trivial, trivial, h.update (Nat.le_refl _) fun _ => hv, trivial, fun _ _ => trivial⟩
  changeFlag b hn hn' hv := by
    intro i hi
    rw [getBit_changeBit _ hn', if_neg (by omega)]
    exact hv i hi
  readOpcode _ := armRead_isolated _ _ _ _
  readByte _ := armRead_isolated _ _ _ _
  readHalf _ := armRead_isolated _ _ _ _
  readWord _ := armRead_isolated _ _ _ _
  writeByte _ _ := armWrite_isolated _ _ _ _
  writeHalf _ _ := armWrite_isolated _ _ _ _
  writeWord _ _ := armWrite_isolated _ _ _ _

include hmode in
/-- One step of two isolated cores: the codes are equal, and the cores stay
isolated when the code is 0. -/
theorem armStep_isolated (host : Host) (locals : Locals) {s t : Core} (h : Isolated p q s t) :
    (armStep host locals t).value = (armStep host locals s).value ∧
      ((armStep host locals s).value = some 0 →
        Isolated p q (armStep host locals s).state (armStep host locals t).state) := by
  obtain ⟨hv, -, h', -, -⟩ :=
    armExecuteInstruction_respects (isolated_respects hmode) host locals s t h fun _ _ => trivial
  rw [armStep_value, armStep_value]
  refine ⟨hv, fun hzero => ?_⟩
  rw [armStep_state_of_zero hzero, armStep_state_of_zero (hv.trans hzero)]
  exact h'

include hmode in
theorem runSteps_isolated (host : Host) (locals : List Locals) {s t : Core}
    (h : Isolated p q s t)
    (hzero : ∀ r ∈ (runCalls host (locals.map Call.step) s).value, r = some 0) :
    (runCalls host (locals.map Call.step) t).value =
        (runCalls host (locals.map Call.step) s).value ∧
      Isolated p q (runCalls host (locals.map Call.step) s).state
        (runCalls host (locals.map Call.step) t).state := by
  induction locals generalizing s t with
  | nil => exact ⟨rfl, h⟩
  | cons l rest ih =>
    obtain ⟨hv, hnext⟩ := armStep_isolated hmode host l h
    unfold runCalls at hzero ih ⊢
    simp only [List.map_cons] at hzero ⊢
    cases hs : (armStep host l s).value with
    | none =>
      have hrun := Traced.runAll_cons_none (f := Call.run host) (i := .step l) hs
        (rest.map Call.step)
      rw [hrun.1] at hzero
      exact absurd (hzero none (by simp)) (by simp)
    | some code =>
      obtain ⟨hval, hstate⟩ := Traced.runAll_cons_some (f := Call.run host) (i := .step l) hs
        (rest.map Call.step)
      obtain ⟨hval', hstate'⟩ := Traced.runAll_cons_some (f := Call.run host) (i := .step l)
        (hv.trans hs) (rest.map Call.step)
      rw [hval] at hzero
      have hcode : some code = some 0 := hzero _ (by simp)
      obtain ⟨hv', h'⟩ := ih (hnext (hs.trans hcode))
        (fun r hr => hzero r (List.mem_cons_of_mem _ hr))
      rw [hval, hval', hstate, hstate']
      exact ⟨congrArg _ hv', h'⟩

end

/-- User-mode isolation.  Over every run of steps that all return 0, a core in
user mode keeps every banked register, every SPSR and the CPSR below its flags,
and a core that agrees with it in user mode returns the same codes and still
agrees with it.  The two also return the same code for the step after the run. -/
theorem user_isolation (host : Host) (locals : List Locals) {p q : Core}
    (hmode : getMode p.reg = Mode.usr) (hview : UserView p q)
    (hzero : ∀ r ∈ (runCalls host (locals.map Call.step) p).value, r = some 0) :
    let o := runCalls host (locals.map Call.step) p
    let o' := runCalls host (locals.map Call.step) q
    (∀ i, cpsrIndex < i → i < registersSize → o.state.reg i = p.reg i) ∧
      (∀ b, b < 28 → getBit (readCpsr o.state.reg) b = getBit (readCpsr p.reg) b) ∧
      o'.value = o.value ∧ UserView o.state o'.state ∧
      ∀ l, (armStep host l o'.state).value = (armStep host l o.state).value := by
  have start : Isolated p q p q :=
    ⟨hview, fun _ _ => rfl, fun _ _ => rfl, fun _ _ => rfl⟩
  obtain ⟨hv, h⟩ := runSteps_isolated hmode host locals start hzero
  exact ⟨fun i hi _ => h.left i hi, h.status, hv, h.view,
    fun l => (armStep_isolated hmode host l h).1⟩

/-- A core in user mode with `fill` in every bank, about to set a flag, to copy
the CPSR and to push two registers. -/
def userCore (fill : BitVec 32) : Core where
  cycleCount := 0
  reg i := if i = cpsrIndex then 0x10 else if i < cpsrIndex then 0 else fill
  mem := memoryOfWords true 0x40 [0xE3B0D03C, 0xE10F1000, 0xE92D0003]

theorem userCore_view (fill fill' : BitVec 32) : UserView (userCore fill) (userCore fill') where
  mem := rfl
  cycleCount := rfl
  reg i hi := by
    unfold userCore
    by_cases he : i = cpsrIndex
    · simp [he]
    · simp [he, Nat.lt_of_le_of_ne hi he]

theorem userCore_run :
    (runCalls (Host.modular false) ([⟨0, 0⟩, ⟨1, 1⟩, ⟨2, 2⟩].map Call.step) (userCore 0)).value =
      [some 0, some 0, some 0] := by
  decide +kernel

theorem user_isolation_userCore :
    let o := runCalls (Host.modular false)
      ([⟨0, 0⟩, ⟨1, 1⟩, ⟨2, 2⟩].map Call.step) (userCore 0)
    let o' := runCalls (Host.modular false)
      ([⟨0, 0⟩, ⟨1, 1⟩, ⟨2, 2⟩].map Call.step) (userCore 0xFFFFFFFF)
    (∀ i, cpsrIndex < i → i < registersSize → o.state.reg i = (userCore 0).reg i) ∧
      (∀ b, b < 28 → getBit (readCpsr o.state.reg) b = getBit (readCpsr (userCore 0).reg) b) ∧
      o'.value = o.value ∧ UserView o.state o'.state ∧
      ∀ l, (armStep (Host.modular false) l o'.state).value =
        (armStep (Host.modular false) l o.state).value :=
  user_isolation _ _ (by decide) (userCore_view _ _) (by rw [userCore_run]; simp)

end ArmSimulator
