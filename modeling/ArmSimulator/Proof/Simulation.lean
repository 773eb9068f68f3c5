/-
The simulator against the processor a program sees.

`view` forgets the banks, the mode and the flags C and V.  A step that the architecture
defines is the step of the simulator, seen through it, and what the program does not see
stays: the rest of the status word and the registers of the other banks.
-/
import ArmSimulator.Proof.Assembly
import ArmSimulator.Proof.Calls
import ArmSimulator.Proof.SingleTransfers
import ArmSimulator.Proof.SubwordLoads

namespace ArmSimulator

namespace Assembly

/-! ## What a program sees -/

def view (p : Core) : State where
  reg r := if r = 15 then fetchAddress p.reg else readRegister p.reg r
  n := getBit (readCpsr p.reg) Flag.n
  z := getBit (readCpsr p.reg) Flag.z
  mem := p.mem

theorem fetchAddress_congr {r r' : Registers} (h : r' 15 = r 15) :
    fetchAddress r' = fetchAddress r := by
  unfold fetchAddress
  rw [h]

theorem read_view (p : Core) (r : Fin 16) :
    (view p).read r = (armReadRegister r (afterFetch p)).value := by
  unfold State.read
  by_cases h : r = 15
  · subst h
    exact (armReadRegister_pc p).symm
  · rw [if_neg h, armReadRegister_value_of_ne h, readRegister_afterFetch p h]
    exact if_neg h

theorem view_pc (p : Core) : (view p).reg 15 = fetchAddress p.reg := rfl

theorem view_reg_of_ne (p : Core) {r : Fin 16} (h : r ≠ 15) :
    (view p).reg r = readRegister p.reg r := if_neg h

theorem view_mk (cycles : BitVec 32) {reg : Registers} {mem : Memory} {t : State}
    (hpc : fetchAddress reg = t.reg 15) (hreg : ∀ r, r ≠ 15 → readRegister reg r = t.reg r)
    (hn : getBit (readCpsr reg) Flag.n = t.n) (hz : getBit (readCpsr reg) Flag.z = t.z)
    (hmem : mem = t.mem) : view { cycleCount := cycles, reg := reg, mem := mem } = t := by
  unfold view
  rw [hn, hz, hmem]
  congr 1
  funext r
  by_cases hr : r = 15
  · rw [if_pos hr, hpc, hr]
  · rw [if_neg hr, hreg r hr]

theorem view_writeRegister (s : Core) {r : Fin 16} (h : r ≠ 15) (value : BitVec 32) :
    view { s with reg := writeRegister s.reg r value } = (view s).write r value := by
  have hcpsr := readCpsr_writeRegister s.reg r value
  refine view_mk _ ?_ (fun r' hr' => ?_) (by rw [hcpsr]; rfl) (by rw [hcpsr]; rfl) rfl
  · rw [State.write_reg_of_ne _ (Ne.symm h), view_pc]
    exact fetchAddress_congr (Function.update_of_ne (registerIndex_ne_pc _ h).symm _ _)
  · by_cases heq : r' = r
    · subst heq
      rw [readRegister_writeRegister_self, State.write_reg_self]
    · rw [State.write_reg_of_ne _ heq, view_reg_of_ne s hr']
      unfold readRegister
      rw [getMode_writeRegister]
      exact Function.update_of_ne (fun h => heq (registerIndex_injective_any _ h)) _ _

/-- The program counter keeps a target whose bit 1 is clear. -/
theorem view_writePc (s : Core) {target : BitVec 32} (h : getBit target 1 = false) :
    view { s with reg := writeRegister s.reg 15 target } = (view s).write 15 target := by
  have hcpsr := readCpsr_writeRegister s.reg 15 target
  have h15 : writeRegister s.reg 15 target 15 = target := by
    unfold writeRegister
    rw [registerIndex_pc, Function.update_self]
  refine view_mk _ ?_ (fun r hr => ?_) (by rw [hcpsr]; rfl) (by rw [hcpsr]; rfl) rfl
  · rw [State.write_reg_self, fetchAddress_of_getBit (by rw [h15, h]), h15]
  · rw [State.write_reg_of_ne _ hr, view_reg_of_ne s hr]
    unfold readRegister
    rw [getMode_writeRegister, writeRegister, registerIndex_pc]
    exact Function.update_of_ne (registerIndex_ne_pc _ hr) _ _

theorem view_writeCpsr (s : Core) {cpsr : BitVec 32} (h : modeField cpsr = getMode s.reg) :
    view { s with reg := writeCpsr s.reg cpsr } =
      { view s with n := getBit cpsr Flag.n, z := getBit cpsr Flag.z } := by
  have hmode : getMode (writeCpsr s.reg cpsr) = getMode s.reg := by
    unfold getMode at h ⊢
    rw [readCpsr_writeCpsr, h]
  have h15 : writeCpsr s.reg cpsr 15 = s.reg 15 := Function.update_of_ne (by decide) _ _
  have hreg : ∀ r, readRegister (writeCpsr s.reg cpsr) r = readRegister s.reg r := by
    intro r
    unfold readRegister
    rw [hmode]
    exact Function.update_of_ne (registerIndex_ne_cpsr _ _) _ _
  exact view_mk _ (fetchAddress_congr h15)
    (fun r hr => (hreg r).trans (view_reg_of_ne s hr).symm) (by rw [readCpsr_writeCpsr])
    (by rw [readCpsr_writeCpsr]) rfl

theorem view_afterFetch (p : Core) : view (afterFetch p) = (view p).next := by
  have hbit : getBit (fetchAddress p.reg + 4) 1 = false :=
    (Word.getLsbD_one_add_four _).trans (getLsbD_one_fetchAddress p.reg)
  rw [State.next, view_pc, ← view_writePc p hbit]
  unfold writeRegister
  rw [registerIndex_pc]
  rfl

/-! ## What a program does not see -/

structure Confined (r r' : Registers) : Prop where
  status : ∀ i, i < 28 → getBit (readCpsr r') i = getBit (readCpsr r) i
  banked : ∀ i, i ≠ cpsrIndex → (∀ reg, i ≠ registerIndex (getMode r) reg) → r' i = r i

theorem Confined.getMode_eq {r r' : Registers} (h : Confined r r') : getMode r' = getMode r :=
  modeField_eq_of_getBit fun i hi => h.status i (by omega)

theorem Confined.refl (r : Registers) : Confined r r := ⟨fun _ _ => rfl, fun _ _ _ => rfl⟩

theorem Confined.trans {r r' r'' : Registers} (h : Confined r r') (h' : Confined r' r'') :
    Confined r r'' where
  status i hi := (h'.status i hi).trans (h.status i hi)
  banked i hi hreg := (h'.banked i hi (h.getMode_eq ▸ hreg)).trans (h.banked i hi hreg)

theorem confined_writeRegister (r : Registers) (reg : Fin 16) (value : BitVec 32) :
    Confined r (writeRegister r reg value) where
  status i _ := by rw [readCpsr_writeRegister]
  banked i _ hreg := Function.update_of_ne (hreg reg) _ _

theorem confined_writeCpsr (r : Registers) {cpsr : BitVec 32}
    (h : ∀ i, i < 28 → getBit cpsr i = getBit (readCpsr r) i) : Confined r (writeCpsr r cpsr) where
  status i hi := by rw [readCpsr_writeCpsr, h i hi]
  banked i hi _ := Function.update_of_ne hi _ _

theorem confined_afterFetch (p : Core) : Confined p.reg (afterFetch p).reg := by
  have h := confined_writeRegister p.reg 15 (fetchAddress p.reg + 4)
  unfold writeRegister at h
  rw [registerIndex_pc] at h
  exact h

/-- The core `q` shows the program the state `t`, and is otherwise `p` after `n` cycles. -/
structure Simulates (p : Core) (n : Nat) (t : State) (q : Core) : Prop where
  shows : view q = t
  confined : Confined p.reg q.reg
  cycles : q.cycleCount = p.cycleCount + BitVec.ofNat 32 n

theorem simulates_afterFetch (p : Core) : Simulates p 1 (view p).next (afterFetch p) :=
  ⟨view_afterFetch p, confined_afterFetch p, rfl⟩

namespace Simulates

variable {p q : Core} {n : Nat} {t : State}

theorem writeRegister (h : Simulates p n t q) {r : Fin 16} (hr : r ≠ 15) (value : BitVec 32) :
    Simulates p n (t.write r value)
      { q with reg := ArmSimulator.writeRegister q.reg r value } where
  shows := by rw [view_writeRegister q hr, h.shows]
  confined := h.confined.trans (confined_writeRegister q.reg r value)
  cycles := h.cycles

theorem writePc (h : Simulates p n t q) {target : BitVec 32} (htarget : getBit target 1 = false) :
    Simulates p n (t.write 15 target)
      { q with reg := ArmSimulator.writeRegister q.reg 15 target } where
  shows := by rw [view_writePc q htarget, h.shows]
  confined := h.confined.trans (confined_writeRegister q.reg 15 target)
  cycles := h.cycles

theorem writeCpsr (h : Simulates p n t q) {cpsr : BitVec 32}
    (hcpsr : ∀ i, i < 28 → getBit cpsr i = getBit (readCpsr q.reg) i) :
    Simulates p n { t with n := getBit cpsr Flag.n, z := getBit cpsr Flag.z }
      { q with reg := ArmSimulator.writeCpsr q.reg cpsr } where
  shows := by
    rw [view_writeCpsr q (modeField_eq_of_getBit fun i hi => hcpsr i (by omega)), h.shows]
  confined := h.confined.trans (confined_writeCpsr q.reg hcpsr)
  cycles := h.cycles

theorem writeMemory (h : Simulates p n t q) (mem : Memory) :
    Simulates p n { t with mem := mem } { q with mem := mem } where
  shows := by rw [← h.shows]; rfl
  confined := h.confined
  cycles := h.cycles

theorem trans {u : State} {s : Core} {m : Nat} (h : Simulates p m t q) (h' : Simulates q n u s) :
    Simulates p (m + n) u s where
  shows := h'.shows
  confined := h.confined.trans h'.confined
  cycles := by rw [h'.cycles, h.cycles, BitVec.ofNat_add, BitVec.add_assoc]

end Simulates

/-! ## Operands -/

section

variable (host : Host) {ins : BitVec 32} {operand : Operand} (p : Core)

theorem decodeShift_eq_some (h : decodeShift ins = some operand) :
    getBit ins 4 = false ∧ ShiftKind.ofField (getBits ins 6 5) ≠ .asr ∧
      (ShiftKind.ofField (getBits ins 6 5) ≠ .lsl → (getBits ins 11 7).toNat ≠ 0) ∧
      operand = .shifted (regField ins 0) (.ofField (getBits ins 6 5)) (getBits ins 11 7).toNat := by
  simp only [decodeShift, Option.ite_none_left_eq_some, not_or, not_and, Bool.not_eq_true,
    Option.some.injEq] at h
  obtain ⟨⟨h4, hkind, hzero⟩, hoperand⟩ := h
  exact ⟨h4, hkind, hzero, hoperand.symm⟩

theorem shifterOperand_decoded (h : decodeShift ins = some operand) :
    (shifterOperand host ins (afterFetch p)).value.1 = operand.value (view p) := by
  obtain ⟨h4, hkind, hzero, rfl⟩ := decodeShift_eq_some h
  have hlt : (getBits ins 11 7).toNat < 2 ^ 5 := (getBits ins 11 7).isLt
  have hcount : ((getBits ins 11 7).setWidth 32).toNat = (getBits ins 11 7).toNat := by
    rw [BitVec.toNat_setWidth]
    omega
  rw [shifterOperand_value, shifterAmount_immediate ins _ h4, Operand.value, read_view, ← hcount]
  rcases Nat.eq_zero_or_pos (getBits ins 11 7).toNat with hz | hpos
  · have hlsl : ShiftKind.ofField (getBits ins 6 5) = .lsl := by
      by_contra hne
      exact hzero hne hz
    rw [hlsl, hcount, hz]
    simp only [shifted, hcount, hz, shiftBy]
    rw [Int.natCast_zero, Host.shl_zero, BitVec.shiftLeft_zero]
  · rw [shifted_of_lt (by omega) host hkind (by omega)]

theorem dataProcessingOperand_decoded (h : decodeOperand ins = some operand) :
    (dataProcessingOperand host ins (afterFetch p)).value.1 = operand.value (view p) := by
  unfold decodeOperand at h
  cases h25 : getBit ins 25 with
  | true =>
    rw [h25, if_pos rfl] at h
    cases h
    rw [dataProcessingOperand_immediate host h25]
    rfl
  | false =>
    rw [h25, if_neg (by decide)] at h
    rw [← shifterOperand_decoded host p h]
    simp only [dataProcessingOperand, h25, Bool.false_eq_true, if_false]

end

/-! ## Data processing -/

section

variable (host : Host) {ins : BitVec 32} {i : Instruction} {p : Core} {t : State}

theorem decodeData_eq_some (h : decodeData ins = some i) :
    ∃ operand, decodeOperand ins = some operand ∧
      i = .data (insOpcode ins) (getBit ins 20) (regField ins 12) (regField ins 16) operand ∧
      (insOpcode ins ≠ .adc ∧ insOpcode ins ≠ .sbc ∧ insOpcode ins ≠ .rsc) ∧
      ((insOpcode ins).isCompare = true → getBit ins 20 = true) ∧
      (getBit ins 20 = true → regField ins 12 ≠ 15) := by
  simp only [decodeData, Option.ite_none_left_eq_some, not_or, not_and, Bool.not_eq_false,
    Option.map_eq_some_iff] at h
  obtain ⟨⟨hadc, hsbc, hrsc, hcompare, hrd⟩, operand, hoperand, hi⟩ := h
  exact ⟨operand, hoperand, hi.symm, ⟨hadc, hsbc, hrsc⟩, hcompare, fun hs hpc => hrd hpc hs⟩

theorem opcodeResult_carry {opcode : Opcode}
    (h : opcode ≠ .adc ∧ opcode ≠ .sbc ∧ opcode ≠ .rsc) (rn operand : BitVec 32) (carry : Bool) :
    opcodeResult opcode rn operand carry = opcodeResult opcode rn operand false := by
  obtain ⟨hadc, hsbc, hrsc⟩ := h
  cases opcode with
  | adc => exact absurd rfl hadc
  | sbc => exact absurd rfl hsbc
  | rsc => exact absurd rfl hrsc
  | _ => rfl

/-- The status word of an instruction with S, after its destination. -/
theorem Simulates.writeStatus {q : Core} {n : Nat} (h : Simulates p n t q) {s : Core}
    (hcpsr : readCpsr q.reg = readCpsr s.reg) :
    Simulates p n (t.setFlags (insResult host ins s))
      { q with reg := ArmSimulator.writeCpsr q.reg (insStatus host ins s) } := by
  have hflags := insStatus_setsFlags host ins s
  have hwritten := h.writeCpsr fun i hi => (hflags.rest i hi).trans (by rw [hcpsr])
  rw [hflags.n, hflags.z] at hwritten
  exact hwritten

theorem data_simulates (h : decodeData ins = some i) (hexec : exec (view p) i = some t) :
    Simulates p 1 t (armDataProcessing host ins (afterFetch p)).state := by
  obtain ⟨operand, hoperand, rfl, hopcode, hcompare, hrd⟩ := decodeData_eq_some h
  have hfetched := simulates_afterFetch p
  have hres : insResult host ins (afterFetch p) =
      opcodeResult (insOpcode ins) ((view p).read (regField ins 16)) (operand.value (view p))
        false := by
    rw [insResult, opcodeResult_carry hopcode, dataProcessingOperand_decoded host p hoperand,
      read_view]
  simp only [exec, ← hres] at hexec
  rw [armDataProcessing_core host ins _ hcompare]
  cases hs : getBit ins 20 with
  | true =>
    have hstatus : statusAfter host ins (afterFetch p) = insStatus host ins (afterFetch p) := by
      rw [statusAfter, if_pos hs, if_neg fun hboth => hrd hs hboth.1]
    rw [hs, if_pos rfl, if_neg (hrd hs)] at hexec
    rw [hstatus, destinationAfter]
    cases hc : (insOpcode ins).isCompare with
    | true =>
      rw [hc, if_pos rfl, Option.some.injEq] at hexec
      subst hexec
      exact hfetched.writeStatus host rfl
    | false =>
      rw [hc, if_neg (by decide), Option.some.injEq] at hexec
      subst hexec
      exact (hfetched.writeRegister (hrd hs) _).writeStatus host (readCpsr_writeRegister _ _ _)
  | false =>
    have hc : (insOpcode ins).isCompare = false := by
      cases hc : (insOpcode ins).isCompare with
      | false => rfl
      | true => exact absurd ((hcompare hc).symm.trans hs) (by decide)
    have hstatus : statusAfter host ins (afterFetch p) =
        readCpsr (destinationAfter host ins (afterFetch p)) := by
      rw [statusAfter, hs, if_neg (by decide), readCpsr_destinationAfter]
    rw [hs, hc] at hexec
    simp only [Bool.false_eq_true, if_false] at hexec
    rw [hstatus, writeCpsr_readCpsr, destinationAfter, hc, if_neg (by decide)]
    by_cases hpc : regField ins 12 = 15
    · rw [if_pos hpc, State.jump, Option.ite_none_right_eq_some, Option.some.injEq] at hexec
      obtain ⟨haligned, rfl⟩ := hexec
      rw [hpc]
      exact hfetched.writePc (Word.getLsbD_one_of_aligned haligned)
    · rw [if_neg hpc, Option.some.injEq] at hexec
      subst hexec
      exact hfetched.writeRegister hpc _

end

/-! ## Branches -/

theorem armBranch_state (ins : BitVec 32) (s : Core) :
    (armBranch ins s).state =
      let t := if getBit ins 24 then
          { s with reg := writeRegister s.reg 14 ((armReadRegister 15 s).value - 4) }
        else s
      { t with
        reg := writeRegister t.reg 15
          ((armReadRegister 15 s).value + signExtending (ins &&& 0xFFFFFF) <<< 2) } := by
  cases hlink : getBit ins 24 with
  | false =>
    simp only [armBranch, hlink, Bool.false_eq_true, if_false, Traced.bind_state,
      Traced.pure_apply]
    rfl
  | true =>
    let linked : Core :=
      { s with reg := writeRegister s.reg 14 ((armReadRegister 15 s).value - 4) }
    have hpc : (armReadRegister 15 linked).value = (armReadRegister 15 s).value :=
      armReadRegister_writeRegister_of_ne (by decide) _ rfl
    have hstate : (armBranch ins s).state =
        { linked with
          reg := writeRegister linked.reg 15
            ((armReadRegister 15 linked).value + signExtending (ins &&& 0xFFFFFF) <<< 2) } := by
      simp only [armBranch, hlink, if_true, armBranchLink, Traced.bind_state, Traced.pure_apply]
      rfl
    rw [hstate, hpc]
    rfl

theorem branch_simulates {ins : BitVec 32} {p : Core} {t : State}
    (haligned : (fetchAddress p.reg).toNat % 4 = 0)
    (hexec : exec (view p) (.branch (getBit ins 24) (getBits ins 23 0)) = some t) :
    Simulates p 1 t (armBranch ins (afterFetch p)).state := by
  have hfetched := simulates_afterFetch p
  have hlink : fetchAddress p.reg + 8 - 4 = fetchAddress p.reg + 4 := by bv_omega
  have htarget : getBit (branchTarget (fetchAddress p.reg) ins) 1 = false :=
    Word.getLsbD_one_of_aligned (branchTarget_aligned haligned ins)
  rw [armBranch_state, armReadRegister_pc, signExtending_shift, hlink]
  simp only [exec, view_pc, Option.some.injEq] at hexec
  subst hexec
  cases getBit ins 24 with
  | false => exact hfetched.writePc htarget
  | true =>
    exact (hfetched.writeRegister (r := 14) (by decide) (fetchAddress p.reg + 4)).writePc htarget

/-! ## Transfers of a word -/

section

variable (host : Host) (locals : Locals) {ins : BitVec 32} {p : Core} {t : State}

/-- What decoding a transfer says of its fields. -/
structure IsWordTransfer (ins : BitVec 32) : Prop where
  word : getBit ins 22 = false ∧ ¬(getBit ins 7 = true ∧ getBit ins 4 = true)
  user : ¬(getBit ins 24 = false ∧ getBit ins 21 = true)
  rd : regField ins 12 ≠ 15
  writeBack : isBack ins = true → regField ins 16 ≠ 15 ∧ regField ins 12 ≠ regField ins 16
  offset : getBit ins 25 = true → getBit ins 24 = false → regField ins 0 ≠ regField ins 12

theorem decodeTransfer_eq_some {i : Instruction} (h : decodeTransfer ins = some i) :
    ∃ offset, decodeOffset ins = some offset ∧ IsWordTransfer ins ∧
      i = .transfer (getBit ins 20) (getBit ins 24) (getBit ins 23) (isBack ins)
        (regField ins 12) (regField ins 16) offset := by
  simp only [decodeTransfer, Option.ite_none_left_eq_some, not_or, not_and, Bool.not_eq_true,
    Option.map_eq_some_iff] at h
  obtain ⟨⟨h22, hhalf, huser, hrd, hback, hoffset⟩, offset, hdecode, hi⟩ := h
  refine ⟨offset, hdecode, ⟨⟨h22, fun h => ?_⟩, fun h => ?_, hrd, hback, hoffset⟩, hi.symm⟩
  · exact absurd (h.2.symm.trans (hhalf h.1)) (by decide)
  · exact absurd (h.2.symm.trans (huser h.1)) (by decide)

theorem isBack_iff (ins : BitVec 32) :
    isBack ins = true ↔ getBit ins 24 = false ∨ getBit ins 21 = true := by
  unfold isBack
  cases getBit ins 24 <;> cases getBit ins 21 <;> decide

theorem addressingMode_decoded {offset : Operand} (h : decodeOffset ins = some offset)
    (htype : getBit ins 25 = false → getBit ins 26 = true) :
    (addressingMode host ins (afterFetch p)).value =
      if getBit ins 23 then offset.value (view p) else -offset.value (view p) := by
  have hneg : ∀ x : BitVec 32, x * (-1) = -x := by
    intro x
    rw [BitVec.mul_comm]
    exact (BitVec.neg_eq_neg_one_mul x).symm
  unfold decodeOffset at h
  cases h25 : getBit ins 25 with
  | true =>
    rw [h25, if_pos rfl] at h
    simp only [addressingMode, h25, if_true, Traced.bind_value, Traced.pure_apply,
      shifterOperand_decoded host p h, hneg]
  | false =>
    rw [h25, if_neg (by decide), Option.some.injEq] at h
    subst h
    simp only [addressingMode, h25, htype h25, Bool.false_eq_true, if_false, Bool.not_true,
      Traced.bind_value, Traced.pure_apply, hneg]
    rfl

/-- The transfer itself: an access of a word where one is accessible. -/
theorem transferValue_word (h : IsWordTransfer ins) {a : BitVec 32} {s : Core}
    (ha : Accessible s.mem a) :
    (transferValue host locals ins a s).state =
      if getBit ins 20 then
        { s with reg := writeRegister s.reg (regField ins 12) (wordAt s.mem a) }
      else { s with mem := storeWord s.mem a (armReadRegister (regField ins 12) s).value } := by
  obtain ⟨h22, hhalf⟩ := h.word
  have huser : isUserTransfer ins = false := by
    unfold isUserTransfer
    have := h.user
    cases hp : getBit ins 24 <;> cases hw : getBit ins 21 <;> simp_all
  have hread : memoryReadWord s.mem a = .ok (wordAt s.mem a) :=
    memoryReadWord_inside (by have := ha.2; omega)
  have hload : (loadValue host locals ins a s).value = wordAt s.mem a := by
    rw [loadValue, if_neg hhalf, h22, if_neg (by decide)]
    exact readInto_value hread
  unfold transferValue
  cases getBit ins 20 with
  | true =>
    simp only [huser, hload, loadValue_state, h.rd, if_true, if_false, Bool.false_eq_true,
      Traced.bind_state]
    rfl
  | false =>
    simp only [huser, storeValue, hhalf, h22, if_false, Bool.false_eq_true, Traced.bind_state]
    rfl

theorem transferValue_simulates (h : IsWordTransfer ins) {a : BitVec 32}
    (ha : Accessible p.mem a) :
    Simulates p 1
      (if getBit ins 20 then (view p).next.write (regField ins 12) (wordAt p.mem a)
        else { (view p).next with mem := storeWord p.mem a ((view p).read (regField ins 12)) })
      (transferValue host locals ins a (afterFetch p)).state := by
  have hfetched := simulates_afterFetch p
  rw [transferValue_word host locals h (s := afterFetch p) ha, read_view]
  cases getBit ins 20 with
  | true => exact hfetched.writeRegister h.rd _
  | false => exact hfetched.writeMemory _

theorem transfer_simulates {i : Instruction}
    (htype : getBits ins 27 25 = 0b010 ∨ getBits ins 27 25 = 0b011)
    (h : decodeTransfer ins = some i) (hexec : exec (view p) i = some t) :
    Simulates p 1 t (armLoadStore host locals ins (afterFetch p)).state := by
  obtain ⟨offset, hoffset, hword, rfl⟩ := decodeTransfer_eq_some h
  have h26 : getBit ins 26 = true := by
    rcases htype with htype | htype <;> exact getBit_of_getBits htype (by decide) (by decide)
  have h4 : getBit ins 25 = true → getBit ins 4 = false := by
    intro h25
    rw [decodeOffset, h25, if_pos rfl] at hoffset
    exact (decodeShift_eq_some hoffset).1
  have hsingle : IsSingleTransfer ins := by
    refine ⟨?_, hword.user, fun hback => hword.writeBack ((isBack_iff ins).mpr hback)⟩
    rcases htype with htype | htype
    · exact Or.inl htype
    · exact Or.inr (Or.inl ⟨htype, h4 (getBit_of_getBits htype (by decide) (by decide))⟩)
  have hvalue := addressingMode_decoded host (p := p) hoffset fun _ => h26
  simp only [exec, Option.ite_none_right_eq_some, Option.some.injEq] at hexec
  rw [← hvalue] at hexec
  obtain ⟨haccessible, ht⟩ := hexec
  have haddress : transferAddress host ins (afterFetch p) =
      if getBit ins 24 then
        (view p).read (regField ins 16) + (addressingMode host ins (afterFetch p)).value
      else (view p).read (regField ins 16) := by
    rw [transferAddress, read_view]
  -- A load does not reach the offset register, so the base moves by the same offset.
  have hindexed : getBit ins 24 = false →
      (addressingMode host ins
        (transferValue host locals ins (transferAddress host ins (afterFetch p))
          (afterFetch p)).state).value = (addressingMode host ins (afterFetch p)).value := by
    intro hp
    refine addressingMode_after_transfer host locals hsingle _ _ fun _ hreads => ?_
    refine hword.offset ?_ hp
    rw [readsOffsetRegister, h26] at hreads
    simpa using hreads
  have htransferred := transferValue_simulates host locals hword (p := p)
    (a := transferAddress host ins (afterFetch p)) (by rw [haddress]; exact haccessible)
  rw [armLoadStore_state]
  simp only [← isBack_iff]
  rw [← ht, ← haddress]
  cases hback : isBack ins with
  | false => exact htransferred
  | true =>
    have hnew : (if getBit ins 24 then transferAddress host ins (afterFetch p)
        else transferAddress host ins (afterFetch p) + (addressingMode host ins
          (transferValue host locals ins (transferAddress host ins (afterFetch p))
            (afterFetch p)).state).value) =
        (view p).read (regField ins 16) + (addressingMode host ins (afterFetch p)).value := by
      cases hp : getBit ins 24 with
      | true => rw [if_pos rfl, haddress, hp, if_pos rfl]
      | false => rw [if_neg (by decide), hindexed hp, haddress, hp, if_neg (by decide)]
    rw [if_pos rfl, if_pos rfl, hnew]
    exact htransferred.writeRegister (hword.writeBack hback).1 _

end

/-! ## Transfers of a block -/

section

variable (locals : Locals) {ins : BitVec 32} {p : Core} {t : State}

/-- The registers of a list written at once. -/
theorem Simulates.writeList {q : Core} {n : Nat} (h : Simulates p n t q) (list : List (Fin 16))
    (hpc : (15 : Fin 16) ∉ list) (value : Fin 16 → BitVec 32) (f : Registers)
    (hf : ∀ r, f (registerIndex (getMode q.reg) r) = value r) :
    Simulates p n { t with reg := fun r => if r ∈ list then value r else t.reg r }
      { q with reg := fun i =>
        if i ∈ list.map (registerIndex (getMode q.reg)) then f i else q.reg i } := by
  let written : Registers := fun i =>
    if i ∈ list.map (registerIndex (getMode q.reg)) then f i else q.reg i
  have hmem : ∀ r, registerIndex (getMode q.reg) r ∈ list.map (registerIndex (getMode q.reg)) ↔
      r ∈ list := fun r => List.mem_map_of_injective (registerIndex_injective_any _)
  have hcpsr : readCpsr written = readCpsr q.reg := if_neg (cpsrIndex_not_mem _ _)
  have h15 : written 15 = q.reg 15 := by
    have hnot := mt (hmem 15).mp hpc
    rw [registerIndex_pc] at hnot
    exact if_neg hnot
  have hmode : getMode written = getMode q.reg := by
    unfold getMode
    rw [hcpsr]
  have hread : ∀ r, readRegister written r =
      if r ∈ list then value r else readRegister q.reg r := by
    intro r
    unfold readRegister
    rw [hmode]
    show (if _ then _ else _) = _
    rw [hf, if_congr (hmem r) rfl rfl]
  refine ⟨?_, h.confined.trans ⟨fun i _ => by rw [hcpsr], fun i _ hreg => ?_⟩, h.cycles⟩
  · rw [← h.shows]
    refine view_mk _ ?_ (fun r hr => ?_) (congrArg (getBit · Flag.n) hcpsr)
      (congrArg (getBit · Flag.z) hcpsr) rfl
    · exact (fetchAddress_congr h15).trans (if_neg hpc).symm
    · exact (hread r).trans (if_congr Iff.rfl rfl (view_reg_of_ne q hr).symm)
  · refine if_neg fun hi => ?_
    obtain ⟨r, -, hr⟩ := List.mem_map.mp hi
    exact hreg r hr.symm

theorem decodeBlock_eq_some {i : Instruction} (htype : getBits ins 27 25 = 0b100)
    (h : decodeBlock ins = some i) :
    IsBlockTransfer ins ∧
      i = .block (getBit ins 20) (getBit ins 24) (getBit ins 23) (regField ins 16)
        (blockList ins) := by
  simp only [decodeBlock, Option.ite_none_left_eq_some, not_or, Bool.not_eq_true,
    Bool.not_eq_false, Option.some.injEq] at h
  obtain ⟨⟨hs, hback, hbase, hpc, hlisted⟩, hi⟩ := h
  exact ⟨⟨htype, hs, hback, hbase, hpc, hlisted⟩, hi.symm⟩

theorem block_simulates {i : Instruction} (htype : getBits ins 27 25 = 0b100)
    (h : decodeBlock ins = some i) (hexec : exec (view p) i = some t) :
    Simulates p 1 t (armLoadStoreMultiple locals ins (afterFetch p)).state := by
  obtain ⟨hblock, rfl⟩ := decodeBlock_eq_some htype h
  have hfetched := simulates_afterFetch p
  have hbase : readRegister (afterFetch p).reg (regField ins 16) = (view p).reg (regField ins 16) :=
    (readRegister_afterFetch p hblock.base).trans (view_reg_of_ne p hblock.base).symm
  simp only [exec, Option.ite_none_right_eq_some, Option.some.injEq] at hexec
  obtain ⟨haccessible, rfl⟩ := hexec
  have hafter : blockBase ins ((view p).reg (regField ins 16))
      (0 + BitVec.ofNat 8 (blockList ins).length) =
        if getBit ins 23 then
          (view p).reg (regField ins 16) + BitVec.ofNat 32 (4 * (blockList ins).length)
        else (view p).reg (regField ins 16) - BitVec.ofNat 32 (4 * (blockList ins).length) := by
    rw [blockBase_eq, blockSize_eq]
  rw [← blockStart_eq_firstAddress] at haccessible ⊢
  rw [← hafter]
  cases hl : getBit ins 20 with
  | false =>
    have hvalues : (blockList ins).map (readRegister (afterFetch p).reg) =
        (blockList ins).map (view p).reg := by
      refine List.map_congr_left fun r hr => ?_
      have hne : r ≠ 15 := fun h => hblock.pc_not_mem (h ▸ hr)
      rw [readRegister_afterFetch p hne, view_reg_of_ne p hne]
    rw [armLoadStoreMultiple_store hblock hl, hbase, hvalues]
    exact (hfetched.writeMemory _).writeRegister hblock.base _
  | true =>
    let value : Fin 16 → BitVec 32 := fun r =>
      wordAt p.mem (blockAddress (blockStart ins ((view p).reg (regField ins 16)))
        ((blockList ins).idxOf r))
    let f : Registers := Function.extend (registerIndex (getMode (afterFetch p).reg)) value 0
    have hf : ∀ r, f (registerIndex (getMode (afterFetch p).reg) r) = value r :=
      (registerIndex_injective_any _).extend_apply value 0
    have hwords : WordsAt (afterFetch p).mem
        (blockStart ins (readRegister (afterFetch p).reg (regField ins 16)))
        ((blockList ins).map fun ri => f (registerIndex (getMode (afterFetch p).reg) ri)) := by
      rw [hbase, wordsAt_map_iff]
      intro k
      have hinside := (haccessible k k.isLt).2
      have hindex : (blockList ins).idxOf ((blockList ins).get k) = k :=
        (blockList_nodup ins).idxOf_getElem k k.isLt
      rw [hf]
      simp only [value, hindex]
      exact memoryReadWord_inside (Nat.lt_of_lt_of_le (Nat.lt_add_of_pos_right (by decide)) hinside)
    rw [armLoadStoreMultiple_load hblock hl locals f _ hwords, hbase]
    exact (hfetched.writeList _ hblock.pc_not_mem value f hf).writeRegister hblock.base _

end

/-! ## Steps -/

section

variable (host : Host) (locals : Locals) {ins : BitVec 32} {p : Core} {t : State}

theorem fetched_of_fetch (h : fetch (view p) = some ins) :
    (fetchAddress p.reg).toNat % 4 = 0 ∧ fetched p = .ok ins := by
  unfold fetch at h
  rw [Option.ite_none_right_eq_some, Option.some.injEq] at h
  obtain ⟨haccessible, rfl⟩ := h
  have hinside := haccessible.2
  exact ⟨haccessible.1,
    memoryReadWord_inside (Nat.lt_of_lt_of_le (Nat.lt_add_of_pos_right (by decide)) hinside)⟩

theorem executes_of_passes {b : Bool}
    (h : passes (insCondition ins) (view p).n (view p).z = some b) :
    executes (readCpsr p.reg) ins = b := by
  unfold executes
  cases hc : insCondition ins <;> rw [hc] at h <;> cases h <;> rfl

/-- One case for each type of instruction. -/
theorem exec_simulates {i : Instruction} (haligned : (fetchAddress p.reg).toNat % 4 = 0)
    (hdecode : decode ins = some i) (hexec : exec (view p) i = some t) :
    (dispatch host locals ins (afterFetch p)).value = some 0 ∧
      Simulates p 1 t (dispatch host locals ins (afterFetch p)).state := by
  have hfield : ∀ f : BitVec 3, InstructionType.ofField f = insType ins →
      getBits ins 27 25 = f := by
    intro f hf
    have hinjective : ∀ a b : BitVec 3, InstructionType.ofField a = .ofField b → a = b := by
      decide
    exact (hinjective _ _ hf).symm
  unfold decode at hdecode
  unfold dispatch
  cases htype : insType ins with
  | dataProcessingShift =>
    rw [htype] at hdecode
    simp only [Option.ite_none_left_eq_some, Bool.not_eq_true] at hdecode
    have h4 : ¬(getBit ins 4 = true ∧ getBit ins 7 = true) := fun h =>
      absurd (hdecode.1.symm.trans h.1) (by decide)
    simp only [h4, if_false, Traced.bind_value, Traced.bind_state, Traced.pure_apply, true_and]
    exact data_simulates host hdecode.2 hexec
  | dataProcessingImmediate =>
    rw [htype] at hdecode
    simp only [Traced.bind_value, Traced.bind_state, Traced.pure_apply, true_and]
    exact data_simulates host hdecode hexec
  | loadStoreImmediate =>
    rw [htype] at hdecode
    simp only [Traced.bind_value, Traced.bind_state, Traced.pure_apply, true_and]
    exact transfer_simulates host locals (Or.inl (hfield _ htype.symm)) hdecode hexec
  | loadStoreRegister =>
    rw [htype] at hdecode
    simp only [Traced.bind_value, Traced.bind_state, Traced.pure_apply, true_and]
    exact transfer_simulates host locals (Or.inr (hfield _ htype.symm)) hdecode hexec
  | loadStoreMultiple =>
    rw [htype] at hdecode
    simp only [Traced.bind_value, Traced.bind_state, Traced.pure_apply, true_and]
    exact block_simulates locals (hfield _ htype.symm) hdecode hexec
  | branch =>
    rw [htype] at hdecode
    cases hdecode
    simp only [Traced.bind_value, Traced.bind_state, Traced.pure_apply, true_and]
    exact branch_simulates haligned hexec
  | loadStoreCoproc =>
    rw [htype] at hdecode
    cases hdecode
  | coprocessorOthersSwi =>
    rw [htype] at hdecode
    simp only [Option.ite_none_right_eq_some, Option.some.injEq] at hdecode
    obtain ⟨-, rfl⟩ := hdecode
    cases hexec

/-- A step of the architecture is the step of the simulator. -/
theorem step_simulates (h : step (view p) = some t) :
    (armStep host locals p).value = some 0 ∧ Simulates p 1 t (armStep host locals p).state := by
  simp only [step, Option.bind_eq_bind, Option.bind_eq_some_iff] at h
  obtain ⟨ins, hfetch, passed, hpasses, hstep⟩ := h
  obtain ⟨haligned, hf⟩ := fetched_of_fetch hfetch
  have hc := executes_of_passes hpasses
  cases passed with
  | true =>
    rw [if_pos rfl, Option.bind_eq_some_iff] at hstep
    obtain ⟨i, hdecode, hexec⟩ := hstep
    obtain ⟨hvalue, hsimulates⟩ := exec_simulates host locals haligned hdecode hexec
    obtain ⟨hzero, hstate⟩ := armStep_of_fetched host locals hf hc hvalue
    exact ⟨hzero, hstate ▸ hsimulates⟩
  | false =>
    cases hstep
    obtain ⟨hzero, hstate⟩ := armStep_of_skipped host locals hf hc
    exact ⟨hzero, hstate ▸ simulates_afterFetch p⟩

theorem decode_exit (h : decode ins = some .exit) :
    insType ins = .coprocessorOthersSwi ∧ getBit ins 24 = true ∧ ins &&& 0xFFFFFF = 0x123456 := by
  unfold decode at h
  cases htype : insType ins <;> rw [htype] at h
  case coprocessorOthersSwi =>
    simp only [Option.ite_none_right_eq_some] at h
    exact ⟨rfl, h.1⟩
  case dataProcessingShift =>
    simp only [Option.ite_none_left_eq_some] at h
    obtain ⟨_, _, hdata, _⟩ := decodeData_eq_some h.2
    cases hdata
  case dataProcessingImmediate =>
    obtain ⟨_, _, hdata, _⟩ := decodeData_eq_some h
    cases hdata
  case loadStoreMultiple =>
    simp only [decodeBlock, Option.ite_none_left_eq_some, Option.some.injEq] at h
    cases h.2
  case branch | loadStoreCoproc => cases h
  all_goals
    obtain ⟨_, _, _, htransfer⟩ := decodeTransfer_eq_some h
    cases htransfer

/-- The simulation ends at the SWI, with the registers as they are. -/
theorem armStep_atExit (h : AtExit (view p)) :
    (armStep host locals p).value = none ∧ (armStep host locals p).state = afterFetch p := by
  obtain ⟨ins, hfetch, hpasses, hdecode⟩ := h
  obtain ⟨-, hf⟩ := fetched_of_fetch hfetch
  obtain ⟨htype, h24, hcode⟩ := decode_exit hdecode
  have hdispatch : (dispatch host locals ins (afterFetch p)).value = none ∧
      (dispatch host locals ins (afterFetch p)).state = afterFetch p := by
    simp only [dispatch, htype, armCoprocessorOthersSwi, h24, hcode, if_true, Traced.bind_value,
      Traced.bind_state, Traced.pure_apply, and_self]
  obtain ⟨hvalue, hstate⟩ := armStep_of_dispatch host locals hf (executes_of_passes hpasses)
  rw [hvalue, hstate, hdispatch.1, hdispatch.2]
  exact ⟨rfl, rfl⟩

end

/-! ## Runs -/

theorem runCalls_simulates (host : Host) (locals : List Locals) {p : Core} {t : State}
    (h : Machine.after step locals.length (view p) = some t) :
    (runCalls host (locals.map Call.step) p).value = List.replicate locals.length (some 0) ∧
      Simulates p locals.length t (runCalls host (locals.map Call.step) p).state := by
  induction locals generalizing p with
  | nil =>
    cases h
    exact ⟨rfl, rfl, Confined.refl _, (BitVec.add_zero _).symm⟩
  | cons l rest ih =>
    rw [List.length_cons, Machine.after, Option.bind_eq_some_iff] at h
    obtain ⟨u, hstep, hrest⟩ := h
    obtain ⟨hvalue, hfirst⟩ := step_simulates host l hstep
    rw [← hfirst.shows] at hrest
    obtain ⟨hvalues, hsimulates⟩ := ih hrest
    have hone := hfirst.trans hsimulates
    rw [Nat.add_comm] at hone
    obtain ⟨hcons, hstate⟩ :=
      Traced.runAll_cons_some (f := Call.run host) (i := .step l) hvalue (rest.map Call.step)
    unfold runCalls at hvalues hone ⊢
    rw [List.map_cons, hcons, hstate, List.length_cons, List.replicate_succ]
    exact ⟨congrArg _ hvalues, hone⟩

theorem runCalls_ends (host : Host) (locals : List Locals) (last : Locals) {p : Core} {t : State}
    (h : Machine.after step locals.length (view p) = some t) (hexit : AtExit t) :
    (runCalls host ((locals ++ [last]).map Call.step) p).value =
        List.replicate locals.length (some 0) ++ [none] ∧
      Simulates p (locals.length + 1) t.next
        (runCalls host ((locals ++ [last]).map Call.step) p).state := by
  obtain ⟨hvalue, hsimulates⟩ := runCalls_simulates host locals h
  rw [← hsimulates.shows] at hexit
  obtain ⟨hlast, hstate⟩ := armStep_atExit host last hexit
  have hnone : none ∉ (runCalls host (locals.map Call.step) p).value := by
    rw [hvalue]
    exact fun hmem => absurd (List.eq_of_mem_replicate hmem) (by decide)
  obtain ⟨hrun, hend⟩ := Traced.runAll_append_of_not_mem hnone [Call.step last]
  have hone := Traced.runAll_cons_none (f := Call.run host) (i := .step last) hlast []
  have hfetched := simulates_afterFetch (runCalls host (locals.map Call.step) p).state
  rw [hsimulates.shows, ← hstate] at hfetched
  unfold runCalls at hvalue hsimulates hfetched hone ⊢
  rw [List.map_append, List.map_singleton, hrun, hend, hone.1, hone.2, hvalue]
  exact ⟨rfl, hsimulates.trans hfetched⟩

/-- As long as a program keeps to the instructions of `step`, the simulator runs it as the
architecture does, whatever the host shifts and the uninitialised locals hold, and ends
where the program does. -/
theorem runCalls_refines (host : Host) (locals : List Locals) (last : Locals) {p : Core}
    {t : State} (h : Machine.after step locals.length (view p) = some t) :
    let o := runCalls host (locals.map Call.step) p
    let o' := runCalls host ((locals ++ [last]).map Call.step) p
    o.value = List.replicate locals.length (some 0) ∧ Simulates p locals.length t o.state ∧
      (AtExit t → o'.value = List.replicate locals.length (some 0) ++ [none] ∧
        Simulates p (locals.length + 1) t.next o'.state) :=
  let ⟨hvalue, hsimulates⟩ := runCalls_simulates host locals h
  ⟨hvalue, hsimulates, runCalls_ends host locals last h⟩

/-- A push of r0 and r1, `subs r1, r0, #1`, `ldrne r2, [sp, #4]`, and a pop to r0 and r3. -/
def stackCore : Core where
  cycleCount := 0
  reg := fun i =>
    if i = 0 then 5 else if i = 1 then 9 else if i = 13 then 0x40
    else if i = cpsrIndex then 0x10 else 0
  mem := memoryOfWords true 0x40 [0xE92D0003, 0xE2501001, 0x159D2004, 0xE8BD0009, 0xEF123456]

theorem runCalls_refines_stackCore :
    let locals : List Locals := [⟨1, 2⟩, ⟨3, 4⟩, ⟨5, 6⟩, ⟨7, 8⟩]
    ∃ t, t.reg 3 = 9 ∧ Simulates stackCore 4 t
      (runCalls (.modular false) (locals.map Call.step) stackCore).state := by
  intro locals
  have hrun : (Machine.after step 4 (view stackCore)).map (fun t => t.reg 3) = some 9 := by
    decide +kernel
  obtain ⟨t, ht, hr3⟩ := Option.map_eq_some_iff.mp hrun
  exact ⟨t, hr3, (runCalls_refines (.modular false) locals ⟨0, 0⟩ ht).2.1⟩

end Assembly

end ArmSimulator
