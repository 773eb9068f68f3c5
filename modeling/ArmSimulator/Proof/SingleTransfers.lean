/-
Addresses, base updates and widths of single transfers.

`arm_load_store` evaluates the offset anew where it updates the base of a post-indexed
transfer, after the destination of a load has been written.  As long as the offset does not
read that register, the second evaluation gives what the first one gave.  The width is
taken from bits 7 and 4, which are part of the offset in the words of two of the three
encodings the handler serves.
-/
import ArmSimulator.Proof.Shifter
import ArmSimulator.Proof.Transfers

namespace ArmSimulator

/-! ## The offset -/

/-- The offset of the transfer is a register, shifted or not. -/
def readsOffsetRegister (ins : BitVec 32) : Bool :=
  getBit ins 25 || (!getBit ins 26 && !getBit ins 22)

/-- Two cores that agree on the offset register and on the status word have the same offset,
for a register that is not shifted by another. -/
theorem addressingMode_value_congr (host : Host) {ins : BitVec 32} {s t : Core}
    (h4 : getBit ins 25 = true → getBit ins 4 = false)
    (hrm : readsOffsetRegister ins = true →
      (armReadRegister (regField ins 0) t).value = (armReadRegister (regField ins 0) s).value)
    (hcpsr : readCpsr t.reg = readCpsr s.reg) :
    (addressingMode host ins t).value = (addressingMode host ins s).value := by
  have hshift : getBit ins 25 = true →
      (shifterOperand host ins t).value = (shifterOperand host ins s).value := by
    intro h25
    have hamount := fun u => shifterAmount_immediate ins u (h4 h25)
    rw [shifterOperand_value, shifterOperand_value, hamount, hamount, hcpsr,
      hrm (by simp [readsOffsetRegister, h25])]
  cases h25 : getBit ins 25 with
  | true =>
    simp only [addressingMode, h25, if_true, Traced.bind_value, Traced.pure_apply, hshift h25]
  | false =>
    cases h26 : getBit ins 26 with
    | true =>
      simp only [addressingMode, h25, h26, Bool.false_eq_true, if_false, Bool.not_true,
        Traced.bind_value, Traced.pure_apply]
    | false =>
      cases h22 : getBit ins 22 with
      | true =>
        simp only [addressingMode, h25, h26, h22, Bool.false_eq_true, if_false, if_true,
          Bool.not_false, Traced.bind_value, Traced.pure_apply]
      | false =>
        simp only [addressingMode, h25, h26, h22, Bool.false_eq_true, if_false, if_true,
          Bool.not_false, Traced.bind_value, Traced.pure_apply,
          hrm (by simp [readsOffsetRegister, h26, h22])]

/-! ## The transfer -/

/-- LDR, STR, LDRB, STRB, LDRH or STRH, without what the architecture leaves unpredictable:
user transfers, and a write-back to the program counter or to the destination. -/
structure IsSingleTransfer (ins : BitVec 32) : Prop where
  type : getBits ins 27 25 = 0b010 ∨ (getBits ins 27 25 = 0b011 ∧ getBit ins 4 = false) ∨
    (getBits ins 27 25 = 0b000 ∧ getBits ins 7 4 = 0b1011)
  user : ¬(getBit ins 24 = false ∧ getBit ins 21 = true)
  writeBack : getBit ins 24 = false ∨ getBit ins 21 = true →
    regField ins 16 ≠ 15 ∧ regField ins 12 ≠ regField ins 16

theorem IsSingleTransfer.not_user {ins : BitVec 32} (h : IsSingleTransfer ins) :
    isUserTransfer ins = false := by
  have huser := h.user
  unfold isUserTransfer
  cases hp : getBit ins 24 with
  | true => rfl
  | false =>
    cases hw : getBit ins 21 with
    | true => exact absurd ⟨hp, hw⟩ huser
    | false => rfl

theorem IsSingleTransfer.unshiftedByRegister {ins : BitVec 32} (h : IsSingleTransfer ins) :
    getBit ins 25 = true → getBit ins 4 = false := by
  intro h25
  rcases h.type with htype | ⟨-, h4⟩ | ⟨htype, -⟩
  · have hbit : getBit ins 25 = false := getBit_of_getBits htype (by decide) (by decide)
    exact absurd (hbit.symm.trans h25) (by decide)
  · exact h4
  · have hbit : getBit ins 25 = false := getBit_of_getBits htype (by decide) (by decide)
    exact absurd (hbit.symm.trans h25) (by decide)

section

variable (host : Host) (locals : Locals) (ins a : BitVec 32) (s : Core)

/-- The value a load puts into its destination. -/
def transferredValue : BitVec 32 :=
  loadedWord (regField ins 12) (loadValue host locals ins a s).value

theorem transferValue_reg (huser : isUserTransfer ins = false) :
    (transferValue host locals ins a s).state.reg =
      if getBit ins 20 then
        writeRegister s.reg (regField ins 12) (transferredValue host locals ins a s)
      else s.reg := by
  unfold transferValue transferredValue
  cases getBit ins 20 with
  | true =>
    simp only [huser, if_true, if_false, Bool.false_eq_true, Traced.bind_state, loadValue_state]
    rfl
  | false =>
    simp only [huser, if_false, Bool.false_eq_true, Traced.bind_state, storeValue_reg]
    rfl

theorem getMode_transferValue (huser : isUserTransfer ins = false) :
    getMode (transferValue host locals ins a s).state.reg = getMode s.reg := by
  rw [transferValue_reg host locals ins a s huser]
  cases getBit ins 20
  · rfl
  · exact getMode_writeRegister _ _ _

end

theorem armReadRegister_writeRegister_of_ne {reg rd : Fin 16} (hne : reg ≠ rd) (value : BitVec 32)
    {s t : Core} (ht : t.reg = writeRegister s.reg rd value) :
    (armReadRegister reg t).value = (armReadRegister reg s).value := by
  have hread : readRegister t.reg reg = readRegister s.reg reg := by
    unfold readRegister
    rw [ht, getMode_writeRegister]
    exact Function.update_of_ne (fun h => hne (registerIndex_injective_any _ h)) _ _
  show pcBias reg (readRegister t.reg reg) = _
  rw [hread]
  rfl

/-- The offset is the same after the transfer as before it, unless a load writes the register
it is taken from. -/
theorem addressingMode_after_transfer (host : Host) (locals : Locals) {ins : BitVec 32}
    (h : IsSingleTransfer ins) (a : BitVec 32) (s : Core)
    (hrm : getBit ins 20 = true → readsOffsetRegister ins = true →
      regField ins 0 ≠ regField ins 12) :
    (addressingMode host ins (transferValue host locals ins a s).state).value =
      (addressingMode host ins s).value := by
  have hreg := transferValue_reg host locals ins a s h.not_user
  cases hload : getBit ins 20 with
  | false =>
    rw [hload, if_neg (by decide)] at hreg
    refine addressingMode_value_congr host h.unshiftedByRegister (fun _ => ?_) (by rw [hreg])
    show pcBias _ (readRegister (transferValue host locals ins a s).state.reg _) = _
    rw [hreg]
    rfl
  | true =>
    rw [hload, if_pos rfl] at hreg
    refine addressingMode_value_congr host h.unshiftedByRegister (fun hreads => ?_) ?_
    · exact armReadRegister_writeRegister_of_ne (hrm hload hreads) _ hreg
    · rw [hreg, readCpsr_writeRegister]

section

variable (host : Host) (locals : Locals) {ins : BitVec 32} (h : IsSingleTransfer ins) (s : Core)
include h

/-- With write-back, and after a post-indexed transfer, the base is the old one plus the
offset. -/
theorem armLoadStore_base_updated (hback : getBit ins 24 = false ∨ getBit ins 21 = true)
    (hrm : getBit ins 24 = false → getBit ins 20 = true → readsOffsetRegister ins = true →
      regField ins 0 ≠ regField ins 12) :
    let rn := registerIndex (getMode s.reg) (regField ins 16)
    (armLoadStore host locals ins s).state.reg rn =
      s.reg rn + (addressingMode host ins s).value := by
  intro rn
  let base := (armReadRegister (regField ins 16) s).value
  let offset := (addressingMode host ins s).value
  let address := if getBit ins 24 then base + offset else base
  let t := (transferValue host locals ins address s).state
  have hbase : base = s.reg rn := armReadRegister_value_of_ne (h.writeBack hback).1 s
  have hmode : getMode t.reg = getMode s.reg :=
    getMode_transferValue host locals ins address s h.not_user
  have hself : ∀ value, writeRegister t.reg (regField ins 16) value rn = value := by
    intro value
    unfold writeRegister
    rw [hmode]
    exact Function.update_self rn value t.reg
  rw [armLoadStore_state host locals ins s, if_pos hback, ← hbase]
  show writeRegister t.reg (regField ins 16)
    (if getBit ins 24 then address else address + (addressingMode host ins t).value) rn = _
  rw [hself]
  cases hp : getBit ins 24 with
  | true =>
    show (if getBit ins 24 then base + offset else base) = _
    rw [hp, if_pos rfl]
  | false =>
    have hoffset : (addressingMode host ins t).value = offset :=
      addressingMode_after_transfer host locals h address s (hrm hp)
    rw [if_neg (by decide), hoffset]
    show (if getBit ins 24 then base + offset else base) + offset = _
    rw [hp, if_neg (by decide)]

/-- A transfer with an offset leaves its base, unless it is a load into it. -/
theorem armLoadStore_base_kept (hp : getBit ins 24 = true) (hw : getBit ins 21 = false) :
    let rn := registerIndex (getMode s.reg) (regField ins 16)
    let address := (armReadRegister (regField ins 16) s).value + (addressingMode host ins s).value
    (armLoadStore host locals ins s).state.reg rn =
      if getBit ins 20 = true ∧ regField ins 12 = regField ins 16 then
        transferredValue host locals ins address s
      else s.reg rn := by
  intro rn address
  have hback : ¬(getBit ins 24 = false ∨ getBit ins 21 = true) := by
    rw [hp, hw]
    decide
  have haddress : transferAddress host ins s = address := if_pos hp
  rw [armLoadStore_state host locals ins s, if_neg hback, haddress,
    transferValue_reg host locals ins address s h.not_user]
  cases hload : getBit ins 20 with
  | false => rfl
  | true =>
    by_cases hrd : regField ins 12 = regField ins 16
    · rw [if_pos rfl, if_pos ⟨rfl, hrd⟩, hrd]
      exact Function.update_self rn _ s.reg
    · rw [if_pos rfl, if_neg fun hboth => hrd hboth.2]
      exact Function.update_of_ne (fun heq => hrd (registerIndex_injective_any _ heq.symm)) _ _

end

/-- Where a single transfer goes and what it leaves in its base.  A base that is also the
destination of a load without write-back holds the loaded value afterwards. -/
theorem armLoadStore_addressing (host : Host) (locals : Locals) (ins : BitVec 32) (s : Core)
    (h : IsSingleTransfer ins)
    (hrm : getBit ins 24 = false → getBit ins 20 = true → readsOffsetRegister ins = true →
      regField ins 0 ≠ regField ins 12) :
    let base := (armReadRegister (regField ins 16) s).value
    let offset := (addressingMode host ins s).value
    let address := if getBit ins 24 then base + offset else base
    let rn := registerIndex (getMode s.reg) (regField ins 16)
    let run := armLoadStore host locals ins s
    memoryAccesses run.trace =
        [dataAccess s.mem (getBit ins 20) (transferWidth ins) address] ∧
      (getBit ins 24 = false ∨ getBit ins 21 = true → run.state.reg rn = s.reg rn + offset) ∧
      (getBit ins 24 = true → getBit ins 21 = false →
        run.state.reg rn =
          if getBit ins 20 = true ∧ regField ins 12 = regField ins 16 then
            transferredValue host locals ins address s
          else s.reg rn) := by
  intro base offset address rn run
  refine ⟨armLoadStore_accesses host locals ins s, ?_, ?_⟩
  · intro hback
    exact armLoadStore_base_updated host locals h s hback hrm
  · intro hp hw
    have haddress : address = base + offset := if_pos hp
    rw [haddress]
    exact armLoadStore_base_kept host locals h s hp hw

/-- A core with `address` in `r0` and `r1`, and a word at address 8. -/
def transferCore (address : BitVec 32) : Core where
  cycleCount := 0
  reg := fun i => if i = 0 ∨ i = 1 then address else if i = cpsrIndex then 0x10 else 0
  mem := memoryOfWords false 64 [0, 0, 0x55]

/-- `LDR r2, [r1], #4`. -/
theorem armLoadStore_addressing_post :
    (armLoadStore (.modular false) ⟨0, 0⟩ 0xE4912004 (transferCore 8)).state.reg 1 = 12 :=
  (armLoadStore_addressing (.modular false) ⟨0, 0⟩ 0xE4912004 (transferCore 8)
    ⟨by decide, by decide, by decide⟩ (by decide)).2.1 (by decide)

/-- `LDR r0, [r0]` leaves the word it loads in its base. -/
theorem armLoadStore_loads_base :
    IsSingleTransfer 0xE5900000 ∧ getBit 0xE5900000 24 = true ∧ getBit 0xE5900000 21 = false ∧
      regField 0xE5900000 16 = 0 ∧ (transferCore 8).reg 0 = 8 ∧
      (armLoadStore (.modular false) ⟨0, 0⟩ 0xE5900000 (transferCore 8)).state.reg 0 = 0x55 :=
  ⟨⟨by decide, by decide, by decide⟩, by decide, by decide, by decide, by decide,
    by decide +kernel⟩

/-! ## Widths -/

/-- A transfer whose width is that of its opcode: one access of a word or of a byte, as the B
bit says, in the immediate form, and an access of a half in no encoding but the one that has
them. -/
structure WidthOfOpcode (ins : BitVec 32) (accesses : List Access) : Prop where
  immediate : getBits ins 27 25 = 0b010 → ∃ type a result,
    accesses = [.memory type (if getBit ins 22 then 1 else 4) .otherAccess a result]
  half : ∀ type cause a result, .memory type 2 cause a result ∈ accesses →
    getBits ins 27 25 = 0b000

/-- The width is that of the opcode unless bits 7 and 4 of an offset are both set. -/
theorem armLoadStore_width_iff (host : Host) (locals : Locals) (ins : BitVec 32) (s : Core) :
    WidthOfOpcode ins (memoryAccesses (armLoadStore host locals ins s).trace) ↔
      getBits ins 27 25 = 0b000 ∨ ¬(getBit ins 7 = true ∧ getBit ins 4 = true) := by
  rw [armLoadStore_accesses]
  unfold dataAccess transferWidth
  constructor
  · intro h
    by_cases hbits : getBit ins 7 = true ∧ getBit ins 4 = true
    · rw [if_pos hbits] at h
      exact Or.inl (h.half _ _ _ _ (List.mem_singleton_self _))
    · exact Or.inr hbits
  · intro h
    constructor
    · intro htype
      have hbits : ¬(getBit ins 7 = true ∧ getBit ins 4 = true) := by
        rcases h with h | h
        · exact absurd (htype.symm.trans h) (by decide)
        · exact h
      rw [if_neg hbits]
      exact ⟨_, _, _, rfl⟩
    · intro type cause a result hmem
      rcases h with h | h
      · exact h
      · rw [if_neg h, List.mem_singleton, Access.memory.injEq] at hmem
        have hsize := hmem.2.1
        split at hsize <;> omega

/-- `LDR r2, [r1, #0x90]` reads a half. -/
theorem armLoadStore_reads_half :
    getBits 0xE5912090 27 25 = 0b010 ∧ getBit 0xE5912090 22 = false ∧
      memoryAccesses (armLoadStore (.modular false) ⟨0, 0⟩ 0xE5912090 (transferCore 8)).trace =
        [.memory .read 2 .otherAccess 0x98 dataAbort] ∧
      ¬ WidthOfOpcode 0xE5912090
        (memoryAccesses
          (armLoadStore (.modular false) ⟨0, 0⟩ 0xE5912090 (transferCore 8)).trace) := by
  have haccesses :
      memoryAccesses (armLoadStore (.modular false) ⟨0, 0⟩ 0xE5912090 (transferCore 8)).trace =
        [.memory .read 2 .otherAccess 0x98 dataAbort] := by
    decide +kernel
  refine ⟨by decide, by decide, haccesses, fun h => ?_⟩
  rw [haccesses] at h
  exact absurd (h.half _ _ _ _ (List.mem_singleton_self _)) (by decide)

end ArmSimulator
