/-
Carry and overflow of additions and subtractions.

The code reads the two flags off three signs, those of the first operand, of the second
one and of the result.  It takes the second sign from an operand that it has adjusted
before, and it keeps the carry of the operand when that is set.  The words and flags for
which this gives the flags of the architecture are characterised below, for every opcode.
-/
import ArmSimulator.Proof.Flags

namespace ArmSimulator

/-! ## The flags of the code -/

section

variable (opcode : Opcode) (x v : BitVec 32) (c carry : Bool)

/-- The sign of the second operand, as the flag code takes it. -/
def operandSign : Bool := flagSign opcode x (adjustedOperand opcode carry v)

/-- The carry and the overflow that `arm_data_processing` gives an arithmetic opcode on `x`
and `v`, with `c` the carry of the operand and `carry` the flag before. -/
def flagCarry : Bool :=
  c || Word.signCarry (getBit x 31) (operandSign opcode x v carry)
    (getBit (opcodeResult opcode x v carry) 31)

def flagOverflow : Bool :=
  Word.signOverflow (getBit x 31) (operandSign opcode x v carry)
    (getBit (opcodeResult opcode x v carry) 31)

end

section

variable {ins : BitVec 32} (hs : getBit ins 20 = true) (hrd : regField ins 12 ≠ 15)
include hs hrd

theorem armDataProcessing_arithmetic (host : Host) (s : Core)
    (hop : (insOpcode ins).isLogical = false) :
    let x := (armReadRegister (regField ins 16) s).value
    let operand := (dataProcessingOperand host ins s).value
    let carry := getBit (readCpsr s.reg) Flag.c
    let cpsr := readCpsr (armDataProcessing host ins s).state.reg
    getBit cpsr Flag.c = flagCarry (insOpcode ins) x operand.1 operand.2 carry ∧
      getBit cpsr Flag.v = flagOverflow (insOpcode ins) x operand.1 carry := by
  intro x operand carry cpsr
  have hcpsr : cpsr = insStatus host ins s := readCpsr_armDataProcessing hs hrd host s
  rw [hcpsr]
  exact flagWord_arithmetic _ _ _ _ _ _ hop

end

/-! ## Additions -/

/-- The carry that goes into an addition. -/
def carryIn (opcode : Opcode) (carry : Bool) : Bool := opcode = .adc && carry

/-- The operands and flags for which an addition has the flags of the architecture.  The carry
of the operand is or-ed in, and with a carry to add the sign is taken from `v + 1`. -/
def AddsRight (opcode : Opcode) (x v : BitVec 32) (c carry : Bool) : Prop :=
  if opcode = .adc ∧ carry = true then
    v ≠ 0x7FFFFFFF ∧
      if v = 0xFFFFFFFF then c = true else c = false ∨ 2 ^ 32 ≤ x.toNat + v.toNat + 1
  else c = false ∨ 2 ^ 32 ≤ x.toNat + v.toNat

theorem or_right_iff (c b : Bool) : (c || b) = b ↔ c = false ∨ b = true := by
  cases c <;> cases b <;> decide

/-- Where the sign of the second operand is right, so is the overflow, and the carry is right
unless the operand's own carry is or-ed in. -/
theorem add_flags_of_sign {opcode : Opcode} {x v : BitVec 32} {c carry k : Bool}
    (hsign : operandSign opcode x v carry = v.getLsbD 31)
    (hres : (opcodeResult opcode x v carry).toNat = (x.toNat + v.toNat + k.toNat) % 2 ^ 32) :
    (flagCarry opcode x v c carry = Word.addCarry x v k ∧
      flagOverflow opcode x v carry = Word.addOverflow x v k) ↔
        c = false ∨ 2 ^ 32 ≤ x.toNat + v.toNat + k.toNat := by
  obtain ⟨hcarry, hoverflow⟩ := Word.add_eq_signs hres
  unfold flagCarry flagOverflow getBit
  rw [hsign, ← hcarry, ← hoverflow, or_right_iff]
  unfold Word.addCarry
  rw [decide_eq_true_eq]
  exact and_iff_left rfl

theorem add_flags_iff (opcode : Opcode) (hop : opcode = .add ∨ opcode = .cmn)
    (x v : BitVec 32) (c carry : Bool) :
    (flagCarry opcode x v c carry = Word.addCarry x v false ∧
      flagOverflow opcode x v carry = Word.addOverflow x v false) ↔
        c = false ∨ 2 ^ 32 ≤ x.toNat + v.toNat := by
  rcases hop with rfl | rfl
  · exact add_flags_of_sign (by simp [operandSign, flagSign, adjustedOperand, getBit])
      (BitVec.toNat_add x v)
  · exact add_flags_of_sign (by simp [operandSign, flagSign, adjustedOperand, getBit])
      (BitVec.toNat_add x v)

theorem toNat_bitWord (b : Bool) : (bitWord b).toNat = b.toNat := by
  cases b <;> rfl

theorem adc_result (x v : BitVec 32) (carry : Bool) :
    (opcodeResult .adc x v carry).toNat = (x.toNat + v.toNat + carry.toNat) % 2 ^ 32 := by
  show (x + v + bitWord carry).toNat = _
  rw [BitVec.toNat_add, BitVec.toNat_add, toNat_bitWord]
  omega

theorem operandSign_adc (x v : BitVec 32) (carry : Bool) :
    operandSign .adc x v carry = (if carry then v + 1 else v).getLsbD 31 := by
  simp [operandSign, flagSign, adjustedOperand, getBit]

/-- The sign of `0x7FFFFFFF + 1` is not that of the operand, and the overflow is inverted. -/
theorem adc_overflow_max (x : BitVec 32) :
    flagOverflow .adc x 0x7FFFFFFF true ≠ Word.addOverflow x 0x7FFFFFFF true := by
  have hres := adc_result x 0x7FFFFFFF true
  have hmax : (0x7FFFFFFF : BitVec 32).toNat = 2 ^ 31 - 1 := rfl
  have hmax' : (0x7FFFFFFF : BitVec 32).toInt = 2 ^ 31 - 1 := by decide
  have hone : true.toNat = 1 := Bool.toNat_true
  have hsign : operandSign .adc x 0x7FFFFFFF true = true := by
    rw [operandSign_adc]
    decide
  have hx := x.isLt
  rw [hmax, hone] at hres
  unfold flagOverflow Word.signOverflow Word.addOverflow getBit
  rw [hsign, hmax', hone, BitVec.toInt_eq_toNat_cond]
  rcases Word.sign_cases x with ⟨hsx, hx'⟩ | ⟨hsx, hx'⟩ <;>
    rcases Word.sign_cases (opcodeResult .adc x 0x7FFFFFFF true) with ⟨hsr, hr'⟩ | ⟨hsr, hr'⟩ <;>
    rw [hsx, hsr] <;> simp <;> omega

/-- Adding `0xFFFFFFFF` and a carry gives `x` back, with a carry that the signs do not
show. -/
theorem adc_flags_minus_one (x : BitVec 32) (c : Bool) :
    flagCarry .adc x 0xFFFFFFFF c true = c ∧ Word.addCarry x 0xFFFFFFFF true = true ∧
      flagOverflow .adc x 0xFFFFFFFF true = Word.addOverflow x 0xFFFFFFFF true := by
  have hnum : (0xFFFFFFFF : BitVec 32).toNat = 2 ^ 32 - 1 := rfl
  have hone : true.toNat = 1 := Bool.toNat_true
  have hx := x.isLt
  have hback : opcodeResult .adc x 0xFFFFFFFF true = x := by
    apply BitVec.eq_of_toNat_eq
    rw [adc_result, hnum, hone]
    omega
  have hsign : operandSign .adc x 0xFFFFFFFF true = false := by
    rw [operandSign_adc]
    decide
  have hint : (0xFFFFFFFF : BitVec 32).toInt = -1 := by decide
  have hbounds : -2 ^ 31 ≤ x.toInt ∧ x.toInt ≤ 2 ^ 31 - 1 := by
    rw [BitVec.toInt_eq_toNat_cond]
    split <;> omega
  unfold flagCarry flagOverflow Word.addCarry Word.addOverflow Word.signCarry Word.signOverflow
  rw [hback, hsign, hnum, hint, hone]
  refine ⟨?_, ?_, ?_⟩
  · cases getBit x 31 <;> simp
  · exact decide_eq_true (by omega)
  · cases getBit x 31 <;> simp <;> omega

theorem adc_flags_iff (x v : BitVec 32) (c carry : Bool) :
    (flagCarry .adc x v c carry = Word.addCarry x v carry ∧
      flagOverflow .adc x v carry = Word.addOverflow x v carry) ↔ AddsRight .adc x v c carry := by
  cases carry with
  | false =>
    rw [add_flags_of_sign (operandSign_adc x v false) (adc_result x v false)]
    simp [AddsRight]
  | true =>
    unfold AddsRight
    rw [if_pos ⟨rfl, rfl⟩]
    by_cases hmax : v = 0x7FFFFFFF
    · subst hmax
      exact iff_of_false (fun h => adc_overflow_max x h.2) (fun h => h.1 rfl)
    · by_cases hminus : v = 0xFFFFFFFF
      · subst hminus
        obtain ⟨hcarry, hadd, hoverflow⟩ := adc_flags_minus_one x c
        rw [hcarry, hadd, if_pos rfl]
        exact ⟨fun h => ⟨hmax, h.1⟩, fun h => ⟨h.2, hoverflow⟩⟩
      · have hv := v.isLt
        have hone : (v + 1).toNat = (v.toNat + 1) % 2 ^ 32 := BitVec.toNat_add v 1
        have hne : v.toNat ≠ 2 ^ 31 - 1 := fun h => hmax (BitVec.eq_of_toNat_eq h)
        have hne' : v.toNat ≠ 2 ^ 32 - 1 := fun h => hminus (BitVec.eq_of_toNat_eq h)
        have hsame : (v + 1).getLsbD 31 = v.getLsbD 31 := by
          apply Word.sign_congr
          omega
        rw [add_flags_of_sign ((operandSign_adc x v true).trans hsame) (adc_result x v true),
          if_neg hminus]
        exact (and_iff_right hmax).symm

/-- The flags of an addition are those of the architecture exactly when the carry of the
operand does no harm and, with a carry to add, the sign of the operand does not change
with it. -/
theorem addition_flags_iff (host : Host) (ins : BitVec 32) (s : Core)
    (hop : insOpcode ins = .add ∨ insOpcode ins = .adc ∨ insOpcode ins = .cmn)
    (hs : getBit ins 20 = true) (hrd : regField ins 12 ≠ 15) :
    let x := (armReadRegister (regField ins 16) s).value
    let operand := (dataProcessingOperand host ins s).value
    let carry := getBit (readCpsr s.reg) Flag.c
    let cpsr := readCpsr (armDataProcessing host ins s).state.reg
    (getBit cpsr Flag.c = Word.addCarry x operand.1 (carryIn (insOpcode ins) carry) ∧
      getBit cpsr Flag.v = Word.addOverflow x operand.1 (carryIn (insOpcode ins) carry)) ↔
        AddsRight (insOpcode ins) x operand.1 operand.2 carry := by
  intro x operand carry cpsr
  have hlogical : (insOpcode ins).isLogical = false := by
    rcases hop with h | h | h <;> rw [h] <;> rfl
  obtain ⟨hc, hv⟩ := armDataProcessing_arithmetic hs hrd host s hlogical
  rw [hc, hv]
  rcases hop with h | h | h <;> rw [h]
  · exact add_flags_iff .add (Or.inl rfl) x operand.1 operand.2 carry
  · exact adc_flags_iff x operand.1 operand.2 carry
  · exact add_flags_iff .cmn (Or.inr rfl) x operand.1 operand.2 carry

theorem addition_flags_five :
    let cpsr := readCpsr
      (armDataProcessing (.modular false) 0xE2912003 (compareCore 0x10 5)).state.reg
    getBit cpsr Flag.c = Word.addCarry 5 3 false ∧ getBit cpsr Flag.v = Word.addOverflow 5 3 false :=
  (addition_flags_iff (.modular false) 0xE2912003 (compareCore 0x10 5) (by decide) (by decide)
    (by decide)).mpr (Or.inl (by decide))

/-- With the carry set before, `ADDS r2, r1, #3` has a carry for `5 + 3`. -/
theorem addition_keeps_stale_carry :
    insOpcode 0xE2912003 = .add ∧ getBit 0xE2912003 20 = true ∧ regField 0xE2912003 12 ≠ 15 ∧
      (armReadRegister (regField 0xE2912003 16) (compareCore 0x20000010 5)).value = 5 ∧
      (dataProcessingOperand (.modular false) 0xE2912003 (compareCore 0x20000010 5)).value =
        (3, true) ∧
      ¬ getBit (readCpsr (armDataProcessing (.modular false) 0xE2912003
        (compareCore 0x20000010 5)).state.reg) Flag.c = Word.addCarry 5 3 false := by
  decide +kernel

/-! ## Subtractions -/

/-- The borrow that goes into a subtraction. -/
def borrowIn (opcode : Opcode) (carry : Bool) : Bool := (opcode = .sbc || opcode = .rsc) && !carry

/-- The two sides of a subtraction. -/
def minuend (opcode : Opcode) (x v : BitVec 32) : BitVec 32 :=
  if opcode = .rsb ∨ opcode = .rsc then v else x

def subtrahend (opcode : Opcode) (x v : BitVec 32) : BitVec 32 :=
  if opcode = .rsb ∨ opcode = .rsc then x else v

/-- Where the sign of the second operand is complemented, a subtraction from `x` is right
unless the operand's own carry is or-ed in. -/
theorem sub_flags_of_sign {opcode : Opcode} {x v : BitVec 32} {c carry k : Bool}
    (hsign : operandSign opcode x v carry = !v.getLsbD 31)
    (hres : (opcodeResult opcode x v carry).toNat =
      (x.toNat + (2 ^ 32 - v.toNat) + (2 ^ 32 - k.toNat)) % 2 ^ 32) :
    (flagCarry opcode x v c carry = Word.subCarry x v k ∧
      flagOverflow opcode x v carry = Word.subOverflow x v k) ↔
        c = false ∨ v.toNat + k.toNat ≤ x.toNat := by
  obtain ⟨hcarry, hoverflow⟩ := Word.sub_eq_signs hres
  unfold flagCarry flagOverflow getBit
  rw [hsign, ← hcarry, ← hoverflow, or_right_iff]
  unfold Word.subCarry
  rw [decide_eq_true_eq]
  exact and_iff_left rfl

/-- A subtraction from `v` has the signs of its operands the wrong way round, which is right
only when they agree. -/
theorem rsub_flags_of_sign {opcode : Opcode} {x v : BitVec 32} {c carry k : Bool}
    (hsign : operandSign opcode x v carry = !v.getLsbD 31)
    (hres : (opcodeResult opcode x v carry).toNat =
      (v.toNat + (2 ^ 32 - x.toNat) + (2 ^ 32 - k.toNat)) % 2 ^ 32) :
    (flagCarry opcode x v c carry = Word.subCarry v x k ∧
      flagOverflow opcode x v carry = Word.subOverflow v x k) ↔
        getBit x 31 = getBit v 31 ∧ (c = false ∨ x.toNat + k.toNat ≤ v.toNat) := by
  obtain ⟨hcarry, hoverflow⟩ := Word.sub_eq_signs hres
  unfold flagCarry flagOverflow getBit
  rw [hsign, hoverflow]
  by_cases hsame : x.getLsbD 31 = v.getLsbD 31
  · rw [hsame] at hcarry ⊢
    rw [← hcarry, or_right_iff]
    unfold Word.subCarry
    rw [decide_eq_true_eq]
    exact ⟨fun h => ⟨rfl, h.1⟩, fun h => ⟨h.2, rfl⟩⟩
  · refine iff_of_false (fun h => hsame ?_) (fun h => hsame h.1)
    have h := h.2
    revert h
    unfold Word.signOverflow
    cases x.getLsbD 31 <;> cases v.getLsbD 31 <;>
      cases (opcodeResult opcode x v carry).getLsbD 31 <;> decide

/-- The operands and flags for which a subtraction has the flags of the architecture.  The
carry of the operand is or-ed in; the sign of the operand is complemented only when `x` is
not zero; RSB and RSC have the signs of their operands the wrong way round; and without the
carry SBC and RSB take the sign from `v - 1`, which differs from that of `v` where `v` is 0 or
the smallest number. -/
def SubtractsRight (opcode : Opcode) (x v : BitVec 32) (c carry : Bool) : Prop :=
  match opcode with
  | .sbc =>
    if carry = true then ComparesRight x v c
    else if x = 0 then (v = 0 ∨ v = 0x80000000) ∧ c = false
    else if v = 0 then x ≠ 0x80000000 ∧ c = true
    else v ≠ 0x80000000 ∧ (c = false ∨ v.toNat + 1 ≤ x.toNat)
  | .rsb =>
    if x = 0 then
      if carry = true then c = true else v = 0 ∨ (v ≠ 0x80000000 ∧ c = true)
    else (carry = true ∨ (v ≠ 0 ∧ v ≠ 0x80000000)) ∧ getBit x 31 = getBit v 31 ∧
      (c = false ∨ x.toNat ≤ v.toNat)
  | .rsc =>
    if x = 0 then (carry = true ∨ (v ≠ 0 ∧ v ≠ 0x80000000)) ∧ c = true
    else getBit x 31 = getBit v 31 ∧ (c = false ∨ x.toNat + (!carry).toNat ≤ v.toNat)
  | _ => ComparesRight x v c

theorem toNat_sub_sub (a b : BitVec 32) (k : Bool) :
    (a - b - bitWord k).toNat = (a.toNat + (2 ^ 32 - b.toNat) + (2 ^ 32 - k.toNat)) % 2 ^ 32 := by
  have hb := b.isLt
  have hk := Bool.toNat_le k
  rw [BitVec.toNat_sub, BitVec.toNat_sub, toNat_bitWord]
  omega

theorem toNat_sub_zero (a b : BitVec 32) :
    (a - b).toNat = (a.toNat + (2 ^ 32 - b.toNat) + (2 ^ 32 - false.toNat)) % 2 ^ 32 := by
  have hb := b.isLt
  rw [BitVec.toNat_sub, Bool.toNat_false]
  omega

def Opcode.isSubtraction : Opcode → Bool
  | .sub | .rsb | .sbc | .rsc => true
  | _ => false

theorem operandSign_of_ne_zero {opcode : Opcode} (hop : opcode.isSubtraction = true)
    {x : BitVec 32} (hx : x ≠ 0) (v : BitVec 32) (carry : Bool) :
    operandSign opcode x v carry = !(adjustedOperand opcode carry v).getLsbD 31 := by
  unfold operandSign flagSign
  rw [if_pos ⟨hx, by revert hop; cases opcode <;> decide⟩]
  simp [getBit]

theorem operandSign_zero (opcode : Opcode) (v : BitVec 32) (carry : Bool) :
    operandSign opcode 0 v carry = (adjustedOperand opcode carry v).getLsbD 31 := by
  unfold operandSign flagSign
  rw [if_neg fun h => h.1 rfl]
  rfl

/-- The flags of the code as conditions on the words, where `P` says that the second sign is
set. -/
theorem flags_iff {opcode : Opcode} {x v : BitVec 32} {carry : Bool} {P : Prop} [Decidable P]
    (hsign : operandSign opcode x v carry = decide P) (c : Bool) (A B : Prop) [Decidable A]
    [Decidable B] :
    (flagCarry opcode x v c carry = decide A ∧ flagOverflow opcode x v carry = decide B) ↔
      ((c = true ∨ (2 ^ 31 ≤ x.toNat ∧ P) ∨
          ((opcodeResult opcode x v carry).toNat < 2 ^ 31 ∧ ¬(2 ^ 31 ≤ x.toNat ↔ P))) ↔ A) ∧
        (((2 ^ 31 ≤ x.toNat ↔ P) ∧ (P ↔ (opcodeResult opcode x v carry).toNat < 2 ^ 31)) ↔ B) := by
  unfold flagCarry flagOverflow Word.signCarry Word.signOverflow getBit
  rw [hsign]
  generalize opcodeResult opcode x v carry = r
  apply and_congr <;> rw [Bool.eq_iff_iff, decide_eq_true_eq] <;> apply iff_congr _ Iff.rfl <;>
    rcases Word.sign_cases x with ⟨hsx, hx⟩ | ⟨hsx, hx⟩ <;>
    rcases Word.sign_cases r with ⟨hsr, hr⟩ | ⟨hsr, hr⟩ <;>
    rw [hsx, hsr] <;> by_cases hP : P <;> simp [hP] <;> omega

/-- SUB, and SBC without a borrow. -/
theorem sub_flags_iff {opcode : Opcode} (hop : opcode.isSubtraction = true) {x v : BitVec 32}
    {carry : Bool} (hadj : adjustedOperand opcode carry v = v)
    (hres : opcodeResult opcode x v carry = x - v) (c : Bool) :
    (flagCarry opcode x v c carry = Word.subCarry x v false ∧
      flagOverflow opcode x v carry = Word.subOverflow x v false) ↔ ComparesRight x v c := by
  have hnum : (opcodeResult opcode x v carry).toNat = _ := hres ▸ toNat_sub_zero x v
  unfold ComparesRight
  by_cases hx : x = 0
  · subst hx
    have hv := v.isLt
    have h0 : (0 : BitVec 32).toNat = 0 := rfl
    have hsign : operandSign opcode 0 v carry = decide (2 ^ 31 ≤ v.toNat) := by
      rw [operandSign_zero, hadj, Word.sign_eq]
    rw [h0, Bool.toNat_false] at hnum
    rw [(Word.sub_from_zero v false).1, (Word.sub_from_zero v false).2, flags_iff hsign, hnum,
      Word.eq_zero_iff v, h0, Bool.toNat_false]
    cases c <;> simp <;> omega
  · have hsign : operandSign opcode x v carry = !v.getLsbD 31 := by
      rw [operandSign_of_ne_zero hop hx, hadj]
    rw [sub_flags_of_sign hsign hnum]
    simp only [ne_eq, hx, not_false_eq_true, true_and, false_and, or_false,
      BitVec.ule_iff_toNat_le, Bool.toNat_false, Nat.add_zero]

theorem rsc_flags_iff (x v : BitVec 32) (c carry : Bool) :
    (flagCarry .rsc x v c carry = Word.subCarry v x (!carry) ∧
      flagOverflow .rsc x v carry = Word.subOverflow v x (!carry)) ↔
        SubtractsRight .rsc x v c carry := by
  have hres : (opcodeResult .rsc x v carry).toNat = _ := toNat_sub_sub v x (!carry)
  unfold SubtractsRight
  by_cases hx : x = 0
  · subst hx
    have hv := v.isLt
    have h0 : (0 : BitVec 32).toNat = 0 := rfl
    have hsign := (operandSign_zero .rsc v carry).trans (Word.sign_eq v)
    rw [h0] at hres
    simp only [ne_eq, Word.eq_zero_iff, Word.eq_min_iff]
    rw [(Word.sub_zero_eq v _).1, (Word.sub_zero_eq v _).2, flags_iff hsign, hres, h0]
    cases c <;> cases carry <;> simp <;> omega
  · have hsign : operandSign .rsc x v carry = !v.getLsbD 31 :=
      operandSign_of_ne_zero rfl hx v carry
    simp only [if_neg hx]
    exact rsub_flags_of_sign hsign hres

/-- Without the carry RSB is wrong on 0 and on the smallest number. -/
theorem rsb_flags_wrong {x v : BitVec 32} (hx : x ≠ 0) (hv : v = 0 ∨ v = 0x80000000) (c : Bool) :
    ¬(flagCarry .rsb x v c false = Word.subCarry v x false ∧
      flagOverflow .rsb x v false = Word.subOverflow v x false) := by
  have hsign := operandSign_of_ne_zero (rfl : Opcode.rsb.isSubtraction = true) hx v false
  have hres : (opcodeResult .rsb x v false).toNat = _ := toNat_sub_zero v x
  have hlt := x.isLt
  have hpos : x.toNat ≠ 0 := fun h => hx ((Word.eq_zero_iff x).mpr h)
  rcases hv with rfl | rfl
  · have hb : operandSign .rsb x 0 false = decide False := hsign.trans (by decide)
    have h0 : (0 : BitVec 32).toNat = 0 := rfl
    rw [h0, Bool.toNat_false] at hres
    rw [(Word.sub_from_zero x false).1, (Word.sub_from_zero x false).2, flags_iff hb, hres,
      Bool.toNat_false]
    cases c <;> simp <;> omega
  · have hb : operandSign .rsb x 0x80000000 false = decide True := hsign.trans (by decide)
    have hmin : (0x80000000 : BitVec 32).toNat = 2 ^ 31 := rfl
    have hmin' : (0x80000000 : BitVec 32).toInt = -2 ^ 31 := by decide
    rw [hmin, Bool.toNat_false] at hres
    unfold Word.subCarry Word.subOverflow
    rw [flags_iff hb, hres, hmin, hmin', Bool.toNat_false, BitVec.toInt_eq_toNat_cond]
    cases c <;> simp <;> omega

theorem rsb_flags_iff (x v : BitVec 32) (c carry : Bool) :
    (flagCarry .rsb x v c carry = Word.subCarry v x false ∧
      flagOverflow .rsb x v carry = Word.subOverflow v x false) ↔
        SubtractsRight .rsb x v c carry := by
  have hres : (opcodeResult .rsb x v carry).toNat = _ := toNat_sub_zero v x
  unfold SubtractsRight
  by_cases hx : x = 0
  · subst hx
    have hv := v.isLt
    have h0 : (0 : BitVec 32).toNat = 0 := rfl
    have hsign := (operandSign_zero .rsb v carry).trans (Word.sign_eq _)
    rw [h0, Bool.toNat_false] at hres
    simp only [ne_eq, Word.eq_zero_iff, Word.eq_min_iff]
    rw [(Word.sub_zero_eq v _).1, (Word.sub_zero_eq v _).2, flags_iff hsign, hres, h0]
    cases carry with
    | true => cases c <;> simp [adjustedOperand] <;> omega
    | false =>
      have hadj : adjustedOperand .rsb false v = v - 1 := rfl
      rw [hadj, Word.toNat_sub_one]
      cases c <;> simp <;> omega
  · simp only [if_neg hx]
    cases carry with
    | true =>
      have hsign : operandSign .rsb x v true = !v.getLsbD 31 :=
        operandSign_of_ne_zero rfl hx v true
      rw [rsub_flags_of_sign hsign hres]
      simp
    | false =>
      by_cases hspecial : v = 0 ∨ v = 0x80000000
      · refine iff_of_false (rsb_flags_wrong hx hspecial c) ?_
        rintro ⟨hcase, -⟩
        rcases hspecial with h | h <;> simp [h] at hcase
      · have hne : v ≠ 0 ∧ v ≠ 0x80000000 := not_or.mp hspecial
        have hsign : operandSign .rsb x v false = !v.getLsbD 31 := by
          rw [operandSign_of_ne_zero rfl hx, ← Word.sign_sub_one hne.1 hne.2]
          rfl
        rw [rsub_flags_of_sign hsign hres, and_iff_right (Or.inr hne)]
        rfl

/-- SBC with a borrow of an operand that is 0. -/
theorem sbc_flags_zero {x : BitVec 32} (hx : x ≠ 0) (c : Bool) :
    (flagCarry .sbc x 0 c false = Word.subCarry x 0 true ∧
      flagOverflow .sbc x 0 false = Word.subOverflow x 0 true) ↔ x ≠ 0x80000000 ∧ c = true := by
  have hsign := operandSign_of_ne_zero (rfl : Opcode.sbc.isSubtraction = true) hx 0 false
  have hb : operandSign .sbc x 0 false = decide False := hsign.trans (by decide)
  have hres : (opcodeResult .sbc x 0 false).toNat = _ := toNat_sub_sub x 0 true
  have h0 : (0 : BitVec 32).toNat = 0 := rfl
  have hlt := x.isLt
  have hpos : x.toNat ≠ 0 := fun h => hx ((Word.eq_zero_iff x).mpr h)
  rw [h0, Bool.toNat_true] at hres
  rw [(Word.sub_zero_eq x true).1, (Word.sub_zero_eq x true).2, flags_iff hb, hres, ne_eq,
    Word.eq_min_iff,
    Bool.toNat_true]
  cases c <;> simp <;> omega

/-- SBC with a borrow of the smallest number. -/
theorem sbc_flags_min {x : BitVec 32} (hx : x ≠ 0) (c : Bool) :
    ¬(flagCarry .sbc x 0x80000000 c false = Word.subCarry x 0x80000000 true ∧
      flagOverflow .sbc x 0x80000000 false = Word.subOverflow x 0x80000000 true) := by
  have hsign := operandSign_of_ne_zero (rfl : Opcode.sbc.isSubtraction = true) hx 0x80000000 false
  have hb : operandSign .sbc x 0x80000000 false = decide True := hsign.trans (by decide)
  have hres : (opcodeResult .sbc x 0x80000000 false).toNat = _ := toNat_sub_sub x 0x80000000 true
  have hmin : (0x80000000 : BitVec 32).toNat = 2 ^ 31 := rfl
  have hmin' : (0x80000000 : BitVec 32).toInt = -2 ^ 31 := by decide
  have hlt := x.isLt
  have hpos : x.toNat ≠ 0 := fun h => hx ((Word.eq_zero_iff x).mpr h)
  rw [hmin, Bool.toNat_true] at hres
  unfold Word.subCarry Word.subOverflow
  rw [flags_iff hb, hres, hmin, hmin', Bool.toNat_true, BitVec.toInt_eq_toNat_cond]
  cases c <;> simp <;> omega

theorem sbc_flags_iff (x v : BitVec 32) (c carry : Bool) :
    (flagCarry .sbc x v c carry = Word.subCarry x v (!carry) ∧
      flagOverflow .sbc x v carry = Word.subOverflow x v (!carry)) ↔
        SubtractsRight .sbc x v c carry := by
  cases carry with
  | true => exact sub_flags_iff rfl rfl (BitVec.sub_zero _) c
  | false =>
    have hres : (opcodeResult .sbc x v false).toNat = _ := toNat_sub_sub x v true
    unfold SubtractsRight
    simp only [Bool.false_eq_true, if_false, Bool.not_false]
    by_cases hx : x = 0
    · subst hx
      have hv := v.isLt
      have h0 : (0 : BitVec 32).toNat = 0 := rfl
      have hadj : adjustedOperand .sbc false v = v - 1 := rfl
      have hsign := (operandSign_zero .sbc v false).trans (Word.sign_eq _)
      rw [h0, Bool.toNat_true] at hres
      simp only [Word.eq_zero_iff, Word.eq_min_iff]
      rw [(Word.sub_from_zero v _).1, (Word.sub_from_zero v _).2, flags_iff hsign, hres, hadj,
        Word.toNat_sub_one, h0, Bool.toNat_true]
      cases c with
      | true => simp
      | false =>
        simp
        omega
    · simp only [if_neg hx]
      by_cases hzero : v = 0
      · subst hzero
        simp only [if_true]
        exact sbc_flags_zero hx c
      · simp only [if_neg hzero]
        by_cases hmin : v = 0x80000000
        · subst hmin
          exact iff_of_false (sbc_flags_min hx c) (fun h => h.1 rfl)
        · have hsign : operandSign .sbc x v false = !v.getLsbD 31 := by
            rw [operandSign_of_ne_zero rfl hx, ← Word.sign_sub_one hzero hmin]
            rfl
          rw [sub_flags_of_sign hsign hres, and_iff_right hmin]
          rfl

/-- The flags of a subtraction are those of the architecture exactly for the operands and
flags of `SubtractsRight`. -/
theorem subtraction_flags_iff (host : Host) (ins : BitVec 32) (s : Core)
    (hop : insOpcode ins = .sub ∨ insOpcode ins = .rsb ∨ insOpcode ins = .sbc ∨
      insOpcode ins = .rsc)
    (hs : getBit ins 20 = true) (hrd : regField ins 12 ≠ 15) :
    let x := (armReadRegister (regField ins 16) s).value
    let operand := (dataProcessingOperand host ins s).value
    let carry := getBit (readCpsr s.reg) Flag.c
    let cpsr := readCpsr (armDataProcessing host ins s).state.reg
    let p := minuend (insOpcode ins) x operand.1
    let q := subtrahend (insOpcode ins) x operand.1
    (getBit cpsr Flag.c = Word.subCarry p q (borrowIn (insOpcode ins) carry) ∧
      getBit cpsr Flag.v = Word.subOverflow p q (borrowIn (insOpcode ins) carry)) ↔
        SubtractsRight (insOpcode ins) x operand.1 operand.2 carry := by
  intro x operand carry cpsr p q
  have hlogical : (insOpcode ins).isLogical = false := by
    rcases hop with h | h | h | h <;> rw [h] <;> rfl
  obtain ⟨hc, hv⟩ := armDataProcessing_arithmetic hs hrd host s hlogical
  rw [hc, hv]
  show (_ = Word.subCarry (minuend _ x operand.1) (subtrahend _ x operand.1) _ ∧
    _ = Word.subOverflow (minuend _ x operand.1) (subtrahend _ x operand.1) _) ↔ _
  rcases hop with h | h | h | h <;> rw [h]
  · exact sub_flags_iff rfl rfl rfl operand.2
  · exact rsb_flags_iff x operand.1 operand.2 carry
  · exact sbc_flags_iff x operand.1 operand.2 carry
  · exact rsc_flags_iff x operand.1 operand.2 carry

/-- `SUBS r2, r1, #3`, with 5 in `r1`. -/
theorem subtraction_flags_five :
    let cpsr := readCpsr
      (armDataProcessing (.modular false) 0xE2512003 (compareCore 0x10 5)).state.reg
    getBit cpsr Flag.c = Word.subCarry 5 3 false ∧ getBit cpsr Flag.v = Word.subOverflow 5 3 false :=
  (subtraction_flags_iff (.modular false) 0xE2512003 (compareCore 0x10 5) (by decide) (by decide)
    (by decide)).mpr (Or.inl ⟨by decide, Or.inl (by decide)⟩)

/-- `SUBS r2, r1, #3` with 0 in `r1` leaves the overflow set, though `0 - 3` has none. -/
theorem subtraction_from_zero_overflows :
    insOpcode 0xE2512003 = .sub ∧ getBit 0xE2512003 20 = true ∧ regField 0xE2512003 12 ≠ 15 ∧
      (armReadRegister (regField 0xE2512003 16) (compareCore 0x10 0)).value = 0 ∧
      (dataProcessingOperand (.modular false) 0xE2512003 (compareCore 0x10 0)).value =
        (3, false) ∧
      ¬ getBit (readCpsr (armDataProcessing (.modular false) 0xE2512003
        (compareCore 0x10 0)).state.reg) Flag.v = Word.subOverflow 0 3 false := by
  decide +kernel

end ArmSimulator
