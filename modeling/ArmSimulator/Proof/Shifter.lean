/-
The shifter operand against addressing mode 1 of the architecture.

`shifter_operand` takes a zero count for a shift by 32 where the instruction shifts by a
register, and not where it shifts by an immediate; it shifts one bit too few for ASR; and
it hands a register to the host's shifts as a whole.  The counts and operands for which it
returns the operand and the carry of the architecture all the same are characterised below.
-/
import ArmSimulator.Model.Shiftwise
import ArmSimulator.Proof.DataProcessing

namespace ArmSimulator

/-! ## The architecture -/

/-- A shift by `n`, which is not zero, with the last bit shifted out. -/
def shiftBy (kind : ShiftKind) (rm : BitVec 32) (n : Nat) : BitVec 32 × Bool :=
  match kind with
  | .lsl => (rm <<< n, decide (n ≤ 32) && rm.getLsbD (32 - n))
  | .lsr => (rm >>> n, rm.getLsbD (n - 1))
  | .asr => (rm.sshiftRight n, rm.getLsbD (min n 32 - 1))
  | .ror => (rm.rotateRight (n % 32), rm.getLsbD ((n - 1) % 32))

/-- A shift by an immediate: zero stands for no shift, for a shift by 32 or for RRX. -/
def immediateShift (kind : ShiftKind) (rm : BitVec 32) (n : Nat) (carry : Bool) :
    BitVec 32 × Bool :=
  if n = 0 then
    match kind with
    | .lsl => (rm, carry)
    | .lsr => shiftBy .lsr rm 32
    | .asr => shiftBy .asr rm 32
    | .ror => (rm >>> 1 ||| bitWord carry <<< 31, rm.getLsbD 0)
  else shiftBy kind rm n

/-- A shift by the low byte `n` of a register. -/
def registerShift (kind : ShiftKind) (rm : BitVec 32) (n : Nat) (carry : Bool) :
    BitVec 32 × Bool :=
  if n = 0 then (rm, carry) else shiftBy kind rm n

/-! ## The code -/

/-- What `shifter_operand` returns for the count `shift`. -/
def shifted (host : Host) (kind : ShiftKind) (rm shift : BitVec 32) (carry : Bool) :
    BitVec 32 × Bool :=
  match kind with
  | .lsl => (host.shl rm shift.toNat, if shift = 0 then carry else host.getBit rm (32 - shift).toNat)
  | .lsr => (host.shr rm shift.toNat, if shift = 0 then carry else host.getBit rm (shift - 1).toNat)
  | .asr => (asr host rm ((shift - 1).setWidth 8), host.getBit rm (shift - 1).toInt)
  | .ror =>
    if shift = 0 then (rm >>> 1 ||| bitWord carry <<< 31, rm.getLsbD 0)
    else (ror host rm (shift.setWidth 8), host.getBit rm (shift - 1).toNat)

/-- The counts of the shifts that `shifter_operand` evaluates. -/
def shiftCounts (kind : ShiftKind) (rm shift : BitVec 32) : List Int :=
  match kind with
  | .lsl => (if shift = 0 then [] else [((32 - shift).toNat : Int)]) ++ [(shift.toNat : Int)]
  | .lsr => (if shift = 0 then [] else [((shift - 1).toNat : Int)]) ++ [(shift.toNat : Int)]
  | .asr =>
    (shift - 1).toInt :: ((shift - 1).setWidth 8).toNat ::
      (if getBit rm 31 then [32 - (((shift - 1).setWidth 8).toNat : Int)] else [])
  | .ror =>
    if shift = 0 then []
    else [((shift - 1).toNat : Int), ((shift.setWidth 8).toNat : Int),
      32 - ((shift.setWidth 8).toNat : Int)]

section

variable (host : Host) (ins : BitVec 32) (s : Core)

theorem shifterAmount_state : (shifterAmount ins s).state = s :=
  (shifterAmount_effect readEffect_eq ins s).1

theorem shifterAmount_immediate (h4 : getBit ins 4 = false) :
    (shifterAmount ins s).value = (getBits ins 11 7).setWidth 32 := by
  simp only [shifterAmount, h4, Bool.false_eq_true, if_false, and_false, Traced.bind_value,
    Traced.pure_apply]

theorem shifterOperand_value :
    (shifterOperand host ins s).value =
      shifted host (.ofField (getBits ins 6 5)) (armReadRegister (regField ins 0) s).value
        (shifterAmount ins s).value (getBit (readCpsr s.reg) Flag.c) := by
  have hcarry : (armReadCarry s).value = getBit (readCpsr s.reg) Flag.c := rfl
  have hstate : (armReadRegister (regField ins 0) s).state = s := rfl
  simp only [shifterOperand, Traced.bind_value, hstate, shifterAmount_state]
  generalize (armReadRegister (regField ins 0) s).value = rm
  generalize (shifterAmount ins s).value = shift
  unfold shifted
  by_cases hzero : shift = 0
  · cases ShiftKind.ofField (getBits ins 6 5) <;> simp only [hzero, if_true, hcarry] <;> rfl
  · cases ShiftKind.ofField (getBits ins 6 5) <;> simp only [hzero, if_false] <;> rfl

theorem shiftwise_value :
    (Shiftwise.shifterOperand host ins s).value =
      (shifterOperand host ins s).value := by
  have hcarry : (Shiftwise.armReadCarry s).value = getBit (readCpsr s.reg) Flag.c := rfl
  have hstate : (Shiftwise.armReadRegister (regField ins 0) s).state = s := rfl
  rw [shifterOperand_value]
  simp only [Shiftwise.shifterOperand, Traced.bind_value, hstate, Shiftwise.shifterAmount_state,
    Shiftwise.shifterAmount_value]
  show _ = shifted host _ (Shiftwise.armReadRegister (regField ins 0) s).value _ _
  generalize (Shiftwise.armReadRegister (regField ins 0) s).value = rm
  generalize (shifterAmount ins s).value = shift
  unfold shifted
  by_cases hzero : shift = 0
  · cases ShiftKind.ofField (getBits ins 6 5) <;>
      simp only [hzero, if_true, hcarry, Traced.bind_value, Traced.pure_apply,
        Shiftwise.asr_value] <;> rfl
  · cases ShiftKind.ofField (getBits ins 6 5) <;>
      simp only [hzero, if_false, Traced.bind_value, Traced.pure_apply, Shiftwise.asr_value] <;> rfl

theorem shiftwise_asr_trace (value : BitVec 32) (shift : BitVec 8) :
    (Shiftwise.asr host value shift s).trace =
      (shift.toNat : Int) ::
        (if getBit value 31 then [32 - (shift.toNat : Int)] else []) := by
  unfold Shiftwise.asr
  cases getBit value 31 <;> rfl

theorem shiftwise_trace :
    (Shiftwise.shifterOperand host ins s).trace =
      shiftCounts (.ofField (getBits ins 6 5)) (armReadRegister (regField ins 0) s).value
        (shifterAmount ins s).value := by
  have hstate : (Shiftwise.armReadRegister (regField ins 0) s).state = s := rfl
  have htrace : (Shiftwise.armReadRegister (regField ins 0) s).trace = [] := rfl
  have hamount : (Shiftwise.shifterAmount ins s).trace = [] := by
    unfold Shiftwise.shifterAmount
    cases getBit ins 4 <;> rfl
  simp only [Shiftwise.shifterOperand, Traced.bind_trace, hstate, htrace, hamount,
    Shiftwise.shifterAmount_state, Shiftwise.shifterAmount_value, List.nil_append]
  show _ = shiftCounts _ (Shiftwise.armReadRegister (regField ins 0) s).value _
  generalize (Shiftwise.armReadRegister (regField ins 0) s).value = rm
  generalize (shifterAmount ins s).value = shift
  unfold shiftCounts
  by_cases hzero : shift = 0
  · cases ShiftKind.ofField (getBits ins 6 5) <;>
      simp only [hzero, if_true, Traced.bind_trace, Traced.pure_apply, shiftwise_asr_trace,
        List.append_nil] <;> rfl
  · cases ShiftKind.ofField (getBits ins 6 5) <;>
      simp only [hzero, if_false, Traced.bind_trace, Traced.pure_apply, shiftwise_asr_trace,
        List.append_nil] <;> rfl

end

/-! ## Shifts the host agrees on -/

theorem Host.getBit_of_lt (host : Host) (x : BitVec 32) {n : Nat} (h : n < 32) :
    host.getBit x n = x.getLsbD n := by
  unfold Host.getBit
  rw [Host.shr_of_lt host x h, BitVec.getLsbD_ushiftRight, Nat.add_zero]

theorem Host.shl_zero (host : Host) (x : BitVec 32) : host.shl x 0 = x :=
  (Host.shl_of_lt host x (by decide)).trans (BitVec.shiftLeft_zero x)

theorem Host.shr_zero (host : Host) (x : BitVec 32) : host.shr x 0 = x :=
  (Host.shr_of_lt host x (by decide)).trans (BitVec.ushiftRight_zero x)

theorem asr_eq_sshiftRight (host : Host) (value : BitVec 32) {shift : BitVec 8}
    (hpos : 0 < shift.toNat) (hlt : shift.toNat < 32) :
    asr host value shift = value.sshiftRight shift.toNat := by
  have hcount : (32 - (shift.toNat : Int)) = ((32 - shift.toNat : Nat) : Int) := by omega
  have hones : ~~~(0 : BitVec 32) = BitVec.allOnes 32 := rfl
  unfold asr getBit
  rw [Host.shr_of_lt host value hlt, hcount, Host.shl_of_lt host _ (by omega), hones]
  apply BitVec.eq_of_getLsbD_eq
  intro i hi
  rw [Word.getLsbD_sshiftRight_of_lt value hi, BitVec.getLsbD_or, BitVec.getLsbD_ushiftRight]
  by_cases hin : shift.toNat + i < 32
  · have hfill : i < 32 - shift.toNat := by omega
    rw [if_pos hin]
    cases value.getLsbD 31 <;> simp [hfill]
  · have hfill : ¬i < 32 - shift.toNat := by omega
    have hone : (BitVec.allOnes 32).getLsbD (i - (32 - shift.toNat)) = true := by
      rw [BitVec.getLsbD_allOnes, decide_eq_true_eq]
      omega
    rw [if_neg hin, BitVec.getLsbD_of_ge value _ (by omega), Bool.false_or]
    cases value.getLsbD 31 with
    | false => simp
    | true =>
      rw [if_pos rfl, BitVec.getLsbD_shiftLeft, hone, decide_eq_true hi, decide_eq_false hfill]
      rfl

theorem asr_zero (host : Host) (value : BitVec 32) :
    asr host value 0 = value ||| if getBit value 31 then host.shl (~~~0) 32 else 0 := by
  have hshr : host.shr value ((0 : BitVec 8).toNat : Int) = value := Host.shr_zero host value
  unfold asr
  rw [hshr]
  rfl

theorem toNat_width_sub {shift : BitVec 32} (hlt : shift.toNat < 32) :
    (32 - shift).toNat = 32 - shift.toNat := by
  have hsub : (32 - shift).toNat = (2 ^ 32 - shift.toNat + 32) % 2 ^ 32 := BitVec.toNat_sub 32 shift
  omega

theorem toNat_lowByte {shift : BitVec 32} (hlt : shift.toNat < 256) :
    (shift.setWidth 8).toNat = shift.toNat := by
  rw [BitVec.toNat_setWidth]
  omega

section

variable {shift : BitVec 32} (hpos : 0 < shift.toNat)
include hpos

theorem toNat_shift_sub_one : (shift - 1).toNat = shift.toNat - 1 := by
  have hlt := shift.isLt
  rw [Word.toNat_sub_one]
  omega

theorem toInt_shift_sub_one (hle : shift.toNat ≤ 32) :
    (shift - 1).toInt = ((shift.toNat - 1 : Nat) : Int) := by
  have hone := toNat_shift_sub_one hpos
  rw [BitVec.toInt_eq_toNat_of_lt (by omega), hone]

theorem ne_zero_of_pos : shift ≠ 0 := by
  rintro rfl
  exact absurd hpos (by decide)

/-- LSL, LSR and ROR by a count in `1..31`. -/
theorem shifted_of_lt (host : Host) {kind : ShiftKind} (hkind : kind ≠ .asr)
    (hlt : shift.toNat < 32) (rm : BitVec 32) (carry : Bool) :
    shifted host kind rm shift carry = shiftBy kind rm shift.toNat := by
  have hbyte := toNat_lowByte (by omega : shift.toNat < 256)
  have hone := toNat_shift_sub_one hpos
  have hne := ne_zero_of_pos hpos
  cases kind with
  | asr => exact absurd rfl hkind
  | lsl =>
    simp only [shifted, if_neg hne, shiftBy]
    rw [toNat_width_sub hlt, Host.shl_of_lt host rm hlt, Host.getBit_of_lt host rm (by omega),
      decide_eq_true (by omega), Bool.true_and]
  | lsr =>
    simp only [shifted, if_neg hne, shiftBy]
    rw [hone, Host.shr_of_lt host rm hlt, Host.getBit_of_lt host rm (by omega)]
  | ror =>
    simp only [shifted, if_neg hne, shiftBy]
    rw [hone, ror_eq_rotateRight host rm (by omega), hbyte, Host.getBit_of_lt host rm (by omega),
      Nat.mod_eq_of_lt hlt, Nat.mod_eq_of_lt (by omega)]

/-- ASR by a count in `1..32` has the right carry and a value shifted by one bit less. -/
theorem shifted_asr (host : Host) (hle : shift.toNat ≤ 32) (rm : BitVec 32) (carry : Bool) :
    shifted host .asr rm shift carry =
      (asr host rm (BitVec.ofNat 8 (shift.toNat - 1)), rm.getLsbD (shift.toNat - 1)) := by
  have hbyte : (shift - 1).setWidth 8 = BitVec.ofNat 8 (shift.toNat - 1) := by
    apply BitVec.eq_of_toNat_eq
    rw [BitVec.toNat_setWidth, toNat_shift_sub_one hpos, BitVec.toNat_ofNat]
  simp only [shifted]
  rw [hbyte, toInt_shift_sub_one hpos hle, Host.getBit_of_lt host rm (by omega)]

end

/-- ASR by a count in `2..32` is right where the last bit shifted makes no difference. -/
theorem asr_pred_eq_iff (host : Host) (rm : BitVec 32) {n : Nat} (h2 : 2 ≤ n) (hle : n ≤ 32) :
    asr host rm (BitVec.ofNat 8 (n - 1)) = rm.sshiftRight n ↔ Word.SignFilled rm (n - 1) := by
  have hnum : (BitVec.ofNat 8 (n - 1)).toNat = n - 1 := by
    rw [BitVec.toNat_ofNat]
    omega
  have hsucc := Word.sshiftRight_succ_eq_iff rm (m := n - 1) (by omega)
  rw [Nat.sub_add_cancel (by omega)] at hsucc
  rw [asr_eq_sshiftRight host rm (by omega) (by omega), hnum, eq_comm, hsucc]

/-! ## Immediate shifts -/

/-- The operands for which an immediate shift is that of the architecture, whatever the host
does with a count out of range.  A zero count is no shift by 32, and ASR shifts by one bit
less. -/
def ImmediateShiftRight (kind : ShiftKind) (rm : BitVec 32) (n : Nat) (carry : Bool) : Prop :=
  match kind with
  | .lsl => True
  | .lsr => n ≠ 0 ∨ (rm = 0 ∧ carry = false)
  | .asr => n ≠ 0 ∧ Word.SignFilled rm (n - 1)
  | .ror => True

/-- A host that gives `y` for every right shift out of range, and shifts out every bit to the
left. -/
def Host.filling (y : BitVec 32) : Host where
  isBigEndian := false
  shlOut _ _ := 0
  shrOut _ _ := y
  shlOut_width _ := Or.inr rfl

/-- ASR by 1 calls `asr` with 0, which shifts left by 32 to fill in the sign. -/
theorem asr_zero_eq_iff (rm : BitVec 32) :
    (∀ host, asr host rm 0 = rm.sshiftRight 1) ↔ Word.SignFilled rm 0 := by
  rw [← Word.sshiftRight_succ_eq_iff rm (by decide), BitVec.sshiftRight_zero]
  constructor
  · intro h
    have hfill : (Host.filling 0).shl (~~~0) 32 = 0 := rfl
    have hrm := h (Host.filling 0)
    rw [asr_zero, hfill, ite_self] at hrm
    exact hrm.symm.trans BitVec.or_zero
  · intro h host
    rw [h, asr_zero]
    rcases (Word.sshiftRight_one_eq_self rm).mp h with rfl | rfl
    · rw [if_neg (by decide)]
      rfl
    · exact BitVec.allOnes_or

theorem shifted_asr_zero (rm : BitVec 32) (carry : Bool) :
    ∃ host, shifted host .asr rm 0 carry ≠ shiftBy .asr rm 32 := by
  -- The carry is a right shift by -1, for which a host may give any bit.
  have hfilling : ∀ y, shifted (Host.filling y) .asr rm 0 carry = shiftBy .asr rm 32 →
      y.getLsbD 0 = rm.getLsbD 31 := fun y h => congrArg Prod.snd h
  cases hsign : rm.getLsbD 31 with
  | true => exact ⟨Host.filling 0, fun h => absurd ((hfilling 0 h).trans hsign) (by decide)⟩
  | false => exact ⟨Host.filling 1, fun h => absurd ((hfilling 1 h).trans hsign) (by decide)⟩

theorem shifted_zero_iff (kind : ShiftKind) (rm : BitVec 32) (carry : Bool) :
    (∀ host, shifted host kind rm 0 carry = immediateShift kind rm 0 carry) ↔
      ImmediateShiftRight kind rm 0 carry := by
  have hshr : ∀ host : Host, host.shr rm ((0 : BitVec 32).toNat : Int) = rm :=
    fun host => Host.shr_zero host rm
  cases kind with
  | lsl =>
    refine iff_of_true (fun host => ?_) trivial
    exact congrArg (fun v => (v, carry)) (Host.shl_zero host rm)
  | lsr =>
    have hout : shiftBy .lsr rm 32 = (0, rm.getLsbD 31) := by
      have hzero : rm >>> 32 = 0 := BitVec.ushiftRight_eq_zero (Nat.le_refl 32)
      unfold shiftBy
      rw [hzero]
    show (∀ host : Host, (host.shr rm ((0 : BitVec 32).toNat : Int), carry) = shiftBy .lsr rm 32) ↔
      (0 ≠ 0 ∨ (rm = 0 ∧ carry = false))
    rw [hout]
    constructor
    · intro h
      have hmod := h (Host.modular false)
      rw [hshr, Prod.mk.injEq] at hmod
      obtain ⟨rfl, hcarry⟩ := hmod
      exact Or.inr ⟨rfl, hcarry.trans (by decide)⟩
    · rintro (h | ⟨rfl, rfl⟩)
      · exact absurd rfl h
      · intro host
        rw [hshr]
        rfl
  | asr =>
    refine iff_of_false (fun h => ?_) (fun h => h.1 rfl)
    obtain ⟨host, hhost⟩ := shifted_asr_zero rm carry
    exact hhost (h host)
  | ror => exact iff_of_true (fun host => rfl) trivial

theorem shifted_immediate_iff (kind : ShiftKind) (rm : BitVec 32) {shift : BitVec 32}
    (hlt : shift.toNat < 32) (carry : Bool) :
    (∀ host, shifted host kind rm shift carry = immediateShift kind rm shift.toNat carry) ↔
      ImmediateShiftRight kind rm shift.toNat carry := by
  rcases Nat.eq_zero_or_pos shift.toNat with hzero | hpos
  · have hshift : shift = 0 := BitVec.eq_of_toNat_eq hzero
    subst hshift
    exact shifted_zero_iff kind rm carry
  · have hne : shift.toNat ≠ 0 := by omega
    unfold immediateShift
    rw [if_neg hne]
    by_cases hkind : kind = .asr
    · subst hkind
      have hmin : min shift.toNat 32 - 1 = shift.toNat - 1 := by omega
      have hvalue : ∀ host, shifted host .asr rm shift carry = shiftBy .asr rm shift.toNat ↔
          asr host rm (BitVec.ofNat 8 (shift.toNat - 1)) = rm.sshiftRight shift.toNat := by
        intro host
        rw [shifted_asr hpos host (by omega), shiftBy, hmin, Prod.mk.injEq]
        exact and_iff_left rfl
      simp only [hvalue, ImmediateShiftRight, ne_eq, hne, not_false_eq_true, true_and]
      by_cases hone : shift.toNat = 1
      · rw [hone]
        exact asr_zero_eq_iff rm
      · have hiff := fun host => asr_pred_eq_iff host rm (n := shift.toNat) (by omega) (by omega)
        simp only [hiff]
        exact ⟨fun h => h (Host.modular false), fun h _ => h⟩
    · refine iff_of_true (fun host => shifted_of_lt hpos host hkind hlt rm carry) ?_
      cases kind with
      | lsl => trivial
      | lsr => exact Or.inl hne
      | asr => exact absurd rfl hkind
      | ror => trivial

/-- A shift by an immediate gives the operand and the carry of the architecture on every host
exactly for the operands of `ImmediateShiftRight`. -/
theorem immediateShift_iff (ins : BitVec 32) (s : Core) (h4 : getBit ins 4 = false) :
    let kind := ShiftKind.ofField (getBits ins 6 5)
    let rm := (armReadRegister (regField ins 0) s).value
    let n := (getBits ins 11 7).toNat
    let carry := getBit (readCpsr s.reg) Flag.c
    (∀ host, (shifterOperand host ins s).value = immediateShift kind rm n carry) ↔
      ImmediateShiftRight kind rm n carry := by
  intro kind rm n carry
  have hn : (getBits ins 11 7).toNat < 2 ^ 5 := (getBits ins 11 7).isLt
  have hnat : ((getBits ins 11 7).setWidth 32).toNat = n := by
    rw [BitVec.toNat_setWidth]
    omega
  simp only [shifterOperand_value, shifterAmount_immediate ins s h4]
  rw [← hnat]
  exact shifted_immediate_iff kind rm (by omega) carry

/-- A core with the operand of a shift in `r1` and its count in `r3`. -/
def shiftCore (cpsr rm rs : BitVec 32) : Core where
  cycleCount := 0
  reg := fun i => if i = 1 then rm else if i = 3 then rs else if i = cpsrIndex then cpsr else 0
  mem := memoryOfWords false 64 []

/-- `MOV r2, r1, LSL #2`, with 5 in `r1`. -/
theorem immediateShift_five :
    (shifterOperand (.modular false) 0xE1A02101 (shiftCore 0x10 5 0)).value = (20, false) :=
  (immediateShift_iff 0xE1A02101 (shiftCore 0x10 5 0) (by decide)).mpr trivial (.modular false)

/-- `MOV r2, r1, ASR #1` leaves the 4 in `r1` as it is. -/
theorem immediateShift_asr_one :
    getBit 0xE1A020C1 4 = false ∧ ShiftKind.ofField (getBits 0xE1A020C1 6 5) = .asr ∧
      (armReadRegister (regField 0xE1A020C1 0) (shiftCore 0x10 4 0)).value = 4 ∧
      (getBits 0xE1A020C1 11 7).toNat = 1 ∧ immediateShift .asr 4 1 false = (2, false) ∧
      (shifterOperand (.modular false) 0xE1A020C1 (shiftCore 0x10 4 0)).value = (4, false) := by
  decide +kernel

/-! ## Register shifts -/

/-- The operands and counts for which a shift by a register is that of the architecture and no
count is out of range.  The count is the whole register; a zero count is a shift by 32 for
ASR and ROR; and ASR shifts by one bit less, which by 32 makes no difference. -/
def RegisterShiftRight (kind : ShiftKind) (rm rs : BitVec 32) (carry : Bool) : Prop :=
  match kind with
  | .lsl | .lsr => rs.toNat < 32
  | .asr =>
    if rs.toNat = 0 then (rm = 0 ∧ carry = false) ∨ (rm = -1 ∧ carry = true)
    else if rs.toNat = 1 then rm = 0
    else rs.toNat ≤ 32 ∧ Word.SignFilled rm (rs.toNat - 1)
  | .ror => 1 ≤ rs.toNat ∧ rs.toNat < 32

/-- The count of a shift by a register that holds `rs`. -/
def registerAmount (kind : ShiftKind) (rs : BitVec 32) : BitVec 32 :=
  if rs = 0 ∧ (kind = .asr ∨ kind = .ror) then 32 else rs

def InRange (counts : List Int) : Prop := ∀ count ∈ counts, 0 ≤ count ∧ count < 32

section

variable (host : Host) (rm : BitVec 32) (carry : Bool)

theorem inRange_of_lt {kind : ShiftKind} (hkind : kind ≠ .asr) {shift : BitVec 32}
    (hpos : 0 < shift.toNat) (hlt : shift.toNat < 32) : InRange (shiftCounts kind rm shift) := by
  have hbyte := toNat_lowByte (by omega : shift.toNat < 256)
  have hone := toNat_shift_sub_one hpos
  have hne := ne_zero_of_pos hpos
  intro count hcount
  cases kind with
  | asr => exact absurd rfl hkind
  | lsl =>
    simp only [shiftCounts, if_neg hne, toNat_width_sub hlt, List.cons_append, List.nil_append, List.mem_cons,
      List.not_mem_nil, or_false] at hcount
    omega
  | lsr =>
    simp only [shiftCounts, if_neg hne, hone, List.cons_append, List.nil_append, List.mem_cons,
      List.not_mem_nil, or_false] at hcount
    omega
  | ror =>
    simp only [shiftCounts, if_neg hne, hone, hbyte, List.mem_cons, List.not_mem_nil,
      or_false] at hcount
    omega

/-- LSL, LSR and ROR by a register that holds a number in `1..31`. -/
theorem shifted_register_of_lt {kind : ShiftKind} (hkind : kind ≠ .asr) {rs : BitVec 32}
    (hpos : 0 < rs.toNat) (hlt : rs.toNat < 32) :
    shifted host kind rm rs carry = registerShift kind rm (rs.toNat % 256) carry ∧
      InRange (shiftCounts kind rm rs) := by
  have hmod : rs.toNat % 256 = rs.toNat := Nat.mod_eq_of_lt (by omega)
  refine ⟨?_, inRange_of_lt rm hkind hpos hlt⟩
  rw [shifted_of_lt hpos host hkind hlt, hmod, registerShift, if_neg (by omega)]

theorem lsl_lsr_register_iff {kind : ShiftKind} (hkind : kind = .lsl ∨ kind = .lsr)
    (rs : BitVec 32) :
    (shifted host kind rm rs carry = registerShift kind rm (rs.toNat % 256) carry ∧
      InRange (shiftCounts kind rm rs)) ↔ rs.toNat < 32 := by
  constructor
  · rintro ⟨-, hcounts⟩
    have hmem : (rs.toNat : Int) ∈ shiftCounts kind rm rs := by
      rcases hkind with rfl | rfl <;> simp [shiftCounts]
    have hcount := hcounts _ hmem
    omega
  · intro hlt
    rcases Nat.eq_zero_or_pos rs.toNat with hzero | hpos
    · have hrs : rs = 0 := BitVec.eq_of_toNat_eq hzero
      subst hrs
      rcases hkind with rfl | rfl
      · exact ⟨congrArg (fun v => (v, carry)) (Host.shl_zero host rm), by simp [InRange, shiftCounts]⟩
      · exact ⟨congrArg (fun v => (v, carry)) (Host.shr_zero host rm), by simp [InRange, shiftCounts]⟩
    · exact shifted_register_of_lt host rm carry (by rcases hkind with rfl | rfl <;> decide) hpos hlt

theorem ror_register_iff (rs : BitVec 32) :
    (shifted host .ror rm (registerAmount .ror rs) carry =
        registerShift .ror rm (rs.toNat % 256) carry ∧
      InRange (shiftCounts .ror rm (registerAmount .ror rs))) ↔
        1 ≤ rs.toNat ∧ rs.toNat < 32 := by
  by_cases hzero : rs = 0
  · -- The count 32 goes to `ror`, which shifts right by it.
    subst hzero
    have hcounts : shiftCounts .ror rm (registerAmount .ror 0) = [31, 32, 0] := rfl
    rw [hcounts]
    refine iff_of_false (fun h => ?_) (by decide)
    exact absurd (h.2 32 (by decide)).2 (by decide)
  · have hamount : registerAmount .ror rs = rs := if_neg fun h => hzero h.1
    have hpos : 0 < rs.toNat := Nat.pos_of_ne_zero fun h => hzero (BitVec.eq_of_toNat_eq h)
    have hone := toNat_shift_sub_one hpos
    have hlist : shiftCounts .ror rm rs = _ := if_neg hzero
    rw [hamount]
    constructor
    · rintro ⟨-, hcounts⟩
      rw [hlist] at hcounts
      have hbit := hcounts ((rs - 1).toNat : Int) (by simp)
      have hrotate := hcounts ((rs.setWidth 8).toNat : Int) (by simp)
      rw [BitVec.toNat_setWidth] at hrotate
      omega
    · rintro ⟨-, hlt⟩
      exact shifted_register_of_lt host rm carry (by decide) hpos hlt

/-- The counts of ASR by a number in `1..32` leave the range only where the sign is filled in
by a left shift by 32. -/
theorem asr_counts {shift : BitVec 32} (hpos : 0 < shift.toNat) (hle : shift.toNat ≤ 32) :
    shiftCounts .asr rm shift =
      ((shift.toNat - 1 : Nat) : Int) :: ((shift.toNat - 1 : Nat) : Int) ::
        (if getBit rm 31 then [32 - ((shift.toNat - 1 : Nat) : Int)] else []) := by
  have hone := toNat_shift_sub_one hpos
  have hbyte := toNat_lowByte (by omega : (shift - 1).toNat < 256)
  unfold shiftCounts
  rw [toInt_shift_sub_one hpos hle, hbyte, hone]

theorem asr_inRange {shift : BitVec 32} (h2 : 2 ≤ shift.toNat) (hle : shift.toNat ≤ 32) :
    InRange (shiftCounts .asr rm shift) := by
  rw [asr_counts rm (by omega) hle]
  intro count hcount
  cases hsign : getBit rm 31 with
  | false =>
    simp only [hsign, Bool.false_eq_true, if_false, List.mem_cons, List.not_mem_nil,
      or_false] at hcount
    omega
  | true =>
    simp only [hsign, if_true, List.mem_cons, List.not_mem_nil, or_false] at hcount
    omega

/-- ASR by a register that holds 0 fills the word with the sign. -/
theorem asr_register_zero :
    (shifted host .asr rm 32 carry = (rm, carry) ∧ InRange (shiftCounts .asr rm 32)) ↔
      (rm = 0 ∧ carry = false) ∨ (rm = -1 ∧ carry = true) := by
  have hrange : InRange (shiftCounts .asr rm 32) := asr_inRange rm (by decide) (by decide)
  have hasr : asr host rm (BitVec.ofNat 8 31) = rm.sshiftRight 31 :=
    asr_eq_sshiftRight host rm (by decide) (by decide)
  have hvalue : shifted host .asr rm 32 carry = (rm.sshiftRight 31, rm.getLsbD 31) := by
    rw [shifted_asr (by decide) host (by decide)]
    exact congrArg (fun v => (v, rm.getLsbD 31)) hasr
  rw [hvalue, and_iff_left hrange, Prod.mk.injEq]
  constructor
  · rintro ⟨hfill, hcarry⟩
    -- Shifting once more makes no difference, and so the word is all sign.
    have hlast : rm.sshiftRight 32 = rm.sshiftRight 31 := by
      refine (Word.sshiftRight_succ_eq_iff rm (by decide)).mpr fun i hi h31 => ?_
      have hi31 : i = 31 := by omega
      rw [hi31]
    have hself : rm.sshiftRight 1 = rm := by
      have hadd : rm.sshiftRight 32 = (rm.sshiftRight 31).sshiftRight 1 :=
        BitVec.sshiftRight_add (m := 31) (n := 1)
      rw [hlast, hfill] at hadd
      exact hadd.symm
    rcases (Word.sshiftRight_one_eq_self rm).mp hself with rfl | rfl
    · exact Or.inl ⟨rfl, hcarry.symm.trans (by decide)⟩
    · exact Or.inr ⟨rfl, hcarry.symm.trans (by decide)⟩
  · rintro (⟨rfl, rfl⟩ | ⟨rfl, rfl⟩) <;> decide

/-- ASR by a register that holds 1 leaves the word as it is. -/
theorem asr_register_one :
    (shifted host .asr rm 1 carry = registerShift .asr rm 1 carry ∧
      InRange (shiftCounts .asr rm 1)) ↔ rm = 0 := by
  have hvalue : shifted host .asr rm 1 carry = (asr host rm 0, rm.getLsbD 0) :=
    shifted_asr (by decide) host (by decide) rm carry
  have hright : registerShift .asr rm 1 carry = (rm.sshiftRight 1, rm.getLsbD 0) := rfl
  have hcounts : shiftCounts .asr rm 1 = 0 :: 0 :: if getBit rm 31 then [32] else [] :=
    asr_counts rm (by decide) (by decide)
  rw [hvalue, hright, hcounts, Prod.mk.injEq, asr_zero]
  constructor
  · rintro ⟨⟨hasr, -⟩, hrange⟩
    cases hsign : getBit rm 31 with
    | true =>
      rw [hsign] at hrange
      exact absurd (hrange 32 (by simp)).2 (by decide)
    | false =>
      rw [hsign, if_neg (by decide)] at hasr
      have hself : rm.sshiftRight 1 = rm := hasr.symm.trans BitVec.or_zero
      rcases (Word.sshiftRight_one_eq_self rm).mp hself with h | h
      · exact h
      · rw [h] at hsign
        exact absurd hsign (by decide)
  · rintro rfl
    rw [if_neg (by decide), if_neg (by decide)]
    exact ⟨⟨rfl, rfl⟩, by simp [InRange]⟩

theorem asr_register_iff (rs : BitVec 32) :
    (shifted host .asr rm (registerAmount .asr rs) carry =
        registerShift .asr rm (rs.toNat % 256) carry ∧
      InRange (shiftCounts .asr rm (registerAmount .asr rs))) ↔
        RegisterShiftRight .asr rm rs carry := by
  unfold RegisterShiftRight
  by_cases hzero : rs = 0
  · subst hzero
    exact asr_register_zero host rm carry
  · have hamount : registerAmount .asr rs = rs := if_neg fun h => hzero h.1
    have hne : rs.toNat ≠ 0 := fun h => hzero (BitVec.eq_of_toNat_eq h)
    have hpos : 0 < rs.toNat := Nat.pos_of_ne_zero hne
    rw [hamount]
    simp only [if_neg hne]
    by_cases hone : rs.toNat = 1
    · have hrs : rs = 1 := BitVec.eq_of_toNat_eq hone
      subst hrs
      exact asr_register_one host rm carry
    · simp only [if_neg hone]
      by_cases hle : rs.toNat ≤ 32
      · have hmod : rs.toNat % 256 = rs.toNat := Nat.mod_eq_of_lt (by omega)
        have hmin : min rs.toNat 32 - 1 = rs.toNat - 1 := by omega
        have hiff := asr_pred_eq_iff host rm (n := rs.toNat) (by omega) hle
        rw [and_iff_left (asr_inRange rm (by omega) hle), and_iff_right hle, hmod,
          shifted_asr hpos host hle, registerShift, if_neg hne, shiftBy, hmin, Prod.mk.injEq,
          and_iff_left rfl, hiff]
      · refine iff_of_false (fun h => ?_) (fun h => hle h.1)
        have hcount := h.2 (rs - 1).toInt (by simp [shiftCounts])
        have hnum := toNat_shift_sub_one hpos
        rw [BitVec.toInt_eq_toNat_cond, hnum] at hcount
        split at hcount <;> omega

end

theorem shiftKind_bit (ins : BitVec 32) :
    getBit ins 6 = true ↔
      ShiftKind.ofField (getBits ins 6 5) = .asr ∨ ShiftKind.ofField (getBits ins 6 5) = .ror := by
  have hbit : getBit ins 6 = (getBits ins 6 5).getLsbD 1 := getBit_of_getBits rfl (by decide) (by decide)
  have hfield : ∀ f : BitVec 2, f.getLsbD 1 = true ↔
      ShiftKind.ofField f = .asr ∨ ShiftKind.ofField f = .ror := by
    decide
  rw [hbit]
  exact hfield _

/-- A shift by a register gives the operand and the carry of the architecture, without a count
out of range, exactly for the operands and counts of `RegisterShiftRight`. -/
theorem registerShift_iff (host : Host) (ins : BitVec 32) (s : Core) (h4 : getBit ins 4 = true) :
    let kind := ShiftKind.ofField (getBits ins 6 5)
    let rm := (armReadRegister (regField ins 0) s).value
    let rs := (armReadRegister (regField ins 8) s).value
    let n := (getBits rs 7 0).toNat
    let carry := getBit (readCpsr s.reg) Flag.c
    ((shifterOperand host ins s).value = registerShift kind rm n carry ∧
      ∀ count ∈ (Shiftwise.shifterOperand host ins s).trace, 0 ≤ count ∧ count < 32) ↔
        RegisterShiftRight kind rm rs carry := by
  intro kind rm rs n carry
  have hn : n = rs.toNat % 256 := by
    show (rs.extractLsb 7 0).toNat = _
    rw [BitVec.extractLsb_toNat]
    rfl
  have hamount : (shifterAmount ins s).value = registerAmount kind rs := by
    simp only [shifterAmount, h4, if_true, and_true, Traced.bind_value, Traced.pure_apply,
      shiftKind_bit]
    rfl
  rw [shiftwise_trace, shifterOperand_value, hamount, hn]
  show (shifted host kind rm (registerAmount kind rs) carry = _ ∧
    InRange (shiftCounts kind rm (registerAmount kind rs))) ↔ _
  cases kind with
  | lsl =>
    have hrs : registerAmount .lsl rs = rs := if_neg (by simp)
    rw [hrs]
    exact lsl_lsr_register_iff host rm carry (Or.inl rfl) rs
  | lsr =>
    have hrs : registerAmount .lsr rs = rs := if_neg (by simp)
    rw [hrs]
    exact lsl_lsr_register_iff host rm carry (Or.inr rfl) rs
  | asr => exact asr_register_iff host rm carry rs
  | ror => exact ror_register_iff host rm carry rs

/-- `MOV r2, r1, LSL r3`, with 5 in `r1` and 2 in `r3`. -/
theorem registerShift_two :
    (shifterOperand (.modular false) 0xE1A02311 (shiftCore 0x10 5 2)).value = (20, false) :=
  ((registerShift_iff (.modular false) 0xE1A02311 (shiftCore 0x10 5 2) (by decide)).mpr
    (by decide : (2 : BitVec 32).toNat < 32)).1

/-- `MOV r2, r1, LSL r3` with 33 in `r3` shifts by 33, which the host takes for 1. -/
theorem registerShift_thirty_three :
    getBit 0xE1A02311 4 = true ∧ ShiftKind.ofField (getBits 0xE1A02311 6 5) = .lsl ∧
      (armReadRegister (regField 0xE1A02311 0) (shiftCore 0x10 5 33)).value = 5 ∧
      (armReadRegister (regField 0xE1A02311 8) (shiftCore 0x10 5 33)).value = 33 ∧
      registerShift .lsl 5 33 false = (0, false) ∧
      (shifterOperand (.modular false) 0xE1A02311 (shiftCore 0x10 5 33)).value = (10, false) ∧
      33 ∈ (Shiftwise.shifterOperand (.modular false) 0xE1A02311 (shiftCore 0x10 5 33)).trace := by
  decide +kernel

end ArmSimulator
