/-
32-bit words: their bytes, their alignment, and the carry and overflow of a
subtraction.

A word is composed from four bytes by shifts and `|||`.  Composition and
decomposition are inverse to each other, whichever end comes first, which is all
a byte-addressed memory needs in order to hold words.
-/
import Mathlib.Data.BitVec
import Mathlib.Tactic.IntervalCases

namespace Word

/-! ## Bytes -/

/-- The word whose bytes are `b3` down to `b0`, the most significant first. -/
def ofBytes (b3 b2 b1 b0 : BitVec 8) : BitVec 32 :=
  b3.setWidth 32 <<< 24 ||| b2.setWidth 32 <<< 16 ||| b1.setWidth 32 <<< 8 ||| b0.setWidth 32

/-- Byte `k` of a word, counted from the least significant. -/
def byte (v : BitVec 32) (k : Nat) : BitVec 8 := (v >>> (8 * k)).setWidth 8

theorem ofBytes_byte (v : BitVec 32) :
    ofBytes (byte v 3) (byte v 2) (byte v 1) (byte v 0) = v := by
  apply BitVec.eq_of_getLsbD_eq
  intro i hi
  simp only [ofBytes, byte, BitVec.getLsbD_or, BitVec.getLsbD_shiftLeft,
    BitVec.getLsbD_setWidth, BitVec.getLsbD_ushiftRight]
  interval_cases i <;> simp

theorem toNat_shiftLeft_or {w : Nat} {x : BitVec 8} {n : Nat} (h : 8 + n ≤ w) {y : BitVec w}
    (hy : y.toNat < 2 ^ n) :
    (x.setWidth w <<< n ||| y).toNat = x.toNat * 2 ^ n + y.toNat := by
  have hx : x.toNat < 2 ^ 8 := x.isLt
  have hw : x.toNat < 2 ^ w := lt_of_lt_of_le hx (Nat.pow_le_pow_right (by decide) (by omega))
  have hshift : x.toNat <<< n < 2 ^ w := by
    calc x.toNat <<< n = x.toNat * 2 ^ n := Nat.shiftLeft_eq _ _
      _ < 2 ^ 8 * 2 ^ n := Nat.mul_lt_mul_of_pos_right hx (Nat.two_pow_pos n)
      _ = 2 ^ (8 + n) := (Nat.pow_add _ _ _).symm
      _ ≤ 2 ^ w := Nat.pow_le_pow_right (by decide) h
  rw [BitVec.toNat_or, BitVec.toNat_shiftLeft, BitVec.toNat_setWidth, Nat.mod_eq_of_lt hw,
    Nat.mod_eq_of_lt hshift, ← Nat.shiftLeft_add_eq_or_of_lt hy, Nat.shiftLeft_eq]

theorem toNat_ofBytes (b3 b2 b1 b0 : BitVec 8) :
    (ofBytes b3 b2 b1 b0).toNat =
      b3.toNat * 2 ^ 24 + (b2.toNat * 2 ^ 16 + (b1.toNat * 2 ^ 8 + b0.toNat)) := by
  have h0 := b0.isLt
  have h1 := b1.isLt
  have h2 := b2.isLt
  have e0 : (b0.setWidth 32).toNat = b0.toNat := by
    rw [BitVec.toNat_setWidth]
    omega
  have e1 : (b1.setWidth 32 <<< 8 ||| b0.setWidth 32).toNat = b1.toNat * 2 ^ 8 + b0.toNat := by
    rw [toNat_shiftLeft_or (by decide) (by omega), e0]
  have e2 : (b2.setWidth 32 <<< 16 ||| (b1.setWidth 32 <<< 8 ||| b0.setWidth 32)).toNat =
      b2.toNat * 2 ^ 16 + (b1.toNat * 2 ^ 8 + b0.toNat) := by
    rw [toNat_shiftLeft_or (by decide) (by omega), e1]
  rw [ofBytes, BitVec.or_assoc, BitVec.or_assoc, toNat_shiftLeft_or (by decide) (by omega), e2]

/-! ## Alignment -/

theorem getLsbD_zero_iff (x : BitVec 32) : x.getLsbD 0 = true ↔ x.toNat % 2 = 1 := by
  rw [BitVec.getLsbD, Nat.testBit_eq_decide_div_mod_eq, decide_eq_true_eq]
  omega

theorem getLsbD_one_iff (x : BitVec 32) : x.getLsbD 1 = true ↔ x.toNat / 2 % 2 = 1 := by
  rw [BitVec.getLsbD, Nat.testBit_eq_decide_div_mod_eq, decide_eq_true_eq]

theorem getLsbD_one_add_four (x : BitVec 32) : (x + 4).getLsbD 1 = x.getLsbD 1 := by
  rw [Bool.eq_iff_iff, getLsbD_one_iff, getLsbD_one_iff, BitVec.toNat_add]
  have h4 : (4 : BitVec 32).toNat = 4 := rfl
  have hx := x.isLt
  omega

theorem and_clear_bit_one {x : BitVec 32} (h : x.getLsbD 1 = false) : x &&& 0xFFFFFFFD = x := by
  apply BitVec.eq_of_getLsbD_eq
  intro i hi
  rw [BitVec.getLsbD_and]
  by_cases h1 : i = 1
  · rw [h1, h, Bool.false_and]
  · have hmask : ∀ j, j < 32 → j ≠ 1 → (0xFFFFFFFD : BitVec 32).getLsbD j = true := by decide
    rw [hmask i hi h1, Bool.and_true]

theorem and_clear_bit_one_of_set {x : BitVec 32} (h : x.getLsbD 1 = true) :
    x &&& 0xFFFFFFFD = x - 2 := by
  have hor : (x &&& 0xFFFFFFFD) ||| 2 = x := by
    apply BitVec.eq_of_getLsbD_eq
    intro i hi
    rw [BitVec.getLsbD_or, BitVec.getLsbD_and]
    by_cases h1 : i = 1
    · rw [h1, h]
      decide
    · have hmask : ∀ j, j < 32 → j ≠ 1 →
          (0xFFFFFFFD : BitVec 32).getLsbD j = true ∧ (2 : BitVec 32).getLsbD j = false := by
        decide
      rw [(hmask i hi h1).1, (hmask i hi h1).2, Bool.and_true, Bool.or_false]
  have hdisj : (x &&& 0xFFFFFFFD) &&& 2 = 0 := by
    rw [BitVec.and_assoc]
    exact BitVec.and_zero
  have hsum : (x &&& 0xFFFFFFFD) + 2 = x :=
    (BitVec.add_eq_or_of_and_eq_zero _ _ hdisj).trans hor
  rw [eq_comm, BitVec.sub_eq_iff_eq_add, hsum]

theorem getLsbD_one_of_aligned {x : BitVec 32} (h : x.toNat % 4 = 0) : x.getLsbD 1 = false := by
  rw [← Bool.not_eq_true, getLsbD_one_iff]
  omega

/-! ## Signs -/

/-- A sign as a number, for arithmetic on the words. -/
theorem sign_eq (x : BitVec 32) : x.getLsbD 31 = decide (2 ^ 31 ≤ x.toNat) :=
  (BitVec.msb_eq_getLsbD_last x).symm.trans (BitVec.msb_eq_decide x)

theorem sign_cases (x : BitVec 32) :
    (x.getLsbD 31 = true ∧ 2 ^ 31 ≤ x.toNat) ∨ (x.getLsbD 31 = false ∧ x.toNat < 2 ^ 31) := by
  rw [sign_eq]
  by_cases hx : 2 ^ 31 ≤ x.toNat
  · exact Or.inl ⟨decide_eq_true hx, hx⟩
  · exact Or.inr ⟨decide_eq_false hx, by omega⟩

/-- The signed order, from the sign of a subtraction and its overflow. -/
theorem sle_eq_signs (a b : BitVec 32) :
    b.sle a = ((a - b).getLsbD 31 ==
      (a.getLsbD 31 == !b.getLsbD 31 && (!b.getLsbD 31) != (a - b).getLsbD 31)) := by
  have hlt := a.isLt
  have hlt' := b.isLt
  have hsub : (a - b).toNat = (2 ^ 32 - b.toNat + a.toNat) % 2 ^ 32 := BitVec.toNat_sub a b
  have hsle : b.sle a = decide (b.toInt ≤ a.toInt) := rfl
  rw [hsle, BitVec.toInt_eq_toNat_cond, BitVec.toInt_eq_toNat_cond]
  rcases sign_cases a with ⟨ha, ha'⟩ | ⟨ha, ha'⟩ <;>
    rcases sign_cases b with ⟨hb, hb'⟩ | ⟨hb, hb'⟩ <;>
    rcases sign_cases (a - b) with ⟨hr, hr'⟩ | ⟨hr, hr'⟩ <;>
    rw [ha, hb, hr] <;>
    simp <;> omega

theorem unsigned_order (a b : BitVec 32) :
    a.ult b = !b.ule a ∧ b.ult a = (b.ule a && !(a == b)) ∧ a.ule b = (!b.ule a || a == b) := by
  refine ⟨?_, ?_, ?_⟩ <;> rw [Bool.eq_iff_iff] <;>
    simp only [Bool.not_eq_true', Bool.and_eq_true, Bool.or_eq_true, beq_iff_eq,
      ← Bool.not_eq_true, BitVec.ult_iff_toNat_lt, BitVec.ule_iff_toNat_le,
      ← BitVec.toNat_inj] <;> omega

theorem signed_order (a b : BitVec 32) :
    a.slt b = !b.sle a ∧ b.slt a = (!(a == b) && b.sle a) ∧ a.sle b = (a == b || !b.sle a) := by
  refine ⟨?_, ?_, ?_⟩ <;> rw [Bool.eq_iff_iff] <;>
    simp only [Bool.not_eq_true', Bool.and_eq_true, Bool.or_eq_true, beq_iff_eq,
      ← Bool.not_eq_true, BitVec.slt_iff_toInt_lt, BitVec.sle_iff_toInt_le,
      ← BitVec.toInt_inj] <;> omega

/-! ## Carry and overflow

Of `a + b + k` and of `a - b - k`, for a carry or a borrow `k`. -/

def addCarry (a b : BitVec 32) (k : Bool) : Bool := decide (2 ^ 32 ≤ a.toNat + b.toNat + k.toNat)

def addOverflow (a b : BitVec 32) (k : Bool) : Bool :=
  decide (¬(-2 ^ 31 ≤ a.toInt + b.toInt + k.toNat ∧ a.toInt + b.toInt + k.toNat ≤ 2 ^ 31 - 1))

def subCarry (a b : BitVec 32) (k : Bool) : Bool := decide (b.toNat + k.toNat ≤ a.toNat)

def subOverflow (a b : BitVec 32) (k : Bool) : Bool :=
  decide (¬(-2 ^ 31 ≤ a.toInt - b.toInt - k.toNat ∧ a.toInt - b.toInt - k.toNat ≤ 2 ^ 31 - 1))

/-- The carry and the overflow that the signs of the operands `a` and `b` of an addition and
of its result `r` give. -/
def signCarry (a b r : Bool) : Bool := (a && b) || (!r && a != b)

def signOverflow (a b r : Bool) : Bool := a == b && b != r

theorem sign_congr {x y : BitVec 32} (h : 2 ^ 31 ≤ x.toNat ↔ 2 ^ 31 ≤ y.toNat) :
    x.getLsbD 31 = y.getLsbD 31 := by
  rw [sign_eq, sign_eq, decide_eq_decide]
  exact h

theorem eq_zero_iff (x : BitVec 32) : x = 0 ↔ x.toNat = 0 := BitVec.toNat_inj.symm

theorem eq_min_iff (x : BitVec 32) : x = 0x80000000 ↔ x.toNat = 2 ^ 31 := BitVec.toNat_inj.symm

theorem toNat_sub_one (x : BitVec 32) : (x - 1).toNat = (2 ^ 32 - 1 + x.toNat) % 2 ^ 32 :=
  BitVec.toNat_sub x 1

/-- Of all words only zero and the smallest number change their sign when 1 is subtracted. -/
theorem sign_sub_one {x : BitVec 32} (hzero : x ≠ 0) (hmin : x ≠ 0x80000000) :
    (x - 1).getLsbD 31 = x.getLsbD 31 := by
  have hlt := x.isLt
  rw [ne_eq, eq_zero_iff] at hzero
  rw [ne_eq, eq_min_iff] at hmin
  apply sign_congr
  rw [toNat_sub_one]
  omega

/-- The signs decide an addition, whatever the carry that goes in. -/
theorem add_eq_signs {a b r : BitVec 32} {k : Bool}
    (hr : r.toNat = (a.toNat + b.toNat + k.toNat) % 2 ^ 32) :
    addCarry a b k = signCarry (a.getLsbD 31) (b.getLsbD 31) (r.getLsbD 31) ∧
      addOverflow a b k = signOverflow (a.getLsbD 31) (b.getLsbD 31) (r.getLsbD 31) := by
  have ha := a.isLt
  have hb := b.isLt
  have hk := Bool.toNat_le k
  unfold addCarry addOverflow signCarry signOverflow
  rw [BitVec.toInt_eq_toNat_cond, BitVec.toInt_eq_toNat_cond]
  rcases sign_cases a with ⟨hsa, ha'⟩ | ⟨hsa, ha'⟩ <;>
    rcases sign_cases b with ⟨hsb, hb'⟩ | ⟨hsb, hb'⟩ <;>
    rcases sign_cases r with ⟨hsr, hr'⟩ | ⟨hsr, hr'⟩ <;>
    rw [hsa, hsb, hsr] <;>
    constructor <;> simp <;> omega

theorem toInt_not (b : BitVec 32) : (~~~b).toInt = -b.toInt - 1 := by
  have hb := b.isLt
  rw [BitVec.toInt_eq_toNat_cond, BitVec.toInt_eq_toNat_cond, BitVec.toNat_not]
  split <;> split <;> omega

theorem toNat_not_bool (k : Bool) : (!k).toNat = 1 - k.toNat := by
  cases k <;> rfl

/-- A subtraction is the addition of the complement, with the borrow inverted. -/
theorem sub_eq_add_not (a b : BitVec 32) (k : Bool) :
    subCarry a b k = addCarry a (~~~b) (!k) ∧ subOverflow a b k = addOverflow a (~~~b) (!k) := by
  have hb := b.isLt
  have hk := Bool.toNat_le k
  unfold subCarry subOverflow addCarry addOverflow
  rw [toInt_not, BitVec.toNat_not, toNat_not_bool, decide_eq_decide, decide_eq_decide]
  omega

theorem sub_eq_signs {a b r : BitVec 32} {k : Bool}
    (hr : r.toNat = (a.toNat + (2 ^ 32 - b.toNat) + (2 ^ 32 - k.toNat)) % 2 ^ 32) :
    subCarry a b k = signCarry (a.getLsbD 31) (!b.getLsbD 31) (r.getLsbD 31) ∧
      subOverflow a b k = signOverflow (a.getLsbD 31) (!b.getLsbD 31) (r.getLsbD 31) := by
  have hb := b.isLt
  have hk := Bool.toNat_le k
  have hsum : r.toNat = (a.toNat + (~~~b).toNat + (!k).toNat) % 2 ^ 32 := by
    rw [hr, BitVec.toNat_not, toNat_not_bool]
    omega
  have hsign : (~~~b).getLsbD 31 = !b.getLsbD 31 := by
    rw [BitVec.getLsbD_not]
    rfl
  obtain ⟨hcarry, hoverflow⟩ := sub_eq_add_not a b k
  rw [hcarry, hoverflow, ← hsign]
  exact add_eq_signs hsum

/-- The carry of `a + ~b + 1`, from the signs: a subtraction does not borrow. -/
theorem ule_eq_signs (a b : BitVec 32) :
    b.ule a = ((a.getLsbD 31 && !b.getLsbD 31) ||
      (!(a - b).getLsbD 31 && (a.getLsbD 31 != !b.getLsbD 31))) := by
  have hborrow : (a - b).toNat =
      (a.toNat + (2 ^ 32 - b.toNat) + (2 ^ 32 - false.toNat)) % 2 ^ 32 := by
    rw [BitVec.toNat_sub, Bool.toNat_false]
    omega
  have hcarry := (sub_eq_signs hborrow).1
  rw [signCarry] at hcarry
  rw [← hcarry, subCarry, BitVec.ule_eq_decide, Bool.toNat_false, Nat.add_zero]

/-- Subtracting from zero, and subtracting zero. -/
theorem sub_from_zero (v : BitVec 32) (k : Bool) :
    subCarry 0 v k = decide (v.toNat + k.toNat = 0) ∧
      subOverflow 0 v k = decide (v.toNat = 2 ^ 31 ∧ k.toNat = 0) := by
  have hv := v.isLt
  have hk := Bool.toNat_le k
  have h0 : (0 : BitVec 32).toNat = 0 := rfl
  have hi : (0 : BitVec 32).toInt = 0 := rfl
  unfold subCarry subOverflow
  rw [hi, h0, BitVec.toInt_eq_toNat_cond, decide_eq_decide, decide_eq_decide]
  refine ⟨by omega, ?_⟩
  split <;> omega

theorem sub_zero_eq (v : BitVec 32) (k : Bool) :
    subCarry v 0 k = decide (k.toNat ≤ v.toNat) ∧
      subOverflow v 0 k = decide (v.toNat = 2 ^ 31 ∧ k.toNat = 1) := by
  have hv := v.isLt
  have hk := Bool.toNat_le k
  have h0 : (0 : BitVec 32).toNat = 0 := rfl
  have hi : (0 : BitVec 32).toInt = 0 := rfl
  unfold subCarry subOverflow
  rw [hi, h0, BitVec.toInt_eq_toNat_cond, decide_eq_decide, decide_eq_decide]
  refine ⟨by omega, ?_⟩
  split <;> omega

/-! ## Arithmetic shifts -/

/-- The bits of `x` from `m` on are those of its sign. -/
def SignFilled (x : BitVec 32) (m : Nat) : Prop :=
  ∀ i, i < 32 → m ≤ i → x.getLsbD i = x.getLsbD 31

instance (x : BitVec 32) (m : Nat) : Decidable (SignFilled x m) :=
  inferInstanceAs (Decidable (∀ i, i < 32 → m ≤ i → x.getLsbD i = x.getLsbD 31))

theorem sshiftRight_one_eq_self (y : BitVec 32) : y.sshiftRight 1 = y ↔ y = 0 ∨ y = -1 := by
  have h0 : y = 0 ↔ y.toInt = 0 := BitVec.toInt_inj.symm
  have h1 : y = -1 ↔ y.toInt = -1 := BitVec.toInt_inj.symm
  rw [h0, h1, ← BitVec.toInt_inj, BitVec.toInt_sshiftRight, Int.shiftRight_eq_div_pow]
  omega

theorem getLsbD_sshiftRight_of_lt (x : BitVec 32) {m i : Nat} (hi : i < 32) :
    (x.sshiftRight m).getLsbD i = if m + i < 32 then x.getLsbD (m + i) else x.getLsbD 31 := by
  rw [BitVec.getLsbD_sshiftRight, BitVec.msb_eq_getLsbD_last]
  simp [Nat.not_le.mpr hi]

/-- Shifting once more changes nothing when only copies of the sign are left. -/
theorem sshiftRight_succ_eq_iff (x : BitVec 32) {m : Nat} (hm : m < 32) :
    x.sshiftRight (m + 1) = x.sshiftRight m ↔ SignFilled x m := by
  constructor
  · intro h
    rw [BitVec.sshiftRight_add, sshiftRight_one_eq_self] at h
    have hbit : ∀ i, i < 32 → m ≤ i → x.getLsbD i = (x.sshiftRight m).getLsbD (i - m) := by
      intro i hi hmi
      rw [getLsbD_sshiftRight_of_lt x (by omega), if_pos (by omega), Nat.add_sub_cancel' hmi]
    have hconst : ∀ j k, j < 32 → k < 32 →
        (x.sshiftRight m).getLsbD j = (x.sshiftRight m).getLsbD k := by
      intro j k hj hk
      rcases h with h | h <;> rw [h]
      · simp
      · have hones : ∀ i, i < 32 → (-1 : BitVec 32).getLsbD i = true := by decide
        rw [hones j hj, hones k hk]
    intro i hi hmi
    rw [hbit i hi hmi, hbit 31 (by decide) (by omega)]
    exact hconst _ _ (by omega) (by omega)
  · intro h
    apply BitVec.eq_of_getLsbD_eq
    intro i hi
    rw [getLsbD_sshiftRight_of_lt x hi, getLsbD_sshiftRight_of_lt x hi]
    have hfill : ∀ j, m ≤ j → (if j < 32 then x.getLsbD j else x.getLsbD 31) = x.getLsbD 31 := by
      intro j hj
      by_cases hlt : j < 32
      · rw [if_pos hlt, h j hlt hj]
      · rw [if_neg hlt]
    rw [hfill _ (by omega), hfill _ (by omega)]

/-! ## Parts of a word -/

/-- The bits of `x` from `n` on are clear. -/
def Below (n : Nat) (x : BitVec 32) : Prop := ∀ i, n ≤ i → x.getLsbD i = false

theorem Below.mono {m n : Nat} (h : m ≤ n) {x : BitVec 32} (hx : Below m x) : Below n x :=
  fun i hi => hx i (Nat.le_trans h hi)

/-- A word whose low `n` bits are replaced is `w`, which has no others, exactly when the bits
kept are clear and the new ones are those of `w`. -/
theorem overwriteLow_eq_iff {v x w mask : BitVec 32} {n : Nat} (hx : Below n x) (hw : Below n w) :
    ((v &&& (BitVec.allOnes 32 <<< n)) ||| x) &&& mask = w ↔
      (v &&& mask) >>> n = 0#32 ∧ x &&& mask = w := by
  have hbit : ∀ i, i < 32 → (((v &&& (BitVec.allOnes 32 <<< n)) ||| x) &&& mask).getLsbD i =
      if i < n then (x &&& mask).getLsbD i else (v &&& mask).getLsbD i := by
    intro i hi
    simp only [BitVec.getLsbD_and, BitVec.getLsbD_or, BitVec.getLsbD_shiftLeft,
      BitVec.getLsbD_allOnes]
    by_cases hin : i < n
    · simp [hin]
    · rw [hx i (by omega)]
      simp [hin, hi, show i - n < 32 by omega]
  constructor
  · intro h
    rw [h] at hbit
    constructor
    · apply BitVec.eq_of_getLsbD_eq
      intro i hi
      rw [BitVec.getLsbD_ushiftRight, BitVec.getLsbD_zero]
      by_cases hin : n + i < 32
      · rw [← hw (n + i) (by omega), hbit (n + i) hin, if_neg (by omega)]
      · exact BitVec.getLsbD_of_ge _ _ (by omega)
    · apply BitVec.eq_of_getLsbD_eq
      intro i hi
      by_cases hin : i < n
      · rw [hbit i hi, if_pos hin]
      · rw [hw i (by omega), BitVec.getLsbD_and, hx i (by omega), Bool.false_and]
  · rintro ⟨hv, hxw⟩
    apply BitVec.eq_of_getLsbD_eq
    intro i hi
    rw [hbit i hi]
    by_cases hin : i < n
    · rw [if_pos hin, hxw]
    · have hclear : ((v &&& mask) >>> n).getLsbD (i - n) = false := by
        rw [hv, BitVec.getLsbD_zero]
      rw [BitVec.getLsbD_ushiftRight, Nat.add_sub_cancel' (by omega)] at hclear
      rw [if_neg hin, hw i (by omega), hclear]


/-- A word whose high `n` bits are replaced is `w`, which has none of them, exactly when the
new bits are clear and those kept are too. -/
theorem overwriteHigh_eq_iff {v x w mask : BitVec 32} {n : Nat} (hn : n ≤ 16)
    (hmask : ∀ i, 16 ≤ i → i < 32 → mask.getLsbD i = true)
    (hx : Below n x) (hw : Below 16 w) (hzero : x = 0#32 → w = 0#32) :
    ((v &&& (BitVec.allOnes 32 >>> n)) ||| x <<< (32 - n)) &&& mask = w ↔
      x = 0#32 ∧ (v &&& mask) <<< n = 0#32 := by
  have hbit : ∀ i, i < 32 →
      (((v &&& (BitVec.allOnes 32 >>> n)) ||| x <<< (32 - n)) &&& mask).getLsbD i =
        if i < 32 - n then (v &&& mask).getLsbD i else x.getLsbD (i - (32 - n)) := by
    intro i hi
    simp only [BitVec.getLsbD_and, BitVec.getLsbD_or, BitVec.getLsbD_shiftLeft,
      BitVec.getLsbD_ushiftRight, BitVec.getLsbD_allOnes]
    by_cases hin : i < 32 - n
    · simp [hin, show n + i < 32 by omega]
    · simp [hin, hi, show ¬n + i < 32 by omega, hmask i (by omega) hi]
  constructor
  · intro h
    rw [h] at hbit
    have hx0 : x = 0#32 := by
      apply BitVec.eq_of_getLsbD_eq
      intro i hi
      rw [BitVec.getLsbD_zero]
      by_cases hin : i < n
      · rw [← hw (i + (32 - n)) (by omega), hbit (i + (32 - n)) (by omega), if_neg (by omega),
          Nat.add_sub_cancel]
      · exact hx i (by omega)
    refine ⟨hx0, ?_⟩
    apply BitVec.eq_of_getLsbD_eq
    intro i hi
    rw [BitVec.getLsbD_shiftLeft, BitVec.getLsbD_zero]
    by_cases hin : i < n
    · simp [hin]
    · have hkept := hbit (i - n) (by omega)
      rw [if_pos (by omega), hzero hx0, BitVec.getLsbD_zero] at hkept
      rw [← hkept, Bool.and_false]
  · rintro ⟨hx0, hv⟩
    rw [hzero hx0]
    apply BitVec.eq_of_getLsbD_eq
    intro i hi
    rw [hbit i hi, BitVec.getLsbD_zero]
    by_cases hin : i < 32 - n
    · have hclear : ((v &&& mask) <<< n).getLsbD (i + n) = false := by
        rw [hv, BitVec.getLsbD_zero]
      rw [BitVec.getLsbD_shiftLeft, Nat.add_sub_cancel] at hclear
      rw [if_pos hin]
      simpa [show i + n < 32 by omega] using hclear
    · rw [if_neg hin, hx0, BitVec.getLsbD_zero]
end Word
