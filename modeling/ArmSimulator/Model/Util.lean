/-
Bit operations of `util.h` and `util.c`, and the host they are compiled for.

C leaves a shift by a negative count, or by at least the width of its operand,
undefined, and the simulator evaluates such shifts: `ror` by 0 shifts left by 32,
and a register shift takes any 32-bit count.  `Host` carries what the compiled
program yields there, so that every result below holds for whatever the compiler
and the processor do.  The one fact it promises is the one the machines agree
on: a left shift by exactly 32 either takes its count modulo 32 and returns the
operand, or shifts every bit out.
-/
import Mathlib.Data.BitVec

namespace ArmSimulator

/-- The machine the simulator runs on. -/
structure Host where
  /-- `is_big_endian ()` of `util.c`. -/
  isBigEndian : Bool
  /-- `x << n` for a count outside `0..31`. -/
  shlOut : BitVec 32 → Int → BitVec 32
  /-- `x >> n` for a count outside `0..31`. -/
  shrOut : BitVec 32 → Int → BitVec 32
  shlOut_width : ∀ x, shlOut x 32 = x ∨ shlOut x 32 = 0

namespace Host

def shl (host : Host) (x : BitVec 32) (n : Int) : BitVec 32 :=
  if 0 ≤ n ∧ n < 32 then x <<< n.toNat else host.shlOut x n

def shr (host : Host) (x : BitVec 32) (n : Int) : BitVec 32 :=
  if 0 ≤ n ∧ n < 32 then x >>> n.toNat else host.shrOut x n

/-- A host that takes every shift count modulo 32, as the x86 shift
instructions do. -/
def modular (isBigEndian : Bool) : Host where
  isBigEndian := isBigEndian
  shlOut x n := x <<< (n % 32).toNat
  shrOut x n := x >>> (n % 32).toNat
  shlOut_width x := Or.inl (by simp)

theorem shl_of_lt (host : Host) (x : BitVec 32) {n : Nat} (h : n < 32) :
    host.shl x n = x <<< n := by
  unfold shl
  rw [if_pos (by omega), Int.toNat_natCast]

theorem shr_of_lt (host : Host) (x : BitVec 32) {n : Nat} (h : n < 32) :
    host.shr x n = x >>> n := by
  unfold shr
  rw [if_pos (by omega), Int.toNat_natCast]

theorem shl_width (host : Host) (x : BitVec 32) :
    host.shl x 32 = x ∨ host.shl x 32 = 0 := by
  unfold shl
  rw [if_neg (by omega)]
  exact host.shlOut_width x

end Host

/-! ## Macros of `util.h` -/

/-- `get_bit (x, i)` for a constant `i` below 32. -/
def getBit (x : BitVec 32) (i : Nat) : Bool := x.getLsbD i

/-- `get_bit (x, n)` for a count the program computes. -/
def Host.getBit (host : Host) (x : BitVec 32) (n : Int) : Bool := (host.shr x n).getLsbD 0

/-- `get_bits (x, h, l)`, the bits `h` down to `l`. -/
def getBits (x : BitVec 32) (h l : Nat) : BitVec (h - l + 1) := x.extractLsb h l

/-- Register numbers are written as literals. -/
instance neZeroSixteen : NeZero 16 := ⟨by decide⟩

/-- The four-bit register number whose lowest bit is bit `l` of an instruction. -/
def regField (ins : BitVec 32) (l : Nat) : Fin 16 := (ins.extractLsb' l 4).toFin

/-! ## Functions of `util.c` -/

def changeBit (s : BitVec 32) (n : Nat) (val : Bool) : BitVec 32 :=
  if val then s ||| (1#32 <<< n) else s &&& ~~~(1#32 <<< n)

def asr (host : Host) (value : BitVec 32) (shift : BitVec 8) : BitVec 32 :=
  host.shr value shift.toNat |||
    (if getBit value 31 then host.shl (~~~0) (32 - shift.toNat) else 0)

def ror (host : Host) (value : BitVec 32) (rotation : BitVec 8) : BitVec 32 :=
  host.shr value rotation.toNat ||| host.shl value (32 - rotation.toNat)

/-! ## Fields -/

theorem getLsbD_getBits (x : BitVec 32) {h l i : Nat} (hi : l + i ≤ h) :
    (getBits x h l).getLsbD i = getBit x (l + i) := by
  have hlt : i ≤ h - l := by omega
  simp [getBits, getBit, hlt]

theorem getBit_of_getBits {x : BitVec 32} {h l : Nat} {v : BitVec (h - l + 1)}
    (hv : getBits x h l = v) {i : Nat} (hl : l ≤ i) (hh : i ≤ h) :
    getBit x i = v.getLsbD (i - l) := by
  have hi : l + (i - l) = i := by omega
  rw [← hv, getLsbD_getBits x (by omega), hi]

/-- A part of a field whose value is known. -/
theorem getBits_of_getBits {x : BitVec 32} {h l h' l' : Nat} {v : BitVec (h - l + 1)}
    (hv : getBits x h l = v) (hl : l ≤ l') (hlh : l' ≤ h') (hh : h' ≤ h) :
    getBits x h' l' = v.extractLsb' (l' - l) (h' - l' + 1) := by
  apply BitVec.eq_of_getLsbD_eq
  intro i hi
  have hsub : l' + i - l = l' - l + i := by omega
  rw [getLsbD_getBits x (by omega), getBit_of_getBits hv (by omega) (by omega),
    BitVec.getLsbD_extractLsb', hsub, decide_eq_true hi, Bool.true_and]

/-! ## Functions -/

@[simp] theorem getBit_changeBit (s : BitVec 32) {n : Nat} (hn : n < 32) (val : Bool) (i : Nat) :
    getBit (changeBit s n val) i = if i = n then val else getBit s i := by
  unfold changeBit getBit
  by_cases hi : i = n
  · subst hi
    cases val <;> simp [hn]
  · rw [if_neg hi]
    cases val
    · by_cases hlt : i < 32
      · rcases Nat.lt_or_ge i n with h | h
        · simp [hlt, h]
        · have hsub : i - n ≠ 0 := by omega
          simp [hlt, Nat.not_lt.mpr h, hsub]
      · simp [BitVec.getLsbD_of_ge _ _ (Nat.not_lt.mp hlt)]
    · rcases Nat.lt_or_ge i n with h | h
      · simp [h]
      · have hsub : i - n ≠ 0 := by omega
        simp [Nat.not_lt.mpr h, hsub]

/-- Rotating by nothing is the identity, whichever way the host shifts by 32. -/
theorem ror_zero (host : Host) (value : BitVec 32) : ror host value 0 = value := by
  unfold ror
  have hshr : host.shr value ((0 : BitVec 8).toNat : Int) = value := by
    rw [Host.shr_of_lt host value (by decide)]
    simp
  rw [hshr]
  show value ||| host.shl value 32 = value
  rcases host.shl_width value with h | h
  · rw [h, BitVec.or_self]
  · rw [h]
    exact BitVec.or_zero

theorem ror_eq_rotateRight (host : Host) (value : BitVec 32) {rotation : BitVec 8}
    (h : rotation.toNat < 32) : ror host value rotation = value.rotateRight rotation.toNat := by
  by_cases hzero : rotation = 0
  · rw [hzero, ror_zero, BitVec.rotateRight_def]
    simp
  · have hpos : 0 < rotation.toNat := by
      rcases Nat.eq_zero_or_pos rotation.toNat with h0 | h0
      · exact absurd (BitVec.eq_of_toNat_eq h0) hzero
      · exact h0
    unfold ror
    have hcount : (32 - (rotation.toNat : Int)) = ((32 - rotation.toNat : Nat) : Int) := by omega
    rw [Host.shr_of_lt host value h, hcount, Host.shl_of_lt host value (by omega),
      BitVec.rotateRight_def, Nat.mod_eq_of_lt h]

end ArmSimulator
