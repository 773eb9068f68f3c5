/-
Hexadecimal digits.

A digit is a character code.  Both cases are read, lower case is written.
-/
import Mathlib.Data.BitVec
import Mathlib.Data.Nat.Digits.Defs
import Mathlib.Tactic.IntervalCases

namespace Hex

def digit (n : Nat) : BitVec 8 := BitVec.ofNat 8 (if n < 10 then 48 + n else 87 + n)

def value (c : BitVec 8) : Option Nat :=
  if 48 ≤ c.toNat ∧ c.toNat ≤ 57 then some (c.toNat - 48)
  else if 97 ≤ c.toNat ∧ c.toNat ≤ 102 then some (c.toNat - 87)
  else if 65 ≤ c.toNat ∧ c.toNat ≤ 70 then some (c.toNat - 55)
  else none

def isDigit (c : BitVec 8) : Bool := (value c).isSome

/-- `tolower`. -/
def lower (c : BitVec 8) : BitVec 8 := if 65 ≤ c.toNat ∧ c.toNat ≤ 90 then c + 32 else c

/-- The number a list of digits stands for, the most significant first. -/
def number (digits : List (BitVec 8)) : Nat := Nat.ofDigits 16 (digits.filterMap value).reverse

/-- The two digits of a byte. -/
def ofByte (b : BitVec 8) : List (BitVec 8) := [digit (b.toNat / 16), digit (b.toNat % 16)]

theorem value_digit {n : Nat} (h : n < 16) : value (digit n) = some n := by
  interval_cases n <;> rfl

theorem lower_of_value {c : BitVec 8} {n : Nat} (h : value c = some n) : lower c = digit n := by
  have hall : ∀ c : BitVec 8, ∀ n ∈ value c, lower c = digit n := by decide
  exact hall c n h

theorem value_lower (c : BitVec 8) : isDigit c = true → value (lower c) = value c := by
  revert c
  decide

theorem isDigit_digit {n : Nat} (h : n < 16) : isDigit (digit n) = true := by
  rw [isDigit, value_digit h]
  rfl

theorem value_lt {c : BitVec 8} {n : Nat} (h : value c = some n) : n < 16 := by
  unfold value at h
  split_ifs at h <;> simp only [Option.some.injEq] at h <;> omega

theorem isDigit_iff {c : BitVec 8} : isDigit c = true ↔ ∃ n, value c = some n :=
  Option.isSome_iff_exists

theorem number_pair {c d : BitVec 8} {m n : Nat} (hc : value c = some m) (hd : value d = some n) :
    number [c, d] = 16 * m + n := by
  simp only [number, List.filterMap_cons, hc, hd, List.filterMap_nil, List.reverse_cons,
    List.reverse_nil, List.nil_append, List.cons_append, Nat.ofDigits_cons, Nat.ofDigits_nil]
  omega

theorem number_ofByte (b : BitVec 8) : number (ofByte b) = b.toNat := by
  have hb := b.isLt
  rw [ofByte, number_pair (value_digit (by omega)) (value_digit (by omega))]
  omega

end Hex
