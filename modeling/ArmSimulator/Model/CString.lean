/-
The string functions of the C library that `gdb_protocol.c` calls.

A `char *` is the list of the bytes from there on.  A string ends at the first NUL, or
where the list ends.  `sscanf` and `atoi` are those of a library that goes through
`strtoul` and `strtol` on 64 bits, as far as a number out of range is concerned.
-/
import ArmSimulator.Base.Hex

namespace ArmSimulator

def chr (c : Char) : BitVec 8 := BitVec.ofNat 8 c.toNat

def text (s : List Char) : List (BitVec 8) := s.map chr

namespace CString

/-- The characters of a string, without its NUL. -/
def contents (s : List (BitVec 8)) : List (BitVec 8) := s.takeWhile (· ≠ 0)

def isSpace (c : BitVec 8) : Bool := c = 32 || (9 ≤ c.toNat && c.toNat ≤ 13)

/-- `strcmp (s, other) == 0`. -/
def strcmp (s other : List (BitVec 8)) : Bool := contents s = contents other

/-- `strncmp (s, other, n) == 0`. -/
def strncmp (s other : List (BitVec 8)) (n : Nat) : Bool :=
  (contents s).take n = (contents other).take n

/-- The offset of the first `c`, for a `c` that is not NUL. -/
def index (s : List (BitVec 8)) (c : BitVec 8) : Option Nat := (contents s).findIdx? (· = c)

/-- An optional sign: whether it is a minus, and what follows it. -/
def scanSign : List (BitVec 8) → Bool × List (BitVec 8)
  | [] => (false, [])
  | c :: rest =>
    if c = chr '-' then (true, rest) else if c = chr '+' then (false, rest) else (false, c :: rest)

/-- An optional `0x`, within the field width: whether it is there, and what follows it. -/
def scanBase (width : Nat) : List (BitVec 8) → Bool × List (BitVec 8)
  | c :: d :: rest =>
    if 2 ≤ width ∧ c = chr '0' ∧ (d = chr 'x' ∨ d = chr 'X') then (true, rest)
    else (false, c :: d :: rest)
  | s => (false, s)

/-- What `strtoul` gives for a sign and a magnitude, stored to an `unsigned int`. -/
def strtoul (negative : Bool) (n : Nat) : BitVec 32 :=
  if 2 ^ 64 ≤ n then 0xFFFFFFFF
  else if negative then -BitVec.ofNat 32 n else BitVec.ofNat 32 n

/-- The conversion `%x` of `sscanf` with a field width: the number and what follows it,
or nothing when there is no number.  Libraries differ on a `0x` that no digit follows,
which is 0 when `bareBase` and no number by the standard. -/
def scanHex (bareBase : Bool) (width : Nat) (s : List (BitVec 8)) :
    Option (BitVec 32 × List (BitVec 8)) :=
  let start := s.dropWhile isSpace
  let (negative, magnitude) := scanSign start
  let width := width - (start.length - magnitude.length)
  let (based, digits) := scanBase width magnitude
  let width := if based then width - 2 else width
  let number := (digits.take width).takeWhile Hex.isDigit
  if number = [] ∧ ¬(based ∧ bareBase) then none
  else some (strtoul negative (Hex.number number), digits.drop number.length)

/-- `%x` without a field width. -/
def scanHexAll (bareBase : Bool) (s : List (BitVec 8)) : Option (BitVec 32 × List (BitVec 8)) :=
  scanHex bareBase s.length s

/-- `sscanf (s, "%x,%x", &a, &b)`, from what `a` and `b` hold. -/
def scanHexPair (bareBase : Bool) (s : List (BitVec 8)) (a b : BitVec 32) :
    BitVec 32 × BitVec 32 :=
  match scanHexAll bareBase s with
  | none => (a, b)
  | some (a, rest) =>
    match rest with
    | [] => (a, b)
    | c :: rest =>
      if c = chr ',' then
        match scanHexAll bareBase rest with
        | none => (a, b)
        | some (b, _) => (a, b)
      else (a, b)

def isDecimal (c : BitVec 8) : Bool := 48 ≤ c.toNat && c.toNat ≤ 57

/-- `(int) strtol (s, NULL, 10)`. -/
def atoi (s : List (BitVec 8)) : BitVec 32 :=
  let (negative, magnitude) := scanSign (s.dropWhile isSpace)
  let n := Nat.ofDigits 10 ((magnitude.takeWhile isDecimal).map fun c => c.toNat - 48).reverse
  if negative then BitVec.ofInt 32 (max (-n) (-2 ^ 63))
  else BitVec.ofInt 32 (min n (2 ^ 63 - 1))

/-! ## Numbers of two digits -/

theorem isDigit_cases {c : BitVec 8} (h : Hex.isDigit c = true) :
    isSpace c = false ∧ c ≠ chr '-' ∧ c ≠ chr '+' ∧ c ≠ chr 'x' ∧ c ≠ chr 'X' ∧ c ≠ 0 := by
  revert c
  decide

/-- Two digits are read whole, when the field width or what follows them ends the
number there. -/
theorem scanHex_pair (bareBase : Bool) {width : Nat} (hwidth : 2 ≤ width) {c d : BitVec 8}
    {m n : Nat} (hc : Hex.value c = some m) (hd : Hex.value d = some n) {rest : List (BitVec 8)}
    (hrest : (rest.take (width - 2)).takeWhile Hex.isDigit = []) :
    scanHex bareBase width (c :: d :: rest) = some (BitVec.ofNat 32 (16 * m + n), rest) := by
  have hc' : Hex.isDigit c = true := Hex.isDigit_iff.mpr ⟨m, hc⟩
  have hd' : Hex.isDigit d = true := Hex.isDigit_iff.mpr ⟨n, hd⟩
  obtain ⟨hspace, hminus, hplus, -, -, -⟩ := isDigit_cases hc'
  obtain ⟨-, -, -, hx, hX, -⟩ := isDigit_cases hd'
  have hstart : (c :: d :: rest).dropWhile isSpace = c :: d :: rest := by
    rw [List.dropWhile_cons_of_neg (by rw [hspace]; decide)]
  have hsign : scanSign (c :: d :: rest) = (false, c :: d :: rest) := by
    rw [scanSign, if_neg hminus, if_neg hplus]
  have hbase : scanBase width (c :: d :: rest) = (false, c :: d :: rest) := by
    rw [scanBase, if_neg (by simp [hx, hX])]
  have hdigits : ((c :: d :: rest).take width).takeWhile Hex.isDigit = [c, d] := by
    obtain ⟨w, rfl⟩ : ∃ w, width = w + 2 := ⟨width - 2, by omega⟩
    rw [List.take_succ_cons, List.take_succ_cons, List.takeWhile_cons_of_pos hc',
      List.takeWhile_cons_of_pos hd', show w = w + 2 - 2 by omega, hrest]
  have hm := Hex.value_lt hc
  have hn := Hex.value_lt hd
  simp only [scanHex, hstart, hsign, Nat.sub_self, Nat.sub_zero, hbase, Bool.false_eq_true,
    if_false, hdigits, Hex.number_pair hc hd, strtoul]
  rw [if_neg (by simp), if_neg (by omega)]
  rfl

/-! ## Numerals and searches -/

/-- A number of digits is read whole when the character behind it ends it. -/
theorem scanHexAll_digits (bareBase : Bool) {digits : List (BitVec 8)} (hne : digits ≠ [])
    (hdigits : ∀ c ∈ digits, Hex.isDigit c = true) (hnumber : Hex.number digits < 2 ^ 32)
    {c : BitVec 8} (hc : Hex.isDigit c = false) (hx : c ≠ chr 'x' ∧ c ≠ chr 'X')
    (rest : List (BitVec 8)) :
    scanHexAll bareBase (digits ++ c :: rest) =
      some (BitVec.ofNat 32 (Hex.number digits), c :: rest) := by
  obtain ⟨d, tail, rfl⟩ := List.exists_cons_of_ne_nil hne
  have hd := hdigits d List.mem_cons_self
  obtain ⟨hspace, hminus, hplus, -⟩ := isDigit_cases hd
  have hstart : (d :: tail ++ c :: rest).dropWhile isSpace = d :: tail ++ c :: rest := by
    rw [List.cons_append, List.dropWhile_cons_of_neg (by rw [hspace]; decide)]
  have hsign : scanSign (d :: tail ++ c :: rest) = (false, d :: tail ++ c :: rest) := by
    rw [List.cons_append, scanSign, if_neg hminus, if_neg hplus]
  have hbase : ∀ width, scanBase width (d :: tail ++ c :: rest) =
      (false, d :: tail ++ c :: rest) := by
    intro width
    cases tail with
    | nil => rw [List.cons_append, List.nil_append, scanBase, if_neg (by simp [hx.1, hx.2])]
    | cons e tail =>
      obtain ⟨-, -, -, hex, heX, -⟩ :=
        isDigit_cases (hdigits e (List.mem_cons_of_mem _ List.mem_cons_self))
      rw [List.cons_append, List.cons_append, scanBase, if_neg (by simp [hex, heX])]
  have hnumeral : (d :: tail ++ c :: rest).takeWhile Hex.isDigit = d :: tail := by
    rw [List.takeWhile_append_of_pos hdigits, List.takeWhile_cons_of_neg (by rw [hc]; decide),
      List.append_nil]
  simp only [scanHexAll, scanHex, hstart, hsign, Nat.sub_self, Nat.sub_zero, hbase,
    Bool.false_eq_true, if_false, List.take_length, hnumeral, List.drop_left, strtoul]
  rw [if_neg (by simp), if_neg (by omega)]

/-- Where the search finds the first `c`. -/
theorem index_append {s : List (BitVec 8)} {c : BitVec 8} (hc : c ≠ 0)
    (hs : ∀ d ∈ s, d ≠ 0 ∧ d ≠ c) (rest : List (BitVec 8)) :
    index (s ++ c :: rest) c = some s.length := by
  have hcontents : contents (s ++ c :: rest) = s ++ c :: contents rest := by
    rw [contents, List.takeWhile_append_of_pos (by simpa using fun d hd => (hs d hd).1),
      List.takeWhile_cons_of_pos (by simpa using hc), contents]
  rw [index, hcontents, List.findIdx?_append, List.findIdx?_eq_none_iff.mpr ?_, List.findIdx?_cons]
  · simp
  · simpa using fun d hd => (hs d hd).2

end CString

end ArmSimulator
