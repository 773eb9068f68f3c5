/-
Loads of a byte or a half.

The handler reads into a part of its local `val` through a pointer of a narrower
type, and writes the whole of `val` to the destination.  What the stack held in
the other part goes with it, and on a big-endian host the part that is read is
the wrong end of the word.
-/
import ArmSimulator.Proof.SingleTransfers

namespace ArmSimulator

/-! ## The value of a load -/

/-- LDRB in any of its encodings, and unsigned LDRH. -/
def IsSubwordLoad (ins : BitVec 32) : Prop :=
  getBit ins 20 = true ∧
    ((getBits ins 27 26 = 0b01 ∧ getBit ins 22 = true) ∨
      (getBits ins 27 25 = 0b000 ∧ getBits ins 7 4 = 0b1011))

/-- The bytes of the load, as its opcode says. -/
def subwordWidth (ins : BitVec 32) : Nat := if getBit ins 26 then 1 else 2

/-- The byte or the half at an address, zero-extended. -/
def subword (mem : Memory) (width : Nat) (a : BitVec 32) : BitVec 32 :=
  if width = 1 then Word.ofBytes 0 0 0 (mem.m a)
  else if mem.isBigEndian then Word.ofBytes 0 0 (mem.m a) (mem.m (a + 1))
  else Word.ofBytes 0 0 (mem.m (a + 1)) (mem.m a)

/-- A word after `n` bits at the lowest address were replaced. -/
def overwritten (host : Host) (n : Nat) (val x : BitVec 32) : BitVec 32 :=
  if host.isBigEndian then (val &&& (BitVec.allOnes 32 >>> n)) ||| x <<< (32 - n)
  else (val &&& (BitVec.allOnes 32 <<< n)) ||| x

theorem setWidth_byte (b : BitVec 8) : b.setWidth 32 = Word.ofBytes 0 0 0 b := by
  simp [Word.ofBytes]

theorem setWidth_half (hi lo : BitVec 8) :
    (hi.setWidth 16 <<< 8 ||| lo.setWidth 16).setWidth 32 = Word.ofBytes 0 0 hi lo := by
  apply BitVec.eq_of_getLsbD_eq
  intro i hi
  simp only [Word.ofBytes, BitVec.getLsbD_or, BitVec.getLsbD_shiftLeft, BitVec.getLsbD_setWidth]
  interval_cases i <;> simp

theorem storeByte_eq (host : Host) (val : BitVec 32) (b : BitVec 8) :
    storeByte host val b = overwritten host 8 val (b.setWidth 32) := rfl

theorem storeHalf_eq (host : Host) (val : BitVec 32) (half : BitVec 16) :
    storeHalf host val half = overwritten host 16 val (half.setWidth 32) := rfl

theorem memoryReadHalf_subword {mem : Memory} {a : BitVec 32} (ha : a.toNat < mem.size) :
    ∃ half, memoryReadHalf mem a = .ok half ∧ half.setWidth 32 = subword mem 2 a := by
  have hvalid : isNotValidAddress mem a = false := decide_eq_false (by omega)
  rw [memoryReadHalf, hvalid, if_neg Bool.false_ne_true, subword, if_neg (show ¬2 = 1 by decide)]
  cases mem.isBigEndian with
  | true => exact ⟨_, rfl, setWidth_half _ _⟩
  | false => exact ⟨_, rfl, setWidth_half _ _⟩

theorem memoryReadByte_subword {mem : Memory} {a : BitVec 32} (ha : a.toNat < mem.size) :
    ∃ b, memoryReadByte mem a = .ok b ∧ b.setWidth 32 = subword mem 1 a := by
  have hvalid : isNotValidAddress mem a = false := decide_eq_false (by omega)
  rw [memoryReadByte, subword, hvalid, if_neg (by decide), if_pos rfl]
  exact ⟨_, rfl, setWidth_byte _⟩

theorem readInto_value {α : Type} {val : BitVec 32} {store : BitVec 32 → α → BitVec 32}
    {read : Arm (Except (BitVec 32) α)} {s : Core} {value : α} (h : (read s).value = .ok value) :
    (readInto val store read s).value = store val value := by
  simp only [readInto, Traced.bind_value, h, Traced.pure_apply]

/-- The bytes of the access replace a part of what `val` held. -/
theorem loadValue_subword (host : Host) (locals : Locals) {ins a : BitVec 32} {s : Core}
    (hwidth : transferWidth ins ≠ 4) (ha : a.toNat < s.mem.size) :
    (loadValue host locals ins a s).value =
      overwritten host (8 * transferWidth ins) locals.val
        (subword s.mem (transferWidth ins) a) := by
  unfold transferWidth at hwidth ⊢
  unfold loadValue
  by_cases hhalf : getBit ins 7 = true ∧ getBit ins 4 = true
  · obtain ⟨half, hread, hvalue⟩ := memoryReadHalf_subword ha
    rw [if_pos hhalf, if_pos hhalf, readInto_value hread, storeHalf_eq, hvalue]
  · by_cases hbyte : getBit ins 22 = true
    · obtain ⟨b, hread, hvalue⟩ := memoryReadByte_subword ha
      rw [if_neg hhalf, if_pos hbyte, if_neg hhalf, if_pos hbyte, readInto_value hread,
        storeByte_eq, hvalue]
    · rw [if_neg hhalf, if_neg hbyte] at hwidth
      exact absurd rfl hwidth

/-! ## Bits of sub-words -/

theorem below_byte (b : BitVec 8) : Word.Below 8 (Word.ofBytes 0 0 0 b) := by
  intro i hi
  rw [← setWidth_byte, BitVec.getLsbD_setWidth, BitVec.getLsbD_of_ge b i hi, Bool.and_false]

theorem below_half (hi lo : BitVec 8) : Word.Below 16 (Word.ofBytes 0 0 hi lo) := by
  intro i h
  rw [← setWidth_half, BitVec.getLsbD_setWidth, BitVec.getLsbD_of_ge _ i h, Bool.and_false]

theorem below_subword {width : Nat} (hwidth : width = 1 ∨ width = 2) (mem : Memory)
    (a : BitVec 32) : Word.Below (8 * width) (subword mem width a) := by
  unfold subword
  rcases hwidth with rfl | rfl
  · exact below_byte _
  · rw [if_neg (by decide)]
    split
    · exact below_half _ _
    · exact below_half _ _

theorem subword_eq_zero_of_half {mem : Memory} {a : BitVec 32} (h : subword mem 2 a = 0#32) :
    subword mem 1 a = 0#32 := by
  have hbytes : ∀ hi lo : BitVec 8, Word.ofBytes 0 0 hi lo = 0#32 → hi = 0 ∧ lo = 0 := by
    intro hi lo hzero
    have hnat := congrArg BitVec.toNat hzero
    rw [Word.toNat_ofBytes] at hnat
    simp only [BitVec.toNat_ofNat, BitVec.ofNat_eq_ofNat, Nat.zero_mod] at hnat
    constructor <;> apply BitVec.eq_of_toNat_eq <;> simp <;> omega
  unfold subword at h ⊢
  rw [if_neg (by decide)] at h
  have hbyte : mem.m a = 0 := by
    split at h
    · exact (hbytes _ _ h).1
    · exact (hbytes _ _ h).2
  rw [if_pos rfl, hbyte]
  rfl

/-! ## The destination -/

/-- The bits a register takes from the word written to it. -/
def loadedMask (rd : Fin 16) : BitVec 32 := if rd = 15 then 0xFFFFFFFE else BitVec.allOnes 32

theorem loadedWord_eq_and (rd : Fin 16) (word : BitVec 32) :
    loadedWord rd word = word &&& loadedMask rd := by
  unfold loadedWord loadedMask
  by_cases hrd : rd = 15
  · rw [if_pos hrd, if_pos hrd]
  · rw [if_neg hrd, if_neg hrd, BitVec.and_allOnes]

theorem loadedMask_high (rd : Fin 16) {i : Nat} (hi : 16 ≤ i) (hi' : i < 32) :
    (loadedMask rd).getLsbD i = true := by
  unfold loadedMask
  split
  · interval_cases i <;> rfl
  · rw [BitVec.getLsbD_allOnes]
    exact decide_eq_true hi'

theorem IsSubwordLoad.widths {ins : BitVec 32} (h : IsSubwordLoad ins) :
    (transferWidth ins = 1 ∧ subwordWidth ins = 1) ∨
      (transferWidth ins = 2 ∧ (subwordWidth ins = 1 ∨ subwordWidth ins = 2)) := by
  unfold transferWidth subwordWidth
  rcases h.2 with ⟨h26, h22⟩ | ⟨h25, h7⟩
  · have hbit : getBit ins 26 = true := getBit_of_getBits h26 (by decide) (by decide)
    rw [if_pos hbit, if_pos h22]
    by_cases hhalf : getBit ins 7 = true ∧ getBit ins 4 = true
    · rw [if_pos hhalf]
      exact Or.inr ⟨rfl, Or.inl rfl⟩
    · rw [if_neg hhalf]
      exact Or.inl ⟨rfl, rfl⟩
  · have hbit : getBit ins 26 = false := getBit_of_getBits h25 (by decide) (by decide)
    have hhalf : getBit ins 7 = true ∧ getBit ins 4 = true :=
      ⟨getBit_of_getBits h7 (by decide) (by decide), getBit_of_getBits h7 (by decide) (by decide)⟩
    rw [hbit, if_neg Bool.false_ne_true, if_pos hhalf]
    exact Or.inr ⟨rfl, Or.inr rfl⟩

section

variable (host : Host) (locals : Locals) (ins : BitVec 32) (s : Core)

/-- The destination as the program reads it in its mode. -/
def destinationIndex : Nat := registerIndex (getMode s.reg) (regField ins 12)

theorem transferValue_load_reg (hload : getBit ins 20 = true) (a : BitVec 32) :
    (transferValue host locals ins a s).state.reg =
      if isUserTransfer ins then
        writeUsrRegister s.reg (regField ins 12) (transferredValue host locals ins a s)
      else writeRegister s.reg (regField ins 12) (transferredValue host locals ins a s) := by
  unfold transferValue transferredValue
  rw [if_pos hload]
  cases isUserTransfer ins <;>
    simp only [if_true, if_false, Bool.false_eq_true, Traced.bind_state, loadValue_state] <;> rfl

theorem getMode_writeUsrRegister (r : Registers) (reg : Fin 16) (value : BitVec 32) :
    getMode (writeUsrRegister r reg value) = getMode r := by
  have hne : (reg : Nat) ≠ cpsrIndex := Nat.ne_of_lt reg.isLt
  exact congrArg modeField (readCpsr_update_of_ne r hne value)

/-- A user transfer whose destination is banked away in the mode of the program leaves the
register the program sees. -/
theorem armLoadStore_destination (hload : getBit ins 20 = true)
    (hback : getBit ins 24 = false ∨ getBit ins 21 = true → regField ins 16 ≠ regField ins 12) :
    (armLoadStore host locals ins s).state.reg (destinationIndex ins s) =
      if isUserTransfer ins = true ∧ destinationIndex ins s ≠ (regField ins 12 : Nat) then
        s.reg (destinationIndex ins s)
      else transferredValue host locals ins (transferAddress host ins s) s := by
  let a := transferAddress host ins s
  let t := (transferValue host locals ins a s).state
  have hreg : t.reg = _ := transferValue_load_reg host locals ins s hload a
  have hmode : getMode t.reg = getMode s.reg := by
    rw [hreg]
    split
    · exact getMode_writeUsrRegister _ _ _
    · exact getMode_writeRegister _ _ _
  have htransfer : t.reg (destinationIndex ins s) =
      if isUserTransfer ins = true ∧ destinationIndex ins s ≠ (regField ins 12 : Nat) then
        s.reg (destinationIndex ins s)
      else transferredValue host locals ins a s := by
    rw [hreg]
    cases huser : isUserTransfer ins with
    | false =>
      rw [if_neg Bool.false_ne_true, if_neg fun h => Bool.false_ne_true h.1]
      exact Function.update_self _ _ _
    | true =>
      rw [if_pos rfl]
      by_cases hidx : destinationIndex ins s = (regField ins 12 : Nat)
      · rw [if_neg fun h => h.2 hidx, hidx]
        exact Function.update_self _ _ _
      · rw [if_pos ⟨rfl, hidx⟩]
        exact Function.update_of_ne hidx _ _
  rw [armLoadStore_state]
  by_cases hwrite : getBit ins 24 = false ∨ getBit ins 21 = true
  · have hne : destinationIndex ins s ≠ registerIndex (getMode t.reg) (regField ins 16) := by
      rw [hmode]
      exact fun h => hback hwrite (registerIndex_injective_any _ h).symm
    rw [if_pos hwrite, ← htransfer]
    exact Function.update_of_ne hne _ _
  · rw [if_neg hwrite]
    exact htransfer

/-- The word read is the value of the load, and nothing else reaches the destination.  Where
the program does not see the register that is written, the one it sees holds the value
already. -/
def ZeroExtends : Prop :=
  let rd := regField ins 12
  let a := transferAddress host ins s
  let word := subword s.mem (transferWidth ins) a
  if isUserTransfer ins = true ∧ destinationIndex ins s ≠ (rd : Nat) then
    s.reg (destinationIndex ins s) = subword s.mem (subwordWidth ins) a
  else if host.isBigEndian then
    word = 0 ∧ loadedWord rd locals.val <<< (8 * transferWidth ins) = 0
  else
    loadedWord rd locals.val >>> (8 * transferWidth ins) = 0 ∧
      loadedWord rd word = subword s.mem (subwordWidth ins) a

/-- A load of a byte or a half inside the memory leaves it in the destination, zero-extended,
exactly when its encoding, its destination and what the stack held let it. -/
theorem armLoadStore_zeroExtends_iff (h : IsSubwordLoad ins)
    (hin : (transferAddress host ins s).toNat + subwordWidth ins ≤ s.mem.size)
    (hback : getBit ins 24 = false ∨ getBit ins 21 = true → regField ins 16 ≠ regField ins 12) :
    (armLoadStore host locals ins s).state.reg (destinationIndex ins s) =
        subword s.mem (subwordWidth ins) (transferAddress host ins s) ↔
      ZeroExtends host locals ins s := by
  rw [armLoadStore_destination host locals ins s h.1 hback, ZeroExtends]
  by_cases huser : isUserTransfer ins = true ∧ destinationIndex ins s ≠ (regField ins 12 : Nat)
  · rw [if_pos huser, if_pos huser]
  · rw [if_neg huser, if_neg huser, transferredValue]
    generalize transferAddress host ins s = a at hin ⊢
    have hwidth : transferWidth ins = 1 ∨ transferWidth ins = 2 := by
      rcases h.widths with ⟨hwidth, -⟩ | ⟨hwidth, -⟩
      · exact Or.inl hwidth
      · exact Or.inr hwidth
    have hsub : subwordWidth ins = 1 ∨ subwordWidth ins = 2 := by
      rcases h.widths with ⟨-, hsub⟩ | ⟨-, hsub⟩
      · exact Or.inl hsub
      · exact hsub
    have hle : subwordWidth ins ≤ transferWidth ins := by
      rcases h.widths with ⟨hwidth, hsub⟩ | ⟨hwidth, hsub | hsub⟩ <;> omega
    have hzero : subword s.mem (transferWidth ins) a = 0#32 →
        subword s.mem (subwordWidth ins) a = 0#32 := by
      rcases h.widths with ⟨hwidth, hsub⟩ | ⟨hwidth, hsub | hsub⟩ <;> rw [hwidth, hsub]
      · exact id
      · exact subword_eq_zero_of_half
      · exact id
    have hx := below_subword hwidth s.mem a
    have hw := below_subword hsub s.mem a
    rw [loadValue_subword host locals (by omega) (by omega), overwritten]
    simp only [loadedWord_eq_and]
    cases host.isBigEndian with
    | false =>
      exact Word.overwriteLow_eq_iff hx (hw.mono (by omega))
    | true =>
      exact Word.overwriteHigh_eq_iff (by omega) (fun i => loadedMask_high _) hx
        (hw.mono (by omega)) hzero

end

/-- `LDRB r2, [r1]` over a local that held nothing. -/
theorem armLoadStore_zeroExtends_clear :
    (armLoadStore (.modular false) ⟨0, 0⟩ 0xE5D12000 (transferCore 8)).state.reg 2 = 0x55 :=
  (armLoadStore_zeroExtends_iff (.modular false) ⟨0, 0⟩ 0xE5D12000 (transferCore 8)
    ⟨by decide, by decide⟩ (by decide) (by decide)).mpr (by rw [ZeroExtends]; decide)

/-- `LDRB r2, [r1]` with another value left in the upper bytes of the local. -/
theorem armLoadStore_keeps_leftover :
    let run := armLoadStore (.modular false) ⟨0xFFFFFF00, 0⟩ 0xE5D12000 (transferCore 8)
    let a := transferAddress (.modular false) 0xE5D12000 (transferCore 8)
    IsSubwordLoad 0xE5D12000 ∧ a.toNat + 1 ≤ (transferCore 8).mem.size ∧
      getBit 0xE5D12000 24 = true ∧ getBit 0xE5D12000 21 = false ∧
      destinationIndex 0xE5D12000 (transferCore 8) = 2 ∧
      subword (transferCore 8).mem 1 a = 0x55 ∧ run.state.reg 2 = 0xFFFFFF55 := by
  refine ⟨⟨by decide, by decide⟩, by decide, by decide, by decide, by decide, by decide, ?_⟩
  decide +kernel

end ArmSimulator
