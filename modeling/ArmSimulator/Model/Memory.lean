/-
The simulated memory of `memory.c`.

The bytes are a function on 32-bit indices.  The bytes from `size` on are not the
simulated memory: they stand for whatever the host holds past the end of the
array.  `is_not_valid_address` looks at the first byte of an access only, so a
half or a word that starts inside the memory can reach them.  An index such as
`address + 3` is computed on 32 bits and wraps.

A read returns the value it stores through its pointer or the code it returns
instead of 0, a write the new memory or that code.
-/
import Mathlib.Logic.Function.Basic
import Mathlib.Tactic.SplitIfs
import ArmSimulator.Base.Word
import ArmSimulator.Model.Constants

namespace ArmSimulator

structure Memory where
  m : BitVec 32 → BitVec 8
  size : Nat
  isBigEndian : Bool

def resultCode {α : Type} : Except (BitVec 32) α → BitVec 32
  | .ok _ => 0
  | .error code => code

def isNotValidAddress (mem : Memory) (address : BitVec 32) : Bool := mem.size ≤ address.toNat

def memoryReadByte (mem : Memory) (address : BitVec 32) : Except (BitVec 32) (BitVec 8) :=
  if isNotValidAddress mem address then .error dataAbort
  else .ok (mem.m address)

def memoryReadHalf (mem : Memory) (address : BitVec 32) : Except (BitVec 32) (BitVec 16) :=
  if isNotValidAddress mem address then .error dataAbort
  else if mem.isBigEndian then
    .ok ((mem.m address).setWidth 16 <<< 8 ||| (mem.m (address + 1)).setWidth 16)
  else
    .ok ((mem.m (address + 1)).setWidth 16 <<< 8 ||| (mem.m address).setWidth 16)

def memoryReadWord (mem : Memory) (address : BitVec 32) : Except (BitVec 32) (BitVec 32) :=
  if isNotValidAddress mem address then .error dataAbort
  else if mem.isBigEndian then
    .ok (Word.ofBytes (mem.m address) (mem.m (address + 1)) (mem.m (address + 2))
      (mem.m (address + 3)))
  else
    .ok (Word.ofBytes (mem.m (address + 3)) (mem.m (address + 2)) (mem.m (address + 1))
      (mem.m address))

def memoryWriteByte (mem : Memory) (address : BitVec 32) (value : BitVec 8) :
    Except (BitVec 32) Memory :=
  if isNotValidAddress mem address then .error dataAbort
  else .ok { mem with m := Function.update mem.m address value }

def memoryWriteHalf (mem : Memory) (address : BitVec 32) (value : BitVec 16) :
    Except (BitVec 32) Memory :=
  if isNotValidAddress mem address then .error dataAbort
  else if address.toNat % 2 ≠ 0 then .error dataAbort
  else if mem.isBigEndian then
    let m := Function.update mem.m address ((value >>> 8).setWidth 8)
    .ok { mem with m := Function.update m (address + 1) (value.setWidth 8) }
  else
    let m := Function.update mem.m address (value.setWidth 8)
    .ok { mem with m := Function.update m (address + 1) ((value >>> 8).setWidth 8) }

def memoryWriteWord (mem : Memory) (address : BitVec 32) (value : BitVec 32) :
    Except (BitVec 32) Memory :=
  if isNotValidAddress mem address then .error dataAbort
  else if address.toNat % 4 ≠ 0 then .error dataAbort
  else if mem.isBigEndian then
    let m := Function.update mem.m address (Word.byte value 3)
    let m := Function.update m (address + 1) (Word.byte value 2)
    let m := Function.update m (address + 2) (Word.byte value 1)
    .ok { mem with m := Function.update m (address + 3) (Word.byte value 0) }
  else
    let m := Function.update mem.m address (Word.byte value 0)
    let m := Function.update m (address + 1) (Word.byte value 1)
    let m := Function.update m (address + 2) (Word.byte value 2)
    .ok { mem with m := Function.update m (address + 3) (Word.byte value 3) }

theorem memoryReadWord_eq_error {mem : Memory} {address code : BitVec 32} :
    memoryReadWord mem address = .error code ↔ code = dataAbort ∧ mem.size ≤ address.toNat := by
  unfold memoryReadWord isNotValidAddress
  by_cases h : mem.size ≤ address.toNat
  · simp [h, eq_comm]
  · cases hbe : mem.isBigEndian <;> simp [h]

/-- A memory of `size` bytes that holds `words` from address 0 on, in its own byte
order, and zeros after them. -/
def memoryOfWords (isBigEndian : Bool) (size : Nat) (words : List (BitVec 32)) : Memory where
  m i := Word.byte (words.getD (i.toNat / 4) 0)
    (if isBigEndian then 3 - i.toNat % 4 else i.toNat % 4)
  size := size
  isBigEndian := isBigEndian

theorem memoryReadWord_memoryOfWords (isBigEndian : Bool) (size : Nat) (words : List (BitVec 32))
    {a : BitVec 32} (ha : a.toNat % 4 = 0) :
    memoryReadWord (memoryOfWords isBigEndian size words) a =
      if size ≤ a.toNat then .error dataAbort else .ok (words.getD (a.toNat / 4) 0) := by
  have h1 : (a + 1).toNat / 4 = a.toNat / 4 ∧ (a + 1).toNat % 4 = 1 := by bv_omega
  have h2 : (a + 2).toNat / 4 = a.toNat / 4 ∧ (a + 2).toNat % 4 = 2 := by bv_omega
  have h3 : (a + 3).toNat / 4 = a.toNat / 4 ∧ (a + 3).toNat % 4 = 3 := by bv_omega
  have hvalid : isNotValidAddress (memoryOfWords isBigEndian size words) a =
      decide (size ≤ a.toNat) := rfl
  unfold memoryReadWord
  rw [hvalid]
  by_cases hsize : size ≤ a.toNat
  · simp [hsize]
  · cases isBigEndian <;>
      simp only [hsize, decide_false, memoryOfWords, h1, h2, h3, ha, if_true, if_false,
        Bool.false_eq_true, Nat.reduceSub, Nat.sub_zero, Word.ofBytes_byte]

/-! ## What a word write does

A word write is accepted at an aligned address inside the memory.  It then keeps
the size and the byte order, is read back at its own address, and leaves every
byte but the four it covers. -/

/-- The four bytes a word access at `address` touches. -/
def covers (address i : BitVec 32) : Prop :=
  i = address ∨ i = address + 1 ∨ i = address + 2 ∨ i = address + 3

/-- `memory_write_word` returns 0. -/
def acceptsWordWrite (mem : Memory) (address : BitVec 32) : Prop :=
  address.toNat < mem.size ∧ address.toNat % 4 = 0

instance (mem : Memory) (address : BitVec 32) : Decidable (acceptsWordWrite mem address) :=
  inferInstanceAs (Decidable (_ ∧ _))

theorem memoryWriteWord_error {mem : Memory} {address : BitVec 32}
    (h : ¬acceptsWordWrite mem address) (value : BitVec 32) :
    memoryWriteWord mem address value = .error dataAbort := by
  unfold memoryWriteWord isNotValidAddress
  by_cases hsize : mem.size ≤ address.toNat
  · simp [hsize]
  · have halign : address.toNat % 4 ≠ 0 := fun h4 => h ⟨by omega, h4⟩
    simp [halign]

def storeWord (mem : Memory) (address value : BitVec 32) : Memory :=
  match memoryWriteWord mem address value with
  | .ok mem => mem
  | .error _ => mem

theorem memoryWriteWord_ok {mem : Memory} {address : BitVec 32}
    (h : acceptsWordWrite mem address) (value : BitVec 32) :
    memoryWriteWord mem address value = .ok (storeWord mem address value) := by
  obtain ⟨hsize, halign⟩ := h
  have hvalid : ¬mem.size ≤ address.toNat := by omega
  unfold storeWord memoryWriteWord isNotValidAddress
  cases hbe : mem.isBigEndian <;> simp [hvalid, halign]

@[simp] theorem storeWord_size (mem : Memory) (address value : BitVec 32) :
    (storeWord mem address value).size = mem.size := by
  unfold storeWord memoryWriteWord
  split_ifs <;> rfl

@[simp] theorem storeWord_isBigEndian (mem : Memory) (address value : BitVec 32) :
    (storeWord mem address value).isBigEndian = mem.isBigEndian := by
  unfold storeWord memoryWriteWord
  split_ifs <;> rfl

theorem storeWord_m_of_not_covers {mem : Memory} {address value i : BitVec 32}
    (h : ¬covers address i) : (storeWord mem address value).m i = mem.m i := by
  simp only [covers, not_or] at h
  obtain ⟨h0, h1, h2, h3⟩ := h
  unfold storeWord memoryWriteWord
  split_ifs <;> simp only [ne_eq, h0, h1, h2, h3, not_false_eq_true, Function.update_of_ne]

theorem memoryReadWord_storeWord_self {mem : Memory} {address : BitVec 32}
    (h : acceptsWordWrite mem address) (value : BitVec 32) :
    memoryReadWord (storeWord mem address value) address = .ok value := by
  obtain ⟨hsize, halign⟩ := h
  have hvalid : ¬mem.size ≤ address.toNat := by omega
  unfold memoryReadWord storeWord memoryWriteWord isNotValidAddress
  cases hbe : mem.isBigEndian <;>
    simp [hvalid, halign, Word.ofBytes_byte]

theorem not_covers_of_aligned {a b i : BitVec 32} (ha : a.toNat % 4 = 0) (hb : b.toNat % 4 = 0)
    (hne : a ≠ b) (h : covers b i) : ¬covers a i := by
  unfold covers at h ⊢
  bv_omega

theorem memoryReadWord_storeWord_of_ne {mem : Memory} {a b : BitVec 32} (ha : a.toNat % 4 = 0)
    (hb : b.toNat % 4 = 0) (hne : a ≠ b) (value : BitVec 32) :
    memoryReadWord (storeWord mem a value) b = memoryReadWord mem b := by
  have keep : ∀ i, covers b i → (storeWord mem a value).m i = mem.m i :=
    fun i hi => storeWord_m_of_not_covers (not_covers_of_aligned ha hb hne hi)
  unfold memoryReadWord isNotValidAddress
  rw [storeWord_size, storeWord_isBigEndian, keep b (by simp [covers]),
    keep (b + 1) (by simp [covers]), keep (b + 2) (by simp [covers]),
    keep (b + 3) (by simp [covers])]

end ArmSimulator
