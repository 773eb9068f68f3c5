/-
The functions of `memory.c` one byte at a time.

`Memory.lean` gives what a call returns.  Here the same functions are written as
the source runs them, with every access to the array `mem->m` as an event that
carries its index, so that what a call touches before it returns can be stated.
The operands of `|` may be evaluated in any order; they are loaded by ascending
index.
-/
import ArmSimulator.Base.Traced
import ArmSimulator.Model.Memory

namespace ArmSimulator

/-- A computation on the memory whose events are the indices of the bytes it
touches. -/
abbrev Bytewise := Traced (BitVec 32) Memory

/-- The memory after a write: the one it returns, or the one before it. -/
def afterWrite (mem : Memory) : Except (BitVec 32) Memory → Memory
  | .ok mem => mem
  | .error _ => mem

namespace Bytewise

def load (index : BitVec 32) : Bytewise (BitVec 8) := fun mem =>
  { value := mem.m index, state := mem, trace := [index] }

def store (index : BitVec 32) (value : BitVec 8) : Bytewise Unit := fun mem =>
  { value := (), state := { mem with m := Function.update mem.m index value }, trace := [index] }

def isNotValidAddress (address : BitVec 32) : Bytewise Bool := fun mem =>
  { value := ArmSimulator.isNotValidAddress mem address, state := mem, trace := [] }

def isBigEndian : Bytewise Bool := fun mem =>
  { value := mem.isBigEndian, state := mem, trace := [] }

def memoryReadByte (address : BitVec 32) : Bytewise (Except (BitVec 32) (BitVec 8)) := do
  if ← isNotValidAddress address then pure (.error dataAbort)
  else
    let b ← load address
    pure (.ok b)

def memoryReadHalf (address : BitVec 32) : Bytewise (Except (BitVec 32) (BitVec 16)) := do
  if ← isNotValidAddress address then pure (.error dataAbort)
  else if ← isBigEndian then
    let b0 ← load address
    let b1 ← load (address + 1)
    pure (.ok (b0.setWidth 16 <<< 8 ||| b1.setWidth 16))
  else
    let b0 ← load address
    let b1 ← load (address + 1)
    pure (.ok (b1.setWidth 16 <<< 8 ||| b0.setWidth 16))

def memoryReadWord (address : BitVec 32) : Bytewise (Except (BitVec 32) (BitVec 32)) := do
  if ← isNotValidAddress address then pure (.error dataAbort)
  else if ← isBigEndian then
    let b0 ← load address
    let b1 ← load (address + 1)
    let b2 ← load (address + 2)
    let b3 ← load (address + 3)
    pure (.ok (Word.ofBytes b0 b1 b2 b3))
  else
    let b0 ← load address
    let b1 ← load (address + 1)
    let b2 ← load (address + 2)
    let b3 ← load (address + 3)
    pure (.ok (Word.ofBytes b3 b2 b1 b0))

def memoryWriteByte (address : BitVec 32) (value : BitVec 8) : Bytewise (BitVec 32) := do
  if ← isNotValidAddress address then pure dataAbort
  else
    store address value
    pure 0

def memoryWriteHalf (address : BitVec 32) (value : BitVec 16) : Bytewise (BitVec 32) := do
  if ← isNotValidAddress address then pure dataAbort
  else if address.toNat % 2 ≠ 0 then pure dataAbort
  else if ← isBigEndian then
    store address ((value >>> 8).setWidth 8)
    store (address + 1) (value.setWidth 8)
    pure 0
  else
    store address (value.setWidth 8)
    store (address + 1) ((value >>> 8).setWidth 8)
    pure 0

def memoryWriteWord (address : BitVec 32) (value : BitVec 32) : Bytewise (BitVec 32) := do
  if ← isNotValidAddress address then pure dataAbort
  else if address.toNat % 4 ≠ 0 then pure dataAbort
  else if ← isBigEndian then
    store address (Word.byte value 3)
    store (address + 1) (Word.byte value 2)
    store (address + 2) (Word.byte value 1)
    store (address + 3) (Word.byte value 0)
    pure 0
  else
    store address (Word.byte value 0)
    store (address + 1) (Word.byte value 1)
    store (address + 2) (Word.byte value 2)
    store (address + 3) (Word.byte value 3)
    pure 0

/-! ## What the calls return -/

section

variable (mem : Memory) (a : BitVec 32)

theorem memoryReadByte_value :
    (memoryReadByte a mem).value = ArmSimulator.memoryReadByte mem a := by
  unfold memoryReadByte ArmSimulator.memoryReadByte
  cases h : ArmSimulator.isNotValidAddress mem a <;> simp [isNotValidAddress, load, h]

theorem memoryReadHalf_value :
    (memoryReadHalf a mem).value = ArmSimulator.memoryReadHalf mem a := by
  unfold memoryReadHalf ArmSimulator.memoryReadHalf
  cases h : ArmSimulator.isNotValidAddress mem a <;>
    cases hb : mem.isBigEndian <;> simp [isNotValidAddress, isBigEndian, load, h, hb]

theorem memoryReadWord_value :
    (memoryReadWord a mem).value = ArmSimulator.memoryReadWord mem a := by
  unfold memoryReadWord ArmSimulator.memoryReadWord
  cases h : ArmSimulator.isNotValidAddress mem a <;>
    cases hb : mem.isBigEndian <;> simp [isNotValidAddress, isBigEndian, load, h, hb]

theorem memoryWriteByte_value (v : BitVec 8) :
    (memoryWriteByte a v mem).value = resultCode (ArmSimulator.memoryWriteByte mem a v) ∧
      (memoryWriteByte a v mem).state = afterWrite mem (ArmSimulator.memoryWriteByte mem a v) := by
  unfold memoryWriteByte ArmSimulator.memoryWriteByte
  cases h : ArmSimulator.isNotValidAddress mem a <;>
    simp [isNotValidAddress, store, afterWrite, resultCode, h]

theorem memoryWriteHalf_value (v : BitVec 16) :
    (memoryWriteHalf a v mem).value = resultCode (ArmSimulator.memoryWriteHalf mem a v) ∧
      (memoryWriteHalf a v mem).state = afterWrite mem (ArmSimulator.memoryWriteHalf mem a v) := by
  unfold memoryWriteHalf ArmSimulator.memoryWriteHalf
  cases h : ArmSimulator.isNotValidAddress mem a <;> by_cases halign : a.toNat % 2 = 0 <;>
    cases hb : mem.isBigEndian <;>
    simp [isNotValidAddress, isBigEndian, store, afterWrite, resultCode, h, halign, hb]

theorem memoryWriteWord_value (v : BitVec 32) :
    (memoryWriteWord a v mem).value = resultCode (ArmSimulator.memoryWriteWord mem a v) ∧
      (memoryWriteWord a v mem).state = afterWrite mem (ArmSimulator.memoryWriteWord mem a v) := by
  unfold memoryWriteWord ArmSimulator.memoryWriteWord
  cases h : ArmSimulator.isNotValidAddress mem a <;> by_cases halign : a.toNat % 4 = 0 <;>
    cases hb : mem.isBigEndian <;>
    simp [isNotValidAddress, isBigEndian, store, afterWrite, resultCode, h, halign, hb]

end

end Bytewise

/-! ## Calls -/

/-- A call of one of the six access functions. -/
inductive MemoryCall where
  | readByte (address : BitVec 32)
  | readHalf (address : BitVec 32)
  | readWord (address : BitVec 32)
  | writeByte (address : BitVec 32) (value : BitVec 8)
  | writeHalf (address : BitVec 32) (value : BitVec 16)
  | writeWord (address : BitVec 32) (value : BitVec 32)

namespace MemoryCall

def address : MemoryCall → BitVec 32
  | readByte a | readHalf a | readWord a | writeByte a _ | writeHalf a _ | writeWord a _ => a

def width : MemoryCall → Nat
  | readByte _ | writeByte _ _ => 1
  | readHalf _ | writeHalf _ _ => 2
  | readWord _ | writeWord _ _ => 4

def isRead : MemoryCall → Bool
  | readByte _ | readHalf _ | readWord _ => true
  | writeByte _ _ | writeHalf _ _ | writeWord _ _ => false

/-- The call, with the code it returns. -/
def run : MemoryCall → Bytewise (BitVec 32)
  | readByte a => do pure (resultCode (← Bytewise.memoryReadByte a))
  | readHalf a => do pure (resultCode (← Bytewise.memoryReadHalf a))
  | readWord a => do pure (resultCode (← Bytewise.memoryReadWord a))
  | writeByte a v => Bytewise.memoryWriteByte a v
  | writeHalf a v => Bytewise.memoryWriteHalf a v
  | writeWord a v => Bytewise.memoryWriteWord a v

end MemoryCall

end ArmSimulator
