/-
Loads and stores, `arm_load_store.c`.

Both handlers leave locals without a value: `val` when a load is rejected or
narrower than a word, `res` when a block transfer has an empty list.  `Locals` is
what the stack holds there on entry.
-/
import ArmSimulator.Model.DataProcessing

namespace ArmSimulator

/-- The uninitialised locals `val` and `res` of a handler. -/
structure Locals where
  val : BitVec 32
  res : BitVec 32

/-! ## Single transfers -/

/-- The offset of a transfer, negated unless bit 23 is set. -/
def addressingMode (host : Host) (ins : BitVec 32) : Arm (BitVec 32) := do
  let res ← (if getBit ins 25 then do
      let operand ← shifterOperand host ins
      pure operand.1
    else if !getBit ins 26 then
      if getBit ins 22 then
        pure ((getBits ins 11 8).setWidth 32 <<< 4 ||| (getBits ins 3 0).setWidth 32)
      else armReadRegister (regField ins 0)
    else pure ((getBits ins 11 0).setWidth 32))
  pure (if getBit ins 23 then res else res * (-1))

/-- `*(uint8_t *) &val = byte`: the byte the host keeps at the lowest address. -/
def storeByte (host : Host) (val : BitVec 32) (byte : BitVec 8) : BitVec 32 :=
  if host.isBigEndian then (val &&& 0x00FFFFFF) ||| byte.setWidth 32 <<< 24
  else (val &&& 0xFFFFFF00) ||| byte.setWidth 32

def storeHalf (host : Host) (val : BitVec 32) (half : BitVec 16) : BitVec 32 :=
  if host.isBigEndian then (val &&& 0x0000FFFF) ||| half.setWidth 32 <<< 16
  else (val &&& 0xFFFF0000) ||| half.setWidth 32

/-- A read through a pointer: a rejected read leaves the local as it was. -/
def readInto {α : Type} (val : BitVec 32) (store : BitVec 32 → α → BitVec 32)
    (read : Arm (Except (BitVec 32) α)) : Arm (BitVec 32) := do
  match ← read with
  | .ok value => pure (store val value)
  | .error _ => pure val

/-- The local `val` after the read of a load.  What the read returns is dropped. -/
def loadValue (host : Host) (locals : Locals) (ins address : BitVec 32) : Arm (BitVec 32) :=
  if getBit ins 7 ∧ getBit ins 4 then
    readInto locals.val (storeHalf host) (armReadHalf address)
  else if getBit ins 22 then
    readInto locals.val (storeByte host) (armReadByte address)
  else
    readInto locals.val (fun _ word => word) (armReadWord address)

def storeValue (ins address val : BitVec 32) : Arm (BitVec 32) :=
  if getBit ins 7 ∧ getBit ins 4 then armWriteHalf address (val.setWidth 16)
  else if getBit ins 22 then armWriteByte address (val.setWidth 8)
  else armWriteWord address val

/-- `!is_P && is_W`: the transfer uses the user registers. -/
def isUserTransfer (ins : BitVec 32) : Bool := !getBit ins 24 && getBit ins 21

/-- The transfer itself.  The code of a load is the value of the macro
`arm_write_register`, which is 0. -/
def transferValue (host : Host) (locals : Locals) (ins address : BitVec 32) : Arm (BitVec 32) :=
  let rd := regField ins 12
  if getBit ins 20 then do
    let val ← loadValue host locals ins address
    let val := if rd = 15 then val &&& 0xFFFFFFFE else val
    (if isUserTransfer ins then armWriteUsrRegister rd val else armWriteRegister rd val)
    pure 0
  else do
    let val ← (if isUserTransfer ins then armReadUsrRegister rd else armReadRegister rd)
    storeValue ins address val

def armLoadStore (host : Host) (locals : Locals) (ins : BitVec 32) : Arm (BitVec 32) := do
  let base ← armReadRegister (regField ins 16)
  let address ← (if getBit ins 24 then do
      let offset ← addressingMode host ins
      pure (base + offset)
    else pure base)
  let res ← transferValue host locals ins address
  -- The trace line evaluates the offset once more.
  let _ ← addressingMode host ins
  let address ← (if getBit ins 24 then pure address
    else do
      let offset ← addressingMode host ins
      pure (address + offset))
  (if !getBit ins 24 ∨ getBit ins 21 then armWriteRegister (regField ins 16) address else pure ())
  pure res

/-! ## Block transfers -/

structure Block where
  address : BitVec 32
  val : BitVec 32
  res : BitVec 32
  numberOfSetBits : BitVec 8

/-- One turn of the loop for a register of the list.  What the read of a load
returns is dropped, and `val` then keeps what it held. -/
def blockStep (isLoad : Bool) (ri : Fin 16) (b : Block) : Arm Block :=
  if isLoad then do
    let val ← readInto b.val (fun _ word => word) (armReadWord b.address)
    let val := if ri = 15 then val &&& 0xFFFFFFFE else val
    armWriteRegister ri val
    pure { address := b.address + 4, val := val, res := 0,
           numberOfSetBits := b.numberOfSetBits + 1 }
  else do
    let val ← armReadRegister ri
    let res ← armWriteWord b.address val
    pure { address := b.address + 4, val := val, res := res,
           numberOfSetBits := b.numberOfSetBits + 1 }

/-- The loop over the registers, for those whose bit is set in `ins`. -/
def blockLoop (ins : BitVec 32) : List (Fin 16) → Block → Arm Block
  | [], b => pure b
  | ri :: rest, b => do
    let b ← (if getBit ins ri then blockStep (getBit ins 20) ri b else pure b)
    blockLoop ins rest b

def blockStart (ins base : BitVec 32) : BitVec 32 :=
  let address := if getBit ins 23 then base
    else (List.finRange 16).foldl (fun a (ri : Fin 16) => if getBit ins ri then a - 4 else a) base
  if getBit ins 23 = getBit ins 24 then address + 4 else address

def blockBase (ins base : BitVec 32) (count : BitVec 8) : BitVec 32 :=
  if getBit ins 23 then base + count.setWidth 32 * 4 else base - count.setWidth 32 * 4

def armLoadStoreMultiple (locals : Locals) (ins : BitVec 32) : Arm (BitVec 32) := do
  let base ← armReadRegister (regField ins 16)
  let b ← blockLoop ins (List.finRange 16)
    { address := blockStart ins base, val := locals.val, res := locals.res, numberOfSetBits := 0 }
  (if getBit ins 21 then
      armWriteRegister (regField ins 16) (blockBase ins base b.numberOfSetBits)
    else pure ())
  pure b.res

end ArmSimulator
