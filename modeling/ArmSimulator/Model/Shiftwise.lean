/-
`shifter_operand` and the functions of `util.c` it calls, one shift at a time.

`DataProcessing.lean` gives what `shifter_operand` returns.  Here it is written as the
source runs it, with every shift by a computed count as an event that carries the count,
so that the counts the host is asked for can be stated.  The shifts by a constant take
fields out of the instruction and bits out of the status word; their counts are below 32
in the source and they are no events.
-/
import ArmSimulator.Model.DataProcessing

namespace ArmSimulator

/-- A computation on the core whose events are the counts of the shifts it evaluates. -/
abbrev Shiftwise := Traced Int Core

namespace Shiftwise

def shl (host : Host) (x : BitVec 32) (n : Int) : Shiftwise (BitVec 32) := fun s =>
  { value := host.shl x n, state := s, trace := [n] }

def shr (host : Host) (x : BitVec 32) (n : Int) : Shiftwise (BitVec 32) := fun s =>
  { value := host.shr x n, state := s, trace := [n] }

def armReadRegister (reg : Fin 16) : Shiftwise (BitVec 32) := fun s =>
  { value := (ArmSimulator.armReadRegister reg s).value, state := s, trace := [] }

def armReadCarry : Shiftwise Bool := fun s =>
  { value := (ArmSimulator.armReadCarry s).value, state := s, trace := [] }

/-- `get_bit (x, n)` for a count the program computes. -/
def getBit (host : Host) (x : BitVec 32) (n : Int) : Shiftwise Bool := do
  let y ← shr host x n
  pure (y.getLsbD 0)

def asr (host : Host) (value : BitVec 32) (shift : BitVec 8) : Shiftwise (BitVec 32) := do
  let low ← shr host value shift.toNat
  let fill ← (if ArmSimulator.getBit value 31 then shl host (~~~0) (32 - shift.toNat) else pure 0)
  pure (low ||| fill)

def ror (host : Host) (value : BitVec 32) (rotation : BitVec 8) : Shiftwise (BitVec 32) := do
  let low ← shr host value rotation.toNat
  let high ← shl host value (32 - rotation.toNat)
  pure (low ||| high)

def shifterAmount (ins : BitVec 32) : Shiftwise (BitVec 32) := do
  let shift ← (if ArmSimulator.getBit ins 4 then armReadRegister (regField ins 8)
    else pure ((getBits ins 11 7).setWidth 32))
  pure (if shift = 0 ∧ ArmSimulator.getBit ins 6 ∧ ArmSimulator.getBit ins 4 then 32 else shift)

def shifterOperand (host : Host) (ins : BitVec 32) : Shiftwise (BitVec 32 × Bool) := do
  let rm ← armReadRegister (regField ins 0)
  let shift ← shifterAmount ins
  let carryIn ← (if shift = 0 then armReadCarry else pure false)
  match ShiftKind.ofField (getBits ins 6 5) with
  | .lsl => do
    let carry ← (if shift = 0 then pure carryIn else getBit host rm (32 - shift).toNat)
    let value ← shl host rm shift.toNat
    pure (value, carry)
  | .lsr => do
    let carry ← (if shift = 0 then pure carryIn else getBit host rm (shift - 1).toNat)
    let value ← shr host rm shift.toNat
    pure (value, carry)
  | .asr => do
    let carry ← getBit host rm (shift - 1).toInt
    let value ← asr host rm ((shift - 1).setWidth 8)
    pure (value, carry)
  | .ror =>
    if shift = 0 then do
      let carry ← armReadCarry
      pure (rm >>> 1 ||| bitWord carry <<< 31, ArmSimulator.getBit rm 0)
    else do
      let carry ← getBit host rm (shift - 1).toNat
      let value ← ror host rm (shift.setWidth 8)
      pure (value, carry)

/-! ## What the calls return -/

theorem asr_value (host : Host) (value : BitVec 32) (shift : BitVec 8) (s : Core) :
    (asr host value shift s).value = ArmSimulator.asr host value shift := by
  unfold asr ArmSimulator.asr
  cases ArmSimulator.getBit value 31 <;> rfl

theorem shifterAmount_value (ins : BitVec 32) (s : Core) :
    (shifterAmount ins s).value = (ArmSimulator.shifterAmount ins s).value := by
  unfold shifterAmount ArmSimulator.shifterAmount
  cases ArmSimulator.getBit ins 4 <;> rfl

theorem shifterAmount_state (ins : BitVec 32) (s : Core) : (shifterAmount ins s).state = s := by
  unfold shifterAmount
  cases ArmSimulator.getBit ins 4 <;> rfl

end Shiftwise

end ArmSimulator
