/-
Data processing: `shifter_operand` of `arm_instruction.c`, `arm_miscellaneous` of
`arm_branch_other.c` and `arm_data_processing.c`.

`arm_data_processing` is cut into its stages, in the order of the source: the
operand, the result, the write of the destination, the flags.
-/
import ArmSimulator.Model.Core

namespace ArmSimulator

/-! ## The shifter operand -/

/-- A bit of a word, as the number C computes with. -/
def bitWord (b : Bool) : BitVec 32 := if b then 1 else 0

def armReadCarry : Arm Bool := do
  let cpsr ← armReadCpsr
  pure (getBit cpsr Flag.c)

/-- The shift count: a register as a whole, or the immediate field.  A zero count
becomes 32 when bits 6 and 4 are both set. -/
def shifterAmount (ins : BitVec 32) : Arm (BitVec 32) := do
  let shift ← (if getBit ins 4 then armReadRegister (regField ins 8)
    else pure ((getBits ins 11 7).setWidth 32))
  pure (if shift = 0 ∧ getBit ins 6 ∧ getBit ins 4 then 32 else shift)

def shifterOperand (host : Host) (ins : BitVec 32) : Arm (BitVec 32 × Bool) := do
  let rm ← armReadRegister (regField ins 0)
  let shift ← shifterAmount ins
  let carryIn ← (if shift = 0 then armReadCarry else pure false)
  match ShiftKind.ofField (getBits ins 6 5) with
  | .lsl =>
    pure (host.shl rm shift.toNat,
      if shift = 0 then carryIn else host.getBit rm (32 - shift).toNat)
  | .lsr =>
    pure (host.shr rm shift.toNat,
      if shift = 0 then carryIn else host.getBit rm (shift - 1).toNat)
  | .asr =>
    -- The count is converted to `int32_t` for the carry and to `uint8_t` for `asr`.
    pure (asr host rm ((shift - 1).setWidth 8), host.getBit rm (shift - 1).toInt)
  | .ror =>
    if shift = 0 then do
      let carry ← armReadCarry
      pure (rm >>> 1 ||| bitWord carry <<< 31, getBit rm 0)
    else
      pure (ror host rm (shift.setWidth 8), host.getBit rm (shift - 1).toNat)

/-! ## Status register transfers -/

/-- MRS copies a status register; MSR, which bit 21 tells apart, is not
implemented and does nothing. -/
def armMiscellaneous (ins : BitVec 32) : Arm (BitVec 32) :=
  if getBit ins 21 then pure 0
  else if getBit ins 22 then do
    let hasSpsr ← armCurrentModeHasSpsr
    if hasSpsr then do
      let spsr ← armReadSpsr
      armWriteRegister (regField ins 12) spsr
      pure 0
    else pure undefinedInstruction
  else do
    let cpsr ← armReadCpsr
    armWriteRegister (regField ins 12) cpsr
    pure 0

/-! ## The stages of `arm_data_processing` -/

def insOpcode (ins : BitVec 32) : Opcode := .ofField (getBits ins 24 21)

def dataProcessingOperand (host : Host) (ins : BitVec 32) : Arm (BitVec 32 × Bool) :=
  if getBit ins 25 then do
    let value := ror host (ins &&& 0xFF) ((((ins >>> 8) &&& 0xF) * 2).setWidth 8)
    let carry ← armReadCarry
    pure (value, carry)
  else shifterOperand host ins

/-- The forms of the four comparisons without S are the status register
transfers.  What `arm_miscellaneous` returns is dropped. -/
def compareMiscellaneous (ins : BitVec 32) : Arm Unit :=
  if getBit ins 20 then pure ()
  else do
    let _ ← armMiscellaneous ins
    pure ()

def dataProcessingResult (ins rn shifter : BitVec 32) : Arm (BitVec 32) :=
  match insOpcode ins with
  | .and => pure (rn &&& shifter)
  | .eor => pure (rn ^^^ shifter)
  | .sub => pure (rn - shifter)
  | .rsb => pure (shifter - rn)
  | .add => pure (rn + shifter)
  | .adc => do
    let carry ← armReadCarry
    pure (rn + shifter + bitWord carry)
  | .sbc => do
    let carry ← armReadCarry
    pure (rn - shifter - bitWord (!carry))
  | .rsc => do
    let carry ← armReadCarry
    pure (shifter - rn - bitWord (!carry))
  | .tst => do
    compareMiscellaneous ins
    pure (rn &&& shifter)
  | .teq => do
    compareMiscellaneous ins
    pure (rn ^^^ shifter)
  | .cmp => do
    compareMiscellaneous ins
    pure (rn - shifter)
  | .cmn => do
    compareMiscellaneous ins
    pure (rn + shifter)
  | .orr => pure (rn ||| shifter)
  | .mov => pure shifter
  | .bic => pure (rn &&& ~~~shifter)
  | .mvn => pure (~~~shifter)

/-- The operand as the flag code adjusts it for the carry it reads. -/
def flagOperand (opcode : Opcode) (shifter : BitVec 32) : Arm (BitVec 32) := do
  let shifter ← (if opcode = .adc then do
      let carry ← armReadCarry
      pure (if carry then shifter + 1 else shifter)
    else pure shifter)
  if opcode = .sbc ∨ opcode = .rsb then do
    let carry ← armReadCarry
    pure (if carry then shifter else shifter - 1)
  else pure shifter

/-- The sign of the second operand of the addition the flags are computed for. -/
def flagSign (opcode : Opcode) (rn shifter : BitVec 32) : Bool :=
  if rn ≠ 0 ∧ (opcode = .sub ∨ opcode = .rsb ∨ opcode = .sbc ∨ opcode = .rsc ∨ opcode = .cmp) then
    getBit (~~~shifter) 31
  else
    getBit shifter 31

/-- The status word after an operation, with `a`, `b` and `r` the signs of the
first operand, the second operand and the result. -/
def flagWord (opcode : Opcode) (a b : Bool) (res : BitVec 32) (carryOut : Bool)
    (cpsr : BitVec 32) : BitVec 32 :=
  let r := getBit res 31
  let cpsr := changeBit cpsr Flag.n r
  let cpsr := changeBit cpsr Flag.z (res = 0)
  let cpsr := changeBit cpsr Flag.c carryOut
  if Opcode.sub.code ≤ opcode.code ∧ opcode.code ≤ Opcode.cmn.code ∧
      opcode ≠ .tst ∧ opcode ≠ .teq then
    let cpsr := changeBit cpsr Flag.c (carryOut || (a && b) || (!r && a != b))
    changeBit cpsr Flag.v (a == b && b != r)
  else cpsr

def updateFlags (opcode : Opcode) (rn shifter res : BitVec 32) (carryOut : Bool) : Arm Unit := do
  let shifter ← flagOperand opcode shifter
  let cpsr ← armReadCpsr
  armWriteCpsr (flagWord opcode (getBit rn 31) (flagSign opcode rn shifter) res carryOut cpsr)

/-- The last stage: with S, the SPSR becomes the CPSR when the destination is the
program counter and the mode has one, and the flags are updated otherwise. -/
def dataProcessingStatus (ins rn shifter res : BitVec 32) (carryOut : Bool) : Arm Unit :=
  if getBit ins 20 then do
    let restore ← (if regField ins 12 = 15 then armCurrentModeHasSpsr else pure false)
    if restore then do
      let spsr ← armReadSpsr
      armWriteCpsr spsr
    else updateFlags (insOpcode ins) rn shifter res carryOut
  else pure ()

def armDataProcessing (host : Host) (ins : BitVec 32) : Arm (BitVec 32) := do
  let rn ← armReadRegister (regField ins 16)
  let operand ← dataProcessingOperand host ins
  let res ← dataProcessingResult ins rn operand.1
  -- The destination is written unless the opcode is TST, TEQ, CMP or CMN.
  (if getBits ins 24 23 ≠ 0b10 then armWriteRegister (regField ins 12) res else pure ())
  dataProcessingStatus ins rn operand.1 res operand.2
  pure 0

end ArmSimulator
