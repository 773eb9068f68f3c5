/-
The encodings of `arm_constants.h`.

Every enumeration the header gives as numbers is an inductive type here, read
from the field that holds it.
-/
import ArmSimulator.Model.Util

namespace ArmSimulator

/-! ## Opcodes of data processing -/

inductive Opcode where
  | and | eor | sub | rsb | add | adc | sbc | rsc
  | tst | teq | cmp | cmn | orr | mov | bic | mvn
  deriving DecidableEq, Repr

def Opcode.ofField (field : BitVec 4) : Opcode :=
  match field.toNat with
  | 0b0000 => .and
  | 0b0001 => .eor
  | 0b0010 => .sub
  | 0b0011 => .rsb
  | 0b0100 => .add
  | 0b0101 => .adc
  | 0b0110 => .sbc
  | 0b0111 => .rsc
  | 0b1000 => .tst
  | 0b1001 => .teq
  | 0b1010 => .cmp
  | 0b1011 => .cmn
  | 0b1100 => .orr
  | 0b1101 => .mov
  | 0b1110 => .bic
  | _ => .mvn

/-- The number of an opcode, which `arm_data_processing` compares with `<=`. -/
def Opcode.code : Opcode → Nat
  | .and => 0b0000
  | .eor => 0b0001
  | .sub => 0b0010
  | .rsb => 0b0011
  | .add => 0b0100
  | .adc => 0b0101
  | .sbc => 0b0110
  | .rsc => 0b0111
  | .tst => 0b1000
  | .teq => 0b1001
  | .cmp => 0b1010
  | .cmn => 0b1011
  | .orr => 0b1100
  | .mov => 0b1101
  | .bic => 0b1110
  | .mvn => 0b1111

/-! ## Instruction types, bits 27 to 25 -/

inductive InstructionType where
  | dataProcessingShift | dataProcessingImmediate
  | loadStoreImmediate | loadStoreRegister | loadStoreMultiple
  | branch | loadStoreCoproc | coprocessorOthersSwi
  deriving DecidableEq, Repr

def InstructionType.ofField (field : BitVec 3) : InstructionType :=
  match field.toNat with
  | 0b000 => .dataProcessingShift
  | 0b001 => .dataProcessingImmediate
  | 0b010 => .loadStoreImmediate
  | 0b011 => .loadStoreRegister
  | 0b100 => .loadStoreMultiple
  | 0b101 => .branch
  | 0b110 => .loadStoreCoproc
  | _ => .coprocessorOthersSwi

/-! ## Conditions, bits 31 to 28 -/

/-- The fifteen conditions, and the field 1111 that has no name in the header. -/
inductive Condition where
  | eq | ne | cs | cc | mi | pl | vs | vc | hi | ls | ge | lt | gt | le | al | other
  deriving DecidableEq, Repr

def Condition.ofField (field : BitVec 4) : Condition :=
  match field.toNat with
  | 0b0000 => .eq
  | 0b0001 => .ne
  | 0b0010 => .cs
  | 0b0011 => .cc
  | 0b0100 => .mi
  | 0b0101 => .pl
  | 0b0110 => .vs
  | 0b0111 => .vc
  | 0b1000 => .hi
  | 0b1001 => .ls
  | 0b1010 => .ge
  | 0b1011 => .lt
  | 0b1100 => .gt
  | 0b1101 => .le
  | 0b1110 => .al
  | _ => .other

/-! ## Shift operations, bits 6 and 5 -/

inductive ShiftKind where
  | lsl | lsr | asr | ror
  deriving DecidableEq, Repr

def ShiftKind.ofField (field : BitVec 2) : ShiftKind :=
  match field.toNat with
  | 0 => .lsl
  | 1 => .lsr
  | 2 => .asr
  | _ => .ror

/-! ## Modes, the low five bits of a status register -/

namespace Mode

def usr : BitVec 8 := 0x10
def fiq : BitVec 8 := 0x11
def irq : BitVec 8 := 0x12
def svc : BitVec 8 := 0x13
def abt : BitVec 8 := 0x17
def und : BitVec 8 := 0x1b
def sys : BitVec 8 := 0x1f

/-- The modes the header names. -/
def all : List (BitVec 8) := [usr, fiq, irq, svc, abt, und, sys]

def Valid (mode : BitVec 8) : Prop := mode ∈ all

instance (mode : BitVec 8) : Decidable (Valid mode) :=
  inferInstanceAs (Decidable (mode ∈ all))

theorem valid_cases {mode : BitVec 8} (h : Valid mode) :
    mode = usr ∨ mode = fiq ∨ mode = irq ∨ mode = svc ∨ mode = abt ∨ mode = und ∨ mode = sys := by
  simpa [Valid, all] using h

end Mode

/-! ## Exceptions, which are also the codes the simulator's functions return -/

def reset : BitVec 32 := 1
def undefinedInstruction : BitVec 32 := 2
def softwareInterrupt : BitVec 32 := 3
def prefetchAbort : BitVec 32 := 4
def dataAbort : BitVec 32 := 5
def interrupt : BitVec 32 := 7
def fastInterrupt : BitVec 32 := 8

/-! ## Bits of the CPSR -/

namespace Flag

def n : Nat := 31
def z : Nat := 30
def c : Nat := 29
def v : Nat := 28

end Flag

end ArmSimulator
