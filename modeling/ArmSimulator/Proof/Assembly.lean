/-
The processor as a program sees it.

A program of one mode sees sixteen registers, the last of them the address of its next
instruction, the flags N and Z, and the memory.  It does not see the banks, the mode or
the trace.  `step` is what the architecture has the instructions do that use no other flag
and no part of a word: data processing, branches, and transfers of words and of blocks of
words.  Of these it has the forms that the decoders let through, each of which says what it
leaves out.  It is undefined where a program leaves them, and at the SWI that ends the
simulation.
-/
import ArmSimulator.Base.Machine
import ArmSimulator.Model.Instruction
import ArmSimulator.Proof.BlockAddressing
import ArmSimulator.Proof.Flags
import ArmSimulator.Proof.Shifter

namespace ArmSimulator

namespace Assembly

/-! ## States -/

structure State where
  reg : Fin 16 → BitVec 32
  n : Bool
  z : Bool
  mem : Memory

namespace State

/-- The program counter reads as the address of the instruction plus 8. -/
def read (s : State) (r : Fin 16) : BitVec 32 := if r = 15 then s.reg 15 + 8 else s.reg r

def write (s : State) (r : Fin 16) (value : BitVec 32) : State :=
  { s with reg := Function.update s.reg r value }

/-- An instruction address is a multiple of 4. -/
def jump (s : State) (target : BitVec 32) : Option State :=
  if target.toNat % 4 = 0 then some (s.write 15 target) else none

def next (s : State) : State := s.write 15 (s.reg 15 + 4)

def setFlags (s : State) (res : BitVec 32) : State := { s with n := getBit res 31, z := res == 0 }

@[simp] theorem write_reg_self (s : State) (r : Fin 16) (value : BitVec 32) :
    (s.write r value).reg r = value := by
  unfold write
  exact Function.update_self r value s.reg

theorem write_reg_of_ne (s : State) {r r' : Fin 16} (h : r' ≠ r) (value : BitVec 32) :
    (s.write r value).reg r' = s.reg r' := by
  unfold write
  exact Function.update_of_ne h value s.reg

end State

/-- A word can be read and written where it is aligned and inside the memory. -/
def Accessible (mem : Memory) (a : BitVec 32) : Prop := a.toNat % 4 = 0 ∧ a.toNat + 4 ≤ mem.size

instance (mem : Memory) (a : BitVec 32) : Decidable (Accessible mem a) :=
  inferInstanceAs (Decidable (_ ∧ _))

/-! ## Instructions -/

inductive Operand where
  | immediate (value : BitVec 32)
  | shifted (rm : Fin 16) (kind : ShiftKind) (count : Nat)
  deriving DecidableEq

inductive Instruction where
  | data (opcode : Opcode) (flags : Bool) (rd rn : Fin 16) (operand : Operand)
  | branch (link : Bool) (offset : BitVec 24)
  | transfer (load before up back : Bool) (rd rn : Fin 16) (offset : Operand)
  /-- With write-back. -/
  | block (load before up : Bool) (rn : Fin 16) (list : List (Fin 16))
  | exit
  deriving DecidableEq

/-! ## Decoding -/

/-- LSL, LSR and ROR by a constant.  LSL by 0 is no shift; the zero counts of the other kinds,
which stand for 32 or for RRX, are left out, and so are ASR and the shifts by a register. -/
def decodeShift (ins : BitVec 32) : Option Operand :=
  let kind := ShiftKind.ofField (getBits ins 6 5)
  let count := (getBits ins 11 7).toNat
  if getBit ins 4 = true ∨ kind = .asr ∨ (kind ≠ .lsl ∧ count = 0) then none
  else some (.shifted (regField ins 0) kind count)

def decodeOperand (ins : BitVec 32) : Option Operand :=
  if getBit ins 25 then
    some (.immediate ((ins &&& 0xFF).rotateRight (2 * (getBits ins 11 8).toNat)))
  else decodeShift ins

/-- Not the opcodes that read the carry, not the status register transfers that stand where
a comparison sets no flags, and no flags with a jump. -/
def decodeData (ins : BitVec 32) : Option Instruction :=
  if insOpcode ins = .adc ∨ insOpcode ins = .sbc ∨ insOpcode ins = .rsc ∨
      ((insOpcode ins).isCompare = true ∧ getBit ins 20 = false) ∨
      (regField ins 12 = 15 ∧ getBit ins 20 = true) then none
  else
    (decodeOperand ins).map
      (.data (insOpcode ins) (getBit ins 20) (regField ins 12) (regField ins 16))

def decodeOffset (ins : BitVec 32) : Option Operand :=
  if getBit ins 25 then decodeShift ins
  else some (.immediate ((getBits ins 11 0).setWidth 32))

def isBack (ins : BitVec 32) : Bool := !getBit ins 24 || getBit ins 21

/-- Words only, and no encoding with bits 7 and 4 set, of which the simulator transfers a half
word.  Also left out are the transfers through the user registers (LDRT and STRT, with P clear
and W set), those of the program counter, write-back into the program counter or the register
transferred, and post-indexing by the register transferred. -/
def decodeTransfer (ins : BitVec 32) : Option Instruction :=
  if getBit ins 22 = true ∨ (getBit ins 7 = true ∧ getBit ins 4 = true) ∨
      (getBit ins 24 = false ∧ getBit ins 21 = true) ∨ regField ins 12 = 15 ∨
      (isBack ins = true ∧ (regField ins 16 = 15 ∨ regField ins 12 = regField ins 16)) ∨
      (getBit ins 25 = true ∧ getBit ins 24 = false ∧ regField ins 0 = regField ins 12) then none
  else
    (decodeOffset ins).map
      (.transfer (getBit ins 20) (getBit ins 24) (getBit ins 23) (isBack ins) (regField ins 12)
        (regField ins 16))

/-- With write-back, and without the user registers.  Neither the program counter nor the base
is in the list. -/
def decodeBlock (ins : BitVec 32) : Option Instruction :=
  if getBit ins 22 = true ∨ getBit ins 21 = false ∨ regField ins 16 = 15 ∨
      getBit ins 15 = true ∨ getBit ins (regField ins 16) = true then none
  else
    some (.block (getBit ins 20) (getBit ins 24) (getBit ins 23) (regField ins 16) (blockList ins))

def decode (ins : BitVec 32) : Option Instruction :=
  match insType ins with
  | .dataProcessingShift => if getBit ins 4 then none else decodeData ins
  | .dataProcessingImmediate => decodeData ins
  | .loadStoreImmediate => decodeTransfer ins
  | .loadStoreRegister => decodeTransfer ins
  | .loadStoreMultiple => decodeBlock ins
  | .branch => some (.branch (getBit ins 24) (getBits ins 23 0))
  | .coprocessorOthersSwi =>
    if getBit ins 24 = true ∧ ins &&& 0xFFFFFF = 0x123456 then some .exit else none
  | .loadStoreCoproc => none

/-! ## Execution -/

def Operand.value (s : State) : Operand → BitVec 32
  | .immediate value => value
  | .shifted rm kind count => (shiftBy kind (s.read rm) count).1

/-- The addresses of the words of a block transfer, from the lowest on. -/
def blockAddress (first : BitVec 32) (k : Nat) : BitVec 32 := first + BitVec.ofNat 32 (4 * k)

def exec (s : State) : Instruction → Option State
  | .data opcode flags rd rn operand =>
    let res := opcodeResult opcode (s.read rn) (operand.value s) false
    let t := if flags then s.next.setFlags res else s.next
    if opcode.isCompare then some t
    else if rd = 15 then t.jump res
    else some (t.write rd res)
  | .branch link offset =>
    let t := if link then s.next.write 14 (s.reg 15 + 4) else s.next
    some (t.write 15 (s.reg 15 + 8 + BitVec.ofInt 32 (4 * offset.toInt)))
  | .transfer load before up back rd rn offset =>
    let indexed := s.read rn + (if up then offset.value s else -offset.value s)
    let a := if before then indexed else s.read rn
    if Accessible s.mem a then
      let t := if load then s.next.write rd (wordAt s.mem a)
        else { s.next with mem := storeWord s.mem a (s.read rd) }
      some (if back then t.write rn indexed else t)
    else none
  | .block load before up rn list =>
    let base := s.reg rn
    let first := firstAddress before up base list.length
    let bytes := BitVec.ofNat 32 (4 * list.length)
    if ∀ k, k < list.length → Accessible s.mem (blockAddress first k) then
      let t := if load then
          { s.next with
            reg := fun r => if r ∈ list then wordAt s.mem (blockAddress first (list.idxOf r))
              else s.next.reg r }
        else { s.next with mem := storeWords s.mem first (list.map s.reg) }
      some (t.write rn (if up then base + bytes else base - bytes))
    else none
  | .exit => none

/-- Whether an instruction is executed, for a condition on N and Z alone. -/
def passes (condition : Condition) (n z : Bool) : Option Bool :=
  match condition with
  | .eq => some z
  | .ne => some !z
  | .mi => some n
  | .pl => some !n
  | .al => some true
  | _ => none

def fetch (s : State) : Option (BitVec 32) :=
  if Accessible s.mem (s.reg 15) then some (wordAt s.mem (s.reg 15)) else none

def step (s : State) : Option State := do
  let ins ← fetch s
  let passed ← passes (insCondition ins) s.n s.z
  if passed then
    let i ← decode ins
    exec s i
  else pure s.next

/-- The next instruction is the SWI that ends the simulation. -/
def AtExit (s : State) : Prop :=
  ∃ ins, fetch s = some ins ∧ passes (insCondition ins) s.n s.z = some true ∧
    decode ins = some .exit

theorem step_atExit {s : State} (h : AtExit s) : step s = none := by
  obtain ⟨ins, hfetch, hpasses, hdecode⟩ := h
  simp only [step, hfetch, hpasses, hdecode, Option.bind_eq_bind, Option.bind_some, if_true, exec]

end Assembly

end ArmSimulator
