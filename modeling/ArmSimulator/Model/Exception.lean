/-
Exception entry, `arm_exception.c`.
-/
import ArmSimulator.Model.Core

namespace ArmSimulator

/-- The status word an exception other than RESET gives the core. -/
def exceptionCpsr (exception : BitVec 8) (cpsr : BitVec 32) : BitVec 32 :=
  let code := exception.setWidth 32
  if code = undefinedInstruction then (cpsr &&& 0x140) ||| 0x9b
  else if code = softwareInterrupt then (cpsr &&& 0x140) ||| 0x93
  else if code = prefetchAbort then (cpsr &&& 0x40) ||| 0x197
  else if code = dataAbort then (cpsr &&& 0x40) ||| 0x197
  else if code = interrupt then (cpsr &&& 0x40) ||| 0x192
  else if code = fastInterrupt then 0x1d1
  else cpsr

/-- The distance `d` from the program counter as it is read to the link register. -/
def exceptionLinkOffset (exception : BitVec 8) : BitVec 32 :=
  let code := exception.setWidth 32
  if code = dataAbort ∨ code = interrupt ∨ code = fastInterrupt then 8 else 4

/-- The address an exception continues at, `(exception - 1) * 4`. -/
def exceptionVector (exception : BitVec 8) : BitVec 32 := (exception.setWidth 32 - 1) * 4

/-- RESET, as the manual has it. -/
def resetEntry : Arm Unit := do
  armWriteCpsr 0xd3
  armWriteRegister 13 0x800

/-- Every other exception.  The SPSR and the link register are written while the
core is still in the interrupted mode, the CPSR after them. -/
def exceptionEntry (exception : BitVec 8) : Arm Unit := do
  let cpsr ← armReadCpsr
  armWriteSpsr cpsr
  let pc ← armReadRegister 15
  armWriteRegister 14 (pc + exceptionLinkOffset exception)
  armWriteCpsr (exceptionCpsr exception cpsr)

def armException (exception : BitVec 8) : Arm Unit := do
  (if exception.setWidth 32 = reset then resetEntry else exceptionEntry exception)
  armWriteUsrRegister 15 (exceptionVector exception)

/-- `arm_create`: the array `malloc` returned holds arbitrary words. -/
def armCreate (reg : Registers) (mem : Memory) : Core :=
  { (armException 1 { cycleCount := 0, reg := reg, mem := mem }).state with cycleCount := 0 }

end ArmSimulator
