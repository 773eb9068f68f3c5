/-
The gdb server of `gdb_protocol.c`.

The state is `struct gdb_protocol_data`.  Its memory is that of its core, as
`arm_simulator.c` creates them, and its connection is the socket it writes to, with
whether the write side is still open.  A handler may not return: it can end the process,
run for ever, fail an assertion, follow the result of a search that found nothing, or
use an index outside the packet array.  The model stops there.

The events are the writes to the connection and its shutdown, the accesses to the core
and the memory, the requests that get as far as the handler table, and the offsets at
which a handler reads its request.
-/
import ArmSimulator.Base.Bytes
import ArmSimulator.Base.Halting
import ArmSimulator.Model.CString
import ArmSimulator.Model.Instruction

namespace ArmSimulator

/-- What the program is built for: the host, the byte order of the target, and what its
C library makes of a `0x` without digits. -/
structure Build where
  host : Host
  bigEndianSimulator : Bool
  bareBase : Bool

/-- What a request finds in the uninitialised locals of the functions that handle it, and
in the buffer behind the packet.  `steps` has one entry for each step of the core, so it
also bounds how long a run is followed. -/
structure Context where
  given : BitVec 32
  address : BitVec 32
  size : BitVec 32
  value : BitVec 8
  reg : BitVec 32
  instruction : BitVec 32
  word : Nat → BitVec 32
  steps : List Locals
  beyond : List (BitVec 8)

structure Gdb where
  arm : Core
  targetException : BitVec 32
  packet : Nat → BitVec 8
  len : Nat
  connected : Bool

/-- Why a request is not handled to its end. -/
inductive Stop where
  | exit | running | assertFailed | nullPointer | overflow
  deriving DecidableEq, Repr

inductive GdbEvent where
  /-- `write` on the connection. -/
  | write (bytes : List (BitVec 8))
  | shutdown
  | core (access : Access)
  /-- `memory_read_byte` or `memory_write_byte`, with its result. -/
  | memory (type : AccessType) (address result : BitVec 32)
  /-- The handler table is looked up for the packet whose bytes from `packet + 1` on
  are these. -/
  | request (text : List (BitVec 8))
  /-- The request is read from this offset on. -/
  | read (offset : Nat)
  deriving DecidableEq

abbrev GdbM := Halting Stop GdbEvent Gdb

open Halting (halt)

namespace Gdb

def maxPacketSize : Nat := 1024

/-! ## Packets -/

/-- `Rio_writen`.  A write on a connection that is shut down ends the process; with no bytes
there is no write. -/
def rioWriten (bytes : List (BitVec 8)) : GdbM Unit := fun g =>
  if bytes = [] then { value := .ok (), state := g, trace := [] }
  else if g.connected then { value := .ok (), state := g, trace := [.write bytes] }
  else { value := .error .exit, state := g, trace := [] }

def gdbSendAck : GdbM Unit := rioWriten (text ['+'])

def gdbRequireRetransmission : GdbM Unit := rioWriten (text ['-'])

/-- The bytes of the stored reply, `packet[0]` to `packet[len - 1]`. -/
def reply (g : Gdb) : List (BitVec 8) := (List.range g.len).map g.packet

def gdbTransmitPacket : GdbM Unit := fun g => rioWriten g.reply g

def setPacket (i : Nat) (c : BitVec 8) : GdbM Unit := fun g =>
  if i < maxPacketSize then
    { value := .ok (), state := { g with packet := Function.update g.packet i c }, trace := [] }
  else { value := .error .overflow, state := g, trace := [] }

def getPacket (i : Nat) : GdbM (BitVec 8) := fun g =>
  if i < maxPacketSize then { value := .ok (g.packet i), state := g, trace := [] }
  else { value := .error .overflow, state := g, trace := [] }

def setLen (len : Nat) : GdbM Unit := fun g =>
  { value := .ok (), state := { g with len := len }, trace := [] }

def putChars : Nat → List (BitVec 8) → GdbM Unit
  | _, [] => pure ()
  | i, c :: rest => do
    setPacket i c
    putChars (i + 1) rest

/-- `strcpy` and `sprintf` to `packet + i`: the characters and a NUL. -/
def putString (i : Nat) (s : List (BitVec 8)) : GdbM Unit := putChars i (s ++ [0])

/-- The loop of `gdb_send_buffer`.  The array bounds the number of its turns. -/
def checkLoop : Nat → Nat → BitVec 8 → GdbM (Nat × BitVec 8)
  | 0, _, _ => halt .overflow
  | n + 1, i, check => do
    let c ← getPacket i
    if c = 0 then pure (i, check) else checkLoop n (i + 1) (check + c)

def gdbSendBuffer : GdbM Unit := do
  setPacket 0 (chr '$')
  let (i, check) ← checkLoop maxPacketSize 1 0
  setPacket i (chr '#')
  putString (i + 1) (Hex.ofByte check)
  setPacket (i + 3) 0
  setLen (i + 3)
  gdbTransmitPacket

/-- `gdb->buffer` is `gdb->packet + 1`. -/
def gdbSendData (data : List (BitVec 8)) : GdbM Unit := do
  putString 1 data
  gdbSendBuffer

/-! ## Words in hexadecimal -/

/-- The values the loop `for (; (i<4) && (i>=0); i+=step)` gives `i`.  It leaves the
range after four turns whichever way it goes. -/
def byteIndices : Nat → BitVec 32 → BitVec 32 → List Nat
  | 0, _, _ => []
  | n + 1, i, step => if i.toNat < 4 then i.toNat :: byteIndices n (i + step) step else []

def uint32Indices (build : Build) : List Nat :=
  if build.host.isBigEndian = build.bigEndianSimulator then byteIndices 5 0 1
  else byteIndices 5 3 (-1)

def readBytes (build : Build) : List Nat → BitVec 32 → List (BitVec 8) → (Nat → BitVec 8) →
    (Nat → BitVec 8)
  | [], _, _, bytes => bytes
  | i :: rest, value, data, bytes =>
    let value := match CString.scanHex build.bareBase 2 data with
      | some (v, _) => v
      | none => value
    readBytes build rest value (data.drop 2) (Function.update bytes i (value.setWidth 8))

/-- `value` is what the local holds at first. -/
def readUint32 (build : Build) (value : BitVec 32) (data : List (BitVec 8)) : BitVec 32 :=
  let bytes := readBytes build (uint32Indices build) value data fun _ => 0
  BitVec.ofNat 32
    (Bytes.number build.host.isBigEndian [bytes 0, bytes 1, bytes 2, bytes 3])

def writeUint32 (build : Build) (value : BitVec 32) : List (BitVec 8) :=
  let bytes := Bytes.split build.host.isBigEndian 4 value.toNat
  (uint32Indices build).flatMap fun i => Hex.ofByte (bytes.getD i 0)

/-! ## Access to the core, the memory and the request -/

def onArm {α : Type} (m : Arm α) : GdbM α := fun g =>
  { value := .ok (m g.arm).value, state := { g with arm := (m g.arm).state },
    trace := (m g.arm).trace.map .core }

/-- `memory_read_byte (gdb->mem, address, &value)`: the code, and what `value` then
holds. -/
def readByte (address : BitVec 32) (value : BitVec 8) : GdbM (BitVec 32 × BitVec 8) := fun g =>
  let result := memoryReadByte g.arm.mem address
  { value := .ok (resultCode result, match result with | .ok b => b | .error _ => value),
    state := g, trace := [.memory .read address (resultCode result)] }

def writeByte (address : BitVec 32) (value : BitVec 8) : GdbM (BitVec 32) := fun g =>
  let result := memoryWriteByte g.arm.mem address value
  { value := .ok (resultCode result),
    state := match result with
      | .ok mem => { g with arm := { g.arm with mem := mem } }
      | .error _ => g,
    trace := [.memory .write address (resultCode result)] }

def memoryGetSize : GdbM Nat := fun g => { value := .ok g.arm.mem.size, state := g, trace := [] }

/-- The request from an offset on. -/
def requestAt (data : List (BitVec 8)) (offset : Nat) : GdbM (List (BitVec 8)) := fun g =>
  { value := .ok (data.drop offset), state := g, trace := [.read offset] }

/-- The request from a pointer on, which is null when a search found nothing. -/
def pointerAt (data : List (BitVec 8)) : Option Nat → GdbM (List (BitVec 8))
  | none => halt .nullPointer
  | some offset => requestAt data offset

/-- `*p`. -/
def charAt (data : List (BitVec 8)) (p : Option Nat) : GdbM (BitVec 8) := do
  let s ← pointerAt data p
  pure (s.headD 0)

/-- `read_uint32` at an offset, one `sscanf` for each of its four bytes. -/
def readUint32At (build : Build) (ctx : Context) (data : List (BitVec 8)) (offset : Nat) :
    GdbM (BitVec 32) := fun g =>
  { value := .ok (readUint32 build (ctx.word offset) (data.drop offset)), state := g,
    trace := [.read offset, .read (offset + 2), .read (offset + 4), .read (offset + 6)] }

/-! ## Stop reasons -/

def stopReason (targetException : BitVec 32) : List (BitVec 8) :=
  if targetException = undefinedInstruction then text ['S', '0', '4']
  else if targetException = prefetchAbort ∨ targetException = dataAbort then text ['S', '1', '0']
  else text ['S', '0', '5']

def gdbSendStopReason : GdbM Unit := fun g => gdbSendData (stopReason g.targetException) g

/-- `gdb->target_exception = arm_step (gdb->arm)`. -/
def stepTarget (build : Build) (locals : Locals) : GdbM Unit := do
  match ← onArm (armStep build.host locals) with
  | none => halt .exit
  | some result => fun g =>
    { value := .ok (), state := { g with targetException := result }, trace := [] }

/-! ## Handlers -/

def isBreakpoint (instruction : BitVec 32) : Bool := instruction &&& 0xFFF000F0 = 0xE7F000F0

/-- The read of the next instruction in anticipation, which leaves `instruction` as it is
when it fails. -/
def anticipate (instruction : BitVec 32) : GdbM (BitVec 32) := do
  let pc ← onArm (armReadRegister 15)
  match ← onArm (armReadWord (pc - 4)) with
  | .ok instruction => pure instruction
  | .error _ => pure instruction

def contLoop (build : Build) : List Locals → BitVec 32 → GdbM Unit
  | [], instruction => do
    let instruction ← anticipate instruction
    if isBreakpoint instruction then pure () else halt .running
  | locals :: rest, instruction => do
    let instruction ← anticipate instruction
    if isBreakpoint instruction then pure ()
    else do
      stepTarget build locals
      contLoop build rest instruction

def cont (build : Build) (ctx : Context) (_data : List (BitVec 8)) : GdbM Unit := do
  contLoop build ctx.steps ctx.instruction
  gdbSendStopReason

def killRequest (_build : Build) (_ctx : Context) (_data : List (BitVec 8)) : GdbM Unit := fun g =>
  { value := .ok (), state := { g with connected := false }, trace := [.shutdown] }

def query (_build : Build) (_ctx : Context) (data : List (BitVec 8)) : GdbM Unit := do
  let s ← requestAt data 0
  if CString.strcmp s (text ['O', 'f', 'f', 's', 'e', 't', 's']) then
    gdbSendData (text ['T', 'e', 'x', 't', '=', '0', ';', 'D', 'a', 't', 'a', '=', '0', ';',
      'B', 's', 's', '=', '0'])
  else if CString.strncmp s (text ['S', 'u', 'p', 'p', 'o', 'r', 't', 'e', 'd']) 9 then
    gdbSendData (text ['P', 'a', 'c', 'k', 'e', 't', 'S', 'i', 'z', 'e', '=', '4', '0', '0'])
  else if CString.strcmp s (text ['T', 'S', 't', 'a', 't', 'u', 's']) then
    gdbSendData (text ['T', '0', ';', 't', 'n', 'o', 't', 'r', 'u', 'n', ':', '0'])
  else gdbSendData []

/-- The fields of a register dump, each with what reads it. -/
def dumpFields (build : Build) : List (Arm (List (BitVec 8))) :=
  let register (i : Fin 16) : Arm (List (BitVec 8)) := do
    let value ← armReadRegister i
    pure (writeUint32 build value)
  -- The program counter is one instruction in advance.
  let pc : Arm (List (BitVec 8)) := do
    let value ← armReadRegister 15
    pure (writeUint32 build (value - 4))
  let cpsr : Arm (List (BitVec 8)) := do
    let value ← armReadCpsr
    pure (writeUint32 build value)
  [0, 1, 2, 3, 4, 5, 6, 7, 8, 9, 10, 11, 12, 13, 14].map register ++
    pc :: List.replicate 25 (pure (text ['x', 'x', 'x', 'x', 'x', 'x', 'x', 'x'])) ++ [cpsr]

def putFields : Nat → List (Arm (List (BitVec 8))) → GdbM Unit
  | _, [] => pure ()
  | position, field :: rest => do
    let s ← onArm field
    putString position s
    putFields (position + 8) rest

def readGeneralRegisters (build : Build) (_ctx : Context) (_data : List (BitVec 8)) :
    GdbM Unit := do
  putFields 1 (dumpFields build)
  gdbSendBuffer

/-- The loop of `read_memory`.  `memory_read_byte` is compared with -1. -/
def dumpLoop : Nat → Nat → BitVec 32 → BitVec 8 → GdbM Unit
  | 0, _, _, _ => pure ()
  | size + 1, position, address, value => do
    let (code, value) ← readByte address value
    if code = -1 then pure ()
    else do
      putString position (Hex.ofByte value)
      dumpLoop size (position + 2) (address + 1) value

def readMemory (build : Build) (ctx : Context) (data : List (BitVec 8)) : GdbM Unit := do
  let s ← requestAt data 0
  let (address, size) := CString.scanHexPair build.bareBase s ctx.address ctx.size
  setPacket 1 0
  dumpLoop size.toNat 1 address ctx.value
  gdbSendBuffer

/-- `assert (reg < 16)`. -/
def assertRegister (reg : BitVec 32) : GdbM (Fin 16) :=
  if h : reg.toNat < 16 then pure ⟨reg.toNat, h⟩ else halt .assertFailed

def readRegister (build : Build) (_ctx : Context) (data : List (BitVec 8)) : GdbM Unit := do
  let s ← requestAt data 0
  let reg ← assertRegister (CString.atoi s)
  let value ← onArm (armReadRegister reg)
  putString 1 (writeUint32 build (value - if reg = 15 then 4 else 0))
  gdbSendBuffer

def reason (_build : Build) (_ctx : Context) (_data : List (BitVec 8)) : GdbM Unit :=
  gdbSendStopReason

def setThread (_build : Build) (_ctx : Context) (data : List (BitVec 8)) : GdbM Unit := do
  let type ← charAt data (some 0)
  let s ← requestAt data 1
  let value := (CString.atoi s).toInt
  if (type = chr 'c' ∨ type = chr 'g') ∧ value < 1 ∧ value > -2 then gdbSendData (text ['O', 'K'])
  else gdbSendData (text ['E', '0', '1'])

def stepOnce (build : Build) : List Locals → GdbM Unit
  | [] => halt .running
  | locals :: _ => stepTarget build locals

def step (build : Build) (ctx : Context) (_data : List (BitVec 8)) : GdbM Unit := do
  stepOnce build ctx.steps
  gdbSendStopReason

def writeRegisters (build : Build) (ctx : Context) (data : List (BitVec 8)) :
    List (Fin 16) → Nat → GdbM Unit
  | [], _ => pure ()
  | i :: rest, position => do
    let value ← readUint32At build ctx data position
    onArm (armWriteRegister i value)
    writeRegisters build ctx data rest (position + 8)

/-- Words of the dump that are read and dropped. -/
def skipWords (build : Build) (ctx : Context) (data : List (BitVec 8)) : Nat → Nat → GdbM Unit
  | 0, _ => pure ()
  | n + 1, position => do
    let _ ← readUint32At build ctx data position
    skipWords build ctx data n (position + 8)

def writeGeneralRegisters (build : Build) (ctx : Context) (data : List (BitVec 8)) :
    GdbM Unit := do
  writeRegisters build ctx data (List.finRange 16) 0
  skipWords build ctx data 25 128
  let value ← readUint32At build ctx data 328
  onArm (armWriteCpsr value)
  gdbSendData (text ['O', 'K'])

/-- The loop of `write_memory_binary`: whether the last write succeeded. -/
def storeLoop (data : List (BitVec 8)) : Nat → Option Nat → BitVec 32 → GdbM Bool
  | 0, _, _ => pure true
  | size + 1, content, address => do
    let c ← charAt data content
    let escaped : Bool := c = 0x7d
    let content := if escaped then content.map (· + 1) else content
    let value ← (if escaped then do
        let c ← charAt data content
        pure (c ^^^ 0x20)
      else charAt data content)
    let code ← writeByte address value
    if code = 0 then storeLoop data size (content.map (· + 1)) (address + 1) else pure false

def writeMemoryBinary (build : Build) (ctx : Context) (data : List (BitVec 8)) : GdbM Unit := do
  let s ← requestAt data 0
  let (address, size) := CString.scanHexPair build.bareBase s ctx.address ctx.size
  let content := (CString.index s (chr ':')).map (· + 1)
  let memorySize ← memoryGetSize
  let writeOk ← (if address.toNat < memorySize then storeLoop data size.toNat content address
    else pure false)
  if writeOk then gdbSendData (text ['O', 'K']) else gdbSendData (text ['E', '0', '2'])

def writeRegister (build : Build) (ctx : Context) (data : List (BitVec 8)) : GdbM Unit := do
  let s ← requestAt data 0
  let reg := match CString.scanHexAll build.bareBase s with
    | some (reg, _) => reg
    | none => ctx.reg
  let value ← (match (CString.index s (chr '=')).map (· + 1) with
    | none => halt .nullPointer
    | some position => readUint32At build ctx data position)
  let reg ← assertRegister reg
  onArm (armWriteRegister reg value)
  gdbSendData (text ['O', 'K'])

/-! ## Requests -/

/-- The entries that `gdb_init` fills the table with. -/
def handlers : List (BitVec 8 × (Build → Context → List (BitVec 8) → GdbM Unit)) :=
  [(chr 'c', cont),
   (chr 'k', killRequest),
   (chr 'q', query),
   (chr 'g', readGeneralRegisters),
   (chr 'm', readMemory),
   (chr 'p', readRegister),
   (chr '?', reason),
   (chr 'H', setThread),
   (chr 's', step),
   (chr 'G', writeGeneralRegisters),
   (chr 'X', writeMemoryBinary),
   (chr 'P', writeRegister)]

def handler (index : BitVec 8) : Option (Build → Context → List (BitVec 8) → GdbM Unit) :=
  (handlers.find? fun entry => entry.1 = index).map Prod.snd

def noteRequest (s : List (BitVec 8)) : GdbM Unit := fun g =>
  { value := .ok (), state := g, trace := [.request s] }

/-- The handler of a request, given from its first byte on, or the empty answer. -/
def answer (build : Build) (ctx : Context) (s : List (BitVec 8)) : GdbM Unit :=
  match handler (s.headD 0) with
  | some handle => handle build ctx (s.drop 1)
  | none => gdbSendData []

/-- `gdb_packet_analysis (gdb, packet, length)` on the text the scanner matched.  The
scanner has put a NUL behind it. -/
def gdbPacketAnalysis (build : Build) (ctx : Context) (packet : List (BitVec 8)) : GdbM Unit := do
  let i := max 1 (packet.length - 3)
  let check := ((packet.drop 1).take (i - 1)).foldl (· + ·) 0
  let given := match CString.scanHexAll build.bareBase (packet.drop (i + 1) ++ 0 :: ctx.beyond) with
    | some (given, _) => given
    | none => ctx.given
  if check.setWidth 32 = given then do
    gdbSendAck
    let s := (packet.set i 0).drop 1 ++ 0 :: ctx.beyond
    noteRequest s
    answer build ctx s
  else gdbRequireRetransmission

/-- `malloc` leaves the packet as it is. -/
def gdbInitData (arm : Core) (packet : Nat → BitVec 8) : Gdb where
  arm := arm
  targetException := 0
  packet := packet
  len := 0
  connected := true

end Gdb

end ArmSimulator
