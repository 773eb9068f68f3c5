/-
The two threads of `arm_simulator.c`.

`gdb_listener` runs the scanner on the connection of the debugger, and `irq_listener`
reads bytes from connections of its own, each the code of an exception.  They share the
core and its memory behind one mutex.  `irq_listener` holds it around `arm_exception`, and
`gdb_packet_analysis` around the handler of a request alone: the acknowledgement and the
answer to an unknown request are written without it.

The scanner has no part in this: what it calls depends on the bytes of the debugger and
not on the server.  The jobs of the gdb thread are these calls in their order, and those
of the other thread are the bytes it reads.
-/
import ArmSimulator.Base.Mutex
import ArmSimulator.Model.Scanner

namespace ArmSimulator

inductive Thread where
  | gdb | irq
  deriving DecidableEq

/-- The data of `gdb_listener`: `struct gdb_protocol_data` but for the core, and what has
been written to the connection so far. -/
structure Listener where
  targetException : BitVec 32
  packet : Nat → BitVec 8
  len : Nat
  connected : Bool
  output : List (List (BitVec 8))

namespace Thread

abbrev Own : Thread → Type
  | .gdb => Listener
  | .irq => Unit

abbrev Job : Thread → Type
  | .gdb => GdbCall × Context
  | .irq => BitVec 8

end Thread

def GdbEvent.output? : GdbEvent → Option (List (BitVec 8))
  | .write bytes => some bytes
  | _ => none

/-- What a trace writes to the connection. -/
def output (trace : List GdbEvent) : List (List (BitVec 8)) := trace.filterMap GdbEvent.output?

theorem output_append (t u : List GdbEvent) : output (t ++ u) = output t ++ output u :=
  List.filterMap_append

theorem output_core (trace : List Access) : output (trace.map .core) = [] := by
  induction trace with
  | nil => rfl
  | cons e rest ih => exact ih

namespace Listener

/-- The server the thread sees when the core is `arm`. -/
def gdb (l : Listener) (arm : Core) : Gdb where
  arm := arm
  targetException := l.targetException
  packet := l.packet
  len := l.len
  connected := l.connected

/-- The data of a server, with what it wrote after `before`. -/
def ofGdb (before : List (List (BitVec 8))) (g : Gdb) (trace : List GdbEvent) : Listener where
  targetException := g.targetException
  packet := g.packet
  len := g.len
  connected := g.connected
  output := before ++ ArmSimulator.output trace

end Listener

/-! ## The gdb thread -/

namespace Gdb

/-- `gdb_packet_analysis` up to `pthread_mutex_lock`: what is to be done under the lock, if
the request has a handler. -/
def analysisOutside (build : Build) (ctx : Context) (packet : List (BitVec 8)) :
    GdbM (Option (GdbM Unit)) := do
  let i := max 1 (packet.length - 3)
  let check := ((packet.drop 1).take (i - 1)).foldl (· + ·) 0
  let given := match CString.scanHexAll build.bareBase (packet.drop (i + 1) ++ 0 :: ctx.beyond) with
    | some (given, _) => given
    | none => ctx.given
  if check.setWidth 32 = given then do
    gdbSendAck
    let s := (packet.set i 0).drop 1 ++ 0 :: ctx.beyond
    noteRequest s
    match handler (s.headD 0) with
    | some handle => pure (some (handle build ctx (s.drop 1)))
    | none => do
      gdbSendData []
      pure none
  else do
    gdbRequireRetransmission
    pure none

end Gdb

/-- A call of the server up to the lock. -/
def GdbCall.outside (build : Build) (ctx : Context) : GdbCall → GdbM (Option (GdbM Unit))
  | .requireRetransmission => do
    Gdb.gdbRequireRetransmission
    pure none
  | .transmitPacket => do
    Gdb.gdbTransmitPacket
    pure none
  | .packetAnalysis packet => Gdb.analysisOutside build ctx packet

/-- A computation of the server on the core and the data of the thread.  There is no state
after one that does not return. -/
def onListener (m : GdbM Unit) (s : Core × Listener) : Option (Core × Listener) :=
  let o := m (s.2.gdb s.1)
  match o.value with
  | .ok () => some (o.state.arm, .ofGdb s.2.output o.state o.trace)
  | .error _ => none

def gdbOutside (build : Build) (job : GdbCall × Context) (arm : Core) (l : Listener) :
    Option (Listener × Option (Core × Listener → Option (Core × Listener))) :=
  let o := job.1.outside build job.2 (l.gdb arm)
  match o.value with
  | .ok locked => some (.ofGdb l.output o.state o.trace, locked.map onListener)
  | .error _ => none

/-! ## The interrupt thread -/

/-- `arm_exception` on the byte that was read.  Nothing is done without the lock. -/
def irqOutside (code : BitVec 8) (_arm : Core) (_own : Unit) :
    Option (Unit × Option (Core × Unit → Option (Core × Unit))) :=
  some ((), some fun s => some ((armException code s.1).state, s.2))

/-! ## One event after the other -/

inductive SystemEvent where
  | call (job : GdbCall × Context)
  | interrupt (code : BitVec 8)

def SystemEvent.call? : SystemEvent → Option (GdbCall × Context)
  | .call job => some job
  | .interrupt _ => none

def SystemEvent.interrupt? : SystemEvent → Option (BitVec 8)
  | .call _ => none
  | .interrupt code => some code

def SystemEvent.run (build : Build) : SystemEvent → GdbM Unit
  | .call job => job.1.run build job.2
  | .interrupt code => Gdb.onArm (armException code)

def runSystem (build : Build) : List SystemEvent → GdbM Unit
  | [] => pure ()
  | e :: rest => do
    e.run build
    runSystem build rest

end ArmSimulator
