/-
The scanner of `scanner.l`, with flex's longest-match semantics, and the session it
drives.

The rules make tokens of the bytes gdb sends.  The action of a token works on the
scanner's own data, the buffer of characters that belong to no token, and calls the gdb
server.  The two states are separate, so a session first runs the action and then the
calls it made, in their order.
-/
import Mathlib.Data.List.TakeWhile
import ArmSimulator.Base.Lexer
import ArmSimulator.Model.Gdb

namespace ArmSimulator

/-! ## Tokens -/

/-- A text that the packet rule `"$"[^$#]*"#"{HEX}{HEX}` matches. -/
structure Packet where
  payload : List (BitVec 8)
  high : BitVec 8
  low : BitVec 8
  payload_plain : ∀ c ∈ payload, c ≠ chr '$' ∧ c ≠ chr '#'
  high_digit : Hex.isDigit high = true
  low_digit : Hex.isDigit low = true

def Packet.text (k : Packet) : List (BitVec 8) :=
  chr '$' :: (k.payload ++ [chr '#', k.high, k.low])

/-- `[^$#]`. -/
def isPlain (c : BitVec 8) : Bool := c ≠ chr '$' && c ≠ chr '#'

theorem plain_of_isPlain {s : List (BitVec 8)} (h : ∀ c ∈ s, isPlain c = true) :
    ∀ c ∈ s, c ≠ chr '$' ∧ c ≠ chr '#' := by
  intro c hc
  have := h c hc
  simpa [isPlain] using this

/-- The packet rule. -/
def packetOf : List (BitVec 8) → Option Packet
  | [] => none
  | c :: rest =>
    if c = chr '$' then
      match rest.dropWhile isPlain with
      | [hash, high, low] =>
        if h : hash = chr '#' ∧ Hex.isDigit high = true ∧ Hex.isDigit low = true then
          some
            { payload := rest.takeWhile isPlain
              high := high
              low := low
              payload_plain := plain_of_isPlain fun _ => List.mem_takeWhile_imp
              high_digit := h.2.1
              low_digit := h.2.2 }
        else none
      | _ => none
    else none

inductive Token where
  | ack
  | retransmission
  | packet (k : Packet)
  | other (c : BitVec 8)
  /-- What no rule of the scanner matches, a newline, is echoed by flex. -/
  | echo (c : BitVec 8)

def charRule (c : Char) (token : Token) (s : List (BitVec 8)) : Option Token :=
  if s = [chr c] then some token else none

/-- The rule `.`, which does not match a newline. -/
def dotRule : List (BitVec 8) → Option Token
  | [c] => if c = chr '\n' then none else some (.other c)
  | _ => none

def echoRule : List (BitVec 8) → Option Token
  | [c] => some (.echo c)
  | _ => none

/-- The rules in their order, flex's own rule last. -/
def rules : List (List (BitVec 8) → Option Token) :=
  [charRule '+' .ack,
   charRule '-' .retransmission,
   fun s => (packetOf s).map .packet,
   dotRule,
   echoRule]

def scan (input : List (BitVec 8)) : List Token := Lexer.lex rules input

/-! ## Actions -/

def maxErrorSize : Nat := 1024

structure ParserData where
  buffer : Nat → BitVec 8
  len : Nat

/-- A call of the gdb server. -/
inductive GdbCall where
  | requireRetransmission
  | transmitPacket
  | packetAnalysis (packet : List (BitVec 8))
  deriving DecidableEq

inductive ScannerEvent where
  | call (c : GdbCall)
  /-- `data->buffer` is written at this index. -/
  | index (i : Nat)

abbrev Scanner := Traced ScannerEvent ParserData

def call (c : GdbCall) : Scanner Unit := fun d => { value := (), state := d, trace := [.call c] }

def setBuffer (i : Nat) (c : BitVec 8) : Scanner Unit := fun d =>
  { value := (), state := { d with buffer := Function.update d.buffer i c }, trace := [.index i] }

def getLen : Scanner Nat := fun d => { value := d.len, state := d, trace := [] }

def setErrorLen (len : Nat) : Scanner Unit := fun d =>
  { value := (), state := { d with len := len }, trace := [] }

def handleError : Scanner Unit := do
  let len ← getLen
  if len ≠ 0 then do
    setBuffer len 0
    call .requireRetransmission
    setErrorLen 0
  else pure ()

def addCharacterToError (c : BitVec 8) : Scanner Unit := do
  let len ← getLen
  (if len > maxErrorSize - 2 then handleError else pure ())
  let len ← getLen
  setErrorLen (len + 1)
  setBuffer len c

def action : Token → Scanner Unit
  | .ack => handleError
  | .retransmission => do
    handleError
    call .transmitPacket
  | .packet k => do
    handleError
    call (.packetAnalysis k.text)
  | .other c => addCharacterToError c
  | .echo _ => pure ()

def actions : List Token → Scanner Unit
  | [] => pure ()
  | token :: rest => do
    action token
    actions rest

/-- `yylex` on the whole input.  The action at the end of the file is
`handle_error`. -/
def yylex (input : List (BitVec 8)) : Scanner Unit := do
  actions (scan input)
  handleError

/-- The calls among the events of an action, in order. -/
def calls (trace : List ScannerEvent) : List GdbCall :=
  trace.filterMap fun
    | .call c => some c
    | .index _ => none

/-! ## Sessions -/

def GdbCall.run (build : Build) (ctx : Context) : GdbCall → GdbM Unit
  | .requireRetransmission => Gdb.gdbRequireRetransmission
  | .transmitPacket => Gdb.gdbTransmitPacket
  | .packetAnalysis packet => Gdb.gdbPacketAnalysis build ctx packet

def runGdbCalls (build : Build) (ctx : Context) : List GdbCall → GdbM Unit
  | [] => pure ()
  | c :: rest => do
    c.run build ctx
    runGdbCalls build ctx rest

structure Session where
  parser : ParserData
  gdb : Gdb

/-- What the scanner sees next: a token or the end of the file. -/
inductive Input where
  | token (t : Token)
  | endOfFile

def Input.action : Input → Scanner Unit
  | .token t => ArmSimulator.action t
  | .endOfFile => handleError

/-- One event of a session.  It ends the session when a call does not return. -/
def sessionStep (build : Build) (input : Input × Context) :
    Traced GdbEvent Session (Option Unit) := fun s =>
  let parsed := input.1.action s.parser
  let handled := runGdbCalls build input.2 (calls parsed.trace) s.gdb
  { value := handled.value.toOption, state := { parser := parsed.state, gdb := handled.state },
    trace := handled.trace }

def runSession (build : Build) : List (Input × Context) →
    Traced GdbEvent Session (List (Option Unit)) :=
  Traced.runAll (sessionStep build)

end ArmSimulator
