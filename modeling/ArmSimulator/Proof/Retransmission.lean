/-
Retransmission.

All replies are built in one array, and its length is set by `gdb_send_buffer` alone.
Every handler but `kill_request` ends with it, whatever it did to the array before, so
between two events the array holds the last reply that was written.  A request for
retransmission writes it once more.
-/
import ArmSimulator.Proof.Framing

namespace ArmSimulator

/-- The reply packet an event writes: everything else the server writes is a sign. -/
def GdbEvent.reply? : GdbEvent → Option (List (BitVec 8))
  | .write bytes => if bytes.head? = some (chr '$') then some bytes else none
  | _ => none

/-- The last reply packet of a trace. -/
def lastReply (trace : List GdbEvent) : Option (List (BitVec 8)) :=
  (trace.filterMap GdbEvent.reply?).getLast?

theorem lastReply_append (t u : List GdbEvent) :
    lastReply (t ++ u) = (lastReply u).or (lastReply t) := by
  rw [lastReply, List.filterMap_append, List.getLast?_append]
  rfl

namespace Gdb

/-! ## What a computation leaves of the reply -/

/-- When it returns, the array holds the last reply it wrote, or what it held before. -/
def Tracks {α : Type} (m : GdbM α) : Prop :=
  ∀ g a, (m g).value = .ok a → (m g).state.reply = (lastReply (m g).trace).getD g.reply

/-- When it returns, it has written a reply, and the array holds the last one. -/
def Sends {α : Type} (m : GdbM α) : Prop :=
  ∀ g a, (m g).value = .ok a → lastReply (m g).trace = some (m g).state.reply

variable {α β : Type}

theorem Sends.tracks {m : GdbM α} (h : Sends m) : Tracks m := by
  intro g a ha
  rw [h g a ha]
  rfl

/-- What comes before the last part does not matter. -/
theorem Sends.bind {m : GdbM α} {f : α → GdbM β} (hf : ∀ a, Sends (f a)) : Sends (m >>= f) := by
  intro g b hb
  obtain ⟨a, ha, hfa⟩ := Halting.of_bind_ok hb
  rw [Halting.bind_apply_ok ha]
  simp only [lastReply_append, hf a _ b hfa, Option.some_or]

theorem Sends.ite {c : Prop} [Decidable c] {m n : GdbM α} (hm : Sends m) (hn : Sends n) :
    Sends (if c then m else n) := by
  by_cases hc : c
  · rw [if_pos hc]
    exact hm
  · rw [if_neg hc]
    exact hn

theorem Tracks.bind {m : GdbM α} {f : α → GdbM β} (hm : Tracks m) (hf : ∀ a, Tracks (f a)) :
    Tracks (m >>= f) := by
  intro g b hb
  obtain ⟨a, ha, hfa⟩ := Halting.of_bind_ok hb
  rw [Halting.bind_apply_ok ha]
  simp only
  rw [hf a _ b hfa, hm g a ha, lastReply_append]
  cases lastReply (f a (m g).state).trace <;> rfl

theorem Tracks.pure (a : α) : Tracks (Pure.pure a : GdbM α) := fun _ _ _ => rfl

/-! ## Sending -/

theorem checkLoop_ok {n i j : Nat} {check check' : BitVec 8} {g : Gdb}
    (h : (checkLoop n i check g).value = .ok (j, check')) :
    i ≤ j ∧ checkLoop n i check g = { value := .ok (j, check'), state := g, trace := [] } := by
  induction n generalizing i check with
  | zero => cases h
  | succ n ih =>
    rw [checkLoop] at h ⊢
    by_cases hi : i < maxPacketSize
    · have hget : getPacket i g = { value := .ok (g.packet i), state := g, trace := [] } := by
        rw [getPacket, if_pos hi]
      rw [Halting.bind_apply_ok (by rw [hget]), hget] at h ⊢
      by_cases hc : g.packet i = 0
      · simp only [hc, if_true, Halting.pure_apply, Except.ok.injEq, Prod.mk.injEq] at h ⊢
        exact ⟨by omega, by rw [h.1, h.2]; rfl⟩
      · simp only [hc, if_false, List.nil_append] at h ⊢
        obtain ⟨hle, heq⟩ := ih h
        rw [heq]
        exact ⟨by omega, rfl⟩
    · have hget : getPacket i g = { value := .error .overflow, state := g, trace := [] } := by
        rw [getPacket, if_neg hi]
      rw [Halting.bind_apply_error (by rw [hget])] at h
      cases h

theorem setPacket_ok {i : Nat} {c : BitVec 8} {g : Gdb} {a : Unit}
    (h : (setPacket i c g).value = .ok a) : i < maxPacketSize := by
  by_contra hi
  rw [setPacket, if_neg hi] at h
  cases h

theorem rioWriten_ok {bytes : List (BitVec 8)} (hne : bytes ≠ []) {g : Gdb} {a : Unit}
    (h : (rioWriten bytes g).value = .ok a) : g.connected = true := by
  by_contra hg
  rw [rioWriten, if_neg hne, if_neg hg] at h
  cases h

/-- When `gdb_send_buffer` returns, it has framed and written what it found. -/
theorem gdbSendBuffer_ok {g : Gdb} {a : Unit} (h : (gdbSendBuffer g).value = .ok a) :
    ∃ n check, gdbSendBuffer g =
      { value := .ok (), state := framed g (n + 1) check,
        trace := [.write (framed g (n + 1) check).reply] } := by
  have hdollar := setPacket_apply (show 0 < maxPacketSize by decide) (chr '$') g
  have hreturns := h
  rw [gdbSendBuffer] at hreturns
  obtain ⟨-, -, hloop⟩ := Halting.of_bind_ok hreturns
  rw [hdollar] at hloop
  obtain ⟨⟨j, check⟩, hj, hrest⟩ := Halting.of_bind_ok hloop
  obtain ⟨-, -, hdigits⟩ := Halting.of_bind_ok hrest
  obtain ⟨-, -, hend⟩ := Halting.of_bind_ok hdigits
  obtain ⟨_, hset, -⟩ := Halting.of_bind_ok hend
  obtain ⟨hle, heq⟩ := checkLoop_ok hj
  obtain ⟨n, rfl⟩ : ∃ n, j = n + 1 := ⟨j - 1, by omega⟩
  have hsend := gdbSendBuffer_of_checkLoop heq (setPacket_ok hset)
  have hne : (framed g (n + 1) check).reply ≠ [] := by
    rw [reply_framed]
    exact List.cons_ne_nil _ _
  rw [hsend] at h ⊢
  exact ⟨n, check, rioWriten_apply hne (rioWriten_ok hne h)⟩

theorem sends_gdbSendBuffer : Sends gdbSendBuffer := by
  intro g a h
  obtain ⟨n, check, heq⟩ := gdbSendBuffer_ok h
  rw [heq]
  simp [lastReply, GdbEvent.reply?, reply_framed]

theorem sends_gdbSendData (data : List (BitVec 8)) : Sends (gdbSendData data) :=
  Sends.bind fun _ => sends_gdbSendBuffer

theorem sends_gdbSendStopReason : Sends gdbSendStopReason :=
  fun g a h => sends_gdbSendData (stopReason g.targetException) g a h

/-! ## Handlers -/

section

variable (build : Build) (ctx : Context) (data : List (BitVec 8))

theorem sends_cont : Sends (cont build ctx data) :=
  Sends.bind fun _ => sends_gdbSendStopReason

theorem tracks_killRequest : Tracks (killRequest build ctx data) := fun _ _ _ => rfl

theorem sends_query : Sends (query build ctx data) := by
  unfold query
  refine Sends.bind fun _ => Sends.ite (sends_gdbSendData _) ?_
  refine Sends.ite (sends_gdbSendData _) ?_
  exact Sends.ite (sends_gdbSendData _) (sends_gdbSendData _)

theorem sends_readGeneralRegisters : Sends (readGeneralRegisters build ctx data) :=
  Sends.bind fun _ => sends_gdbSendBuffer

theorem sends_readMemory : Sends (readMemory build ctx data) := by
  unfold readMemory
  refine Sends.bind fun _ => ?_
  exact Sends.bind fun _ => Sends.bind fun _ => sends_gdbSendBuffer

theorem sends_readRegister : Sends (readRegister build ctx data) := by
  unfold readRegister
  refine Sends.bind fun _ => Sends.bind fun _ => Sends.bind fun _ => ?_
  exact Sends.bind fun _ => sends_gdbSendBuffer

theorem sends_reason : Sends (reason build ctx data) := sends_gdbSendStopReason

theorem sends_setThread : Sends (setThread build ctx data) := by
  unfold setThread
  refine Sends.bind fun _ => Sends.bind fun _ => ?_
  exact Sends.ite (sends_gdbSendData _) (sends_gdbSendData _)

theorem sends_step : Sends (step build ctx data) :=
  Sends.bind fun _ => sends_gdbSendStopReason

theorem sends_writeGeneralRegisters : Sends (writeGeneralRegisters build ctx data) := by
  unfold writeGeneralRegisters
  refine Sends.bind fun _ => Sends.bind fun _ => Sends.bind fun _ => ?_
  exact Sends.bind fun _ => sends_gdbSendData _

theorem sends_writeMemoryBinary : Sends (writeMemoryBinary build ctx data) := by
  unfold writeMemoryBinary
  refine Sends.bind fun _ => ?_
  refine Sends.bind fun _ => Sends.bind fun _ => ?_
  exact Sends.ite (sends_gdbSendData _) (sends_gdbSendData _)

theorem sends_writeRegister : Sends (writeRegister build ctx data) := by
  unfold writeRegister
  refine Sends.bind fun _ => Sends.bind fun _ => Sends.bind fun _ => ?_
  exact Sends.bind fun _ => sends_gdbSendData _

theorem tracks_answer (s : List (BitVec 8)) : Tracks (answer build ctx s) := by
  unfold answer
  cases h : handler (s.headD 0) with
  | none => exact (sends_gdbSendData []).tracks
  | some handle =>
    obtain ⟨entry, hentry, rfl⟩ := Option.map_eq_some_iff.mp h
    have hmem := List.mem_of_find?_eq_some hentry
    simp only [handlers, List.mem_cons, List.not_mem_nil, or_false] at hmem
    rcases hmem with rfl | rfl | rfl | rfl | rfl | rfl | rfl | rfl | rfl | rfl | rfl | rfl
    · exact (sends_cont build ctx (s.drop 1)).tracks
    · exact tracks_killRequest build ctx (s.drop 1)
    · exact (sends_query build ctx (s.drop 1)).tracks
    · exact (sends_readGeneralRegisters build ctx (s.drop 1)).tracks
    · exact (sends_readMemory build ctx (s.drop 1)).tracks
    · exact (sends_readRegister build ctx (s.drop 1)).tracks
    · exact (sends_reason build ctx (s.drop 1)).tracks
    · exact (sends_setThread build ctx (s.drop 1)).tracks
    · exact (sends_step build ctx (s.drop 1)).tracks
    · exact (sends_writeGeneralRegisters build ctx (s.drop 1)).tracks
    · exact (sends_writeMemoryBinary build ctx (s.drop 1)).tracks
    · exact (sends_writeRegister build ctx (s.drop 1)).tracks

theorem tracks_rioWriten {bytes : List (BitVec 8)} (h : bytes.head? ≠ some (chr '$')) :
    Tracks (rioWriten bytes) := by
  intro g a ha
  rw [rioWriten] at ha ⊢
  split_ifs at ha ⊢ with hne hopen
  · rfl
  · simp [lastReply, GdbEvent.reply?, h]

theorem tracks_gdbTransmitPacket : Tracks gdbTransmitPacket := by
  intro g a ha
  rw [gdbTransmitPacket, rioWriten] at ha ⊢
  split_ifs at ha ⊢ with hne hopen
  · rfl
  · by_cases hdollar : g.reply.head? = some (chr '$')
    · simp [lastReply, GdbEvent.reply?, hdollar]
    · simp [lastReply, GdbEvent.reply?, hdollar]

theorem tracks_gdbPacketAnalysis (packet : List (BitVec 8)) :
    Tracks (gdbPacketAnalysis build ctx packet) := by
  unfold gdbPacketAnalysis
  simp only
  split_ifs
  · refine Tracks.bind (tracks_rioWriten (by decide)) fun _ => ?_
    exact Tracks.bind (fun _ _ _ => rfl) fun _ => tracks_answer build ctx _
  · exact tracks_rioWriten (by decide)

end

end Gdb

theorem tracks_call (build : Build) (ctx : Context) (c : GdbCall) :
    Gdb.Tracks (c.run build ctx) := by
  cases c with
  | requireRetransmission => exact Gdb.tracks_rioWriten (by decide)
  | transmitPacket => exact Gdb.tracks_gdbTransmitPacket
  | packetAnalysis packet => exact Gdb.tracks_gdbPacketAnalysis build ctx packet

theorem tracks_calls (build : Build) (ctx : Context) (cs : List GdbCall) :
    Gdb.Tracks (runGdbCalls build ctx cs) := by
  induction cs with
  | nil => exact Gdb.Tracks.pure ()
  | cons c rest ih => exact Gdb.Tracks.bind (tracks_call build ctx c) fun _ => ih

/-! ## Sessions -/

theorem sessionStep_reply {build : Build} {input : Input × Context} {s : Session} {u : Unit}
    (h : (sessionStep build input s).value = some u) :
    (sessionStep build input s).state.gdb.reply =
      (lastReply (sessionStep build input s).trace).getD s.gdb.reply := by
  have hvalue : (runGdbCalls build input.2 (calls (input.1.action s.parser).trace)
      s.gdb).value = .ok u := by
    simp only [sessionStep] at h
    cases hv : (runGdbCalls build input.2 (calls (input.1.action s.parser).trace) s.gdb).value with
    | error w =>
      rw [hv] at h
      cases h
    | ok v => rfl
  exact tracks_calls build input.2 _ s.gdb u hvalue

/-- Between two events the array holds the last reply of the session. -/
theorem runSession_reply {build : Build} {inputs : List (Input × Context)} {s : Session}
    (h : none ∉ (runSession build inputs s).value) :
    (runSession build inputs s).state.gdb.reply =
      (lastReply (runSession build inputs s).trace).getD s.gdb.reply := by
  induction inputs generalizing s with
  | nil => rfl
  | cons input rest ih =>
    unfold runSession at h ih ⊢
    cases hv : (sessionStep build input s).value with
    | none =>
      rw [(Traced.runAll_cons_none hv rest).1] at h
      exact absurd List.mem_cons_self h
    | some u =>
      obtain ⟨hvalue, hstate⟩ := Traced.runAll_cons_some hv rest
      rw [hvalue, List.mem_cons, not_or] at h
      rw [hstate, Traced.runAll_cons_some_trace hv rest, ih h.2, sessionStep_reply hv,
        lastReply_append]
      cases lastReply (Traced.runAll (sessionStep build) rest
        (sessionStep build input s).state).trace <;> rfl

/-- The calls that pending characters provoke. -/
def flushCalls (len : Nat) : List GdbCall := if len = 0 then [] else [.requireRetransmission]

theorem calls_handleError (d : ParserData) : calls (handleError d).trace = flushCalls d.len := by
  rw [handleError_apply, flushCalls]
  split <;> rfl

theorem calls_retransmission (d : ParserData) :
    calls ((Input.token .retransmission).action d).trace = flushCalls d.len ++ [.transmitPacket] := by
  simp only [Input.action, action, Traced.bind_trace, calls_append, calls_handleError]
  rfl

/-- The stored reply goes out while the connection is open, and an empty one always does:
nothing is written for it. -/
theorem Gdb.gdbTransmitPacket_written {g : Gdb} (h : g.connected = true ∨ g.reply = []) :
    gdbTransmitPacket g =
      { value := .ok (), state := g,
        trace := (if g.reply = [] then [] else [g.reply]).map .write } := by
  rw [gdbTransmitPacket]
  by_cases hne : g.reply = []
  · rw [rioWriten, if_pos hne, if_pos hne]
    rfl
  · rw [rioWriten_apply hne (h.resolve_right hne), if_neg hne]
    rfl

theorem runGdbCalls_transmitPacket (build : Build) (ctx : Context) :
    runGdbCalls build ctx [.transmitPacket] = Gdb.gdbTransmitPacket :=
  Halting.bind_pure_unit Gdb.gdbTransmitPacket

/-- What a request for retransmission does: it writes what it has to while the connection
is open, and a write on a closed one ends the process. -/
theorem sessionStep_retransmission (build : Build) (ctx : Context) (s : Session) :
    let o := sessionStep build (.token .retransmission, ctx) s
    let due := (if s.parser.len = 0 then [] else [text ['-']]) ++
      (if s.gdb.reply = [] then [] else [s.gdb.reply])
    o.state.gdb = s.gdb ∧
      (s.gdb.connected = true ∨ due = [] → o.value = some () ∧ o.trace = due.map .write) ∧
      (s.gdb.connected = false → due ≠ [] → o.value = none ∧ o.trace = []) := by
  intro o due
  have ho : o = sessionStep build (.token .retransmission, ctx) s := rfl
  rw [ho, sessionStep, calls_retransmission, flushCalls]
  by_cases hlen : s.parser.len = 0
  · have hdue : due = if s.gdb.reply = [] then [] else [s.gdb.reply] := by
      simp only [due, if_pos hlen, List.nil_append]
    have hempty : due = [] ↔ s.gdb.reply = [] := by
      rw [hdue]
      by_cases hreply : s.gdb.reply = [] <;> simp [hreply]
    rw [if_pos hlen, List.nil_append, runGdbCalls_transmitPacket, ne_eq, hempty, hdue]
    by_cases hwritten : s.gdb.connected = true ∨ s.gdb.reply = []
    · rw [Gdb.gdbTransmitPacket_written hwritten]
      exact ⟨rfl, fun _ => ⟨rfl, rfl⟩, fun hclosed hne =>
        absurd (hwritten.resolve_left (by rw [hclosed]; decide)) hne⟩
    · obtain ⟨hclosed, hne⟩ := not_or.mp hwritten
      rw [Gdb.gdbTransmitPacket, Gdb.rioWriten_closed hne (Bool.eq_false_of_not_eq_true hclosed)]
      exact ⟨rfl, fun h => absurd h hwritten, fun _ _ => ⟨rfl, rfl⟩⟩
  · have hdue : due = text ['-'] :: if s.gdb.reply = [] then [] else [s.gdb.reply] := by
      simp only [due, if_neg hlen, List.cons_append, List.nil_append]
    rw [if_neg hlen, List.cons_append, List.nil_append, runGdbCalls, GdbCall.run,
      Gdb.gdbRequireRetransmission, hdue]
    cases hopen : s.gdb.connected with
    | true =>
      have hminus := Gdb.rioWriten_apply (show text ['-'] ≠ [] by decide) hopen
      rw [Halting.bind_apply_ok (by rw [hminus]), hminus, runGdbCalls_transmitPacket,
        Gdb.gdbTransmitPacket_written (Or.inl hopen)]
      exact ⟨rfl, fun _ => ⟨rfl, rfl⟩, fun hclosed => by cases hclosed⟩
    | false =>
      have hminus := Gdb.rioWriten_closed (show text ['-'] ≠ [] by decide) hopen
      rw [Halting.bind_apply_error (by rw [hminus]), hminus]
      exact ⟨rfl, fun h => by simp at h, fun _ _ => ⟨rfl, rfl⟩⟩

/-- A session that starts on a fresh connection. -/
def newSession (arm : Core) (packet buffer : Nat → BitVec 8) : Session where
  parser := { buffer := buffer, len := 0 }
  gdb := Gdb.gdbInitData arm packet

/-- A reply packet begins with its dollar. -/
theorem lastReply_ne_nil {trace : List GdbEvent} {r : List (BitVec 8)}
    (h : lastReply trace = some r) : r ≠ [] := by
  obtain ⟨e, -, he⟩ := List.mem_filterMap.mp (List.mem_of_getLast? h)
  rintro rfl
  cases e with
  | write bytes =>
    simp only [GdbEvent.reply?] at he
    split_ifs at he with hdollar
    cases he
    cases hdollar
  | _ => cases he

/-- A request for retransmission changes nothing.  It has to write the last reply of the
session, after the sign that pending garbage provokes, and does so while the connection
is open.  On a connection that is shut down it returns if there is nothing to write, and
the process ends in the first write otherwise. -/
theorem retransmission_exact (build : Build) (arm : Core) (packet buffer : Nat → BitVec 8)
    (before : List (Input × Context)) (ctx : Context)
    (hreturns : none ∉ (runSession build before (newSession arm packet buffer)).value) :
    let run := runSession build before (newSession arm packet buffer)
    let o := sessionStep build (.token .retransmission, ctx) run.state
    let due := (if run.state.parser.len = 0 then [] else [text ['-']]) ++
      (lastReply run.trace).toList
    o.state.gdb = run.state.gdb ∧
      (run.state.gdb.connected = true ∨ due = [] →
        o.value = some () ∧ o.trace = due.map .write) ∧
      (run.state.gdb.connected = false → due ≠ [] → o.value = none ∧ o.trace = []) := by
  intro run o due
  have hreply : run.state.gdb.reply = (lastReply run.trace).getD [] := runSession_reply hreturns
  have hlast : (if run.state.gdb.reply = [] then [] else [run.state.gdb.reply]) =
      (lastReply run.trace).toList := by
    rw [hreply]
    cases hr : lastReply run.trace with
    | none => rfl
    | some r => simp [lastReply_ne_nil hr]
  have hstep := sessionStep_retransmission build ctx run.state
  rw [hlast] at hstep
  exact hstep

/-- The packet of a request of one letter. -/
def letterPacket (c : Char) (h : ∀ b ∈ text [c], b ≠ 0 ∧ b ≠ chr '$' ∧ b ≠ chr '#') : Input :=
  .token (.packet (Gdb.packetOfString (text [c]) h))

def quietBuild : Build := { host := .modular false, bigEndianSimulator := true, bareBase := false }

def quietContext : Context where
  given := 0
  address := 0
  size := 0
  value := 0
  reg := 0
  instruction := 0
  word _ := 0
  steps := []
  beyond := []

def quietSession : Session :=
  newSession { cycleCount := 0, reg := fun _ => 0, mem := memoryOfWords true 0 [] } (fun _ => 0)
    fun _ => 0

theorem retransmission_exact_after_garbage :
    let before := [(letterPacket '?' (by decide), quietContext),
      (Input.token (.other 0x21), quietContext)]
    let run := runSession quietBuild before quietSession
    let o := sessionStep quietBuild (.token .retransmission, quietContext) run.state
    let due := (if run.state.parser.len = 0 then [] else [text ['-']]) ++
      (lastReply run.trace).toList
    none ∉ run.value ∧ run.state.gdb.connected = true ∧ o.state.gdb = run.state.gdb ∧
      o.value = some () ∧ o.trace = due.map .write := by
  intro before run o due
  have hreturns : none ∉ run.value := by
    decide +kernel
  have hopen : run.state.gdb.connected = true := by
    decide +kernel
  obtain ⟨hstate, hwritten, -⟩ :=
    retransmission_exact quietBuild _ _ _ before quietContext hreturns
  exact ⟨hreturns, hopen, hstate, hwritten (Or.inl hopen)⟩

/-- After a kill request the write side is shut down: the reply that was sent before it
is not written again, and the process ends. -/
theorem killed_retransmission_writes_nothing :
    let before := [(letterPacket '?' (by decide), quietContext),
      (letterPacket 'k' (by decide), quietContext)]
    let run := runSession quietBuild before quietSession
    none ∉ run.value ∧ run.state.parser.len = 0 ∧
      lastReply run.trace = some (Gdb.frame (text ['S', '0', '5'])) ∧
      (sessionStep quietBuild (.token .retransmission, quietContext) run.state).value = none ∧
      (sessionStep quietBuild (.token .retransmission, quietContext) run.state).trace = [] := by
  decide +kernel

end ArmSimulator
