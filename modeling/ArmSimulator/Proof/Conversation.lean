/-
A debugging session as the bytes of its connection.

The debugger sends one request after the other and acknowledges each reply.  The scanner
makes the requests and the signs of these bytes, and what the server writes is, for each
request, an acknowledgement and the frame around the answer of the machine.
-/
import ArmSimulator.Proof.Debugger

namespace ArmSimulator

namespace Debugger

open Assembly (State view)
open Gdb (ChecksumOk frame)

/-- A request, as a packet, with the state of the machine in front of it. -/
structure Exchange where
  packet : Packet
  context : Context
  request : Request
  before : State

/-- Each request starts where the one before has left the machine. -/
inductive Script (build : Build) (mode : BitVec 8) : List Exchange → State → State → Prop where
  | nil (s : State) : Script build mode [] s s
  | cons {e : Exchange} {script : List Exchange} {t u : State} (checksum : ChecksumOk e.packet)
      (demands : Demands build e.packet.payload e.request)
      (turn : Turn mode e.context.steps.length e.request e.before t)
      (rest : Script build mode script t u) : Script build mode (e :: script) e.before u

/-- The bytes of the debugger. -/
def sent (script : List Exchange) : List (BitVec 8) :=
  script.flatMap fun e => e.packet.text ++ text ['+']

/-- The bytes of the server. -/
def received (replies : List (List (BitVec 8))) : List (BitVec 8) :=
  replies.flatMap fun reply => text ['+'] ++ frame reply

/-- The requests, with a number of acknowledgements behind each. -/
def inputs (acks : Nat) (script : List Exchange) : List (Input × Context) :=
  script.flatMap fun e =>
    (.token (.packet e.packet), e.context) :: List.replicate acks (.token .ack, e.context)

/-! ## The scanner -/

theorem scan_sent (script : List Exchange) :
    scan (sent script) = script.flatMap fun e => [.packet e.packet, .ack] := by
  induction script with
  | nil => rfl
  | cons e script ih =>
    have hne : e.packet.text ≠ [] := List.cons_ne_nil _ _
    rw [sent, List.flatMap_cons, List.append_assoc,
      scan_append_of_long hne (firstMatch_text e.packet)
        (fun more hmore => packetOf_append e.packet hmore),
      scan_append_of_long (by decide) (show _ = some Token.ack from rfl) fun _ _ => rfl, ← sent, ih]
    rfl

theorem zip_scan_sent (script : List Exchange) :
    ((scan (sent script)).map Input.token).zip (script.flatMap fun e => [e.context, e.context]) =
      inputs 1 script := by
  rw [scan_sent]
  induction script with
  | nil => rfl
  | cons e script ih =>
    rw [inputs, List.flatMap_cons, List.flatMap_cons, List.flatMap_cons, ← inputs, ← ih]
    rfl

/-! ## The server -/

theorem replies_eq_filter (trace : List GdbEvent) :
    trace.filterMap GdbEvent.reply? =
      (output trace).filter fun bytes => bytes.head? = some (chr '$') := by
  induction trace with
  | nil => rfl
  | cons e trace ih =>
    cases e with
    | write bytes =>
      by_cases hframe : bytes.head? = some (chr '$') <;>
        simp [output, GdbEvent.output?, GdbEvent.reply?, hframe, ih]
    | shutdown | core | memory | request | read => exact ih

/-- An acknowledgement and a packet, of which the packet is known. -/
theorem output_of_signs {trace : List GdbEvent} {reply : List (BitVec 8)}
    (hsigns : (output trace).map sign = [.ack, .packet]) (hreply : lastReply trace = some reply) :
    output trace = [text ['+'], reply] := by
  obtain ⟨first, rest, houtput, hfirst, hrest⟩ := List.map_eq_cons_iff.mp hsigns
  obtain ⟨second, rfl, -⟩ := List.map_eq_singleton_iff.mp hrest
  have hack : first = text ['+'] := by
    unfold sign at hfirst
    split_ifs at hfirst with h
    exact h
  rw [lastReply, replies_eq_filter, houtput, hack] at hreply
  rw [houtput, hack]
  rw [List.filter_cons_of_neg (by decide)] at hreply
  by_cases hframe : second.head? = some (chr '$')
  · rw [List.filter_cons_of_pos (by simpa using hframe)] at hreply
    have hsecond : some second = some reply := hreply
    rw [Option.some.inj hsecond]
  · rw [List.filter_cons_of_neg (by simpa using hframe)] at hreply
    cases hreply

/-- No request of the machine closes the connection. -/
theorem Demands.head_ne_kill {build : Build} {payload : List (BitVec 8)} {q : Request}
    (h : Demands build payload q) : payload.headD 0 ≠ chr 'k' := by
  have hhead : ∃ c rest, payload = c :: rest ∧ c ≠ chr 'k' := by
    cases h with
    | data asks => cases asks <;> exact ⟨_, _, rfl, by decide⟩
    | step | run => exact ⟨_, _, rfl, by decide⟩
  obtain ⟨c, rest, rfl, hc⟩ := hhead
  exact hc

section

variable (build : Build) {mode : BitVec 8} {s t : State} {server : Session} {d : Dialogue}
  (h : Serves mode s server.gdb) (hfollows : Follows server d) (hpending : d.pending = 0)
include h hfollows hpending

theorem sessionStep_request {e : Exchange} (hsum : ChecksumOk e.packet)
    (hdemands : Demands build e.packet.payload e.request)
    (hturn : Turn mode e.context.steps.length e.request s t) :
    let o := sessionStep build (.token (.packet e.packet), e.context) server
    o.value = some () ∧ Serves mode t o.state.gdb ∧
      Follows o.state { pending := 0, stored := true } ∧
      ∃ reply, Answers build mode s e.request reply ∧
        output o.trace = [text ['+'], frame reply] := by
  intro o
  obtain ⟨hvalue, hserves, reply, hanswers, hreply⟩ :=
    sessionStep_turn build e.context h hsum hdemands hturn
  obtain ⟨hsigns, hfollows'⟩ :=
    (says_sessionStep build (.token (.packet e.packet), e.context) hfollows).2.2 () hvalue
  have hkill := hdemands.head_ne_kill
  have hhear : d.hear (.token (.packet e.packet)) =
      ([.ack, .packet], { pending := 0, stored := true }) := by
    rw [Dialogue.hear, if_pos hsum, if_neg hkill, Dialogue.flush, if_pos hpending, List.nil_append]
  rw [hhear] at hsigns hfollows'
  exact ⟨hvalue, hserves, hfollows', reply, hanswers, output_of_signs hsigns hreply⟩

theorem sessionStep_ack (ctx : Context) :
    let o := sessionStep build (.token .ack, ctx) server
    o.value = some () ∧ Serves mode s o.state.gdb ∧ Follows o.state d ∧ output o.trace = [] := by
  intro o
  have hnothing : Means build (.token .ack) none := .other nofun
  obtain ⟨hvalue, hserves⟩ := sessionStep_idle build ctx h hnothing
  obtain ⟨hsigns, hfollows'⟩ :=
    (says_sessionStep build (.token .ack, ctx) hfollows).2.2 () hvalue
  have hhear : d.hear (.token .ack) = ([], d) := by
    rw [Dialogue.hear, Dialogue.flush, if_pos hpending, ← hpending]
  rw [hhear] at hsigns hfollows'
  exact ⟨hvalue, hserves, hfollows', List.map_eq_nil_iff.mp hsigns⟩

end

/-- Acknowledgements, with no characters pending. -/
theorem runSession_acks (build : Build) {mode : BitVec 8} {s : State} {server : Session}
    {d : Dialogue} (h : Serves mode s server.gdb) (hfollows : Follows server d)
    (hpending : d.pending = 0) (ctx : Context) (acks : Nat) (rest : List (Input × Context)) :
    ∃ next : Session, Serves mode s next.gdb ∧ Follows next d ∧
      let o := runSession build (List.replicate acks (.token .ack, ctx) ++ rest) server
      o.value = List.replicate acks (some ()) ++ (runSession build rest next).value ∧
        o.state = (runSession build rest next).state ∧
        output o.trace = output (runSession build rest next).trace := by
  induction acks generalizing server with
  | zero => exact ⟨server, h, hfollows, rfl, rfl, rfl⟩
  | succ acks ih =>
    obtain ⟨hvalue, hserves, hfollows', houtput⟩ :=
      sessionStep_ack build h hfollows hpending ctx
    obtain ⟨next, hnext, hfollows'', hvalues, hstate, houtputs⟩ := ih hserves hfollows'
    obtain ⟨hvalues', hstate', htrace⟩ :=
      runSession_cons hvalue (List.replicate acks (.token .ack, ctx) ++ rest)
    refine ⟨next, hnext, hfollows'', ?_, hstate'.trans hstate, ?_⟩
    · exact hvalues'.trans (congrArg (some () :: ·) hvalues)
    · refine (congrArg output htrace).trans ?_
      rw [output_append, houtput, List.nil_append]
      exact houtputs

/-- Induction on the script, with no characters pending and any number of acknowledgements
behind each request. -/
theorem runSession_script {build : Build} {mode : BitVec 8} {script : List Exchange} {s t : State}
    (hscript : Script build mode script s t) {server : Session} (h : Serves mode s server.gdb)
    {d : Dialogue} (hfollows : Follows server d) (hpending : d.pending = 0) (acks : Nat) :
    (runSession build (inputs acks script) server).value =
        List.replicate ((acks + 1) * script.length) (some ()) ∧
      Serves mode t (runSession build (inputs acks script) server).state.gdb ∧
      (∃ d', Follows (runSession build (inputs acks script) server).state d' ∧ d'.pending = 0) ∧
      ∃ replies, List.Forall₂ (fun e reply => Answers build mode e.before e.request reply) script
          replies ∧
        output (runSession build (inputs acks script) server).trace =
          replies.flatMap fun reply => [text ['+'], frame reply] := by
  induction hscript generalizing server d with
  | nil s => exact ⟨rfl, h, ⟨d, hfollows, hpending⟩, [], .nil, rfl⟩
  | @cons e script t u checksum demands turn rest ih =>
    obtain ⟨hvalue, hserves, hfollows', reply, hanswers, houtput⟩ :=
      sessionStep_request build h hfollows hpending checksum demands turn
    obtain ⟨next, hnext, hfollows'', hvalues, hstates, houtputs⟩ :=
      runSession_acks build hserves hfollows' rfl e.context acks (inputs acks script)
    obtain ⟨hvalues', hend, hpend, replies, hreplies, houtputs'⟩ := ih hnext hfollows'' rfl
    obtain ⟨hfirst, hstate, htrace⟩ :=
      runSession_cons hvalue (List.replicate acks (.token .ack, e.context) ++ inputs acks script)
    have hinputs : inputs acks (e :: script) = (.token (.packet e.packet), e.context) ::
        (List.replicate acks (.token .ack, e.context) ++ inputs acks script) := rfl
    rw [hinputs]
    refine ⟨hfirst.trans ?_, ?_, ?_, reply :: replies, .cons hanswers hreplies, ?_⟩
    · have hcount : (acks + 1) * (script.length + 1) =
          acks + 1 + (acks + 1) * script.length := by
        rw [Nat.mul_succ, Nat.add_comm]
      rw [hvalues, hvalues', List.length_cons, hcount, List.replicate_add, List.replicate_succ]
      rfl
    · rw [hstate, hstates]
      exact hend
    · rw [hstate, hstates]
      exact hpend
    · rw [htrace, output_append, houtput, houtputs, houtputs']
      rfl

theorem flatten_replies (replies : List (List (BitVec 8))) :
    (replies.flatMap fun reply => [text ['+'], frame reply]).flatten = received replies := by
  induction replies with
  | nil => rfl
  | cons reply replies ih =>
    rw [List.flatMap_cons, List.flatten_append, ih, received, received, List.flatMap_cons]
    simp only [List.flatten_cons, List.flatten_nil, List.append_nil]

/-- The bytes of the requests, scanned as they come, run the machine, and the bytes of the
server are those of its answers. -/
theorem stream_debugs {build : Build} {mode : BitVec 8} {script : List Exchange} {arm : Core}
    {t : State} (hscript : Script build mode script (view arm) t) (hsize : arm.mem.size < 2 ^ 32)
    (hmode : getMode arm.reg = mode) (hvalid : Mode.Valid mode) (packet buffer : Nat → BitVec 8) :
    let contexts := script.flatMap fun e => [e.context, e.context]
    let o := runSession build (((scan (sent script)).map Input.token).zip contexts)
      (newSession arm packet buffer)
    none ∉ o.value ∧ view o.state.gdb.arm = t ∧
      ∃ replies, List.Forall₂ (fun e reply => Answers build mode e.before e.request reply) script
          replies ∧ (output o.trace).flatten = received replies := by
  intro contexts o
  have hserves : Serves mode (view arm) (newSession arm packet buffer).gdb :=
    ⟨⟨rfl, hsize, hmode ▸ hvalid⟩, hmode, rfl, rfl⟩
  obtain ⟨hvalue, hend, -, replies, hanswers, houtput⟩ :=
    runSession_script hscript hserves (follows_newSession arm packet buffer) rfl 1
  have ho : o = runSession build (inputs 1 script) (newSession arm packet buffer) := by
    rw [← zip_scan_sent]
  rw [ho]
  refine ⟨fun hnone => ?_, hend.shows, replies, hanswers, ?_⟩
  · rw [hvalue] at hnone
    cases List.eq_of_mem_replicate hnone
  · rw [houtput, flatten_replies]

/-- `$c#63+$p1#a1+` in front of `MOV r1, #5` and a breakpoint. -/
theorem stream_debugs_halting :
    let ctx : Context := { quietContext with steps := [⟨0, 0⟩] }
    let bytes := text ['$', 'c', '#', '6', '3', '+', '$', 'p', '1', '#', 'a', '1', '+']
    let o := runSession quietBuild (((scan bytes).map Input.token).zip [ctx, ctx, ctx, ctx])
      haltingSession
    (output o.trace).flatten = text ['+', '$', 'S', '0', '5', '#', 'b', '8'] ++
      text ['+', '$', '0', '0', '0', '0', '0', '0', '0', '5', '#', '8', '5'] := by
  intro ctx bytes o
  obtain ⟨t, hrun, h1, hbreak⟩ := haltingSession_runs
  let go : Exchange :=
    { packet := Gdb.packetOfString (text ['c']) (by decide)
      context := ctx
      request := .run
      before := view haltingSession.gdb.arm }
  let get : Exchange :=
    { packet := Gdb.packetOfString (text ['p', '1']) (by decide)
      context := ctx
      request := .data (.getRegister 1)
      before := t }
  have hscript : Script quietBuild 0x10 [go, get] (view haltingSession.gdb.arm) t :=
    .cons (e := go) (Gdb.checksumOk_packetOfString _ (by decide)) (.run [])
      (.run hrun hbreak (by decide))
      (.cons (e := get) (Gdb.checksumOk_packetOfString _ (by decide)) (.data (.getRegister 1))
        (turn_getRegister_one 1 t) (.nil t))
  have hgo : go.packet.text = text ['$', 'c', '#', '6', '3'] := by decide +kernel
  have hget : get.packet.text = text ['$', 'p', '1', '#', 'a', '1'] := by
    show (Gdb.packetOfString (text ['p', '1']) (by decide)).text = _
    decide +kernel
  have hbytes : sent [go, get] = bytes := by
    simp only [sent, List.flatMap_cons, List.flatMap_nil, hgo, hget]
    rfl
  obtain ⟨-, -, replies, hanswers, hreceived⟩ := stream_debugs hscript (by decide)
    (by decide) (by decide) (fun _ => 0) fun _ => 0
  rw [hbytes] at hreceived
  obtain ⟨first, rest, hstopped, hrest, rfl⟩ := List.forall₂_cons_left_iff.mp hanswers
  obtain ⟨second, _, ⟨cpsr, -, rfl⟩, hnone, rfl⟩ := List.forall₂_cons_left_iff.mp hrest
  obtain rfl := List.forall₂_nil_left_iff.mp hnone
  have hfirst : first = text ['S', '0', '5'] := hstopped
  have hvalue :
      (target t cpsr).answer quietBuild (.getRegister 1) = Gdb.writeUint32 quietBuild 5 := by
    rw [← h1]
    rfl
  rw [hfirst, hvalue] at hreceived
  have hsent : received [text ['S', '0', '5'], Gdb.writeUint32 quietBuild 5] =
      text ['+', '$', 'S', '0', '5', '#', 'b', '8'] ++
        text ['+', '$', '0', '0', '0', '0', '0', '0', '0', '5', '#', '8', '5'] := by
    decide +kernel
  have hcontexts : ([go, get].flatMap fun e => [e.context, e.context]) = [ctx, ctx, ctx, ctx] := rfl
  have hserver : newSession haltingSession.gdb.arm (fun _ => 0) (fun _ => 0) = haltingSession := rfl
  rw [hsent, hcontexts, hserver] at hreceived
  exact hreceived

end Debugger

end ArmSimulator
