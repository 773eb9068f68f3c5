/-
The dialogue with the debugger.

Seen from the other end, the server is a small machine: it counts the characters that
belong to no token, it remembers whether it has sent a packet, and every token makes it
say a plus sign, a minus sign or a packet.  Whatever the requests do to the core, a
session says what this machine says, up to the point where it stops.  Everything it says
is read back, by a scanner of the same rules, as one token.
-/
import ArmSimulator.Proof.Answers

namespace ArmSimulator

open Gdb (frame ChecksumOk Payload Answered)

/-! ## The machine -/

inductive Sign where
  | ack | nak | packet
  deriving DecidableEq

structure Dialogue where
  pending : Nat
  stored : Bool

/-- Pending characters are answered when a token comes. -/
def Dialogue.flush (d : Dialogue) : List Sign := if d.pending = 0 then [] else [.nak]

/-- What an input makes the machine say, and the machine after it. -/
def Dialogue.hear (d : Dialogue) : Input → List Sign × Dialogue
  | .token .ack => (d.flush, { d with pending := 0 })
  | .token .retransmission =>
    (d.flush ++ if d.stored then [.packet] else [], { d with pending := 0 })
  | .token (.packet k) =>
    if ChecksumOk k then
      -- The connection is shut down without an answer.
      if k.payload.headD 0 = chr 'k' then (d.flush ++ [.ack], { d with pending := 0 })
      else (d.flush ++ [.ack, .packet], { pending := 0, stored := true })
    else (d.flush ++ [.nak], { d with pending := 0 })
  | .token (.other _) =>
    if d.pending > maxErrorSize - 2 then ([.nak], { d with pending := 1 })
    else ([], { d with pending := d.pending + 1 })
  | .token (.echo _) => ([], d)
  | .endOfFile => (d.flush, { d with pending := 0 })

def Dialogue.run : Dialogue → List Input → List Sign
  | _, [] => []
  | d, input :: rest => (d.hear input).1 ++ (d.hear input).2.run rest

/-! ## Well-formed output -/

/-- A sign, or a packet with its sum. -/
def Conforms (bytes : List (BitVec 8)) : Prop :=
  bytes = text ['+'] ∨ bytes = text ['-'] ∨ ∃ s, Payload s ∧ bytes = frame s

def sign (bytes : List (BitVec 8)) : Sign :=
  if bytes = text ['+'] then .ack else if bytes = text ['-'] then .nak else .packet

theorem sign_frame (s : List (BitVec 8)) : sign (frame s) = .packet := by
  have hplus : frame s ≠ text ['+'] := fun h => absurd (List.cons.inj h).1 (by decide)
  have hminus : frame s ≠ text ['-'] := fun h => absurd (List.cons.inj h).1 (by decide)
  rw [sign, if_neg hplus, if_neg hminus]

/-! ## Calls of the server -/

namespace Gdb

/-- Whether the array holds a packet to be sent again. -/
def Holds (g : Gdb) (stored : Bool) : Prop :=
  if stored then ∃ s, Payload s ∧ g.reply = frame s else g.reply = []

/-- The computation says `signs`, or a part of them when it stops before its end. -/
structure Says (o : Outcome GdbEvent Gdb (Except Stop Unit)) (signs : List Sign) (stored : Bool) :
    Prop where
  conforms : ∀ w ∈ output o.trace, Conforms w
  upTo : (output o.trace).map sign <+: signs
  returns : o.value = .ok () → (output o.trace).map sign = signs ∧ Holds o.state stored

theorem says_pure {g : Gdb} {stored : Bool} (h : Holds g stored) :
    Says ((pure () : GdbM Unit) g) [] stored :=
  ⟨fun _ hw => absurd hw List.not_mem_nil, List.prefix_refl _, fun _ => ⟨rfl, h⟩⟩

theorem says_bind {m n : GdbM Unit} {g : Gdb} {signs signs' : List Sign} {stored stored' : Bool}
    (hm : Says (m g) signs stored)
    (hn : ∀ g', Holds g' stored → g' = (m g).state → Says (n g') signs' stored') :
    Says ((m >>= fun _ => n) g) (signs ++ signs') stored' := by
  cases hvalue : (m g).value with
  | error w =>
    rw [Halting.bind_apply_error hvalue]
    exact ⟨hm.conforms, hm.upTo.trans (List.prefix_append _ _), fun hok => by cases hok⟩
  | ok u =>
    obtain ⟨hsigns, hholds⟩ := hm.returns hvalue
    have hrest := hn _ hholds rfl
    rw [Halting.bind_apply_ok hvalue]
    refine ⟨fun w hw => ?_, ?_, fun hok => ?_⟩
    · rw [output_append] at hw
      rcases List.mem_append.mp hw with hw | hw
      · exact hm.conforms w hw
      · exact hrest.conforms w hw
    · rw [output_append, List.map_append, hsigns]
      exact List.prefix_append_right_inj _ |>.mpr hrest.upTo
    · obtain ⟨hsigns', hholds'⟩ := hrest.returns hok
      exact ⟨by rw [output_append, List.map_append, hsigns, hsigns'], hholds'⟩

/-- `Rio_writen` of a sign. -/
theorem says_rioWriten {bytes : List (BitVec 8)} (hne : bytes ≠ []) (hbytes : Conforms bytes)
    {g : Gdb} {stored : Bool} (h : Holds g stored) :
    Says (rioWriten bytes g) [sign bytes] stored := by
  cases hopen : g.connected with
  | true =>
    rw [rioWriten_apply hne hopen]
    refine ⟨fun w hw => ?_, List.prefix_refl _, fun _ => ⟨rfl, h⟩⟩
    rw [List.mem_singleton.mp hw]
    exact hbytes
  | false =>
    rw [rioWriten_closed hne hopen]
    exact ⟨fun _ hw => absurd hw List.not_mem_nil, List.nil_prefix, fun hok => by cases hok⟩

theorem says_gdbTransmitPacket {g : Gdb} {stored : Bool} (h : Holds g stored) :
    Says (gdbTransmitPacket g) (if stored then [.packet] else []) stored := by
  cases stored with
  | false =>
    have hempty : g.reply = [] := h
    rw [gdbTransmitPacket, hempty]
    exact says_pure h
  | true =>
    obtain ⟨s, hs, hreply⟩ := id h
    have hframe : Conforms (frame s) := Or.inr (Or.inr ⟨s, hs, rfl⟩)
    have hne : frame s ≠ [] := List.cons_ne_nil _ _
    have hspoken := says_rioWriten hne hframe h
    rw [sign_frame] at hspoken
    rw [gdbTransmitPacket, hreply]
    exact hspoken

/-- A handler that answers says one packet. -/
theorem says_answered {o : Outcome GdbEvent Gdb (Except Stop Unit)} (h : Answered o) :
    Says o [.packet] true := by
  cases hvalue : o.value with
  | error w =>
    have hsilent := h.silent w hvalue
    refine ⟨fun w hw => ?_, ?_, fun hok => ?_⟩
    · rw [hsilent] at hw
      exact absurd hw List.not_mem_nil
    · rw [hsilent]
      exact List.nil_prefix
    · rw [hvalue] at hok
      cases hok
  | ok u =>
    obtain ⟨s, hs, houtput, hreply⟩ := h.sent hvalue
    have hsigns : (output o.trace).map sign = [.packet] := by
      rw [houtput, List.map_singleton, sign_frame]
    refine ⟨fun w hw => ?_, by rw [hsigns], fun _ => ⟨hsigns, s, hs, hreply⟩⟩
    rw [houtput] at hw
    exact Or.inr (Or.inr ⟨s, hs, List.mem_singleton.mp hw⟩)

section

variable (build : Build) (ctx : Context) {g : Gdb} {stored : Bool} (h : Holds g stored)
include h

theorem says_gdbRequireRetransmission : Says (gdbRequireRetransmission g) [.nak] stored :=
  says_rioWriten (by decide) (Or.inr (Or.inl rfl)) h

/-- What a packet is answered with. -/
theorem says_gdbPacketAnalysis (k : Packet) :
    Says (gdbPacketAnalysis build ctx k.text g)
      (if ChecksumOk k then
        if k.payload.headD 0 = chr 'k' then [.ack] else [.ack, .packet]
      else [.nak])
      (if ChecksumOk k ∧ k.payload.headD 0 ≠ chr 'k' then true else stored) := by
  have hack := says_rioWriten (show text ['+'] ≠ [] by decide) (Or.inl rfl) h
  have hhead : (requestText ctx k).headD 0 = k.payload.headD 0 := by
    rw [requestText]
    cases k.payload <;> rfl
  rw [gdbPacketAnalysis_text]
  by_cases hsum : ChecksumOk k
  · by_cases hkill : k.payload.headD 0 = chr 'k'
    · have hanswer : answer build ctx (requestText ctx k) =
          killRequest build ctx ((requestText ctx k).drop 1) := by
        rw [answer, hhead, hkill]
        rfl
      rw [if_pos hsum, if_pos hsum, if_pos hkill, if_neg fun hboth => hboth.2 hkill, hanswer]
      exact says_bind hack fun g' hg' _ => ⟨fun _ hw => absurd hw List.not_mem_nil,
        List.prefix_refl _, fun _ => ⟨rfl, hg'⟩⟩
    · rw [if_pos hsum, if_pos hsum, if_neg hkill, if_pos ⟨hsum, hkill⟩]
      refine says_bind hack fun g' hg' _ => ?_
      have hnote : Says (noteRequest (requestText ctx k) g') [] stored :=
        ⟨fun _ hw => absurd hw List.not_mem_nil, List.prefix_refl _, fun _ => ⟨rfl, hg'⟩⟩
      refine says_bind hnote fun g'' _ _ => says_answered ?_
      exact answered_answer build ctx g'' (by rw [hhead]; exact hkill)
  · rw [if_neg hsum, if_neg hsum, if_neg fun hboth => hsum hboth.1]
    exact says_gdbRequireRetransmission h

end

end Gdb

open Gdb (Says Holds)

/-! ## Inputs -/

/-- The calls of a character that belongs to no token, and the length of the buffer
behind it. -/
theorem addCharacterToError_apply (c : BitVec 8) (d : ParserData) :
    calls (addCharacterToError c d).trace =
        (if d.len > maxErrorSize - 2 then [.requireRetransmission] else []) ∧
      (addCharacterToError c d).state.len =
        if d.len > maxErrorSize - 2 then 1 else d.len + 1 := by
  by_cases hfull : d.len > maxErrorSize - 2
  · have hne : d.len ≠ 0 := by omega
    have hcalls := calls_handleError d
    rw [flushCalls, if_neg hne] at hcalls
    simp only [addCharacterToError, Traced.bind_trace, Traced.bind_state, getLen, hfull, if_true,
      calls_append, hcalls]
    refine ⟨rfl, ?_⟩
    show (handleError d).state.len + 1 = 1
    rw [handleError_len]
  · simp only [addCharacterToError, Traced.bind_trace, Traced.bind_state, getLen, hfull, if_false]
    exact ⟨rfl, rfl⟩

/-- The session is where the machine is. -/
structure Follows (s : Session) (d : Dialogue) : Prop where
  pending : d.pending = s.parser.len
  stored : Holds s.gdb d.stored

theorem says_flush (build : Build) (ctx : Context) {s : Session} {d : Dialogue}
    (h : Follows s d) (rest : List GdbCall) {signs : List Sign} {stored : Bool}
    (hrest : ∀ g, Holds g d.stored → Says (runGdbCalls build ctx rest g) signs stored) :
    Says (runGdbCalls build ctx (flushCalls s.parser.len ++ rest) s.gdb) (d.flush ++ signs)
      stored := by
  rw [flushCalls, Dialogue.flush, h.pending]
  by_cases hlen : s.parser.len = 0
  · rw [if_pos hlen, if_pos hlen]
    exact hrest s.gdb h.stored
  · rw [if_neg hlen, if_neg hlen]
    exact Gdb.says_bind (Gdb.says_gdbRequireRetransmission h.stored) fun g hg _ => hrest g hg

theorem says_call (build : Build) (ctx : Context) {c : GdbCall} {g : Gdb} {signs : List Sign}
    {stored : Bool} (h : Says (c.run build ctx g) signs stored) :
    Says (runGdbCalls build ctx [c] g) signs stored := by
  have hone := Gdb.says_bind h fun g' hg' _ => Gdb.says_pure hg'
  rw [List.append_nil] at hone
  exact hone

/-- One input: what its calls say, and the buffer behind it. -/
theorem says_input (build : Build) (ctx : Context) (input : Input) {s : Session} {d : Dialogue}
    (h : Follows s d) :
    (d.hear input).2.pending = (input.action s.parser).state.len ∧
      Says (runGdbCalls build ctx (calls (input.action s.parser).trace) s.gdb) (d.hear input).1
        (d.hear input).2.stored := by
  have hflush : Says (runGdbCalls build ctx (flushCalls s.parser.len) s.gdb) d.flush d.stored := by
    have hnone := says_flush build ctx h [] fun g hg => Gdb.says_pure hg
    rw [List.append_nil, List.append_nil] at hnone
    exact hnone
  cases input with
  | endOfFile =>
    refine ⟨(handleError_len s.parser).symm, ?_⟩
    rw [Input.action, calls_handleError]
    exact hflush
  | token t =>
    cases t with
    | ack =>
      refine ⟨(handleError_len s.parser).symm, ?_⟩
      rw [Input.action, action, calls_handleError]
      exact hflush
    | retransmission =>
      refine ⟨(handleError_len s.parser).symm, ?_⟩
      rw [calls_retransmission]
      refine says_flush build ctx h [.transmitPacket] fun g hg => says_call build ctx ?_
      exact Gdb.says_gdbTransmitPacket hg
    | packet k =>
      have hpacket : Says
          (runGdbCalls build ctx (flushCalls s.parser.len ++ [.packetAnalysis k.text]) s.gdb)
          (d.flush ++ if ChecksumOk k then
            if k.payload.headD 0 = chr 'k' then [.ack] else [.ack, .packet]
          else [.nak])
          (if ChecksumOk k ∧ k.payload.headD 0 ≠ chr 'k' then true else d.stored) :=
        says_flush build ctx h _ fun g hg => says_call build ctx
          (Gdb.says_gdbPacketAnalysis build ctx hg k)
      simp only [Input.action, action, Traced.bind_trace, Traced.bind_state, calls_append,
        calls_handleError, Dialogue.hear]
      by_cases hsum : ChecksumOk k
      · by_cases hkill : k.payload.headD 0 = chr 'k'
        · simp only [hsum, hkill, if_true, ne_eq, not_true_eq_false, and_false, if_false]
            at hpacket ⊢
          exact ⟨(handleError_len s.parser).symm, hpacket⟩
        · simp only [hsum, hkill, if_true, ne_eq, not_false_eq_true, and_self, if_false]
            at hpacket ⊢
          exact ⟨(handleError_len s.parser).symm, hpacket⟩
      · simp only [hsum, if_false, false_and] at hpacket ⊢
        exact ⟨(handleError_len s.parser).symm, hpacket⟩
    | other c =>
      obtain ⟨hcalls, hlen⟩ := addCharacterToError_apply c s.parser
      simp only [Input.action, action, hcalls, hlen, Dialogue.hear, h.pending]
      split_ifs
      · exact ⟨rfl, says_call build ctx (Gdb.says_gdbRequireRetransmission h.stored)⟩
      · exact ⟨rfl, Gdb.says_pure h.stored⟩
    | echo c => exact ⟨h.pending, Gdb.says_pure h.stored⟩

/-! ## Sessions -/

theorem says_sessionStep (build : Build) (input : Input × Context) {s : Session} {d : Dialogue}
    (h : Follows s d) :
    let o := sessionStep build input s
    (∀ w ∈ output o.trace, Conforms w) ∧ (output o.trace).map sign <+: (d.hear input.1).1 ∧
      (∀ u, o.value = some u → (output o.trace).map sign = (d.hear input.1).1 ∧
        Follows o.state (d.hear input.1).2) := by
  obtain ⟨hpending, hspoken⟩ := says_input build input.2 input.1 h
  refine ⟨hspoken.conforms, hspoken.upTo, fun u hu => ?_⟩
  have hvalue : (runGdbCalls build input.2 (calls (input.1.action s.parser).trace) s.gdb).value =
      .ok () := by
    simp only [sessionStep] at hu
    cases hv : (runGdbCalls build input.2 (calls (input.1.action s.parser).trace) s.gdb).value with
    | error w =>
      rw [hv] at hu
      cases hu
    | ok u => rfl
  obtain ⟨hsigns, hholds⟩ := hspoken.returns hvalue
  exact ⟨hsigns, hpending, hholds⟩

/-- The trace and the values of a session against what the machine says. -/
structure SaysAll (trace : List GdbEvent) (value : List (Option Unit)) (signs : List Sign) :
    Prop where
  conforms : ∀ w ∈ output trace, Conforms w
  upTo : (output trace).map sign <+: signs
  returns : none ∉ value → (output trace).map sign = signs

/-- Induction on the inputs, with the machine at the same place. -/
theorem says_session (build : Build) (inputs : List (Input × Context)) {s : Session}
    {d : Dialogue} (h : Follows s d) :
    SaysAll (runSession build inputs s).trace (runSession build inputs s).value
      (d.run (inputs.map Prod.fst)) := by
  induction inputs generalizing s d with
  | nil => exact ⟨fun _ hw => absurd hw List.not_mem_nil, List.prefix_refl _, fun _ => rfl⟩
  | cons input rest ih =>
    obtain ⟨hconforms, hupTo, hreturns⟩ := says_sessionStep build input h
    unfold runSession at ih ⊢
    rw [List.map_cons, Dialogue.run]
    cases hv : (sessionStep build input s).value with
    | none =>
      rw [Traced.runAll_cons_none_trace hv, (Traced.runAll_cons_none hv rest).1]
      exact ⟨hconforms, hupTo.trans (List.prefix_append _ _),
        fun hnone => absurd List.mem_cons_self hnone⟩
    | some u =>
      obtain ⟨hsigns, hfollows⟩ := hreturns u hv
      have hrest := ih hfollows
      rw [Traced.runAll_cons_some_trace hv, (Traced.runAll_cons_some hv rest).1]
      refine ⟨fun w hw => ?_, ?_, fun hnone => ?_⟩
      · rw [output_append] at hw
        rcases List.mem_append.mp hw with hw | hw
        · exact hconforms w hw
        · exact hrest.conforms w hw
      · rw [output_append, List.map_append, hsigns]
        exact (List.prefix_append_right_inj _).mpr hrest.upTo
      · rw [output_append, List.map_append, hsigns,
          hrest.returns fun hmem => hnone (List.mem_cons_of_mem _ hmem)]

theorem follows_newSession (arm : Core) (packet buffer : Nat → BitVec 8) :
    Follows (newSession arm packet buffer) { pending := 0, stored := false } :=
  ⟨rfl, rfl⟩

/-- A session says what the machine says on the same inputs, a part of it when it stops, and
all of it when every input is handled to its end. -/
theorem session_refines_dialogue (build : Build) (arm : Core) (packet buffer : Nat → BitVec 8)
    (inputs : List (Input × Context)) :
    let o := runSession build inputs (newSession arm packet buffer)
    let said := Dialogue.run { pending := 0, stored := false } (inputs.map Prod.fst)
    (output o.trace).map sign <+: said ∧
      (none ∉ o.value → (output o.trace).map sign = said) :=
  let h := says_session build inputs (follows_newSession arm packet buffer)
  ⟨h.upTo, h.returns⟩

/-- A run of characters that belong to no token is refused when 1023 of them are pending and
another comes, and once more where it ends: ⌈n / 1023⌉ times. -/
theorem Dialogue.run_others (cs : List (BitVec 8)) {d : Dialogue} (h : d.pending ≤ 1023) :
    d.run (cs.map (fun c => .token (.other c)) ++ [.token .ack]) =
      List.replicate ((d.pending + cs.length + 1022) / 1023) .nak := by
  induction cs generalizing d with
  | nil =>
    simp only [List.map_nil, List.nil_append, run, hear, flush, List.append_nil, List.length_nil]
    by_cases hpending : d.pending = 0
    · rw [if_pos hpending, hpending]
      rfl
    · have hone : (d.pending + 0 + 1022) / 1023 = 1 := by omega
      rw [if_neg hpending, hone]
      rfl
  | cons c cs ih =>
    rw [List.map_cons, List.cons_append, run, hear, List.length_cons]
    by_cases hfull : d.pending > maxErrorSize - 2
    · have hpending : d.pending = 1023 := by
        unfold maxErrorSize at hfull
        omega
      have hcount : (d.pending + (cs.length + 1) + 1022) / 1023 =
          (1 + cs.length + 1022) / 1023 + 1 := by omega
      have hrest := ih (d := { d with pending := 1 }) (show 1 ≤ 1023 by decide)
      rw [if_pos hfull, hrest, hcount, List.replicate_succ]
      rfl
    · have hlt : d.pending + 1 ≤ 1023 := by
        unfold maxErrorSize at hfull
        omega
      have hrest := ih (d := { d with pending := d.pending + 1 }) hlt
      rw [if_neg hfull, hrest, List.nil_append, Nat.add_assoc d.pending 1 cs.length,
        Nat.add_comm 1 cs.length]
/-! ## Reading the output back -/

/-- The token that a scanner makes of one write of the server. -/
inductive ReadAs : List (BitVec 8) → Token → Prop where
  | ack : ReadAs (text ['+']) .ack
  | retransmission : ReadAs (text ['-']) .retransmission
  | packet (k : Packet) (checksum : ChecksumOk k) (nonzero : ∀ c ∈ k.payload, c ≠ 0) :
      ReadAs k.text (.packet k)

/-- Only the packet rule matches more than one character. -/
theorem firstMatch_long {s : List (BitVec 8)} (h : ∀ c, s ≠ [c]) :
    Lexer.firstMatch rules s = (packetOf s).map .packet := by
  have hdot : dotRule s = none := by
    unfold dotRule
    split
    · exact absurd rfl (h _)
    · rfl
  have hecho : echoRule s = none := by
    unfold echoRule
    split
    · exact absurd rfl (h _)
    · rfl
  simp only [Lexer.firstMatch, rules, List.findSome?_cons, charRule, h, if_false, hdot, hecho,
    List.findSome?_nil]
  cases packetOf s <;> rfl

/-- Nothing can be added to a packet. -/
theorem packetOf_append (k : Packet) {more : List (BitVec 8)} (hmore : more ≠ []) :
    packetOf (k.text ++ more) = none := by
  have hstop : ¬isPlain (chr '#') = true := by
    rw [isPlain_dollar_hash.2]
    decide
  have hdrop : (k.payload ++ [chr '#', k.high, k.low] ++ more).dropWhile isPlain =
      chr '#' :: k.high :: k.low :: more := by
    rw [List.append_assoc, List.dropWhile_append_of_pos k.isPlain_payload]
    exact List.dropWhile_cons_of_neg hstop
  obtain ⟨c, rest, rfl⟩ := List.exists_cons_of_ne_nil hmore
  simp only [Packet.text, List.cons_append, packetOf, if_true, hdrop]

theorem scan_append_of_long {s : List (BitVec 8)} {token : Token} (hne : s ≠ [])
    (h : Lexer.firstMatch rules s = some token)
    (hmax : ∀ more, more ≠ [] → packetOf (s ++ more) = none) (rest : List (BitVec 8)) :
    scan (s ++ rest) = token :: scan rest := by
  refine Lexer.lex_append_of_maximal hne h (fun more hmore => ?_) rest
  have hlong : ∀ c, s ++ more ≠ [c] := by
    intro c hc
    have hlength := congrArg List.length hc
    have hs := List.length_pos_iff.mpr hne
    have hm := List.length_pos_iff.mpr hmore
    rw [List.length_append, List.length_singleton] at hlength
    omega
  rw [firstMatch_long hlong, hmax more hmore, Option.map_none]

/-- The scanner makes one token of each write. -/
theorem scan_output {ws : List (List (BitVec 8))} (h : ∀ w ∈ ws, Conforms w) :
    List.Forall₂ ReadAs ws (scan ws.flatten) := by
  induction ws with
  | nil => exact .nil
  | cons w rest ih =>
    have hrest := ih fun w' hw' => h w' (List.mem_cons_of_mem _ hw')
    rw [List.flatten_cons]
    rcases h w List.mem_cons_self with rfl | rfl | ⟨s, hs, rfl⟩
    · rw [scan_append_of_long (by decide) (show _ = some Token.ack from rfl) fun _ _ => rfl]
      exact .cons .ack hrest
    · rw [scan_append_of_long (by decide) (show _ = some Token.retransmission from rfl)
        fun _ _ => rfl]
      exact .cons .retransmission hrest
    · let k := Gdb.packetOfString s hs
      have hk := Gdb.checksumOk_packetOfString s hs
      have hne : k.text ≠ [] := List.cons_ne_nil _ _
      have hscan := scan_append_of_long hne (firstMatch_text k)
        (fun more hmore => packetOf_append k hmore) rest.flatten
      rw [show frame s = k.text from rfl, hscan]
      exact .cons (.packet k hk fun c hc => (hs c hc).1) hrest

/-- Whatever the debugger sends, a scanner of the same rules reads all that a session
writes as one token for each write: signs, and packets with the right sum. -/
theorem session_output_reads_back (build : Build) (arm : Core) (packet buffer : Nat → BitVec 8)
    (inputs : List (Input × Context)) :
    let o := runSession build inputs (newSession arm packet buffer)
    List.Forall₂ ReadAs (output o.trace) (scan (output o.trace).flatten) :=
  scan_output (says_session build inputs (follows_newSession arm packet buffer)).conforms

end ArmSimulator
