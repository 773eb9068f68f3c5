/-
Debugging a program.

A debugger loads a program, sets its registers, runs it up to a breakpoint or by single
steps, and reads what it has done.  As long as the program keeps to the instructions of
`Assembly.step` the server and the simulator behind it are one machine, whose states are
those that a program sees: each request of the debugger is one turn of it.
-/
import ArmSimulator.Proof.Simulation
import ArmSimulator.Proof.Target

namespace ArmSimulator

namespace Debugger

open Assembly (State view fetch passes decode)
open Gdb (Target DataCommand Asks AsksNothing Ready Replies SameTarget ChecksumOk seen frame)
open Machine (after)

/-! ## The machine -/

inductive Request where
  | data (c : DataCommand)
  | step
  | run

def state (t : Target) : State where
  reg := t.reg
  n := getBit t.cpsr Flag.n
  z := getBit t.cpsr Flag.z
  mem := t.mem

/-- The store that a state is, with a status word. -/
def target (s : State) (cpsr : BitVec 32) : Target := { mem := s.mem, reg := s.reg, cpsr := cpsr }

/-- The status word is one of the mode, with the flags of the state.  The machine says
nothing of the others. -/
structure StatusOf (mode : BitVec 8) (s : State) (cpsr : BitVec 32) : Prop where
  mode : modeField cpsr = mode
  n : getBit cpsr Flag.n = s.n
  z : getBit cpsr Flag.z = s.z

def obey (s : State) : DataCommand → State
  | .download a bytes => { s with mem := s.mem.store a bytes }
  | .setRegister i v => s.write i v
  | .setAll f cpsr => { s with reg := f, n := getBit cpsr Flag.n, z := getBit cpsr Flag.z }
  | .dump _ _ | .getRegister _ | .getAll => s

def Breakpoint (s : State) : Prop := ∃ ins, fetch s = some ins ∧ Gdb.isBreakpoint ins = true

/-- One request, with a bound on the number of steps that are followed. -/
inductive Turn (mode : BitVec 8) (bound : Nat) : Request → State → State → Prop where
  | data {c : DataCommand} {s : State} {cpsr : BitVec 32} (hmode : modeField cpsr = mode)
      (permits : (target s cpsr).Permits c) : Turn mode bound (.data c) s (obey s c)
  | step {s t : State} (hstep : Assembly.step s = some t) (hbound : 0 < bound) :
      Turn mode bound .step s t
  | run {k : Nat} {s t : State} (hrun : after Assembly.step k s = some t) (hbreak : Breakpoint t)
      (hbound : k ≤ bound) : Turn mode bound .run s t

/-- The payload of the reply.  No step of the machine raises an exception. -/
def Answers (build : Build) (mode : BitVec 8) (s : State) : Request → List (BitVec 8) → Prop
  | .data c, reply => ∃ cpsr, StatusOf mode s cpsr ∧ reply = (target s cpsr).answer build c
  | .step, reply => reply = text ['S', '0', '5']
  | .run, reply => reply = text ['S', '0', '5']

theorem state_obey (t : Target) (c : DataCommand) : state (t.obey c) = obey (state t) c := by
  cases c with
  | setRegister i v =>
    have hreg : (t.obey (.setRegister i v)).reg = Function.update t.reg i v := by
      funext r
      by_cases hr : r = i
      · subst hr
        simp [Target.obey, Target.given]
      · rw [Function.update_of_ne hr]
        simp [Target.obey, Target.given, Ne.symm hr]
    exact congrArg (fun reg => ({ reg, n := _, z := _, mem := _ } : State)) hreg
  | download | dump | getRegister | setAll | getAll => rfl

/-! ## Breakpoints -/

theorem getBit_of_isBreakpoint {ins : BitVec 32} (h : Gdb.isBreakpoint ins = true) {i : Nat}
    (hi : getBit 0xFFF000F0 i = true) : getBit ins i = getBit 0xE7F000F0 i := by
  have hmask : ins &&& 0xFFF000F0 = 0xE7F000F0 := of_decide_eq_true h
  have hbit := congrArg (fun x => getBit x i) hmask
  simp only [getBit, BitVec.getLsbD_and] at hbit hi ⊢
  rwa [hi, Bool.and_true] at hbit

theorem getBits_of_isBreakpoint {ins : BitVec 32} (hbreak : Gdb.isBreakpoint ins = true) {h l : Nat}
    (hmask : ∀ i, i < h - l + 1 → getBit 0xFFF000F0 (l + i) = true) (hlh : l ≤ h) :
    getBits ins h l = getBits 0xE7F000F0 h l := by
  apply BitVec.eq_of_getLsbD_eq
  intro i hi
  rw [getLsbD_getBits ins (by omega), getLsbD_getBits _ (by omega),
    getBit_of_isBreakpoint hbreak (hmask i hi)]

/-- A breakpoint is no instruction of the machine. -/
theorem step_breakpoint {s : State} (h : Breakpoint s) : Assembly.step s = none := by
  obtain ⟨ins, hfetch, hbreak⟩ := h
  have hcondition : insCondition ins = .al := by
    rw [insCondition, getBits_of_isBreakpoint hbreak (by decide) (by decide)]
    rfl
  have htype : insType ins = .loadStoreRegister := by
    rw [insType, getBits_of_isBreakpoint hbreak (by decide) (by decide)]
    rfl
  have hbyte : getBit ins 22 = true := getBit_of_isBreakpoint hbreak (by decide)
  have hdecode : decode ins = none := by
    simp only [decode, htype, Assembly.decodeTransfer, hbyte, true_or, if_true]
  simp only [Assembly.step, hfetch, hcondition, passes, hdecode, Option.bind_eq_bind,
    Option.bind_some, if_true, Option.bind_none]

/-! ## The server -/

/-- The server shows the state. -/
structure Serves (mode : BitVec 8) (s : State) (g : Gdb) : Prop where
  ready : Ready g
  mode : getMode g.arm.reg = mode
  stopped : Gdb.stopReason g.targetException = text ['S', '0', '5']
  shows : view g.arm = s

theorem Serves.same {mode : BitVec 8} {s : State} {g g' : Gdb} (h : Serves mode s g)
    (hsame : SameTarget g g') : Serves mode s g' := by
  obtain ⟨harm, hexception, hconnected⟩ := hsame
  obtain ⟨⟨hopen, hsize, hvalid⟩, hmode, hstopped, hshows⟩ := h
  rw [harm] at hsize hvalid hmode hshows
  exact ⟨⟨hconnected.symm.trans hopen, hsize, hvalid⟩, hmode, hexception ▸ hstopped, hshows⟩

section

variable (build : Build) {mode : BitVec 8} {s t : State} {g : Gdb}

/-- One step of the machine. -/
theorem stepTarget_serves (locals : Locals) (h : Serves mode s g)
    (hstep : Assembly.step s = some t) :
    (Gdb.stepTarget build locals g).value = .ok () ∧
      Serves mode t (Gdb.stepTarget build locals g).state := by
  obtain ⟨hready, hmode, -, rfl⟩ := h
  obtain ⟨hvalue, hsimulates⟩ := Assembly.step_simulates build.host locals hstep
  have hsame := hsimulates.confined.getMode_eq
  rw [Gdb.stepTarget_some hvalue]
  refine ⟨rfl, ⟨hready.connected, ?_, ?_⟩, hsame.trans hmode, rfl, hsimulates.shows⟩
  · rw [armStep_size]
    exact hready.size
  · rw [hsame]
    exact hready.mode

/-- The loop of `cont` takes the steps of the machine up to the breakpoint. -/
theorem contLoop_serves {k : Nat} (h : Serves mode s g) (hrun : after Assembly.step k s = some t)
    (hbreak : Breakpoint t) {steps : List Locals} (hbound : k ≤ steps.length)
    (instruction : BitVec 32) :
    (Gdb.contLoop build steps instruction g).value = .ok () ∧
      Serves mode t (Gdb.contLoop build steps instruction g).state := by
  induction k generalizing s g steps instruction with
  | zero =>
    obtain rfl : s = t := Option.some.inj hrun
    obtain ⟨ins, hfetch, hins⟩ := hbreak
    rw [← h.shows] at hfetch
    have hnext : BreakpointNext g.arm := ⟨ins, (Assembly.fetched_of_fetch hfetch).2, hins⟩
    refine ⟨Gdb.contLoop_breakpoint_returns hnext steps, ?_⟩
    rwa [Gdb.contLoop_breakpoint hnext]
  | succ k ih =>
    rw [after, Option.bind_eq_some_iff] at hrun
    obtain ⟨u, hstep, hrest⟩ := hrun
    obtain ⟨locals, rest, rfl⟩ :=
      List.exists_cons_of_length_pos (Nat.lt_of_lt_of_le k.succ_pos hbound)
    obtain ⟨ins, hfetch⟩ : ∃ ins, fetch s = some ins := by
      rw [Assembly.step, Option.bind_eq_bind, Option.bind_eq_some_iff] at hstep
      exact ⟨_, hstep.choose_spec.1⟩
    have hplain : ¬Gdb.isBreakpoint ins = true := fun hins => by
      rw [step_breakpoint ⟨ins, hfetch, hins⟩] at hstep
      cases hstep
    rw [← h.shows] at hfetch
    have hturn := Gdb.anticipate_bind (Assembly.fetched_of_fetch hfetch).2 instruction
      fun instruction => if Gdb.isBreakpoint instruction then pure ()
        else Gdb.stepTarget build locals >>= fun _ => Gdb.contLoop build rest instruction
    obtain ⟨hreturns, hserves⟩ := stepTarget_serves build locals h hstep
    simp only [if_neg hplain, Halting.bind_apply_ok hreturns] at hturn
    rw [Gdb.contLoop, hturn.1, hturn.2]
    exact ih hserves hrest (Nat.le_of_succ_le_succ hbound) ins

variable (ctx : Context) (data : List (BitVec 8))

theorem replies_stopReason {m : GdbM Unit} {g₁ : Gdb} (hsends : Gdb.Sends m)
    (h : Serves mode t g₁) (hsent : (m g).value = (Gdb.gdbSendStopReason g₁).value ∧
      (m g).state = (Gdb.gdbSendStopReason g₁).state) :
    Replies (m g) (text ['S', '0', '5']) g₁ := by
  obtain ⟨hlength, hs⟩ := Gdb.stopReason_plain g₁.targetException
  rw [← h.stopped]
  exact Gdb.replies_of_data hsends h.ready.connected hlength hs hsent

theorem replies_step (h : Serves mode s g) (hstep : Assembly.step s = some t)
    (hbound : 0 < ctx.steps.length) :
    ∃ g₁, Replies (Gdb.step build ctx data g) (text ['S', '0', '5']) g₁ ∧ Serves mode t g₁ := by
  obtain ⟨locals, rest, hsteps⟩ := List.exists_cons_of_length_pos hbound
  obtain ⟨hreturns, hserves⟩ := stepTarget_serves build locals h hstep
  refine ⟨_, replies_stopReason (Gdb.sends_step build ctx data) hserves ?_, hserves⟩
  rw [Gdb.step, hsteps, Gdb.stepOnce, Halting.bind_apply_ok hreturns]
  exact ⟨rfl, rfl⟩

theorem replies_cont {k : Nat} (h : Serves mode s g) (hrun : after Assembly.step k s = some t)
    (hbreak : Breakpoint t) (hbound : k ≤ ctx.steps.length) :
    ∃ g₁, Replies (Gdb.cont build ctx data g) (text ['S', '0', '5']) g₁ ∧ Serves mode t g₁ := by
  obtain ⟨hreturns, hserves⟩ := contLoop_serves build h hrun hbreak hbound ctx.instruction
  refine ⟨_, replies_stopReason (Gdb.sends_cont build ctx data) hserves ?_, hserves⟩
  rw [Gdb.cont, Halting.bind_apply_ok hreturns]
  exact ⟨rfl, rfl⟩

end

/-! ## Requests -/

inductive Demands (build : Build) : List (BitVec 8) → Request → Prop where
  | data {payload : List (BitVec 8)} {c : DataCommand} (asks : Asks build payload c) :
      Demands build payload (.data c)
  | step (rest : List (BitVec 8)) : Demands build (chr 's' :: rest) .step
  | run (rest : List (BitVec 8)) : Demands build (chr 'c' :: rest) .run

/-- A request is answered as the machine answers it, and then shows the state after the
turn. -/
theorem gdbPacketAnalysis_turn (build : Build) (ctx : Context) {mode : BitVec 8} {s t : State}
    {g : Gdb} (h : Serves mode s g) {k : Packet} (hsum : ChecksumOk k) {q : Request}
    (hdemands : Demands build k.payload q) (hturn : Turn mode ctx.steps.length q s t) :
    ∃ reply g', Answers build mode s q reply ∧
      Replies (Gdb.gdbPacketAnalysis build ctx k.text g) reply g' ∧ Serves mode t g' := by
  have hopen := h.ready.connected
  generalize hpayload : k.payload = payload at hdemands
  cases hdemands with
  | @data _ c asks =>
    obtain ⟨hready, hmode, hstopped, rfl⟩ := h
    cases hturn with
    | @data _ _ cpsr hsame permits =>
      have hcpsr : modeField (readCpsr g.arm.reg) = mode := hmode
      have hpermits : (seen g.arm).Permits c :=
        (Target.permits_congr (t := target (view g.arm) cpsr) (u := seen g.arm) rfl
          (hcpsr.trans hsame.symm)).mpr permits
      rw [← hpayload] at asks
      obtain ⟨arm, hreplies, hseen⟩ :=
        Gdb.gdbPacketAnalysis_obeys build ctx hready hsum asks hpermits
      have hkept : getMode arm.reg = getMode g.arm.reg := by
        have hobeyed := Target.mode_obey hpermits
        rw [← hseen] at hobeyed
        exact hobeyed
      refine ⟨_, { g with arm := arm }, ⟨readCpsr g.arm.reg, ⟨hcpsr, rfl, rfl⟩, rfl⟩, hreplies,
        ⟨hopen, ?_, ?_⟩, hkept.trans hmode, hstopped, ?_⟩
      · have hsize := congrArg (fun t => t.mem.size) hseen
        exact lt_of_eq_of_lt (hsize.trans (Target.size_obey _ c)) hready.size
      · exact (congrArg Mode.Valid hkept).mpr hready.mode
      · exact (congrArg state hseen).trans (state_obey _ c)
  | step rest =>
    cases hturn with
    | step hstep hbound =>
      obtain ⟨g', hreplies, hserves⟩ := replies_step build ctx
        (rest ++ 0 :: k.high :: k.low :: 0 :: ctx.beyond) h hstep hbound
      exact ⟨_, g', rfl, Gdb.replies_accepted build ctx hopen hsum hpayload rfl hreplies, hserves⟩
  | run rest =>
    cases hturn with
    | run hrun hbreak hbound =>
      obtain ⟨g', hreplies, hserves⟩ := replies_cont build ctx
        (rest ++ 0 :: k.high :: k.low :: 0 :: ctx.beyond) h hrun hbreak hbound
      exact ⟨_, g', rfl, Gdb.replies_accepted build ctx hopen hsum hpayload rfl hreplies, hserves⟩

/-! ## Sessions -/

/-- A session of requests that the machine can take, and of inputs that ask nothing of it. -/
inductive Debugs (build : Build) (mode : BitVec 8) :
    List (Input × Context) → State → State → Prop where
  | nil (s : State) : Debugs build mode [] s s
  | request {k : Packet} {ctx : Context} {q : Request} {inputs : List (Input × Context)}
      {s t u : State} (checksum : ChecksumOk k) (demands : Demands build k.payload q)
      (turn : Turn mode ctx.steps.length q s t) (rest : Debugs build mode inputs t u) :
      Debugs build mode ((.token (.packet k), ctx) :: inputs) s u
  | idle {input : Input} {ctx : Context} {inputs : List (Input × Context)} {s t : State}
      (nothing : Means build input none) (rest : Debugs build mode inputs s t) :
      Debugs build mode ((input, ctx) :: inputs) s t

section

variable (build : Build) (ctx : Context) {mode : BitVec 8} {s t : State} {server : Session}
  (h : Serves mode s server.gdb)
include h

theorem sessionStep_turn {k : Packet} (hsum : ChecksumOk k) {q : Request}
    (hdemands : Demands build k.payload q) (hturn : Turn mode ctx.steps.length q s t) :
    let o := sessionStep build (.token (.packet k), ctx) server
    o.value = some () ∧ Serves mode t o.state.gdb ∧
      ∃ reply, Answers build mode s q reply ∧ lastReply o.trace = some (frame reply) := by
  intro o
  obtain ⟨reply, g', hanswers, hreplies, hserves⟩ :=
    gdbPacketAnalysis_turn build ctx h hsum hdemands hturn
  obtain ⟨hvalue, hstate, hreply⟩ := sessionStep_packet build ctx h.ready.connected k
  refine ⟨?_, ?_, reply, hanswers, hreply.trans hreplies.reply⟩
  · rw [show o.value = _ from hvalue, hreplies.returns]
    rfl
  · rw [show o.state.gdb = _ from hstate]
    exact hserves.same hreplies.same

theorem sessionStep_idle {input : Input} (hnothing : Means build input none) :
    let o := sessionStep build (input, ctx) server
    o.value = some () ∧ Serves mode s o.state.gdb := by
  intro o
  have hopen := h.ready.connected
  cases hnothing with
  | packet nothing =>
    obtain ⟨hreturns, hsame⟩ := Gdb.gdbPacketAnalysis_asksNothing build ctx hopen nothing
    obtain ⟨hvalue, hstate, -⟩ := sessionStep_packet build ctx hopen _
    refine ⟨?_, ?_⟩
    · rw [show o.value = _ from hvalue, hreturns]
      rfl
    · rw [show o.state.gdb = _ from hstate]
      exact h.same hsame
  | other noPacket =>
    obtain ⟨hvalue, hstate⟩ := sessionStep_other build ctx hopen noPacket
    exact ⟨hvalue, by rw [show o.state.gdb = _ from hstate]; exact h⟩

end

theorem runSession_debugs {build : Build} {mode : BitVec 8} {inputs : List (Input × Context)}
    {s t : State} (hdebugs : Debugs build mode inputs s t) {server : Session}
    (h : Serves mode s server.gdb) :
    (runSession build inputs server).value = List.replicate inputs.length (some ()) ∧
      Serves mode t (runSession build inputs server).state.gdb := by
  induction hdebugs generalizing server with
  | nil s => exact ⟨rfl, h⟩
  | @request k ctx q inputs s t u checksum demands turn rest ih =>
    obtain ⟨hvalue, hserves, -⟩ := sessionStep_turn build ctx h checksum demands turn
    obtain ⟨hvalues, hend⟩ := ih hserves
    obtain ⟨hcons, hstate, -⟩ := runSession_cons hvalue inputs
    rw [hcons, hstate, hvalues]
    exact ⟨rfl, hend⟩
  | @idle input ctx inputs s t nothing rest ih =>
    obtain ⟨hvalue, hserves⟩ := sessionStep_idle build ctx h nothing
    obtain ⟨hvalues, hend⟩ := ih hserves
    obtain ⟨hcons, hstate, -⟩ := runSession_cons hvalue inputs
    rw [hcons, hstate, hvalues]
    exact ⟨rfl, hend⟩

/-- A debugging session is handled to its end, and the program is where the machine is after
its turns.  The next request is answered by the machine. -/
theorem session_debugs {build : Build} {mode : BitVec 8} {inputs : List (Input × Context)}
    {s t : State} (hdebugs : Debugs build mode inputs s t) {server : Session}
    (h : Serves mode s server.gdb) :
    let o := runSession build inputs server
    o.value = List.replicate inputs.length (some ()) ∧ view o.state.gdb.arm = t ∧
      ∀ (ctx : Context) (k : Packet) (q : Request) (u : State), ChecksumOk k →
        Demands build k.payload q → Turn mode ctx.steps.length q t u →
          let next := sessionStep build (.token (.packet k), ctx) o.state
          next.value = some () ∧ view next.state.gdb.arm = u ∧
            ∃ reply, Answers build mode t q reply ∧ lastReply next.trace = some (frame reply) := by
  obtain ⟨hvalue, hserves⟩ := runSession_debugs hdebugs h
  refine ⟨hvalue, hserves.shows, fun ctx k q u hsum hdemands hturn => ?_⟩
  obtain ⟨hnext, hshows, hreply⟩ := sessionStep_turn build ctx hserves hsum hdemands hturn
  exact ⟨hnext, hshows.shows, hreply⟩

/-- A server in front of `MOV r1, #5` and a breakpoint. -/
def haltingSession : Session :=
  newSession
    { cycleCount := 0
      reg := fun i => if i = cpsrIndex then 0x10 else 0
      mem := memoryOfWords true 64 [0xE3A01005, 0xE7F001F0] }
    (fun _ => 0) fun _ => 0

theorem haltingSession_runs :
    ∃ t, after Assembly.step 1 (view haltingSession.gdb.arm) = some t ∧ t.reg 1 = 5 ∧
      Breakpoint t := by
  have hend : (after Assembly.step 1 (view haltingSession.gdb.arm)).map
      (fun t => (t.reg 1, fetch t)) = some (5, some 0xE7F001F0) := by
    decide +kernel
  obtain ⟨t, hrun, ht⟩ := Option.map_eq_some_iff.mp hend
  obtain ⟨h1, hfetch⟩ := Prod.mk.inj ht
  exact ⟨t, hrun, h1, _, hfetch, by decide⟩

/-- r1 can be read in every state. -/
theorem turn_getRegister_one (bound : Nat) (t : State) :
    Turn 0x10 bound (.data (.getRegister 1)) t t :=
  .data (s := t) (show modeField 0x10 = 0x10 by decide) (show (1 : Fin 16) < 10 by decide)

/-- The program is run, and r1 is read. -/
theorem session_debugs_halting :
    let go := Gdb.packetOfString (text ['c']) (by decide)
    let get := Gdb.packetOfString (text ['p', '1']) (by decide)
    let ctx : Context := { quietContext with steps := [⟨0, 0⟩] }
    let o := runSession quietBuild [(.token .ack, ctx), (.token (.packet go), ctx)] haltingSession
    lastReply (sessionStep quietBuild (.token (.packet get), ctx) o.state).trace =
      some (frame (Gdb.writeUint32 quietBuild 5)) := by
  intro go get ctx o
  obtain ⟨t, hrun, h1, hbreak⟩ := haltingSession_runs
  have hserves : Serves 0x10 (view haltingSession.gdb.arm) haltingSession.gdb :=
    ⟨⟨rfl, by decide, by decide⟩, by decide, rfl, rfl⟩
  have hdebugs : Debugs quietBuild 0x10 [(.token .ack, ctx), (.token (.packet go), ctx)]
      (view haltingSession.gdb.arm) t :=
    .idle (.other fun k h => by cases h) (.request (Gdb.checksumOk_packetOfString _ _) (.run [])
      (.run hrun hbreak (by decide)) (.nil t))
  obtain ⟨-, -, hnext⟩ := session_debugs hdebugs hserves
  obtain ⟨-, -, reply, ⟨cpsr, -, rfl⟩, hreply⟩ := hnext ctx get _ t
    (Gdb.checksumOk_packetOfString _ _) (.data (.getRegister 1)) (turn_getRegister_one 1 t)
  rw [hreply, ← h1]
  rfl

end Debugger

end ArmSimulator
