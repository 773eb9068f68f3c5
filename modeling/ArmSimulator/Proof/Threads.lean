/-
Interrupts and requests do not interleave.

Outside of the lock the gdb thread writes signs and stored replies, and none of that
looks at the core.  The general result on a mutex then applies: whatever the scheduler
does, the core and the replies are those of whole requests and whole exceptions, one
after the other.  No interrupt falls into the middle of a run, none is lost and none is
delivered twice.
-/
import ArmSimulator.Model.Threads
import ArmSimulator.Proof.Requests

namespace ArmSimulator

open Mutex

namespace Gdb

/-! ## Computations that do not look at the core -/

/-- The computation is the same whatever the core is, and leaves it alone. -/
def Blind {α : Type} (m : GdbM α) : Prop :=
  ∀ g arm, m { g with arm := arm } =
    { value := (m g).value, state := { (m g).state with arm := arm }, trace := (m g).trace }

section

variable {α β : Type}

theorem Blind.pure (a : α) : Blind (Pure.pure a : GdbM α) := fun _ _ => rfl

theorem Blind.halt (w : Stop) : Blind (Halting.halt w : GdbM α) := fun _ _ => rfl

theorem Blind.bind {m : GdbM α} {f : α → GdbM β} (hm : Blind m) (hf : ∀ a, Blind (f a)) :
    Blind (m >>= f) := by
  intro g arm
  cases h : (m g).value with
  | error w =>
    have h' : (m { g with arm := arm }).value = .error w := by rw [hm, h]
    rw [Halting.bind_apply_error h', Halting.bind_apply_error h, hm]
  | ok a =>
    have h' : (m { g with arm := arm }).value = .ok a := by rw [hm, h]
    rw [Halting.bind_apply_ok h', Halting.bind_apply_ok h, hm]
    simp only [hf a (m g).state arm]

theorem Blind.ite {c : Prop} [Decidable c] {m n : GdbM α} (hm : Blind m) (hn : Blind n) :
    Blind (if c then m else n) := by
  by_cases hc : c
  · rw [if_pos hc]
    exact hm
  · rw [if_neg hc]
    exact hn

/-- The core a blind computation leaves. -/
theorem Blind.arm {m : GdbM α} (h : Blind m) (g : Gdb) : (m g).state.arm = g.arm := by
  have hself := congrArg (fun o => o.state.arm) (h g g.arm)
  exact hself

theorem blind_rioWriten (bytes : List (BitVec 8)) : Blind (rioWriten bytes) := by
  intro g arm
  simp only [rioWriten]
  split_ifs <;> rfl

theorem blind_setPacket (i : Nat) (c : BitVec 8) : Blind (setPacket i c) := by
  intro g arm
  simp only [setPacket]
  split_ifs <;> rfl

theorem blind_getPacket (i : Nat) : Blind (getPacket i) := by
  intro g arm
  simp only [getPacket]
  split_ifs <;> rfl

theorem blind_putChars (i : Nat) (s : List (BitVec 8)) : Blind (putChars i s) := by
  induction s generalizing i with
  | nil => exact Blind.pure ()
  | cons c rest ih => exact Blind.bind (blind_setPacket i c) fun _ => ih (i + 1)

theorem blind_checkLoop (n i : Nat) (check : BitVec 8) : Blind (checkLoop n i check) := by
  induction n generalizing i check with
  | zero => exact Blind.halt _
  | succ n ih =>
    exact Blind.bind (blind_getPacket i) fun _ => Blind.ite (Blind.pure _) (ih _ _)

theorem blind_gdbTransmitPacket : Blind gdbTransmitPacket :=
  fun g arm => blind_rioWriten g.reply g arm

theorem blind_gdbSendData (data : List (BitVec 8)) : Blind (gdbSendData data) := by
  refine Blind.bind (blind_putChars _ _) fun _ => ?_
  refine Blind.bind (blind_setPacket _ _) fun _ => ?_
  refine Blind.bind (blind_checkLoop _ _ _) fun found => ?_
  refine Blind.bind (blind_setPacket _ _) fun _ => ?_
  refine Blind.bind (blind_putChars _ _) fun _ => ?_
  refine Blind.bind (blind_setPacket _ _) fun _ => ?_
  exact Blind.bind (fun _ _ => rfl) fun _ => blind_gdbTransmitPacket

theorem blind_analysisOutside (build : Build) (ctx : Context) (packet : List (BitVec 8)) :
    Blind (analysisOutside build ctx packet) := by
  unfold analysisOutside
  simp only
  refine Blind.ite (Blind.bind (blind_rioWriten _) fun _ => Blind.bind (fun _ _ => rfl) fun _ => ?_)
    (Blind.bind (blind_rioWriten _) fun _ => Blind.pure none)
  split
  · exact Blind.pure _
  · exact Blind.bind (blind_gdbSendData []) fun _ => Blind.pure none

end

/-- What is done under the lock, if anything. -/
def locked : Option (GdbM Unit) → GdbM Unit
  | none => pure ()
  | some m => m

end Gdb

open Gdb (Blind)

theorem blind_outside (build : Build) (ctx : Context) (c : GdbCall) :
    Blind (c.outside build ctx) := by
  cases c with
  | requireRetransmission => exact Blind.bind (Gdb.blind_rioWriten _) fun _ => Blind.pure none
  | transmitPacket => exact Blind.bind Gdb.blind_gdbTransmitPacket fun _ => Blind.pure none
  | packetAnalysis packet => exact Gdb.blind_analysisOutside build ctx packet

/-- A call is its part outside of the lock and then its part under it. -/
theorem run_eq_outside (build : Build) (ctx : Context) (c : GdbCall) :
    c.run build ctx = c.outside build ctx >>= Gdb.locked := by
  have hfree : ∀ m : GdbM Unit,
      (m >>= fun _ => pure (none : Option (GdbM Unit))) >>= Gdb.locked = m := by
    intro m
    rw [Halting.bind_assoc]
    exact Halting.bind_pure_unit m
  cases c with
  | requireRetransmission => exact (hfree _).symm
  | transmitPacket => exact (hfree _).symm
  | packetAnalysis packet =>
    unfold GdbCall.run GdbCall.outside Gdb.gdbPacketAnalysis Gdb.analysisOutside
    simp only
    rw [Halting.ite_bind]
    refine if_congr Iff.rfl ?_ (hfree _).symm
    rw [Halting.bind_assoc]
    refine congrArg (Gdb.gdbSendAck >>= ·) (funext fun _ => ?_)
    rw [Halting.bind_assoc]
    refine congrArg (Gdb.noteRequest _ >>= ·) (funext fun _ => ?_)
    unfold Gdb.answer
    cases Gdb.handler _ with
    | some handle => rfl
    | none => exact (hfree _).symm

/-! ## The threads -/

theorem gdb_of_blind {α : Type} {m : GdbM α} (h : Blind m) (l : Listener) (arm arm' : Core) :
    (m (l.gdb arm)).value = (m (l.gdb arm')).value ∧
      Listener.ofGdb l.output (m (l.gdb arm)).state (m (l.gdb arm)).trace =
        Listener.ofGdb l.output (m (l.gdb arm')).state (m (l.gdb arm')).trace := by
  have hsame := h (l.gdb arm') arm
  rw [show ({ l.gdb arm' with arm := arm } : Gdb) = l.gdb arm from rfl] at hsame
  rw [hsame]
  exact ⟨rfl, rfl⟩

/-- The call of a job on the connection of the debugger. -/
def gdbTransaction (build : Build) (job : GdbCall × Context) : Transaction Core Listener where
  outside := gdbOutside build job
  blind arm arm' l := by
    obtain ⟨hvalue, hdata⟩ := gdb_of_blind (blind_outside build job.2 job.1) l arm arm'
    simp only [gdbOutside, hvalue, hdata]

def irqTransaction (code : BitVec 8) : Transaction Core Unit where
  outside := irqOutside code
  blind _ _ _ := rfl

def transactions (build : Build) : ∀ i : Thread, i.Job → Transaction Core i.Own
  | .gdb => gdbTransaction build
  | .irq => irqTransaction

theorem ofGdb_append (before : List (List (BitVec 8))) (g : Gdb) (t u : List GdbEvent) :
    Listener.ofGdb before g (t ++ u) = Listener.ofGdb (before ++ output t) g u := by
  rw [Listener.ofGdb, Listener.ofGdb, output_append, List.append_assoc]

theorem ofGdb_nil (l : Listener) (arm : Core) : Listener.ofGdb l.output (l.gdb arm) [] = l := by
  rw [Listener.ofGdb, output, List.filterMap_nil, List.append_nil]
  rfl

/-- A computation that returns, and then another one. -/
theorem onListener_bind {α : Type} {m : GdbM α} {f : α → GdbM Unit} {arm : Core} {l : Listener}
    {a : α} (h : (m (l.gdb arm)).value = .ok a) :
    onListener (m >>= f) (arm, l) =
      onListener (f a)
        ((m (l.gdb arm)).state.arm,
          .ofGdb l.output (m (l.gdb arm)).state (m (l.gdb arm)).trace) := by
  have hgdb : (Listener.ofGdb l.output (m (l.gdb arm)).state (m (l.gdb arm)).trace).gdb
      (m (l.gdb arm)).state.arm = (m (l.gdb arm)).state := rfl
  simp only [onListener, Halting.bind_apply_ok h, hgdb, ofGdb_append]
  rfl

theorem onListener_bind_error {α : Type} {m : GdbM α} {f : α → GdbM Unit} {arm : Core}
    {l : Listener} {w : Stop} (h : (m (l.gdb arm)).value = .error w) :
    onListener (m >>= f) (arm, l) = none := by
  simp only [onListener, Halting.bind_apply_error h]

/-- A job of the gdb thread in one piece is its call. -/
theorem gdbTransaction_run (build : Build) (job : GdbCall × Context) (arm : Core) (l : Listener) :
    (gdbTransaction build job).run arm l = onListener (job.1.run build job.2) (arm, l) := by
  have harm := (blind_outside build job.2 job.1).arm (l.gdb arm)
  have houtside : (gdbTransaction build job).outside arm l = gdbOutside build job arm l := rfl
  rw [run_eq_outside, Transaction.run, houtside]
  simp only [gdbOutside]
  cases hvalue : (job.1.outside build job.2 (l.gdb arm)).value with
  | error w => rw [onListener_bind_error hvalue]
  | ok next =>
    rw [onListener_bind hvalue, harm]
    cases next with
    | none => exact (congrArg (fun l => some (arm, l)) (ofGdb_nil _ arm)).symm
    | some m => rfl

/-! ## Runs -/

theorem onListener_seq (m n : GdbM Unit) (s : Core × Listener) :
    onListener (m >>= fun _ => n) s = (onListener m s).bind (onListener n) := by
  obtain ⟨arm, l⟩ := s
  cases h : (m (l.gdb arm)).value with
  | error w =>
    rw [onListener_bind_error h]
    simp only [onListener, h, Option.bind_none]
  | ok u =>
    rw [onListener_bind h]
    simp only [onListener, h, Option.bind_some]

/-- An exception is not seen by the data of the gdb thread. -/
theorem onListener_interrupt (code : BitVec 8) (arm : Core) (l : Listener) :
    onListener (Gdb.onArm (armException code)) (arm, l) =
      some ((armException code arm).state, l) := by
  simp only [onListener, Gdb.onArm, Listener.gdb, Listener.ofGdb, output_core, List.append_nil]

def systemEvent : (Σ i : Thread, i.Job) → SystemEvent
  | ⟨.gdb, job⟩ => .call job
  | ⟨.irq, code⟩ => .interrupt code

theorem jobsOf_gdb (log : List (Σ i : Thread, i.Job)) :
    jobsOf .gdb log = (log.map systemEvent).filterMap SystemEvent.call? := by
  induction log with
  | nil => rfl
  | cons e rest ih =>
    obtain ⟨i, job⟩ := e
    cases i with
    | gdb => exact congrArg (List.cons job) ih
    | irq => exact ih

theorem jobsOf_irq (log : List (Σ i : Thread, i.Job)) :
    jobsOf .irq log = (log.map systemEvent).filterMap SystemEvent.interrupt? := by
  induction log with
  | nil => rfl
  | cons e rest ih =>
    obtain ⟨i, job⟩ := e
    cases i with
    | gdb => exact ih
    | irq => exact congrArg (List.cons job) ih

/-- Whole jobs, one after the other, on the core and the data of the gdb thread. -/
theorem runJobs_system {build : Build} {log : List (Σ i : Thread, i.Job)} {arm arm' : Core}
    {own own' : ∀ i : Thread, i.Own}
    (h : runJobs (transactions build) log arm own = some (arm', own')) :
    onListener (runSystem build (log.map systemEvent)) (arm, own .gdb) =
      some (arm', own' .gdb) := by
  induction log generalizing arm own with
  | nil =>
    cases h
    exact congrArg (fun l => some (arm', l)) (ofGdb_nil (own' .gdb) arm')
  | cons e rest ih =>
    obtain ⟨i, job⟩ := e
    rw [List.map_cons, runSystem, onListener_seq]
    rw [runJobs] at h
    cases i with
    | gdb =>
      have hjob : runJob (transactions build) ⟨.gdb, job⟩ arm own =
          (onListener (job.1.run build job.2) (arm, own .gdb)).map fun q =>
            (q.1, Function.update own .gdb q.2) := by
        rw [runJob, ← gdbTransaction_run]
        rfl
      rw [hjob] at h
      cases hrun : onListener (job.1.run build job.2) (arm, own .gdb) with
      | none =>
        rw [hrun] at h
        cases h
      | some q =>
        rw [hrun] at h
        have hrest := ih h
        rw [Function.update_self] at hrest
        rw [systemEvent, SystemEvent.run, hrun, Option.bind_some]
        exact hrest
    | irq =>
      have hjob : runJob (transactions build) ⟨.irq, job⟩ arm own =
          some ((armException job arm).state, Function.update own .irq ()) := rfl
      rw [hjob] at h
      have hrest := ih h
      rw [Function.update_of_ne (by decide)] at hrest
      rw [systemEvent, SystemEvent.run, onListener_interrupt, Option.bind_some]
      exact hrest

theorem of_onListener {m : GdbM Unit} {arm arm' : Core} {l l' : Listener}
    (h : onListener m (arm, l) = some (arm', l')) :
    (m (l.gdb arm)).value = .ok () ∧ arm' = (m (l.gdb arm)).state.arm ∧
      l' = .ofGdb l.output (m (l.gdb arm)).state (m (l.gdb arm)).trace := by
  simp only [onListener] at h
  cases hvalue : (m (l.gdb arm)).value with
  | error w =>
    rw [hvalue] at h
    cases h
  | ok u =>
    rw [hvalue] at h
    cases h
    exact ⟨rfl, rfl, rfl⟩

/-- The two threads when they are created, with what they are going to read. -/
def threadsAtStart (arm : Core) (packet : Nat → BitVec 8) (calls : List (GdbCall × Context))
    (codes : List (BitVec 8)) : Config Core Thread.Own Thread.Job :=
  Config.start arm
    (fun
      | .gdb => .ofGdb [] (Gdb.gdbInitData arm packet) []
      | .irq => ())
    (fun
      | .gdb => calls
      | .irq => codes)

/-- In every interleaving of the two threads, at most one of them is under the lock, and
there is an order of whole requests and whole exceptions that gives the core whenever the
lock is free, and the server and all that it has written whenever the gdb thread is
between two calls.  The order is that of the calls and that of the interrupts, with none
left out and none twice. -/
theorem threads_serialise (build : Build) (arm : Core) (packet : Nat → BitVec 8)
    (calls : List (GdbCall × Context)) (codes : List (BitVec 8))
    {c : Config Core Thread.Own Thread.Job}
    (h : Reachable (transactions build) (threadsAtStart arm packet calls codes) c) :
    ¬((∃ r, c.phase .gdb = .inside r) ∧ ∃ r, c.phase .irq = .inside r) ∧
      ∃ (events : List SystemEvent) (call : Option (GdbCall × Context)) (code : Option (BitVec 8)),
        events.filterMap SystemEvent.call? ++ call.toList ++ c.todo .gdb = calls ∧
        events.filterMap SystemEvent.interrupt? ++ code.toList ++ c.todo .irq = codes ∧
        (call = none ↔ c.phase .gdb = .idle) ∧ (code = none ↔ c.phase .irq = .idle) ∧
        let o := runSystem build events (Gdb.gdbInitData arm packet)
        o.value = .ok () ∧ (c.owner = none → c.shared = o.state.arm) ∧
          (c.phase .gdb = .idle → c.own .gdb = .ofGdb [] o.state o.trace) := by
  obtain ⟨log, current, arm₀, own₀, hex⟩ := h.explained
  have hserial := runJobs_system hex.serial
  obtain ⟨hvalue, harm, hown⟩ := of_onListener hserial
  refine ⟨hex.exclusive (by decide), log.map systemEvent, current .gdb, current .irq, ?_, ?_,
    hex.current_eq_none_iff .gdb, hex.current_eq_none_iff .irq, hvalue, fun hfree => ?_,
    fun hidle => ?_⟩
  · rw [← jobsOf_gdb]
    exact hex.jobs .gdb
  · rw [← jobsOf_irq]
    exact hex.jobs .irq
  · exact (hex.shared hfree).trans harm
  · exact (hex.idle hidle).2.trans hown

/-- The debugger asks for a step while an interrupt is being delivered.  Both threads wait
for the lock, and the interrupt gets it first. -/
theorem threads_serialise_interrupted :
    let build : Build := ⟨.modular false, true, false⟩
    let arm : Core := { cycleCount := 0, reg := fun _ => 0x13, mem := memoryOfWords true 0 [] }
    let job : GdbCall × Context := (.packetAnalysis (text ['$', 's', '#', '7', '3']),
      ⟨0, 0, 0, 0, 0, 0, fun _ => 0, [⟨0, 0⟩], []⟩)
    let start := threadsAtStart arm (fun _ => 0) [job] [6]
    ∃ c events, Reachable (transactions build) start c ∧ c.todo .gdb = [] ∧ c.todo .irq = [] ∧
      events.filterMap SystemEvent.call? = [job] ∧
      events.filterMap SystemEvent.interrupt? = [6] ∧
      c.shared = (runSystem build events (Gdb.gdbInitData arm fun _ => 0)).state.arm := by
  intro build arm job start
  let deliver : Core × Unit → Option (Core × Unit) := fun s =>
    some ((armException 6 s.1).state, s.2)
  -- The handler of the request, on the core that the interrupt leaves.
  have hreturns : ((gdbOutside build job arm (start.own .gdb)).bind fun q =>
      q.2.bind fun f => f ((armException 6 arm).state, q.1)).isSome = true := by
    decide +kernel
  obtain ⟨⟨arm', l'⟩, hq⟩ := Option.isSome_iff_exists.mp hreturns
  obtain ⟨⟨l, _⟩, houtside, hlocked⟩ := Option.bind_eq_some_iff.mp hq
  obtain ⟨handle, rfl, hhandle⟩ := Option.bind_eq_some_iff.mp hlocked
  have hwhole : ∀ s, (Resumption.step handle fun _ => .done).eval s = handle s := by
    intro s
    rw [Resumption.eval]
    cases handle s <;> rfl
  have h₁ := Reachable.step (Reachable.refl (T := transactions build) (c := start))
    (.outside (i := Thread.gdb) rfl rfl houtside)
  have h₂ := h₁.step (.outside (i := Thread.irq) (f := deliver) rfl rfl rfl)
  have h₃ := h₂.step (.acquire (i := Thread.irq) (r := .step deliver fun _ => .done) rfl rfl
    fun _ => rfl)
  have h₄ := h₃.step (.inside (i := Thread.irq) (f := deliver) rfl rfl)
  have h₅ := h₄.step (.release (i := Thread.irq) rfl)
  have h₆ := h₅.step (.acquire (i := Thread.gdb) (r := .step handle fun _ => .done) rfl rfl hwhole)
  have h₇ := h₆.step (.inside (i := Thread.gdb) (f := handle) rfl hhandle)
  have h₈ := h₇.step (.release (i := Thread.gdb) rfl)
  obtain ⟨-, events, call, code, hcalls, hcodes, hcall, hcode, -, hshared, -⟩ :=
    threads_serialise build arm (fun _ => 0) [job] [6] h₈
  refine ⟨_, events, h₈, rfl, rfl, ?_, ?_, hshared rfl⟩
  · rw [hcall.mpr rfl] at hcalls
    simpa using hcalls
  · rw [hcode.mpr rfl] at hcodes
    simpa using hcodes
end ArmSimulator
