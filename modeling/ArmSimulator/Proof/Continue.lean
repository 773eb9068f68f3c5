/-
Runs up to a breakpoint.

The loop of `cont` reads the word at the next fetch address in anticipation, through the
path of data, and steps the core unless the word is a breakpoint.  As long as every such
read succeeds the loop sees what the fetch would give, so that a run is a number of single
steps, and it ends in front of the first breakpoint, whoever has written it.
-/
import ArmSimulator.Proof.Bounds
import ArmSimulator.Proof.Retransmission

namespace ArmSimulator

/-! ## Runs of the core -/

/-- The core after steps, one for each entry. -/
def afterSteps (build : Build) (steps : List Locals) (p : Core) : Core :=
  steps.foldl (fun p locals => (armStep build.host locals p).state) p

/-- The word at the next fetch address is a breakpoint. -/
def BreakpointNext (p : Core) : Prop := ∃ ins, fetched p = .ok ins ∧ Gdb.isBreakpoint ins = true

/-- The first breakpoint of a run lies in front of step `k`. -/
structure FirstBreakpoint (build : Build) (steps : List Locals) (p : Core) (k : Nat) : Prop where
  found : BreakpointNext (afterSteps build (steps.take k) p)
  first : ∀ j, j < k → ¬BreakpointNext (afterSteps build (steps.take j) p)

/-- The four bytes at each fetch address of a run lie inside the memory, up to its first
breakpoint. -/
def FetchesInside (build : Build) (steps : List Locals) (p : Core) : Prop :=
  ∀ j, (∀ i, i < j → ¬BreakpointNext (afterSteps build (steps.take i) p)) →
    (fetchAddress (afterSteps build (steps.take j) p).reg).toNat + 4 ≤
      (afterSteps build (steps.take j) p).mem.size

namespace FetchesInside

variable {build : Build} {steps : List Locals} {p : Core}

theorem head (h : FetchesInside build steps p) : ∃ ins, fetched p = .ok ins := by
  have hinside : (fetchAddress p.reg).toNat + 4 ≤ p.mem.size :=
    h 0 fun i hi => absurd hi (Nat.not_lt_zero i)
  cases hfetch : fetched p with
  | ok ins => exact ⟨ins, rfl⟩
  | error code =>
    have houtside := (memoryReadWord_eq_error.mp hfetch).2
    omega

theorem tail {locals : Locals} {rest : List Locals} (h : FetchesInside build (locals :: rest) p)
    (hnone : ¬BreakpointNext p) : FetchesInside build rest (armStep build.host locals p).state := by
  intro j hj
  refine h (j + 1) fun i hi => ?_
  cases i with
  | zero => exact hnone
  | succ i => exact hj i (by omega)

end FetchesInside

theorem FirstBreakpoint.succ {build : Build} {locals : Locals} {rest : List Locals} {p : Core}
    {k : Nat} (h : FirstBreakpoint build rest (armStep build.host locals p).state k)
    (hnone : ¬BreakpointNext p) : FirstBreakpoint build (locals :: rest) p (k + 1) := by
  refine ⟨h.found, fun j hj => ?_⟩
  cases j with
  | zero => exact hnone
  | succ j => exact h.first j (by omega)

namespace Gdb

open Halting (halt)

/-! ## The loop -/

/-- The server steps its core once for each entry, and every step returns. -/
inductive Turns (build : Build) : List Locals → Gdb → Gdb → Prop where
  | nil (g : Gdb) : Turns build [] g g
  | cons {locals : Locals} {rest : List Locals} {g g' : Gdb}
      (first : (stepTarget build locals g).value = .ok ())
      (turns : Turns build rest (stepTarget build locals g).state g') :
      Turns build (locals :: rest) g g'

/-- The read in anticipation sees the word that the fetch would give. -/
theorem anticipate_bind {ins : BitVec 32} {g : Gdb} (hins : fetched g.arm = .ok ins)
    (instruction : BitVec 32) (f : BitVec 32 → GdbM Unit) :
    ((anticipate instruction >>= f) g).value = (f ins g).value ∧
      ((anticipate instruction >>= f) g).state = (f ins g).state := by
  have hanticipated : anticipated instruction g.arm = ins := by
    rw [anticipated, hins]
  have hread := anticipate_apply instruction g
  rw [hanticipated] at hread
  rw [Halting.bind_apply_ok (by rw [hread]), hread]
  exact ⟨rfl, rfl⟩

theorem breakpointNext_iff {p : Core} {ins : BitVec 32} (hins : fetched p = .ok ins) :
    BreakpointNext p ↔ isBreakpoint ins = true := by
  constructor
  · rintro ⟨ins', hins', hbreak⟩
    cases hins.symm.trans hins'
    exact hbreak
  · exact fun hbreak => ⟨ins, hins, hbreak⟩

/-- In front of a breakpoint the loop does nothing. -/
theorem contLoop_breakpoint {build : Build} {instruction : BitVec 32} {g : Gdb}
    (hbreak : BreakpointNext g.arm) (steps : List Locals) :
    (contLoop build steps instruction g).state = g := by
  obtain ⟨ins, hins, hbreak⟩ := hbreak
  cases steps with
  | nil =>
    rw [contLoop, (anticipate_bind hins instruction _).2, if_pos hbreak]
    rfl
  | cons locals rest =>
    rw [contLoop, (anticipate_bind hins instruction _).2, if_pos hbreak]
    rfl

/-- A loop that returns has stepped the core up to the first breakpoint. -/
theorem contLoop_turns {build : Build} {steps : List Locals} {instruction : BitVec 32} {g : Gdb}
    (hinside : FetchesInside build steps g.arm)
    (hreturn : (contLoop build steps instruction g).value = .ok ()) :
    ∃ k, k ≤ steps.length ∧ FirstBreakpoint build steps g.arm k ∧
      Turns build (steps.take k) g (contLoop build steps instruction g).state := by
  induction steps generalizing instruction g with
  | nil =>
    obtain ⟨ins, hins⟩ := hinside.head
    by_cases hbreak : BreakpointNext g.arm
    · refine ⟨0, Nat.le_refl 0, ⟨hbreak, fun j hj => absurd hj (Nat.not_lt_zero j)⟩, ?_⟩
      rw [contLoop_breakpoint hbreak]
      exact Turns.nil g
    · rw [breakpointNext_iff hins] at hbreak
      rw [contLoop, (anticipate_bind hins instruction _).1, if_neg hbreak] at hreturn
      cases hreturn
  | cons locals rest ih =>
    obtain ⟨ins, hins⟩ := hinside.head
    by_cases hbreak : BreakpointNext g.arm
    · refine ⟨0, Nat.zero_le _, ⟨hbreak, fun j hj => absurd hj (Nat.not_lt_zero j)⟩, ?_⟩
      rw [contLoop_breakpoint hbreak]
      exact Turns.nil g
    · have hnone := fun h => hbreak ((breakpointNext_iff hins).mpr h)
      have htail := hinside.tail hbreak
      have harm := (stepTarget_apply build locals g).2.1
      rw [contLoop, (anticipate_bind hins instruction _).1, if_neg hnone] at hreturn
      rw [contLoop, (anticipate_bind hins instruction _).2, if_neg hnone]
      obtain ⟨⟨⟩, hstep, hrest⟩ := Halting.of_bind_ok hreturn
      rw [← harm] at htail
      obtain ⟨k, hk, hfirst, hturns⟩ := ih htail hrest
      rw [harm] at hfirst
      refine ⟨k + 1, Nat.succ_le_succ hk, hfirst.succ hbreak, ?_⟩
      rw [Halting.bind_apply_ok hstep]
      exact Turns.cons hstep hturns

/-! ## Single steps -/

/-- The commands `s` one after the other, one for each entry. -/
def stepCommands (build : Build) (ctx : Context) (data : List (BitVec 8)) :
    List Locals → GdbM Unit
  | [] => pure ()
  | locals :: rest => do
    step build { ctx with steps := [locals] } data
    stepCommands build ctx data rest

/-- Two servers that differ in their packet arrays at most. -/
structure SameTarget (g g' : Gdb) : Prop where
  arm : g.arm = g'.arm
  targetException : g.targetException = g'.targetException
  connected : g.connected = g'.connected

theorem SameTarget.trans {g g' g'' : Gdb} (h : SameTarget g g') (h' : SameTarget g' g'') :
    SameTarget g g'' :=
  ⟨h.arm.trans h'.arm, h.targetException.trans h'.targetException, h.connected.trans h'.connected⟩

theorem gdbSendStopReason_apply (g : Gdb) :
    ((gdbSendStopReason g).value = .ok () ↔ g.connected = true) ∧
      (g.connected = true →
        (gdbSendStopReason g).trace = [.write (frame (stopReason g.targetException))]) := by
  obtain ⟨hlength, hnonzero⟩ := stopReason_plain g.targetException
  exact (gdbSendData_reply hlength hnonzero g).2

theorem sameTarget_gdbSendStopReason (g : Gdb) : SameTarget g (gdbSendStopReason g).state := by
  have h : ReplyInvariant (SameTarget g) fun _ => True :=
    ⟨fun _ _ hg => ⟨hg.arm, hg.targetException, hg.connected⟩,
      fun _ _ hg => ⟨hg.arm, hg.targetException, hg.connected⟩, fun _ => trivial⟩
  exact (keeps_gdbSendStopReason h g ⟨rfl, rfl, rfl⟩).1

theorem stepTarget_some {build : Build} {locals : Locals} {g : Gdb} {result : BitVec 32}
    (h : (armStep build.host locals g.arm).value = some result) :
    stepTarget build locals g =
      { value := .ok ()
        state := { g with arm := (armStep build.host locals g.arm).state, targetException := result }
        trace := (armStep build.host locals g.arm).trace.map .core } := by
  have hvalue : (onArm (armStep build.host locals) g).value = .ok (some result) :=
    congrArg Except.ok h
  rw [stepTarget, Halting.bind_apply_ok hvalue]
  simp only [onArm, List.append_nil]

theorem result_of_stepTarget {build : Build} {locals : Locals} {g : Gdb}
    (h : (stepTarget build locals g).value = .ok ()) :
    ∃ result, (armStep build.host locals g.arm).value = some result := by
  rw [(stepTarget_apply build locals g).2.2] at h
  cases hnone : (armStep build.host locals g.arm).value with
  | none =>
    rw [if_pos hnone] at h
    cases h
  | some result => exact ⟨result, rfl⟩

/-- One turn of the loop is one command `s`, up to the reply. -/
theorem sameTarget_step {g g' : Gdb} (h : SameTarget g g') (hopen : g.connected = true)
    (build : Build) (ctx : Context) (data : List (BitVec 8)) {locals : Locals}
    (hreturn : (stepTarget build locals g).value = .ok ()) :
    let o := step build { ctx with steps := [locals] } data g'
    o.value = .ok () ∧ SameTarget (stepTarget build locals g).state o.state ∧
      lastReply o.trace =
        some (frame (stopReason (stepTarget build locals g).state.targetException)) := by
  intro o
  obtain ⟨result, hresult⟩ := result_of_stepTarget hreturn
  have hresult' : (armStep build.host locals g'.arm).value = some result := by
    rw [← h.arm, hresult]
  let g₁ : Gdb :=
    { g' with arm := (armStep build.host locals g'.arm).state, targetException := result }
  obtain ⟨hreturns, htrace⟩ := gdbSendStopReason_apply g₁
  have hopen₁ : g₁.connected = true := h.connected.symm.trans hopen
  have hsame : SameTarget (stepTarget build locals g).state g₁ := by
    rw [stepTarget_some hresult]
    refine ⟨?_, rfl, h.connected⟩
    show (armStep build.host locals g.arm).state = (armStep build.host locals g'.arm).state
    rw [h.arm]
  have ho : o = { value := (gdbSendStopReason g₁).value, state := (gdbSendStopReason g₁).state,
                  trace := (armStep build.host locals g'.arm).trace.map .core ++
                    (gdbSendStopReason g₁).trace } := by
    have hstep := stepTarget_some hresult'
    simp only [o, step, stepOnce]
    rw [Halting.bind_apply_ok (by rw [hstep]), hstep]
  rw [ho, htrace hopen₁, lastReply_append]
  refine ⟨hreturns.mpr hopen₁, hsame.trans (sameTarget_gdbSendStopReason g₁), ?_⟩
  rw [stepTarget_some hresult]
  rfl

/-! ## Runs -/

theorem Turns.arm {build : Build} {steps : List Locals} {g g₁ : Gdb} (h : Turns build steps g g₁) :
    g₁.arm = afterSteps build steps g.arm := by
  induction h with
  | nil g => rfl
  | @cons locals rest g g₁ _ _ ih =>
    rw [ih, (stepTarget_apply build locals g).2.1]
    rfl

theorem Turns.eq_of_nil {build : Build} {g g₁ : Gdb} (h : Turns build [] g g₁) : g₁ = g := by
  cases h
  rfl

theorem Turns.connected {build : Build} {steps : List Locals} {g g₁ : Gdb}
    (h : Turns build steps g g₁) : g₁.connected = g.connected := by
  induction h with
  | nil g => rfl
  | cons first _ ih =>
    obtain ⟨result, hresult⟩ := result_of_stepTarget first
    rw [ih, stepTarget_some hresult]

/-- The turns of the loop are as many commands `s`, of which the last gives the stop reason
of the loop. -/
theorem Turns.commands {build : Build} {steps : List Locals} {g g₁ : Gdb}
    (h : Turns build steps g g₁) (hopen : g.connected = true) (ctx : Context)
    (data : List (BitVec 8)) {g' : Gdb} (hsame : SameTarget g g') :
    let o := stepCommands build ctx data steps g'
    o.value = .ok () ∧ SameTarget g₁ o.state ∧
      lastReply o.trace =
        if steps = [] then none else some (frame (stopReason g₁.targetException)) := by
  induction h generalizing g' with
  | nil g => exact ⟨rfl, hsame, rfl⟩
  | @cons locals rest g g₁ first turns ih =>
    intro o
    obtain ⟨result, hresult⟩ := result_of_stepTarget first
    have hopen₁ : (stepTarget build locals g).state.connected = true := by
      rw [stepTarget_some hresult]
      exact hopen
    obtain ⟨hvalue, hstep, hreply⟩ := sameTarget_step hsame hopen build ctx data first
    obtain ⟨hvalue', hstate', hreply'⟩ := ih hopen₁ hstep
    have ho : o = _ := Halting.bind_apply_ok hvalue _
    rw [ho, lastReply_append, hreply, hreply', if_neg (List.cons_ne_nil _ _)]
    refine ⟨hvalue', hstate', ?_⟩
    by_cases hrest : rest = []
    · subst hrest
      rw [turns.eq_of_nil]
      rfl
    · rw [if_neg hrest]
      rfl

/-- A run that returns ends where single steps get in front of the first breakpoint, and
gives the stop reason of the last of them, or the one stored before if there is none. -/
theorem cont_eq_steps (build : Build) (ctx ctx' : Context) (data data' : List (BitVec 8)) (g : Gdb)
    (hinside : FetchesInside build ctx.steps g.arm)
    (hreturn : (cont build ctx data g).value = .ok ()) :
    ∃ k, k ≤ ctx.steps.length ∧ FirstBreakpoint build ctx.steps g.arm k ∧
      let o := cont build ctx data g
      let run := stepCommands build ctx' data' (ctx.steps.take k) g
      run.value = .ok () ∧ run.state.arm = afterSteps build (ctx.steps.take k) g.arm ∧
        o.state.arm = run.state.arm ∧ o.state.targetException = run.state.targetException ∧
        lastReply o.trace =
          if k = 0 then some (frame (stopReason g.targetException)) else lastReply run.trace := by
  obtain ⟨⟨⟩, hloop, hsent⟩ := Halting.of_bind_ok hreturn
  obtain ⟨k, hk, hfirst, hturns⟩ := contLoop_turns hinside hloop
  let g₁ := (contLoop build ctx.steps ctx.instruction g).state
  obtain ⟨hreturns, htrace⟩ := gdbSendStopReason_apply g₁
  have hopen₁ : g₁.connected = true := hreturns.mp hsent
  have hopen : g.connected = true := hturns.connected.symm.trans hopen₁
  obtain ⟨hvalue, hsame, hreply⟩ := hturns.commands hopen ctx' data' ⟨rfl, rfl, rfl⟩
  have hstop := sameTarget_gdbSendStopReason g₁
  have ho : cont build ctx data g = _ := Halting.bind_apply_ok hloop _
  refine ⟨k, hk, hfirst, hvalue, hsame.arm.symm.trans hturns.arm, ?_, ?_, ?_⟩
  · rw [ho]
    exact hstop.arm.symm.trans hsame.arm
  · rw [ho]
    exact hstop.targetException.symm.trans hsame.targetException
  · have hlast : lastReply [.write (frame (stopReason g₁.targetException))] =
        some (frame (stopReason g₁.targetException)) := rfl
    rw [ho, lastReply_append, htrace hopen₁, hlast, hreply]
    by_cases hzero : k = 0
    · subst hzero
      have hstart : g₁ = g := hturns.eq_of_nil
      rw [if_pos rfl, hstart]
      rfl
    · have hne : ctx.steps.take k ≠ [] := by
        rw [← List.length_pos_iff, List.length_take]
        omega
      rw [if_neg hzero, if_neg hne]
      rfl

/-- A server in front of `STR r1, [r2]`, which writes a breakpoint behind itself. -/
def writingGdb : Gdb :=
  gdbInitData
    { cycleCount := 0
      reg := fun i => if i = 1 then 0xE7F000F0 else if i = 2 then 4 else if i = 16 then 0x13 else 0
      mem := memoryOfWords true 64 [0xE5821000] }
    fun _ => 0

/-- One step is followed. -/
def oneStep : Context := { quietContext with steps := [⟨0, 0⟩] }

theorem cont_eq_steps_written :
    (cont quietBuild oneStep [] writingGdb).value = .ok () ∧
      ¬BreakpointNext writingGdb.arm ∧
      ∃ k, FirstBreakpoint quietBuild oneStep.steps writingGdb.arm k ∧
        (cont quietBuild oneStep [] writingGdb).state.arm =
          (stepCommands quietBuild quietContext [] (oneStep.steps.take k) writingGdb).state.arm := by
  have hreturn : (cont quietBuild oneStep [] writingGdb).value = .ok () := by
    rfl
  have hfirst : ¬BreakpointNext writingGdb.arm := by
    rw [breakpointNext_iff (p := writingGdb.arm) rfl]
    decide
  have hinside : FetchesInside quietBuild oneStep.steps writingGdb.arm := by
    intro j _
    cases j with
    | zero => decide
    | succ j =>
      rw [show oneStep.steps.take (j + 1) = oneStep.steps by simp [oneStep]]
      decide +kernel
  obtain ⟨k, -, hbreak, -, -, harm, -⟩ := cont_eq_steps quietBuild oneStep quietContext [] []
    writingGdb hinside hreturn
  exact ⟨hreturn, hfirst, k, hbreak, harm⟩

end Gdb

end ArmSimulator
