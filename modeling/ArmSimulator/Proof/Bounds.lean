/-
Accesses past the end of the memory.

`is_not_valid_address` looks at the first byte of an access alone, so a half or a word
that starts in the last bytes of the memory goes past its end.  A step makes such an
access when its fetch or one of its transfers does, and gdb does when it runs or steps
the core.  Its other commands access single bytes and stay inside.
-/
import ArmSimulator.Proof.Framing
import ArmSimulator.Proof.Requests
import ArmSimulator.Proof.Respects
import ArmSimulator.Proof.Transfers

namespace ArmSimulator

open Traced (Sim)
open Halting (Keeps halt)

/-! ## Calls -/

/-- The bytes that an access of `width` bytes has touched, from the code it returned. -/
def touched (width : Nat) (a code : BitVec 32) : List (BitVec 32) :=
  if code = 0 then span a width else []

theorem MemoryCall.run_trace (c : MemoryCall) (mem : Memory) :
    (c.run mem).trace = touched c.width c.address (c.run mem).value := by
  rw [c.run_eq, MemoryCall.outcome, touched]
  split
  · rw [if_pos rfl]
  · exact (if_neg (show dataAbort ≠ 0 by decide)).symm

/-- Where an access of `width` bytes does not leave a memory of `size` bytes: it is
rejected, its last byte is inside, or no index is outside. -/
def Bounded (size : Nat) (isLoad : Bool) (width : Nat) (a : BitVec 32) : Prop :=
  size ≤ a.toNat ∨ (isLoad = false ∧ a.toNat % width ≠ 0) ∨ a.toNat + width ≤ size ∨ 2 ^ 32 ≤ size

instance (size : Nat) (isLoad : Bool) (width : Nat) (a : BitVec 32) :
    Decidable (Bounded size isLoad width a) :=
  inferInstanceAs (Decidable (_ ∨ _ ∨ _ ∨ _))

theorem inside_iff {size width : Nat} {a : BitVec 32} (h : a.toNat < size) :
    Inside size a width ↔ a.toNat + width ≤ size ∨ 2 ^ 32 ≤ size := by
  constructor
  · intro hinside
    by_contra hcon
    -- The byte behind the last one is among those of the access.
    have hmem : a + BitVec.ofNat 32 (size - a.toNat) ∈ span a width :=
      List.mem_map.mpr ⟨size - a.toNat, List.mem_range.mpr (by omega), rfl⟩
    have hlt := hinside _ hmem
    rw [BitVec.toNat_add, BitVec.toNat_ofNat] at hlt
    omega
  · intro hbound i hi
    obtain ⟨k, hk, rfl⟩ := List.mem_map.mp hi
    rw [List.mem_range] at hk
    rw [BitVec.toNat_add, BitVec.toNat_ofNat]
    omega

theorem touched_inside_iff (mem : Memory) (isLoad : Bool) (width : Nat) (a : BitVec 32) :
    (∀ i ∈ touched width a (accessResult mem isLoad width a), i.toNat < mem.size) ↔
      Bounded mem.size isLoad width a := by
  by_cases haccepted : Accepted mem isLoad width a
  · have hin : Inside mem.size a width ↔ _ := inside_iff haccepted.1
    rw [touched, if_pos (accessResult_eq_zero.mpr haccepted)]
    refine hin.trans ⟨fun h => Or.inr (Or.inr h), ?_⟩
    rintro (h | ⟨hstore, h⟩ | h)
    · exact absurd haccepted.1 (by omega)
    · exact absurd (haccepted.2 hstore) h
    · exact h
  · rw [touched, if_neg fun h => haccepted (accessResult_eq_zero.mp h)]
    refine ⟨fun _ => ?_, fun _ _ hi => absurd hi List.not_mem_nil⟩
    by_cases hsize : mem.size ≤ a.toNat
    · exact Or.inl hsize
    · right
      left
      rw [Accepted, not_and] at haccepted
      simpa using haccepted (by omega)

/-- A call that returns 0 has touched bytes of the memory only, and one that does not has
touched none. -/
def CallInside (mem : Memory) (c : MemoryCall) : Prop :=
  ((c.run mem).value = 0 → ∀ i ∈ (c.run mem).trace, i.toNat < mem.size) ∧
    ((c.run mem).value ≠ 0 → (c.run mem).trace = [])

theorem callInside_iff (mem : Memory) (c : MemoryCall) :
    CallInside mem c ↔ Bounded mem.size c.isRead c.width c.address := by
  have hrejected : (c.run mem).value ≠ 0 → (c.run mem).trace = [] := by
    intro h
    rw [c.run_trace, touched, if_neg h]
  rw [← touched_inside_iff, ← c.run_value, ← c.run_trace]
  constructor
  · intro h i hi
    by_cases hzero : (c.run mem).value = 0
    · exact h.1 hzero i hi
    · rw [hrejected hzero] at hi
      exact absurd hi List.not_mem_nil
  · exact fun h => ⟨fun _ => h, hrejected⟩

/-- The program's memory of 0x20000 bytes is left by a word read two bytes before its
end. -/
theorem readWord_past_end :
    let mem := memoryOfWords true 0x20000 []
    let o := (MemoryCall.readWord 0x1FFFE).run mem
    o.value = 0 ∧ (0x20000 : BitVec 32) ∈ o.trace ∧ ¬CallInside mem (.readWord 0x1FFFE) := by
  intro mem o
  have hzero : o.value = 0 :=
    (MemoryCall.run_value _ _).trans (accessResult_eq_zero.mpr ⟨by decide, by decide⟩)
  refine ⟨hzero, ?_, ?_⟩
  · rw [show o.trace = _ from MemoryCall.run_trace _ _, touched, if_pos hzero]
    show (0x20000 : BitVec 32) ∈ span 0x1FFFE 4
    rw [span_four]
    decide
  · rw [callInside_iff]
    decide

/-! ## Steps -/

/-- The bytes an event of the core has touched. -/
def Access.touched : Access → List (BitVec 32)
  | .memory _ size _ a result => ArmSimulator.touched size a result
  | _ => []

/-- The event that `arm_core.c` reports for a call. -/
def MemoryCall.accesses (p : Core) : MemoryCall → List Access
  | readByte a => (armReadByte a p).trace
  | readHalf a => (armReadHalf a p).trace
  | readWord a => (armReadWord a p).trace
  | writeByte a v => (armWriteByte a v p).trace
  | writeHalf a v => (armWriteHalf a v p).trace
  | writeWord a v => (armWriteWord a v p).trace

/-- The bytes an event stands for are those the call it reports has touched. -/
theorem MemoryCall.touched_accesses (c : MemoryCall) (p : Core) :
    (c.accesses p).flatMap Access.touched = (c.run p.mem).trace := by
  rw [c.run_trace, c.run_value]
  cases c with
  | readByte a =>
    rw [MemoryCall.accesses, armReadByte, armRead, resultCode_readByte]
    exact List.append_nil _
  | readHalf a =>
    rw [MemoryCall.accesses, armReadHalf, armRead, resultCode_readHalf]
    exact List.append_nil _
  | readWord a =>
    rw [MemoryCall.accesses, armReadWord, armRead, resultCode_readWord]
    exact List.append_nil _
  | writeByte a v =>
    rw [MemoryCall.accesses, armWriteByte, armWrite, resultCode_writeByte]
    exact List.append_nil _
  | writeHalf a v =>
    rw [MemoryCall.accesses, armWriteHalf, armWrite, resultCode_writeHalf]
    exact List.append_nil _
  | writeWord a v =>
    rw [MemoryCall.accesses, armWriteWord, armWrite, resultCode_writeWord]
    exact List.append_nil _

def AccessesInside (size : Nat) (trace : List Access) : Prop :=
  ∀ e ∈ trace, ∀ i ∈ e.touched, i.toNat < size

theorem accessesInside_memoryAccesses {size : Nat} {trace : List Access} :
    AccessesInside size (memoryAccesses trace) ↔ AccessesInside size trace := by
  constructor
  · intro h e he i hi
    cases hmemory : e.isMemory with
    | true => exact h e (List.mem_filter.mpr ⟨he, hmemory⟩) i hi
    | false =>
      cases e with
      | memory type size cause a result => cases hmemory
      | _ => exact absurd hi List.not_mem_nil
  · exact fun h e he => h e (List.mem_of_mem_filter he)

/-- The fetch and every transfer of the next step are bounded. -/
structure StepBounded (host : Host) (p : Core) : Prop where
  fetch : Bounded p.mem.size true 4 (fetchAddress p.reg)
  transfers : ∀ ins ∈ executed p, AccessesMemory ins →
    ∀ a ∈ transferAddresses host ins (afterFetch p),
      Bounded p.mem.size (getBit ins 20) (accessWidth ins) a

theorem dataAccess_inside_iff (mem : Memory) (isLoad : Bool) (width : Nat) (a : BitVec 32) :
    (∀ i ∈ (dataAccess mem isLoad width a).touched, i.toNat < mem.size) ↔
      Bounded mem.size isLoad width a :=
  touched_inside_iff mem isLoad width a

theorem fetch_inside_iff (p : Core) (cause : Cause) :
    (∀ i ∈ (Access.memory .read 4 cause (fetchAddress p.reg) (resultCode (fetched p))).touched,
      i.toNat < p.mem.size) ↔ Bounded p.mem.size true 4 (fetchAddress p.reg) := by
  rw [fetched, resultCode_readWord]
  exact touched_inside_iff p.mem true 4 _

/-- A step touches bytes of the memory only exactly when its fetch and its transfers are
bounded.  A block transfer goes on after a rejected word, so all its words count. -/
theorem armStep_inside_iff (host : Host) (locals : Locals) (p : Core) :
    AccessesInside p.mem.size (armStep host locals p).trace ↔ StepBounded host p := by
  rw [← accessesInside_memoryAccesses, armStep_accesses, AccessesInside, List.forall_mem_cons,
    fetch_inside_iff]
  constructor
  · rintro ⟨hfetch, hdata⟩
    refine ⟨hfetch, ?_⟩
    intro ins hins hmemory a ha
    rw [Option.mem_def.mp hins] at hdata
    have hmem : dataAccess p.mem (getBit ins 20) (accessWidth ins) a ∈
        dataAccesses host ins (afterFetch p) := by
      rw [dataAccesses, if_pos hmemory]
      exact List.mem_map_of_mem ha
    exact (dataAccess_inside_iff _ _ _ _).mp (hdata _ hmem)
  · rintro ⟨hfetch, hdata⟩
    refine ⟨hfetch, ?_⟩
    cases hins : executed p with
    | none => exact fun _ he => absurd he List.not_mem_nil
    | some ins =>
      intro e he
      simp only [dataAccesses] at he
      split_ifs at he with hmemory
      · obtain ⟨a, ha, rfl⟩ := List.mem_map.mp he
        exact (dataAccess_inside_iff p.mem _ _ _).mpr (hdata ins hins hmemory a ha)
      · exact absurd he List.not_mem_nil

theorem afterWrite_size {c : MemoryCall} {mem : Memory} {r : Except (BitVec 32) Memory}
    (h : (c.run mem).state = afterWrite mem r) : (afterWrite mem r).size = mem.size := by
  rw [← h, c.run_state]

section

variable (p : Core) (a : BitVec 32)

theorem armWriteByte_size (v : BitVec 8) : (armWriteByte a v p).state.mem.size = p.mem.size :=
  afterWrite_size (c := .writeByte a v) (Bytewise.memoryWriteByte_value p.mem a v).2

theorem armWriteHalf_size (v : BitVec 16) : (armWriteHalf a v p).state.mem.size = p.mem.size :=
  afterWrite_size (c := .writeHalf a v) (Bytewise.memoryWriteHalf_value p.mem a v).2

theorem armWriteWord_size (v : BitVec 32) : (armWriteWord a v p).state.mem.size = p.mem.size :=
  afterWrite_size (c := .writeWord a v) (Bytewise.memoryWriteWord_value p.mem a v).2

end

/-- The size of the memory never changes. -/
theorem size_respects (size : Nat) {A : Access → Prop} :
    RespectsExceptions (fun s t => s = t ∧ s.mem.size = size) A (fun _ => True)
      fun _ => True where
  countCycle := Sim.invariant fun _ h => ⟨h, trivial, fun _ _ => trivial⟩
  readRegister _ := Sim.invariant fun _ h => ⟨h, trivial, fun _ _ => trivial⟩
  readUsrRegister _ := Sim.invariant fun _ h => ⟨h, trivial, fun _ _ => trivial⟩
  readCpsr := Sim.invariant fun _ h => ⟨h, trivial, fun _ _ => trivial⟩
  readSpsr := by
    refine readSpsr_respects ?_
    rintro s _ ⟨rfl, h⟩
    exact ⟨rfl, fun _ => ⟨rfl, rfl, trivial, fun _ _ => trivial⟩⟩
  writeRegister _ _ := Sim.invariant fun _ h => ⟨h, trivial, fun _ _ => trivial⟩
  writeUsrRegister _ _ := Sim.invariant fun _ h => ⟨h, trivial, fun _ _ => trivial⟩
  writeCpsr _ := Sim.invariant fun _ h => ⟨h, trivial, fun _ _ => trivial⟩
  changeFlag _ _ _ _ := trivial
  readOpcode _ := Sim.invariant fun _ h => ⟨h, trivial, fun _ _ => trivial⟩
  readByte _ := Sim.invariant fun _ h => ⟨h, trivial, fun _ _ => trivial⟩
  readHalf _ := Sim.invariant fun _ h => ⟨h, trivial, fun _ _ => trivial⟩
  readWord _ := Sim.invariant fun _ h => ⟨h, trivial, fun _ _ => trivial⟩
  writeByte a v := Sim.invariant fun s h =>
    ⟨(armWriteByte_size s a v).trans h, trivial, fun _ _ => trivial⟩
  writeHalf a v := Sim.invariant fun s h =>
    ⟨(armWriteHalf_size s a v).trans h, trivial, fun _ _ => trivial⟩
  writeWord a v := Sim.invariant fun s h =>
    ⟨(armWriteWord_size s a v).trans h, trivial, fun _ _ => trivial⟩
  writeSpsr _ := Sim.invariant fun _ h => ⟨h, trivial, fun _ _ => trivial⟩
  resetCpsr := trivial
  exceptionCpsr _ _ := trivial

theorem armStep_size (host : Host) (locals : Locals) (p : Core) :
    (armStep host locals p).state.mem.size = p.mem.size := by
  obtain ⟨-, -, ⟨-, hsize⟩, -⟩ := armStep_respects (A := fun _ => True) (size_respects p.mem.size)
    host locals p p ⟨rfl, rfl⟩ fun _ _ => trivial
  exact hsize

/-! ## Commands -/

def GdbEvent.touched : GdbEvent → List (BitVec 32)
  | .core access => access.touched
  | .memory _ a result => ArmSimulator.touched 1 a result
  | _ => []

def EventsInside (size : Nat) (trace : List GdbEvent) : Prop :=
  ∀ e ∈ trace, ∀ i ∈ e.touched, i.toNat < size

theorem eventsInside_append {size : Nat} {t u : List GdbEvent} :
    EventsInside size (t ++ u) ↔ EventsInside size t ∧ EventsInside size u :=
  List.forall_mem_append

theorem eventsInside_core {size : Nat} {trace : List Access} :
    EventsInside size (trace.map .core) ↔ AccessesInside size trace :=
  List.forall_mem_map

namespace Gdb

/-- One byte is never half outside. -/
theorem bounded_byte (size : Nat) (isLoad : Bool) (a : BitVec 32) : Bounded size isLoad 1 a := by
  unfold Bounded
  omega

theorem keeps_of_event {α : Type} {size : Nat} {m : GdbM α}
    (hsize : ∀ g, (m g).state.arm.mem.size = g.arm.mem.size)
    (hevent : ∀ g, ∃ e, (m g).trace = [e] ∧ ∀ i ∈ e.touched, i.toNat < g.arm.mem.size) :
    Keeps (fun g => g.arm.mem.size = size) (fun e => ∀ i ∈ e.touched, i.toNat < size) m := by
  intro g hg
  obtain ⟨e, htrace, hin⟩ := hevent g
  refine ⟨(hsize g).trans hg, fun e' he' => ?_⟩
  rw [htrace, List.mem_singleton] at he'
  rw [he', ← hg]
  exact hin

/-- What a command may do without leaving the memory. -/
theorem inside_requestInvariant (size : Nat) :
    RequestInvariant (fun g => g.arm.mem.size = size)
      fun e => ∀ i ∈ e.touched, i.toNat < size where
  packet _ _ hg := hg
  len _ _ hg := hg
  write _ _ hi := absurd hi List.not_mem_nil
  read _ _ hi := absurd hi List.not_mem_nil
  request _ _ hi := absurd hi List.not_mem_nil
  killRequest _ _ _ := keeps_of_event (fun _ => rfl) fun _ =>
    ⟨_, rfl, fun _ hi => absurd hi List.not_mem_nil⟩
  armReadRegister _ := keeps_of_event (fun _ => rfl) fun _ =>
    ⟨_, rfl, fun _ hi => absurd hi List.not_mem_nil⟩
  armReadCpsr := keeps_of_event (fun _ => rfl) fun _ =>
    ⟨_, rfl, fun _ hi => absurd hi List.not_mem_nil⟩
  armWriteRegister _ _ := keeps_of_event (fun _ => rfl) fun _ =>
    ⟨_, rfl, fun _ hi => absurd hi List.not_mem_nil⟩
  armWriteCpsr _ := keeps_of_event (fun _ => rfl) fun _ =>
    ⟨_, rfl, fun _ hi => absurd hi List.not_mem_nil⟩
  readByte a _ := keeps_of_event (fun _ => rfl) fun g => by
    refine ⟨_, rfl, ?_⟩
    rw [GdbEvent.touched, resultCode_readByte]
    exact (touched_inside_iff g.arm.mem true 1 a).mpr (bounded_byte _ _ _)
  writeByte a v := keeps_of_event (fun g => writeByte_size a v g) fun g => by
    refine ⟨_, rfl, ?_⟩
    rw [GdbEvent.touched, resultCode_writeByte]
    exact (touched_inside_iff g.arm.mem false 1 a).mpr (bounded_byte _ _ _)

/-! ## Running the core -/

/-- What `instruction` holds after the read in anticipation. -/
def anticipated (instruction : BitVec 32) (p : Core) : BitVec 32 :=
  match fetched p with
  | .ok ins => ins
  | .error _ => instruction

theorem anticipate_apply (instruction : BitVec 32) (g : Gdb) :
    anticipate instruction g =
      { value := .ok (anticipated instruction g.arm), state := g,
        trace := [.core (.register .read (getMode g.arm.reg) 15),
          .core (.memory .read 4 .otherAccess (fetchAddress g.arm.reg)
            (resultCode (fetched g.arm)))] } := by
  have hpc : onArm (armReadRegister 15) g =
      { value := .ok (pcBias 15 (g.arm.reg 15)), state := g,
        trace := [.core (.register .read (getMode g.arm.reg) 15)] } := by
    rw [onArm, armReadRegister, ArmSimulator.readRegister, registerIndex_pc]
    rfl
  have hword : onArm (armReadWord (pcBias 15 (g.arm.reg 15) - 4)) g =
      { value := .ok (fetched g.arm), state := g,
        trace := [.core (.memory .read 4 .otherAccess (fetchAddress g.arm.reg)
          (resultCode (fetched g.arm)))] } := rfl
  rw [anticipate, Halting.bind_apply_ok (by rw [hpc]), hpc]
  simp only
  rw [Halting.bind_apply_ok (by rw [hword]), hword, anticipated]
  cases fetched g.arm with
  | ok ins => rfl
  | error code => rfl

/-- The loop of `cont` while it runs: each turn reads the next instruction in
anticipation, and steps the core unless that is a breakpoint. -/
def ContBounded (build : Build) : List Locals → BitVec 32 → Core → Prop
  | [], _, p => Bounded p.mem.size true 4 (fetchAddress p.reg)
  | locals :: rest, instruction, p =>
    Bounded p.mem.size true 4 (fetchAddress p.reg) ∧
      (isBreakpoint (anticipated instruction p) = false →
        StepBounded build.host p ∧
          ((armStep build.host locals p).value ≠ none →
            ContBounded build rest (anticipated instruction p) (armStep build.host locals p).state))

theorem anticipate_inside_iff (instruction : BitVec 32) (g : Gdb) :
    EventsInside g.arm.mem.size (anticipate instruction g).trace ↔
      Bounded g.arm.mem.size true 4 (fetchAddress g.arm.reg) := by
  rw [anticipate_apply, EventsInside, List.forall_mem_cons, List.forall_mem_singleton]
  refine Iff.trans ⟨And.right, fun h => ⟨?_, h⟩⟩ (fetch_inside_iff g.arm .otherAccess)
  exact fun _ hi => absurd hi List.not_mem_nil

/-- `arm_step` seen from the server. -/
theorem stepTarget_apply (build : Build) (locals : Locals) (g : Gdb) :
    (stepTarget build locals g).trace = (armStep build.host locals g.arm).trace.map .core ∧
      (stepTarget build locals g).state.arm = (armStep build.host locals g.arm).state ∧
      (stepTarget build locals g).value =
        if (armStep build.host locals g.arm).value = none then .error .exit else .ok () := by
  rw [stepTarget, Halting.bind_apply_ok rfl]
  cases h : (armStep build.host locals g.arm).value with
  | none => simp [h, onArm, halt]
  | some result => simp [h, onArm]

theorem stepTarget_inside_iff (build : Build) (locals : Locals) (g : Gdb) :
    EventsInside g.arm.mem.size (stepTarget build locals g).trace ↔
      StepBounded build.host g.arm := by
  rw [(stepTarget_apply build locals g).1, eventsInside_core, armStep_inside_iff]

theorem contLoop_inside_iff (build : Build) (steps : List Locals) (instruction : BitVec 32)
    (g : Gdb) :
    EventsInside g.arm.mem.size (contLoop build steps instruction g).trace ↔
      ContBounded build steps instruction g.arm := by
  have hvalue : ∀ instruction g,
      (anticipate instruction g).value = .ok (anticipated instruction g.arm) := by
    intro instruction g
    rw [anticipate_apply]
  have hstate : ∀ instruction g, (anticipate instruction g).state = g := by
    intro instruction g
    rw [anticipate_apply]
  induction steps generalizing instruction g with
  | nil =>
    have hnone : ((if isBreakpoint (anticipated instruction g.arm) then pure ()
        else halt .running : GdbM Unit) g).trace = [] := by
      split <;> rfl
    rw [contLoop, Halting.bind_apply_ok (hvalue instruction g), hstate]
    simp only [hnone, List.append_nil]
    exact anticipate_inside_iff instruction g
  | cons locals rest ih =>
    rw [contLoop, Halting.bind_apply_ok (hvalue instruction g), hstate, eventsInside_append,
      anticipate_inside_iff, ContBounded]
    apply and_congr_right
    intro _
    cases hbreak : isBreakpoint (anticipated instruction g.arm) with
    | true =>
      simp only [if_true, Bool.true_eq_false, false_implies, iff_true]
      exact fun _ he => absurd he List.not_mem_nil
    | false =>
      obtain ⟨-, harm, hreturn⟩ := stepTarget_apply build locals g
      simp only [Bool.false_eq_true, if_false, true_implies]
      by_cases hexit : (armStep build.host locals g.arm).value = none
      · rw [if_pos hexit] at hreturn
        rw [Halting.bind_apply_error hreturn, stepTarget_inside_iff]
        simp [hexit]
      · rw [if_neg hexit] at hreturn
        rw [Halting.bind_apply_ok hreturn, eventsInside_append, stepTarget_inside_iff]
        apply and_congr_right
        intro _
        have hrest := ih (anticipated instruction g.arm) (stepTarget build locals g).state
        rw [harm, armStep_size] at hrest
        exact hrest.trans ⟨fun h _ => h, fun h => h hexit⟩

/-! ## Requests -/

theorem eventsInside_stopReason (size : Nat) (g : Gdb) :
    EventsInside size (gdbSendStopReason g).trace := by
  have hreply : ReplyInvariant (fun _ => True)
      (fun e : GdbEvent => ∀ i ∈ e.touched, i.toNat < size) :=
    ⟨fun _ _ h => h, fun _ _ h => h, fun _ _ hi => absurd hi List.not_mem_nil⟩
  exact (keeps_gdbSendStopReason hreply g trivial).2

theorem eventsInside_bind {α β : Type} {size : Nat} {m : GdbM α} {f : α → GdbM β}
    (hf : ∀ a g, EventsInside size (f a g).trace) (g : Gdb) :
    EventsInside size ((m >>= f) g).trace ↔ EventsInside size (m g).trace := by
  cases h : (m g).value with
  | error w => rw [Halting.bind_apply_error h]
  | ok a =>
    rw [Halting.bind_apply_ok h, eventsInside_append]
    exact ⟨And.left, fun hm => ⟨hm, hf a _⟩⟩

/-- Where a packet makes the server touch bytes of the memory only: it does not get to a
handler, or it does not run the core, or what it runs is bounded. -/
structure CommandBounded (build : Build) (ctx : Context) (k : Packet) (g : Gdb) : Prop where
  step : ChecksumOk k → g.connected = true → k.payload.head? = some (chr 's') →
    ctx.steps ≠ [] → StepBounded build.host g.arm
  cont : ChecksumOk k → g.connected = true → k.payload.head? = some (chr 'c') →
    ContBounded build ctx.steps ctx.instruction g.arm

theorem step_inside_iff (build : Build) (ctx : Context) (data : List (BitVec 8)) (g : Gdb) :
    EventsInside g.arm.mem.size (step build ctx data g).trace ↔
      (ctx.steps ≠ [] → StepBounded build.host g.arm) := by
  rw [step, eventsInside_bind fun _ => eventsInside_stopReason _]
  cases ctx.steps with
  | nil => simp [stepOnce, halt, EventsInside]
  | cons locals rest => simp [stepOnce, stepTarget_inside_iff]

theorem cont_inside_iff (build : Build) (ctx : Context) (data : List (BitVec 8)) (g : Gdb) :
    EventsInside g.arm.mem.size (cont build ctx data g).trace ↔
      ContBounded build ctx.steps ctx.instruction g.arm := by
  rw [cont, eventsInside_bind fun _ => eventsInside_stopReason _, contLoop_inside_iff]

/-- Every command but `c` and `s` stays inside. -/
theorem answer_inside (build : Build) (ctx : Context) {s : List (BitVec 8)}
    (hcont : s.headD 0 ≠ chr 'c') (hstep : s.headD 0 ≠ chr 's') (g : Gdb) :
    EventsInside g.arm.mem.size (answer build ctx s g).trace := by
  have hinside := inside_requestInvariant g.arm.mem.size
  rw [answer]
  cases h : handler (s.headD 0) with
  | none => exact (keeps_gdbSendData hinside.toReplyInvariant [] g rfl).2
  | some handle =>
    obtain ⟨⟨index, handle⟩, hfind, rfl⟩ := Option.map_eq_some_iff.mp h
    have hindex : index = s.headD 0 := by simpa using List.find?_some hfind
    subst hindex
    exact (keeps_handler hinside build ctx _ (List.mem_of_find?_eq_some hfind) hcont hstep g rfl).2

theorem answer_inside_iff (build : Build) (ctx : Context) (k : Packet) (g : Gdb) :
    EventsInside g.arm.mem.size (answer build ctx (requestText ctx k) g).trace ↔
      (k.payload.head? = some (chr 's') → ctx.steps ≠ [] → StepBounded build.host g.arm) ∧
        (k.payload.head? = some (chr 'c') → ContBounded build ctx.steps ctx.instruction g.arm) := by
  cases hpayload : k.payload with
  | nil =>
    have hhead : (requestText ctx k).headD 0 = 0 := by
      rw [requestText, hpayload]
      rfl
    simp only [List.head?_nil, reduceCtorEq, false_implies, and_self, iff_true]
    exact answer_inside build ctx (by rw [hhead]; decide) (by rw [hhead]; decide) g
  | cons c rest =>
    have hhead : (requestText ctx k).headD 0 = c := by
      rw [requestText, hpayload]
      rfl
    rw [List.head?_cons, Option.some.injEq, Option.some.injEq]
    by_cases hs : c = chr 's'
    · have hanswer : answer build ctx (requestText ctx k) =
          step build ctx ((requestText ctx k).drop 1) := by
        rw [answer, hhead, hs]
        rfl
      rw [hanswer, step_inside_iff, hs]
      exact ⟨fun h => ⟨fun _ => h, fun h' => absurd h' (by decide)⟩, fun h => h.1 rfl⟩
    · by_cases hc : c = chr 'c'
      · have hanswer : answer build ctx (requestText ctx k) =
            cont build ctx ((requestText ctx k).drop 1) := by
          rw [answer, hhead, hc]
          rfl
        rw [hanswer, cont_inside_iff, hc]
        exact ⟨fun h => ⟨fun h' => absurd h' (by decide), fun _ => h⟩, fun h => h.2 rfl⟩
      · have hin := answer_inside build ctx (by rw [hhead]; exact hc) (by rw [hhead]; exact hs) g
        exact ⟨fun _ => ⟨fun h => absurd h hs, fun h => absurd h hc⟩, fun _ => hin⟩

theorem gdbPacketAnalysis_inside_iff (build : Build) (ctx : Context) (k : Packet) (g : Gdb) :
    EventsInside g.arm.mem.size (gdbPacketAnalysis build ctx k.text g).trace ↔
      CommandBounded build ctx k g := by
  have hquiet : ∀ e : GdbEvent, e.touched = [] → ∀ i ∈ e.touched, i.toNat < g.arm.mem.size := by
    intro e he i hi
    rw [he] at hi
    exact absurd hi List.not_mem_nil
  cases hopen : g.connected with
  | false =>
    rw [gdbPacketAnalysis_closed build ctx k hopen]
    refine ⟨fun _ => ⟨fun _ h => ?_, fun _ h => ?_⟩, fun _ _ he => absurd he List.not_mem_nil⟩
    · cases hopen.symm.trans h
    · cases hopen.symm.trans h
  | true =>
    by_cases hsum : ChecksumOk k
    · rw [gdbPacketAnalysis_accepted build ctx hopen hsum, EventsInside, List.forall_mem_cons,
        List.forall_mem_cons]
      have hanswer := answer_inside_iff build ctx k g
      constructor
      · rintro ⟨-, -, h⟩
        obtain ⟨hstep, hcont⟩ := hanswer.mp h
        exact ⟨fun _ _ => hstep, fun _ _ => hcont⟩
      · intro h
        exact ⟨hquiet _ rfl, hquiet _ rfl, hanswer.mpr ⟨h.step hsum hopen, h.cont hsum hopen⟩⟩
    · rw [gdbPacketAnalysis_rejected build ctx hopen hsum, EventsInside, List.forall_mem_singleton]
      exact ⟨fun _ => ⟨fun h => absurd h hsum, fun h => absurd h hsum⟩, fun _ => hquiet _ rfl⟩

end Gdb

/-- Calls, steps and commands touch bytes of the memory only exactly where none of their
accesses starts inside the memory and ends behind it. -/
theorem accesses_inside_iff (mem : Memory) (c : MemoryCall) (host : Host) (locals : Locals)
    (p : Core) (build : Build) (ctx : Context) (k : Packet) (g : Gdb) :
    (CallInside mem c ↔ Bounded mem.size c.isRead c.width c.address) ∧
      (AccessesInside p.mem.size (armStep host locals p).trace ↔ StepBounded host p) ∧
      (EventsInside g.arm.mem.size (Gdb.gdbPacketAnalysis build ctx k.text g).trace ↔
        Gdb.CommandBounded build ctx k g) :=
  ⟨callInside_iff mem c, armStep_inside_iff host locals p,
    Gdb.gdbPacketAnalysis_inside_iff build ctx k g⟩

end ArmSimulator
