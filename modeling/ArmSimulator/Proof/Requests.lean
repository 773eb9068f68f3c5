/-
Invariants of the gdb server.

Building and sending a reply touches the packet array, its length and the connection.
Beyond that a handler reads its request and reaches the core and the memory through a
few accessors.  An invariant that these keep is kept by every handler that does not step
the core.
-/
import ArmSimulator.Model.Gdb

namespace ArmSimulator

namespace Gdb

open Halting (Keeps)

/-! ## Replies -/

structure ReplyInvariant (I : Gdb → Prop) (G : GdbEvent → Prop) : Prop where
  packet : ∀ g packet, I g → I { g with packet := packet }
  len : ∀ g len, I g → I { g with len := len }
  write : ∀ bytes, G (.write bytes)

section

variable {I : Gdb → Prop} {G : GdbEvent → Prop} (h : ReplyInvariant I G)
include h

theorem keeps_rioWriten (bytes : List (BitVec 8)) : Keeps I G (rioWriten bytes) := by
  intro g hg
  rw [rioWriten]
  split_ifs
  · exact ⟨hg, fun _ he => absurd he List.not_mem_nil⟩
  · refine ⟨hg, fun e he => ?_⟩
    rw [List.mem_singleton.mp he]
    exact h.write bytes
  · exact ⟨hg, fun _ he => absurd he List.not_mem_nil⟩

theorem keeps_setPacket (i : Nat) (c : BitVec 8) : Keeps I G (setPacket i c) := by
  intro g hg
  rw [setPacket]
  split_ifs
  · exact ⟨h.packet g _ hg, fun _ he => absurd he List.not_mem_nil⟩
  · exact ⟨hg, fun _ he => absurd he List.not_mem_nil⟩

omit h in
theorem keeps_getPacket (i : Nat) : Keeps I G (getPacket i) := by
  intro g hg
  rw [getPacket]
  split_ifs
  · exact ⟨hg, fun _ he => absurd he List.not_mem_nil⟩
  · exact ⟨hg, fun _ he => absurd he List.not_mem_nil⟩

theorem keeps_putChars (i : Nat) (s : List (BitVec 8)) : Keeps I G (putChars i s) := by
  induction s generalizing i with
  | nil => exact Keeps.pure ()
  | cons c rest ih => exact Keeps.bind (keeps_setPacket h i c) fun _ => ih (i + 1)

theorem keeps_putString (i : Nat) (s : List (BitVec 8)) : Keeps I G (putString i s) :=
  keeps_putChars h i _

omit h in
theorem keeps_checkLoop (n i : Nat) (check : BitVec 8) : Keeps I G (checkLoop n i check) := by
  induction n generalizing i check with
  | zero => exact Keeps.halt _
  | succ n ih =>
    refine Keeps.bind (keeps_getPacket i) fun c => ?_
    exact Keeps.ite (fun _ => Keeps.pure _) fun _ => ih _ _

theorem keeps_gdbSendBuffer : Keeps I G gdbSendBuffer := by
  unfold gdbSendBuffer
  refine Keeps.bind (keeps_setPacket h _ _) fun _ => ?_
  refine Keeps.bind (keeps_checkLoop _ _ _) fun found => ?_
  refine Keeps.bind (keeps_setPacket h _ _) fun _ => ?_
  refine Keeps.bind (keeps_putString h _ _) fun _ => ?_
  refine Keeps.bind (keeps_setPacket h _ _) fun _ => ?_
  refine Keeps.bind (fun g hg => ⟨h.len g _ hg, fun _ he => absurd he List.not_mem_nil⟩) fun _ => ?_
  exact fun g hg => keeps_rioWriten h g.reply g hg

theorem keeps_gdbSendData (data : List (BitVec 8)) : Keeps I G (gdbSendData data) :=
  Keeps.bind (keeps_putString h _ _) fun _ => keeps_gdbSendBuffer h

theorem keeps_gdbSendStopReason : Keeps I G gdbSendStopReason :=
  fun g hg => keeps_gdbSendData h (stopReason g.targetException) g hg

end

/-- No reply touches the core or closes the connection. -/
theorem replyInvariant_of (I : Core → Bool → Prop) :
    ReplyInvariant (fun g => I g.arm g.connected) fun _ => True where
  packet _ _ hg := hg
  len _ _ hg := hg
  write _ := trivial

theorem gdbSendBuffer_state (g : Gdb) :
    (gdbSendBuffer g).state.arm = g.arm ∧ (gdbSendBuffer g).state.connected = g.connected := by
  have h := replyInvariant_of fun arm connected => arm = g.arm ∧ connected = g.connected
  exact (keeps_gdbSendBuffer h g ⟨rfl, rfl⟩).1

theorem gdbSendData_state (data : List (BitVec 8)) (g : Gdb) :
    (gdbSendData data g).state.arm = g.arm ∧
      (gdbSendData data g).state.connected = g.connected := by
  have h := replyInvariant_of fun arm connected => arm = g.arm ∧ connected = g.connected
  exact (keeps_gdbSendData h data g ⟨rfl, rfl⟩).1

/-! ## Accessors -/

theorem assertRegister_apply {reg : BitVec 32} {n : Fin 16} (h : reg.toNat = n) (g : Gdb) :
    assertRegister reg g = { value := .ok n, state := g, trace := [] } := by
  rw [assertRegister, dif_pos (by rw [h]; exact n.isLt)]
  simp only [h]
  rfl

/-- A byte is stored inside the memory, and rejected outside. -/
theorem writeByte_inside {a : BitVec 32} {g : Gdb} (h : a.toNat < g.arm.mem.size) (b : BitVec 8) :
    writeByte a b g =
      { value := .ok 0
        state :=
          { g with
            arm := { g.arm with mem := { g.arm.mem with m := Function.update g.arm.mem.m a b } } }
        trace := [.memory .write a 0] } := by
  have hvalid : isNotValidAddress g.arm.mem a = false := decide_eq_false (by omega)
  have hwrite : memoryWriteByte g.arm.mem a b =
      .ok { g.arm.mem with m := Function.update g.arm.mem.m a b } := by
    rw [memoryWriteByte, hvalid]
    rfl
  rw [writeByte, hwrite]
  rfl

theorem writeByte_outside {a : BitVec 32} {g : Gdb} (h : ¬a.toNat < g.arm.mem.size)
    (b : BitVec 8) :
    writeByte a b g =
      { value := .ok dataAbort, state := g, trace := [.memory .write a dataAbort] } := by
  have hvalid : isNotValidAddress g.arm.mem a = true := decide_eq_true (by omega)
  have hwrite : memoryWriteByte g.arm.mem a b = .error dataAbort := by
    rw [memoryWriteByte, hvalid]
    rfl
  rw [writeByte, hwrite]
  rfl

theorem writeByte_size (a : BitVec 32) (b : BitVec 8) (g : Gdb) :
    (writeByte a b g).state.arm.mem.size = g.arm.mem.size := by
  by_cases h : a.toNat < g.arm.mem.size
  · rw [writeByte_inside h]
  · rw [writeByte_outside h]

/-! ## Requests -/

structure RequestInvariant (I : Gdb → Prop) (G : GdbEvent → Prop) : Prop
    extends ReplyInvariant I G where
  read : ∀ offset, G (.read offset)
  request : ∀ s, G (.request s)
  killRequest (build : Build) (ctx : Context) (data : List (BitVec 8)) :
    Keeps I G (killRequest build ctx data)
  armReadRegister (reg : Fin 16) : Keeps I G (onArm (armReadRegister reg))
  armReadCpsr : Keeps I G (onArm armReadCpsr)
  armWriteRegister (reg : Fin 16) (value : BitVec 32) :
    Keeps I G (onArm (armWriteRegister reg value))
  armWriteCpsr (value : BitVec 32) : Keeps I G (onArm (armWriteCpsr value))
  readByte (address : BitVec 32) (value : BitVec 8) : Keeps I G (readByte address value)
  writeByte (address : BitVec 32) (value : BitVec 8) : Keeps I G (writeByte address value)

section

variable {I : Gdb → Prop} {G : GdbEvent → Prop} (h : RequestInvariant I G)
include h

theorem keeps_requestAt (data : List (BitVec 8)) (offset : Nat) :
    Keeps I G (requestAt data offset) := by
  refine fun g hg => ⟨hg, fun e he => ?_⟩
  rw [List.mem_singleton.mp he]
  exact h.read offset

theorem keeps_charAt (data : List (BitVec 8)) (p : Option Nat) : Keeps I G (charAt data p) := by
  refine Keeps.bind ?_ fun _ => Keeps.pure _
  cases p with
  | none => exact Keeps.halt _
  | some offset => exact keeps_requestAt h data offset

theorem keeps_readUint32At (build : Build) (ctx : Context) (data : List (BitVec 8))
    (offset : Nat) : Keeps I G (readUint32At build ctx data offset) := by
  refine fun g hg => ⟨hg, fun e he => ?_⟩
  simp only [readUint32At, List.mem_cons, List.not_mem_nil, or_false] at he
  rcases he with rfl | rfl | rfl | rfl <;> exact h.read _

omit h in
/-- What is made of a value of the core adds nothing to the access. -/
theorem keeps_onArm_map {α β : Type} {m : Arm α} (hm : Keeps I G (onArm m)) (f : α → β) :
    Keeps I G (onArm (do let a ← m; pure (f a))) := by
  intro g hg
  have hmap : (onArm (do let a ← m; pure (f a)) g).trace = (onArm m g).trace := by
    simp only [onArm, Traced.bind_trace, Traced.pure_apply, List.append_nil]
  rw [hmap]
  exact hm g hg

theorem keeps_putFields {fields : List (Arm (List (BitVec 8)))}
    (hfields : ∀ field ∈ fields, Keeps I G (onArm field)) (position : Nat) :
    Keeps I G (putFields position fields) := by
  induction fields generalizing position with
  | nil => exact Keeps.pure ()
  | cons field rest ih =>
    refine Keeps.bind (hfields field List.mem_cons_self) fun s => ?_
    refine Keeps.bind (keeps_putString h.toReplyInvariant _ _) fun _ => ?_
    exact ih (fun field hfield => hfields field (List.mem_cons_of_mem _ hfield)) _

theorem keeps_dumpLoop (size position : Nat) (address : BitVec 32) (value : BitVec 8) :
    Keeps I G (dumpLoop size position address value) := by
  induction size generalizing position address value with
  | zero => exact Keeps.pure ()
  | succ size ih =>
    refine Keeps.bind (h.readByte _ _) fun result => Keeps.ite (fun _ => Keeps.pure ()) fun _ => ?_
    exact Keeps.bind (keeps_putString h.toReplyInvariant _ _) fun _ => ih _ _ _

omit h in
theorem keeps_assertRegister (reg : BitVec 32) : Keeps I G (assertRegister reg) := by
  unfold assertRegister
  split
  · exact Keeps.pure _
  · exact Keeps.halt _

theorem keeps_writeRegisters (build : Build) (ctx : Context) (data : List (BitVec 8))
    (regs : List (Fin 16)) (position : Nat) :
    Keeps I G (writeRegisters build ctx data regs position) := by
  induction regs generalizing position with
  | nil => exact Keeps.pure ()
  | cons reg rest ih =>
    refine Keeps.bind (keeps_readUint32At h build ctx data _) fun _ => ?_
    exact Keeps.bind (h.armWriteRegister _ _) fun _ => ih _

theorem keeps_skipWords (build : Build) (ctx : Context) (data : List (BitVec 8))
    (n position : Nat) : Keeps I G (skipWords build ctx data n position) := by
  induction n generalizing position with
  | zero => exact Keeps.pure ()
  | succ n ih => exact Keeps.bind (keeps_readUint32At h build ctx data _) fun _ => ih _

theorem keeps_storeLoop (data : List (BitVec 8)) (size : Nat) (content : Option Nat)
    (address : BitVec 32) : Keeps I G (storeLoop data size content address) := by
  induction size generalizing content address with
  | zero => exact Keeps.pure true
  | succ size ih =>
    refine Keeps.bind (keeps_charAt h data content) fun c => ?_
    refine Keeps.bind (Keeps.ite (fun _ => ?_) fun _ => keeps_charAt h data _) fun value => ?_
    · exact Keeps.bind (keeps_charAt h data _) fun _ => Keeps.pure _
    · exact Keeps.bind (h.writeByte _ _) fun _ =>
        Keeps.ite (fun _ => ih _ _) fun _ => Keeps.pure false

/-! ## Handlers -/

section

variable (build : Build) (ctx : Context) (data : List (BitVec 8))

theorem keeps_query : Keeps I G (query build ctx data) := by
  have hsend := keeps_gdbSendData h.toReplyInvariant
  unfold query
  refine Keeps.bind (keeps_requestAt h data _) fun _ => Keeps.ite (fun _ => hsend _) fun _ => ?_
  refine Keeps.ite (fun _ => hsend _) fun _ => ?_
  exact Keeps.ite (fun _ => hsend _) fun _ => hsend _

theorem keeps_readGeneralRegisters : Keeps I G (readGeneralRegisters build ctx data) := by
  refine Keeps.bind (keeps_putFields h ?_ _) fun _ => keeps_gdbSendBuffer h.toReplyInvariant
  intro field hfield
  simp only [dumpFields, List.mem_append, List.mem_map, List.mem_cons, List.mem_replicate,
    List.not_mem_nil, or_false] at hfield
  rcases hfield with (⟨i, -, rfl⟩ | rfl | ⟨-, rfl⟩) | rfl
  · exact keeps_onArm_map (h.armReadRegister i) _
  · exact keeps_onArm_map (h.armReadRegister 15) _
  · exact fun g hg => ⟨hg, fun _ he => absurd he List.not_mem_nil⟩
  · exact keeps_onArm_map h.armReadCpsr _

theorem keeps_readMemory : Keeps I G (readMemory build ctx data) := by
  have hr := h.toReplyInvariant
  unfold readMemory
  refine Keeps.bind (keeps_requestAt h data _) fun _ => ?_
  refine Keeps.bind (keeps_setPacket hr _ _) fun _ => ?_
  exact Keeps.bind (keeps_dumpLoop h _ _ _ _) fun _ => keeps_gdbSendBuffer hr

theorem keeps_readRegister : Keeps I G (readRegister build ctx data) := by
  have hr := h.toReplyInvariant
  unfold readRegister
  refine Keeps.bind (keeps_requestAt h data _) fun _ => ?_
  refine Keeps.bind (keeps_assertRegister _) fun _ => ?_
  refine Keeps.bind (h.armReadRegister _) fun _ => ?_
  exact Keeps.bind (keeps_putString hr _ _) fun _ => keeps_gdbSendBuffer hr

theorem keeps_setThread : Keeps I G (setThread build ctx data) := by
  have hsend := keeps_gdbSendData h.toReplyInvariant
  unfold setThread
  refine Keeps.bind (keeps_charAt h data _) fun _ => ?_
  refine Keeps.bind (keeps_requestAt h data _) fun _ => ?_
  exact Keeps.ite (fun _ => hsend _) fun _ => hsend _

theorem keeps_writeGeneralRegisters : Keeps I G (writeGeneralRegisters build ctx data) := by
  unfold writeGeneralRegisters
  refine Keeps.bind (keeps_writeRegisters h build ctx data _ _) fun _ => ?_
  refine Keeps.bind (keeps_skipWords h build ctx data _ _) fun _ => ?_
  refine Keeps.bind (keeps_readUint32At h build ctx data _) fun _ => ?_
  exact Keeps.bind (h.armWriteCpsr _) fun _ => keeps_gdbSendData h.toReplyInvariant _

theorem keeps_writeMemoryBinary : Keeps I G (writeMemoryBinary build ctx data) := by
  have hsend := keeps_gdbSendData h.toReplyInvariant
  unfold writeMemoryBinary
  refine Keeps.bind (keeps_requestAt h data _) fun _ => ?_
  refine Keeps.bind (fun g hg => ⟨hg, fun _ he => absurd he List.not_mem_nil⟩) fun _ => ?_
  refine Keeps.bind (Keeps.ite (fun _ => keeps_storeLoop h data _ _ _)
    fun _ => Keeps.pure false) fun _ => ?_
  exact Keeps.ite (fun _ => hsend _) fun _ => hsend _

theorem keeps_writeRegister : Keeps I G (writeRegister build ctx data) := by
  unfold writeRegister
  refine Keeps.bind (keeps_requestAt h data _) fun _ => ?_
  refine Keeps.bind ?_ fun _ => ?_
  · split
    · exact Keeps.halt _
    · exact keeps_readUint32At h build ctx data _
  · refine Keeps.bind (keeps_assertRegister _) fun _ => ?_
    exact Keeps.bind (h.armWriteRegister _ _) fun _ => keeps_gdbSendData h.toReplyInvariant _

/-- The handlers that do not step the core. -/
theorem keeps_handler {index : BitVec 8}
    {handle : Build → Context → List (BitVec 8) → GdbM Unit} (hentry : (index, handle) ∈ handlers)
    (hcont : index ≠ chr 'c') (hstep : index ≠ chr 's') : Keeps I G (handle build ctx data) := by
  simp only [handlers, List.mem_cons, Prod.mk.injEq, List.not_mem_nil, or_false] at hentry
  rcases hentry with ⟨rfl, rfl⟩ | ⟨rfl, rfl⟩ | ⟨rfl, rfl⟩ | ⟨rfl, rfl⟩ | ⟨rfl, rfl⟩ | ⟨rfl, rfl⟩ |
    ⟨rfl, rfl⟩ | ⟨rfl, rfl⟩ | ⟨rfl, rfl⟩ | ⟨rfl, rfl⟩ | ⟨rfl, rfl⟩ | ⟨rfl, rfl⟩
  · exact absurd rfl hcont
  · exact h.killRequest build ctx data
  · exact keeps_query h build ctx data
  · exact keeps_readGeneralRegisters h build ctx data
  · exact keeps_readMemory h build ctx data
  · exact keeps_readRegister h build ctx data
  · exact keeps_gdbSendStopReason h.toReplyInvariant
  · exact keeps_setThread h build ctx data
  · exact absurd rfl hstep
  · exact keeps_writeGeneralRegisters h build ctx data
  · exact keeps_writeMemoryBinary h build ctx data
  · exact keeps_writeRegister h build ctx data

end

end

end Gdb

end ArmSimulator
