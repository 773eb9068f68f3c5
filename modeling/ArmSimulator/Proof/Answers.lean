/-
What the server writes.

A handler builds its reply in the packet array and writes nothing before the reply is
complete: when it returns it has written one packet, which the array then holds, and
when it does not it has written nothing.  The payloads are digits and a few words, so
that no framing character ever stands in one.
-/
import ArmSimulator.Model.Threads
import ArmSimulator.Proof.Commands

namespace ArmSimulator

namespace Gdb

/-! ## Computations that write nothing -/

def Mute {α : Type} (m : GdbM α) : Prop := ∀ g, output (m g).trace = []

section

variable {α β : Type}

theorem Mute.pure (a : α) : Mute (Pure.pure a : GdbM α) := fun _ => rfl

theorem Mute.halt (w : Stop) : Mute (Halting.halt w : GdbM α) := fun _ => rfl

theorem Mute.bind {m : GdbM α} {f : α → GdbM β} (hm : Mute m) (hf : ∀ a, Mute (f a)) :
    Mute (m >>= f) := by
  intro g
  cases h : (m g).value with
  | error w =>
    rw [Halting.bind_apply_error h]
    exact hm g
  | ok a =>
    rw [Halting.bind_apply_ok h]
    simp only [output_append, hm g, hf a (m g).state, List.append_nil]

theorem Mute.ite {c : Prop} [Decidable c] {m n : GdbM α} (hm : Mute m) (hn : Mute n) :
    Mute (if c then m else n) := by
  by_cases hc : c
  · rw [if_pos hc]
    exact hm
  · rw [if_neg hc]
    exact hn

theorem mute_setPacket (i : Nat) (c : BitVec 8) : Mute (setPacket i c) := by
  intro g
  rw [setPacket]
  split_ifs <;> rfl

theorem mute_getPacket (i : Nat) : Mute (getPacket i) := by
  intro g
  rw [getPacket]
  split_ifs <;> rfl

theorem mute_putChars (i : Nat) (s : List (BitVec 8)) : Mute (putChars i s) := by
  induction s generalizing i with
  | nil => exact Mute.pure ()
  | cons c rest ih => exact Mute.bind (mute_setPacket i c) fun _ => ih (i + 1)

theorem mute_checkLoop (n i : Nat) (check : BitVec 8) : Mute (checkLoop n i check) := by
  induction n generalizing i check with
  | zero => exact Mute.halt _
  | succ n ih => exact Mute.bind (mute_getPacket i) fun _ => Mute.ite (Mute.pure _) (ih _ _)

theorem mute_onArm (m : Arm α) : Mute (onArm m) := fun g => output_core (m g.arm).trace

theorem mute_stepTarget (build : Build) (locals : Locals) : Mute (stepTarget build locals) := by
  refine Mute.bind (mute_onArm _) fun result => ?_
  cases result with
  | none => exact Mute.halt _
  | some result => exact fun _ => rfl

theorem mute_contLoop (build : Build) (steps : List Locals) (instruction : BitVec 32) :
    Mute (contLoop build steps instruction) := by
  have hanticipate : ∀ instruction, Mute (anticipate instruction) := by
    intro instruction
    refine Mute.bind (mute_onArm _) fun pc => Mute.bind (mute_onArm _) fun result => ?_
    cases result with
    | ok ins => exact Mute.pure _
    | error code => exact Mute.pure _
  induction steps generalizing instruction with
  | nil =>
    exact Mute.bind (hanticipate _) fun _ => Mute.ite (Mute.pure ()) (Mute.halt _)
  | cons locals rest ih =>
    refine Mute.bind (hanticipate _) fun _ => Mute.ite (Mute.pure ()) ?_
    exact Mute.bind (mute_stepTarget build locals) fun _ => ih _

theorem mute_putFields (position : Nat) (fields : List (Arm (List (BitVec 8)))) :
    Mute (putFields position fields) := by
  induction fields generalizing position with
  | nil => exact Mute.pure ()
  | cons field rest ih =>
    exact Mute.bind (mute_onArm _) fun _ => Mute.bind (mute_putChars _ _) fun _ => ih _

theorem mute_dumpLoop (size position : Nat) (address : BitVec 32) (value : BitVec 8) :
    Mute (dumpLoop size position address value) := by
  induction size generalizing position address value with
  | zero => exact Mute.pure ()
  | succ size ih =>
    refine Mute.bind (fun _ => rfl) fun result => Mute.ite (Mute.pure ()) ?_
    exact Mute.bind (mute_putChars _ _) fun _ => ih _ _ _

theorem mute_charAt (data : List (BitVec 8)) (p : Option Nat) : Mute (charAt data p) := by
  refine Mute.bind ?_ fun _ => Mute.pure _
  cases p with
  | none => exact Mute.halt _
  | some offset => exact fun _ => rfl

theorem mute_assertRegister (reg : BitVec 32) : Mute (assertRegister reg) := by
  unfold assertRegister
  split
  · exact Mute.pure _
  · exact Mute.halt _

section

variable (build : Build) (ctx : Context) (data : List (BitVec 8))

theorem mute_writeRegisters (regs : List (Fin 16)) (position : Nat) :
    Mute (writeRegisters build ctx data regs position) := by
  induction regs generalizing position with
  | nil => exact Mute.pure ()
  | cons reg rest ih =>
    exact Mute.bind (fun _ => rfl) fun _ => Mute.bind (mute_onArm _) fun _ => ih _

theorem mute_skipWords (n position : Nat) : Mute (skipWords build ctx data n position) := by
  induction n generalizing position with
  | zero => exact Mute.pure ()
  | succ n ih => exact Mute.bind (fun _ => rfl) fun _ => ih _

theorem mute_storeLoop (size : Nat) (content : Option Nat) (address : BitVec 32) :
    Mute (storeLoop data size content address) := by
  induction size generalizing content address with
  | zero => exact Mute.pure true
  | succ size ih =>
    refine Mute.bind (mute_charAt data content) fun c => ?_
    refine Mute.bind (Mute.ite ?_ (mute_charAt data _)) fun value => ?_
    · exact Mute.bind (mute_charAt data _) fun _ => Mute.pure _
    · exact Mute.bind (fun _ => rfl) fun _ => Mute.ite (ih _ _) (Mute.pure false)

end

end

/-! ## Answers -/

/-- A payload that can be framed. -/
def Payload (s : List (BitVec 8)) : Prop := ∀ c ∈ s, c ≠ 0 ∧ c ≠ chr '$' ∧ c ≠ chr '#'

instance (s : List (BitVec 8)) : Decidable (Payload s) := List.decidableBAll _ _

/-- One packet is written when the handler returns, and nothing when it does not. -/
structure Answered (o : Outcome GdbEvent Gdb (Except Stop Unit)) : Prop where
  silent : ∀ w, o.value = .error w → output o.trace = []
  sent : o.value = .ok () →
    ∃ s, Payload s ∧ output o.trace = [frame s] ∧ o.state.reply = frame s

theorem answered_bind {α : Type} {m : GdbM α} {f : α → GdbM Unit} {g : Gdb} (hm : Mute m)
    (hf : ∀ a, (m g).value = .ok a → Answered (f a (m g).state)) : Answered ((m >>= f) g) := by
  cases h : (m g).value with
  | error w =>
    rw [Halting.bind_apply_error h]
    exact ⟨fun _ _ => hm g, fun hok => by cases hok⟩
  | ok a =>
    obtain ⟨hsilent, hsent⟩ := hf a h
    rw [Halting.bind_apply_ok h]
    refine ⟨fun w hw => ?_, fun hok => ?_⟩
    · rw [output_append, hm g, hsilent w hw, List.append_nil]
    · obtain ⟨s, hs, hwritten, hreply⟩ := hsent hok
      exact ⟨s, hs, by rw [output_append, hm g, hwritten, List.nil_append], hreply⟩

theorem Answered.ite {c : Prop} [Decidable c] {m n : GdbM Unit} {g : Gdb} (hm : Answered (m g))
    (hn : Answered (n g)) : Answered ((if c then m else n : GdbM Unit) g) := by
  by_cases hc : c
  · rw [if_pos hc]
    exact hm
  · rw [if_neg hc]
    exact hn

/-! ## Sending -/

/-- Nothing is written when the computation does not return. -/
def SilentStop (m : GdbM Unit) : Prop :=
  ∀ g w, (m g).value = .error w → output (m g).trace = []

theorem SilentStop.bind {α : Type} {m : GdbM α} {f : α → GdbM Unit} (hm : Mute m)
    (hf : ∀ a, SilentStop (f a)) : SilentStop (m >>= f) := by
  intro g w hw
  cases h : (m g).value with
  | error w' =>
    rw [Halting.bind_apply_error h]
    exact hm g
  | ok a =>
    rw [Halting.bind_apply_ok h] at hw ⊢
    rw [output_append, hm g, hf a _ w hw, List.append_nil]

theorem silentStop_gdbTransmitPacket : SilentStop gdbTransmitPacket := by
  intro g w hw
  rw [gdbTransmitPacket, rioWriten] at hw ⊢
  split_ifs at hw ⊢
  rfl

theorem silentStop_gdbSendBuffer : SilentStop gdbSendBuffer := by
  refine SilentStop.bind (mute_setPacket _ _) fun _ => ?_
  refine SilentStop.bind (mute_checkLoop _ _ _) fun found => ?_
  refine SilentStop.bind (mute_setPacket _ _) fun _ => ?_
  refine SilentStop.bind (mute_putChars _ _) fun _ => ?_
  refine SilentStop.bind (mute_setPacket _ _) fun _ => ?_
  exact SilentStop.bind (fun _ => rfl) fun _ => silentStop_gdbTransmitPacket

/-- A string too long for its frame is not sent. -/
theorem gdbSendBuffer_too_long {g : Gdb} {s : List (BitVec 8)} (hstring : StringAt g.packet 1 s)
    (hs : s.length ≤ 1022) (hlong : ¬s.length ≤ 1019) : (gdbSendBuffer g).value = .error .overflow := by
  have hall : CommandAllowance (fun w => w ≠ .overflow) fun _ => True :=
    ⟨by decide, by decide, fun _ => trivial, trivial, fun _ => trivial, fun _ _ _ => trivial,
      fun _ => trivial⟩
  have hnot := (allowed_gdbSendBuffer_iff hall hstring hs).not.mpr (by simp [hlong])
  by_contra hvalue
  refine hnot ⟨fun w hw hover => ?_, fun _ _ => trivial⟩
  rw [hover] at hw
  exact hvalue hw

/-- `gdb_send_buffer` writes the frame of its string or nothing. -/
theorem answered_gdbSendBuffer {g : Gdb} {s : List (BitVec 8)} (hstring : StringAt g.packet 1 s)
    (hs : s.length ≤ 1022) (hpayload : Payload s) : Answered (gdbSendBuffer g) := by
  refine ⟨silentStop_gdbSendBuffer g, fun hok => ⟨s, hpayload, ?_⟩⟩
  by_cases hlength : s.length ≤ 1019
  · have hne : frame s ≠ [] := List.cons_ne_nil _ _
    obtain ⟨hsend, hreply⟩ := gdbSendBuffer_of_string hstring hlength
    rw [hsend, gdbTransmitPacket, hreply] at hok
    rw [hsend, gdbTransmitPacket, hreply, rioWriten_apply hne (rioWriten_ok hne hok)]
    exact ⟨rfl, hreply⟩
  · rw [gdbSendBuffer_too_long hstring hs hlength] at hok
    cases hok

theorem answered_gdbSendData {s : List (BitVec 8)} (hlength : s.length ≤ 1019) (hs : Payload s)
    (g : Gdb) : Answered (gdbSendData s g) := by
  have hfit : 1 + s.length < maxPacketSize := by
    unfold maxPacketSize
    omega
  have hstate : (putString 1 s g).state =
      { g with packet := overwrite g.packet 1 (s ++ [0]) } := by
    rw [putString_apply hfit]
  obtain ⟨hchars, hnul⟩ := overwrite_text g.packet 1 s
  refine answered_bind (mute_putChars _ _) fun _ _ => ?_
  rw [hstate]
  exact answered_gdbSendBuffer ⟨hchars, hnul, fun c hc => (hs c hc).1⟩ (by omega) hs

theorem answered_gdbSendStopReason (g : Gdb) : Answered (gdbSendStopReason g) := by
  refine answered_gdbSendData (stopReason_plain g.targetException).1 ?_ g
  unfold stopReason
  split_ifs <;> decide

/-! ## Handlers -/

theorem payload_ofByte (b : BitVec 8) : Payload (Hex.ofByte b) := by
  intro c hc
  have hb := b.isLt
  rw [Hex.ofByte, List.mem_cons, List.mem_singleton] at hc
  rcases hc with rfl | rfl
  · exact isDigit_plain (Hex.isDigit_digit (by omega))
  · exact isDigit_plain (Hex.isDigit_digit (by omega))

theorem payload_flatMap {α : Type} {xs : List α} {f : α → List (BitVec 8)}
    (h : ∀ x ∈ xs, Payload (f x)) : Payload (xs.flatMap f) := by
  intro c hc
  obtain ⟨x, hx, hcx⟩ := List.mem_flatMap.mp hc
  exact h x hx c hcx

theorem payload_writeUint32 (build : Build) (value : BitVec 32) :
    Payload (writeUint32 build value) :=
  payload_flatMap fun _ _ => payload_ofByte _

theorem payload_registerDump (build : Build) (p : Core) : Payload (registerDump build p) := by
  intro c hc
  obtain ⟨t, ht, hct⟩ := List.mem_flatten.mp hc
  obtain ⟨field, hfield, rfl⟩ := List.mem_map.mp ht
  simp only [dumpFields, List.mem_append, List.mem_map, List.mem_cons, List.mem_replicate,
    List.not_mem_nil, or_false] at hfield
  have hx : Payload (text ['x', 'x', 'x', 'x', 'x', 'x', 'x', 'x']) := by
    decide
  rcases hfield with (⟨i, -, rfl⟩ | rfl | ⟨-, rfl⟩) | rfl
  · exact payload_writeUint32 build _ c hct
  · exact payload_writeUint32 build _ c hct
  · exact hx c hct
  · exact payload_writeUint32 build _ c hct

/-- A dump of which every byte has found room in the array. -/
theorem answered_dump (size : Nat) (a : BitVec 32) (value : BitVec 8) {g : Gdb}
    (hempty : g.packet 1 = 0) :
    Answered ((dumpLoop size 1 a value >>= fun _ => gdbSendBuffer) g) := by
  refine answered_bind (mute_dumpLoop _ _ _ _) fun _ hok => ?_
  have hfit : 1 + 2 * size < maxPacketSize := by
    by_contra hfit
    rw [dumpLoop_overflow (by decide) hfit] at hok
    cases hok
  obtain ⟨packet, -, hstate, hstring⟩ := dumpLoop_string hfit a value hempty
  rw [hstate]
  refine answered_gdbSendBuffer hstring ?_ (payload_flatMap fun _ _ => payload_ofByte _)
  rw [length_flatMap_ofByte, length_dumpBytes]
  unfold maxPacketSize at hfit
  omega

section

variable (build : Build) (ctx : Context) (data : List (BitVec 8)) (g : Gdb)

theorem answered_cont : Answered (cont build ctx data g) :=
  answered_bind (mute_contLoop _ _ _) fun _ _ => answered_gdbSendStopReason _

theorem answered_step : Answered (step build ctx data g) := by
  refine answered_bind ?_ fun _ _ => answered_gdbSendStopReason _
  cases ctx.steps with
  | nil => exact Mute.halt _
  | cons locals rest => exact mute_stepTarget build locals

theorem answered_query : Answered (query build ctx data g) := by
  have hsend : ∀ s g, s.length ≤ 1019 ∧ Payload s → Answered (gdbSendData s g) :=
    fun s g hs => answered_gdbSendData hs.1 hs.2 g
  refine answered_bind (fun _ => rfl) fun s _ => ?_
  refine Answered.ite (hsend _ _ (by decide)) (Answered.ite (hsend _ _ (by decide)) ?_)
  exact Answered.ite (hsend _ _ (by decide)) (hsend _ _ (by decide))

theorem answered_readGeneralRegisters : Answered (readGeneralRegisters build ctx data g) := by
  obtain ⟨packet, -, hstate, hstring⟩ := putFields_dumpFields build g
  refine answered_bind (mute_putFields _ _) fun _ _ => ?_
  rw [hstate]
  refine answered_gdbSendBuffer hstring ?_ (payload_registerDump build g.arm)
  rw [length_registerDump]
  decide

theorem answered_setThread : Answered (setThread build ctx data g) := by
  refine answered_bind (mute_charAt _ _) fun type _ => ?_
  refine answered_bind (fun _ => rfl) fun s _ => ?_
  exact Answered.ite (answered_gdbSendData (by decide) (by decide) _)
    (answered_gdbSendData (by decide) (by decide) _)

theorem answered_writeGeneralRegisters : Answered (writeGeneralRegisters build ctx data g) := by
  refine answered_bind (mute_writeRegisters _ _ _ _ _) fun _ _ => ?_
  refine answered_bind (mute_skipWords _ _ _ _ _) fun _ _ => ?_
  refine answered_bind (fun _ => rfl) fun value _ => answered_bind (mute_onArm _) fun _ _ => ?_
  exact answered_gdbSendData (by decide) (by decide) _

theorem answered_writeMemoryBinary : Answered (writeMemoryBinary build ctx data g) := by
  unfold writeMemoryBinary
  refine answered_bind (fun _ => rfl) fun s _ => answered_bind (fun _ => rfl) fun size _ => ?_
  refine answered_bind (Mute.ite (mute_storeLoop _ _ _ _) (Mute.pure false)) fun stored _ => ?_
  exact Answered.ite (answered_gdbSendData (by decide) (by decide) _)
    (answered_gdbSendData (by decide) (by decide) _)

theorem answered_writeRegister : Answered (writeRegister build ctx data g) := by
  unfold writeRegister
  refine answered_bind (fun _ => rfl) fun s _ => answered_bind ?_ fun value _ => ?_
  · split
    · exact Mute.halt _
    · exact fun _ => rfl
  · refine answered_bind (mute_assertRegister _) fun reg _ => ?_
    refine answered_bind (mute_onArm _) fun _ _ => ?_
    exact answered_gdbSendData (by decide) (by decide) _

theorem answered_readRegister : Answered (readRegister build ctx data g) := by
  unfold readRegister
  refine answered_bind (fun _ => rfl) fun s _ => ?_
  refine answered_bind (mute_assertRegister _) fun reg _ => ?_
  refine answered_bind (mute_onArm _) fun value _ => ?_
  refine answered_gdbSendData ?_ (payload_writeUint32 build _) _
  rw [length_writeUint32]
  decide

theorem answered_readMemory : Answered (readMemory build ctx data g) := by
  have hempty : (setPacket 1 0 g).state.packet 1 = 0 := by
    rw [setPacket_apply (by decide)]
    exact Function.update_self 1 0 g.packet
  refine answered_bind (fun _ => rfl) fun s _ => ?_
  exact answered_bind (mute_setPacket _ _) fun _ _ => answered_dump _ _ _ hempty

/-- The handlers, but for the one that shuts the connection down. -/
theorem answered_answer {s : List (BitVec 8)} (hs : s.headD 0 ≠ chr 'k') :
    Answered (answer build ctx s g) := by
  unfold answer
  cases h : handler (s.headD 0) with
  | none => exact answered_gdbSendData (by decide) (by decide) g
  | some handle =>
    obtain ⟨entry, hentry, rfl⟩ := Option.map_eq_some_iff.mp h
    have hindex : entry.1 = s.headD 0 := by
      simpa using List.find?_some hentry
    have hmem := List.mem_of_find?_eq_some hentry
    simp only [handlers, List.mem_cons, List.not_mem_nil, or_false] at hmem
    rcases hmem with rfl | rfl | rfl | rfl | rfl | rfl | rfl | rfl | rfl | rfl | rfl | rfl
    · exact answered_cont build ctx (s.drop 1) g
    · exact absurd hindex.symm hs
    · exact answered_query build ctx (s.drop 1) g
    · exact answered_readGeneralRegisters build ctx (s.drop 1) g
    · exact answered_readMemory build ctx (s.drop 1) g
    · exact answered_readRegister build ctx (s.drop 1) g
    · exact answered_gdbSendStopReason g
    · exact answered_setThread build ctx (s.drop 1) g
    · exact answered_step build ctx (s.drop 1) g
    · exact answered_writeGeneralRegisters build ctx (s.drop 1) g
    · exact answered_writeMemoryBinary build ctx (s.drop 1) g
    · exact answered_writeRegister build ctx (s.drop 1) g

end

end Gdb

end ArmSimulator
