/-
How commands end.

The server stops short of a reply where an assertion fails, where the result of a failed
search is followed, and where an index leaves the packet array, and it reads a request
behind its end where a count in the request promises more than there is.  For any choice
of what is allowed of these, each command has an exact condition on its request.
-/
import ArmSimulator.Proof.Bounds
import ArmSimulator.Proof.MemoryDump
import ArmSimulator.Proof.Restore

namespace ArmSimulator

namespace Gdb

open Halting (Allowed allowed_ok allowed_pure allowed_halt_iff allowed_bind_iff allowed_bind_ok_iff
  allowed_bind_iff_of halt)

/-! ## Encoded bytes -/

/-- The offsets at which the loop reads `n` encoded bytes: one for a plain byte and two for an
escaped one. -/
def encodedOffsets (data : List (BitVec 8)) : Nat → Nat → List Nat
  | 0, _ => []
  | n + 1, offset =>
    if (data.drop offset).headD 0 = 0x7d then
      offset :: (offset + 1) :: encodedOffsets data n (offset + 2)
    else offset :: encodedOffsets data n (offset + 1)

/-- The turns of the loop: one for each byte asked for, up to the first that the memory does
not take. -/
def storedTurns (memSize size : Nat) (a : BitVec 32) : Nat :=
  if 2 ^ 32 ≤ memSize then size else min size (memSize - a.toNat + 1)

theorem storedTurns_succ {memSize : Nat} {a : BitVec 32} (size : Nat) :
    storedTurns memSize (size + 1) a =
      if a.toNat < memSize then storedTurns memSize size (a + 1) + 1 else 1 := by
  have ha := a.isLt
  unfold storedTurns
  by_cases hbig : 2 ^ 32 ≤ memSize
  · rw [if_pos hbig, if_pos hbig, if_pos (by omega)]
  · rw [if_neg hbig, if_neg hbig]
    by_cases hin : a.toNat < memSize
    · have hnext : (a + 1).toNat = a.toNat + 1 :=
   BitVec.toNat_add_of_lt (show a.toNat + 1 < 2 ^ 32 by omega)
      rw [if_pos hin, hnext]
      omega
    · rw [if_neg hin]
      omega

/-- The number that `write_register` takes from its request. -/
def givenRegister (build : Build) (ctx : Context) (data : List (BitVec 8)) : BitVec 32 :=
  match CString.scanHexAll build.bareBase data with
  | some (reg, _) => reg
  | none => ctx.reg

/-! ## Allowances -/

/-- What no command can do without. -/
structure CommandAllowance (W : Stop → Prop) (G : GdbEvent → Prop) : Prop where
  exit : W .exit
  running : W .running
  write : ∀ bytes, G (.write bytes)
  shutdown : G .shutdown
  core : ∀ access, G (.core access)
  memory : ∀ type a result, G (.memory type a result)
  request : ∀ s, G (.request s)

section

variable {W : Stop → Prop} {G : GdbEvent → Prop}

/-! ## Replies -/

theorem putChars_overflow {i : Nat} {s : List (BitVec 8)} (hi : i ≤ maxPacketSize)
    (h : maxPacketSize < i + s.length) (g : Gdb) :
    ∃ g', putChars i s g = { value := .error .overflow, state := g', trace := [] } := by
  induction s generalizing i g with
  | nil => exact absurd h (by rw [List.length_nil]; omega)
  | cons c rest ih =>
    rw [List.length_cons] at h
    by_cases hlt : i < maxPacketSize
    · have hset := setPacket_apply hlt c g
      obtain ⟨g', hrest⟩ := ih (show i + 1 ≤ maxPacketSize by omega) (by omega)
        { g with packet := Function.update g.packet i c }
      refine ⟨g', ?_⟩
      rw [putChars, Halting.bind_apply_ok (by rw [hset]), hset, hrest]
      rfl
    · have hset : setPacket i c g = { value := .error .overflow, state := g, trace := [] } := by
        rw [setPacket, if_neg hlt]
      refine ⟨g, ?_⟩
      rw [putChars, Halting.bind_apply_error (by rw [hset]), hset]

theorem putString_overflow {i : Nat} {s : List (BitVec 8)} (hi : i ≤ maxPacketSize)
    (h : maxPacketSize ≤ i + s.length) (g : Gdb) :
    ∃ g', putString i s g = { value := .error .overflow, state := g', trace := [] } :=
  putChars_overflow hi (by rw [List.length_append, List.length_singleton]; omega) g

theorem allowed_putString_bind_iff {α : Type} {i : Nat} {s : List (BitVec 8)}
    (hfit : i + s.length < maxPacketSize) (f : Unit → GdbM α) (g : Gdb) :
    Allowed W G ((putString i s >>= f) g) ↔
      Allowed W G (f () { g with packet := overwrite g.packet i (s ++ [0]) }) := by
  have hput := putString_apply hfit g
  rw [allowed_bind_ok_iff (by rw [hput]), hput]
  exact and_iff_right fun _ he => absurd he List.not_mem_nil

theorem allowed_bind_overflow_iff {α β : Type} {m : GdbM α} {f : α → GdbM β} {g g' : Gdb}
    (h : m g = { value := .error .overflow, state := g', trace := [] }) :
    Allowed W G ((m >>= f) g) ↔ W .overflow := by
  rw [Halting.bind_apply_error (by rw [h]), h]
  exact allowed_halt_iff (σ := Gdb) (s := g')

variable (h : CommandAllowance W G)
include h

theorem allowed_rioWriten (bytes : List (BitVec 8)) (g : Gdb) :
    Allowed W G (rioWriten bytes g) := by
  rw [rioWriten]
  split_ifs
  · exact allowed_pure () g
  · refine (allowed_ok rfl).mpr fun e he => ?_
    rw [List.mem_singleton.mp he]
    exact h.write bytes
  · exact allowed_halt_iff.mpr h.exit

/-- The frame needs five more characters than the string. -/
theorem allowed_gdbSendBuffer_iff {g : Gdb} {s : List (BitVec 8)} (hstring : StringAt g.packet 1 s)
    (hs : s.length ≤ 1022) : Allowed W G (gdbSendBuffer g) ↔ s.length ≤ 1019 ∨ W .overflow := by
  by_cases hlength : s.length ≤ 1019
  · rw [(gdbSendBuffer_of_string hstring hlength).1]
    exact iff_of_true (allowed_rioWriten h _ _) (Or.inl hlength)
  · -- The frame leaves the array at one of the digits of the sum or at its NUL.
    have hmax : maxPacketSize = 1024 := rfl
    let g' : Gdb := { g with packet := Function.update g.packet 0 (chr '$') }
    have hdollar : setPacket 0 (chr '$') g = { value := .ok (), state := g', trace := [] } :=
      setPacket_apply (by decide) _ g
    have hloop := checkLoop_of_string (n := maxPacketSize) (g := g')
      (hstring.update_of_lt (show 0 < 1 by decide) (chr '$')) (by omega) (by omega) 0
    have hhash := setPacket_apply (show 1 + s.length < maxPacketSize by omega) (chr '#') g'
    have htwo : (Hex.ofByte (s.foldl (· + ·) 0)).length = 2 := rfl
    obtain ⟨g'', hdigits⟩ := putString_overflow (show 1 + s.length + 1 ≤ maxPacketSize by omega)
      (show maxPacketSize ≤ 1 + s.length + 1 + (Hex.ofByte (s.foldl (· + ·) 0)).length by
        rw [htwo]; omega)
      { g' with packet := Function.update g'.packet (1 + s.length) (chr '#') }
    have hrest : Allowed W G (gdbSendBuffer g) ↔ W .overflow := by
      rw [gdbSendBuffer, Halting.bind_apply_ok (by rw [hdollar]), hdollar,
        Halting.bind_apply_ok (by rw [hloop]), hloop]
      simp only [List.nil_append]
      rw [Halting.bind_apply_ok (by rw [hhash]), hhash]
      exact allowed_bind_overflow_iff hdigits
    rw [hrest]
    exact ⟨Or.inr, fun hor => hor.resolve_left hlength⟩

theorem allowed_gdbSendData {data : List (BitVec 8)} (hlength : data.length ≤ 1019)
    (hnonzero : ∀ c ∈ data, c ≠ 0) (g : Gdb) : Allowed W G (gdbSendData data g) := by
  obtain ⟨hchars, hnul⟩ := overwrite_text g.packet 1 data
  rw [gdbSendData, allowed_putString_bind_iff (by unfold maxPacketSize; omega)]
  exact (allowed_gdbSendBuffer_iff h ⟨hchars, hnul, hnonzero⟩ (by omega)).mpr (Or.inl hlength)

theorem allowed_gdbSendStopReason (g : Gdb) : Allowed W G (gdbSendStopReason g) := by
  obtain ⟨hlength, hnonzero⟩ := stopReason_plain g.targetException
  exact allowed_gdbSendData h hlength hnonzero g

/-! ## Handlers without a condition -/

section

variable (build : Build) (ctx : Context) (data : List (BitVec 8)) (g : Gdb)

omit h in
/-- A computation on the core always returns. -/
theorem allowed_onArm_bind_iff (hcore : ∀ access, G (.core access)) {α β : Type} (m : Arm α)
    (f : α → GdbM β) :
    Allowed W G ((onArm m >>= f) g) ↔
      Allowed W G (f (m g.arm).value { g with arm := (m g.arm).state }) := by
  rw [allowed_bind_ok_iff (m := onArm m) (s := g) rfl]
  refine and_iff_right fun e he => ?_
  obtain ⟨access, -, rfl⟩ := List.mem_map.mp he
  exact hcore access

theorem allowed_stepTarget (locals : Locals) : Allowed W G (stepTarget build locals g) := by
  rw [stepTarget, allowed_onArm_bind_iff g h.core]
  cases (armStep build.host locals g.arm).value with
  | none => exact allowed_halt_iff.mpr h.exit
  | some result => exact (allowed_ok rfl).mpr fun _ he => absurd he List.not_mem_nil

theorem allowed_contLoop (steps : List Locals) (instruction : BitVec 32) :
    Allowed W G (contLoop build steps instruction g) := by
  have hanticipate : ∀ instruction g, ∀ e ∈ (anticipate instruction g).trace, G e := by
    intro instruction g e he
    rw [anticipate_apply, List.mem_cons, List.mem_singleton] at he
    rcases he with rfl | rfl
    · exact h.core _
    · exact h.core _
  have hvalue : ∀ instruction g,
      (anticipate instruction g).value = .ok (anticipated instruction g.arm) := by
    intro instruction g
    rw [anticipate_apply]
  induction steps generalizing instruction g with
  | nil =>
    rw [contLoop, allowed_bind_ok_iff (hvalue instruction g)]
    refine ⟨hanticipate instruction g, ?_⟩
    split
    · exact allowed_pure () _
    · exact allowed_halt_iff.mpr h.running
  | cons locals rest ih =>
    rw [contLoop, allowed_bind_ok_iff (hvalue instruction g)]
    refine ⟨hanticipate instruction g, ?_⟩
    split
    · exact allowed_pure () _
    · exact allowed_bind_iff.mpr ⟨allowed_stepTarget h build _ locals, fun _ _ => ih _ _⟩

theorem allowed_cont : Allowed W G (cont build ctx data g) :=
  allowed_bind_iff.mpr ⟨allowed_contLoop h build g _ _, fun _ _ => allowed_gdbSendStopReason h _⟩

theorem allowed_step : Allowed W G (step build ctx data g) := by
  refine allowed_bind_iff.mpr ⟨?_, fun _ _ => allowed_gdbSendStopReason h _⟩
  cases ctx.steps with
  | nil => exact allowed_halt_iff.mpr h.running
  | cons locals rest => exact allowed_stepTarget h build g locals

theorem allowed_killRequest : Allowed W G (killRequest build ctx data g) := by
  refine (allowed_ok rfl).mpr fun e he => ?_
  rw [List.mem_singleton.mp he]
  exact h.shutdown

theorem allowed_putFields {fields : List (Arm (List (BitVec 8)))}
    (hfields : ∀ field ∈ fields, IsField field) {position : Nat}
    (hfit : position + 8 * fields.length < maxPacketSize) (g : Gdb) :
    Allowed W G (putFields position fields g) := by
  induction fields generalizing position g with
  | nil => exact allowed_pure () g
  | cons field rest ih =>
    rw [List.length_cons] at hfit
    have hlength := (hfields field List.mem_cons_self).length g.arm
    rw [putFields, allowed_onArm_bind_iff g h.core,
      allowed_putString_bind_iff (by rw [hlength]; omega)]
    exact ih (fun field hfield => hfields field (List.mem_cons_of_mem _ hfield)) (by omega) _

theorem allowed_readGeneralRegisters : Allowed W G (readGeneralRegisters build ctx data g) := by
  obtain ⟨packet, -, hstate, hstring⟩ := putFields_dumpFields build g
  have hlength := length_registerDump build g.arm
  have hfit : 1 + 8 * (dumpFields build).length < maxPacketSize := by
    show 1 + 8 * 42 < 1024
    decide
  refine allowed_bind_iff.mpr ⟨allowed_putFields h (isField_dumpFields build) hfit g, ?_⟩
  intro _ _
  rw [hstate]
  exact (allowed_gdbSendBuffer_iff h hstring (by omega)).mpr (Or.inl (by omega))

/-! ## Reading the request -/

section

variable (hzero : G (.read 0))
include hzero

omit h in
theorem allowed_requestAt_bind_iff {α : Type} (f : List (BitVec 8) → GdbM α) :
    Allowed W G ((requestAt data 0 >>= f) g) ↔ Allowed W G (f data g) := by
  rw [allowed_bind_ok_iff (m := requestAt data 0) (s := g) rfl]
  refine and_iff_right fun e he => ?_
  rw [List.mem_singleton.mp he]
  exact hzero

theorem allowed_query : Allowed W G (query build ctx data g) := by
  have hsend : ∀ s : List (BitVec 8), s.length ≤ 1019 ∧ (∀ c ∈ s, c ≠ 0) →
      Allowed W G (gdbSendData s g) := fun s hs => allowed_gdbSendData h hs.1 hs.2 g
  rw [query, allowed_requestAt_bind_iff data g hzero]
  split_ifs
  · exact hsend _ (by decide)
  · exact hsend _ (by decide)
  · exact hsend _ (by decide)
  · exact hsend _ (by decide)

omit h hzero in
theorem dumpLoop_overflow {size position : Nat} (hposition : position < maxPacketSize)
    (hfit : ¬position + 2 * size < maxPacketSize) (a : BitVec 32) (value : BitVec 8) (g : Gdb) :
    (dumpLoop size position a value g).value = .error .overflow := by
  induction size generalizing position a value g with
  | zero => exact absurd hposition hfit
  | succ size ih =>
    let b := byteRead g.arm.mem a value
    have hlength : (Hex.ofByte b).length = 2 := rfl
    rw [(dumpLoop_succ size position a value g).1]
    by_cases hbyte : position + (Hex.ofByte b).length < maxPacketSize
    · have hput := putString_apply hbyte g
      rw [Halting.bind_apply_ok (by rw [hput])]
      exact ih hbyte (by omega) _ _ _
    · obtain ⟨g', hput⟩ := putString_overflow (show position ≤ maxPacketSize by omega)
        (Nat.le_of_not_lt hbyte) g
      rw [Halting.bind_apply_error (by rw [hput])]

omit hzero in
/-- Every byte of a dump needs two characters, and there is a NUL behind them. -/
theorem allowed_dumpLoop_iff {size position : Nat} (hposition : position < maxPacketSize)
    (a : BitVec 32) (value : BitVec 8) (g : Gdb) :
    Allowed W G (dumpLoop size position a value g) ↔
      position + 2 * size < maxPacketSize ∨ W .overflow := by
  induction size generalizing position a value g with
  | zero => exact iff_of_true (allowed_pure () g) (Or.inl hposition)
  | succ size ih =>
    have hread : (readByte a value g).value =
        .ok (resultCode (memoryReadByte g.arm.mem a), byteRead g.arm.mem a value) := rfl
    have hevents : ∀ e ∈ (readByte a value g).trace, G e := by
      intro e he
      rw [List.mem_singleton.mp he]
      exact h.memory _ _ _
    have hlength : (Hex.ofByte (byteRead g.arm.mem a value)).length = 2 := rfl
    rw [dumpLoop, allowed_bind_ok_iff hread, and_iff_right hevents]
    simp only [if_neg (resultCode_readByte_ne g.arm.mem a)]
    by_cases hbyte : position + (Hex.ofByte (byteRead g.arm.mem a value)).length < maxPacketSize
    · rw [allowed_putString_bind_iff hbyte, ih (show position + 2 < maxPacketSize from hbyte)]
      exact or_congr_left (by omega)
    · obtain ⟨g', hput⟩ := putString_overflow (show position ≤ maxPacketSize by omega)
        (Nat.le_of_not_lt hbyte) (readByte a value g).state
      rw [allowed_bind_overflow_iff hput, or_iff_right (by omega)]

/-- Five hundred and nine bytes fit into a reply. -/
theorem allowed_readMemory_iff :
    Allowed W G (readMemory build ctx data g) ↔
      (dumpRequest build ctx data).2.toNat ≤ 509 ∨ W .overflow := by
  generalize hrequest : dumpRequest build ctx data = request
  let g' : Gdb := { g with packet := Function.update g.packet 1 0 }
  have hset : setPacket 1 0 g = { value := .ok (), state := g', trace := [] } :=
    setPacket_apply (by decide) 0 g
  have hstart : Allowed W G (readMemory build ctx data g) ↔
      Allowed W G ((dumpLoop request.2.toNat 1 request.1 ctx.value >>= fun _ => gdbSendBuffer)
        g') := by
    rw [readMemory, allowed_requestAt_bind_iff data g hzero, ← hrequest]
    refine (allowed_bind_ok_iff (by rw [hset]) _).trans ?_
    rw [hset]
    exact and_iff_right fun _ he => absurd he List.not_mem_nil
  have hmax : maxPacketSize = 1024 := rfl
  rw [hstart, allowed_bind_iff, allowed_dumpLoop_iff h (by decide)]
  by_cases hfit : 1 + 2 * request.2.toNat < maxPacketSize
  · obtain ⟨packet, hvalue, hstate, hstring⟩ := dumpLoop_string hfit request.1 ctx.value (g := g')
      (Function.update_self 1 0 g.packet)
    have hlength : ((dumpBytes g'.arm.mem request.2.toNat request.1 ctx.value).flatMap
        Hex.ofByte).length = 2 * request.2.toNat := by
      rw [length_flatMap_ofByte, length_dumpBytes]
    have hsend : Allowed W G (gdbSendBuffer { g' with packet := packet }) ↔ _ :=
      allowed_gdbSendBuffer_iff h hstring (by rw [hlength]; omega)
    rw [hlength] at hsend
    rw [hstate, and_iff_right (Or.inl hfit)]
    constructor
    · intro hrest
      exact (hsend.mp (hrest () hvalue)).imp_left (by omega)
    · intro hor _ _
      exact hsend.mpr (hor.imp_left (by omega))
  · rw [dumpLoop_overflow (by decide) hfit, or_iff_right hfit, or_iff_right (by omega)]
    exact and_iff_left fun a ha => by cases ha

omit h hzero in
theorem allowed_assertRegister_bind_iff {α : Type} {reg : BitVec 32} (f : Fin 16 → GdbM α)
    (g : Gdb) {P : Prop} (hf : ∀ reg, Allowed W G (f reg g) ↔ P) :
    Allowed W G ((assertRegister reg >>= f) g) ↔
      if reg.toNat < 16 then P else W .assertFailed := by
  by_cases hreg : reg.toNat < 16
  · have hassert := assertRegister_apply (n := ⟨reg.toNat, hreg⟩) rfl g
    rw [allowed_bind_ok_iff (by rw [hassert]), hassert, if_pos hreg, ← hf ⟨reg.toNat, hreg⟩]
    exact and_iff_right fun _ he => absurd he List.not_mem_nil
  · have hassert : assertRegister reg = halt .assertFailed := dif_neg hreg
    rw [hassert, if_neg hreg]
    exact allowed_halt_iff (α := α) (σ := Gdb) (s := g)

/-- The number of the register is read as a decimal one. -/
theorem allowed_readRegister_iff :
    Allowed W G (readRegister build ctx data g) ↔
      (CString.atoi data).toNat < 16 ∨ W .assertFailed := by
  have hfield : ∀ value g, Allowed W G
      ((putString 1 (writeUint32 build value) >>= fun _ => gdbSendBuffer) g) := by
    intro value g
    have hlength := length_writeUint32 build value
    obtain ⟨hchars, hnul⟩ := overwrite_text g.packet 1 (writeUint32 build value)
    rw [allowed_putString_bind_iff (by rw [hlength]; decide)]
    exact (allowed_gdbSendBuffer_iff h ⟨hchars, hnul, writeUint32_nonzero build value⟩
      (by omega)).mpr (Or.inl (by omega))
  have hsend : ∀ reg : Fin 16, Allowed W G
      ((onArm (armReadRegister reg) >>= fun value => do
        putString 1 (writeUint32 build (value - if reg = 15 then 4 else 0))
        gdbSendBuffer) g) ↔ True := by
    intro reg
    rw [allowed_onArm_bind_iff g h.core]
    exact iff_of_true (hfield _ _) trivial
  rw [readRegister, allowed_requestAt_bind_iff data g hzero,
    allowed_assertRegister_bind_iff _ g hsend]
  split_ifs with hreg
  · exact iff_of_true trivial (Or.inl hreg)
  · rw [or_iff_right hreg]

omit h hzero in
theorem allowed_charAt_bind_iff {α : Type} (offset : Nat) (f : BitVec 8 → GdbM α) :
    Allowed W G ((charAt data (some offset) >>= f) g) ↔
      G (.read offset) ∧ Allowed W G (f ((data.drop offset).headD 0) g) := by
  have hchar : charAt data (some offset) g =
      { value := .ok ((data.drop offset).headD 0), state := g, trace := [.read offset] } := rfl
  rw [allowed_bind_ok_iff (by rw [hchar]), hchar]
  exact and_congr_left fun _ => List.forall_mem_singleton

theorem allowed_setThread_iff :
    Allowed W G (setThread build ctx data g) ↔ G (.read 1) := by
  have hsend : ∀ s : List (BitVec 8), s.length ≤ 1019 ∧ (∀ c ∈ s, c ≠ 0) →
      Allowed W G (gdbSendData s g) := fun s hs => allowed_gdbSendData h hs.1 hs.2 g
  rw [setThread, allowed_charAt_bind_iff, and_iff_right hzero,
    allowed_bind_ok_iff (m := requestAt data 1) (s := g) rfl]
  have hread : (∀ e ∈ (requestAt data 1 g).trace, G e) ↔ G (.read 1) := List.forall_mem_singleton
  rw [hread]
  refine and_iff_left ?_
  split_ifs
  · exact hsend _ (by decide)
  · exact hsend _ (by decide)

end

/-! ## Words of the request -/

/-- `read_uint32` reads two characters at each of four offsets. -/
def ReadsWord (G : GdbEvent → Prop) (position : Nat) : Prop :=
  G (.read position) ∧ G (.read (position + 2)) ∧ G (.read (position + 4)) ∧
    G (.read (position + 6))

omit h in
theorem allowed_readUint32At_bind_iff {α : Type} (position : Nat) (f : BitVec 32 → GdbM α)
    (g : Gdb) :
    Allowed W G ((readUint32At build ctx data position >>= f) g) ↔
      ReadsWord G position ∧
        Allowed W G (f (readUint32 build (ctx.word position) (data.drop position)) g) := by
  rw [allowed_bind_ok_iff (m := readUint32At build ctx data position) (s := g) rfl]
  refine and_congr_left fun _ => ?_
  simp only [readUint32At, List.forall_mem_cons, List.not_mem_nil, false_implies, implies_true,
    and_true, ReadsWord]

omit h in
theorem writeRegisters_value (regs : List (Fin 16)) (position : Nat) (g : Gdb) :
    (writeRegisters build ctx data regs position g).value = .ok () := by
  induction regs generalizing position g with
  | nil => rfl
  | cons i rest ih => exact ih _ _

omit h in
theorem readsWord_succ (n position : Nat) :
    (ReadsWord G position ∧ ∀ k, k < n → ReadsWord G (position + 8 + 8 * k)) ↔
      ∀ k, k < n + 1 → ReadsWord G (position + 8 * k) := by
  have hnext : ∀ k, position + 8 + 8 * k = position + 8 * (k + 1) := by
    intro k
    omega
  simp only [hnext]
  exact (Nat.forall_lt_succ_left (p := fun k => ReadsWord G (position + 8 * k))).symm

theorem allowed_writeRegisters_iff (regs : List (Fin 16)) (position : Nat) (g : Gdb) :
    Allowed W G (writeRegisters build ctx data regs position g) ↔
      ∀ k, k < regs.length → ReadsWord G (position + 8 * k) := by
  induction regs generalizing position g with
  | nil => exact iff_of_true (allowed_pure () g) fun k hk => absurd hk (Nat.not_lt_zero k)
  | cons i rest ih =>
    rw [writeRegisters, allowed_readUint32At_bind_iff, allowed_onArm_bind_iff g h.core, ih]
    exact readsWord_succ rest.length position

omit h in
theorem allowed_skipWords_iff (n position : Nat) (g : Gdb) :
    Allowed W G (skipWords build ctx data n position g) ↔
      ∀ k, k < n → ReadsWord G (position + 8 * k) := by
  induction n generalizing position with
  | zero => exact iff_of_true (allowed_pure () g) fun k hk => absurd hk (Nat.not_lt_zero k)
  | succ n ih =>
    rw [skipWords, allowed_readUint32At_bind_iff, ih]
    exact readsWord_succ n position

/-- All the 42 words of an image are read. -/
theorem allowed_writeGeneralRegisters_iff :
    Allowed W G (writeGeneralRegisters build ctx data g) ↔ ∀ k, k < 42 → ReadsWord G (8 * k) := by
  have hstatus : ∀ g, Allowed W G ((readUint32At build ctx data 328 >>= fun value => do
      onArm (armWriteCpsr value)
      gdbSendData (text ['O', 'K'])) g) ↔ ReadsWord G 328 := by
    intro g
    rw [allowed_readUint32At_bind_iff, allowed_onArm_bind_iff g h.core]
    exact and_iff_left (allowed_gdbSendData h (by decide) (by decide) _)
  have hskip : ∀ g, Allowed W G ((skipWords build ctx data 25 128 >>= fun _ =>
      readUint32At build ctx data 328 >>= fun value => do
        onArm (armWriteCpsr value)
        gdbSendData (text ['O', 'K'])) g) ↔
      (∀ k, k < 25 → ReadsWord G (128 + 8 * k)) ∧ ReadsWord G 328 := by
    intro g
    rw [← allowed_skipWords_iff build ctx data 25 128 g]
    exact allowed_bind_iff_of (skipWords_apply build ctx data 25 128 g).1 fun g => hstatus g
  have hwrite : Allowed W G (writeGeneralRegisters build ctx data g) ↔ _ :=
    allowed_bind_iff_of (writeRegisters_value build ctx data _ 0 g) fun g => hskip g
  rw [hwrite, allowed_writeRegisters_iff h, List.length_finRange]
  constructor
  · rintro ⟨hregisters, hfiller, hcpsr⟩ k hk
    rcases Nat.lt_or_ge k 16 with hlow | hhigh
    · simpa using hregisters k hlow
    · rcases Nat.lt_or_ge k 41 with hmid | hlast
      · have hk' := hfiller (k - 16) (by omega)
        rwa [show 128 + 8 * (k - 16) = 8 * k by omega] at hk'
      · rwa [show 8 * k = 328 by omega]
  · intro hall
    refine ⟨fun k hk => ?_, fun k hk => ?_, hall 41 (by decide)⟩
    · rw [Nat.zero_add]
      exact hall k (by omega)
    · rw [show 128 + 8 * k = 8 * (k + 16) by omega]
      exact hall (k + 16) (by omega)

/-- The register is written once its number and its word have been read. -/
theorem allowed_writeRegister_iff (hzero : G (.read 0)) :
    Allowed W G (writeRegister build ctx data g) ↔
      match CString.index data (chr '=') with
      | none => W .nullPointer
      | some position => ReadsWord G (position + 1) ∧
          ((givenRegister build ctx data).toNat < 16 ∨ W .assertFailed) := by
  have hsend : ∀ value g, Allowed W G ((assertRegister (givenRegister build ctx data) >>=
      fun reg => do
        onArm (armWriteRegister reg value)
        gdbSendData (text ['O', 'K'])) g) ↔
      (givenRegister build ctx data).toNat < 16 ∨ W .assertFailed := by
    intro value g
    rw [allowed_assertRegister_bind_iff (P := True)]
    · split_ifs with hlt
      · exact iff_of_true trivial (Or.inl hlt)
      · rw [or_iff_right hlt]
    · intro reg
      rw [allowed_onArm_bind_iff g h.core]
      exact iff_of_true (allowed_gdbSendData h (by decide) (by decide) _) trivial
  rw [writeRegister, allowed_requestAt_bind_iff data g hzero]
  cases CString.index data (chr '=') with
  | none => exact allowed_halt_iff (α := Unit) (σ := Gdb) (s := g)
  | some position =>
    exact (allowed_readUint32At_bind_iff build ctx data (position + 1) _ g).trans
      (and_congr_right fun _ => hsend _ _)

/-! ## Binary data -/

/-- The end of one turn of the loop. -/
theorem allowed_writeByte_bind_iff {a : BitVec 32} {value : BitVec 8} {g : Gdb} {m : GdbM Bool} :
    Allowed W G ((writeByte a value >>= fun code => if code = 0 then m else pure false) g) ↔
      (a.toNat < g.arm.mem.size → Allowed W G (m (writeByte a value g).state)) := by
  by_cases hin : a.toNat < g.arm.mem.size
  · have hwrite := writeByte_inside hin value
    rw [allowed_bind_ok_iff (by rw [hwrite]), hwrite, if_pos rfl, List.forall_mem_singleton,
      and_iff_right (h.memory _ _ _)]
    exact ⟨fun hm _ => hm, fun hm => hm hin⟩
  · have hwrite := writeByte_outside hin value
    rw [allowed_bind_ok_iff (by rw [hwrite]), hwrite, if_neg (by decide), List.forall_mem_singleton,
      and_iff_right (h.memory _ _ _)]
    exact iff_of_true (allowed_pure _ _) fun hlt => absurd hlt hin

theorem allowed_storeLoop_iff (size offset : Nat) (a : BitVec 32) (g : Gdb) :
    Allowed W G (storeLoop data size (some offset) a g) ↔
      ∀ i ∈ encodedOffsets data (storedTurns g.arm.mem.size size a) offset, G (.read i) := by
  induction size generalizing offset a g with
  | zero =>
    have hnone : storedTurns g.arm.mem.size 0 a = 0 := by
      unfold storedTurns
      split_ifs <;> omega
    rw [hnone]
    exact iff_of_true (allowed_pure true g) fun _ hi => absurd hi List.not_mem_nil
  | succ size ih =>
    have hturn : ∀ value next, Allowed W G ((writeByte a value >>= fun code =>
        if code = 0 then storeLoop data size (some next) (a + 1) else pure false) g) ↔
        (a.toNat < g.arm.mem.size →
          ∀ i ∈ encodedOffsets data (storedTurns g.arm.mem.size size (a + 1)) next, G (.read i)) := by
      intro value next
      rw [allowed_writeByte_bind_iff h, ih, writeByte_size]
    -- After the last turn no byte is read.
    have hrest : ∀ next, (a.toNat < g.arm.mem.size →
        ∀ i ∈ encodedOffsets data (storedTurns g.arm.mem.size size (a + 1)) next, G (.read i)) ↔
        ∀ i ∈ encodedOffsets data (storedTurns g.arm.mem.size (size + 1) a - 1) next,
          G (.read i) := by
      intro next
      rw [storedTurns_succ]
      by_cases hin : a.toNat < g.arm.mem.size
      · rw [if_pos hin, Nat.add_sub_cancel]
        exact ⟨fun hi => hi hin, fun hi _ => hi⟩
      · rw [if_neg hin]
        exact iff_of_true (fun hlt => absurd hlt hin) fun _ hi => absurd hi List.not_mem_nil
    obtain ⟨turns, hturns⟩ : ∃ turns, storedTurns g.arm.mem.size (size + 1) a = turns + 1 := by
      rw [storedTurns_succ]
      split_ifs
      · exact ⟨_, rfl⟩
      · exact ⟨0, rfl⟩
    rw [hturns, Nat.add_sub_cancel] at hrest
    rw [hturns, encodedOffsets, storeLoop, allowed_charAt_bind_iff]
    by_cases hesc : (data.drop offset).headD 0 = 0x7d
    · have hread : (do let c ← charAt data (some (offset + 1)); pure (c ^^^ 0x20) : GdbM _) g =
          { value := .ok ((data.drop (offset + 1)).headD 0 ^^^ 0x20), state := g,
            trace := [.read (offset + 1)] } := rfl
      simp only [hesc, decide_true, if_true, Option.map_some, List.forall_mem_cons]
      rw [allowed_bind_ok_iff (by rw [hread]), hread, List.forall_mem_singleton, hturn, hrest]
    · have hread : charAt data (some offset) g =
          { value := .ok ((data.drop offset).headD 0), state := g, trace := [.read offset] } := rfl
      simp only [hesc, decide_false, if_false, Bool.false_eq_true, Option.map_some,
        List.forall_mem_cons]
      rw [allowed_bind_ok_iff (by rw [hread]), hread, List.forall_mem_singleton, hturn, hrest]
      exact ⟨And.right, fun hall => ⟨hall.1, hall⟩⟩

/-- Nothing is read when the first byte lies outside. -/
theorem allowed_writeMemoryBinary_iff (hzero : G (.read 0)) :
    Allowed W G (writeMemoryBinary build ctx data g) ↔
      ((dumpRequest build ctx data).1.toNat < g.arm.mem.size →
        (dumpRequest build ctx data).2.toNat ≠ 0 →
        match CString.index data (chr ':') with
        | none => W .nullPointer
        | some position =>
          ∀ i ∈ encodedOffsets data (storedTurns g.arm.mem.size
            (dumpRequest build ctx data).2.toNat (dumpRequest build ctx data).1) (position + 1),
            G (.read i)) := by
  have hreply : ∀ (stored : Bool) (g : Gdb), Allowed W G ((if stored = true then
      gdbSendData (text ['O', 'K']) else gdbSendData (text ['E', '0', '2'])) g) := by
    intro stored g
    split
    · exact allowed_gdbSendData h (by decide) (by decide) g
    · exact allowed_gdbSendData h (by decide) (by decide) g
  generalize hrequest : dumpRequest build ctx data = request
  have hstart : Allowed W G (writeMemoryBinary build ctx data g) ↔
      Allowed W G ((if request.1.toNat < g.arm.mem.size then
        storeLoop data request.2.toNat ((CString.index data (chr ':')).map (· + 1)) request.1
        else pure false : GdbM Bool) g) := by
    rw [writeMemoryBinary, allowed_requestAt_bind_iff data g hzero, ← hrequest]
    refine (allowed_bind_ok_iff (m := memoryGetSize) (s := g) rfl _).trans ?_
    refine (and_iff_right fun _ he => absurd he List.not_mem_nil).trans ?_
    exact allowed_bind_iff.trans (and_iff_left fun _ _ => hreply _ _)
  rw [hstart]
  by_cases hin : request.1.toNat < g.arm.mem.size
  · rw [if_pos hin]
    by_cases hsize : request.2.toNat = 0
    · rw [hsize]
      exact iff_of_true (allowed_pure true g) fun _ hne => absurd rfl hne
    · refine Iff.trans ?_ ⟨fun hall _ _ => hall, fun hall => hall hin hsize⟩
      cases CString.index data (chr ':') with
      | none =>
        obtain ⟨n, hn⟩ := Nat.exists_eq_succ_of_ne_zero hsize
        rw [hn]
        exact allowed_halt_iff (α := Bool) (σ := Gdb) (s := g)
      | some position => exact allowed_storeLoop_iff h data _ _ _ _
  · rw [if_neg hin]
    exact iff_of_true (allowed_pure false g) fun hlt => absurd hlt hin

end

/-! ## Requests -/

/-- The condition of a request on what is allowed, given from its first byte on. -/
def RequestAllowed (W : Stop → Prop) (G : GdbEvent → Prop) (build : Build) (ctx : Context)
    (memSize : Nat) (s : List (BitVec 8)) : Prop :=
  let data := s.drop 1
  let request := dumpRequest build ctx data
  if s.headD 0 = chr 'm' then request.2.toNat ≤ 509 ∨ W .overflow
  else if s.headD 0 = chr 'p' then (CString.atoi data).toNat < 16 ∨ W .assertFailed
  else if s.headD 0 = chr 'H' then G (.read 1)
  else if s.headD 0 = chr 'G' then ∀ k, k < 42 → ReadsWord G (8 * k)
  else if s.headD 0 = chr 'X' then
    request.1.toNat < memSize → request.2.toNat ≠ 0 →
      match CString.index data (chr ':') with
      | none => W .nullPointer
      | some position => ∀ i ∈ encodedOffsets data
          (storedTurns memSize request.2.toNat request.1) (position + 1), G (.read i)
  else if s.headD 0 = chr 'P' then
    match CString.index data (chr '=') with
    | none => W .nullPointer
    | some position => ReadsWord G (position + 1) ∧
        ((givenRegister build ctx data).toNat < 16 ∨ W .assertFailed)
  else True

theorem allowed_answer_iff (build : Build) (ctx : Context) (s : List (BitVec 8)) (g : Gdb)
    (hzero : s.headD 0 ≠ 0 → G (.read 0)) :
    Allowed W G (answer build ctx s g) ↔ RequestAllowed W G build ctx g.arm.mem.size s := by
  rw [answer, RequestAllowed]
  generalize s.drop 1 = data
  generalize hhead : s.headD 0 = c at hzero ⊢
  cases hhandler : handler c with
  | none =>
    have hother : ∀ letter, handler letter ≠ none → c ≠ letter := by
      rintro letter hletter rfl
      exact hletter hhandler
    simp only [if_neg (hother (chr 'm') (by decide)), if_neg (hother (chr 'p') (by decide)),
      if_neg (hother (chr 'H') (by decide)), if_neg (hother (chr 'G') (by decide)),
      if_neg (hother (chr 'X') (by decide)), if_neg (hother (chr 'P') (by decide))]
    exact iff_of_true (allowed_gdbSendData h (by decide) (by decide) g) trivial
  | some handle =>
    obtain ⟨⟨index, handle⟩, hfind, rfl⟩ := Option.map_eq_some_iff.mp hhandler
    have hindex : index = c := by simpa using List.find?_some hfind
    subst hindex
    have hentry := List.mem_of_find?_eq_some hfind
    simp only [handlers, List.mem_cons, Prod.mk.injEq, List.not_mem_nil, or_false] at hentry
    rcases hentry with ⟨rfl, rfl⟩ | ⟨rfl, rfl⟩ | ⟨rfl, rfl⟩ | ⟨rfl, rfl⟩ | ⟨rfl, rfl⟩ | ⟨rfl, rfl⟩ |
      ⟨rfl, rfl⟩ | ⟨rfl, rfl⟩ | ⟨rfl, rfl⟩ | ⟨rfl, rfl⟩ | ⟨rfl, rfl⟩ | ⟨rfl, rfl⟩
    · exact iff_of_true (allowed_cont h build ctx data g) trivial
    · exact iff_of_true (allowed_killRequest h build ctx data g) trivial
    · exact iff_of_true (allowed_query h build ctx data g (hzero (by decide))) trivial
    · exact iff_of_true (allowed_readGeneralRegisters h build ctx data g) trivial
    · exact allowed_readMemory_iff h build ctx data g (hzero (by decide))
    · exact allowed_readRegister_iff h build ctx data g (hzero (by decide))
    · exact iff_of_true (allowed_gdbSendStopReason h g) trivial
    · exact allowed_setThread_iff h build ctx data g (hzero (by decide))
    · exact iff_of_true (allowed_step h build ctx data g) trivial
    · exact allowed_writeGeneralRegisters_iff h build ctx data g
    · exact allowed_writeMemoryBinary_iff h build ctx data g (hzero (by decide))
    · exact allowed_writeRegister_iff h build ctx data g (hzero (by decide))

end

end Gdb

end ArmSimulator
