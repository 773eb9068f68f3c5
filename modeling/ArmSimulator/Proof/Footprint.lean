/-
The accesses a run reports are all it does.

A place of the core is an index of the register array or a byte of the memory, and
an event stands for the places it reached.  Take any set of places that no event of a
run is in.  The run then changes none of them, and it does not depend on them: on a
core that differs there it returns the same codes, reports the same events and leaves
the same everywhere else.  The CPSR has to be outside of the set, since every access to
a register looks at the mode.
-/
import ArmSimulator.Proof.Bounds

namespace ArmSimulator

open Traced (Sim)

inductive Place where
  | register (index : Nat)
  | byte (address : BitVec 32)
  deriving DecidableEq

/-- The places an event has reached.  A rejected access reaches none. -/
def Access.places : Access → List Place
  | .register _ _ index => [.register index]
  | .usrRegister _ _ index => [.register index]
  | .memory _ size _ a result => (ArmSimulator.touched size a result).map .byte

/-- An event at no place of `D`. -/
def AvoidsPlaces (D : Place → Prop) (e : Access) : Prop := ∀ l ∈ e.places, ¬D l

instance (D : Place → Prop) [DecidablePred D] (e : Access) : Decidable (AvoidsPlaces D e) :=
  inferInstanceAs (Decidable (∀ l ∈ e.places, ¬D l))

/-! ## Memories -/

structure MemoryOutside (D : BitVec 32 → Prop) (mem mem' : Memory) : Prop where
  size : mem'.size = mem.size
  isBigEndian : mem'.isBigEndian = mem.isBigEndian
  byte : ∀ i, ¬D i → mem'.m i = mem.m i

theorem MemoryOutside.accepted {D : BitVec 32 → Prop} {mem mem' : Memory}
    (h : MemoryOutside D mem mem') (isLoad : Bool) (width : Nat) (a : BitVec 32) :
    Accepted mem' isLoad width a ↔ Accepted mem isLoad width a := by
  unfold Accepted
  rw [h.size]

theorem MemoryOutside.accessResult {D : BitVec 32 → Prop} {mem mem' : Memory}
    (h : MemoryOutside D mem mem') (isLoad : Bool) (width : Nat) (a : BitVec 32) :
    accessResult mem' isLoad width a = accessResult mem isLoad width a := by
  unfold ArmSimulator.accessResult
  simp only [h.accepted]

/-- A read that touches no byte of `D` returns the same on both memories. -/
theorem readOutcome_outside {D : BitVec 32 → Prop} {mem mem' : Memory}
    (h : MemoryOutside D mem mem') {w width : Nat} {a : BitVec 32}
    (hD : ∀ i ∈ touched width a (accessResult mem true width a), ¬D i) :
    (readOutcome (w := w) width a mem').value = (readOutcome (w := w) width a mem).value := by
  unfold readOutcome
  rw [h.size]
  by_cases hsize : mem.size ≤ a.toNat
  · rw [if_pos hsize, if_pos hsize]
  · have haccepted : Accepted mem true width a :=
      ⟨Nat.lt_of_not_le hsize, fun hload => absurd hload (by decide)⟩
    rw [touched, if_pos (accessResult_eq_zero.mpr haccepted)] at hD
    have hbytes : (span a width).map mem'.m = (span a width).map mem.m :=
      List.map_congr_left fun i hi => h.byte i (hD i hi)
    rw [if_neg hsize, if_neg hsize, h.isBigEndian, hbytes]

theorem MemoryCall.bytes_fst (c : MemoryCall) (big : Bool) :
    ∀ i ∈ (c.bytes big).map Prod.fst, i ∈ span c.address c.width := by
  have hzip : ∀ (is : List (BitVec 32)) (bs : List (BitVec 8)),
      ∀ i ∈ (is.zip bs).map Prod.fst, i ∈ is := by
    intro is bs i hi
    obtain ⟨e, he, rfl⟩ := List.mem_map.mp hi
    exact (List.of_mem_zip he).1
  cases c with
  | writeByte a v | writeHalf a v | writeWord a v => exact hzip _ _
  | readByte a | readHalf a | readWord a => exact fun i hi => absurd hi List.not_mem_nil

/-- A call that touches no byte of `D` leaves these bytes of each memory alone and
treats the others alike. -/
theorem MemoryCall.run_outside {D : BitVec 32 → Prop} {mem mem' : Memory}
    (h : MemoryOutside D mem mem') {c : MemoryCall}
    (hD : ∀ i ∈ touched c.width c.address (accessResult mem c.isRead c.width c.address), ¬D i) :
    MemoryOutside D (c.run mem).state (c.run mem').state ∧
      (∀ i, D i → (c.run mem).state.m i = mem.m i) ∧
      ∀ i, D i → (c.run mem').state.m i = mem'.m i := by
  rw [c.run_eq, c.run_eq, MemoryCall.outcome, MemoryCall.outcome, h.isBigEndian]
  simp only [h.accepted]
  by_cases haccepted : Accepted mem c.isRead c.width c.address
  · rw [touched, if_pos (accessResult_eq_zero.mpr haccepted)] at hD
    have hkeep : ∀ (m : BitVec 32 → BitVec 8) (i : BitVec 32), D i →
        Bytes.writeAll m (c.bytes mem.isBigEndian) i = m i := by
      intro m i hi
      refine Bytes.writeAll_of_not_mem fun hmem => ?_
      exact hD i (c.bytes_fst _ i hmem) hi
    rw [if_pos haccepted, if_pos haccepted]
    refine ⟨⟨h.size, rfl, fun i hi => ?_⟩, hkeep mem.m, hkeep mem'.m⟩
    show Bytes.writeAll mem'.m _ i = Bytes.writeAll mem.m _ i
    rw [Bytes.writeAll_apply, Bytes.writeAll_apply, h.byte i hi]
  · rw [if_neg haccepted, if_neg haccepted]
    exact ⟨h, fun _ _ => rfl, fun _ _ => rfl⟩

/-! ## Cores -/

structure AgreeOutside (D : Place → Prop) (s t : Core) : Prop where
  cycleCount : t.cycleCount = s.cycleCount
  reg : ∀ i, ¬D (.register i) → t.reg i = s.reg i
  mem : MemoryOutside (fun i => D (.byte i)) s.mem t.mem

/-- The places of `D` hold in `s` what they hold in `p`, and the memories are of one
kind. -/
structure SameAt (D : Place → Prop) (p s : Core) : Prop where
  reg : ∀ i, D (.register i) → s.reg i = p.reg i
  mem : ∀ i, D (.byte i) → s.mem.m i = p.mem.m i
  size : s.mem.size = p.mem.size
  isBigEndian : s.mem.isBigEndian = p.mem.isBigEndian

theorem SameAt.refl (D : Place → Prop) (p : Core) : SameAt D p p :=
  ⟨fun _ _ => rfl, fun _ _ => rfl, rfl, rfl⟩

theorem SameAt.trans {D : Place → Prop} {p s u : Core} (h : SameAt D p s) (h' : SameAt D s u) :
    SameAt D p u where
  reg i hi := (h'.reg i hi).trans (h.reg i hi)
  mem i hi := (h'.mem i hi).trans (h.mem i hi)
  size := h'.size.trans h.size
  isBigEndian := h'.isBigEndian.trans h.isBigEndian

/-- The relation between two runs from `p` and `q`: they agree outside of `D`, and each
still holds at `D` what it started with. -/
structure Apart (D : Place → Prop) (p q s t : Core) : Prop where
  agree : AgreeOutside D s t
  left : SameAt D p s
  right : SameAt D q t

section

variable {D : Place → Prop} {p q s t : Core}

theorem Apart.update (h : Apart D p q s t) {i : Nat} (hi : ¬D (.register i)) (value : BitVec 32) :
    Apart D p q { s with reg := Function.update s.reg i value }
      { t with reg := Function.update t.reg i value } where
  agree := by
    refine ⟨h.agree.cycleCount, fun j hj => ?_, h.agree.mem⟩
    simp only [Function.update_apply]
    rw [h.agree.reg j hj]
  left := by
    refine ⟨fun j hj => ?_, h.left.mem, h.left.size, h.left.isBigEndian⟩
    have hne : j ≠ i := fun he => hi (he ▸ hj)
    simp only [Function.update_of_ne hne]
    exact h.left.reg j hj
  right := by
    refine ⟨fun j hj => ?_, h.right.mem, h.right.size, h.right.isBigEndian⟩
    have hne : j ≠ i := fun he => hi (he ▸ hj)
    simp only [Function.update_of_ne hne]
    exact h.right.reg j hj

theorem Apart.write (h : Apart D p q s t) {c : MemoryCall}
    (hD : ∀ i ∈ touched c.width c.address (accessResult s.mem c.isRead c.width c.address),
      ¬D (.byte i)) :
    Apart D p q { s with mem := (c.run s.mem).state } { t with mem := (c.run t.mem).state } := by
  obtain ⟨hout, hleft, hright⟩ := c.run_outside h.agree.mem hD
  have hkind : ∀ mem, (c.run mem).state.size = mem.size ∧
      (c.run mem).state.isBigEndian = mem.isBigEndian := by
    intro mem
    rw [c.run_state]
    exact ⟨rfl, rfl⟩
  refine ⟨⟨h.agree.cycleCount, h.agree.reg, hout⟩, ?_, ?_⟩
  · exact ⟨h.left.reg, fun i hi => (hleft i hi).trans (h.left.mem i hi),
      (hkind s.mem).1.trans h.left.size, (hkind s.mem).2.trans h.left.isBigEndian⟩
  · exact ⟨h.right.reg, fun i hi => (hright i hi).trans (h.right.mem i hi),
      (hkind t.mem).1.trans h.right.size, (hkind t.mem).2.trans h.right.isBigEndian⟩

/-- A computation that does the same to the registers of both cores. -/
theorem sim_apart {α : Type} {m : Arm α} {A : Access → Prop}
    (h : ∀ s t, Apart D p q s t → (∀ e ∈ (m s).trace, A e) →
      (m t).value = (m s).value ∧ (m t).trace = (m s).trace ∧ Apart D p q (m s).state (m t).state) :
    Sim (Apart D p q) A (fun _ => True) (fun _ => True) m m := by
  intro s t hst hA
  obtain ⟨hvalue, htrace, hstate⟩ := h s t hst hA
  exact ⟨hvalue, htrace, hstate, trivial, fun _ _ => trivial⟩

variable (hcpsr : ¬D (.register cpsrIndex))

include hcpsr in
theorem Apart.readCpsr (h : Apart D p q s t) : readCpsr t.reg = readCpsr s.reg :=
  h.agree.reg cpsrIndex hcpsr

include hcpsr in
theorem Apart.getMode (h : Apart D p q s t) : getMode t.reg = getMode s.reg := by
  unfold ArmSimulator.getMode
  rw [h.readCpsr hcpsr]

/-- What an event of an access assumes of its place. -/
theorem avoids_register {type : AccessType} {mode : BitVec 8} {i : Nat} {trace : List Access}
    (htrace : trace = [.register type mode i])
    (hA : ∀ e ∈ trace, AvoidsPlaces D e) : ¬D (.register i) := by
  subst htrace
  exact hA _ List.mem_cons_self _ List.mem_cons_self

theorem avoids_usrRegister {type : AccessType} {mode : BitVec 8} {i : Nat} {trace : List Access}
    (htrace : trace = [.usrRegister type mode i])
    (hA : ∀ e ∈ trace, AvoidsPlaces D e) : ¬D (.register i) := by
  subst htrace
  exact hA _ List.mem_cons_self _ List.mem_cons_self

theorem avoids_memory {type : AccessType} {size : Nat} {cause : Cause} {a result : BitVec 32}
    {trace : List Access} (htrace : trace = [.memory type size cause a result])
    (hA : ∀ e ∈ trace, AvoidsPlaces D e) : ∀ i ∈ touched size a result, ¬D (.byte i) := by
  subst htrace
  exact fun i hi => hA _ List.mem_cons_self _ (List.mem_map_of_mem hi)

theorem armRead_apart {w width : Nat} (cause : Cause)
    {read : Memory → BitVec 32 → Except (BitVec 32) (BitVec w)}
    (hread : ∀ mem a, read mem a = (readOutcome width a mem).value)
    (hcode : ∀ mem a, resultCode (read mem a) = accessResult mem true width a)
    (a : BitVec 32) :
    Sim (Apart D p q) (AvoidsPlaces D) (fun _ => True) (fun _ => True)
      (armRead width cause read a) (armRead width cause read a) := by
  refine sim_apart fun s t h hA => ?_
  have hD := avoids_memory rfl hA
  rw [hcode] at hD
  have hvalue : read t.mem a = read s.mem a := by
    rw [hread, hread]
    exact readOutcome_outside h.agree.mem hD
  simp only [armRead, hvalue]
  exact ⟨trivial, trivial, h⟩

theorem armWrite_apart {α : Type} {width : Nat}
    {write : Memory → BitVec 32 → α → Except (BitVec 32) Memory} {a : BitVec 32} {v : α}
    {c : MemoryCall} (hwidth : c.width = width) (ha : c.address = a) (hwrite : c.isRead = false)
    (hrun : ∀ mem, (c.run mem).state = afterWrite mem (write mem a v))
    (hcode : ∀ mem, resultCode (write mem a v) = accessResult mem false width a) :
    Sim (Apart D p q) (AvoidsPlaces D) (fun _ => True) (fun _ => True)
      (armWrite width write a v) (armWrite width write a v) := by
  refine sim_apart fun s t h hA => ?_
  have hD := avoids_memory rfl hA
  rw [hcode, ← hwidth, ← ha, ← hwrite] at hD
  have hwritten := h.write hD
  rw [hrun, hrun] at hwritten
  have hresult : accessResult t.mem false width a = accessResult s.mem false width a :=
    h.agree.mem.accessResult _ _ _
  refine ⟨?_, ?_, hwritten⟩
  · simp only [armWrite, hcode, hresult]
  · simp only [armWrite, hcode, hresult]

theorem avoids_spsr {type : AccessType} {r : Registers} {i : Nat}
    (hi : spsrIndex (getMode r) = some i) (hA : ∀ e ∈ spsrAccess type r, AvoidsPlaces D e) :
    ¬D (.register i) := by
  have htrace : spsrAccess type r = [.register type (getMode r) i] := by
    rw [spsrAccess, hi]
    rfl
  exact avoids_register htrace hA

include hcpsr in
theorem armReadSpsr_apart :
    Sim (Apart D p q) (AvoidsPlaces D) (fun _ => True) (fun _ => True) armReadSpsr
      armReadSpsr := by
  refine sim_apart fun s t h hA => ?_
  simp only [armReadSpsr, readSpsr, spsrAccess, h.getMode hcpsr]
  refine ⟨?_, trivial, h⟩
  cases hi : spsrIndex (getMode s.reg) with
  | none => rfl
  | some i => exact h.agree.reg i (avoids_spsr hi hA)

include hcpsr in
theorem armWriteSpsr_apart (value : BitVec 32) :
    Sim (Apart D p q) (AvoidsPlaces D) (fun _ => True) (fun _ => True) (armWriteSpsr value)
      (armWriteSpsr value) := by
  refine sim_apart fun s t h hA => ?_
  simp only [armWriteSpsr, writeSpsr, spsrAccess, h.getMode hcpsr]
  refine ⟨trivial, trivial, ?_⟩
  cases hi : spsrIndex (getMode s.reg) with
  | none => exact h
  | some i => exact h.update (avoids_spsr hi hA) value

include hcpsr in
theorem apart_respects :
    RespectsExceptions (Apart D p q) (AvoidsPlaces D) (fun _ => True) fun _ => True where
  countCycle := sim_apart fun s t h _ => ⟨rfl, rfl,
    ⟨congrArg (· + 1) h.agree.cycleCount, h.agree.reg, h.agree.mem⟩,
    ⟨h.left.reg, h.left.mem, h.left.size, h.left.isBigEndian⟩,
    ⟨h.right.reg, h.right.mem, h.right.size, h.right.isBigEndian⟩⟩
  readRegister reg := sim_apart fun s t h hA => by
    have hD := avoids_register rfl hA
    have hvalue := h.agree.reg _ hD
    simp only [armReadRegister, readRegister, h.getMode hcpsr, hvalue]
    exact ⟨trivial, trivial, h⟩
  readUsrRegister reg := sim_apart fun s t h hA => by
    have hvalue := h.agree.reg _ (avoids_usrRegister rfl hA)
    simp only [armReadUsrRegister, readUsrRegister, h.getMode hcpsr, hvalue]
    exact ⟨trivial, trivial, h⟩
  readCpsr := sim_apart fun s t h _ => by
    simp only [armReadCpsr, h.readCpsr hcpsr, h.getMode hcpsr]
    exact ⟨trivial, trivial, h⟩
  readSpsr hf hg := by
    have hhas : Sim (Apart D p q) (AvoidsPlaces D) (fun _ => True) (fun _ => True)
        armCurrentModeHasSpsr armCurrentModeHasSpsr := sim_apart fun s t h _ => by
      simp only [armCurrentModeHasSpsr, currentModeHasSpsr, h.getMode hcpsr]
      exact ⟨trivial, trivial, h⟩
    refine Sim.bind hhas fun _ _ => Sim.ite (fun _ => ?_) fun _ => hg
    exact Sim.bind (armReadSpsr_apart hcpsr) fun v _ => hf v trivial
  writeRegister reg value := sim_apart fun s t h hA => by
    have hD := avoids_register rfl hA
    simp only [armWriteRegister, writeRegister, h.getMode hcpsr]
    exact ⟨trivial, trivial, h.update hD value⟩
  writeUsrRegister reg value := sim_apart fun s t h hA => by
    have hD := avoids_usrRegister rfl hA
    simp only [armWriteUsrRegister, writeUsrRegister, h.getMode hcpsr]
    exact ⟨trivial, trivial, h.update hD value⟩
  writeCpsr _ := sim_apart fun s t h _ => by
    simp only [armWriteCpsr, writeCpsr, h.getMode hcpsr]
    exact ⟨trivial, trivial, h.update hcpsr _⟩
  writeSpsr {value} _ := armWriteSpsr_apart hcpsr value
  changeFlag _ _ _ _ := trivial
  readOpcode a := armRead_apart _ (fun mem a => by
    rw [← Bytewise.memoryReadWord_value, memoryReadWord_outcome]) resultCode_readWord a
  readByte a := armRead_apart _ (fun mem a => by
    rw [← Bytewise.memoryReadByte_value, memoryReadByte_outcome]) resultCode_readByte a
  readHalf a := armRead_apart _ (fun mem a => by
    rw [← Bytewise.memoryReadHalf_value, memoryReadHalf_outcome]) resultCode_readHalf a
  readWord a := armRead_apart _ (fun mem a => by
    rw [← Bytewise.memoryReadWord_value, memoryReadWord_outcome]) resultCode_readWord a
  writeByte a v := armWrite_apart (c := .writeByte a v) rfl rfl rfl
    (fun mem => (Bytewise.memoryWriteByte_value mem a v).2) fun mem => resultCode_writeByte mem a v
  writeHalf a v := armWrite_apart (c := .writeHalf a v) rfl rfl rfl
    (fun mem => (Bytewise.memoryWriteHalf_value mem a v).2) fun mem => resultCode_writeHalf mem a v
  writeWord a v := armWrite_apart (c := .writeWord a v) rfl rfl rfl
    (fun mem => (Bytewise.memoryWriteWord_value mem a v).2) fun mem => resultCode_writeWord mem a v
  resetCpsr := trivial
  exceptionCpsr _ _ := trivial

end

/-! ## Runs -/

/-- The trace is complete.  Over every sequence of steps and exceptions that reports no
access at a place of `D`, the core holds there what it held before, and a core that
differs from it at `D` alone returns the same codes, reports the same accesses, keeps
what it holds at `D` and still agrees with it everywhere else. -/
theorem runCalls_footprint (host : Host) (calls : List Call) {D : Place → Prop}
    (hcpsr : ¬D (.register cpsrIndex)) {p q : Core} (hagree : AgreeOutside D p q)
    (havoid : ∀ e ∈ (runCalls host calls p).trace, AvoidsPlaces D e) :
    let o := runCalls host calls p
    let o' := runCalls host calls q
    o'.value = o.value ∧ o'.trace = o.trace ∧ AgreeOutside D o.state o'.state ∧
      SameAt D p o.state ∧ SameAt D q o'.state := by
  have start : Apart D p q p q := ⟨hagree, SameAt.refl D p, SameAt.refl D q⟩
  obtain ⟨hvalue, htrace, h, -, -⟩ :=
    runCalls_respects (apart_respects hcpsr) host calls p q start havoid
  exact ⟨hvalue, htrace, h.agree, h.left, h.right⟩

/-- A core about to push two registers, to take an interrupt and to fetch past the end of
the memory, with `fill` in the banked r13 of ABT and in one byte that is not code. -/
def fillCore (fill : BitVec 8) : Core where
  cycleCount := 0
  reg i := if i = cpsrIndex then 0x10 else if i = 13 then 0x40 else if i = 19 then fill.setWidth 32
    else 0
  mem :=
    { memoryOfWords true 0x40 [0xE92D0003] with
      m := Function.update (memoryOfWords true 0x40 [0xE92D0003]).m 0x20 fill }

theorem runCalls_footprint_fillCore :
    let D : Place → Prop := fun l => l = .register 19 ∨ l = .byte 0x20
    let calls := [Call.step ⟨0, 0⟩, .exception 7, .step ⟨1, 1⟩]
    let o := runCalls (Host.modular false) calls (fillCore 0)
    let o' := runCalls (Host.modular false) calls (fillCore 0xAB)
    o'.value = o.value ∧ o'.trace = o.trace ∧ AgreeOutside D o.state o'.state ∧
      SameAt D (fillCore 0) o.state ∧ SameAt D (fillCore 0xAB) o'.state := by
  refine runCalls_footprint _ _ (by decide) ⟨rfl, fun i hi => ?_, rfl, rfl, fun i hi => ?_⟩
    (by decide +kernel)
  · have hne : i ≠ 19 := fun h => hi (Or.inl (congrArg _ h))
    simp only [fillCore, if_neg hne]
  · have hne : i ≠ 0x20 := fun h => hi (Or.inr (congrArg _ h))
    simp only [fillCore, Function.update_of_ne hne]

end ArmSimulator
