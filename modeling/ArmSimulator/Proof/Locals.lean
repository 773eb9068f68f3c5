/-
Where an uninitialised local reaches the core.

The handlers of loads leave a local without a value when a read is rejected and when it
is narrower than a word.  As long as no data read of a run is of these two kinds, what
the stack holds in the locals makes no difference: the run returns the same codes,
reports the same accesses and leaves the same core.
-/
import ArmSimulator.Proof.Respects

namespace ArmSimulator

open Traced (Sim)

/-- A data read is a word and is not rejected. -/
def ReadsWholeWord : Access → Prop
  | .memory .read size .otherAccess _ result => size = 4 ∧ result = 0
  | _ => True

instance (e : Access) : Decidable (ReadsWholeWord e) := by
  unfold ReadsWholeWord
  split <;> infer_instance

/-- The second computation does what the first does when all data reads of the first
are whole words. -/
abbrev SameOnWords {α : Type} (m n : Arm α) : Prop :=
  Sim (· = ·) ReadsWholeWord (fun _ => True) (fun _ => True) m n

/-! ## Single transfers -/

theorem sameOnWords_of_narrow {α : Type} {m n : Arm α} {size : Nat} {a : BitVec 32}
    (hsize : size ≠ 4)
    (hm : ∀ s, ∃ result, Access.memory .read size .otherAccess a result ∈ (m s).trace) :
    SameOnWords m n := by
  intro s t _ hA
  obtain ⟨result, hmem⟩ := hm s
  exact absurd (hA _ hmem).1 hsize

theorem readInto_word (val val' a : BitVec 32) :
    SameOnWords (readInto val (fun _ word => word) (armReadWord a))
      (readInto val' (fun _ word => word) (armReadWord a)) := by
  rintro s _ rfl hA
  have hcode : resultCode (memoryReadWord s.mem a) = 0 :=
    (hA (.memory .read 4 .otherAccess a _) List.mem_cons_self).2
  cases hread : memoryReadWord s.mem a with
  | error code =>
    rw [hread] at hcode
    have hcode' : code = 0 := hcode
    rw [memoryReadWord_eq_error.mp hread |>.1] at hcode'
    exact absurd hcode' (by decide)
  | ok word =>
    have hvalue : ∀ v : BitVec 32,
        readInto v (fun _ word => word) (armReadWord a) s =
          { value := word, state := s,
            trace := [.memory .read 4 .otherAccess a 0] } := by
      intro v
      simp only [readInto, armReadWord, armRead, bind, pure, hread, resultCode, List.append_nil]
    rw [hvalue, hvalue]
    exact ⟨rfl, rfl, rfl, trivial, fun _ _ => trivial⟩

section

variable (host : Host) (locals locals' : Locals)

theorem loadValue_sameOnWords (ins a : BitVec 32) :
    SameOnWords (loadValue host locals ins a) (loadValue host locals' ins a) := by
  refine Sim.ite (fun _ => ?_) fun _ => Sim.ite (fun _ => ?_) fun _ => readInto_word _ _ a
  · exact sameOnWords_of_narrow (by decide) fun _ => ⟨_, List.mem_cons_self⟩
  · exact sameOnWords_of_narrow (by decide) fun _ => ⟨_, List.mem_cons_self⟩

theorem transferValue_sameOnWords (ins a : BitVec 32) :
    SameOnWords (transferValue host locals ins a) (transferValue host locals' ins a) := by
  refine Sim.ite (fun _ => ?_) fun _ => Sim.refl _
  exact Sim.bind (loadValue_sameOnWords host locals locals' ins a) fun _ _ => Sim.refl _

theorem armLoadStore_sameOnWords (ins : BitVec 32) :
    SameOnWords (armLoadStore host locals ins) (armLoadStore host locals' ins) := by
  refine Sim.bind (Sim.refl _) fun _ _ => Sim.bind (Sim.refl _) fun a _ => ?_
  exact Sim.bind (transferValue_sameOnWords host locals locals' ins a) fun _ _ => Sim.refl _

end

/-! ## Block transfers -/

/-- The blocks are at the same register of the list.  What the locals hold may differ. -/
structure SameBlock (b b' : Block) : Prop where
  address : b'.address = b.address
  numberOfSetBits : b'.numberOfSetBits = b.numberOfSetBits

theorem blockStep_sameOnWords (isLoad : Bool) (ri : Fin 16) {b b' : Block} (h : SameBlock b b') :
    SameOnWords (blockStep isLoad ri b) (blockStep isLoad ri b') := by
  unfold blockStep
  rw [h.address, h.numberOfSetBits]
  refine Sim.ite (fun _ => ?_) fun _ => Sim.refl _
  exact Sim.bind (readInto_word _ _ _) fun _ _ => Sim.refl _

/-- Induction on the registers.  The first transfer gives both blocks the same locals,
and a list without a transfer leaves the core alone. -/
theorem blockLoop_sameOnWords (ins : BitVec 32) (regs : List (Fin 16)) {b b' : Block}
    (h : SameBlock b b') {s : Core}
    (hA : ∀ e ∈ (blockLoop ins regs b s).trace, ReadsWholeWord e) :
    (blockLoop ins regs b' s).state = (blockLoop ins regs b s).state ∧
      (blockLoop ins regs b' s).trace = (blockLoop ins regs b s).trace ∧
      SameBlock (blockLoop ins regs b s).value (blockLoop ins regs b' s).value := by
  induction regs generalizing b b' with
  | nil => exact ⟨rfl, rfl, h⟩
  | cons ri rest ih =>
    by_cases hbit : getBit ins ri = true
    · have hsim : SameOnWords (blockLoop ins (ri :: rest) b) (blockLoop ins (ri :: rest) b') := by
        simp only [blockLoop, if_pos hbit]
        exact Sim.bind (blockStep_sameOnWords _ ri h) fun _ _ => Sim.refl _
      obtain ⟨hvalue, htrace, hstate, -, -⟩ := hsim s s rfl hA
      exact ⟨hstate.symm, htrace, by rw [hvalue], by rw [hvalue]⟩
    · simp only [blockLoop, if_neg hbit] at hA ⊢
      exact ih h hA

theorem armLoadStoreMultiple_sameOnWords (locals locals' : Locals) (ins : BitVec 32) :
    SameOnWords (armLoadStoreMultiple locals ins >>= fun _ => pure (some 0 : Option (BitVec 32)))
      (armLoadStoreMultiple locals' ins >>= fun _ => pure (some 0)) := by
  rintro s _ rfl hA
  have hbase : (armReadRegister (regField ins 16) s).state = s := rfl
  simp only [armLoadStoreMultiple, Traced.bind_value, Traced.bind_state, Traced.bind_trace,
    Traced.pure_apply, List.append_nil, hbase, List.mem_append] at hA ⊢
  generalize (armReadRegister (regField ins 16) s).value = base at hA ⊢
  have hsame : SameBlock
      { address := blockStart ins base, val := locals.val, res := locals.res, numberOfSetBits := 0 }
      { address := blockStart ins base, val := locals'.val, res := locals'.res,
        numberOfSetBits := 0 } := ⟨rfl, rfl⟩
  have hloop := blockLoop_sameOnWords ins (List.finRange 16) hsame fun e he =>
    hA e (Or.inr (Or.inl he))
  obtain ⟨hstate, htrace, hblock⟩ := hloop
  rw [hstate, htrace, hblock.numberOfSetBits]
  exact ⟨trivial, rfl, rfl, trivial, fun _ _ => trivial⟩

/-! ## Runs -/

section

variable (host : Host) (locals locals' : Locals)

theorem dispatch_sameOnWords (ins : BitVec 32) :
    SameOnWords (dispatch host locals ins) (dispatch host locals' ins) := by
  have hsingle : SameOnWords
      (armLoadStore host locals ins >>= fun _ => pure (some 0 : Option (BitVec 32)))
      (armLoadStore host locals' ins >>= fun _ => pure (some 0)) :=
    Sim.bind (armLoadStore_sameOnWords host locals locals' ins) fun _ _ => Sim.refl _
  unfold dispatch
  cases insType ins with
  | dataProcessingShift => exact Sim.ite (fun _ => hsingle) fun _ => Sim.refl _
  | loadStoreImmediate | loadStoreRegister => exact hsingle
  | loadStoreMultiple => exact armLoadStoreMultiple_sameOnWords locals locals' ins
  | _ => exact Sim.refl _

theorem armStep_sameOnWords : SameOnWords (armStep host locals) (armStep host locals') := by
  refine Sim.bind (V := fun _ => True) ?_ fun _ _ => Sim.refl _
  refine Sim.bind (Sim.refl _) fun cpsr _ => Sim.bind (Sim.refl _) fun fetched _ => ?_
  cases fetched with
  | error result => exact Sim.refl _
  | ok ins =>
    exact Sim.ite (fun _ => dispatch_sameOnWords host locals locals' ins) fun _ => Sim.refl _

end

/-- The calls are the same but for what the locals hold. -/
inductive SameCall : Call → Call → Prop
  | step (locals locals' : Locals) : SameCall (.step locals) (.step locals')
  | exception (code : BitVec 8) : SameCall (.exception code) (.exception code)

/-- The locals of the handlers are invisible to every run whose data reads are all
accepted reads of words. -/
theorem runCalls_locals_irrelevant (host : Host) {calls calls' : List Call}
    (hcalls : List.Forall₂ SameCall calls calls') (p : Core)
    (hwords : ∀ e ∈ (runCalls host calls p).trace, ReadsWholeWord e) :
    runCalls host calls' p = runCalls host calls p := by
  have hsim : SameOnWords (runCalls host calls) (runCalls host calls') := by
    refine Sim.runAll_of_forall₂ ?_ hcalls
    rintro _ _ (⟨locals, locals'⟩ | code)
    · exact armStep_sameOnWords host locals locals'
    · exact Sim.refl _
  obtain ⟨hvalue, htrace, hstate, -, -⟩ := hsim p p rfl hwords
  exact Outcome.eq_of_fields hvalue hstate.symm htrace

/-- A core about to push two registers and to pop them into two others. -/
def popCore : Core where
  cycleCount := 0
  reg i := if i = cpsrIndex then 0x10 else if i = 13 then 0x40 else 0
  mem := memoryOfWords true 0x40 [0xE92D0003, 0xE8BD000C]

theorem runCalls_locals_irrelevant_popCore :
    runCalls (Host.modular false) [.step ⟨5, 6⟩, .exception 7, .step ⟨7, 8⟩] popCore =
      runCalls (Host.modular false) [.step ⟨0, 0⟩, .exception 7, .step ⟨0, 0⟩] popCore :=
  runCalls_locals_irrelevant _
    (.cons (.step _ _) (.cons (.exception 7) (.cons (.step _ _) .nil))) _ (by decide +kernel)

end ArmSimulator
