/-
The register dumps of the commands `g` and `G`.

The dump is 42 fields of eight characters: sixteen registers, the placeholders of the
floating-point registers, and the status register.  As a text it is an image of the
sixteen words it reports, and each word of an image is read at its own offset, whatever
stands in the placeholders.
-/
import ArmSimulator.Proof.Requests
import ArmSimulator.Proof.Retransmission
import ArmSimulator.Proof.WordText

namespace ArmSimulator

namespace Gdb

/-! ## The dump -/

/-- A field of the dump reads the core and gives eight characters. -/
structure IsField (field : Arm (List (BitVec 8))) : Prop where
  state : ∀ p, (field p).state = p
  length : ∀ p, (field p).value.length = 8
  nonzero : ∀ p, ∀ c ∈ (field p).value, c ≠ 0

theorem isField_word (build : Build) {m : Arm (BitVec 32)} (hm : ∀ p, (m p).state = p)
    (f : BitVec 32 → BitVec 32) :
    IsField (do let value ← m; pure (writeUint32 build (f value))) where
  state p := hm p
  length _ := length_writeUint32 build _
  nonzero _ := writeUint32_nonzero build _

theorem isField_dumpFields (build : Build) : ∀ field ∈ dumpFields build, IsField field := by
  intro field h
  simp only [dumpFields, List.mem_append, List.mem_map, List.mem_cons, List.mem_replicate,
    List.not_mem_nil, or_false] at h
  rcases h with (⟨i, -, rfl⟩ | rfl | ⟨-, rfl⟩) | rfl
  · exact isField_word build (fun _ => rfl) id
  · exact isField_word build (fun _ => rfl) (· - 4)
  · have hnonzero : ∀ c ∈ text ['x', 'x', 'x', 'x', 'x', 'x', 'x', 'x'], c ≠ 0 := by decide
    exact ⟨fun _ => rfl, fun _ => rfl, fun _ => hnonzero⟩
  · exact isField_word build (fun _ => rfl) id

def dumpTexts (p : Core) (fields : List (Arm (List (BitVec 8)))) : List (List (BitVec 8)) :=
  fields.map fun field => (field p).value

/-- The payload of the reply to `g`. -/
def registerDump (build : Build) (p : Core) : List (BitVec 8) :=
  (dumpTexts p (dumpFields build)).flatten

theorem length_dumpTexts (build : Build) (p : Core) :
    ∀ t ∈ dumpTexts p (dumpFields build), t.length = 8 := by
  intro t ht
  obtain ⟨field, hfield, rfl⟩ := List.mem_map.mp ht
  exact (isField_dumpFields build field hfield).length p

theorem length_flatten {texts : List (List (BitVec 8))} (h : ∀ t ∈ texts, t.length = 8) :
    texts.flatten.length = 8 * texts.length := by
  induction texts with
  | nil => rfl
  | cons first texts ih =>
    have hfirst := h first List.mem_cons_self
    have hrest := ih fun t ht => h t (List.mem_cons_of_mem _ ht)
    rw [List.flatten_cons, List.length_append, List.length_cons]
    omega

theorem length_registerDump (build : Build) (p : Core) : (registerDump build p).length = 336 := by
  rw [registerDump, length_flatten (length_dumpTexts build p)]
  rfl

/-- The loop that fills the array puts the fields side by side. -/
theorem putFields_apply {fields : List (Arm (List (BitVec 8)))}
    (h : ∀ field ∈ fields, IsField field) {position : Nat}
    (hfit : position + 8 * fields.length < maxPacketSize) (g : Gdb) :
    (putFields position fields g).value = .ok () ∧
      (putFields position fields g).state =
        { g with packet := layTexts g.packet position (dumpTexts g.arm fields) } := by
  induction fields generalizing position g with
  | nil => exact ⟨rfl, rfl⟩
  | cons field rest ih =>
    rw [List.length_cons] at hfit
    have hfield := h field List.mem_cons_self
    have hlength := hfield.length g.arm
    have hread : onArm field g =
        { value := .ok (field g.arm).value, state := g,
          trace := (field g.arm).trace.map .core } := by
      rw [onArm, hfield.state]
    have hput := putString_apply
      (show position + (field g.arm).value.length < maxPacketSize by rw [hlength]; omega) g
    have hrest := ih (fun field hfield => h field (List.mem_cons_of_mem _ hfield))
      (show position + 8 + 8 * rest.length < maxPacketSize by omega)
      { g with packet := overwrite g.packet position ((field g.arm).value ++ [0]) }
    rw [putFields, Halting.bind_apply_ok (by rw [hread]), hread,
      Halting.bind_apply_ok (by rw [hput]), hput, dumpTexts, List.map_cons, layTexts, hlength]
    exact hrest

theorem putFields_dumpFields (build : Build) (g : Gdb) :
    ∃ packet, (putFields 1 (dumpFields build) g).value = .ok () ∧
      (putFields 1 (dumpFields build) g).state = { g with packet := packet } ∧
      StringAt packet 1 (registerDump build g.arm) := by
  have hfields := isField_dumpFields build
  have hcount : (dumpFields build).length = 42 := rfl
  obtain ⟨hvalue, hstate⟩ := putFields_apply hfields
    (show 1 + 8 * (dumpFields build).length < maxPacketSize by rw [hcount]; decide) g
  refine ⟨_, hvalue, hstate, stringAt_layTexts ?_ fun h => ?_⟩
  · intro t ht
    obtain ⟨field, hfield, rfl⟩ := List.mem_map.mp ht
    exact (hfields field hfield).nonzero g.arm
  · rw [dumpTexts, List.map_eq_nil_iff] at h
    rw [h] at hcount
    cases hcount

section

variable (build : Build) (ctx : Context) (data : List (BitVec 8)) (g : Gdb)

theorem readGeneralRegisters_state :
    (readGeneralRegisters build ctx data g).state.arm = g.arm ∧
      (readGeneralRegisters build ctx data g).state.connected = g.connected := by
  obtain ⟨packet, hvalue, hstate, -⟩ := putFields_dumpFields build g
  rw [readGeneralRegisters, Halting.bind_apply_ok hvalue, hstate]
  exact gdbSendBuffer_state { g with packet := packet }

theorem readGeneralRegisters_reply (hopen : g.connected = true) :
    lastReply (readGeneralRegisters build ctx data g).trace =
      some (frame (registerDump build g.arm)) := by
  obtain ⟨packet, hvalue, hstate, hstring⟩ := putFields_dumpFields build g
  have hlength := length_registerDump build g.arm
  have hwritten := gdbSendBuffer_written (g := { g with packet := packet }) hstring
    (by rw [hlength]; decide) hopen
  rw [readGeneralRegisters, Halting.bind_apply_ok hvalue, hstate, hwritten, lastReply_append]
  rfl

end

/-! ## Images -/

/-- The text of sixteen registers and a status register, with any characters in place of
the floating-point registers. -/
def image (build : Build) (f : Fin 16 → BitVec 32) (filler : List (BitVec 8))
    (cpsr : BitVec 32) : List (BitVec 8) :=
  ((List.finRange 16).map fun i => writeUint32 build (f i)).flatten ++
    (filler ++ writeUint32 build cpsr)

/-- The 25 fields that stand for the floating-point registers and their status. -/
def placeholders : List (BitVec 8) := List.replicate 200 (chr 'x')

theorem length_placeholders : placeholders.length = 200 := List.length_replicate

/-- The word the dump gives for a register: the program counter as the address of the
next fetch. -/
def reportedWord (p : Core) (i : Fin 16) : BitVec 32 :=
  if i = 15 then fetchAddress p.reg else ArmSimulator.readRegister p.reg i

/-- Both commands that report a register take the advance of the program counter off. -/
theorem armReadRegister_reported (p : Core) (i : Fin 16) :
    (armReadRegister i p).value - (if i = 15 then 4 else 0) = reportedWord p i := by
  by_cases hpc : i = 15
  · subst hpc
    simp only [armReadRegister, ArmSimulator.readRegister, registerIndex_pc, reportedWord, if_true]
    rfl
  · rw [if_neg hpc, reportedWord, if_neg hpc, armReadRegister_value_of_ne hpc]
    exact BitVec.sub_zero _

/-- The texts of the dump: the registers one by one, then the fields that stand for no
register of the core. -/
theorem dumpTexts_dumpFields (build : Build) (p : Core) :
    dumpTexts p (dumpFields build) =
      (List.finRange 16).map (fun i => writeUint32 build (reportedWord p i)) ++
        (List.replicate 25 (List.replicate 8 (chr 'x')) ++
          [writeUint32 build (readCpsr p.reg)]) := by
  have hrange : List.finRange 16 = [0, 1, 2, 3, 4, 5, 6, 7, 8, 9, 10, 11, 12, 13, 14] ++ [15] := by
    decide
  have hpc : (armReadRegister 15 p).value - 4 = reportedWord p 15 := armReadRegister_reported p 15
  have hregister : ∀ i ∈ ([0, 1, 2, 3, 4, 5, 6, 7, 8, 9, 10, 11, 12, 13, 14] : List (Fin 16)),
      writeUint32 build (armReadRegister i p).value = writeUint32 build (reportedWord p i) := by
    intro i hi
    have hne : i ≠ 15 := by
      rintro rfl
      revert hi
      decide
    rw [← armReadRegister_reported, if_neg hne]
    exact congrArg (writeUint32 build) (BitVec.sub_zero _).symm
  rw [hrange, List.map_append, ← List.map_congr_left hregister, List.map_singleton, ← hpc]
  rfl

theorem registerDump_eq_image (build : Build) (p : Core) :
    registerDump build p = image build (reportedWord p) placeholders (readCpsr p.reg) := by
  rw [registerDump, dumpTexts_dumpFields, List.flatten_append, List.flatten_append,
    List.flatten_replicate_replicate, List.flatten_singleton, image, placeholders]

theorem drop_flatten {texts : List (List (BitVec 8))} (h : ∀ t ∈ texts, t.length = 8) {i : Nat}
    {t : List (BitVec 8)} (hi : texts[i]? = some t) (rest : List (BitVec 8)) :
    ∃ rest', (texts.flatten ++ rest).drop (8 * i) = t ++ rest' := by
  induction texts generalizing i with
  | nil => cases hi
  | cons first texts ih =>
    have hfirst := h first List.mem_cons_self
    cases i with
    | zero =>
      cases hi
      exact ⟨texts.flatten ++ rest, by simp⟩
    | succ i =>
      obtain ⟨rest', hrest⟩ := ih (fun t ht => h t (List.mem_cons_of_mem _ ht)) hi
      refine ⟨rest', ?_⟩
      rw [List.flatten_cons, List.append_assoc, Nat.mul_succ, Nat.add_comm, ← List.drop_drop,
        List.drop_left' hfirst]
      exact hrest

/-- The field of a register in the dump. -/
theorem field_registerDump (build : Build) (p : Core) (i : Fin 16) :
    ((registerDump build p).drop (8 * i)).take 8 = writeUint32 build (reportedWord p i) := by
  have hi : (dumpTexts p (dumpFields build))[i.val]? =
      some (writeUint32 build (reportedWord p i)) := by
    rw [dumpTexts_dumpFields, List.getElem?_append_left (by simp)]
    simp
  obtain ⟨rest, hrest⟩ := drop_flatten (length_dumpTexts build p) hi []
  rw [List.append_nil] at hrest
  rw [registerDump, hrest, List.take_left' (length_writeUint32 build _)]

section

variable (build : Build) (value : BitVec 32) (f : Fin 16 → BitVec 32) {filler : List (BitVec 8)}
  (cpsr : BitVec 32) (rest : List (BitVec 8))

theorem length_imageTexts :
    ∀ t ∈ (List.finRange 16).map (fun i => writeUint32 build (f i)), t.length = 8 := by
  intro t ht
  obtain ⟨j, -, rfl⟩ := List.mem_map.mp ht
  exact length_writeUint32 build _

/-- Each word of an image is read at its own offset. -/
theorem readUint32_image (i : Fin 16) :
    readUint32 build value ((image build f filler cpsr ++ rest).drop (8 * i)) = f i := by
  have hi : ((List.finRange 16).map fun i => writeUint32 build (f i))[i.val]? =
      some (writeUint32 build (f i)) := by
    simp
  obtain ⟨rest', hrest⟩ := drop_flatten (length_imageTexts build f) hi
    (filler ++ writeUint32 build cpsr ++ rest)
  rw [image, List.append_assoc, hrest, readUint32_writeUint32]

theorem readUint32_image_cpsr (hfiller : filler.length = 200) :
    readUint32 build value ((image build f filler cpsr ++ rest).drop 328) = cpsr := by
  have hregisters := length_flatten (length_imageTexts build f)
  rw [List.length_map, List.length_finRange] at hregisters
  rw [image, List.append_assoc, List.append_assoc, show 328 = 128 + 200 from rfl, ← List.drop_drop,
    List.drop_left' hregisters, List.drop_left' hfiller, readUint32_writeUint32]

end

end Gdb

end ArmSimulator
