/-
The byte order of the memory is invisible to a program that accesses words.

A big-endian and a little-endian memory that read the same word at every aligned
address stay so under aligned word writes, and no handler reaches memory but
through the accessors.  Two cores that differ in the byte order of their memory
therefore run in lockstep for as long as every fetch and every data access is a
word at an aligned address.
-/
import ArmSimulator.Proof.Respects

namespace ArmSimulator

open Traced (Sim)

/-- Two memories of opposite byte order that hold the same aligned words. -/
structure WordsAgree (big little : Memory) : Prop where
  size : little.size = big.size
  sizeAligned : big.size % 4 = 0
  isBig : big.isBigEndian = true
  isLittle : little.isBigEndian = false
  word : ∀ a : BitVec 32, a.toNat % 4 = 0 → memoryReadWord little a = memoryReadWord big a

theorem WordsAgree.storeWord {big little : Memory} (h : WordsAgree big little)
    (address value : BitVec 32) (hb : acceptsWordWrite big address) :
    WordsAgree (storeWord big address value) (storeWord little address value) where
  size := by rw [storeWord_size, storeWord_size, h.size]
  sizeAligned := by rw [storeWord_size, h.sizeAligned]
  isBig := by rw [storeWord_isBigEndian, h.isBig]
  isLittle := by rw [storeWord_isBigEndian, h.isLittle]
  word a ha := by
    have hl : acceptsWordWrite little address := ⟨h.size.symm ▸ hb.1, hb.2⟩
    by_cases he : address = a
    · subst he
      rw [memoryReadWord_storeWord_self hl, memoryReadWord_storeWord_self hb]
    · rw [memoryReadWord_storeWord_of_ne hb.2 ha he, memoryReadWord_storeWord_of_ne hb.2 ha he]
      exact h.word a ha

/-- The cores differ in the byte order of their memory only. -/
structure SameButByteOrder (p q : Core) : Prop where
  reg : q.reg = p.reg
  cycleCount : q.cycleCount = p.cycleCount
  mem : WordsAgree p.mem q.mem

/-- Every access to memory is a word at an aligned address. -/
def AlignedWord : Access → Prop
  | .memory _ size _ address _ => size = 4 ∧ address.toNat % 4 = 0
  | _ => True

instance (e : Access) : Decidable (AlignedWord e) := by
  cases e <;> unfold AlignedWord <;> infer_instance

/-- A computation on the registers alone. -/
def RegistersOnly {α : Type} (m : Arm α) : Prop :=
  ∀ (p : Core) (cycleCount : BitVec 32) (mem : Memory),
    m { p with cycleCount := cycleCount, mem := mem } =
      { m p with state := { (m p).state with cycleCount := cycleCount, mem := mem } }

theorem sim_of_registersOnly {α : Type} {m : Arm α} (hm : RegistersOnly m) :
    Sim SameButByteOrder AlignedWord (fun _ => True) (fun _ => True) m m := by
  intro s t h _
  have hs := hm s s.cycleCount s.mem
  have ht := hm s t.cycleCount t.mem
  have hst : { s with cycleCount := t.cycleCount, mem := t.mem } = t := by
    cases t
    simp only [Core.mk.injEq, true_and, and_true]
    exact h.reg.symm
  rw [hst] at ht
  refine ⟨by rw [ht], by rw [ht], ⟨by rw [ht], ?_, ?_⟩, trivial, fun _ _ => trivial⟩
  · rw [ht, hs]
    exact h.cycleCount
  · rw [ht, hs]
    exact h.mem

theorem readWord_sim (cause : Cause) (address : BitVec 32) :
    Sim SameButByteOrder AlignedWord (fun _ => True) (fun _ => True)
      (armRead 4 cause memoryReadWord address) (armRead 4 cause memoryReadWord address) := by
  intro s t h hA
  have haligned : address.toNat % 4 = 0 :=
    (hA (.memory .read 4 cause address _) (List.mem_singleton.mpr rfl)).2
  have hword := h.mem.word address haligned
  simp only [armRead, hword]
  exact ⟨trivial, trivial, h, trivial, fun _ _ => trivial⟩

theorem writeWord_sim (address value : BitVec 32) :
    Sim SameButByteOrder AlignedWord (fun _ => True) (fun _ => True)
      (armWriteWord address value) (armWriteWord address value) := by
  intro s t h _
  have hiff : acceptsWordWrite t.mem address ↔ acceptsWordWrite s.mem address := by
    unfold acceptsWordWrite
    rw [h.mem.size]
  simp only [armWriteWord, armWrite]
  by_cases hs : acceptsWordWrite s.mem address
  · rw [memoryWriteWord_ok hs, memoryWriteWord_ok (hiff.mpr hs)]
    exact ⟨rfl, rfl, ⟨h.reg, h.cycleCount, h.mem.storeWord address value hs⟩, trivial,
      fun _ _ => trivial⟩
  · rw [memoryWriteWord_error hs, memoryWriteWord_error (mt hiff.mp hs)]
    exact ⟨rfl, rfl, h, trivial, fun _ _ => trivial⟩

theorem sim_of_narrow {α : Type} {m : Arm α} {type : AccessType} {size : Nat} {address : BitVec 32}
    (hsize : size ≠ 4)
    (hm : ∀ p, ∃ result, Access.memory type size .otherAccess address result ∈ (m p).trace) :
    Sim SameButByteOrder AlignedWord (fun _ => True) (fun _ => True) m m := by
  intro s t _ hA
  obtain ⟨result, hmem⟩ := hm s
  exact absurd (hA _ hmem).1 hsize

theorem byteOrder_respects :
    RespectsExceptions SameButByteOrder AlignedWord (fun _ => True) (fun _ => True) where
  countCycle := fun s t h _ =>
    ⟨rfl, rfl, ⟨h.reg, congrArg (· + 1) h.cycleCount, h.mem⟩, trivial, fun _ _ => trivial⟩
  readRegister _ := sim_of_registersOnly fun _ _ _ => rfl
  readUsrRegister _ := sim_of_registersOnly fun _ _ _ => rfl
  readCpsr := sim_of_registersOnly fun _ _ _ => rfl
  readSpsr := by
    refine readSpsr_respects fun s t h => ?_
    simp only [armReadSpsr, h.reg]
    exact ⟨trivial, fun _ => ⟨trivial, trivial, trivial, fun _ _ => trivial⟩⟩
  writeRegister _ _ := sim_of_registersOnly fun _ _ _ => rfl
  writeUsrRegister _ _ := sim_of_registersOnly fun _ _ _ => rfl
  writeCpsr _ := sim_of_registersOnly fun _ _ _ => rfl
  writeSpsr _ := sim_of_registersOnly fun _ _ _ => rfl
  changeFlag _ _ _ _ := trivial
  readOpcode address := readWord_sim _ address
  readWord address := readWord_sim _ address
  readByte address := sim_of_narrow (by decide) fun _ => ⟨_, List.mem_singleton.mpr rfl⟩
  readHalf address := sim_of_narrow (by decide) fun _ => ⟨_, List.mem_singleton.mpr rfl⟩
  writeByte address _ := sim_of_narrow (by decide) fun _ => ⟨_, List.mem_singleton.mpr rfl⟩
  writeHalf address _ := sim_of_narrow (by decide) fun _ => ⟨_, List.mem_singleton.mpr rfl⟩
  writeWord address value := writeWord_sim address value
  resetCpsr := trivial
  exceptionCpsr _ _ := trivial

/-- Endianness transparency.  Over every sequence of steps and exceptions whose
accesses are all words at aligned addresses, the two cores return the same codes,
keep equal registers and cycle counts, and their memories agree on every aligned
word. -/
theorem byteOrder_transparent (host : Host) (calls : List Call) {p q : Core}
    (h : SameButByteOrder p q) (haligned : ∀ e ∈ (runCalls host calls p).trace, AlignedWord e) :
    (runCalls host calls q).value = (runCalls host calls p).value ∧
      SameButByteOrder (runCalls host calls p).state (runCalls host calls q).state := by
  obtain ⟨hv, -, h', -, -⟩ := runCalls_respects byteOrder_respects host calls p q h haligned
  exact ⟨hv, h'⟩

/-- A core about to push and pop two registers on a memory of the given byte
order. -/
def wordCore (isBigEndian : Bool) : Core where
  cycleCount := 0
  reg i := if i = cpsrIndex then 0x10 else if i = 13 then 0x40 else 0
  mem := memoryOfWords isBigEndian 0x40 [0xE92D0003, 0xE8BD000C]

theorem wordCore_sameButByteOrder : SameButByteOrder (wordCore true) (wordCore false) where
  reg := rfl
  cycleCount := rfl
  mem := {
    size := rfl
    sizeAligned := by decide
    isBig := rfl
    isLittle := rfl
    word := fun a ha => by
      unfold wordCore
      rw [memoryReadWord_memoryOfWords _ _ _ ha, memoryReadWord_memoryOfWords _ _ _ ha] }

theorem byteOrder_transparent_wordCore :
    let calls := [Call.step ⟨0, 0⟩, .exception 7, .step ⟨1, 1⟩]
    (∀ e ∈ (runCalls (Host.modular false) calls (wordCore true)).trace, AlignedWord e) ∧
      (runCalls (Host.modular false) calls (wordCore false)).value =
        (runCalls (Host.modular false) calls (wordCore true)).value ∧
      SameButByteOrder (runCalls (Host.modular false) calls (wordCore true)).state
        (runCalls (Host.modular false) calls (wordCore false)).state := by
  have haligned : ∀ e ∈ (runCalls (Host.modular false)
      [Call.step ⟨0, 0⟩, .exception 7, .step ⟨1, 1⟩] (wordCore true)).trace, AlignedWord e := by
    decide +kernel
  exact ⟨haligned, byteOrder_transparent _ _ wordCore_sameButByteOrder haligned⟩

end ArmSimulator
