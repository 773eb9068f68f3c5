/-
Where a block transfer puts each register.

The loop goes through the list from the lowest register on and through the words from the
lowest address on, so that the register and the word of one turn are known from the number
of the turn.  This holds for every list, with or without write-back, in every mode; the
program counter is stored as it is read and loaded with bit 0 clear.
-/
import Mathlib.Data.List.FinRange
import ArmSimulator.Proof.BlockTransfer

namespace ArmSimulator

/-! ## The addresses of the architecture -/

/-- The address of the lowest word of a transfer of `n` registers with the base `b`. -/
def firstAddress (before up : Bool) (b : BitVec 32) (n : Nat) : BitVec 32 :=
  match up, before with
  | true, false => b
  | true, true => b + 4
  | false, false => b - BitVec.ofNat 32 (4 * n) + 4
  | false, true => b - BitVec.ofNat 32 (4 * n)

/-- The address of the word of the `k`-th lowest register. -/
def wordAddress (ins b : BitVec 32) (k : Nat) : BitVec 32 :=
  firstAddress (getBit ins 24) (getBit ins 23) b (blockList ins).length + BitVec.ofNat 32 (4 * k)

theorem blockSize_eq (ins : BitVec 32) :
    blockSize ins = BitVec.ofNat 32 (4 * (blockList ins).length) := by
  unfold blockSize
  rw [Nat.mul_comm, BitVec.ofNat_mul]
  rfl

theorem blockStart_eq_firstAddress (ins b : BitVec 32) :
    blockStart ins b =
      firstAddress (getBit ins 24) (getBit ins 23) b (blockList ins).length := by
  rw [blockStart_eq, blockSize_eq]
  cases getBit ins 23 <;> cases getBit ins 24 <;> simp [firstAddress]

theorem mem_blockAddresses {ins b a : BitVec 32} :
    a ∈ blockAddresses ins b ↔ ∃ k, k < (blockList ins).length ∧ a = wordAddress ins b k := by
  unfold blockAddresses wordAddress
  rw [blockStart_eq_firstAddress]
  exact mem_addresses

/-- The list names the registers from the lowest on. -/
theorem blockList_ascending (ins : BitVec 32) : (blockList ins).Pairwise (· < ·) :=
  (List.pairwise_lt_finRange 16).filter _

theorem blockList_nodup (ins : BitVec 32) : (blockList ins).Nodup :=
  (List.nodup_finRange 16).filter _

/-! ## Consecutive words, one by one -/

theorem wordsAt_map_iff {α : Type} {g : α → BitVec 32} {mem : Memory} {a : BitVec 32}
    {l : List α} :
    WordsAt mem a (l.map g) ↔ ∀ k : Fin l.length,
      memoryReadWord mem (a + BitVec.ofNat 32 (4 * k)) = .ok (g (l.get k)) := by
  induction l generalizing a with
  | nil => exact iff_of_true trivial fun k => k.elim0
  | cons x l ih =>
    rw [List.map_cons, WordsAt, ih]
    constructor
    · rintro ⟨hfirst, hrest⟩ ⟨k, hk⟩
      cases k with
      | zero => exact (congrArg (memoryReadWord mem) (BitVec.add_zero a)).trans hfirst
      | succ k =>
        have hword := hrest ⟨k, Nat.lt_of_succ_lt_succ hk⟩
        rwa [add_four_add] at hword
    · intro h
      refine ⟨?_, fun k => ?_⟩
      · have hword := h ⟨0, Nat.succ_pos _⟩
        rwa [Nat.mul_zero, BitVec.add_zero] at hword
      · have hword := h k.succ
        rwa [Fin.val_succ, ← add_four_add] at hword

theorem storeWords_isBigEndian (mem : Memory) (a : BitVec 32) (vs : List (BitVec 32)) :
    (storeWords mem a vs).isBigEndian = mem.isBigEndian := by
  induction vs generalizing mem a with
  | nil => rfl
  | cons v vs ih => rw [storeWords, ih, storeWord_isBigEndian]

/-- The word at an address inside the memory. -/
def wordAt (mem : Memory) (a : BitVec 32) : BitVec 32 :=
  match memoryReadWord mem a with
  | .ok word => word
  | .error _ => 0

theorem memoryReadWord_inside {mem : Memory} {a : BitVec 32} (h : a.toNat < mem.size) :
    memoryReadWord mem a = .ok (wordAt mem a) := by
  unfold wordAt
  cases hread : memoryReadWord mem a with
  | ok word => rfl
  | error code => exact absurd (memoryReadWord_eq_error.mp hread).2 (by omega)

/-! ## The outcome of a transfer -/

/-- LDM or STM without the S bit, whose base is not the program counter and, for a load, not
in the list. -/
structure IsMultiple (ins : BitVec 32) : Prop where
  type : getBits ins 27 25 = 0b100
  s : getBit ins 22 = false
  base : regField ins 16 ≠ 15
  baseNotListed : getBit ins 20 = true → getBit ins (regField ins 16) = false

/-- The base after the transfer. -/
def baseAfter (ins b : BitVec 32) : BitVec 32 :=
  if getBit ins 21 then
    if getBit ins 23 then b + BitVec.ofNat 32 (4 * (blockList ins).length)
    else b - BitVec.ofNat 32 (4 * (blockList ins).length)
  else b

/-- The outcome of a block transfer with the base `b`, from the core `s` to the core `t`. -/
structure BlockTransferred (ins b : BitVec 32) (s t : Core) : Prop where
  stored : getBit ins 20 = false → ∀ k : Fin (blockList ins).length,
    memoryReadWord t.mem (wordAddress ins b k) =
      .ok (armReadRegister ((blockList ins).get k) s).value
  loaded : getBit ins 20 = true → ∀ k : Fin (blockList ins).length,
    ∃ word, memoryReadWord s.mem (wordAddress ins b k) = .ok word ∧
      t.reg (registerIndex (getMode s.reg) ((blockList ins).get k)) =
        loadedWord ((blockList ins).get k) word
  base : t.reg (registerIndex (getMode s.reg) (regField ins 16)) = baseAfter ins b
  reg : ∀ i, i ≠ registerIndex (getMode s.reg) (regField ins 16) →
    (getBit ins 20 = true → ∀ ri ∈ blockList ins, i ≠ registerIndex (getMode s.reg) ri) →
    t.reg i = s.reg i
  mem : ∀ x, (getBit ins 20 = false → ∀ k : Fin (blockList ins).length,
    ¬covers (wordAddress ins b k) x) → t.mem.m x = s.mem.m x
  size : t.mem.size = s.mem.size
  isBigEndian : t.mem.isBigEndian = s.mem.isBigEndian
  cycleCount : t.cycleCount = s.cycleCount

/-- The loop of a load leaves the words in the registers of the list, and nothing else. -/
theorem blockTransfer_loaded {ins b : BitVec 32} {s : Core} {x : Block}
    (hx : x.address = blockStart ins b)
    (haddr : ∀ k, k < (blockList ins).length → (wordAddress ins b k).toNat < s.mem.size) :
    ∃ reg : Registers,
      (∀ k : Fin (blockList ins).length,
        ∃ word, memoryReadWord s.mem (wordAddress ins b k) = .ok word ∧
          reg (registerIndex (getMode s.reg) ((blockList ins).get k)) =
            loadedWord ((blockList ins).get k) word) ∧
      (∀ i, (∀ ri ∈ blockList ins, i ≠ registerIndex (getMode s.reg) ri) → reg i = s.reg i) ∧
      (blockTransfer true (blockList ins) x s).state = { s with reg := reg } := by
  let idx := registerIndex (getMode s.reg)
  have hinj : Function.Injective idx := registerIndex_injective_any (getMode s.reg)
  -- The word of a register is the one at its place in the list.
  let g := fun ri => wordAt s.mem (wordAddress ins b ((blockList ins).idxOf ri))
  have hg : ∀ k : Fin (blockList ins).length,
      memoryReadWord s.mem (wordAddress ins b k) = .ok (g ((blockList ins).get k)) := by
    intro k
    show _ = Except.ok (wordAt s.mem (wordAddress ins b _))
    rw [List.get_idxOf (blockList_nodup ins) k]
    exact memoryReadWord_inside (haddr k k.isLt)
  have hwords : WordsAt s.mem x.address ((blockList ins).map g) := by
    rw [hx, blockStart_eq_firstAddress]
    exact wordsAt_map_iff.mpr hg
  let f : Registers := Function.extend idx (fun ri => loadedWord ri (g ri)) s.reg
  have hf : ∀ ri, f (idx ri) = loadedWord ri (g ri) := fun ri => hinj.extend_apply _ _ ri
  refine ⟨fun i => if i ∈ (blockList ins).map idx then f i else s.reg i, ?_, ?_, ?_⟩
  · intro k
    refine ⟨_, hg k, ?_⟩
    exact (if_pos (List.mem_map_of_mem (List.get_mem _ k))).trans (hf _)
  · intro i hi
    refine if_neg fun hmem => ?_
    obtain ⟨ri, hri, heq⟩ := List.mem_map.mp hmem
    exact hi ri hri heq.symm
  · exact blockTransfer_load f g (blockList ins) x s (fun ri _ => hf ri) hwords

section

variable {ins : BitVec 32} (h : IsMultiple ins) (locals : Locals) (s : Core)
include h

/-- The core the loop leaves, then the write-back.  Without W the base is written with the
value it has. -/
theorem armLoadStoreMultiple_state {t : Core}
    (ht : (blockTransfer (getBit ins 20) (blockList ins)
      { address := blockStart ins (readRegister s.reg (regField ins 16)), val := locals.val,
        res := locals.res, numberOfSetBits := 0 } s).state = t)
    (hmode : getMode t.reg = getMode s.reg)
    (hbase : readRegister t.reg (regField ins 16) = readRegister s.reg (regField ins 16)) :
    (armLoadStoreMultiple locals ins s).state =
      { t with
        reg := Function.update t.reg (registerIndex (getMode s.reg) (regField ins 16))
          (baseAfter ins (readRegister s.reg (regField ins 16))) } := by
  have hstate : (armReadRegister (regField ins 16) s).state = s := rfl
  have hread : (armReadRegister (regField ins 16) s).value =
      readRegister s.reg (regField ins 16) := armReadRegister_value_of_ne h.base s
  simp only [armLoadStoreMultiple, Traced.bind_state, hread, hstate, blockLoop_eq]
  rw [← blockList, blockTransfer_count, blockBase_eq, blockSize_eq, baseAfter, ht, ← hmode]
  cases getBit ins 21 with
  | true => rfl
  | false =>
    have hself : Function.update t.reg (registerIndex (getMode t.reg) (regField ins 16))
        (readRegister s.reg (regField ins 16)) = t.reg := by
      rw [← hbase]
      exact Function.update_eq_self _ _
    show t = { t with reg := Function.update t.reg _ (readRegister s.reg (regField ins 16)) }
    rw [hself]

theorem blockStored (hs : getBit ins 20 = false)
    (haddr : ∀ k, k < (blockList ins).length →
      acceptsWordWrite s.mem (wordAddress ins (readRegister s.reg (regField ins 16)) k)) :
    BlockTransferred ins (readRegister s.reg (regField ins 16)) s
      (armLoadStoreMultiple locals ins s).state := by
  let b := readRegister s.reg (regField ins 16)
  let value := fun ri => pcBias ri (readRegister s.reg ri)
  let mem := storeWords s.mem (blockStart ins b) ((blockList ins).map value)
  have hcore : (armLoadStoreMultiple locals ins s).state =
      { s with
        reg := Function.update s.reg (registerIndex (getMode s.reg) (regField ins 16))
          (baseAfter ins b)
        mem := mem } := by
    have hloop := blockTransfer_store (blockList ins)
      { address := blockStart ins b, val := locals.val, res := locals.res, numberOfSetBits := 0 } s
    rw [← hs] at hloop
    exact armLoadStoreMultiple_state h locals s hloop rfl rfl
  have hlen := blockList_length ins
  have hwords : WordsAt mem (blockStart ins b) ((blockList ins).map value) := by
    refine wordsAt_storeWords ?_ fun x hx => ?_
    · rw [List.length_map]
      omega
    · rw [List.length_map] at hx
      obtain ⟨k, hk, rfl⟩ := mem_blockAddresses.mp hx
      exact haddr k hk
  rw [hcore]
  exact
    { stored := by
        intro _ k
        have hword := wordsAt_map_iff.mp hwords k
        rwa [blockStart_eq_firstAddress] at hword
      loaded := fun hl => absurd (hs.symm.trans hl) (by decide)
      base := Function.update_self _ _ _
      reg := fun i hi _ => Function.update_of_ne hi _ _
      mem := by
        intro x hx
        refine storeWords_m_of_not_covers fun a ha => ?_
        rw [List.length_map] at ha
        obtain ⟨k, hk, rfl⟩ := mem_blockAddresses.mp ha
        exact hx hs ⟨k, hk⟩
      size := storeWords_size _ _ _
      isBigEndian := storeWords_isBigEndian _ _ _
      cycleCount := rfl }

theorem blockLoaded (hl : getBit ins 20 = true)
    (haddr : ∀ k, k < (blockList ins).length →
      (wordAddress ins (readRegister s.reg (regField ins 16)) k).toNat < s.mem.size) :
    BlockTransferred ins (readRegister s.reg (regField ins 16)) s
      (armLoadStoreMultiple locals ins s).state := by
  obtain ⟨reg, hloaded, hrest, hloop⟩ := blockTransfer_loaded
    (x := { address := blockStart ins (readRegister s.reg (regField ins 16)), val := locals.val,
            res := locals.res, numberOfSetBits := 0 }) rfl haddr
  rw [← hl] at hloop
  have hmode : getMode reg = getMode s.reg :=
    congrArg modeField (hrest cpsrIndex fun ri _ => (registerIndex_ne_cpsr _ ri).symm)
  have hbase : ∀ ri ∈ blockList ins,
      registerIndex (getMode s.reg) (regField ins 16) ≠ registerIndex (getMode s.reg) ri := by
    intro ri hri heq
    rw [← registerIndex_injective_any _ heq, mem_blockList, h.baseNotListed hl] at hri
    exact absurd hri (by decide)
  have hread : readRegister reg (regField ins 16) = readRegister s.reg (regField ins 16) := by
    unfold readRegister
    rw [hmode]
    exact hrest _ hbase
  rw [armLoadStoreMultiple_state h locals s hloop hmode hread]
  exact
    { stored := fun hs => absurd (hs.symm.trans hl) (by decide)
      loaded := by
        intro _ k
        obtain ⟨word, hword, hreg⟩ := hloaded k
        have hne := (hbase _ (List.get_mem _ k)).symm
        exact ⟨word, hword, (Function.update_of_ne hne _ _).trans hreg⟩
      base := Function.update_self _ _ _
      reg := fun i hi hlist => (Function.update_of_ne hi _ _).trans (hrest i (hlist hl))
      mem := fun _ _ => rfl
      size := rfl
      isBigEndian := rfl
      cycleCount := rfl }

end

/-- A block transfer pairs the `k`-th lowest register of its list with the `k`-th word, stores
what the registers held before it, and changes nothing but the words or registers of the
list and the base. -/
theorem armLoadStoreMultiple_outcome (locals : Locals) (ins : BitVec 32) (s : Core)
    (h : IsMultiple ins)
    (haddr : ∀ k, k < (blockList ins).length →
      (wordAddress ins (readRegister s.reg (regField ins 16)) k).toNat % 4 = 0 ∧
        (wordAddress ins (readRegister s.reg (regField ins 16)) k).toNat < s.mem.size) :
    (blockList ins).Pairwise (· < ·) ∧ (∀ ri, ri ∈ blockList ins ↔ getBit ins ri = true) ∧
      (∀ p, s = afterFetch p → (armReadRegister 15 s).value = fetchAddress p.reg + 8) ∧
      BlockTransferred ins (readRegister s.reg (regField ins 16)) s
        (armLoadStoreMultiple locals ins s).state := by
  refine ⟨blockList_ascending ins, fun ri => mem_blockList, ?_, ?_⟩
  · rintro p rfl
    exact armReadRegister_pc p
  · cases hload : getBit ins 20 with
    | false => exact blockStored h locals s hload fun k hk => ⟨(haddr k hk).2, (haddr k hk).1⟩
    | true => exact blockLoaded h locals s hload fun k hk => (haddr k hk).2

/-- `LDMIA r4!, {r0, r1, pc}` with 0x20 in `r4`, words in memory and no fetch before it. -/
def loadCore : Core where
  cycleCount := 0
  reg := fun i => if i = 4 then 0x20 else if i = cpsrIndex then 0x10 else 0
  mem := memoryOfWords false 64 [0, 0, 0, 0, 0, 0, 0, 0, 7, 9, 0x15]

theorem armLoadStoreMultiple_outcome_loadCore :
    BlockTransferred 0xE8B48003 0x20 loadCore
      (armLoadStoreMultiple ⟨0, 0⟩ 0xE8B48003 loadCore).state :=
  (armLoadStoreMultiple_outcome ⟨0, 0⟩ 0xE8B48003 loadCore
    ⟨by decide, by decide, by decide, by decide⟩ (by decide +kernel)).2.2.2

end ArmSimulator
