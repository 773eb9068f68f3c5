/-
Block transfers.

The loop of `arm_load_store_multiple` visits the registers of the list from r0 on
and moves one word at each turn, at ascending addresses, whatever the address mode.
A store therefore leaves the words of the list at consecutive addresses, and a load
that starts at the same address puts each word back where it came from.  The four
modes differ only in where they start, and complementary modes start at the same
address.
-/
import ArmSimulator.Model.Instruction

namespace ArmSimulator

/-! ## Consecutive words -/

/-- The addresses of `n` consecutive words. -/
def addresses (a : BitVec 32) : Nat → List (BitVec 32)
  | 0 => []
  | n + 1 => a :: addresses (a + 4) n

theorem add_four_add (a : BitVec 32) (k : Nat) :
    a + 4 + BitVec.ofNat 32 (4 * k) = a + BitVec.ofNat 32 (4 * (k + 1)) := by
  rw [BitVec.add_assoc, Nat.mul_add, Nat.add_comm, BitVec.ofNat_add]
  rfl

theorem mem_addresses {a x : BitVec 32} {n : Nat} :
    x ∈ addresses a n ↔ ∃ k, k < n ∧ x = a + BitVec.ofNat 32 (4 * k) := by
  induction n generalizing a with
  | zero => simp [addresses]
  | succ n ih =>
    rw [addresses, List.mem_cons, ih]
    constructor
    · rintro (rfl | ⟨k, hk, rfl⟩)
      · exact ⟨0, by omega, by simp⟩
      · exact ⟨k + 1, by omega, add_four_add a k⟩
    · rintro ⟨k, hk, rfl⟩
      cases k with
      | zero => exact Or.inl (by simp)
      | succ k => exact Or.inr ⟨k, by omega, (add_four_add a k).symm⟩

theorem not_mem_addresses (a : BitVec 32) {n : Nat} (hn : n < 2 ^ 30) : a ∉ addresses (a + 4) n := by
  intro h
  obtain ⟨k, hk, heq⟩ := mem_addresses.mp h
  have hnat := congrArg BitVec.toNat heq
  have h4 : (4 : BitVec 32).toNat = 4 := rfl
  rw [BitVec.toNat_add, BitVec.toNat_add, BitVec.toNat_ofNat, h4] at hnat
  have := a.isLt
  omega

def storeWords (mem : Memory) (a : BitVec 32) : List (BitVec 32) → Memory
  | [] => mem
  | v :: vs => storeWords (storeWord mem a v) (a + 4) vs

def WordsAt (mem : Memory) (a : BitVec 32) : List (BitVec 32) → Prop
  | [] => True
  | v :: vs => memoryReadWord mem a = .ok v ∧ WordsAt mem (a + 4) vs

theorem storeWords_size (mem : Memory) (a : BitVec 32) (vs : List (BitVec 32)) :
    (storeWords mem a vs).size = mem.size := by
  induction vs generalizing mem a with
  | nil => rfl
  | cons v vs ih => rw [storeWords, ih, storeWord_size]

theorem storeWords_m_of_not_covers {mem : Memory} {a i : BitVec 32} {vs : List (BitVec 32)}
    (h : ∀ x ∈ addresses a vs.length, ¬covers x i) : (storeWords mem a vs).m i = mem.m i := by
  induction vs generalizing mem a with
  | nil => rfl
  | cons v vs ih =>
    rw [storeWords, ih fun x hx => h x (List.mem_cons_of_mem _ hx),
      storeWord_m_of_not_covers (h a List.mem_cons_self)]

theorem memoryReadWord_storeWords_of_not_mem {mem : Memory} {a b : BitVec 32}
    {vs : List (BitVec 32)} (hb : b.toNat % 4 = 0)
    (ha : ∀ x ∈ addresses a vs.length, x.toNat % 4 = 0) (hne : b ∉ addresses a vs.length) :
    memoryReadWord (storeWords mem a vs) b = memoryReadWord mem b := by
  induction vs generalizing mem a with
  | nil => rfl
  | cons v vs ih =>
    rw [storeWords, ih (fun x hx => ha x (List.mem_cons_of_mem _ hx))
      (fun hx => hne (List.mem_cons_of_mem _ hx))]
    exact memoryReadWord_storeWord_of_ne (ha a List.mem_cons_self) hb
      (fun heq => hne (heq ▸ List.mem_cons_self)) v

theorem wordsAt_storeWords {mem : Memory} {a : BitVec 32} {vs : List (BitVec 32)}
    (hlen : vs.length < 2 ^ 30)
    (h : ∀ x ∈ addresses a vs.length, acceptsWordWrite mem x) :
    WordsAt (storeWords mem a vs) a vs := by
  induction vs generalizing mem a with
  | nil => trivial
  | cons v vs ih =>
    rw [List.length_cons] at hlen
    have ha : acceptsWordWrite mem a := h a List.mem_cons_self
    have hrest : ∀ x ∈ addresses (a + 4) vs.length, acceptsWordWrite mem x :=
      fun x hx => h x (List.mem_cons_of_mem _ hx)
    refine ⟨?_, ih (by omega) fun x hx => ?_⟩
    · -- The later words lie at other addresses.
      rw [storeWords, memoryReadWord_storeWords_of_not_mem ha.2 (fun x hx => (hrest x hx).2)
        (not_mem_addresses a (by omega)), memoryReadWord_storeWord_self ha]
    · unfold acceptsWordWrite
      rw [storeWord_size]
      exact hrest x hx

/-! ## The loop -/

/-- The registers of the list of a block transfer, in the order of the loop. -/
def blockList (ins : BitVec 32) : List (Fin 16) :=
  (List.finRange 16).filter fun ri => getBit ins ri

/-- The loop over the registers of the list alone. -/
def blockTransfer (isLoad : Bool) : List (Fin 16) → Block → Arm Block
  | [], b => pure b
  | ri :: rest, b => do
    let b ← blockStep isLoad ri b
    blockTransfer isLoad rest b

theorem blockLoop_eq (ins : BitVec 32) (regs : List (Fin 16)) (b : Block) :
    blockLoop ins regs b =
      blockTransfer (getBit ins 20) (regs.filter fun ri => getBit ins ri) b := by
  induction regs generalizing b with
  | nil => rfl
  | cons ri rest ih =>
    by_cases hbit : getBit ins ri = true
    · rw [List.filter_cons_of_pos (by simpa using hbit), blockLoop, if_pos hbit, blockTransfer]
      exact congrArg _ (funext ih)
    · rw [List.filter_cons_of_neg (by simpa using hbit), blockLoop, if_neg hbit, ← ih]
      rfl

theorem mem_blockList {ins : BitVec 32} {ri : Fin 16} : ri ∈ blockList ins ↔ getBit ins ri = true := by
  simp [blockList]

theorem blockList_length (ins : BitVec 32) : (blockList ins).length ≤ 16 := by
  have h := List.length_filter_le (fun ri => getBit ins (ri : Fin 16)) (List.finRange 16)
  rwa [List.length_finRange] at h

theorem blockStep_next (isLoad : Bool) (ri : Fin 16) (b : Block) (s : Core) :
    (blockStep isLoad ri b s).value.address = b.address + 4 ∧
      (blockStep isLoad ri b s).value.numberOfSetBits = b.numberOfSetBits + 1 := by
  cases isLoad <;> exact ⟨rfl, rfl⟩

theorem blockTransfer_count (isLoad : Bool) (regs : List (Fin 16)) (b : Block) (s : Core) :
    (blockTransfer isLoad regs b s).value.numberOfSetBits =
      b.numberOfSetBits + BitVec.ofNat 8 regs.length := by
  induction regs generalizing b s with
  | nil => exact (BitVec.add_zero _).symm
  | cons ri rest ih =>
    rw [blockTransfer, Traced.bind_value, ih, (blockStep_next isLoad ri b s).2, List.length_cons,
      Nat.add_comm, BitVec.ofNat_add, BitVec.add_assoc]
    rfl

theorem blockTransfer_store (regs : List (Fin 16)) (b : Block) (s : Core) :
    (blockTransfer false regs b s).state =
      { s with
        mem := storeWords s.mem b.address
          (regs.map fun ri => pcBias ri (readRegister s.reg ri)) } := by
  induction regs generalizing b s with
  | nil => rfl
  | cons ri rest ih =>
    have hstate : (blockStep false ri b s).state =
        { s with mem := storeWord s.mem b.address (pcBias ri (readRegister s.reg ri)) } := rfl
    rw [blockTransfer, Traced.bind_state, ih, hstate, (blockStep_next false ri b s).1]
    rfl

/-- The value a register is given for the word loaded for it. -/
def loadedWord (ri : Fin 16) (word : BitVec 32) : BitVec 32 :=
  if ri = 15 then word &&& 0xFFFFFFFE else word

/-- A load from consecutive addresses that hold the words `g` gives the registers of the list
their values in `f`. -/
theorem blockTransfer_load (f : Registers) (g : Fin 16 → BitVec 32) (regs : List (Fin 16))
    (b : Block) (s : Core)
    (hf : ∀ ri ∈ regs, f (registerIndex (getMode s.reg) ri) = loadedWord ri (g ri))
    (hw : WordsAt s.mem b.address (regs.map g)) :
    (blockTransfer true regs b s).state =
      { s with reg := fun i =>
        if i ∈ regs.map (registerIndex (getMode s.reg)) then f i else s.reg i } := by
  induction regs generalizing b s with
  | nil => simp [blockTransfer]
  | cons ri rest ih =>
    obtain ⟨hread, hrest⟩ := hw
    let idx := registerIndex (getMode s.reg)
    let s' : Core := { s with reg := Function.update s.reg (idx ri) (f (idx ri)) }
    have hmode : getMode s'.reg = getMode s.reg := by
      unfold getMode
      rw [readCpsr_update_of_ne _ (registerIndex_ne_cpsr _ _)]
    have hstate : (blockStep true ri b s).state = s' := by
      simp only [blockStep, readInto, armReadWord, armRead, Traced.bind_state, Traced.bind_value,
        hread, if_true, Traced.pure_apply]
      show { s with reg := Function.update s.reg (idx ri) (loadedWord ri (g ri)) } = s'
      rw [← hf ri List.mem_cons_self]
    have hnext := (blockStep_next true ri b s).1
    have hf' : ∀ r ∈ rest, f (registerIndex (getMode s'.reg) r) = loadedWord r (g r) := by
      intro r hr
      rw [hmode]
      exact hf r (List.mem_cons_of_mem _ hr)
    rw [blockTransfer, Traced.bind_state, hstate, ih _ s' hf' (by rw [hnext]; exact hrest), hmode]
    -- A register of the rest keeps what the rest gives it; the first one was given its value here.
    have hreg : ∀ i, (if i ∈ rest.map idx then f i else s'.reg i) =
        if i ∈ idx ri :: rest.map idx then f i else s.reg i := by
      intro i
      by_cases hmem : i ∈ rest.map idx
      · rw [if_pos hmem, if_pos (List.mem_cons_of_mem _ hmem)]
      · rw [if_neg hmem]
        by_cases hi : i = idx ri
        · rw [if_pos (hi ▸ List.mem_cons_self), hi]
          exact Function.update_self _ _ _
        · rw [if_neg (fun h => (List.mem_cons.mp h).elim hi hmem)]
          exact Function.update_of_ne hi _ _
    exact congrArg (fun reg => ({ s with reg := reg } : Core)) (funext hreg)

/-! ## Where a transfer starts -/

def blockSize (ins : BitVec 32) : BitVec 32 := BitVec.ofNat 32 (blockList ins).length * 4

theorem blockDescent (ins : BitVec 32) (regs : List (Fin 16)) (base : BitVec 32) :
    regs.foldl (fun a (ri : Fin 16) => if getBit ins ri then a - 4 else a) base =
      base - BitVec.ofNat 32 (regs.filter fun (ri : Fin 16) => getBit ins ri).length * 4 := by
  induction regs generalizing base with
  | nil => simp
  | cons ri rest ih =>
    rw [List.foldl_cons, ih]
    by_cases hbit : getBit ins ri = true
    · rw [if_pos hbit, List.filter_cons_of_pos (by simpa using hbit), List.length_cons,
        BitVec.ofNat_add, BitVec.add_mul, sub_sub, add_comm]
      rfl
    · rw [if_neg hbit, List.filter_cons_of_neg (by simpa using hbit)]

theorem blockStart_eq (ins base : BitVec 32) :
    blockStart ins base =
      (if getBit ins 23 then base else base - blockSize ins) +
        (if getBit ins 23 = getBit ins 24 then 4 else 0) := by
  unfold blockStart blockSize blockList
  rw [blockDescent]
  by_cases h : getBit ins 23 = getBit ins 24
  · rw [if_pos h, if_pos h]
  · rw [if_neg h, if_neg h]
    exact (BitVec.add_zero _).symm

theorem blockBase_eq (ins base : BitVec 32) :
    blockBase ins base (0 + BitVec.ofNat 8 (blockList ins).length) =
      if getBit ins 23 then base + blockSize ins else base - blockSize ins := by
  have hlen := blockList_length ins
  have hwidth : (0 + BitVec.ofNat 8 (blockList ins).length).setWidth 32 =
      BitVec.ofNat 32 (blockList ins).length := by
    apply BitVec.eq_of_toNat_eq
    simp
    omega
  unfold blockBase blockSize
  rw [hwidth]

/-- A store and the load that undoes it. -/
structure Complementary (stm ldm : BitVec 32) : Prop where
  store : getBit stm 20 = false
  load : getBit ldm 20 = true
  base : regField ldm 16 = regField stm 16
  list : ∀ i, i < 16 → getBit ldm i = getBit stm i
  before : getBit ldm 24 = !getBit stm 24
  up : getBit ldm 23 = !getBit stm 23

section

variable {stm ldm : BitVec 32} (h : Complementary stm ldm)
include h

theorem Complementary.blockList_eq : blockList ldm = blockList stm := by
  unfold blockList
  congr 1
  funext ri
  exact h.list ri ri.isLt

theorem Complementary.blockStart_eq (base : BitVec 32) :
    blockStart ldm (blockBase stm base (0 + BitVec.ofNat 8 (blockList stm).length)) =
      blockStart stm base := by
  have hsize : blockSize ldm = blockSize stm := by
    unfold blockSize
    rw [h.blockList_eq]
  rw [ArmSimulator.blockStart_eq, ArmSimulator.blockStart_eq, blockBase_eq, hsize, h.before, h.up]
  cases getBit stm 23 <;> cases getBit stm 24 <;> simp

theorem Complementary.blockBase_eq (base : BitVec 32) :
    blockBase ldm (blockBase stm base (0 + BitVec.ofNat 8 (blockList stm).length))
      (0 + BitVec.ofNat 8 (blockList ldm).length) = base := by
  have hsize : blockSize ldm = blockSize stm := by
    unfold blockSize
    rw [h.blockList_eq]
  rw [ArmSimulator.blockBase_eq, ArmSimulator.blockBase_eq, hsize, h.up]
  cases getBit stm 23 <;> simp

end

/-! ## The instructions -/

/-- LDM or STM with write-back and without the S bit, whose list has neither the base
nor the program counter. -/
structure IsBlockTransfer (ins : BitVec 32) : Prop where
  type : getBits ins 27 25 = 0b100
  s : getBit ins 22 = false
  writeBack : getBit ins 21 = true
  base : regField ins 16 ≠ 15
  pc : getBit ins 15 = false
  baseNotListed : getBit ins (regField ins 16) = false

def blockAddresses (ins base : BitVec 32) : List (BitVec 32) :=
  addresses (blockStart ins base) (blockList ins).length

section

variable {ins : BitVec 32} (h : IsBlockTransfer ins)
include h

theorem IsBlockTransfer.pc_not_mem : (15 : Fin 16) ∉ blockList ins := by
  rw [mem_blockList]
  exact fun hpc => absurd (h.pc.symm.trans hpc) (by decide)

theorem IsBlockTransfer.readBase (s : Core) :
    (armReadRegister (regField ins 16) s).value = readRegister s.reg (regField ins 16) :=
  armReadRegister_value_of_ne h.base s

theorem armLoadStoreMultiple_store (hs : getBit ins 20 = false) (locals : Locals) (s : Core) :
    (armLoadStoreMultiple locals ins s).state =
      { s with
        reg := writeRegister s.reg (regField ins 16)
          (blockBase ins (readRegister s.reg (regField ins 16))
            (0 + BitVec.ofNat 8 (blockList ins).length))
        mem := storeWords s.mem (blockStart ins (readRegister s.reg (regField ins 16)))
          ((blockList ins).map (readRegister s.reg)) } := by
  have hstate : (armReadRegister (regField ins 16) s).state = s := rfl
  simp only [armLoadStoreMultiple, Traced.bind_state, h.readBase, hstate, blockLoop_eq,
    hs, h.writeBack, if_true, Traced.pure_apply]
  have hvalues : ((blockList ins).map fun ri => pcBias ri (readRegister s.reg ri)) =
      (blockList ins).map (readRegister s.reg) := by
    refine List.map_congr_left fun ri hri => ?_
    exact if_neg fun hpc : ri = 15 => h.pc_not_mem (hpc ▸ hri)
  rw [← blockList, blockTransfer_count, blockTransfer_store, hvalues]
  rfl

theorem armLoadStoreMultiple_load (hl : getBit ins 20 = true) (locals : Locals) (f : Registers)
    (s : Core)
    (hw : WordsAt s.mem (blockStart ins (readRegister s.reg (regField ins 16)))
      ((blockList ins).map fun ri => f (registerIndex (getMode s.reg) ri))) :
    (armLoadStoreMultiple locals ins s).state =
      { s with
        reg := writeRegister
          (fun i => if i ∈ (blockList ins).map (registerIndex (getMode s.reg)) then f i
            else s.reg i)
          (regField ins 16)
          (blockBase ins (readRegister s.reg (regField ins 16))
            (0 + BitVec.ofNat 8 (blockList ins).length)) } := by
  have hstate : (armReadRegister (regField ins 16) s).state = s := rfl
  simp only [armLoadStoreMultiple, Traced.bind_state, h.readBase, hstate, blockLoop_eq,
    hl, h.writeBack, if_true, Traced.pure_apply]
  have hloaded : ∀ ri ∈ blockList ins, f (registerIndex (getMode s.reg) ri) =
      loadedWord ri (f (registerIndex (getMode s.reg) ri)) := by
    intro ri hri
    exact (if_neg fun hpc : ri = 15 => h.pc_not_mem (hpc ▸ hri)).symm
  rw [← blockList, blockTransfer_count, blockTransfer_load f _ _ _ _ hloaded hw]
  rfl

theorem armStep_blockTransfer (host : Host) (locals : Locals) {p : Core}
    (hf : fetched p = .ok ins) (hc : executes (readCpsr p.reg) ins = true) :
    (armStep host locals p).state = (armLoadStoreMultiple locals ins (afterFetch p)).state := by
  have htype : insType ins = .loadStoreMultiple := insType_of_getBits h.type
  have hzero : (dispatch host locals ins (afterFetch p)).value = some 0 := by
    simp only [dispatch, htype, Traced.bind_value, Traced.pure_apply]
  rw [(armStep_of_fetched host locals hf hc hzero).2]
  simp only [dispatch, htype, Traced.bind_state, Traced.pure_apply]

end

/-! ## A load undoes a store -/

/-- `q` is `p` with other values in the registers of the list.  The program counter is
free, so that the next instruction can be anywhere. -/
structure ListChanged (ins : BitVec 32) (p q : Core) : Prop where
  mem : q.mem = p.mem
  reg : ∀ i, i ≠ 15 → i ∉ (blockList ins).map (registerIndex (getMode p.reg)) → q.reg i = p.reg i

theorem cpsrIndex_not_mem (mode : BitVec 8) (regs : List (Fin 16)) :
    cpsrIndex ∉ regs.map (registerIndex mode) := by
  intro hmem
  obtain ⟨ri, -, hri⟩ := List.mem_map.mp hmem
  exact registerIndex_ne_cpsr mode ri hri

section

variable {ins : BitVec 32} {p q : Core}

theorem ListChanged.getMode_eq (h : ListChanged ins p q) : getMode q.reg = getMode p.reg := by
  unfold getMode readCpsr
  rw [h.reg cpsrIndex (by decide) (cpsrIndex_not_mem _ _)]

theorem ListChanged.readBase (h : ListChanged ins p q) (hins : IsBlockTransfer ins)
    (hm : Mode.Valid (getMode p.reg)) :
    readRegister q.reg (regField ins 16) = readRegister p.reg (regField ins 16) := by
  unfold readRegister
  rw [h.getMode_eq, h.reg _ (registerIndex_ne_pc _ hins.base)]
  intro hmem
  obtain ⟨ri, hri, heq⟩ := List.mem_map.mp hmem
  rw [registerIndex_injective hm heq, mem_blockList, hins.baseNotListed] at hri
  exact absurd hri (by decide)

theorem armStep_blockStore (host : Host) (locals : Locals) (h : IsBlockTransfer ins)
    (hs : getBit ins 20 = false) (hf : fetched p = .ok ins)
    (hc : executes (readCpsr p.reg) ins = true) :
    (armStep host locals p).state =
      { afterFetch p with
        reg := writeRegister (afterFetch p).reg (regField ins 16)
          (blockBase ins (readRegister p.reg (regField ins 16))
            (0 + BitVec.ofNat 8 (blockList ins).length))
        mem := storeWords p.mem (blockStart ins (readRegister p.reg (regField ins 16)))
          ((blockList ins).map (readRegister p.reg)) } := by
  have hvalues : (blockList ins).map (readRegister (afterFetch p).reg) =
      (blockList ins).map (readRegister p.reg) := by
    refine List.map_congr_left fun ri hri => ?_
    exact readRegister_afterFetch _ fun heq => h.pc_not_mem (heq ▸ hri)
  rw [armStep_blockTransfer h host locals hf hc, armLoadStoreMultiple_store h hs,
    readRegister_afterFetch _ h.base, hvalues]
  rfl

theorem armStep_blockLoad (host : Host) (locals : Locals) (h : IsBlockTransfer ins)
    (hl : getBit ins 20 = true) (hf : fetched q = .ok ins)
    (hc : executes (readCpsr q.reg) ins = true) (f : Registers)
    (hw : WordsAt q.mem (blockStart ins (readRegister q.reg (regField ins 16)))
      ((blockList ins).map fun ri => f (registerIndex (getMode q.reg) ri))) :
    (armStep host locals q).state.mem = q.mem ∧
      ∀ i, i ≠ 15 → (armStep host locals q).state.reg i =
        if i = registerIndex (getMode q.reg) (regField ins 16) then
          blockBase ins (readRegister q.reg (regField ins 16))
            (0 + BitVec.ofNat 8 (blockList ins).length)
        else if i ∈ (blockList ins).map (registerIndex (getMode q.reg)) then f i
        else q.reg i := by
  have hload := armLoadStoreMultiple_load h hl locals f (afterFetch q)
  rw [readRegister_afterFetch _ h.base, getMode_afterFetch, afterFetch_mem] at hload
  rw [armStep_blockTransfer h host locals hf hc, hload hw]
  refine ⟨rfl, fun i hi => ?_⟩
  -- The loads keep the mode, so the base is written back in the same bank.
  have hmode : getMode (fun i => if i ∈ (blockList ins).map (registerIndex (getMode q.reg)) then f i
      else (afterFetch q).reg i) = getMode q.reg := by
    show modeField (if cpsrIndex ∈ _ then f cpsrIndex else readCpsr (afterFetch q).reg) = _
    rw [if_neg (cpsrIndex_not_mem _ _), readCpsr_afterFetch]
    rfl
  simp only [writeRegister, hmode, Function.update_apply, afterFetch_reg_of_ne _ hi]

end

/-- A block store, then any change of the registers of its list, then the complementary
block load: every register but the program counter is as it was before the store, and so
is every byte outside the words of the transfer. -/
theorem blockLoad_undoes_blockStore (host : Host) (locals locals' : Locals) (p q : Core)
    (stm ldm : BitVec 32) (hm : Mode.Valid (getMode p.reg)) (hstm : IsBlockTransfer stm)
    (hldm : IsBlockTransfer ldm) (hpair : Complementary stm ldm)
    (haddr : ∀ a ∈ blockAddresses stm (readRegister p.reg (regField stm 16)),
      a.toNat % 4 = 0 ∧ a.toNat < p.mem.size)
    (hf : fetched p = .ok stm) (hc : executes (readCpsr p.reg) stm = true)
    (hq : ListChanged stm (armStep host locals p).state q)
    (hf' : fetched q = .ok ldm) (hc' : executes (readCpsr q.reg) ldm = true) :
    (∀ i, i ≠ 15 → (armStep host locals' q).state.reg i = p.reg i) ∧
      (armStep host locals' q).state.mem.size = p.mem.size ∧
      ∀ x, (∀ a ∈ blockAddresses stm (readRegister p.reg (regField stm 16)), ¬covers a x) →
        (armStep host locals' q).state.mem.m x = p.mem.m x := by
  have hstore := armStep_blockStore host locals hstm hpair.store hf hc
  rw [hstore] at hq
  have hmode : getMode q.reg = getMode p.reg := by
    rw [hq.getMode_eq, getMode_writeRegister, getMode_afterFetch]
  -- The load finds the written back base, and its words are those the store left.
  have hbase : readRegister q.reg (regField ldm 16) =
      blockBase stm (readRegister p.reg (regField stm 16))
        (0 + BitVec.ofNat 8 (blockList stm).length) := by
    rw [hpair.base, hq.readBase hstm (by rwa [getMode_writeRegister, getMode_afterFetch]),
      readRegister_writeRegister_self]
  have hwords : WordsAt q.mem (blockStart ldm (readRegister q.reg (regField ldm 16)))
      ((blockList ldm).map fun ri => p.reg (registerIndex (getMode q.reg) ri)) := by
    rw [hbase, hpair.blockStart_eq, hpair.blockList_eq, hmode, hq.mem]
    refine wordsAt_storeWords ?_ ?_ <;> rw [List.length_map]
    · have := blockList_length stm
      omega
    · exact fun a ha => ⟨(haddr a ha).2, (haddr a ha).1⟩
  obtain ⟨hmem, hreg⟩ := armStep_blockLoad host locals' hldm hpair.load hf' hc' p.reg hwords
  refine ⟨?_, ?_, ?_⟩
  · intro i hi
    rw [hreg i hi, hbase, hpair.blockBase_eq, hpair.blockList_eq, hmode, hpair.base]
    by_cases hrn : i = registerIndex (getMode p.reg) (regField stm 16)
    · rw [if_pos hrn, hrn]
      rfl
    rw [if_neg hrn]
    by_cases hlist : i ∈ (blockList stm).map (registerIndex (getMode p.reg))
    · rw [if_pos hlist]
    rw [if_neg hlist, hq.reg i hi (by rwa [getMode_writeRegister, getMode_afterFetch])]
    unfold writeRegister
    rw [getMode_afterFetch]
    exact (Function.update_of_ne hrn _ _).trans (afterFetch_reg_of_ne p hi)
  · rw [hmem, hq.mem]
    exact storeWords_size _ _ _
  · intro x hx
    rw [hmem, hq.mem]
    refine storeWords_m_of_not_covers ?_
    rw [List.length_map]
    exact hx

/-- A core with `STMDB r13!, {r0, r1}` at address 0 and `LDMIA r13!, {r0, r1}` at 4. -/
def stackCore : Core where
  cycleCount := 0
  reg := fun i => if i = 0 then 7 else if i = 1 then 9 else if i = 13 then 0x40
    else if i = cpsrIndex then 0x10 else 0
  mem := memoryOfWords false 64 [0xE92D0003, 0xE8BD0003]

def overwriteList (p : Core) : Core :=
  { p with reg := Function.update (Function.update p.reg 0 1) 1 2 }

theorem listChanged_overwriteList {ins : BitVec 32} {p : Core}
    (hlist : (blockList ins).map (registerIndex (getMode p.reg)) = [0, 1]) :
    ListChanged ins p (overwriteList p) := by
  refine ⟨rfl, fun i _ hi => ?_⟩
  rw [hlist] at hi
  simp only [List.mem_cons, List.not_mem_nil, or_false, not_or] at hi
  show Function.update (Function.update p.reg 0 1) 1 2 i = p.reg i
  rw [Function.update_of_ne hi.2, Function.update_of_ne hi.1]

def storedCore : Core :=
  { afterFetch stackCore with
    reg := writeRegister (afterFetch stackCore).reg 13 0x38
    mem := storeWords stackCore.mem 0x38 [7, 9] }

theorem isBlockTransfer_stackCore : IsBlockTransfer 0xE92D0003 ∧ IsBlockTransfer 0xE8BD0003 :=
  ⟨⟨by decide, by decide, by decide, by decide, by decide, by decide⟩,
    ⟨by decide, by decide, by decide, by decide, by decide, by decide⟩⟩

theorem fetched_stackCore : fetched stackCore = .ok 0xE92D0003 := by
  decide +kernel

theorem armStep_stackCore : (armStep (.modular false) ⟨0, 0⟩ stackCore).state = storedCore := by
  have hbase : readRegister stackCore.reg (regField 0xE92D0003 16) = 0x40 := by decide +kernel
  have hback : blockBase 0xE92D0003 0x40 (0 + BitVec.ofNat 8 (blockList 0xE92D0003).length) =
    0x38 := by decide +kernel
  have hstart : blockStart 0xE92D0003 0x40 = 0x38 := by decide +kernel
  have hvalues : (blockList 0xE92D0003).map (readRegister stackCore.reg) = [7, 9] := by
    decide +kernel
  have hrn : regField 0xE92D0003 16 = 13 := by decide
  rw [armStep_blockStore (.modular false) ⟨0, 0⟩ isBlockTransfer_stackCore.1 (by decide)
    fetched_stackCore (by decide), hbase, hback, hstart, hvalues, hrn]
  rfl

theorem fetched_storedCore : fetched (overwriteList storedCore) = .ok 0xE8BD0003 := by
  have haddress : fetchAddress (overwriteList storedCore).reg = 4 := by decide +kernel
  have hmem : (overwriteList storedCore).mem = storeWords stackCore.mem 0x38 [7, 9] := rfl
  unfold fetched
  rw [haddress, hmem, memoryReadWord_storeWords_of_not_mem (by decide) (by simp [addresses])
    (by decide)]
  decide +kernel

theorem blockLoad_undoes_blockStore_stackCore :
    (armStep (.modular false) ⟨0, 0⟩ (overwriteList storedCore)).state.reg 0 = 7 ∧
      (armStep (.modular false) ⟨0, 0⟩ (overwriteList storedCore)).state.reg 1 = 9 ∧
      (armStep (.modular false) ⟨0, 0⟩ (overwriteList storedCore)).state.reg 13 = 0x40 := by
  have hwords : blockAddresses 0xE92D0003 (readRegister stackCore.reg (regField 0xE92D0003 16)) =
      [0x38, 0x3c] := by decide +kernel
  have haddr : ∀ a ∈ ([0x38, 0x3c] : List (BitVec 32)),
      a.toNat % 4 = 0 ∧ a.toNat < stackCore.mem.size := by
    have hsize : stackCore.mem.size = 64 := rfl
    simp [hsize]
  have hchanged : ListChanged 0xE92D0003 (armStep (.modular false) ⟨0, 0⟩ stackCore).state
      (overwriteList storedCore) := by
    rw [armStep_stackCore]
    exact listChanged_overwriteList (by decide +kernel)
  have hexecutes : executes (readCpsr (overwriteList storedCore).reg) 0xE8BD0003 = true := by
    decide +kernel
  have h := (blockLoad_undoes_blockStore (.modular false) ⟨0, 0⟩ ⟨0, 0⟩ stackCore
    (overwriteList storedCore) 0xE92D0003 0xE8BD0003 (by decide) isBlockTransfer_stackCore.1
    isBlockTransfer_stackCore.2 ⟨by decide, by decide, by decide, by decide, by decide, by decide⟩
    (by rw [hwords]; exact haddr) fetched_stackCore (by decide) hchanged fetched_storedCore
    hexecutes).1
  exact ⟨h 0 (by decide), h 1 (by decide), h 13 (by decide)⟩

end ArmSimulator
