/-
Three programs of `Examples`.

A program is proved correct on the machine of `step`, with the rules for sequences and
loops, and runs on the simulator as it does there.  Its code can stand at any address.
`Within` is what holds at every point of a program that writes no memory: where it is and
which registers it has not touched.
-/
import Mathlib.Data.Nat.Factorial.Basic
import ArmSimulator.Proof.Simulation

namespace ArmSimulator

namespace Assembly

open Machine (after after_cons Leads Stops)

/-! ## Points of a program -/

/-- The words `code` stand in the memory from `a` on. -/
def Loaded (code : List (BitVec 32)) (a : BitVec 32) (mem : Memory) : Prop :=
  ∀ k ins, code[k]? = some ins →
    Accessible mem (a + BitVec.ofNat 32 (4 * k)) ∧ wordAt mem (a + BitVec.ofNat 32 (4 * k)) = ins

instance (code : List (BitVec 32)) (a : BitVec 32) (mem : Memory) :
    Decidable (Loaded code a mem) :=
  decidable_of_iff (∀ k : Fin code.length, Accessible mem (a + BitVec.ofNat 32 (4 * k)) ∧
      wordAt mem (a + BitVec.ofNat 32 (4 * k)) = code.get k) <| by
    constructor
    · intro h k ins hins
      obtain ⟨hk, hget⟩ := List.getElem?_eq_some_iff.mp hins
      exact hget ▸ h ⟨k, hk⟩
    · exact fun h k => h k _ (List.getElem?_eq_getElem k.isLt)

/-- The machine is at the instruction `k` of the program, and nothing but the registers
`regs` has changed since the state `s`. -/
structure Within (code : List (BitVec 32)) (a : BitVec 32) (regs : List (Fin 16)) (s : State)
    (k : Nat) (t : State) : Prop where
  loaded : Loaded code a s.mem
  pc : t.reg 15 = a + BitVec.ofNat 32 (4 * k)
  mem : t.mem = s.mem
  others : ∀ r, r ≠ 15 → r ∉ regs → t.reg r = s.reg r

namespace Within

variable {code : List (BitVec 32)} {a : BitVec 32} {regs : List (Fin 16)} {s t : State} {k : Nat}
  {ins : BitVec 32}

theorem start (hloaded : Loaded code a s.mem) (hpc : s.reg 15 = a + BitVec.ofNat 32 (4 * k)) :
    Within code a regs s k s := ⟨hloaded, hpc, rfl, fun _ _ _ => rfl⟩

theorem fetch_eq (h : Within code a regs s k t) (hins : code[k]? = some ins) :
    fetch t = some ins := by
  obtain ⟨haccessible, hword⟩ := h.loaded k ins hins
  rw [fetch, h.pc, h.mem, if_pos haccessible, hword]

theorem step_eq (h : Within code a regs s k t) (hins : code[k]? = some ins)
    (hpasses : passes (insCondition ins) t.n t.z = some true) {i : Instruction}
    (hdecode : decode ins = some i) : step t = exec t i := by
  simp only [step, h.fetch_eq hins, hpasses, hdecode, Option.bind_eq_bind, Option.bind_some,
    if_true]

theorem atExit (h : Within code a regs s k t) (hins : code[k]? = some 0xEF123456) : AtExit t :=
  ⟨0xEF123456, h.fetch_eq hins, rfl, by decide⟩

theorem write (h : Within code a regs s k t) {r : Fin 16} (hr : r ∈ regs) (h15 : r ≠ 15)
    (value : BitVec 32) : Within code a regs s k (t.write r value) where
  loaded := h.loaded
  pc := (State.write_reg_of_ne t h15.symm value).trans h.pc
  mem := h.mem
  others r' hr' hnot := by
    have hne : r' ≠ r := fun heq => hnot (heq ▸ hr)
    rw [State.write_reg_of_ne t hne, h.others r' hr' hnot]

theorem setFlags (h : Within code a regs s k t) (res : BitVec 32) :
    Within code a regs s k (t.setFlags res) := ⟨h.loaded, h.pc, h.mem, h.others⟩

theorem goto (h : Within code a regs s k t) {target : BitVec 32} {k' : Nat}
    (htarget : target = a + BitVec.ofNat 32 (4 * k')) :
    Within code a regs s k' (t.write 15 target) where
  loaded := h.loaded
  pc := (State.write_reg_self t 15 target).trans htarget
  mem := h.mem
  others r hr hnot := (State.write_reg_of_ne t hr target).trans (h.others r hr hnot)

theorem next (h : Within code a regs s k t) : Within code a regs s (k + 1) t.next := by
  refine h.goto ?_
  rw [h.pc, BitVec.add_assoc, Nat.mul_add, BitVec.ofNat_add]
  rfl

/-! ### One instruction

Each rule gives the next state by its place in the program and by what its registers
hold. -/

theorem skip (h : Within code a regs s k t) (hins : code[k]? = some ins)
    (hpasses : passes (insCondition ins) t.n t.z = some false) :
    ∃ u, step t = some u ∧ Within code a regs s (k + 1) u ∧ ∀ r, r ≠ 15 → u.reg r = t.reg r := by
  refine ⟨t.next, ?_, h.next, fun r hr => State.write_reg_of_ne t hr _⟩
  simp only [step, h.fetch_eq hins, hpasses, Option.bind_eq_bind, Option.bind_some,
    Bool.false_eq_true, if_false]
  rfl

theorem data (h : Within code a regs s k t) (opcode : Opcode) (flags : Bool) (rd rn : Fin 16)
    (operand : Operand) (hins : code[k]? = some ins)
    (hpasses : passes (insCondition ins) t.n t.z = some true)
    (hdecode : decode ins = some (.data opcode flags rd rn operand))
    (hwrites : opcode.isCompare = false ∧ rd ∈ regs ∧ rd ≠ 15) :
    let res := opcodeResult opcode (t.read rn) (operand.value t) false
    ∃ u, step t = some u ∧ Within code a regs s (k + 1) u ∧
      (∀ r, r ≠ 15 → u.reg r = if r = rd then res else t.reg r) ∧
      u.z = if flags then res == 0 else t.z := by
  intro res
  obtain ⟨hcompare, hrd, h15⟩ := hwrites
  have hstep := h.step_eq hins hpasses hdecode
  have hreg : ∀ (v : State) r, (v.write rd res).reg r = if r = rd then res else v.reg r := by
    intro v r
    by_cases heq : r = rd
    · rw [heq, State.write_reg_self, if_pos rfl]
    · rw [State.write_reg_of_ne v heq, if_neg heq]
  simp only [exec, hcompare, h15, Bool.false_eq_true, if_false] at hstep
  cases flags with
  | true =>
    refine ⟨(t.next.setFlags res).write rd res, hstep, (h.next.setFlags res).write hrd h15 res,
      fun r hr => ?_, rfl⟩
    rw [hreg, State.setFlags, State.next, State.write_reg_of_ne t hr]
  | false =>
    refine ⟨t.next.write rd res, hstep, h.next.write hrd h15 res, fun r hr => ?_, rfl⟩
    rw [hreg, State.next, State.write_reg_of_ne t hr]

theorem compare (h : Within code a regs s k t) (rn : Fin 16) (operand : Operand)
    (hins : code[k]? = some ins) (hpasses : passes (insCondition ins) t.n t.z = some true)
    (hdecode : decode ins = some (.data .cmp true 0 rn operand)) :
    ∃ u, step t = some u ∧ Within code a regs s (k + 1) u ∧ (∀ r, r ≠ 15 → u.reg r = t.reg r) ∧
      u.z = (t.read rn == operand.value t) := by
  have hstep := h.step_eq hins hpasses hdecode
  have hzero : (t.read rn - operand.value t == 0) = (t.read rn == operand.value t) := by
    rw [Bool.eq_iff_iff, beq_iff_eq, beq_iff_eq, sub_eq_zero]
  simp only [exec, Opcode.isCompare, opcodeResult, if_true] at hstep
  exact ⟨_, hstep, h.next.setFlags _, fun r hr => State.write_reg_of_ne t hr _, hzero⟩

theorem branch (h : Within code a regs s k t) (link : Bool) (offset : BitVec 24) (k' : Nat)
    (hins : code[k]? = some ins) (hpasses : passes (insCondition ins) t.n t.z = some true)
    (hdecode : decode ins = some (.branch link offset)) (hlink : link = true → (14 : Fin 16) ∈ regs)
    (htarget : BitVec.ofNat 32 (4 * k) + 8 + BitVec.ofInt 32 (4 * offset.toInt) =
      BitVec.ofNat 32 (4 * k')) :
    ∃ u, step t = some u ∧ Within code a regs s k' u ∧
      (∀ r, r ≠ 15 → u.reg r =
        if link = true ∧ r = 14 then a + BitVec.ofNat 32 (4 * (k + 1)) else t.reg r) ∧
      u.z = t.z := by
  have hstep := h.step_eq hins hpasses hdecode
  have htarget' : t.reg 15 + 8 + BitVec.ofInt 32 (4 * offset.toInt) =
      a + BitVec.ofNat 32 (4 * k') := by
    rw [h.pc, BitVec.add_assoc, BitVec.add_assoc, ← BitVec.add_assoc (BitVec.ofNat 32 (4 * k)),
      htarget]
  have hreturn : t.reg 15 + 4 = a + BitVec.ofNat 32 (4 * (k + 1)) := by
    have hpc := h.next.pc
    rwa [State.next, State.write_reg_self] at hpc
  simp only [exec] at hstep
  cases link with
  | false =>
    refine ⟨_, hstep, h.next.goto htarget', fun r hr => ?_, rfl⟩
    simp only [Bool.false_eq_true, false_and, if_false, State.write_reg_of_ne _ hr, State.next]
  | true =>
    refine ⟨_, hstep, (h.next.write (hlink rfl) (by decide) _).goto htarget', fun r hr => ?_, rfl⟩
    by_cases h14 : r = 14
    · rw [State.write_reg_of_ne _ hr, h14, if_pos rfl, State.write_reg_self, if_pos ⟨rfl, rfl⟩,
        hreturn]
    · rw [State.write_reg_of_ne _ hr, if_pos rfl, State.write_reg_of_ne _ h14, State.next,
        State.write_reg_of_ne _ hr, if_neg fun hand => h14 hand.2]

/-- `mov pc, rm`, to an instruction of the program. -/
theorem jump (h : Within code a regs s k t) (rm : Fin 16) (k' : Nat) {ins' : BitVec 32}
    (hins : code[k]? = some ins) (hpasses : passes (insCondition ins) t.n t.z = some true)
    (hdecode : decode ins = some (.data .mov false 15 0 (.shifted rm .lsl 0))) (hrm : rm ≠ 15)
    (hins' : code[k']? = some ins') (htarget : t.reg rm = a + BitVec.ofNat 32 (4 * k')) :
    ∃ u, step t = some u ∧ Within code a regs s k' u ∧ (∀ r, r ≠ 15 → u.reg r = t.reg r) ∧
      u.z = t.z := by
  have haligned := (h.loaded k' ins' hins').1.1
  have hread : t.read rm = a + BitVec.ofNat 32 (4 * k') := (if_neg hrm).trans htarget
  have hstep := h.step_eq hins hpasses hdecode
  simp only [exec, Opcode.isCompare, opcodeResult, Operand.value, shiftBy, hread,
    BitVec.shiftLeft_zero, State.jump, haligned, Bool.false_eq_true, if_false, if_true] at hstep
  refine ⟨_, hstep, h.next.goto rfl, fun r hr => ?_, rfl⟩
  rw [State.write_reg_of_ne _ hr, State.next, State.write_reg_of_ne _ hr]

end Within

/-! ## Runs of the simulator -/

/-- `n` steps of the simulator, the `i`-th with `locals i` in its uninitialised locals. -/
def steps (host : Host) (locals : Nat → Locals) (n : Nat) : Arm (List (Option (BitVec 32))) :=
  runCalls host ((List.range n).map fun i => Call.step (locals i))

/-- The simulation ends with the step after `k` others, and shows `t` at its end. -/
def Ends (host : Host) (p : Core) (k : Nat) (t : State) : Prop :=
  ∀ locals n, k < n →
    (steps host locals n p).value = List.replicate k (some 0) ++ [none] ∧
      Simulates p (k + 1) t (steps host locals n p).state

theorem steps_value (host : Host) (locals : Nat → Locals) {n : Nat} {p : Core} {t : State}
    (h : after step n (view p) = some t) :
    (steps host locals n p).value = List.replicate n (some 0) := by
  have hlength : ((List.range n).map locals).length = n := by simp
  have hrun := (runCalls_simulates host ((List.range n).map locals) (t := t) (by rw [hlength, h])).1
  rw [hlength, List.map_map] at hrun
  exact hrun

theorem ends_of_after (host : Host) {k : Nat} {p : Core} {t : State}
    (h : after step k (view p) = some t) (hexit : AtExit t) : Ends host p k t.next := by
  intro locals n hn
  have hlength : ((List.range k).map locals).length = k := by simp
  obtain ⟨hvalue, hsimulates⟩ :=
    runCalls_ends host ((List.range k).map locals) (locals k) (t := t) (by rw [hlength, h]) hexit
  have hcalls : (List.range n).map (fun i => Call.step (locals i)) =
      ((List.range k).map locals ++ [locals k]).map Call.step ++
        (List.range (n - (k + 1))).map fun i => Call.step (locals (k + 1 + i)) := by
    have hsplit : List.range n = List.range (k + 1) ++
        (List.range (n - (k + 1))).map (k + 1 + ·) := by
      rw [← List.range_add, Nat.add_sub_cancel' hn]
    rw [hsplit, List.range_succ, List.map_append, List.map_append, List.map_append, List.map_map,
      List.map_map]
    rfl
  rw [hlength] at hvalue hsimulates
  have hnone : none ∈ (runCalls host (((List.range k).map locals ++ [locals k]).map Call.step)
      p).value := by
    rw [hvalue]
    exact List.mem_append_right _ List.mem_cons_self
  obtain ⟨hlonger, hstate⟩ := Traced.runAll_append_of_mem hnone
    ((List.range (n - (k + 1))).map fun i => Call.step (locals (k + 1 + i)))
  unfold steps runCalls at *
  rw [hcalls, hlonger, hstate]
  exact ⟨hvalue, hsimulates⟩

/-- A core with `code` from 0x20 on, where the linker script puts it, about to execute the
instruction `k`. -/
def codeCore (code : List (BitVec 32)) (k : Nat) (reg : Fin 16) (value : BitVec 32) : Core where
  cycleCount := 0
  reg i :=
    if i = reg then value
    else if i = 15 then 0x20 + BitVec.ofNat 32 (4 * k)
    else if i = cpsrIndex then 0x10
    else 0
  mem := memoryOfWords true 0x400 (List.replicate 8 0 ++ code)

/-! ## The countdown

`example1.s` calls a procedure that decrements r0 until it is zero. -/

def countdownCode : List (BitVec 32) :=
  [ -- decr:
    0xE2500001, -- subs r0, r0, #1
    0xE1A0F00E, -- mov pc, lr
    -- main:
    0xE3A00005, -- mov r0, #5
    -- loop:
    0xEBFFFFFB, -- bl decr
    0x1AFFFFFD, -- bne loop
    -- end:
    0xEF123456] -- swi 0x123456

/-- With `n` calls still to come. -/
structure Counting (a : BitVec 32) (s : State) (n : Nat) (t : State) : Prop where
  point : Within countdownCode a [0, 14] s (if n = 0 then 5 else 3) t
  bound : n ≤ 2 ^ 32
  r0 : t.reg 0 = BitVec.ofNat 32 n

theorem countdown_turns {a : BitVec 32} {s : State} (n : Nat) (t : State)
    (ht : Counting a s (n + 1) t) : ∃ u, after step 4 t = some u ∧ Counting a s n u := by
  obtain ⟨h, hbound, h0⟩ := ht
  rw [if_neg (Nat.succ_ne_zero n)] at h
  obtain ⟨t₁, e₁, h₁, r₁, -⟩ :=
    h.branch true 0xFFFFFB 0 rfl rfl (by decide) (by decide) (by decide)
  obtain ⟨t₂, e₂, h₂, r₂, hz⟩ :=
    h₁.data .sub true 0 0 (.immediate 1) rfl rfl (by decide) (by decide)
  have hlink : t₂.reg 14 = a + BitVec.ofNat 32 (4 * 4) := by simp [r₂, r₁]
  obtain ⟨t₃, e₃, h₃, r₃, hz₃⟩ := h₂.jump 14 4 rfl rfl (by decide) (by decide) rfl hlink
  have hpred : BitVec.ofNat 32 (n + 1) - 1 = BitVec.ofNat 32 n := by
    rw [BitVec.ofNat_add]
    exact BitVec.add_sub_cancel _ _
  have hread : t₁.reg 0 - 1 = BitVec.ofNat 32 n := by
    rw [r₁ 0 (by decide), if_neg (by decide), h0, hpred]
  have hr0 : t₃.reg 0 = BitVec.ofNat 32 n := by
    rw [r₃ 0 (by decide), r₂ 0 (by decide), if_pos rfl]
    exact hread
  have hflag : t₃.z = (BitVec.ofNat 32 n == 0) := by
    rw [hz₃, hz, ← hread]
    rfl
  have hzero : BitVec.ofNat 32 n = 0 ↔ n = 0 := by bv_omega
  by_cases hn : n = 0
  · have hbne : t₃.z = true := hflag.trans (beq_iff_eq.mpr (hzero.mpr hn))
    obtain ⟨t₄, e₄, h₄, r₄⟩ := h₃.skip rfl (by rw [hbne]; rfl)
    refine ⟨t₄, after_cons e₁ (after_cons e₂ (after_cons e₃ (after_cons e₄ rfl))), ?_, by omega, ?_⟩
    · rw [if_pos hn]
      exact h₄
    · rw [r₄ 0 (by decide), hr0]
  · have hbne : t₃.z = false := hflag.trans (beq_eq_false_iff_ne.mpr (mt hzero.mp hn))
    obtain ⟨t₄, e₄, h₄, r₄, -⟩ :=
      h₃.branch false 0xFFFFFD 3 rfl (by rw [hbne]; rfl) (by decide) (by decide) (by decide)
    refine ⟨t₄, after_cons e₁ (after_cons e₂ (after_cons e₃ (after_cons e₄ rfl))), ?_, by omega, ?_⟩
    · rw [if_neg hn]
      exact h₄
    · rw [r₄ 0 (by decide), hr0]
      rfl

/-- From `loop` on, with any number in r0, the simulation ends with 0 in r0 after four steps a
call and the SWI.  From 0 the count goes all the way round. -/
theorem countdown_ends (host : Host) {a : BitVec 32} {p : Core}
    (hloaded : Loaded countdownCode a p.mem) (hpc : fetchAddress p.reg = a + 12) :
    let n := readRegister p.reg 0
    let calls := if n = 0 then 2 ^ 32 else n.toNat
    ∃ t, Ends host p (4 * calls) t ∧ t.reg 0 = 0 ∧ t.mem = p.mem ∧
      ∀ r, r ∉ [0, 14, 15] → t.reg r = readRegister p.reg r := by
  intro n calls
  have hcalls : calls ≠ 0 ∧ calls ≤ 2 ^ 32 ∧ n = BitVec.ofNat 32 calls := by
    have hlt := n.isLt
    by_cases hn : n = 0
    · simp [calls, hn]
    · have hne : n.toNat ≠ 0 := fun h => hn (BitVec.eq_of_toNat_eq h)
      refine ⟨?_, ?_, ?_⟩ <;> simp only [calls, if_neg hn]
      · exact hne
      · omega
      · rw [BitVec.ofNat_toNat, BitVec.setWidth_eq]
  obtain ⟨hne, hbound, hword⟩ := hcalls
  have hstart : Counting a (view p) calls (view p) := by
    refine ⟨?_, hbound, hword⟩
    rw [if_neg hne]
    exact Within.start hloaded hpc
  obtain ⟨t, ht, h, -, h0⟩ := Machine.exists_after_mul countdown_turns hstart
  rw [if_pos rfl] at h
  have hkept : ∀ r, r ≠ 15 → t.next.reg r = t.reg r := fun r hr => State.write_reg_of_ne t hr _
  refine ⟨t.next, ends_of_after host ht (h.atExit rfl), (hkept 0 (by decide)).trans h0, h.mem,
    fun r hr => ?_⟩
  simp only [List.mem_cons, List.not_mem_nil, or_false, not_or] at hr
  obtain ⟨hr0, hr14, hr15⟩ := hr
  rw [hkept r hr15, ← view_reg_of_ne p hr15]
  exact h.others r hr15 (by simp [hr0, hr14])

theorem countdown_ends_five :
    ∃ t, Ends (.modular false) (codeCore countdownCode 3 0 5) 20 t ∧ t.reg 0 = 0 := by
  obtain ⟨t, hends, h0, -⟩ :=
    countdown_ends (.modular false) (a := 0x20) (p := codeCore countdownCode 3 0 5)
      (by decide +kernel) (by decide)
  exact ⟨t, hends, h0⟩

/-! ## The factorial

`example6.s` multiplies by repeated addition.  The loop at 5 multiplies r0 by r1, r1 - 1
and so on down to 1; the loop at 17 adds r0 to r2 as often as r3 says.  `last` stands in the
place of the SWI that ends the simulation. -/

def factorialCodeWith (last : BitVec 32) : List (BitVec 32) :=
  [ -- main:
    0xE3A05008, -- mov r5, #8
    -- fact:
    0xE2455001, -- sub r5, #1
    0xE1A01005, -- mov r1, r5
    0xE2855001, -- add r5, #1
    0xE1A00005, -- mov r0, r5
    -- boucle:
    0xE3510000, -- cmp r1, #0
    0x0A000002, -- beq fintq
    0xEB000003, -- bl mult
    -- suit:
    0xE2411001, -- sub r1, #1
    0xEBFFFFFA, -- bl boucle
    -- fintq:
    0xE1A07000, -- mov r7, r0
    last,
    -- mult:
    0xE3A02000, -- mov r2, #0
    0xE1A03001, -- mov r3, r1
    0xEA000001, -- b condtq
    -- tq:
    0xE0822000, -- add r2, r0
    0xE2433001, -- sub r3, #1
    -- condtq:
    0xE3530000, -- cmp r3, #0
    0x1AFFFFFB, -- bne tq
    0xE1A00002, -- mov r0, r2
    0xEBFFFFF2] -- bl suit

def factorialCode : List (BitVec 32) := factorialCodeWith 0xEF123456 -- swi 0x123456

section

variable {last a : BitVec 32} {s : State}

/-- The registers the program writes. -/
def factorialRegs : List (Fin 16) := [0, 1, 2, 3, 5, 7, 14]

/-- At the instruction `k` of the program, with r5 as it was. -/
def AtFactorial (last a : BitVec 32) (s : State) (k : Nat) (t : State) : Prop :=
  Within (factorialCodeWith last) a factorialRegs s k t ∧ t.reg 5 = s.reg 5

/-- `fact` up to the head of the loop. -/
theorem factorial_enters :
    Leads step (fun t => Within (factorialCodeWith last) a factorialRegs s 1 t ∧ t.reg 5 = s.reg 5)
      fun t => AtFactorial last a s 5 t ∧ t.reg 0 = s.reg 5 ∧ t.reg 1 = s.reg 5 - 1 := by
  refine Leads.of_after 4 ?_
  rintro t ⟨h, h5⟩
  obtain ⟨t₁, e₁, h₁, r₁, -⟩ :=
    h.data .sub false 5 5 (.immediate 1) rfl rfl (by decide) (by decide)
  obtain ⟨t₂, e₂, h₂, r₂, -⟩ :=
    h₁.data .mov false 1 0 (.shifted 5 .lsl 0) rfl rfl (by decide) (by decide)
  obtain ⟨t₃, e₃, h₃, r₃, -⟩ :=
    h₂.data .add false 5 5 (.immediate 1) rfl rfl (by decide) (by decide)
  obtain ⟨t₄, e₄, h₄, r₄, -⟩ :=
    h₃.data .mov false 0 0 (.shifted 5 .lsl 0) rfl rfl (by decide) (by decide)
  have hregs : t₄.reg 0 = s.reg 5 ∧ t₄.reg 1 = s.reg 5 - 1 ∧ t₄.reg 5 = s.reg 5 := by
    simp [r₄, r₃, r₂, r₁, h5, opcodeResult, Operand.value, shiftBy, State.read]
  exact ⟨t₄, after_cons e₁ (after_cons e₂ (after_cons e₃ (after_cons e₄ rfl))),
    ⟨h₄, hregs.2.2⟩, hregs.1, hregs.2.1⟩

/-- At `condtq`, with the value of r0 still to be added to r2 as often as `i` says. -/
structure Adding (last a : BitVec 32) (s : State) (x y i : BitVec 32) (t : State) : Prop where
  point : AtFactorial last a s 17 t
  r0 : t.reg 0 = x
  r1 : t.reg 1 = y
  r3 : t.reg 3 = i
  sum : t.reg 2 + x * i = x * y

/-- At `boucle`, with the values of r0 and r1. -/
structure Multiplying (last a : BitVec 32) (s : State) (x i : BitVec 32) (t : State) : Prop where
  point : AtFactorial last a s 5 t
  r0 : t.reg 0 = x
  r1 : t.reg 1 = i

theorem adding_turns {x y i : BitVec 32} (hi : i ≠ 0) :
    Leads step (Adding last a s x y i) (Adding last a s x y (i - 1)) := by
  refine Leads.of_after 4 fun t ht => ?_
  obtain ⟨⟨h, h5⟩, h0, h1, h3, hsum⟩ := ht
  obtain ⟨t₁, e₁, h₁, r₁, hz⟩ := h.compare 3 (.immediate 0) rfl rfl (by decide)
  have hbne : t₁.z = false := hz.trans (beq_eq_false_iff_ne.mpr fun heq => hi (h3.symm.trans heq))
  obtain ⟨t₂, e₂, h₂, r₂, -⟩ :=
    h₁.branch false 0xFFFFFB 15 rfl (by rw [hbne]; rfl) (by decide) (by decide) (by decide)
  obtain ⟨t₃, e₃, h₃, r₃, -⟩ :=
    h₂.data .add false 2 2 (.shifted 0 .lsl 0) rfl rfl (by decide) (by decide)
  obtain ⟨t₄, e₄, h₄, r₄, -⟩ :=
    h₃.data .sub false 3 3 (.immediate 1) rfl rfl (by decide) (by decide)
  have hregs : t₄.reg 0 = x ∧ t₄.reg 1 = y ∧ t₄.reg 2 = t.reg 2 + x ∧ t₄.reg 3 = i - 1 ∧
      t₄.reg 5 = s.reg 5 := by
    simp [r₄, r₃, r₂, r₁, h0, h1, h3, h5, opcodeResult, Operand.value, shiftBy, State.read]
  obtain ⟨hr0, hr1, hr2, hr3, hr5⟩ := hregs
  have hnext : t.reg 2 + x + x * (i - 1) = x * y := by
    rw [← hsum]
    ring
  exact ⟨t₄, after_cons e₁ (after_cons e₂ (after_cons e₃ (after_cons e₄ rfl))), ⟨h₄, hr5⟩, hr0,
    hr1, hr3, hr2 ▸ hnext⟩

/-- From `condtq` through `suit` to `boucle`. -/
theorem adding_ends {x y : BitVec 32} :
    Leads step (Adding last a s x y 0) (Multiplying last a s (x * y) (y - 1)) := by
  refine Leads.of_after 6 fun t ht => ?_
  obtain ⟨⟨h, h5⟩, h0, h1, h3, hsum⟩ := ht
  obtain ⟨t₁, e₁, h₁, r₁, hz⟩ := h.compare 3 (.immediate 0) rfl rfl (by decide)
  have hbne : t₁.z = true := hz.trans (beq_iff_eq.mpr h3)
  obtain ⟨t₂, e₂, h₂, r₂⟩ := h₁.skip rfl (by rw [hbne]; rfl)
  obtain ⟨t₃, e₃, h₃, r₃, -⟩ :=
    h₂.data .mov false 0 0 (.shifted 2 .lsl 0) rfl rfl (by decide) (by decide)
  obtain ⟨t₄, e₄, h₄, r₄, -⟩ :=
    h₃.branch true 0xFFFFF2 8 rfl rfl (by decide) (by decide) (by decide)
  obtain ⟨t₅, e₅, h₅, r₅, -⟩ :=
    h₄.data .sub false 1 1 (.immediate 1) rfl rfl (by decide) (by decide)
  obtain ⟨t₆, e₆, h₆, r₆, -⟩ :=
    h₅.branch true 0xFFFFFA 5 rfl rfl (by decide) (by decide) (by decide)
  have hregs : t₆.reg 0 = t.reg 2 ∧ t₆.reg 1 = y - 1 ∧ t₆.reg 5 = s.reg 5 := by
    simp [r₆, r₅, r₄, r₃, r₂, r₁, h1, h5, opcodeResult, Operand.value, shiftBy, State.read]
  obtain ⟨hr0, hr1, hr5⟩ := hregs
  rw [mul_zero, add_zero] at hsum
  exact ⟨t₆, after_cons e₁ (after_cons e₂ (after_cons e₃ (after_cons e₄ (after_cons e₅
    (after_cons e₆ rfl))))), ⟨h₆, hr5⟩, hr0.trans hsum, hr1⟩

/-- The inner loop multiplies. -/
theorem adding_multiplies {x y i : BitVec 32} :
    Leads step (Adding last a s x y i) (Multiplying last a s (x * y) (y - 1)) := by
  refine Leads.loop (measure BitVec.toNat).wf (fun i => ?_) i
  by_cases hi : i = 0
  · subst hi
    exact adding_ends.mono (fun _ h => h) fun _ h => Or.inl h
  · refine (adding_turns hi).mono (fun _ h => h) fun t h => Or.inr ⟨i - 1, ?_, h⟩
    have hlt : (i - 1).toNat < i.toNat := by bv_omega
    exact hlt

/-- From `boucle` through `mult` to `condtq`. -/
theorem multiplying_calls {x i : BitVec 32} (hi : i ≠ 0) :
    Leads step (Multiplying last a s x i) (Adding last a s x i i) := by
  refine Leads.of_after 6 fun t ht => ?_
  obtain ⟨⟨h, h5⟩, h0, h1⟩ := ht
  obtain ⟨t₁, e₁, h₁, r₁, hz⟩ := h.compare 1 (.immediate 0) rfl rfl (by decide)
  have hbeq : t₁.z = false := hz.trans (beq_eq_false_iff_ne.mpr fun heq => hi (h1.symm.trans heq))
  obtain ⟨t₂, e₂, h₂, r₂⟩ := h₁.skip rfl (by rw [hbeq]; rfl)
  obtain ⟨t₃, e₃, h₃, r₃, -⟩ :=
    h₂.branch true 0x000003 12 rfl rfl (by decide) (by decide) (by decide)
  obtain ⟨t₄, e₄, h₄, r₄, -⟩ :=
    h₃.data .mov false 2 0 (.immediate 0) rfl rfl (by decide) (by decide)
  obtain ⟨t₅, e₅, h₅, r₅, -⟩ :=
    h₄.data .mov false 3 0 (.shifted 1 .lsl 0) rfl rfl (by decide) (by decide)
  obtain ⟨t₆, e₆, h₆, r₆, -⟩ :=
    h₅.branch false 0x000001 17 rfl rfl (by decide) (by decide) (by decide)
  have hregs : t₆.reg 0 = x ∧ t₆.reg 1 = i ∧ t₆.reg 2 = 0 ∧ t₆.reg 3 = i ∧
      t₆.reg 5 = s.reg 5 := by
    simp [r₆, r₅, r₄, r₃, r₂, r₁, h0, h1, h5, opcodeResult, Operand.value, shiftBy, State.read]
  obtain ⟨hr0, hr1, hr2, hr3, hr5⟩ := hregs
  exact ⟨t₆, after_cons e₁ (after_cons e₂ (after_cons e₃ (after_cons e₄ (after_cons e₅
    (after_cons e₆ rfl))))), ⟨h₆, hr5⟩, hr0, hr1, hr3, hr2 ▸ BitVec.zero_add _⟩

/-- `fintq`. -/
theorem multiplying_ends {x : BitVec 32} :
    Leads step (Multiplying last a s x 0) fun t => AtFactorial last a s 11 t ∧ t.reg 7 = x := by
  refine Leads.of_after 3 fun t ht => ?_
  obtain ⟨⟨h, h5⟩, h0, h1⟩ := ht
  obtain ⟨t₁, e₁, h₁, r₁, hz⟩ := h.compare 1 (.immediate 0) rfl rfl (by decide)
  have hbeq : t₁.z = true := hz.trans (beq_iff_eq.mpr h1)
  obtain ⟨t₂, e₂, h₂, r₂, -⟩ :=
    h₁.branch false 0x000002 10 rfl (by rw [hbeq]; rfl) (by decide) (by decide) (by decide)
  obtain ⟨t₃, e₃, h₃, r₃, -⟩ :=
    h₂.data .mov false 7 0 (.shifted 0 .lsl 0) rfl rfl (by decide) (by decide)
  have hregs : t₃.reg 7 = x ∧ t₃.reg 5 = s.reg 5 := by
    simp [r₃, r₂, r₁, h0, h5, opcodeResult, Operand.value, shiftBy, State.read]
  exact ⟨t₃, after_cons e₁ (after_cons e₂ (after_cons e₃ rfl)), ⟨h₃, hregs.2⟩, hregs.1⟩

/-- The factorial of a word, as a word. -/
def factorialWord (i : BitVec 32) : BitVec 32 := BitVec.ofNat 32 i.toNat.factorial

theorem factorialWord_of_ne {i : BitVec 32} (hi : i ≠ 0) :
    factorialWord i = i * factorialWord (i - 1) := by
  have hne : i.toNat ≠ 0 := fun h => hi (BitVec.eq_of_toNat_eq h)
  have hpred : (i - 1).toNat = i.toNat - 1 := by
    have hlt := i.isLt
    rw [Word.toNat_sub_one]
    omega
  unfold factorialWord
  rw [hpred, ← Nat.mul_factorial_pred hne, BitVec.ofNat_mul, BitVec.ofNat_toNat, BitVec.setWidth_eq]

theorem mul_factorialWord_pred (n : BitVec 32) :
    n * factorialWord (n - 1) = if n = 0 then 0 else factorialWord n := by
  by_cases hn : n = 0
  · rw [if_pos hn, hn, zero_mul]
  · rw [if_neg hn, ← factorialWord_of_ne hn]

/-- The outer loop multiplies by the factorial of r1. -/
theorem multiplying_multiplies {x i : BitVec 32} :
    Leads step (Multiplying last a s x i)
      fun t => AtFactorial last a s 11 t ∧ t.reg 7 = x * factorialWord i := by
  let I : BitVec 32 → State → Prop := fun j t =>
    ∃ y, Multiplying last a s y j t ∧ y * factorialWord j = x * factorialWord i
  have hloop : Leads step (I i)
      fun t => AtFactorial last a s 11 t ∧ t.reg 7 = x * factorialWord i := by
    refine Leads.loop (measure BitVec.toNat).wf (fun j => ?_) i
    rintro t ⟨y, ht, htotal⟩
    by_cases hj : j = 0
    · subst hj
      have hone : y * factorialWord 0 = y := mul_one y
      obtain ⟨n, u, hu, hpoint, h7⟩ := multiplying_ends t ht
      exact ⟨n, u, hu, Or.inl ⟨hpoint, h7.trans (hone.symm.trans htotal)⟩⟩
    · obtain ⟨n, u, hu, hnext⟩ := (multiplying_calls hj).trans adding_multiplies t ht
      have hlt : (j - 1).toNat < j.toNat := by bv_omega
      refine ⟨n, u, hu, Or.inr ⟨j - 1, hlt, y * j, hnext, ?_⟩⟩
      rw [← htotal, factorialWord_of_ne hj, mul_assoc]
  exact hloop.mono (fun t ht => ⟨x, ht, rfl⟩) fun _ h => h

theorem factorial_computes :
    Leads step (fun t => Within (factorialCodeWith last) a factorialRegs s 1 t ∧ t.reg 5 = s.reg 5)
      fun t => AtFactorial last a s 11 t ∧ t.reg 7 = s.reg 5 * factorialWord (s.reg 5 - 1) := by
  refine factorial_enters.trans ?_
  rintro t ⟨hpoint, h0, h1⟩
  exact multiplying_multiplies t ⟨hpoint, h0, h1⟩

end

/-- From `fact` on, with any number in r5, the simulation ends with its factorial in r7, and
nothing else has changed but the registers of the loops.  Of 0 it computes 0. -/
theorem factorial_ends (host : Host) {a : BitVec 32} {p : Core}
    (hloaded : Loaded factorialCode a p.mem) (hpc : fetchAddress p.reg = a + 4) :
    let n := readRegister p.reg 5
    ∃ k t, Ends host p k t ∧ t.reg 7 = (if n = 0 then 0 else factorialWord n) ∧ t.mem = p.mem ∧
      ∀ r, r ∉ [0, 1, 2, 3, 7, 14, 15] → t.reg r = readRegister p.reg r := by
  intro n
  have hstart : Within factorialCode a factorialRegs (view p) 1 (view p) :=
    Within.start hloaded hpc
  obtain ⟨k, t, ht, ⟨h, h5⟩, h7⟩ := factorial_computes (view p) ⟨hstart, rfl⟩
  have hkept : ∀ r, r ≠ 15 → t.next.reg r = t.reg r := fun r hr => State.write_reg_of_ne t hr _
  refine ⟨k, t.next, ends_of_after host ht (h.atExit rfl), ?_, h.mem, fun r hr => ?_⟩
  · have hn5 : (view p).reg 5 = n := rfl
    rw [hkept 7 (by decide), h7, hn5, mul_factorialWord_pred]
  · simp only [List.mem_cons, List.not_mem_nil, or_false, not_or] at hr
    obtain ⟨h0, h1, h2, h3, h7', h14, h15⟩ := hr
    rw [hkept r h15, ← view_reg_of_ne p h15]
    by_cases hr5 : r = 5
    · rw [hr5, h5]
    · exact h.others r h15 (by simp [factorialRegs, *])

theorem factorial_ends_five :
    ∃ k t, Ends (.modular false) (codeCore factorialCode 1 5 5) k t ∧ t.reg 7 = 120 := by
  obtain ⟨k, t, hends, h7, -⟩ :=
    factorial_ends (.modular false) (a := 0x20) (p := codeCore factorialCode 1 5 5)
      (by decide +kernel) (by decide)
  exact ⟨k, t, hends, h7⟩

/-! ## The sequence of Syracuse

`example5.s` takes the steps of the sequence until it comes to 1.  Nobody has shown that it
always does: the simulation ends exactly if it does. -/

def syracuseCode : List (BitVec 32) :=
  [ -- main:
    0xE3A0500F, -- mov r5, #15
    -- tq:
    0xE3550001, -- cmp r5, #1
    0x0A000006, -- beq finsi
    0xE2156001, -- ands r6, r5, #1
    0x0A000002, -- beq alors
    0xE0855085, -- add r5, r5, r5, lsl #1
    0xE2855001, -- add r5, #1
    0xEAFFFFF8, -- bal tq
    -- alors:
    0xE1A050A5, -- mov r5, r5, lsr #1
    0xEAFFFFF6, -- bal tq
    -- finsi:
    0xEF123456] -- swi 0x123456

/-- One step of the sequence, on words. -/
def syracuse (x : BitVec 32) : BitVec 32 := if x &&& 1 = 0 then x >>> 1 else x + x <<< 1 + 1

section

variable {a : BitVec 32} {s : State}

/-- At `tq`, with `x` in r5. -/
def AtSyracuse (a : BitVec 32) (s : State) (x : BitVec 32) (t : State) : Prop :=
  Within syracuseCode a [5, 6] s 1 t ∧ t.reg 5 = x

theorem syracuse_turns (x : BitVec 32) (t : State) (ht : AtSyracuse a s x t) (hx : x ≠ 1) :
    ∃ n u, after step (n + 1) t = some u ∧ AtSyracuse a s (syracuse x) u := by
  obtain ⟨h, h5⟩ := ht
  obtain ⟨t₁, e₁, h₁, r₁, hz₁⟩ := h.compare 5 (.immediate 1) rfl rfl (by decide)
  have hone : t₁.z = false := hz₁.trans (beq_eq_false_iff_ne.mpr fun heq => hx (h5.symm.trans heq))
  obtain ⟨t₂, e₂, h₂, r₂⟩ := h₁.skip rfl (by rw [hone]; rfl)
  obtain ⟨t₃, e₃, h₃, r₃, hz₃⟩ :=
    h₂.data .and true 6 5 (.immediate 1) rfl rfl (by decide) (by decide)
  have hparity : t₃.z = (x &&& 1 == 0) := by
    simp [hz₃, r₂, r₁, h5, opcodeResult, Operand.value, State.read]
  have hr5 : t₃.reg 5 = x := by simp [r₃, r₂, r₁, h5]
  by_cases heven : x &&& 1 = 0
  · have hbeq : t₃.z = true := hparity.trans (beq_iff_eq.mpr heven)
    obtain ⟨t₄, e₄, h₄, r₄, -⟩ :=
      h₃.branch false 0x000002 8 rfl (by rw [hbeq]; rfl) (by decide) (by decide) (by decide)
    obtain ⟨t₅, e₅, h₅, r₅, -⟩ :=
      h₄.data .mov false 5 0 (.shifted 5 .lsr 1) rfl rfl (by decide) (by decide)
    obtain ⟨t₆, e₆, h₆, r₆, -⟩ :=
      h₅.branch false 0xFFFFF6 1 rfl rfl (by decide) (by decide) (by decide)
    refine ⟨5, t₆, after_cons e₁ (after_cons e₂ (after_cons e₃ (after_cons e₄ (after_cons e₅
      (after_cons e₆ rfl))))), h₆, ?_⟩
    have hnext : syracuse x = x >>> 1 := if_pos heven
    simp [hnext, r₆, r₅, r₄, hr5, opcodeResult, Operand.value, shiftBy, State.read]
  · have hbeq : t₃.z = false := hparity.trans (beq_eq_false_iff_ne.mpr heven)
    obtain ⟨t₄, e₄, h₄, r₄⟩ := h₃.skip rfl (by rw [hbeq]; rfl)
    obtain ⟨t₅, e₅, h₅, r₅, -⟩ :=
      h₄.data .add false 5 5 (.shifted 5 .lsl 1) rfl rfl (by decide) (by decide)
    obtain ⟨t₆, e₆, h₆, r₆, -⟩ :=
      h₅.data .add false 5 5 (.immediate 1) rfl rfl (by decide) (by decide)
    obtain ⟨t₇, e₇, h₇, r₇, -⟩ :=
      h₆.branch false 0xFFFFF8 1 rfl rfl (by decide) (by decide) (by decide)
    refine ⟨6, t₇, after_cons e₁ (after_cons e₂ (after_cons e₃ (after_cons e₄ (after_cons e₅
      (after_cons e₆ (after_cons e₇ rfl)))))), h₇, ?_⟩
    have hnext : syracuse x = x + x <<< 1 + 1 := if_neg heven
    simp [hnext, r₇, r₆, r₅, r₄, hr5, opcodeResult, Operand.value, shiftBy, State.read]

theorem syracuse_exits (x : BitVec 32) (t : State) (ht : AtSyracuse a s x t) (hx : x = 1) :
    Stops step (fun u => AtExit u ∧ u.reg 5 = 1 ∧ u.mem = s.mem) t := by
  obtain ⟨h, h5⟩ := ht
  obtain ⟨t₁, e₁, h₁, r₁, hz⟩ := h.compare 5 (.immediate 1) rfl rfl (by decide)
  have hone : t₁.z = true := hz.trans (beq_iff_eq.mpr (h5.trans hx))
  obtain ⟨t₂, e₂, h₂, r₂, -⟩ :=
    h₁.branch false 0x000006 10 rfl (by rw [hone]; rfl) (by decide) (by decide) (by decide)
  have hr5 : t₂.reg 5 = 1 := by simp [r₂, r₁, h5, hx]
  have hexit : AtExit t₂ := h₂.atExit rfl
  exact ⟨2, t₂, after_cons e₁ (after_cons e₂ rfl), step_atExit hexit, hexit, hr5, h₂.mem⟩

end

/-- From `tq` on, with any number in r5, the simulation ends exactly if the sequence comes to
1, which is then in r5.  It never raises an exception. -/
theorem syracuse_ends_iff (host : Host) (locals : Nat → Locals) {a : BitVec 32} {p : Core}
    (hloaded : Loaded syracuseCode a p.mem) (hpc : fetchAddress p.reg = a + 4) :
    ((∃ n, none ∈ (steps host locals n p).value) ↔
        ∃ j, syracuse^[j] (readRegister p.reg 5) = 1) ∧
      ∀ n, (∀ v ∈ (steps host locals n p).value, v = some 0 ∨ v = none) ∧
        (none ∈ (steps host locals n p).value →
          readRegister (steps host locals n p).state.reg 5 = 1 ∧
            (steps host locals n p).state.mem = p.mem) := by
  have hstart : AtSyracuse a (view p) (readRegister p.reg 5) (view p) :=
    ⟨Within.start hloaded hpc, rfl⟩
  have hzero : ∀ n {t : State}, after step n (view p) = some t →
      ∀ v ∈ (steps host locals n p).value, v = some 0 := by
    intro n t ht v hv
    rw [steps_value host locals ht] at hv
    exact List.eq_of_mem_replicate hv
  by_cases hcomes : ∃ j, syracuse^[j] (readRegister p.reg 5) = 1
  · obtain ⟨k, t, ht, -, hexit, h5, hmem⟩ :=
      (Machine.stops_iff syracuse_turns syracuse_exits hstart).mpr hcomes
    have hends := ends_of_after host ht hexit locals
    have hlast : none ∈ (steps host locals (k + 1) p).value := by
      rw [(hends (k + 1) (Nat.lt_succ_self k)).1]
      exact List.mem_append_right _ List.mem_cons_self
    refine ⟨iff_of_true ⟨k + 1, hlast⟩ hcomes, fun n => ?_⟩
    rcases Nat.lt_or_ge k n with hn | hn
    · obtain ⟨hvalue, hsimulates⟩ := hends n hn
      refine ⟨fun v hv => ?_, fun _ => ⟨?_, ?_⟩⟩
      · rw [hvalue, List.mem_append, List.mem_singleton] at hv
        exact hv.imp_left List.eq_of_mem_replicate
      · rw [← view_reg_of_ne _ (by decide), hsimulates.shows, State.next,
          State.write_reg_of_ne t (by decide), h5]
      · exact (congrArg State.mem hsimulates.shows).trans hmem
    · obtain ⟨u, hu, -⟩ := Machine.exists_after_of_le ht hn
      exact ⟨fun v hv => Or.inl (hzero n hu v hv), fun hnone => by cases hzero n hu none hnone⟩
  · have hforever := Machine.runs_forever syracuse_turns hstart fun j hj => hcomes ⟨j, hj⟩
    have hnever : ∀ n, none ∉ (steps host locals n p).value := by
      intro n hnone
      obtain ⟨u, hu⟩ := hforever n
      cases hzero n hu none hnone
    have hends : ¬∃ n, none ∈ (steps host locals n p).value := not_exists.mpr hnever
    refine ⟨iff_of_false hends hcomes, fun n => ⟨fun v hv => ?_, fun hnone =>
      absurd hnone (hnever n)⟩⟩
    obtain ⟨u, hu⟩ := hforever n
    exact Or.inl (hzero n hu v hv)

theorem syracuse_ends_fifteen :
    ∃ n, none ∈ (steps (.modular false) (fun _ => ⟨0, 0⟩) n (codeCore syracuseCode 1 5 15)).value :=
  (syracuse_ends_iff (.modular false) (fun _ => ⟨0, 0⟩) (a := 0x20)
    (p := codeCore syracuseCode 1 5 15) (by decide +kernel) (by decide)).1.mpr
      ⟨17, by decide +kernel⟩

end Assembly

end ArmSimulator
