/-
Programs under the debugger.

A download of the words of a program, in the byte order of the target, loads it.
`example6.s` is loaded with a breakpoint over the SWI that ends it, given its argument,
run, and asked for its result: the server acknowledges and answers each request, the last
one with the factorial.
-/
import ArmSimulator.Proof.Conversation
import ArmSimulator.Proof.Programs

namespace ArmSimulator

namespace Debugger

open Assembly (State view Loaded Within factorialCodeWith factorialWord factorial_computes)
open Gdb (Asks ChecksumOk frame)

/-! ## Loading -/

def codeBytes (big : Bool) (code : List (BitVec 32)) : List (BitVec 8) :=
  code.flatMap fun ins => Bytes.split big 4 ins.toNat

theorem length_codeBytes (big : Bool) (code : List (BitVec 32)) :
    (codeBytes big code).length = 4 * code.length := by
  induction code with
  | nil => rfl
  | cons ins code ih =>
    rw [codeBytes, List.flatMap_cons, List.length_append, Bytes.length_split, ← codeBytes, ih,
      List.length_cons]
    omega

theorem codeBytes_word (big : Bool) {code : List (BitVec 32)} {k : Nat} {ins : BitVec 32}
    (h : code[k]? = some ins) :
    ((codeBytes big code).drop (4 * k)).take 4 = Bytes.split big 4 ins.toNat := by
  induction code generalizing k with
  | nil => cases h
  | cons first code ih =>
    rw [codeBytes, List.flatMap_cons, ← codeBytes]
    cases k with
    | zero =>
      obtain rfl : first = ins := Option.some.inj h
      rw [Nat.mul_zero, List.drop_zero]
      exact List.take_left' (Bytes.length_split big 4 _)
    | succ k =>
      rw [Nat.mul_succ, Nat.add_comm, ← List.drop_drop,
        List.drop_left' (Bytes.length_split big 4 _)]
      exact ih h

theorem loaded_store {mem : Memory} {a : BitVec 32} {code : List (BitVec 32)}
    (hsize : mem.size < 2 ^ 32) (haligned : a.toNat % 4 = 0)
    (hinside : a.toNat + 4 * code.length ≤ mem.size) :
    Loaded code a (mem.store a (codeBytes mem.isBigEndian code)) := by
  intro k ins hins
  have hk : k < code.length := (List.getElem?_eq_some_iff.mp hins).1
  have hnat : (a + BitVec.ofNat 32 (4 * k)).toNat = a.toNat + 4 * k := by
    rw [BitVec.toNat_add, BitVec.toNat_ofNat]
    omega
  have hbytes := length_codeBytes mem.isBigEndian code
  have hword := map_store_span (k := 4 * k) (n := 4) hsize (hbytes.symm ▸ hinside) (by omega)
  rw [codeBytes_word mem.isBigEndian hins] at hword
  refine ⟨⟨by omega, ?_⟩, ?_⟩
  · show (a + BitVec.ofNat 32 (4 * k)).toNat + 4 ≤ mem.size
    omega
  · have hinside' : ¬mem.size ≤ (a + BitVec.ofNat 32 (4 * k)).toNat := by omega
    rw [wordAt, memoryReadWord_bytes, hword]
    simp only [Memory.store, if_neg hinside', Bytes.number_split]
    rw [Nat.mod_eq_of_lt (show ins.toNat < 256 ^ 4 from ins.isLt), BitVec.ofNat_toNat,
      BitVec.setWidth_eq]

/-! ## The factorial -/

section

variable {build : Build} {arm : Core} (hsize : arm.mem.size < 2 ^ 32)
  (hmode : Mode.Valid (getMode arm.reg)) {a : BitVec 32} (haligned : a.toNat % 4 = 0)
  (hinside : a.toNat + 84 ≤ arm.mem.size) {last : BitVec 32}
  (hbreak : Gdb.isBreakpoint last = true) (n : BitVec 32)

/-- The state in which the program starts: loaded, with its argument in r5. -/
def factorialStart (arm : Core) (a last n : BitVec 32) : State :=
  let code := codeBytes arm.mem.isBigEndian (factorialCodeWith last)
  obey (obey (obey (view arm) (.download a code)) (.setRegister 5 n)) (.setRegister 15 (a + 4))

include hsize haligned hinside hbreak in
theorem factorialStart_runs :
    ∃ k t, Machine.after Assembly.step k (factorialStart arm a last n) = some t ∧ Breakpoint t ∧
      t.reg 7 = (if n = 0 then 0 else factorialWord n) ∧
      t.mem = (factorialStart arm a last n).mem := by
  have hloaded : Loaded (factorialCodeWith last) a (factorialStart arm a last n).mem :=
    loaded_store hsize haligned hinside
  have hpc : (factorialStart arm a last n).reg 15 = a + BitVec.ofNat 32 (4 * 1) :=
    State.write_reg_self _ _ _
  have h5 : (factorialStart arm a last n).reg 5 = n :=
    (State.write_reg_of_ne _ (by decide) _).trans (State.write_reg_self _ _ _)
  obtain ⟨k, t, hrun, ⟨hpoint, -⟩, h7⟩ :=
    factorial_computes (factorialStart arm a last n) ⟨Within.start hloaded hpc, rfl⟩
  refine ⟨k, t, hrun, ⟨last, hpoint.fetch_eq rfl, hbreak⟩, ?_, hpoint.mem⟩
  rw [h7, h5, Assembly.mul_factorialWord_pred]

/-- The requests that load the program, give it its argument and run it. -/
def factorialScript (arm : Core) (a last n : BitVec 32) (load setN setPc go : Packet)
    (ctx₁ ctx₂ ctx₃ ctx₄ : Context) : List Exchange :=
  let code := codeBytes arm.mem.isBigEndian (factorialCodeWith last)
  let loaded := obey (view arm) (.download a code)
  [{ packet := load, context := ctx₁, request := .data (.download a code), before := view arm },
    { packet := setN, context := ctx₂, request := .data (.setRegister 5 n), before := loaded },
    { packet := setPc, context := ctx₃, request := .data (.setRegister 15 (a + 4))
      before := obey loaded (.setRegister 5 n) },
    { packet := go, context := ctx₄, request := .run, before := factorialStart arm a last n }]

include hinside in
/-- The program fits into the memory, so its download is accepted. -/
theorem factorialScript_replies {load setN setPc go : Packet} {ctx₁ ctx₂ ctx₃ ctx₄ : Context}
    {replies : List (List (BitVec 8))}
    (h : List.Forall₂ (fun e reply => Answers build (getMode arm.reg) e.before e.request reply)
      (factorialScript arm a last n load setN setPc go ctx₁ ctx₂ ctx₃ ctx₄) replies) :
    replies = [text ['O', 'K'], text ['O', 'K'], text ['O', 'K'], text ['S', '0', '5']] := by
  obtain ⟨_, _, ⟨cpsr₁, -, hloaded⟩, h₁, rfl⟩ := List.forall₂_cons_left_iff.mp h
  obtain ⟨_, _, ⟨cpsr₂, -, hgiven⟩, h₂, rfl⟩ := List.forall₂_cons_left_iff.mp h₁
  obtain ⟨_, _, ⟨cpsr₃, -, hplaced⟩, h₃, rfl⟩ := List.forall₂_cons_left_iff.mp h₂
  obtain ⟨_, _, hstopped, h₄, rfl⟩ := List.forall₂_cons_left_iff.mp h₃
  obtain rfl := List.forall₂_nil_left_iff.mp h₄
  have hlength : (codeBytes arm.mem.isBigEndian (factorialCodeWith last)).length = 84 :=
    length_codeBytes arm.mem.isBigEndian (factorialCodeWith last)
  have haccepted : a.toNat < arm.mem.size ∧
      a.toNat + (codeBytes arm.mem.isBigEndian (factorialCodeWith last)).length ≤ arm.mem.size := by
    omega
  rw [hloaded.trans (if_pos haccepted), hgiven, hplaced, hstopped]
  rfl

include hsize hmode haligned hinside hbreak in
/-- The program is downloaded to `a`, r5 and the program counter are set, and it is run: r7
then reads as the factorial.  Each request is acknowledged and answered. -/
theorem factorial_debugged (packet buffer : Nat → BitVec 8) {load setN setPc go get : Packet}
    (hsums : ∀ k ∈ [load, setN, setPc, go, get], ChecksumOk k)
    (hload : Asks build load.payload
      (.download a (codeBytes arm.mem.isBigEndian (factorialCodeWith last))))
    (hsetN : Asks build setN.payload (.setRegister 5 n))
    (hsetPc : Asks build setPc.payload (.setRegister 15 (a + 4)))
    (hgo : Demands build go.payload .run) (hget : Asks build get.payload (.getRegister 7)) :
    ∃ k, ∀ ctx₁ ctx₂ ctx₃ ctx₄ ctx₅ : Context, k ≤ ctx₄.steps.length →
      let o := runSession build
        [(.token (.packet load), ctx₁), (.token (.packet setN), ctx₂),
          (.token (.packet setPc), ctx₃), (.token (.packet go), ctx₄)]
        (newSession arm packet buffer)
      let next := sessionStep build (.token (.packet get), ctx₅) o.state
      o.value = List.replicate 4 (some ()) ∧ next.value = some () ∧
        o.state.gdb.arm.mem =
          arm.mem.store a (codeBytes arm.mem.isBigEndian (factorialCodeWith last)) ∧
        output o.trace =
          [text ['+'], frame (text ['O', 'K']), text ['+'], frame (text ['O', 'K']),
            text ['+'], frame (text ['O', 'K']), text ['+'], frame (text ['S', '0', '5'])] ∧
        output next.trace =
          [text ['+'],
            frame (Gdb.writeUint32 build (if n = 0 then 0 else factorialWord n))] := by
  obtain ⟨k, t, hrun, ht, h7, hmem⟩ := factorialStart_runs hsize haligned hinside hbreak n
  refine ⟨k, fun ctx₁ ctx₂ ctx₃ ctx₄ ctx₅ hk => ?_⟩
  have hserves : Serves (getMode arm.reg) (view arm) (newSession arm packet buffer).gdb :=
    ⟨⟨rfl, hsize, hmode⟩, rfl, rfl, rfl⟩
  have hdata : ∀ (bound : Nat) (s : State) (c : Gdb.DataCommand),
      (target s (readCpsr arm.reg)).Permits c →
        Turn (getMode arm.reg) bound (.data c) s (obey s c) :=
    fun bound s c hpermits => .data rfl hpermits
  have hlength : (codeBytes arm.mem.isBigEndian (factorialCodeWith last)).length < 2 ^ 32 := by
    rw [length_codeBytes]
    exact show 4 * 21 < 2 ^ 32 by decide
  have haligned' : (a + 4).toNat % 4 = 0 := by
    rw [BitVec.toNat_add, show (4 : BitVec 32).toNat = 4 from rfl]
    omega
  simp only [List.mem_cons, List.not_mem_nil, or_false, forall_eq_or_imp, forall_eq] at hsums
  obtain ⟨hsum₁, hsum₂, hsum₃, hsum₄, hsum₅⟩ := hsums
  have hscript : Script build (getMode arm.reg)
      (factorialScript arm a last n load setN setPc go ctx₁ ctx₂ ctx₃ ctx₄) (view arm) t :=
    .cons hsum₁ (.data hload) (hdata _ _ _ hlength)
      (.cons hsum₂ (.data hsetN) (hdata _ _ _ fun h => absurd h (by decide))
        (.cons hsum₃ (.data hsetPc) (hdata _ _ _ fun _ => haligned')
          (.cons hsum₄ hgo (.run hrun ht hk) (.nil t))))
  obtain ⟨hvalue, hend, ⟨d, hfollows, hpending⟩, replies, hanswers, houtput⟩ :=
    runSession_script hscript hserves (follows_newSession arm packet buffer) rfl 0
  obtain ⟨hnext, -, -, reply, ⟨cpsr, -, rfl⟩, hreply⟩ :=
    sessionStep_request build (e := ⟨get, ctx₅, .data (.getRegister 7), t⟩) hend hfollows hpending
      hsum₅ (.data hget) (hdata _ t _ (show (7 : Fin 16) < 10 by decide))
  rw [factorialScript_replies hinside n hanswers] at houtput
  refine ⟨hvalue, hnext, (congrArg State.mem hend.shows).trans hmem, houtput, ?_⟩
  rw [← h7]
  exact hreply

end

/-- The encoding of a download that escapes the framing characters, the escape and zeros. -/
def encode (bytes : List (BitVec 8)) : List (BitVec 8) :=
  bytes.flatMap fun b =>
    if b ≠ chr '$' ∧ b ≠ chr '#' ∧ b ≠ 0x7d ∧ b ≠ 0 then [b] else [0x7d, b ^^^ 0x20]

theorem encodes_encode (bytes : List (BitVec 8)) : Gdb.Encodes bytes (encode bytes) := by
  induction bytes with
  | nil => exact .nil
  | cons b bytes ih =>
    rw [encode, List.flatMap_cons, ← encode]
    by_cases h : b ≠ chr '$' ∧ b ≠ chr '#' ∧ b ≠ 0x7d ∧ b ≠ 0
    · rw [if_pos h]
      exact .raw ⟨h.1, h.2.1, h.2.2.1⟩ ih
    · rw [if_neg h]
      exact .escaped b ih

theorem encode_plain (bytes : List (BitVec 8)) :
    ∀ c ∈ encode bytes, c ≠ 0 ∧ c ≠ chr '$' ∧ c ≠ chr '#' := by
  intro c hc
  obtain ⟨b, -, hb⟩ := List.mem_flatMap.mp hc
  split_ifs at hb with hraw
  · rw [List.mem_singleton.mp hb]
    exact ⟨hraw.2.2.2, hraw.1, hraw.2.1⟩
  · have hspecial : b = chr '$' ∨ b = chr '#' ∨ b = 0x7d ∨ b = 0 := by
      by_contra hnone
      simp only [not_or] at hnone
      exact hraw hnone
    rw [List.mem_cons, List.mem_singleton] at hb
    rcases hb with rfl | rfl
    · decide
    · rcases hspecial with rfl | rfl | rfl | rfl <;> decide

/-- A core with 0x400 bytes of memory. -/
def emptyCore : Core where
  cycleCount := 0
  reg := fun i => if i = cpsrIndex then 0x10 else 0
  mem := memoryOfWords true 0x400 []

theorem factorial_debugged_five :
    let code := codeBytes true (factorialCodeWith 0xE7F001F0)
    let load := Gdb.packetOfString (text ['X', '2', '0', ',', '5', '4', ':'] ++ encode code)
      (List.forall_mem_append.mpr ⟨by decide, encode_plain code⟩)
    let setN := Gdb.packetOfString (chr 'P' :: Gdb.registerText quietBuild 5 5) (by decide +kernel)
    let setPc := Gdb.packetOfString (chr 'P' :: Gdb.registerText quietBuild 15 0x24)
      (by decide +kernel)
    let go := Gdb.packetOfString (text ['c']) (by decide)
    let get := Gdb.packetOfString (text ['p', '7']) (by decide)
    ∃ k, ∀ ctx : Context, k ≤ ctx.steps.length →
      let o := runSession quietBuild
        ([load, setN, setPc, go].map fun p => (.token (.packet p), ctx))
        (newSession emptyCore (fun _ => 0) fun _ => 0)
      output o.trace =
          [text ['+'], frame (text ['O', 'K']), text ['+'], frame (text ['O', 'K']),
            text ['+'], frame (text ['O', 'K']), text ['+'], frame (text ['S', '0', '5'])] ∧
        output (sessionStep quietBuild (.token (.packet get), ctx) o.state).trace =
          [text ['+'], frame (text ['0', '0', '0', '0', '0', '0', '7', '8'])] := by
  intro code load setN setPc go get
  have haddress : Gdb.Numeral (text ['2', '0']) (0x20 : BitVec 32).toNat :=
    ⟨by decide, by decide, rfl⟩
  have hcount : Gdb.Numeral (text ['5', '4']) code.length := ⟨by decide, by decide, rfl⟩
  have hload : Asks quietBuild load.payload (.download 0x20
      (codeBytes emptyCore.mem.isBigEndian (factorialCodeWith 0xE7F001F0))) :=
    .download haddress hcount (encodes_encode code)
  have hsetN : Asks quietBuild setN.payload (.setRegister 5 5) := .setRegister 5 5
  have hsetPc : Asks quietBuild setPc.payload (.setRegister 15 (0x20 + 4)) := .setRegister 15 0x24
  have hget : Asks quietBuild get.payload (.getRegister 7) := .getRegister 7
  have hsums : ∀ p ∈ [load, setN, setPc, go, get], ChecksumOk p := by
    simp [load, setN, setPc, go, get, Gdb.checksumOk_packetOfString]
  obtain ⟨k, hk⟩ := factorial_debugged (by decide) (by decide) (by decide) (by decide) (by decide) 5
    (fun _ => 0) (fun _ => 0) hsums hload hsetN hsetPc (.run []) hget
  refine ⟨k, fun ctx hctx => ?_⟩
  obtain ⟨-, -, -, houtput, hreply⟩ := hk ctx ctx ctx ctx ctx hctx
  exact ⟨houtput, hreply.trans (by decide +kernel)⟩

end Debugger

end ArmSimulator
