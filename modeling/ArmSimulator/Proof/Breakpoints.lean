/-
Planted breakpoints.

The server has no breakpoints of its own: the debugger downloads a breakpoint word over
an instruction, continues, and downloads the instruction again.  The program runs on a
memory that is not its own in between.  As long as it does not reach the four bytes by
itself the difference stays there: the three requests together are the single steps of
the program that was loaded.
-/
import ArmSimulator.Proof.Continue
import ArmSimulator.Proof.Download
import ArmSimulator.Proof.Footprint
import ArmSimulator.Proof.Restore

namespace ArmSimulator

/-! ## Four bytes of a memory -/

/-- The bytes of the word at `a`. -/
def WordAt (a : BitVec 32) : Place → Prop
  | .register _ => False
  | .byte i => i ∈ span a 4

instance (a : BitVec 32) : DecidablePred (WordAt a) := by
  intro l
  cases l with
  | register i => exact inferInstanceAs (Decidable False)
  | byte i => exact inferInstanceAs (Decidable (i ∈ span a 4))

/-- The bytes that have been stored from `a` on, from the `k`-th on. -/
theorem map_store_span {mem : Memory} {a : BitVec 32} {bytes : List (BitVec 8)} {k n : Nat}
    (hsize : mem.size < 2 ^ 32) (hinside : a.toNat + bytes.length ≤ mem.size)
    (hk : k + n ≤ bytes.length) :
    (span (a + BitVec.ofNat 32 k) n).map (mem.store a bytes).m = (bytes.drop k).take n := by
  refine List.ext_getElem (by simp [span]; omega) fun j hj hj' => ?_
  simp only [span, List.map_map, List.length_map, List.length_range] at hj
  have hnat : (a + BitVec.ofNat 32 k + BitVec.ofNat 32 j).toNat = a.toNat + (k + j) := by
    rw [BitVec.toNat_add, BitVec.toNat_add, BitVec.toNat_ofNat, BitVec.toNat_ofNat]
    omega
  simp only [span, List.map_map, List.getElem_map, List.getElem_range, Function.comp_apply,
    Memory.store, hnat]
  rw [if_pos (by omega), Nat.add_sub_cancel_left, List.getElem_take, List.getElem_drop,
    List.getD_eq_getElem?_getD, List.getElem?_eq_getElem (by omega), Option.getD_some]

section

variable {mem mem' : Memory} {a : BitVec 32} (hsize : mem.size < 2 ^ 32)
  (hinside : a.toNat + 4 ≤ mem.size)

include hsize hinside in
theorem mem_span_four_iff (i : BitVec 32) :
    i ∈ span a 4 ↔ a.toNat ≤ i.toNat ∧ i.toNat < a.toNat + 4 := by
  have hnat : ∀ k < 4, (a + BitVec.ofNat 32 k).toNat = a.toNat + k := by
    intro k hk
    rw [BitVec.toNat_add, BitVec.toNat_ofNat]
    omega
  rw [span, List.mem_map]
  constructor
  · rintro ⟨k, hk, rfl⟩
    have hk := List.mem_range.mp hk
    rw [hnat k hk]
    omega
  · rintro ⟨hle, hlt⟩
    refine ⟨i.toNat - a.toNat, List.mem_range.mpr (by omega), ?_⟩
    refine BitVec.eq_of_toNat_eq ?_
    rw [hnat _ (by omega)]
    omega

include hsize hinside in
theorem store_outside_span {bytes : List (BitVec 8)} (hlength : bytes.length = 4) {i : BitVec 32}
    (hi : i ∉ span a 4) : (mem.store a bytes).m i = mem.m i := by
  rw [mem_span_four_iff hsize hinside] at hi
  simp only [Memory.store]
  split_ifs with hin
  · have hend : bytes.length ≤ i.toNat - a.toNat := by omega
    rw [List.getD_eq_getElem?_getD, List.getElem?_eq_none hend, Option.getD_none]
  · rfl

include hsize hinside in
theorem map_store_span_four {bytes : List (BitVec 8)} (hlength : bytes.length = 4) :
    (span a 4).map (mem.store a bytes).m = bytes := by
  have hstored := map_store_span (k := 0) hsize (hlength.symm ▸ hinside)
    (show 0 + 4 ≤ bytes.length by omega)
  rwa [BitVec.add_zero, List.drop_zero, List.take_of_length_le (by omega)] at hstored

/-- The bytes of one memory, stored in another that agrees with it elsewhere. -/
theorem store_original (h : MemoryOutside (fun i => i ∈ span a 4) mem mem')
    (hsize : mem.size < 2 ^ 32) (hinside : a.toNat + 4 ≤ mem.size) :
    mem'.store a ((span a 4).map mem.m) = mem := by
  have hsize' : mem'.size < 2 ^ 32 := by rw [h.size]; exact hsize
  have hinside' : a.toNat + 4 ≤ mem'.size := by rw [h.size]; exact hinside
  have hlength : ((span a 4).map mem.m).length = 4 := by simp [span]
  refine memory_ext (funext fun i => ?_) h.size h.isBigEndian
  by_cases hi : i ∈ span a 4
  · have hmap := map_store_span_four hsize' hinside' hlength
    exact List.map_inj_left.mp hmap i hi
  · rw [store_outside_span hsize' hinside' hlength hi, h.byte i hi]

end

/-! ## The program on its own -/

/-- Over these steps the program gets to `a` for the first time: each step returns and
reaches no byte of the word there, and no instruction on the way is a breakpoint. -/
inductive Approaches (build : Build) (a : BitVec 32) : List Locals → Core → Prop where
  | here {p : Core} (address : fetchAddress p.reg = a) : Approaches build a [] p
  | step {locals : Locals} {rest : List Locals} {p : Core} {ins result : BitVec 32}
      (fetch : fetched p = .ok ins) (plain : Gdb.isBreakpoint ins = false)
      (returns : (armStep build.host locals p).value = some result)
      (avoids : ∀ e ∈ (armStep build.host locals p).trace, AvoidsPlaces (WordAt a) e)
      (approaches : Approaches build a rest (armStep build.host locals p).state) :
      Approaches build a (locals :: rest) p

/-- The fetch of a step that avoids some places sees none of them. -/
theorem fetched_apart {D : Place → Prop} (hcpsr : ¬D (.register cpsrIndex)) {p q s t : Core}
    (h : Apart D p q s t) {host : Host} {locals : Locals}
    (havoid : ∀ e ∈ (armStep host locals s).trace, AvoidsPlaces D e) :
    fetched t = fetched s := by
  have hfetch : ∀ e ∈ (armFetch s).trace, AvoidsPlaces D e := by
    intro e he
    refine havoid e ?_
    rw [armStep_eq, Traced.bind_trace, armExecuteInstruction, Traced.bind_trace, Traced.bind_trace]
    exact List.mem_append_left _ (List.mem_append_right _ (List.mem_append_left _ he))
  have hvalue := (armFetch_respects (apart_respects hcpsr).toRespects s t h hfetch).1
  rw [armFetch_eq, armFetch_eq] at hvalue
  exact hvalue

/-- `q` is `p` with a breakpoint in the place of the word at `a`. -/
structure Planted (a : BitVec 32) (p q : Core) : Prop where
  agree : AgreeOutside (WordAt a) p q
  breakpoint : ∃ ins, memoryReadWord q.mem a = .ok ins ∧ Gdb.isBreakpoint ins = true

theorem memoryReadWord_bytes (mem : Memory) (a : BitVec 32) :
    memoryReadWord mem a =
      if mem.size ≤ a.toNat then .error dataAbort
      else .ok (BitVec.ofNat 32 (Bytes.number mem.isBigEndian ((span a 4).map mem.m))) := by
  rw [← Bytewise.memoryReadWord_value, memoryReadWord_outcome, readOutcome]
  split_ifs <;> rfl

theorem memoryReadWord_congr {mem mem' : Memory} {a : BitVec 32} (hsize : mem'.size = mem.size)
    (hbig : mem'.isBigEndian = mem.isBigEndian) (hbytes : ∀ i ∈ span a 4, mem'.m i = mem.m i) :
    memoryReadWord mem' a = memoryReadWord mem a := by
  rw [memoryReadWord_bytes, memoryReadWord_bytes, hsize, hbig, List.map_congr_left hbytes]

/-- A step that reaches no byte of the word does the same to both, and the breakpoint
stays. -/
theorem Planted.step {a : BitVec 32} {p q : Core} (h : Planted a p q) {host : Host}
    {locals : Locals} (havoid : ∀ e ∈ (armStep host locals p).trace, AvoidsPlaces (WordAt a) e) :
    fetched q = fetched p ∧ (armStep host locals q).value = (armStep host locals p).value ∧
      SameAt (WordAt a) p (armStep host locals p).state ∧
      Planted a (armStep host locals p).state (armStep host locals q).state := by
  have start : Apart (WordAt a) p q p q := ⟨h.agree, SameAt.refl _ p, SameAt.refl _ q⟩
  have hcpsr : ¬WordAt a (.register cpsrIndex) := id
  obtain ⟨hvalue, -, hnext, -⟩ :=
    armStep_respects (apart_respects hcpsr) host locals p q start havoid
  refine ⟨fetched_apart hcpsr start havoid, hvalue, hnext.left, hnext.agree, ?_⟩
  obtain ⟨ins, hread, hbreak⟩ := h.breakpoint
  refine ⟨ins, ?_, hbreak⟩
  rw [memoryReadWord_congr hnext.right.size hnext.right.isBigEndian hnext.right.mem, hread]

/-- Storing the word that was there takes the breakpoint away. -/
theorem Planted.restore {a : BitVec 32} {p q : Core} (h : Planted a p q)
    (hsize : p.mem.size < 2 ^ 32) (hinside : a.toNat + 4 ≤ p.mem.size) :
    { q with mem := q.mem.store a ((span a 4).map p.mem.m) } = p := by
  have hreg : q.reg = p.reg := funext fun i => h.agree.reg i id
  rw [store_original h.agree.mem hsize hinside, hreg, h.agree.cycleCount]

/-- Storing a breakpoint plants it. -/
theorem planted_store {p : Core} {a : BitVec 32} (hsize : p.mem.size < 2 ^ 32)
    (hinside : a.toNat + 4 ≤ p.mem.size) {word : List (BitVec 8)} (hlength : word.length = 4)
    (hbreak : Gdb.isBreakpoint (BitVec.ofNat 32 (Bytes.number p.mem.isBigEndian word)) = true) :
    Planted a p { p with mem := p.mem.store a word } := by
  refine ⟨⟨rfl, fun _ _ => rfl, rfl, rfl, fun i hi => ?_⟩, _, ?_, hbreak⟩
  · exact store_outside_span hsize hinside hlength hi
  · rw [memoryReadWord_bytes, map_store_span_four hsize hinside hlength]
    exact if_neg (show ¬p.mem.size ≤ a.toNat by omega)

namespace Gdb

/-! ## Runs up to the word -/

theorem contLoop_breakpoint_returns {build : Build} {instruction : BitVec 32} {g : Gdb}
    (hbreak : BreakpointNext g.arm) (steps : List Locals) :
    (contLoop build steps instruction g).value = .ok () := by
  obtain ⟨ins, hins, hbreak⟩ := hbreak
  cases steps with
  | nil =>
    rw [contLoop, (anticipate_bind hins instruction _).1, if_pos hbreak]
    rfl
  | cons locals rest =>
    rw [contLoop, (anticipate_bind hins instruction _).1, if_pos hbreak]
    rfl

/-- The server `g'` is `g` with a breakpoint in the place of the word at `a` of its
target. -/
structure PlantedTarget (a : BitVec 32) (g g' : Gdb) : Prop where
  arm : Planted a g.arm g'.arm
  targetException : g'.targetException = g.targetException
  connected : g'.connected = g.connected

/-- The loop takes the steps of the program and stops in front of the breakpoint.  The
target is left as single steps of the program alone leave theirs, but for the word. -/
theorem contLoop_planted {build : Build} {a : BitVec 32} {steps : List Locals} {p : Core}
    (happroaches : Approaches build a steps p) (rest : List Locals) (instruction : BitVec 32)
    {g g' : Gdb} (hg : g.arm = p) (hplanted : PlantedTarget a g g') :
    ∃ g₁, Turns build steps g g₁ ∧ SameAt (WordAt a) g.arm g₁.arm ∧
      (contLoop build (steps ++ rest) instruction g').value = .ok () ∧
      PlantedTarget a g₁ (contLoop build (steps ++ rest) instruction g').state := by
  induction happroaches generalizing instruction g g' with
  | @here p address =>
    subst hg
    have hpc : g'.arm.reg 15 = g.arm.reg 15 := hplanted.arm.agree.reg 15 id
    have hnext : BreakpointNext g'.arm := by
      rw [BreakpointNext, fetched, fetchAddress, hpc, ← fetchAddress, address]
      exact hplanted.arm.breakpoint
    refine ⟨g, Turns.nil g, SameAt.refl _ _, contLoop_breakpoint_returns hnext _, ?_⟩
    rw [contLoop_breakpoint hnext]
    exact hplanted
  | @step locals steps p ins result fetch plain returns avoids approaches ih =>
    subst hg
    obtain ⟨hfetch, hvalue, hkept, hstep⟩ := hplanted.arm.step avoids
    rw [returns] at hvalue
    have hg₁ := stepTarget_some returns
    have hg₁' := stepTarget_some hvalue
    have hplanted₁ : PlantedTarget a (stepTarget build locals g).state
        (stepTarget build locals g').state := by
      rw [hg₁, hg₁']
      exact ⟨hstep, rfl, hplanted.connected⟩
    obtain ⟨g₂, hturns, hkept₂, hloop⟩ := ih ins (by rw [hg₁]) hplanted₁
    rw [hg₁] at hkept₂
    refine ⟨g₂, Turns.cons (by rw [hg₁]) hturns, hkept.trans hkept₂, ?_⟩
    -- One turn of the loop, which sees the instruction of the program.
    have hturn := anticipate_bind (hfetch.trans fetch) instruction fun instruction =>
      if isBreakpoint instruction then pure ()
      else stepTarget build locals >>= fun _ => contLoop build (steps ++ rest) instruction
    have hplain : ¬isBreakpoint ins = true := by
      rw [plain]
      decide
    have hreturn : (stepTarget build locals g').value = .ok () := by
      rw [hg₁']
    simp only [if_neg hplain, Halting.bind_apply_ok hreturn] at hturn
    rw [List.cons_append, contLoop, hturn.1, hturn.2]
    exact hloop

theorem SameTarget.symm {g g' : Gdb} (h : SameTarget g g') : SameTarget g' g :=
  ⟨h.arm.symm, h.targetException.symm, h.connected.symm⟩

/-! ## Requests -/

theorem replyInvariant_sameTarget (g : Gdb) : ReplyInvariant (SameTarget g) fun _ => True where
  packet _ _ hg := ⟨hg.arm, hg.targetException, hg.connected⟩
  len _ _ hg := ⟨hg.arm, hg.targetException, hg.connected⟩
  write _ := trivial

theorem sameTarget_gdbSendData (data : List (BitVec 8)) (g : Gdb) :
    SameTarget g (gdbSendData data g).state :=
  (keeps_gdbSendData (replyInvariant_sameTarget g) data g ⟨rfl, rfl, rfl⟩).1

theorem sameTarget_gdbSendBuffer (g : Gdb) : SameTarget g (gdbSendBuffer g).state :=
  (keeps_gdbSendBuffer (replyInvariant_sameTarget g) g ⟨rfl, rfl, rfl⟩).1

/-- What a request with the right sum does is what its handler does. -/
theorem gdbPacketAnalysis_handled (build : Build) (ctx : Context) {k : Packet} {g : Gdb}
    (hopen : g.connected = true) (hsum : ChecksumOk k)
    {handle : Build → Context → List (BitVec 8) → GdbM Unit} {c : BitVec 8}
    {data : List (BitVec 8)} (hpayload : k.payload = c :: data)
    (hhandler : handler c = some handle) :
    let o := gdbPacketAnalysis build ctx k.text g
    let handled := handle build ctx (data ++ 0 :: k.high :: k.low :: 0 :: ctx.beyond) g
    o.value = handled.value ∧ o.state = handled.state ∧
      lastReply o.trace = lastReply handled.trace := by
  have hreply := lastReply_accepted build ctx hopen hsum
  rw [answer_cons build ctx hpayload hhandler] at hreply
  rw [gdbPacketAnalysis_accepted build ctx hopen hsum, answer_cons build ctx hpayload hhandler] at *
  exact ⟨rfl, rfl, hreply⟩

/-- A packet that asks for `bytes` to be stored from `a` on. -/
structure Downloads (k : Packet) (a : BitVec 32) (bytes : List (BitVec 8)) : Prop where
  checksum : ChecksumOk k
  payload : ∃ address count encoded, k.payload = chr 'X' :: downloadText address count encoded ∧
    Numeral address a.toNat ∧ Numeral count bytes.length ∧ Encodes bytes encoded

/-- A download of a word inside the memory. -/
theorem gdbPacketAnalysis_download (build : Build) (ctx : Context) {k : Packet} {g : Gdb}
    {a : BitVec 32} {bytes : List (BitVec 8)} (hopen : g.connected = true)
    (hsize : g.arm.mem.size < 2 ^ 32) (hk : Downloads k a bytes) (hlength : bytes.length = 4)
    (hinside : a.toNat + 4 ≤ g.arm.mem.size) :
    let o := gdbPacketAnalysis build ctx k.text g
    o.value = .ok () ∧
      SameTarget { g with arm := { g.arm with mem := g.arm.mem.store a bytes } } o.state ∧
      lastReply o.trace = some (frame (text ['O', 'K'])) := by
  intro o
  obtain ⟨address, count, encoded, hpayload, haddress, hcount, hencoded⟩ := hk.payload
  obtain ⟨hvalue, hstate, hreply⟩ := gdbPacketAnalysis_handled build ctx hopen hk.checksum
    hpayload (show handler (chr 'X') = some writeMemoryBinary from rfl)
  obtain ⟨hvalue', hstate'⟩ := writeMemoryBinary_answer haddress hcount build ctx hencoded
    (by omega) _ g hsize
  rw [if_pos ⟨by omega, by omega⟩] at hvalue' hstate'
  let g₁ : Gdb := { g with arm := { g.arm with mem := g.arm.mem.store a bytes } }
  have hplain : ∀ c ∈ text ['O', 'K'], c ≠ 0 := by
    decide
  obtain ⟨hstored, hreturns, -⟩ := gdbSendData_reply (by decide) hplain g₁
  have hok : (writeMemoryBinary build ctx (downloadText address count encoded ++ _) g).value =
      .ok () := hvalue'.trans (hreturns.mpr hopen)
  refine ⟨hvalue.trans hok, ?_, ?_⟩
  · rw [show o.state = _ from hstate.trans hstate']
    exact sameTarget_gdbSendData _ g₁
  · have hsent := sends_writeMemoryBinary build ctx _ g () hok
    rw [show lastReply o.trace = _ from hreply, hsent, hstate']
    exact congrArg some hstored

/-- A request to continue, as a packet. -/
theorem gdbPacketAnalysis_continue {build : Build} {ctx : Context} {k : Packet} {g : Gdb}
    (hopen : g.connected = true) (hsum : ChecksumOk k) (hk : k.payload.head? = some (chr 'c'))
    (hreturn : (contLoop build ctx.steps ctx.instruction g).value = .ok ())
    (hstill : (contLoop build ctx.steps ctx.instruction g).state.connected = true) :
    let o := gdbPacketAnalysis build ctx k.text g
    let stopped := (contLoop build ctx.steps ctx.instruction g).state
    o.value = .ok () ∧ SameTarget stopped o.state ∧
      lastReply o.trace = some (frame (stopReason stopped.targetException)) := by
  obtain ⟨data, hpayload⟩ : ∃ data, k.payload = chr 'c' :: data := by
    cases hlist : k.payload with
    | nil => rw [hlist] at hk; cases hk
    | cons c data => rw [hlist] at hk; cases hk; exact ⟨data, rfl⟩
  obtain ⟨hvalue, hstate, hreply⟩ := gdbPacketAnalysis_handled build ctx hopen hsum hpayload
    (show handler (chr 'c') = some cont from rfl)
  intro o stopped
  obtain ⟨hreturns, htrace⟩ := gdbSendStopReason_apply stopped
  have hcont : ∀ data, cont build ctx data g = _ := fun _ => Halting.bind_apply_ok hreturn _
  refine ⟨?_, ?_, ?_⟩
  · rw [show o.value = _ from hvalue, hcont]
    exact hreturns.mpr hstill
  · rw [show o.state = _ from hstate, hcont]
    exact sameTarget_gdbSendStopReason stopped
  · rw [show lastReply o.trace = _ from hreply, hcont, lastReply_append,
      show (gdbSendStopReason stopped).trace = _ from htrace hstill]
    rfl

/-- Planting a breakpoint, continuing and putting the instruction back is stepping the
program that was loaded up to the address for the first time.  The debugger is told the
stop reason of the last of these steps. -/
theorem breakpoint_transparent (build : Build) (ctx₁ ctx₂ ctx₃ ctx : Context)
    (data : List (BitVec 8)) {plant go remove : Packet} {g : Gdb} {a : BitVec 32}
    {word : List (BitVec 8)} {steps rest : List Locals} (hopen : g.connected = true)
    (hsize : g.arm.mem.size < 2 ^ 32) (hinside : a.toNat + 4 ≤ g.arm.mem.size)
    (happroaches : Approaches build a steps g.arm) (hsteps : ctx₂.steps = steps ++ rest)
    (hlength : word.length = 4)
    (hbreak : isBreakpoint (BitVec.ofNat 32 (Bytes.number g.arm.mem.isBigEndian word)) = true)
    (hplant : Downloads plant a word) (hgo : ChecksumOk go)
    (hcommand : go.payload.head? = some (chr 'c'))
    (hremove : Downloads remove a ((span a 4).map g.arm.mem.m)) :
    let o₁ := gdbPacketAnalysis build ctx₁ plant.text g
    let o₂ := gdbPacketAnalysis build ctx₂ go.text o₁.state
    let o₃ := gdbPacketAnalysis build ctx₃ remove.text o₂.state
    let run := stepCommands build ctx data steps g
    (o₁.value = .ok () ∧ o₂.value = .ok () ∧ o₃.value = .ok ()) ∧ run.value = .ok () ∧
      SameTarget run.state o₃.state ∧
      lastReply o₂.trace = some (frame (stopReason run.state.targetException)) := by
  intro o₁ o₂ o₃ run
  obtain ⟨hvalue₁, hsame₁, -⟩ := gdbPacketAnalysis_download build ctx₁ hopen hsize hplant hlength
    hinside
  have hplanted : PlantedTarget a g o₁.state := by
    refine ⟨?_, hsame₁.targetException.symm, hsame₁.connected.symm⟩
    rw [show o₁.state.arm = _ from hsame₁.arm.symm]
    exact planted_store hsize hinside hlength hbreak
  have hopen₁ : o₁.state.connected = true := hplanted.connected.trans hopen
  obtain ⟨g₁, hturns, hkept, hreturn, hstopped⟩ :=
    contLoop_planted happroaches rest ctx₂.instruction rfl hplanted
  rw [← hsteps] at hreturn hstopped
  have hstill := hstopped.connected.trans (hturns.connected.trans hopen)
  obtain ⟨hvalue₂, hsame₂, hreply₂⟩ := gdbPacketAnalysis_continue hopen₁ hgo hcommand hreturn hstill
  have harm₂ : Planted a g₁.arm o₂.state.arm := by
    rw [show o₂.state.arm = _ from hsame₂.arm.symm]
    exact hstopped.arm
  have hsize₂ : o₂.state.arm.mem.size = g.arm.mem.size := harm₂.agree.mem.size.trans hkept.size
  have hword : (span a 4).map g.arm.mem.m = (span a 4).map g₁.arm.mem.m :=
    List.map_congr_left fun i hi => (hkept.mem i hi).symm
  obtain ⟨hvalue₃, hsame₃, -⟩ := gdbPacketAnalysis_download build ctx₃
    (hsame₂.connected.symm.trans hstill) (by rw [hsize₂]; exact hsize) hremove (by simp [span])
    (by rw [hsize₂]; exact hinside)
  obtain ⟨hvalue, hrun, -⟩ := hturns.commands hopen ctx data ⟨rfl, rfl, rfl⟩
  refine ⟨⟨hvalue₁, hvalue₂, hvalue₃⟩, hvalue, hrun.symm.trans (SameTarget.trans ?_ hsame₃), ?_⟩
  · refine ⟨?_, ?_, ?_⟩
    · rw [hword]
      refine (harm₂.restore ?_ ?_).symm
      · rw [hkept.size]
        exact hsize
      · rw [hkept.size]
        exact hinside
    · exact hstopped.targetException.symm.trans hsame₂.targetException
    · exact hstopped.connected.symm.trans hsame₂.connected
  · rw [show lastReply o₂.trace = _ from hreply₂, hstopped.targetException, hrun.targetException]

/-- A server in front of `MOV r1, #5`, `MOV r2, #6` and `MOV r3, #7`. -/
def movesGdb : Gdb :=
  gdbInitData
    { cycleCount := 0
      reg := fun i => if i = cpsrIndex then 0x10 else 0
      mem := memoryOfWords true 64 [0xE3A01005, 0xE3A02006, 0xE3A03007] }
    fun _ => 0

theorem approaches_movesGdb : Approaches quietBuild 8 [⟨0, 0⟩, ⟨0, 0⟩] movesGdb.arm := by
  have hfirst : fetched movesGdb.arm = .ok 0xE3A01005 := rfl
  have hsecond : fetched (armStep quietBuild.host ⟨0, 0⟩ movesGdb.arm).state = .ok 0xE3A02006 := by
    rfl
  refine .step hfirst (by decide) rfl (by decide +kernel) ?_
  exact .step hsecond (by decide) rfl (by decide +kernel) (.here rfl)

/-- The debugger runs up to the third instruction, over which it plants `0xE7F001F0`. -/
theorem breakpoint_transparent_moves :
    let plant := packetOfString (text ['X', '8', ',', '4', ':'] ++ [0xE7, 0xF0, 0x01, 0xF0])
      (by decide)
    let go := packetOfString (text ['c']) (by decide)
    let remove := packetOfString (text ['X', '8', ',', '4', ':'] ++ [0xE3, 0xA0, 0x30, 0x07])
      (by decide)
    let ctx : Context := { quietContext with steps := [⟨0, 0⟩, ⟨0, 0⟩, ⟨0, 0⟩] }
    let o₁ := gdbPacketAnalysis quietBuild ctx plant.text movesGdb
    let o₂ := gdbPacketAnalysis quietBuild ctx go.text o₁.state
    let o₃ := gdbPacketAnalysis quietBuild ctx remove.text o₂.state
    SameTarget (stepCommands quietBuild ctx [] [⟨0, 0⟩, ⟨0, 0⟩] movesGdb).state o₃.state := by
  intro plant go remove ctx o₁ o₂ o₃
  have haddress : Numeral (text ['8']) (8 : BitVec 32).toNat := ⟨by decide, by decide, rfl⟩
  have hcount : Numeral (text ['4']) 4 := ⟨by decide, by decide, rfl⟩
  have hplant : Downloads plant 8 [0xE7, 0xF0, 0x01, 0xF0] :=
    ⟨checksumOk_packetOfString _ _, _, _, _, rfl, haddress, hcount,
      .raw (by decide) (.raw (by decide) (.raw (by decide) (.raw (by decide) .nil)))⟩
  have hremove : Downloads remove 8 ((span 8 4).map movesGdb.arm.mem.m) :=
    ⟨checksumOk_packetOfString _ _, _, _, _, rfl, haddress, hcount,
      .raw (by decide) (.raw (by decide) (.raw (by decide) (.raw (by decide) .nil)))⟩
  have hsteps : ctx.steps = [⟨0, 0⟩, ⟨0, 0⟩] ++ [⟨0, 0⟩] := rfl
  exact (breakpoint_transparent quietBuild ctx ctx ctx ctx [] rfl (by decide) (by decide)
    approaches_movesGdb hsteps rfl (by decide) hplant (checksumOk_packetOfString _ _) rfl
    hremove).2.2.1

end Gdb

end ArmSimulator
