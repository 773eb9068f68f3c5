/-
Setting all registers.

`write_general_registers` writes the sixteen registers in the bank of the mode the core
is in, and the status register last.  Writing back the dump of `read_general_registers`
changes nothing.  An image of another mode is not read back: its words have gone to the
old bank, and the new status register has switched to the new one.
-/
import ArmSimulator.Proof.RegisterDump

namespace ArmSimulator

/-! ## Banks -/

/-- The array after registers are written one after the other. -/
def setRegisters (f : Fin 16 → BitVec 32) (regs : List (Fin 16)) (r : Registers) : Registers :=
  regs.foldl (fun r i => writeRegister r i (f i)) r

theorem setRegisters_eq (f : Fin 16 → BitVec 32) (regs : List (Fin 16)) (r : Registers) :
    setRegisters f regs r =
      Bytes.writeAll r ((regs.map (registerIndex (getMode r))).zip (regs.map f)) := by
  induction regs generalizing r with
  | nil => rfl
  | cons i rest ih =>
    rw [setRegisters, List.foldl_cons, ← setRegisters, ih, getMode_writeRegister]
    rfl

/-- The number of the register that an index of the array stands for. -/
def indexOwner (i : Nat) : Nat :=
  if i < 16 then i else if i < 25 then 13 + (i - 17) % 2 else i - 17

theorem indexOwner_registerIndex {mode : BitVec 8} (hmode : Mode.Valid mode) (reg : Fin 16) :
    indexOwner (registerIndex mode reg) = reg := by
  rcases Mode.valid_cases hmode with h | h | h | h | h | h | h <;> subst h <;> revert reg <;> decide

/-- The registers of two modes share an index only under one number. -/
theorem registerIndex_eq {mode mode' : BitVec 8} (hmode : Mode.Valid mode)
    (hmode' : Mode.Valid mode') {a b : Fin 16} (h : registerIndex mode a = registerIndex mode' b) :
    a = b := by
  apply Fin.ext
  rw [← indexOwner_registerIndex hmode a, h, indexOwner_registerIndex hmode' b]

theorem setRegisters_self {r : Registers} (hmode : Mode.Valid (getMode r))
    (f : Fin 16 → BitVec 32) (i : Fin 16) :
    setRegisters f (List.finRange 16) r (registerIndex (getMode r) i) = f i := by
  have hnodup : ((List.finRange 16).map (registerIndex (getMode r))).Nodup :=
    (List.nodup_finRange 16).map (registerIndex_injective hmode)
  have hlength : ((List.finRange 16).map (registerIndex (getMode r))).length =
      ((List.finRange 16).map f).length := by
    rw [List.length_map, List.length_map]
  have hmap := Bytes.map_writeAll_zip r hnodup hlength
  rw [← setRegisters_eq, List.map_map, List.map_inj_left] at hmap
  have hi := hmap i (List.mem_finRange i)
  rwa [Function.comp_apply] at hi

theorem setRegisters_other {r : Registers} (hmode : Mode.Valid (getMode r))
    (f : Fin 16 → BitVec 32) {mode : BitVec 8} (hmode' : Mode.Valid mode) {i : Fin 16}
    (h : registerIndex mode i ≠ registerIndex (getMode r) i) :
    setRegisters f (List.finRange 16) r (registerIndex mode i) = r (registerIndex mode i) := by
  rw [setRegisters_eq]
  apply Bytes.writeAll_of_not_mem
  rw [List.map_fst_zip (by simp)]
  intro hmem
  obtain ⟨q, -, hq⟩ := List.mem_map.mp hmem
  have hqi : q = i := registerIndex_eq hmode hmode' hq
  rw [hqi] at hq
  exact h hq.symm

/-- Writing back what every register holds changes nothing. -/
theorem setRegisters_same {f : Fin 16 → BitVec 32} {regs : List (Fin 16)} {r : Registers}
    (h : ∀ i ∈ regs, f i = r (registerIndex (getMode r) i)) :
    setRegisters f regs r = r := by
  induction regs with
  | nil => rfl
  | cons i rest ih =>
    have hsame : writeRegister r i (f i) = r := by
      rw [writeRegister, h i List.mem_cons_self]
      exact Function.update_eq_self _ _
    rw [setRegisters, List.foldl_cons, hsame, ← setRegisters,
      ih fun j hj => h j (List.mem_cons_of_mem _ hj)]

namespace Gdb

/-! ## Writing an image -/

/-- The core after an image has been written. -/
def afterImage (f : Fin 16 → BitVec 32) (cpsr : BitVec 32) (p : Core) : Core :=
  { p with reg := writeCpsr (setRegisters f (List.finRange 16) p.reg) cpsr }

def withRegisters (g : Gdb) (r : Registers) : Gdb := { g with arm := { g.arm with reg := r } }

section

variable (build : Build) (ctx : Context)

theorem writeRegisters_apply {data : List (BitVec 8)} {f : Fin 16 → BitVec 32}
    {regs : List (Fin 16)} {position : Nat}
    (h : ∀ k i, regs[k]? = some i → readUint32 build (ctx.word (position + 8 * k))
      (data.drop (position + 8 * k)) = f i) (g : Gdb) :
    (writeRegisters build ctx data regs position g).value = .ok () ∧
      (writeRegisters build ctx data regs position g).state =
        g.withRegisters (setRegisters f regs g.arm.reg) := by
  induction regs generalizing position g with
  | nil => exact ⟨rfl, rfl⟩
  | cons i rest ih =>
    have hread : readUint32 build (ctx.word position) (data.drop position) = f i := h 0 i rfl
    have hrest : ∀ k j, rest[k]? = some j → readUint32 build (ctx.word (position + 8 + 8 * k))
        (data.drop (position + 8 + 8 * k)) = f j := by
      intro k j hj
      have hk := h (k + 1) j hj
      rwa [show position + 8 * (k + 1) = position + 8 + 8 * k by omega] at hk
    have hword : (readUint32At build ctx data position g).value = .ok (f i) := by
      rw [readUint32At, hread]
    rw [writeRegisters, Halting.bind_apply_ok hword]
    exact ih hrest (g.withRegisters (ArmSimulator.writeRegister g.arm.reg i (f i)))

theorem skipWords_apply (data : List (BitVec 8)) (n position : Nat) (g : Gdb) :
    (skipWords build ctx data n position g).value = .ok () ∧
      (skipWords build ctx data n position g).state = g := by
  induction n generalizing position with
  | zero => exact ⟨rfl, rfl⟩
  | succ n ih => exact ih (position + 8)

/-- The bank of the mode before the write gets the registers, whatever the filler. -/
theorem writeGeneralRegisters_answer (f : Fin 16 → BitVec 32) {filler : List (BitVec 8)}
    (hfiller : filler.length = 200) (cpsr : BitVec 32) (rest : List (BitVec 8)) (g : Gdb) :
    let o := writeGeneralRegisters build ctx (image build f filler cpsr ++ rest) g
    let sent := gdbSendData (text ['O', 'K']) { g with arm := afterImage f cpsr g.arm }
    o.value = sent.value ∧ o.state = sent.state := by
  generalize hdata : image build f filler cpsr ++ rest = data
  have hregisters : ∀ k i, (List.finRange 16)[k]? = some i →
      readUint32 build (ctx.word (0 + 8 * k)) (data.drop (0 + 8 * k)) = f i := by
    intro k i hi
    obtain ⟨hk, rfl⟩ := List.getElem?_eq_some_iff.mp hi
    rw [List.length_finRange] at hk
    rw [Nat.zero_add, List.getElem_finRange, ← hdata]
    exact readUint32_image build _ f cpsr rest ⟨k, hk⟩
  have hcpsr : ∀ g, (readUint32At build ctx data 328 g).value = .ok cpsr := by
    intro g
    rw [readUint32At, ← hdata, readUint32_image_cpsr build _ f cpsr rest hfiller]
  obtain ⟨hwrite, hwritten⟩ := writeRegisters_apply build ctx hregisters g
  obtain ⟨hskip, hskipped⟩ := skipWords_apply build ctx data 25 128
    (g.withRegisters (setRegisters f (List.finRange 16) g.arm.reg))
  intro o sent
  simp only [o, writeGeneralRegisters]
  rw [Halting.bind_apply_ok hwrite, hwritten]
  simp only
  rw [Halting.bind_apply_ok hskip, hskipped]
  simp only
  rw [Halting.bind_apply_ok (hcpsr _)]
  exact ⟨rfl, rfl⟩

theorem writeGeneralRegisters_image (f : Fin 16 → BitVec 32) {filler : List (BitVec 8)}
    (hfiller : filler.length = 200) (cpsr : BitVec 32) (rest : List (BitVec 8)) (g : Gdb) :
    let after := (writeGeneralRegisters build ctx (image build f filler cpsr ++ rest) g).state
    after.arm = afterImage f cpsr g.arm ∧ after.connected = g.connected := by
  intro after
  rw [show after = _ from (writeGeneralRegisters_answer build ctx f hfiller cpsr rest g).2]
  exact gdbSendData_state _ _

end

/-! ## Requests -/

section

variable (build : Build) (ctx : Context) {k : Packet} {s : List (BitVec 8)}

/-- The handler that the first character of the payload selects. -/
theorem answer_cons {c : BitVec 8} {handle : Build → Context → List (BitVec 8) → GdbM Unit}
    (hk : k.payload = c :: s) (hhandler : handler c = some handle) :
    answer build ctx (requestText ctx k) =
      handle build ctx (s ++ 0 :: k.high :: k.low :: 0 :: ctx.beyond) := by
  rw [answer, requestText, hk, List.cons_append, List.headD_cons, hhandler]
  rfl

theorem answer_set (hk : k.payload = chr 'G' :: s) :
    answer build ctx (requestText ctx k) =
      writeGeneralRegisters build ctx (s ++ 0 :: k.high :: k.low :: 0 :: ctx.beyond) :=
  answer_cons build ctx hk rfl

theorem answer_get (hk : k.payload = chr 'g' :: s) :
    answer build ctx (requestText ctx k) =
      readGeneralRegisters build ctx (s ++ 0 :: k.high :: k.low :: 0 :: ctx.beyond) :=
  answer_cons build ctx hk rfl

/-- The acknowledgement is no reply. -/
theorem lastReply_accepted {g : Gdb} (hopen : g.connected = true) (hsum : ChecksumOk k) :
    lastReply (gdbPacketAnalysis build ctx k.text g).trace =
      lastReply (answer build ctx (requestText ctx k) g).trace := by
  rw [gdbPacketAnalysis_accepted build ctx hopen hsum]
  rfl

theorem gdbPacketAnalysis_get (hk : k.payload = chr 'g' :: s) (hsum : ChecksumOk k) {g : Gdb}
    (hopen : g.connected = true) :
    lastReply (gdbPacketAnalysis build ctx k.text g).trace =
      some (frame (registerDump build g.arm)) := by
  rw [lastReply_accepted build ctx hopen hsum, answer_get build ctx hk]
  exact readGeneralRegisters_reply build ctx _ g hopen

/-- Reading the registers leaves the core, wherever the analysis of the packet ends. -/
theorem gdbPacketAnalysis_get_arm (hk : k.payload = chr 'g' :: s) (g : Gdb) :
    (gdbPacketAnalysis build ctx k.text g).state.arm = g.arm := by
  cases hopen : g.connected with
  | false => rw [gdbPacketAnalysis_closed build ctx k hopen]
  | true =>
    by_cases hsum : ChecksumOk k
    · rw [gdbPacketAnalysis_accepted build ctx hopen hsum, answer_get build ctx hk]
      exact (readGeneralRegisters_state build ctx _ g).1
    · rw [gdbPacketAnalysis_rejected build ctx hopen hsum]

/-- What a packet that sets all registers leaves: the image, or everything as it was when
the packet gets no further than its sum or its acknowledgement. -/
theorem gdbPacketAnalysis_set {f : Fin 16 → BitVec 32} {filler : List (BitVec 8)}
    (hfiller : filler.length = 200) {cpsr : BitVec 32}
    (hk : k.payload = chr 'G' :: image build f filler cpsr) (g : Gdb) :
    (gdbPacketAnalysis build ctx k.text g).state.connected = g.connected ∧
      (gdbPacketAnalysis build ctx k.text g).state.arm =
        if ChecksumOk k ∧ g.connected = true then afterImage f cpsr g.arm else g.arm := by
  cases hopen : g.connected with
  | false =>
    rw [gdbPacketAnalysis_closed build ctx k hopen, if_neg (by simp)]
    exact ⟨hopen, rfl⟩
  | true =>
    by_cases hsum : ChecksumOk k
    · have himage := writeGeneralRegisters_image build ctx f hfiller cpsr
        (0 :: k.high :: k.low :: 0 :: ctx.beyond) g
      rw [gdbPacketAnalysis_accepted build ctx hopen hsum, answer_set build ctx hk,
        if_pos ⟨hsum, rfl⟩]
      exact ⟨himage.2.trans hopen, himage.1⟩
    · rw [gdbPacketAnalysis_rejected build ctx hopen hsum, if_neg fun h => hsum h.1]
      exact ⟨hopen, rfl⟩

end

/-! ## Writing back -/

/-- Two dumps that differ in the fields of the floating-point registers at most. -/
structure SameRegisters (s dump : List (BitVec 8)) : Prop where
  length : s.length = dump.length
  registers : s.take 128 = dump.take 128
  status : s.drop 328 = dump.drop 328

theorem SameRegisters.eq_image {build : Build} {f : Fin 16 → BitVec 32} {filler : List (BitVec 8)}
    (hfiller : filler.length = 200) {cpsr : BitVec 32} {s : List (BitVec 8)}
    (h : SameRegisters s (image build f filler cpsr)) :
    ∃ filler', filler'.length = 200 ∧ s = image build f filler' cpsr := by
  have hregisters := length_flatten (length_imageTexts build f)
  rw [List.length_map, List.length_finRange] at hregisters
  have hlength : s.length = 336 := by
    rw [h.length, image, List.length_append, List.length_append, hregisters, hfiller,
      length_writeUint32]
  have htake := h.registers
  have hdrop := h.status
  rw [image, List.take_left' hregisters] at htake
  rw [image, show 328 = 128 + 200 from rfl, ← List.drop_drop, ← List.drop_drop,
    List.drop_left' hregisters, List.drop_left' hfiller] at hdrop
  refine ⟨(s.drop 128).take 200, ?_, ?_⟩
  · rw [List.length_take, List.length_drop]
    omega
  · rw [image, ← htake, ← hdrop, List.take_append_drop, List.take_append_drop]

theorem afterImage_reportedWord {p : Core} (hbit : getBit (p.reg 15) 1 = false) :
    afterImage (reportedWord p) (readCpsr p.reg) p = p := by
  have hwords : ∀ i ∈ List.finRange 16,
      reportedWord p i = p.reg (registerIndex (getMode p.reg) i) := by
    intro i _
    by_cases h15 : i = 15
    · subst h15
      rw [reportedWord, if_pos rfl, fetchAddress_of_getBit hbit, registerIndex_pc]
    · rw [reportedWord, if_neg h15]
      rfl
  have hcpsr : writeCpsr p.reg (readCpsr p.reg) = p.reg := Function.update_eq_self _ _
  rw [afterImage, setRegisters_same hwords, hcpsr]

/-- Sending back the dump that `g` has given, with whatever in the fields of the
floating-point registers, leaves the core and the memory as they were. -/
theorem dump_written_back (build : Build) (ctx ctx' : Context) {get : Packet}
    {data : List (BitVec 8)} (hget : get.payload = chr 'g' :: data) {g : Gdb}
    (hbit : getBit (g.arm.reg 15) 1 = false) :
    let dumped := gdbPacketAnalysis build ctx get.text g
    (ChecksumOk get → g.connected = true →
        lastReply dumped.trace = some (frame (registerDump build g.arm))) ∧
      dumped.state.arm = g.arm ∧
      ∀ (set : Packet) (s : List (BitVec 8)), set.payload = chr 'G' :: s →
        SameRegisters s (registerDump build g.arm) →
          (gdbPacketAnalysis build ctx' set.text dumped.state).state.arm = g.arm := by
  intro dumped
  have harm : dumped.state.arm = g.arm := gdbPacketAnalysis_get_arm build ctx hget g
  refine ⟨fun hsum hopen => gdbPacketAnalysis_get build ctx hget hsum hopen, harm, ?_⟩
  intro set s hset hsame
  rw [registerDump_eq_image] at hsame
  obtain ⟨filler, hfiller, rfl⟩ := hsame.eq_image length_placeholders
  have hwritten := (gdbPacketAnalysis_set build ctx' hfiller hset dumped.state).2
  rw [hwritten, harm, afterImage_reportedWord hbit, ite_self]

/-- A server whose registers are all zero but the status register. -/
def zeroGdb (cpsr : BitVec 32) : Gdb :=
  gdbInitData { cycleCount := 0, reg := Function.update (fun _ => 0) cpsrIndex cpsr,
                mem := memoryOfWords true 0 [] } fun _ => 0

theorem image_plain (build : Build) (f : Fin 16 → BitVec 32) (cpsr : BitVec 32) :
    ∀ c ∈ chr 'G' :: image build f placeholders cpsr, c ≠ 0 ∧ c ≠ chr '$' ∧ c ≠ chr '#' := by
  intro c hc
  rw [image, List.mem_cons, List.mem_append, List.mem_append] at hc
  rcases hc with rfl | hc | hc | hc
  · decide
  · obtain ⟨t, ht, hct⟩ := List.mem_flatten.mp hc
    obtain ⟨i, -, rfl⟩ := List.mem_map.mp ht
    exact isDigit_plain (writeUint32_isDigit build _ c hct)
  · rw [List.eq_of_mem_replicate hc]
    decide
  · exact isDigit_plain (writeUint32_isDigit build _ c hc)

/-- The request that sets all registers as gdb sends it back. -/
def setRequest (build : Build) (f : Fin 16 → BitVec 32) (cpsr : BitVec 32) : Packet :=
  packetOfString (chr 'G' :: image build f placeholders cpsr) (image_plain build f cpsr)

def getRequest : Packet := packetOfString [chr 'g'] (by decide)

theorem dump_written_back_svc :
    let g := zeroGdb 0x13
    let set := setRequest quietBuild (reportedWord g.arm) (readCpsr g.arm.reg)
    ChecksumOk getRequest ∧ ChecksumOk set ∧ g.connected = true ∧
      getBit (g.arm.reg 15) 1 = false ∧
      (gdbPacketAnalysis quietBuild quietContext set.text
        (gdbPacketAnalysis quietBuild quietContext getRequest.text g).state).state.arm = g.arm := by
  intro g set
  have hget : ChecksumOk getRequest := checksumOk_packetOfString _ _
  have hset : ChecksumOk set := checksumOk_packetOfString _ _
  have hbit : getBit (g.arm.reg 15) 1 = false := by decide
  have hback := dump_written_back quietBuild quietContext quietContext
    (show getRequest.payload = chr 'g' :: [] from rfl) hbit
  refine ⟨hget, hset, rfl, hbit, hback.2.2 set _ rfl ?_⟩
  rw [registerDump_eq_image]
  exact ⟨rfl, rfl, rfl⟩

/-! ## Images of another mode -/

theorem image_injective {build : Build} {f f' : Fin 16 → BitVec 32}
    {filler filler' : List (BitVec 8)} (hfiller : filler.length = 200)
    (hfiller' : filler'.length = 200) {cpsr cpsr' : BitVec 32}
    (h : image build f filler cpsr = image build f' filler' cpsr') : f = f' ∧ cpsr = cpsr' := by
  constructor
  · funext i
    rw [← readUint32_image build 0 f cpsr [] i, h, readUint32_image]
  · have hread := readUint32_image_cpsr build 0 f cpsr [] hfiller
    rw [h, readUint32_image_cpsr build 0 f' cpsr' [] hfiller'] at hread
    exact hread.symm

/-- A reply that gives sixteen registers and the status register as these words. -/
def Reports (build : Build) (reply : Option (List (BitVec 8))) (f : Fin 16 → BitVec 32)
    (cpsr : BitVec 32) : Prop :=
  ∃ filler, filler.length = 200 ∧ reply = some (frame (image build f filler cpsr))

theorem reports_registerDump_iff (build : Build) (p : Core) (f : Fin 16 → BitVec 32)
    (cpsr : BitVec 32) :
    Reports build (some (frame (registerDump build p))) f cpsr ↔
      reportedWord p = f ∧ readCpsr p.reg = cpsr := by
  rw [registerDump_eq_image]
  constructor
  · rintro ⟨filler, hfiller, hreply⟩
    exact image_injective length_placeholders hfiller (frame_injective (Option.some.inj hreply))
  · rintro ⟨rfl, rfl⟩
    exact ⟨placeholders, length_placeholders, rfl⟩

theorem afterImage_register (f : Fin 16 → BitVec 32) (cpsr : BitVec 32) (p : Core) (i : Fin 16) :
    (afterImage f cpsr p).reg (registerIndex (modeField cpsr) i) =
      setRegisters f (List.finRange 16) p.reg (registerIndex (modeField cpsr) i) :=
  Function.update_of_ne (registerIndex_ne_cpsr _ i) _ _

/-- The word reported for a register is the image's if the two modes share the register,
and what the new bank holds otherwise. -/
theorem reportedWord_afterImage {f : Fin 16 → BitVec 32} (hpc : (f 15).toNat % 4 = 0)
    {cpsr : BitVec 32} (hcpsr : Mode.Valid (modeField cpsr)) {p : Core}
    (hmode : Mode.Valid (getMode p.reg)) (i : Fin 16) :
    reportedWord (afterImage f cpsr p) i =
      if registerIndex (modeField cpsr) i = registerIndex (getMode p.reg) i then f i
      else p.reg (registerIndex (modeField cpsr) i) := by
  have hnew : getMode (afterImage f cpsr p).reg = modeField cpsr := by
    rw [getMode, afterImage, readCpsr_writeCpsr]
  have hself := setRegisters_self hmode f
  by_cases h15 : i = 15
  · subst h15
    have hstored : (afterImage f cpsr p).reg 15 = f 15 := by
      rw [← registerIndex_pc (modeField cpsr), afterImage_register, registerIndex_pc,
        ← registerIndex_pc (getMode p.reg), hself]
    rw [reportedWord, if_pos rfl, registerIndex_pc, registerIndex_pc, if_pos rfl,
      fetchAddress_of_getBit, hstored]
    rw [hstored]
    exact Word.getLsbD_one_of_aligned hpc
  · rw [reportedWord, if_neg h15, ArmSimulator.readRegister, hnew, afterImage_register]
    by_cases hshared : registerIndex (modeField cpsr) i = registerIndex (getMode p.reg) i
    · rw [if_pos hshared, hshared, hself]
    · rw [if_neg hshared, setRegisters_other hmode f hcpsr hshared]

section

variable (build : Build) (ctx ctx' : Context) {f : Fin 16 → BitVec 32} {cpsr : BitVec 32}
  {filler data : List (BitVec 8)} (hfiller : filler.length = 200) {set get : Packet}
  (hset : set.payload = chr 'G' :: image build f filler cpsr) (hsum : ChecksumOk set)
  (hget : get.payload = chr 'g' :: data) (hsum' : ChecksumOk get)
  {g : Gdb}
include hfiller hset hsum hget hsum'

theorem reply_after_image :
    lastReply (gdbPacketAnalysis build ctx' get.text
      (gdbPacketAnalysis build ctx set.text g).state).trace =
        if g.connected then some (frame (registerDump build (afterImage f cpsr g.arm)))
        else none := by
  obtain ⟨hconnected, harm⟩ := gdbPacketAnalysis_set build ctx hfiller hset g
  cases hopen : g.connected with
  | false =>
    rw [gdbPacketAnalysis_closed build ctx' get (hconnected.trans hopen), if_neg (by decide)]
    rfl
  | true =>
    rw [if_pos ⟨hsum, hopen⟩] at harm
    rw [gdbPacketAnalysis_get build ctx' hget hsum' (hconnected.trans hopen), harm, if_pos rfl]

/-- An image that has been written is read back exactly when the registers that the old
and the new mode do not share held its words in the new bank already.  Nothing is read
back once the connection is shut down. -/
theorem image_read_back_iff (hmode : Mode.Valid (getMode g.arm.reg))
    (hpc : (f 15).toNat % 4 = 0) (hcpsr : Mode.Valid (modeField cpsr)) :
    Reports build (lastReply (gdbPacketAnalysis build ctx' get.text
        (gdbPacketAnalysis build ctx set.text g).state).trace) f cpsr ↔
      g.connected = true ∧
        ∀ i : Fin 16, registerIndex (modeField cpsr) i ≠ registerIndex (getMode g.arm.reg) i →
          g.arm.reg (registerIndex (modeField cpsr) i) = f i := by
  rw [reply_after_image build ctx ctx' hfiller hset hsum hget hsum']
  cases hopen : g.connected with
  | false =>
    constructor
    · rintro ⟨filler', -, hreply⟩
      cases hreply
    · rintro ⟨hfalse, -⟩
      cases hfalse
  | true =>
    rw [if_pos rfl, reports_registerDump_iff]
    constructor
    · rintro ⟨hwords, -⟩
      refine ⟨rfl, fun i hbanked => ?_⟩
      have hi := congrFun hwords i
      rw [reportedWord_afterImage hpc hcpsr hmode, if_neg hbanked] at hi
      exact hi
    · rintro ⟨-, hbanked⟩
      refine ⟨funext fun i => ?_, readCpsr_writeCpsr _ _⟩
      rw [reportedWord_afterImage hpc hcpsr hmode]
      by_cases hshared : registerIndex (modeField cpsr) i = registerIndex (getMode g.arm.reg) i
      · rw [if_pos hshared]
      · rw [if_neg hshared]
        exact hbanked i hshared

end

theorem image_read_back_usr :
    let g := zeroGdb 0x13
    getMode g.arm.reg = Mode.svc ∧ modeField 0x10 = Mode.usr ∧
      Reports quietBuild (lastReply (gdbPacketAnalysis quietBuild quietContext getRequest.text
        (gdbPacketAnalysis quietBuild quietContext
          (setRequest quietBuild (fun _ => 0) 0x10).text g).state).trace) (fun _ => 0) 0x10 := by
  intro g
  have hset : ChecksumOk (setRequest quietBuild (fun _ => 0) 0x10) := checksumOk_packetOfString _ _
  have hget : ChecksumOk getRequest := checksumOk_packetOfString _ _
  have hiff := image_read_back_iff quietBuild quietContext quietContext length_placeholders
    (by rfl) hset (by rfl) hget (show Mode.Valid (getMode g.arm.reg) by decide)
    (by decide) (by decide)
  refine ⟨by decide, by decide, hiff.mpr ⟨rfl, ?_⟩⟩
  decide

/-- In supervisor mode an image of user mode sets the stack pointer of supervisor mode,
and `g` then gives the one of user mode. -/
theorem image_of_usr_not_read_back :
    let g := zeroGdb 0x13
    let f : Fin 16 → BitVec 32 := fun i => if i = 13 then 0x1000 else 0
    ChecksumOk (setRequest quietBuild f 0x10) ∧ ChecksumOk getRequest ∧ g.connected = true ∧
      getMode g.arm.reg = Mode.svc ∧ (f 15).toNat % 4 = 0 ∧ modeField 0x10 = Mode.usr ∧
      ¬Reports quietBuild (lastReply (gdbPacketAnalysis quietBuild quietContext getRequest.text
        (gdbPacketAnalysis quietBuild quietContext
          (setRequest quietBuild f 0x10).text g).state).trace) f 0x10 := by
  intro g f
  have hset : ChecksumOk (setRequest quietBuild f 0x10) := checksumOk_packetOfString _ _
  have hget : ChecksumOk getRequest := checksumOk_packetOfString _ _
  refine ⟨hset, hget, rfl, by decide, by decide, by decide, ?_⟩
  rw [reply_after_image quietBuild quietContext quietContext length_placeholders (by rfl) hset
    (by rfl) hget, if_pos (show g.connected = true from rfl), reports_registerDump_iff]
  rintro ⟨hwords, -⟩
  exact absurd (congrFun hwords 13) (by decide)

end Gdb

end ArmSimulator
