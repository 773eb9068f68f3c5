/-
One register at a time.

`write_register` takes the number of its register in hexadecimal and `read_register` in
decimal.  The numbers of one digit agree up to nine: from ten on the letter is no decimal
digit, and the answer is the word of register 0.  The dump of all registers has the word
that was written in its own field.
-/
import ArmSimulator.Proof.Restore

namespace ArmSimulator

namespace Gdb

/-! ## Writing -/

section

variable (build : Build) (ctx : Context) (n : Fin 16) (v : BitVec 32) (rest : List (BitVec 8))
  (g : Gdb)

theorem scan_registerNumber :
    CString.scanHexAll build.bareBase (Hex.digit n :: chr '=' :: rest) =
      some (BitVec.ofNat 32 n, chr '=' :: rest) := by
  have hvalue := Hex.value_digit n.isLt
  have hnumber : Hex.number [Hex.digit n] = n := by
    simp only [Hex.number, List.filterMap_cons, hvalue, List.filterMap_nil, List.reverse_cons,
      List.reverse_nil, List.nil_append, Nat.ofDigits_singleton]
  have hscan := CString.scanHexAll_digits build.bareBase (List.cons_ne_nil (Hex.digit n) [])
    (by simpa using Hex.isDigit_digit n.isLt) (by rw [hnumber]; omega) (c := chr '=') (by decide)
    (by decide) rest
  rwa [hnumber] at hscan

/-- The request names its register and gives its word. -/
def registerText : List (BitVec 8) := Hex.digit n :: chr '=' :: writeUint32 build v

theorem writeRegister_answer :
    let sent := gdbSendData (text ['O', 'K'])
      (g.withRegisters (ArmSimulator.writeRegister g.arm.reg n v))
    (writeRegister build ctx (registerText build n v ++ rest) g).value = sent.value ∧
      (writeRegister build ctx (registerText build n v ++ rest) g).state = sent.state := by
  intro sent
  have hdigit : ∀ n : Fin 16, Hex.digit n ≠ 0 ∧ Hex.digit n ≠ chr '=' := by decide
  have hindex : CString.index (registerText build n v ++ rest) (chr '=') = some 1 :=
    CString.index_append (s := [Hex.digit n]) (by decide) (by simpa using hdigit n)
      (writeUint32 build v ++ rest)
  have hscan : CString.scanHexAll build.bareBase (registerText build n v ++ rest) =
      some (BitVec.ofNat 32 n, chr '=' :: (writeUint32 build v ++ rest)) :=
    scan_registerNumber build n (writeUint32 build v ++ rest)
  have hword : (readUint32At build ctx (registerText build n v ++ rest) (1 + 1) g).value = .ok v :=
    congrArg Except.ok (readUint32_writeUint32 build _ v rest)
  have hnumber : (BitVec.ofNat 32 n.val).toNat = n := by
    rw [BitVec.toNat_ofNat]
    omega
  have hassert := assertRegister_apply hnumber g
  generalize registerText build n v ++ rest = data at hindex hscan hword ⊢
  rw [writeRegister, Halting.bind_apply_ok (show (requestAt data 0 g).value = .ok data from rfl)]
  simp only [hindex, hscan, Option.map_some, show (requestAt data 0 g).state = g from rfl]
  rw [Halting.bind_apply_ok hword]
  simp only [show (readUint32At build ctx data (1 + 1) g).state = g from rfl]
  rw [Halting.bind_apply_ok (congrArg Outcome.value hassert)]
  simp only [hassert]
  exact ⟨rfl, rfl⟩

theorem writeRegister_apply :
    (writeRegister build ctx (registerText build n v ++ rest) g).state.arm =
        { g.arm with reg := ArmSimulator.writeRegister g.arm.reg n v } ∧
      (writeRegister build ctx (registerText build n v ++ rest) g).state.connected =
        g.connected := by
  rw [(writeRegister_answer build ctx n v rest g).2]
  exact gdbSendData_state _ _

end

/-! ## Reading -/

/-- The register that a request for one digit is answered with. -/
def registerRead (n : Fin 16) : Fin 16 := if n < 10 then n else 0

theorem atoi_digit (n : Fin 16) (rest : List (BitVec 8)) :
    (CString.atoi (Hex.digit n :: 0 :: rest)).toNat = registerRead n := by
  obtain ⟨n, hn⟩ := n
  interval_cases n <;> rfl

section

variable (build : Build) (ctx : Context) (n : Fin 16) (rest : List (BitVec 8)) (g : Gdb)

theorem readRegister_apply :
    let sent := gdbSendData (writeUint32 build (reportedWord g.arm (registerRead n))) g
    (readRegister build ctx (Hex.digit n :: 0 :: rest) g).value = sent.value ∧
      (readRegister build ctx (Hex.digit n :: 0 :: rest) g).state = sent.state := by
  intro sent
  have hassert := assertRegister_apply (atoi_digit n rest) g
  generalize Hex.digit n :: 0 :: rest = data at hassert ⊢
  have hsent : (do
      let value ← onArm (armReadRegister (registerRead n))
      putString 1 (writeUint32 build (value - if registerRead n = 15 then 4 else 0))
      gdbSendBuffer : GdbM Unit) g =
        { value := sent.value, state := sent.state,
          trace := (armReadRegister (registerRead n) g.arm).trace.map .core ++ sent.trace } := by
    rw [Halting.bind_apply_ok (show (onArm (armReadRegister (registerRead n)) g).value =
      .ok (armReadRegister (registerRead n) g.arm).value from rfl), armReadRegister_reported]
    rfl
  rw [readRegister, Halting.bind_apply_ok (show (requestAt data 0 g).value = .ok data from rfl)]
  simp only [show (requestAt data 0 g).state = g from rfl]
  rw [Halting.bind_apply_ok (congrArg Outcome.value hassert)]
  simp only [hassert, hsent, and_self]

end

/-! ## Requests -/

section

variable (build : Build) (ctx : Context) {k : Packet} {n : Fin 16} {g : Gdb}
  (hsum : ChecksumOk k) (hopen : g.connected = true)
include hsum hopen

theorem gdbPacketAnalysis_writeRegister {v : BitVec 32}
    (hk : k.payload = chr 'P' :: registerText build n v) :
    (gdbPacketAnalysis build ctx k.text g).state.arm =
        { g.arm with reg := ArmSimulator.writeRegister g.arm.reg n v } ∧
      (gdbPacketAnalysis build ctx k.text g).state.connected = true := by
  obtain ⟨harm, hconnected⟩ := writeRegister_apply build ctx n v
    (0 :: k.high :: k.low :: 0 :: ctx.beyond) g
  rw [gdbPacketAnalysis_accepted build ctx hopen hsum, answer_cons build ctx hk (by rfl)]
  exact ⟨harm, hconnected.trans hopen⟩

theorem gdbPacketAnalysis_readRegister (hk : k.payload = [chr 'p', Hex.digit n]) :
    lastReply (gdbPacketAnalysis build ctx k.text g).trace =
        some (frame (writeUint32 build (reportedWord g.arm (registerRead n)))) ∧
      (gdbPacketAnalysis build ctx k.text g).state.arm = g.arm := by
  let rest := k.high :: k.low :: 0 :: ctx.beyond
  let word := writeUint32 build (reportedWord g.arm (registerRead n))
  have hlength : word.length ≤ 1019 := by
    rw [length_writeUint32]
    decide
  obtain ⟨hreply, hreturns, -⟩ := gdbSendData_reply hlength (writeUint32_nonzero build _) g
  obtain ⟨hvalue, hstate⟩ := readRegister_apply build ctx n rest g
  have hok := hvalue.trans (hreturns.mpr hopen)
  rw [lastReply_accepted build ctx hopen hsum, gdbPacketAnalysis_accepted build ctx hopen hsum,
    answer_cons build ctx hk (by rfl)]
  refine ⟨?_, (congrArg Gdb.arm hstate).trans (gdbSendData_state word g).1⟩
  exact (sends_readRegister build ctx _ g () hok).trans
    (congrArg some ((congrArg reply hstate).trans hreply))

end

/-! ## Reading back -/

/-- A register is reported with the word that was written to it. -/
theorem reportedWord_writeRegister (p : Core) {n : Fin 16} {v : BitVec 32}
    (hpc : n = 15 → v.toNat % 4 = 0) :
    reportedWord { p with reg := ArmSimulator.writeRegister p.reg n v } n = v := by
  by_cases h15 : n = 15
  · subst h15
    have hstored : ArmSimulator.writeRegister p.reg 15 v 15 = v := by
      rw [ArmSimulator.writeRegister, registerIndex_pc]
      exact Function.update_self 15 v p.reg
    have hbit : getBit (ArmSimulator.writeRegister p.reg 15 v 15) 1 = false := by
      rw [hstored]
      exact Word.getLsbD_one_of_aligned (hpc rfl)
    rw [reportedWord, if_pos rfl]
    exact (fetchAddress_of_getBit hbit).trans hstored
  · rw [reportedWord, if_neg h15]
    exact readRegister_writeRegister_self p.reg n v

/-- The write of a register leaves the words of the others. -/
theorem reportedWord_writeRegister_of_ne (p : Core) {n i : Fin 16} (h : i ≠ n) (v : BitVec 32) :
    reportedWord { p with reg := ArmSimulator.writeRegister p.reg n v } i = reportedWord p i := by
  have hindex : ∀ mode, registerIndex mode i ≠ registerIndex mode n := fun mode hsame =>
    h (registerIndex_injective_any mode hsame)
  have hother := Function.update_of_ne (hindex (getMode p.reg)) v p.reg
  by_cases h15 : i = 15
  · subst h15
    rw [registerIndex_pc] at hother
    rw [reportedWord, reportedWord, if_pos rfl, if_pos rfl]
    exact congrArg (fun pc => pcBias 15 pc - 4) hother
  · rw [reportedWord, reportedWord, if_neg h15, if_neg h15, ArmSimulator.readRegister,
      getMode_writeRegister]
    exact hother

/-- The write of another register leaves the word of register 0. -/
theorem reportedWord_zero (p : Core) {n : Fin 16} (hn : n ≠ 0) (v : BitVec 32) :
    reportedWord { p with reg := ArmSimulator.writeRegister p.reg n v } 0 =
      ArmSimulator.readRegister p.reg 0 :=
  (reportedWord_writeRegister_of_ne p hn.symm v).trans (if_neg (by decide))

/-- The word `v` is the answer to a request for register `n`, and the field of the register
in a dump. -/
structure ReadsBack (build : Build) (n : Fin 16) (v : BitVec 32)
    (reply dump : Option (List (BitVec 8))) : Prop where
  answer : reply = some (frame (writeUint32 build v))
  field : ∃ fields, dump = some (frame fields) ∧
    reply = some (frame ((fields.drop (8 * n)).take 8))

theorem readsBack_iff (build : Build) {n : Fin 16} {v : BitVec 32} {p : Core}
    (hv : reportedWord p n = v) (word : BitVec 32) :
    ReadsBack build n v (some (frame (writeUint32 build word)))
      (some (frame (registerDump build p))) ↔ word = v := by
  constructor
  · rintro ⟨hanswer, -⟩
    exact writeUint32_injective build (frame_injective (Option.some.inj hanswer))
  · rintro rfl
    refine ⟨rfl, registerDump build p, rfl, ?_⟩
    rw [field_registerDump, hv]

/-- A register that has been written with `P` is read back with `p`, and has its word in the
dump, exactly when its number is the same in both notations or register 0 held the word
already.  Nothing is read back once the connection is shut down. -/
theorem register_read_back_iff (build : Build) (ctx ctx' ctx'' : Context) {set get all : Packet}
    {n : Fin 16} {v : BitVec 32} {data : List (BitVec 8)}
    (hset : set.payload = chr 'P' :: registerText build n v) (hsum : ChecksumOk set)
    (hget : get.payload = [chr 'p', Hex.digit n]) (hsum' : ChecksumOk get)
    (hall : all.payload = chr 'g' :: data) (hsum'' : ChecksumOk all)
    (hpc : n = 15 → v.toNat % 4 = 0) (g : Gdb) :
    let written := (gdbPacketAnalysis build ctx set.text g).state
    let read := gdbPacketAnalysis build ctx' get.text written
    let dumped := gdbPacketAnalysis build ctx'' all.text written
    (ReadsBack build n v (lastReply read.trace) (lastReply dumped.trace) ∧
        ∀ i, i ≠ registerIndex (getMode g.arm.reg) n → read.state.arm.reg i = g.arm.reg i) ↔
      g.connected = true ∧ (n < 10 ∨ ArmSimulator.readRegister g.arm.reg 0 = v) := by
  intro written read dumped
  cases hopen : g.connected with
  | false =>
    have hwritten : written = g := by
      simp only [written, gdbPacketAnalysis_closed build ctx set hopen]
    have hread : read.trace = [] := by
      simp only [read, hwritten, gdbPacketAnalysis_closed build ctx' get hopen]
    rw [hread]
    refine iff_of_false ?_ (by simp)
    rintro ⟨⟨hanswer, -⟩, -⟩
    cases hanswer
  | true =>
    obtain ⟨harm, hconnected⟩ := gdbPacketAnalysis_writeRegister build ctx hsum hopen hset
    obtain ⟨hreply, hsame⟩ := gdbPacketAnalysis_readRegister build ctx' hsum' hconnected hget
    have hdump := gdbPacketAnalysis_get build ctx'' hall hsum'' hconnected
    have hothers : ∀ i, i ≠ registerIndex (getMode g.arm.reg) n →
        read.state.arm.reg i = g.arm.reg i := by
      intro i hi
      rw [hsame, harm]
      exact Function.update_of_ne hi v g.arm.reg
    have hfield : reportedWord written.arm n = v := by
      rw [harm]
      exact reportedWord_writeRegister g.arm hpc
    have hback : ReadsBack build n v (lastReply read.trace) (lastReply dumped.trace) ↔
        reportedWord written.arm (registerRead n) = v := by
      rw [hreply, hdump]
      exact readsBack_iff build hfield _
    rw [and_iff_left hothers, hback]
    by_cases hn : n < 10
    · rw [registerRead, if_pos hn]
      exact iff_of_true hfield ⟨rfl, Or.inl hn⟩
    · have hzero : n ≠ 0 := by
        rintro rfl
        exact hn (by decide)
      rw [registerRead, if_neg hn, harm, reportedWord_zero g.arm hzero]
      exact ⟨fun h => ⟨rfl, Or.inr h⟩, fun h => h.2.resolve_left hn⟩

theorem registerText_plain (build : Build) (n : Fin 16) (v : BitVec 32) :
    ∀ c ∈ chr 'P' :: registerText build n v, c ≠ 0 ∧ c ≠ chr '$' ∧ c ≠ chr '#' := by
  intro c hc
  rw [registerText, List.mem_cons, List.mem_cons, List.mem_cons] at hc
  rcases hc with rfl | rfl | rfl | hc
  · decide
  · exact isDigit_plain (Hex.isDigit_digit n.isLt)
  · decide
  · exact isDigit_plain (writeUint32_isDigit build v c hc)

/-- The packets of the two commands, each with its sum. -/
def writeRequest (build : Build) (n : Fin 16) (v : BitVec 32) : Packet :=
  packetOfString (chr 'P' :: registerText build n v) (registerText_plain build n v)

def readRequest (n : Fin 16) : Packet :=
  packetOfString [chr 'p', Hex.digit n]
    (List.forall_mem_cons.mpr ⟨by decide,
      List.forall_mem_singleton.mpr (isDigit_plain (Hex.isDigit_digit n.isLt))⟩)

theorem register_read_back_nine :
    let written := (gdbPacketAnalysis quietBuild quietContext (writeRequest quietBuild 9 7).text
      (zeroGdb 0x13)).state
    lastReply (gdbPacketAnalysis quietBuild quietContext (readRequest 9).text written).trace =
      some (frame (writeUint32 quietBuild 7)) := by
  have hset : ChecksumOk (writeRequest quietBuild 9 7) := checksumOk_packetOfString _ _
  have hread : ChecksumOk (readRequest 9) := checksumOk_packetOfString _ _
  have hall : ChecksumOk getRequest := checksumOk_packetOfString _ _
  exact ((register_read_back_iff quietBuild quietContext quietContext quietContext (by rfl) hset
    (by rfl) hread (by rfl) hall (by decide) (zeroGdb 0x13)).mpr
      ⟨rfl, Or.inl (by decide)⟩).1.answer

/-- `P d=` with the word 7 and then `pd`: the answer is the word of register 0. -/
theorem register_not_read_back :
    let g := zeroGdb 0x13
    let written := (gdbPacketAnalysis quietBuild quietContext (writeRequest quietBuild 13 7).text
      g).state
    ChecksumOk (writeRequest quietBuild 13 7) ∧ ChecksumOk (readRequest 13) ∧ g.connected = true ∧
      Mode.Valid (getMode g.arm.reg) ∧
      lastReply (gdbPacketAnalysis quietBuild quietContext (readRequest 13).text written).trace =
        some (frame (writeUint32 quietBuild 0)) ∧
      frame (writeUint32 quietBuild 0) ≠ frame (writeUint32 quietBuild 7) := by
  intro g written
  have hset : ChecksumOk (writeRequest quietBuild 13 7) := checksumOk_packetOfString _ _
  have hread : ChecksumOk (readRequest 13) := checksumOk_packetOfString _ _
  have hopen : g.connected = true := rfl
  obtain ⟨harm, hconnected⟩ := gdbPacketAnalysis_writeRegister quietBuild quietContext hset hopen
    (show (writeRequest quietBuild 13 7).payload = chr 'P' :: registerText quietBuild 13 7 from rfl)
  obtain ⟨hreply, -⟩ := gdbPacketAnalysis_readRegister quietBuild quietContext hread hconnected
    (show (readRequest 13).payload = [chr 'p', Hex.digit (13 : Fin 16)] from rfl)
  refine ⟨hset, hread, hopen, by decide, ?_, fun h => ?_⟩
  · rw [hreply, harm, registerRead, if_neg (by decide), reportedWord_zero g.arm (by decide)]
    rfl
  · exact absurd (writeUint32_injective quietBuild (frame_injective h)) (by decide)

end Gdb

end ArmSimulator
