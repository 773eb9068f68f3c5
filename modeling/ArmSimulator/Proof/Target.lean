/-
The target as the debugger sees it.

Of the core the debugger sees sixteen registers and the status word, of the memory its
bytes.  While it does not let the target run, the server is a store of these: six
requests read and write it, and every other input of the session leaves it as it is.
-/
import ArmSimulator.Proof.Breakpoints
import ArmSimulator.Proof.Dialogue
import ArmSimulator.Proof.SingleRegister

namespace ArmSimulator

namespace Gdb

/-! ## The store -/

structure Target where
  mem : Memory
  reg : Fin 16 → BitVec 32
  cpsr : BitVec 32

inductive DataCommand where
  | download (a : BitVec 32) (bytes : List (BitVec 8))
  | dump (a : BitVec 32) (n : Nat)
  | setRegister (i : Fin 16) (v : BitVec 32)
  | getRegister (i : Fin 16)
  | setAll (f : Fin 16 → BitVec 32) (cpsr : BitVec 32)
  | getAll

namespace Target

/-- The byte that a command stores at `i`. -/
def stored (size : Nat) (i : BitVec 32) : DataCommand → Option (BitVec 8)
  | .download a bytes =>
    if a.toNat ≤ i.toNat ∧ i.toNat < size then bytes[i.toNat - a.toNat]? else none
  | _ => none

/-- The word that a command gives the register `i`. -/
def given (i : Fin 16) : DataCommand → Option (BitVec 32)
  | .setRegister j v => if j = i then some v else none
  | .setAll f _ => some (f i)
  | _ => none

def obey (t : Target) (c : DataCommand) : Target where
  mem := match c with
    | .download a bytes => t.mem.store a bytes
    | _ => t.mem
  reg i := (given i c).getD (t.reg i)
  cpsr := match c with
    | .setAll _ cpsr => cpsr
    | _ => t.cpsr

/-- The payload of the reply, in the notation of the target. -/
def answer (build : Build) (t : Target) : DataCommand → List (BitVec 8)
  | .download a bytes =>
    if a.toNat < t.mem.size ∧ a.toNat + bytes.length ≤ t.mem.size then text ['O', 'K']
    else text ['E', '0', '2']
  | .dump a n => (List.range n).flatMap fun k => Hex.ofByte (t.mem.m (a + BitVec.ofNat 32 k))
  | .setRegister _ _ | .setAll _ _ => text ['O', 'K']
  | .getRegister i => writeUint32 build (t.reg i)
  | .getAll => image build t.reg placeholders t.cpsr

/-- What the server is a store for: dumps that fit into a reply and into the memory, single
reads of the registers whose numbers have one digit, and aligned program counters.  The
status word may change but not the mode, which would bring another bank into sight. -/
def Permits (t : Target) : DataCommand → Prop
  | .download _ bytes => bytes.length < 2 ^ 32
  | .dump a n => 2 * n ≤ 1018 ∧ (n = 0 ∨ a.toNat + n ≤ t.mem.size)
  | .setRegister i v => i = 15 → v.toNat % 4 = 0
  | .getRegister i => i < 10
  | .setAll f cpsr => (f 15).toNat % 4 = 0 ∧ modeField cpsr = modeField t.cpsr
  | .getAll => True

theorem permits_congr {t u : Target} (hsize : u.mem.size = t.mem.size)
    (hmode : modeField u.cpsr = modeField t.cpsr) {c : DataCommand} :
    u.Permits c ↔ t.Permits c := by
  cases c <;> simp only [Permits, hsize, hmode]

theorem mode_obey {t : Target} {c : DataCommand} (h : t.Permits c) :
    modeField (t.obey c).cpsr = modeField t.cpsr := by
  cases c with
  | setAll f cpsr => exact h.2
  | download | dump | setRegister | getRegister | getAll => rfl

theorem size_obey (t : Target) (c : DataCommand) : (t.obey c).mem.size = t.mem.size := by
  cases c <;> rfl

theorem permits_obey {t : Target} {c d : DataCommand} (h : t.Permits c) (hd : t.Permits d) :
    (t.obey c).Permits d := by
  rwa [permits_congr (size_obey t c) (mode_obey h)]

theorem permits_foldl {t : Target} {cs : List DataCommand} (hcs : ∀ c ∈ cs, t.Permits c)
    {d : DataCommand} (hd : t.Permits d) : (cs.foldl obey t).Permits d := by
  induction cs generalizing t with
  | nil => exact hd
  | cons c cs ih =>
    have hc := hcs c List.mem_cons_self
    exact ih (fun e he => permits_obey hc (hcs e (List.mem_cons_of_mem _ he))) (permits_obey hc hd)

theorem byte_obey (t : Target) (c : DataCommand) (i : BitVec 32) :
    (t.obey c).mem.m i = (stored t.mem.size i c).getD (t.mem.m i) := by
  cases c with
  | download a bytes =>
    show (if a.toNat ≤ i.toNat ∧ i.toNat < t.mem.size then
        bytes.getD (i.toNat - a.toNat) (t.mem.m i) else t.mem.m i) =
      (if a.toNat ≤ i.toNat ∧ i.toNat < t.mem.size then bytes[i.toNat - a.toNat]?
        else none).getD (t.mem.m i)
    by_cases hin : a.toNat ≤ i.toNat ∧ i.toNat < t.mem.size
    · rw [if_pos hin, if_pos hin]
      exact List.getD_eq_getElem?_getD
    · rw [if_neg hin, if_neg hin, Option.getD_none]
  | dump | setRegister | getRegister | setAll | getAll => rfl

/-- After any commands a byte is the last that was stored there. -/
theorem byte_foldl (t : Target) (cs : List DataCommand) (i : BitVec 32) :
    (cs.foldl obey t).mem.m i =
      ((cs.filterMap (stored t.mem.size i)).getLast?).getD (t.mem.m i) := by
  refine Bytes.foldl_cell obey (fun u => u.mem.size = t.mem.size) (fun u => u.mem.m i)
    (stored t.mem.size i) (fun u c h => (size_obey u c).trans h) (fun u c h => ?_) rfl cs
  rw [← h]
  exact byte_obey u c i

/-- After any commands a register holds the last word it was given. -/
theorem reg_foldl (t : Target) (cs : List DataCommand) (i : Fin 16) :
    (cs.foldl obey t).reg i = ((cs.filterMap (given i)).getLast?).getD (t.reg i) :=
  Bytes.foldl_cell obey (fun _ => True) (fun u => u.reg i) (given i) (fun _ _ h => h)
    (fun _ _ _ => rfl) trivial cs

end Target

/-! ## The core -/

def seen (p : Core) : Target where
  mem := p.mem
  reg := reportedWord p
  cpsr := readCpsr p.reg

theorem seen_writeRegister (p : Core) {n : Fin 16} {v : BitVec 32}
    (hpermits : (seen p).Permits (.setRegister n v)) :
    seen { p with reg := ArmSimulator.writeRegister p.reg n v } =
      (seen p).obey (.setRegister n v) := by
  have hreg : reportedWord { p with reg := ArmSimulator.writeRegister p.reg n v } =
      ((seen p).obey (.setRegister n v)).reg := by
    funext i
    by_cases hi : n = i
    · subst hi
      rw [reportedWord_writeRegister p hpermits]
      simp [Target.obey, Target.given]
    · rw [reportedWord_writeRegister_of_ne p (Ne.symm hi)]
      simp [Target.obey, Target.given, hi, seen]
  have hcpsr : readCpsr (ArmSimulator.writeRegister p.reg n v) = readCpsr p.reg :=
    readCpsr_update_of_ne p.reg (registerIndex_ne_cpsr _ n) v
  rw [seen, hreg, hcpsr]
  rfl

theorem seen_afterImage {p : Core} (hmode : Mode.Valid (getMode p.reg)) {f : Fin 16 → BitVec 32}
    {cpsr : BitVec 32} (hpermits : (seen p).Permits (.setAll f cpsr)) :
    seen (afterImage f cpsr p) = (seen p).obey (.setAll f cpsr) := by
  obtain ⟨hpc, hsame⟩ := hpermits
  have hsame : modeField cpsr = getMode p.reg := hsame
  have hreg : reportedWord (afterImage f cpsr p) = f := by
    funext i
    rw [reportedWord_afterImage hpc (by rw [hsame]; exact hmode) hmode, hsame, if_pos rfl]
  have hcpsr : readCpsr (afterImage f cpsr p).reg = cpsr := readCpsr_writeCpsr _ _
  rw [seen, hreg, hcpsr]
  rfl

/-! ## Requests -/

/-- A request is handled to its end, with `s` in the reply, and leaves the target of `g`. -/
structure Replies (o : Outcome GdbEvent Gdb (Except Stop Unit)) (s : List (BitVec 8)) (g : Gdb) :
    Prop where
  returns : o.value = .ok ()
  reply : lastReply o.trace = some (frame s)
  same : SameTarget g o.state

/-- A handler that ends with `gdb_send_data`. -/
theorem replies_of_data {m : GdbM Unit} (hsends : Sends m) {g g' : Gdb}
    (hopen : g'.connected = true) {s : List (BitVec 8)} (hlength : s.length ≤ 1019)
    (hs : ∀ c ∈ s, c ≠ 0)
    (hsent : (m g).value = (gdbSendData s g').value ∧ (m g).state = (gdbSendData s g').state) :
    Replies (m g) s g' := by
  obtain ⟨hreply, hreturns, -⟩ := gdbSendData_reply hlength hs g'
  have hok : (m g).value = .ok () := hsent.1.trans (hreturns.mpr hopen)
  rw [← hsent.2] at hreply
  exact ⟨hok, (hsends g () hok).trans (congrArg some hreply),
    hsent.2 ▸ sameTarget_gdbSendData s g'⟩

/-- A handler that ends with `gdb_send_buffer`, and has filled the packet array before. -/
theorem replies_of_buffer {m : GdbM Unit} (hsends : Sends m) {g g' : Gdb}
    (hopen : g.connected = true) (hsame : SameTarget g g') {s : List (BitVec 8)}
    (hstring : StringAt g'.packet 1 s) (hlength : s.length ≤ 1019)
    (hsent : (m g).value = (gdbSendBuffer g').value ∧ (m g).state = (gdbSendBuffer g').state) :
    Replies (m g) s g := by
  have hwritten := gdbSendBuffer_written hstring hlength (hsame.connected.symm.trans hopen)
  have hok : (m g).value = .ok () := by rw [hsent.1, hwritten]
  have hreply : (m g).state.reply = frame s := by
    rw [hsent.2]
    exact gdbSendBuffer_reply hstring hlength
  exact ⟨hok, (hsends g () hok).trans (congrArg some hreply),
    hsame.trans (hsent.2 ▸ sameTarget_gdbSendBuffer g')⟩

section

variable (build : Build) (ctx : Context) (rest : List (BitVec 8)) {g : Gdb}
  (hopen : g.connected = true)
include hopen

theorem replies_writeMemoryBinary {address count bytes encoded : List (BitVec 8)} {a : BitVec 32}
    (haddress : Numeral address a.toNat) (hcount : Numeral count bytes.length)
    (hencoded : Encodes bytes encoded) (hsize : g.arm.mem.size < 2 ^ 32)
    (hpermits : (seen g.arm).Permits (.download a bytes)) :
    Replies (writeMemoryBinary build ctx (downloadText address count encoded ++ rest) g)
      ((seen g.arm).answer build (.download a bytes))
      { g with arm := { g.arm with mem := g.arm.mem.store a bytes } } := by
  have hplain : ((seen g.arm).answer build (.download a bytes)).length ≤ 1019 ∧
      ∀ c ∈ (seen g.arm).answer build (.download a bytes), c ≠ 0 := by
    simp only [Target.answer]
    split_ifs <;> decide
  exact replies_of_data (sends_writeMemoryBinary build ctx _) (by exact hopen) hplain.1 hplain.2
    (writeMemoryBinary_answer haddress hcount build ctx hencoded hpermits rest g hsize)

theorem replies_readMemory {address count : List (BitVec 8)} {a : BitVec 32} {n : Nat}
    (haddress : Numeral address a.toNat) (hcount : Numeral count n)
    (hpermits : (seen g.arm).Permits (.dump a n)) :
    Replies (readMemory build ctx (address ++ chr ',' :: (count ++ 0 :: rest)) g)
      ((seen g.arm).answer build (.dump a n)) g := by
  obtain ⟨hfit, hinside⟩ := hpermits
  have hscan := scan_numerals build ctx haddress hcount (by omega) (c := 0) (by decide) (by decide)
    rest
  have hn : (BitVec.ofNat 32 n).toNat = n := by
    rw [BitVec.toNat_ofNat]
    omega
  generalize address ++ chr ',' :: (count ++ 0 :: rest) = data at hscan ⊢
  let g' : Gdb := { g with packet := Function.update g.packet 1 0 }
  have hset : setPacket 1 0 g = { value := .ok (), state := g', trace := [] } :=
    setPacket_apply (by decide) 0 g
  obtain ⟨packet, hvalue, hstate, hstring⟩ := dumpLoop_string
    (show 1 + 2 * n < maxPacketSize by unfold maxPacketSize; omega) a ctx.value (g := g')
    (Function.update_self 1 0 g.packet)
  have htext : (dumpBytes g'.arm.mem n a ctx.value).flatMap Hex.ofByte =
      (seen g.arm).answer build (.dump a n) := by
    have hinside : n = 0 ∨ a.toNat + n ≤ g'.arm.mem.size := hinside
    rw [dumpBytes_inside hinside, List.flatMap_map]
    rfl
  rw [htext] at hstring
  let g'' : Gdb := { g' with packet := packet }
  have hsame : SameTarget g g'' := ⟨rfl, rfl, rfl⟩
  refine replies_of_buffer (sends_readMemory build ctx _) hopen hsame hstring ?_ ?_
  · rw [← htext, length_flatMap_ofByte, length_dumpBytes]
    omega
  · rw [readMemory, Halting.bind_apply_ok (show (requestAt data 0 g).value = .ok data from rfl)]
    simp only [hscan, hn, show (requestAt data 0 g).state = g from rfl]
    rw [Halting.bind_apply_ok (by rw [hset]), hset]
    simp only
    rw [Halting.bind_apply_ok hvalue, hstate]
    exact ⟨rfl, rfl⟩

theorem replies_writeRegister (i : Fin 16) (v : BitVec 32) :
    Replies (writeRegister build ctx (registerText build i v ++ rest) g) (text ['O', 'K'])
      (g.withRegisters (ArmSimulator.writeRegister g.arm.reg i v)) :=
  replies_of_data (sends_writeRegister build ctx _) (by exact hopen) (by decide) (by decide)
    (writeRegister_answer build ctx i v rest g)

theorem replies_readRegister {i : Fin 16} (hi : i < 10) :
    Replies (readRegister build ctx (Hex.digit i :: 0 :: rest) g)
      ((seen g.arm).answer build (.getRegister i)) g := by
  have hsent := readRegister_apply build ctx i rest g
  rw [registerRead, if_pos hi] at hsent
  have hlength : (writeUint32 build (reportedWord g.arm i)).length ≤ 1019 := by
    rw [length_writeUint32]
    decide
  exact replies_of_data (sends_readRegister build ctx _) hopen hlength (writeUint32_nonzero build _)
    hsent

theorem replies_writeGeneralRegisters (f : Fin 16 → BitVec 32) {filler : List (BitVec 8)}
    (hfiller : filler.length = 200) (cpsr : BitVec 32) :
    Replies (writeGeneralRegisters build ctx (image build f filler cpsr ++ rest) g)
      (text ['O', 'K']) { g with arm := afterImage f cpsr g.arm } :=
  replies_of_data (sends_writeGeneralRegisters build ctx _) (by exact hopen) (by decide) (by decide)
    (writeGeneralRegisters_answer build ctx f hfiller cpsr rest g)

theorem replies_readGeneralRegisters :
    Replies (readGeneralRegisters build ctx rest g) ((seen g.arm).answer build .getAll) g := by
  obtain ⟨packet, hvalue, hstate, hstring⟩ := putFields_dumpFields build g
  have hlength := length_registerDump build g.arm
  let g' : Gdb := { g with packet := packet }
  have hsent : (readGeneralRegisters build ctx rest g).value = (gdbSendBuffer g').value ∧
      (readGeneralRegisters build ctx rest g).state = (gdbSendBuffer g').state := by
    rw [readGeneralRegisters, Halting.bind_apply_ok hvalue, hstate]
    exact ⟨rfl, rfl⟩
  have hsame : SameTarget g g' := ⟨rfl, rfl, rfl⟩
  have hreplies := replies_of_buffer (sends_readGeneralRegisters build ctx rest) hopen hsame hstring
    (by rw [hlength]; decide) hsent
  rwa [registerDump_eq_image] at hreplies

end

/-- A payload that asks for a command. -/
inductive Asks (build : Build) : List (BitVec 8) → DataCommand → Prop where
  | download {address count encoded bytes : List (BitVec 8)} {a : BitVec 32}
      (haddress : Numeral address a.toNat) (hcount : Numeral count bytes.length)
      (hencoded : Encodes bytes encoded) :
      Asks build (chr 'X' :: downloadText address count encoded) (.download a bytes)
  | dump {address count : List (BitVec 8)} {a : BitVec 32} {n : Nat}
      (haddress : Numeral address a.toNat) (hcount : Numeral count n) :
      Asks build (chr 'm' :: (address ++ chr ',' :: count)) (.dump a n)
  | setRegister (i : Fin 16) (v : BitVec 32) :
      Asks build (chr 'P' :: registerText build i v) (.setRegister i v)
  | getRegister (i : Fin 16) : Asks build [chr 'p', Hex.digit i] (.getRegister i)
  | setAll (f : Fin 16 → BitVec 32) {filler : List (BitVec 8)} (hfiller : filler.length = 200)
      (cpsr : BitVec 32) : Asks build (chr 'G' :: image build f filler cpsr) (.setAll f cpsr)
  | getAll (data : List (BitVec 8)) : Asks build (chr 'g' :: data) .getAll

/-- A server that can be asked. -/
structure Ready (g : Gdb) : Prop where
  connected : g.connected = true
  size : g.arm.mem.size < 2 ^ 32
  mode : Mode.Valid (getMode g.arm.reg)

section

variable (build : Build) (ctx : Context) {k : Packet} {g : Gdb}

theorem replies_accepted (hopen : g.connected = true) (hsum : ChecksumOk k) {c : BitVec 8}
    {data : List (BitVec 8)} (hk : k.payload = c :: data)
    {handle : Build → Context → List (BitVec 8) → GdbM Unit} (hhandler : handler c = some handle)
    {s : List (BitVec 8)} {g' : Gdb}
    (h : Replies (handle build ctx (data ++ 0 :: k.high :: k.low :: 0 :: ctx.beyond) g) s g') :
    Replies (gdbPacketAnalysis build ctx k.text g) s g' := by
  obtain ⟨hvalue, hstate, hreply⟩ := gdbPacketAnalysis_handled build ctx hopen hsum hk hhandler
  exact ⟨hvalue.trans h.returns, hreply.trans h.reply, hstate ▸ h.same⟩

/-- Every command is obeyed, one case for each. -/
theorem gdbPacketAnalysis_obeys (hready : Ready g) (hsum : ChecksumOk k) {c : DataCommand}
    (hasks : Asks build k.payload c) (hpermits : (seen g.arm).Permits c) :
    ∃ arm, Replies (gdbPacketAnalysis build ctx k.text g) ((seen g.arm).answer build c)
        { g with arm := arm } ∧ seen arm = (seen g.arm).obey c := by
  obtain ⟨hopen, hsize, hmode⟩ := hready
  generalize hpayload : k.payload = payload at hasks
  have haccepted := @replies_accepted build ctx k g hopen hsum
  cases hasks with
  | download haddress hcount hencoded =>
    exact ⟨_, haccepted hpayload rfl (replies_writeMemoryBinary build ctx _ hopen haddress hcount
      hencoded hsize hpermits), rfl⟩
  | dump haddress hcount =>
    refine ⟨_, haccepted hpayload rfl ?_, rfl⟩
    rw [List.append_assoc, List.cons_append]
    exact replies_readMemory build ctx _ hopen haddress hcount hpermits
  | setRegister i v =>
    exact ⟨_, haccepted hpayload rfl (replies_writeRegister build ctx _ hopen i v),
      seen_writeRegister _ hpermits⟩
  | getRegister i =>
    exact ⟨_, haccepted hpayload rfl (replies_readRegister build ctx _ hopen hpermits), rfl⟩
  | setAll f hfiller cpsr =>
    exact ⟨_, haccepted hpayload rfl
      (replies_writeGeneralRegisters build ctx _ hopen f hfiller cpsr),
      seen_afterImage hmode hpermits⟩
  | getAll data =>
    exact ⟨_, haccepted hpayload rfl (replies_readGeneralRegisters build ctx
      (data ++ 0 :: k.high :: k.low :: 0 :: ctx.beyond) hopen), rfl⟩

end

/-! ## Other inputs -/

/-- Packets that leave the target: those whose first character no handler takes, and three
questions about the server itself. -/
def AsksNothing (payload : List (BitVec 8)) : Prop :=
  handler (payload.headD 0) = none ∨ payload.headD 0 = chr '?' ∨ payload.headD 0 = chr 'q' ∨
    payload.headD 0 = chr 'H'

section

variable (build : Build) (ctx : Context) {g : Gdb} (hopen : g.connected = true)
include hopen

/-- A handler that sends one of its texts. -/
theorem replies_of_text {m : GdbM Unit} (hsends : Sends m)
    (h : ∃ s : List (BitVec 8), (s.length ≤ 1019 ∧ ∀ c ∈ s, c ≠ 0) ∧
      (m g).value = (gdbSendData s g).value ∧ (m g).state = (gdbSendData s g).state) :
    ∃ s, Replies (m g) s g := by
  obtain ⟨s, hs, hsent⟩ := h
  exact ⟨s, replies_of_data hsends hopen hs.1 hs.2 hsent⟩

theorem replies_reason (data : List (BitVec 8)) : ∃ s, Replies (reason build ctx data g) s g :=
  replies_of_text hopen (sends_reason build ctx data)
    ⟨_, stopReason_plain g.targetException, rfl, rfl⟩

theorem replies_query (data : List (BitVec 8)) : ∃ s, Replies (query build ctx data g) s g := by
  refine replies_of_text hopen (sends_query build ctx data) ?_
  rw [query, Halting.bind_apply_ok (show (requestAt data 0 g).value = .ok data from rfl)]
  simp only [show (requestAt data 0 g).state = g from rfl]
  split_ifs
  · exact ⟨_, by decide, rfl, rfl⟩
  · exact ⟨_, by decide, rfl, rfl⟩
  · exact ⟨_, by decide, rfl, rfl⟩
  · exact ⟨_, by decide, rfl, rfl⟩

theorem replies_setThread (data : List (BitVec 8)) :
    ∃ s, Replies (setThread build ctx data g) s g := by
  refine replies_of_text hopen (sends_setThread build ctx data) ?_
  have htype : charAt data (some 0) g =
      { value := .ok (data.headD 0), state := g, trace := [.read 0] } := rfl
  rw [setThread, Halting.bind_apply_ok (by rw [htype]), htype]
  simp only
  rw [Halting.bind_apply_ok (show (requestAt data 1 g).value = .ok (data.drop 1) from rfl)]
  simp only [show (requestAt data 1 g).state = g from rfl]
  split_ifs
  · exact ⟨_, by decide, rfl, rfl⟩
  · exact ⟨_, by decide, rfl, rfl⟩

/-- A packet that asks nothing of the target is answered all the same. -/
theorem gdbPacketAnalysis_asksNothing {k : Packet} (h : ChecksumOk k → AsksNothing k.payload) :
    let o := gdbPacketAnalysis build ctx k.text g
    o.value = .ok () ∧ SameTarget g o.state := by
  intro o
  by_cases hsum : ChecksumOk k
  · have hhead : (requestText ctx k).headD 0 = k.payload.headD 0 := by
      rw [requestText]
      cases k.payload <;> rfl
    have hanswer : ∃ s, Replies (answer build ctx (requestText ctx k) g) s g := by
      rw [answer, hhead]
      rcases h hsum with hnone | hreason | hquery | hthread
      · rw [hnone]
        exact replies_of_text hopen (sends_gdbSendData []) ⟨[], by decide, rfl, rfl⟩
      · rw [hreason]
        exact replies_reason build ctx hopen ((requestText ctx k).drop 1)
      · rw [hquery]
        exact replies_query build ctx hopen _
      · rw [hthread]
        exact replies_setThread build ctx hopen _
    obtain ⟨s, hreplies⟩ := hanswer
    simp only [o, gdbPacketAnalysis_accepted build ctx hopen hsum]
    exact ⟨hreplies.returns, hreplies.same⟩
  · rw [show o = _ from gdbPacketAnalysis_rejected build ctx hopen hsum]
    exact ⟨rfl, rfl, rfl, rfl⟩

end

end Gdb

/-! ## Sessions -/

open Gdb (seen Ready Target DataCommand Asks AsksNothing frame ChecksumOk)

/-- Pending characters are refused first. -/
theorem runGdbCalls_flush (build : Build) (ctx : Context) (len : Nat) (rest : List GdbCall)
    {g : Gdb} (hopen : g.connected = true) :
    runGdbCalls build ctx (flushCalls len ++ rest) g =
      { value := (runGdbCalls build ctx rest g).value
        state := (runGdbCalls build ctx rest g).state
        trace := (if len = 0 then [] else [.write (text ['-'])]) ++
          (runGdbCalls build ctx rest g).trace } := by
  by_cases hlen : len = 0
  · rw [flushCalls, if_pos hlen, if_pos hlen]
    rfl
  · have hminus : Gdb.gdbRequireRetransmission g =
        { value := .ok (), state := g, trace := [.write (text ['-'])] } :=
      Gdb.rioWriten_apply (by decide) hopen
    rw [flushCalls, if_neg hlen, if_neg hlen, List.cons_append, List.nil_append, runGdbCalls,
      GdbCall.run, Halting.bind_apply_ok (by rw [hminus]), hminus]

section

variable (build : Build) (ctx : Context) {s : Session} (hopen : s.gdb.connected = true)
include hopen

theorem sessionStep_packet (k : Packet) :
    let o := sessionStep build (.token (.packet k), ctx) s
    let handled := Gdb.gdbPacketAnalysis build ctx k.text s.gdb
    o.value = handled.value.toOption ∧ o.state.gdb = handled.state ∧
      lastReply o.trace = lastReply handled.trace := by
  intro o handled
  have hcalls : calls ((Input.token (.packet k)).action s.parser).trace =
      flushCalls s.parser.len ++ [.packetAnalysis k.text] := by
    simp only [Input.action, action, Traced.bind_trace, calls_append, calls_handleError]
    rfl
  have hone : runGdbCalls build ctx [.packetAnalysis k.text] s.gdb = handled := by
    rw [runGdbCalls, runGdbCalls, Halting.bind_pure_unit]
    rfl
  have hrun := runGdbCalls_flush build ctx s.parser.len [.packetAnalysis k.text] hopen
  rw [hone, ← hcalls] at hrun
  have hflush : lastReply (if s.parser.len = 0 then [] else [.write (text ['-'])]) = none := by
    split_ifs <;> rfl
  simp only [o, sessionStep, hrun, lastReply_append, hflush, Option.or_none, and_self]

/-- Nothing but a packet reaches the target. -/
theorem sessionStep_other {input : Input} (h : ∀ k, input ≠ .token (.packet k)) :
    let o := sessionStep build (input, ctx) s
    o.value = some () ∧ o.state.gdb = s.gdb := by
  intro o
  obtain ⟨len, rest, hcalls, hrest⟩ : ∃ len rest, calls (input.action s.parser).trace =
      flushCalls len ++ rest ∧ (rest = [] ∨ rest = [.transmitPacket]) := by
    cases input with
    | endOfFile => exact ⟨_, [], (calls_handleError _).trans (List.append_nil _).symm, Or.inl rfl⟩
    | token t =>
      cases t with
      | ack => exact ⟨_, [], (calls_handleError _).trans (List.append_nil _).symm, Or.inl rfl⟩
      | retransmission =>
        exact ⟨s.parser.len, [.transmitPacket], calls_retransmission _, Or.inr rfl⟩
      | packet k => exact absurd rfl (h k)
      | other c =>
        refine ⟨if s.parser.len > maxErrorSize - 2 then 1 else 0, [], ?_, Or.inl rfl⟩
        rw [Input.action, action, (addCharacterToError_apply c s.parser).1]
        split_ifs <;> rfl
      | echo c => exact ⟨0, [], rfl, Or.inl rfl⟩
  have hrun : (runGdbCalls build ctx rest s.gdb).value = .ok () ∧
      (runGdbCalls build ctx rest s.gdb).state = s.gdb := by
    rcases hrest with rfl | rfl
    · exact ⟨rfl, rfl⟩
    · rw [runGdbCalls, runGdbCalls, Halting.bind_pure_unit]
      show (Gdb.rioWriten s.gdb.reply s.gdb).value = _ ∧ (Gdb.rioWriten s.gdb.reply s.gdb).state = _
      refine ⟨?_, Gdb.rioWriten_state _ _⟩
      rw [Gdb.rioWriten, if_pos hopen]
      split_ifs <;> rfl
  simp only [o, sessionStep, hcalls, runGdbCalls_flush build ctx len rest hopen, hrun,
    Except.toOption, and_self]

end

/-- What an input asks of the target, if anything. -/
inductive Means (build : Build) : Input → Option DataCommand → Prop where
  | command {k : Packet} {c : DataCommand} (checksum : ChecksumOk k)
      (asks : Asks build k.payload c) : Means build (.token (.packet k)) (some c)
  | packet {k : Packet} (nothing : ChecksumOk k → AsksNothing k.payload) :
      Means build (.token (.packet k)) none
  | other {input : Input} (noPacket : ∀ k, input ≠ .token (.packet k)) : Means build input none

/-- One input. -/
theorem sessionStep_obeys (build : Build) (ctx : Context) {s : Session} (hready : Ready s.gdb)
    {input : Input} {c : Option DataCommand} (hmeans : Means build input c)
    (hpermits : ∀ d ∈ c, (seen s.gdb.arm).Permits d) :
    let o := sessionStep build (input, ctx) s
    o.value = some () ∧ Ready o.state.gdb ∧
      seen o.state.gdb.arm = c.toList.foldl Target.obey (seen s.gdb.arm) ∧
      ∀ d ∈ c, lastReply o.trace = some (frame ((seen s.gdb.arm).answer build d)) := by
  intro o
  cases hmeans with
  | @command k d checksum asks =>
    have hd := hpermits d rfl
    obtain ⟨arm, hreplies, hseen⟩ := Gdb.gdbPacketAnalysis_obeys build ctx hready checksum asks hd
    obtain ⟨hvalue, hstate, hreply⟩ := sessionStep_packet build ctx hready.connected k
    have harm : o.state.gdb.arm = arm := (congrArg Gdb.arm hstate).trans hreplies.same.arm.symm
    refine ⟨?_, ⟨?_, ?_, ?_⟩, ?_, ?_⟩
    · rw [show o.value = _ from hvalue, hreplies.returns]
      rfl
    · exact (congrArg Gdb.connected hstate).trans
        (hreplies.same.connected.symm.trans hready.connected)
    · have hsize := congrArg (fun t => t.mem.size) hseen
      rw [harm]
      exact lt_of_eq_of_lt (hsize.trans (Target.size_obey _ d)) hready.size
    · have hmode := Target.mode_obey hd
      rw [← hseen] at hmode
      rw [harm]
      exact (congrArg Mode.Valid hmode).mpr hready.mode
    · rw [harm]
      exact hseen
    · rintro e ⟨rfl⟩
      exact hreply.trans hreplies.reply
  | @packet k nothing =>
    obtain ⟨hreturns, hsame⟩ :=
      Gdb.gdbPacketAnalysis_asksNothing build ctx hready.connected nothing
    obtain ⟨hvalue, hstate, -⟩ := sessionStep_packet build ctx hready.connected k
    have harm : o.state.gdb.arm = s.gdb.arm := (congrArg Gdb.arm hstate).trans hsame.arm.symm
    refine ⟨?_, ⟨(congrArg Gdb.connected hstate).trans
      (hsame.connected.symm.trans hready.connected), ?_, ?_⟩, ?_, ?_⟩
    · rw [show o.value = _ from hvalue, hreturns]
      rfl
    · rw [harm]
      exact hready.size
    · rw [harm]
      exact hready.mode
    · rw [harm]
      rfl
    · exact fun d hd => by cases hd
  | other noPacket =>
    obtain ⟨hvalue, hstate⟩ := sessionStep_other build ctx hready.connected noPacket
    have hstate : o.state.gdb = s.gdb := hstate
    rw [hstate]
    exact ⟨hvalue, hready, rfl, fun d hd => by cases hd⟩

theorem runSession_cons {build : Build} {input : Input × Context} {s : Session}
    (h : (sessionStep build input s).value = some ()) (inputs : List (Input × Context)) :
    let first := sessionStep build input s
    let rest := runSession build inputs first.state
    (runSession build (input :: inputs) s).value = some () :: rest.value ∧
      (runSession build (input :: inputs) s).state = rest.state ∧
      (runSession build (input :: inputs) s).trace = first.trace ++ rest.trace :=
  let ⟨hvalue, hstate⟩ := Traced.runAll_cons_some h inputs
  ⟨hvalue, hstate, Traced.runAll_cons_some_trace h inputs⟩

/-- Every input of the session is handled, and the target is what the commands make of it. -/
theorem runSession_obeys (build : Build) {inputs : List (Input × Context)}
    {cs : List (Option DataCommand)}
    (hmeans : List.Forall₂ (fun input c => Means build input.1 c) inputs cs) {s : Session}
    (hready : Ready s.gdb) (hpermits : ∀ d ∈ cs.reduceOption, (seen s.gdb.arm).Permits d) :
    (runSession build inputs s).value = List.replicate inputs.length (some ()) ∧
      Ready (runSession build inputs s).state.gdb ∧
      seen (runSession build inputs s).state.gdb.arm =
        cs.reduceOption.foldl Target.obey (seen s.gdb.arm) := by
  induction hmeans generalizing s with
  | nil => exact ⟨rfl, hready, rfl⟩
  | @cons input c inputs cs hinput hinputs ih =>
    have hsplit : (c :: cs).reduceOption = c.toList ++ cs.reduceOption := by
      cases c <;> rfl
    rw [hsplit] at hpermits ⊢
    obtain ⟨hvalue, hready', hseen, -⟩ := sessionStep_obeys build input.2 hready hinput
      fun d hd => hpermits d (List.mem_append_left _ (Option.mem_toList.mpr hd))
    have hrest := ih hready' fun d hd => by
      rw [hseen]
      exact Target.permits_foldl (fun e he => hpermits e (List.mem_append_left _ he))
        (hpermits d (List.mem_append_right _ hd))
    obtain ⟨hvalues, hstates, -⟩ := runSession_cons hvalue inputs
    obtain ⟨hvalue', hrun⟩ := hrest
    rw [List.foldl_append, ← hseen, hvalues, hstates, hvalue']
    exact ⟨rfl, hrun⟩

/-- The command after the session. -/
theorem runSession_answers (build : Build) {inputs : List (Input × Context)}
    {cs : List (Option DataCommand)}
    (hmeans : List.Forall₂ (fun input c => Means build input.1 c) inputs cs) {s : Session}
    (hready : Ready s.gdb) (hpermits : ∀ d ∈ cs.reduceOption, (seen s.gdb.arm).Permits d)
    (ctx : Context) {k : Packet} {d : DataCommand} (hsum : ChecksumOk k)
    (hasks : Asks build k.payload d) (hd : (seen s.gdb.arm).Permits d) :
    let next := sessionStep build (.token (.packet k), ctx) (runSession build inputs s).state
    let target := cs.reduceOption.foldl Target.obey (seen s.gdb.arm)
    next.value = some () ∧ lastReply next.trace = some (frame (target.answer build d)) ∧
      seen next.state.gdb.arm = target.obey d := by
  obtain ⟨-, hready', hseen⟩ := runSession_obeys build hmeans hready hpermits
  have hpermitted : (seen (runSession build inputs s).state.gdb.arm).Permits d := by
    rw [hseen]
    exact Target.permits_foldl hpermits hd
  have hstep := sessionStep_obeys build ctx hready' (.command hsum hasks)
    fun e he => by
      cases he
      exact hpermitted
  rw [hseen] at hstep
  exact ⟨hstep.1, hstep.2.2.2 d rfl, hstep.2.2.1⟩

/-- A session that only reads and writes the target is handled to its end, and the target is
then what the store makes of the commands.  The next command is answered and obeyed by that
store. -/
theorem session_obeys (build : Build) {inputs : List (Input × Context)}
    {cs : List (Option DataCommand)}
    (hmeans : List.Forall₂ (fun input c => Means build input.1 c) inputs cs) {s : Session}
    (hready : Ready s.gdb) (hpermits : ∀ d ∈ cs.reduceOption, (seen s.gdb.arm).Permits d) :
    let o := runSession build inputs s
    let target := cs.reduceOption.foldl Target.obey (seen s.gdb.arm)
    o.value = List.replicate inputs.length (some ()) ∧ seen o.state.gdb.arm = target ∧
      ∀ (ctx : Context) (k : Packet) (d : DataCommand), ChecksumOk k → Asks build k.payload d →
        (seen s.gdb.arm).Permits d →
          let next := sessionStep build (.token (.packet k), ctx) o.state
          next.value = some () ∧ lastReply next.trace = some (frame (target.answer build d)) ∧
            seen next.state.gdb.arm = target.obey d := by
  obtain ⟨hvalue, -, hseen⟩ := runSession_obeys build hmeans hready hpermits
  exact ⟨hvalue, hseen, fun ctx k d hsum hasks hd =>
    runSession_answers build hmeans hready hpermits ctx hsum hasks hd⟩

/-- What has been written is read: a dump gives for each byte the last that was downloaded
there, and a register is reported with the last word it was given. -/
theorem session_reads_last (build : Build) {inputs : List (Input × Context)}
    {cs : List (Option DataCommand)}
    (hmeans : List.Forall₂ (fun input c => Means build input.1 c) inputs cs) {s : Session}
    (hready : Ready s.gdb) (hpermits : ∀ d ∈ cs.reduceOption, (seen s.gdb.arm).Permits d) :
    let o := runSession build inputs s
    (∀ (ctx : Context) (k : Packet) (a : BitVec 32) (n : Nat), ChecksumOk k →
        Asks build k.payload (.dump a n) → 2 * n ≤ 1018 → a.toNat + n ≤ s.gdb.arm.mem.size →
          lastReply (sessionStep build (.token (.packet k), ctx) o.state).trace =
            some (frame ((List.range n).flatMap fun j =>
              let i := a + BitVec.ofNat 32 j
              let stored := cs.reduceOption.filterMap (Target.stored s.gdb.arm.mem.size i)
              Hex.ofByte (stored.getLast?.getD (s.gdb.arm.mem.m i))))) ∧
      ∀ (ctx : Context) (k : Packet) (i : Fin 16), ChecksumOk k →
        Asks build k.payload (.getRegister i) → i < 10 →
          lastReply (sessionStep build (.token (.packet k), ctx) o.state).trace =
            some (frame (Gdb.writeUint32 build
              ((cs.reduceOption.filterMap (Target.given i)).getLast?.getD
                (Gdb.reportedWord s.gdb.arm i)))) := by
  refine ⟨fun ctx k a n hsum hasks hfit hinside => ?_, fun ctx k i hsum hasks hi => ?_⟩
  · have hanswer := (runSession_answers build hmeans hready hpermits ctx hsum hasks
      ⟨hfit, Or.inr hinside⟩).2.1
    simp only [Target.answer, Target.byte_foldl] at hanswer
    exact hanswer
  · have hanswer := (runSession_answers build hmeans hready hpermits ctx hsum hasks hi).2.1
    simp only [Target.answer, Target.reg_foldl] at hanswer
    exact hanswer

/-- A server with 64 bytes of memory. -/
def rewritingSession : Session :=
  newSession
    { cycleCount := 0
      reg := fun i => if i = cpsrIndex then 0x10 else 0
      mem := memoryOfWords true 64 [] }
    (fun _ => 0) fun _ => 0

/-- Two downloads, of which the second overwrites a byte of the first, a question and a
stray character. -/
def rewritingInputs : List (Input × Context) :=
  let first := Gdb.packetOfString (text ['X', '8', ',', '4', ':', 'a', 'b', 'c', 'd']) (by decide)
  let second := Gdb.packetOfString (text ['X', 'a', ',', '1', ':', 'e']) (by decide)
  let question := Gdb.packetOfString (text ['?']) (by decide)
  [(.token (.packet first), quietContext), (.token (.packet second), quietContext),
    (.token (.packet question), quietContext), (.token (.other (chr 'x')), quietContext)]

def rewritingCommands : List (Option DataCommand) :=
  [some (.download 8 (text ['a', 'b', 'c', 'd'])), some (.download 10 (text ['e'])), none, none]

theorem means_rewritingInputs :
    List.Forall₂ (fun input c => Means quietBuild input.1 c) rewritingInputs rewritingCommands := by
  have hfour : Gdb.Numeral (text ['8']) (8 : BitVec 32).toNat := ⟨by decide, by decide, rfl⟩
  have hcount : Gdb.Numeral (text ['4']) 4 := ⟨by decide, by decide, rfl⟩
  have hten : Gdb.Numeral (text ['a']) (10 : BitVec 32).toNat := ⟨by decide, by decide, rfl⟩
  have hone : Gdb.Numeral (text ['1']) 1 := ⟨by decide, by decide, rfl⟩
  have hletters : Gdb.Encodes (text ['a', 'b', 'c', 'd']) (text ['a', 'b', 'c', 'd']) :=
    .raw (b := chr 'a') (by decide) (.raw (b := chr 'b') (by decide)
      (.raw (b := chr 'c') (by decide) (.raw (b := chr 'd') (by decide) .nil)))
  have hletter : Gdb.Encodes (text ['e']) (text ['e']) := .raw (b := chr 'e') (by decide) .nil
  refine .cons (.command (Gdb.checksumOk_packetOfString _ _) ?_) (.cons
    (.command (Gdb.checksumOk_packetOfString _ _) ?_) (.cons (.packet fun _ => ?_)
      (.cons (.other fun k h => ?_) .nil)))
  · exact Gdb.Asks.download hfour hcount hletters
  · exact Gdb.Asks.download hten hone hletter
  · exact Or.inr (Or.inl rfl)
  · cases h

/-- Four bytes at 8. -/
def rereadRequest : Packet := Gdb.packetOfString (text ['m', '8', ',', '4']) (by decide)

theorem asks_rereadRequest : Gdb.Asks quietBuild rereadRequest.payload (.dump 8 4) := by
  have haddress : Gdb.Numeral (text ['8']) (8 : BitVec 32).toNat := ⟨by decide, by decide, rfl⟩
  have hcount : Gdb.Numeral (text ['4']) 4 := ⟨by decide, by decide, rfl⟩
  exact Gdb.Asks.dump haddress hcount

theorem permits_rewritingCommands :
    ∀ d ∈ rewritingCommands.reduceOption, (seen rewritingSession.gdb.arm).Permits d := by
  intro d hd
  have hcommands : rewritingCommands.reduceOption =
      [.download 8 (text ['a', 'b', 'c', 'd']), .download 10 (text ['e'])] := rfl
  rw [hcommands] at hd
  obtain rfl | hd := List.mem_cons.mp hd
  · exact show 4 < 2 ^ 32 by decide
  · obtain rfl := List.mem_singleton.mp hd
    exact show 1 < 2 ^ 32 by decide

theorem ready_rewritingSession : Ready rewritingSession.gdb := ⟨rfl, by decide, by decide⟩

theorem session_obeys_rewriting :
    let o := runSession quietBuild rewritingInputs rewritingSession
    o.value = List.replicate 4 (some ()) ∧
      lastReply (sessionStep quietBuild (.token (.packet rereadRequest), quietContext)
        o.state).trace = some (frame (text ['6', '1', '6', '2', '6', '5', '6', '4'])) := by
  intro o
  obtain ⟨hvalue, -, hnext⟩ := session_obeys quietBuild means_rewritingInputs ready_rewritingSession
    permits_rewritingCommands
  have hreply := (hnext quietContext rereadRequest _ (Gdb.checksumOk_packetOfString _ _)
    asks_rereadRequest ⟨by decide, Or.inr (by decide)⟩).2.1
  exact ⟨hvalue, hreply.trans (by decide +kernel)⟩

theorem session_reads_last_rewriting :
    let o := runSession quietBuild rewritingInputs rewritingSession
    lastReply (sessionStep quietBuild (.token (.packet rereadRequest), quietContext)
      o.state).trace = some (frame (text ['6', '1', '6', '2', '6', '5', '6', '4'])) := by
  intro o
  have hreply := (session_reads_last quietBuild means_rewritingInputs ready_rewritingSession
    permits_rewritingCommands).1 quietContext rereadRequest 8 4
      (Gdb.checksumOk_packetOfString _ _) asks_rereadRequest (by decide) (by decide)
  exact hreply.trans (by decide +kernel)

end ArmSimulator
