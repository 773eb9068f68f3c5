/-
Binary downloads.

The debugger escapes the framing characters, and any other byte it likes, and sends the
rest as it is.  The loop of `write_memory_binary` takes one byte of the memory for each
byte it decodes and stops at the first that the memory rejects, so what it stores is the
part of the data that lies inside.
-/
import ArmSimulator.Proof.MemoryDump
import ArmSimulator.Proof.Restore

namespace ArmSimulator

/-! ## Memory -/

/-- The memory with bytes stored from `a` on, as far as it reaches. -/
def Memory.store (mem : Memory) (a : BitVec 32) (bytes : List (BitVec 8)) : Memory :=
  { mem with
    m := fun i =>
      if a.toNat ≤ i.toNat ∧ i.toNat < mem.size then
        bytes.getD (i.toNat - a.toNat) (mem.m i)
      else mem.m i }

theorem memory_ext {mem mem' : Memory} (hm : mem.m = mem'.m) (hsize : mem.size = mem'.size)
    (hbig : mem.isBigEndian = mem'.isBigEndian) : mem = mem' := by
  cases mem
  cases mem'
  cases hm
  cases hsize
  cases hbig
  rfl

theorem store_nil (mem : Memory) (a : BitVec 32) : mem.store a [] = mem := by
  refine memory_ext (funext fun i => ?_) rfl rfl
  simp [Memory.store]

theorem store_outside {mem : Memory} {a : BitVec 32} (h : ¬a.toNat < mem.size)
    (bytes : List (BitVec 8)) : mem.store a bytes = mem := by
  refine memory_ext (funext fun i => ?_) rfl rfl
  exact if_neg fun hi => h (by omega)

/-- The first byte, and then the others behind it. -/
theorem store_cons {mem : Memory} {a : BitVec 32} (hsize : mem.size < 2 ^ 32)
    (h : a.toNat < mem.size) (b : BitVec 8) (bytes : List (BitVec 8)) :
    mem.store a (b :: bytes) =
      Memory.store { mem with m := Function.update mem.m a b } (a + 1) bytes := by
  have hnext : (a + 1).toNat = a.toNat + 1 :=
    BitVec.toNat_add_of_lt (show a.toNat + 1 < 2 ^ 32 by omega)
  refine memory_ext (funext fun i => ?_) rfl rfl
  simp only [Memory.store, hnext]
  rcases Nat.lt_trichotomy i.toNat a.toNat with hlow | hsame | hhigh
  · have hne : i ≠ a := fun he => by rw [he] at hlow; omega
    rw [if_neg (by omega), if_neg (by omega), Function.update_of_ne hne]
  · have he : i = a := BitVec.eq_of_toNat_eq hsame
    rw [he, if_pos ⟨le_rfl, h⟩, if_neg (by omega), Function.update_self, Nat.sub_self,
      List.getD_cons_zero]
  · have hne : i ≠ a := fun he => by rw [he] at hhigh; omega
    rw [Function.update_of_ne hne, show i.toNat - a.toNat = i.toNat - (a.toNat + 1) + 1 by omega,
      List.getD_cons_succ]
    exact if_congr (by omega) rfl rfl

namespace Gdb

/-! ## Encoded data -/

/-- A text that stands for `bytes`: each byte as it is, or the escape and the byte with one
bit changed, which the framing characters and the escape must be. -/
inductive Encodes : List (BitVec 8) → List (BitVec 8) → Prop where
  | nil : Encodes [] []
  | raw {b : BitVec 8} {bytes encoded : List (BitVec 8)}
      (hb : b ≠ chr '$' ∧ b ≠ chr '#' ∧ b ≠ 0x7d) (rest : Encodes bytes encoded) :
      Encodes (b :: bytes) (b :: encoded)
  | escaped (b : BitVec 8) {bytes encoded : List (BitVec 8)} (rest : Encodes bytes encoded) :
      Encodes (b :: bytes) (0x7d :: (b ^^^ 0x20) :: encoded)

theorem charAt_apply {data s : List (BitVec 8)} {offset : Nat} {c : BitVec 8}
    (h : data.drop offset = c :: s) (g : Gdb) :
    charAt data (some offset) g =
      { value := .ok c, state := g, trace := [.read offset] } := by
  show Outcome.mk (Except.ok ((data.drop offset).headD 0)) g [GdbEvent.read offset] = _
  rw [h, List.headD_cons]

/-- One turn of the loop, on the text of one byte. -/
theorem storeLoop_succ {data : List (BitVec 8)} {offset next : Nat} {b : BitVec 8}
    (hdecode : ∃ s, data.drop offset = b :: s ∧ b ≠ 0x7d ∧ next = offset + 1 ∨
      data.drop offset = 0x7d :: (b ^^^ 0x20) :: s ∧ next = offset + 2)
    (size : Nat) (a : BitVec 32) (g : Gdb) :
    let turn : GdbM Bool := writeByte a b >>= fun code =>
      if code = 0 then storeLoop data size (some next) (a + 1) else pure false
    (storeLoop data (size + 1) (some offset) a g).value = (turn g).value ∧
      (storeLoop data (size + 1) (some offset) a g).state = (turn g).state := by
  intro turn
  obtain ⟨s, ⟨hdata, hb, rfl⟩ | ⟨hdata, rfl⟩⟩ := hdecode
  · have hchar := charAt_apply hdata g
    rw [storeLoop, Halting.bind_apply_ok (by rw [hchar]), hchar]
    simp only [hb, decide_false, Bool.false_eq_true, if_false]
    rw [Halting.bind_apply_ok (by rw [hchar]), hchar]
    exact ⟨rfl, rfl⟩
  · have hchar := charAt_apply hdata g
    have hnext : data.drop (offset + 1) = (b ^^^ 0x20) :: s := by
      rw [← List.drop_drop, hdata]
      rfl
    have hread : (do let c ← charAt data (some (offset + 1)); pure (c ^^^ 0x20) : GdbM _) g =
        { value := .ok b, state := g, trace := [.read (offset + 1)] } := by
      have hback : b ^^^ 0x20 ^^^ 0x20 = b := by
        rw [BitVec.xor_assoc, BitVec.xor_self, BitVec.xor_zero]
      rw [Halting.bind_apply_ok (by rw [charAt_apply hnext]), charAt_apply hnext, hback]
      rfl
    rw [storeLoop, Halting.bind_apply_ok (by rw [hchar]), hchar]
    simp only [decide_true, if_true, Option.map_some]
    rw [Halting.bind_apply_ok (by rw [hread]), hread]
    exact ⟨rfl, rfl⟩

/-- The loop stores `bytes` when it decodes from `offset` on. -/
def Stores (data bytes : List (BitVec 8)) (offset : Nat) : Prop :=
  ∀ (a : BitVec 32) (g : Gdb), g.arm.mem.size < 2 ^ 32 →
    (storeLoop data bytes.length (some offset) a g).value =
        .ok (decide (bytes = [] ∨ a.toNat + bytes.length ≤ g.arm.mem.size)) ∧
      (storeLoop data bytes.length (some offset) a g).state =
        { g with arm := { g.arm with mem := g.arm.mem.store a bytes } }

theorem Stores.cons {data bytes : List (BitVec 8)} {offset next : Nat} {b : BitVec 8}
    (hdecode : ∃ s, data.drop offset = b :: s ∧ b ≠ 0x7d ∧ next = offset + 1 ∨
      data.drop offset = 0x7d :: (b ^^^ 0x20) :: s ∧ next = offset + 2)
    (hrest : Stores data bytes next) : Stores data (b :: bytes) offset := by
  intro a g hsize
  obtain ⟨hvalue, hstate⟩ := storeLoop_succ hdecode bytes.length a g
  rw [List.length_cons, hvalue, hstate]
  by_cases hin : a.toNat < g.arm.mem.size
  · have hwrite := writeByte_inside hin b
    have hnext : (a + 1).toNat = a.toNat + 1 :=
      BitVec.toNat_add_of_lt (show a.toNat + 1 < 2 ^ 32 by omega)
    obtain ⟨hvalue', hstate'⟩ := hrest (a + 1)
      { g with
        arm := { g.arm with mem := { g.arm.mem with m := Function.update g.arm.mem.m a b } } } hsize
    rw [Halting.bind_apply_ok (by rw [hwrite]), hwrite, if_pos rfl, hvalue', hstate',
      store_cons hsize hin, hnext]
    refine ⟨congrArg Except.ok (decide_eq_decide.mpr ?_), rfl⟩
    cases bytes with
    | nil => exact iff_of_true (Or.inl rfl) (Or.inr hin)
    | cons c bytes => simp only [reduceCtorEq, false_or, List.length_cons]; omega
  · have hwrite := writeByte_outside hin b
    rw [Halting.bind_apply_ok (by rw [hwrite]), hwrite, if_neg (by decide), store_outside hin]
    refine ⟨congrArg Except.ok (decide_eq_false ?_).symm, rfl⟩
    rintro (hnil | hfit)
    · cases hnil
    · omega

/-- The loop stores the bytes that its text stands for. -/
theorem storeLoop_encodes {bytes encoded : List (BitVec 8)} (h : Encodes bytes encoded)
    {data rest : List (BitVec 8)} {offset : Nat} (hdata : data.drop offset = encoded ++ rest) :
    Stores data bytes offset := by
  induction h generalizing offset with
  | nil =>
    intro a g _
    exact ⟨rfl, by rw [store_nil]; rfl⟩
  | raw hb _ ih =>
    refine Stores.cons ⟨_, Or.inl ⟨hdata, hb.2.2, rfl⟩⟩ (ih ?_)
    rw [← List.drop_drop, hdata]
    rfl
  | escaped b _ ih =>
    refine Stores.cons ⟨_, Or.inr ⟨hdata, rfl⟩⟩ (ih ?_)
    rw [← List.drop_drop, hdata]
    rfl

/-! ## The command -/

/-- A number as the debugger writes it: hexadecimal digits. -/
structure Numeral (digits : List (BitVec 8)) (n : Nat) : Prop where
  nonempty : digits ≠ []
  isDigit : ∀ c ∈ digits, Hex.isDigit c = true
  number : Hex.number digits = n

/-- Both numbers of a request, whatever is behind them that is no digit. -/
theorem scan_numerals (build : Build) (ctx : Context) {address count : List (BitVec 8)}
    {a : BitVec 32} {n : Nat} (haddress : Numeral address a.toNat) (hcount : Numeral count n)
    (hn : n < 2 ^ 32) {c : BitVec 8} (hc : Hex.isDigit c = false)
    (hx : c ≠ chr 'x' ∧ c ≠ chr 'X') (rest : List (BitVec 8)) :
    CString.scanHexPair build.bareBase (address ++ chr ',' :: (count ++ c :: rest)) ctx.address
      ctx.size = (a, BitVec.ofNat 32 n) := by
  have hfirst := CString.scanHexAll_digits build.bareBase haddress.nonempty haddress.isDigit
    (by rw [haddress.number]; exact a.isLt) (c := chr ',') (by decide) (by decide)
    (count ++ c :: rest)
  have hsecond := CString.scanHexAll_digits build.bareBase hcount.nonempty hcount.isDigit
    (by rw [hcount.number]; exact hn) hc hx rest
  rw [haddress.number, BitVec.ofNat_toNat, BitVec.setWidth_eq] at hfirst
  rw [hcount.number] at hsecond
  simp only [CString.scanHexPair, hfirst, hsecond, if_true]

/-- The address, the number of bytes and the text of the bytes. -/
def downloadText (address count encoded : List (BitVec 8)) : List (BitVec 8) :=
  address ++ chr ',' :: (count ++ chr ':' :: encoded)

section

variable {address count bytes : List (BitVec 8)} {a : BitVec 32}
  (haddress : Numeral address a.toNat) (hcount : Numeral count bytes.length)
include haddress hcount

theorem scan_downloadText (build : Build) (ctx : Context) (hlength : bytes.length < 2 ^ 32)
    (encoded rest : List (BitVec 8)) :
    CString.scanHexPair build.bareBase (downloadText address count encoded ++ rest) ctx.address
      ctx.size = (a, BitVec.ofNat 32 bytes.length) := by
  have hscan := scan_numerals build ctx haddress hcount hlength (c := chr ':') (by decide)
    (by decide) (encoded ++ rest)
  simpa only [downloadText, List.append_assoc, List.cons_append] using hscan

/-- The data starts behind the first colon, whatever bytes it holds. -/
theorem index_downloadText (encoded rest : List (BitVec 8)) :
    ∃ position,
      CString.index (downloadText address count encoded ++ rest) (chr ':') = some position ∧
        (downloadText address count encoded ++ rest).drop (position + 1) = encoded ++ rest := by
  have hdigit : ∀ c, Hex.isDigit c = true → c ≠ 0 ∧ c ≠ chr ':' := by
    decide
  have hhead : ∀ c ∈ address ++ chr ',' :: count, c ≠ 0 ∧ c ≠ chr ':' := by
    intro c hc
    rcases List.mem_append.mp hc with hc | hc
    · exact hdigit c (haddress.isDigit c hc)
    · rcases List.mem_cons.mp hc with rfl | hc
      · decide
      · exact hdigit c (hcount.isDigit c hc)
  have hsplit : downloadText address count encoded ++ rest =
      (address ++ chr ',' :: count) ++ chr ':' :: (encoded ++ rest) := by
    simp only [downloadText, List.append_assoc, List.cons_append]
  rw [hsplit]
  refine ⟨_, CString.index_append (by decide) hhead _, ?_⟩
  rw [← List.drop_drop, List.drop_left]
  rfl

/-- The answer of a download, and the memory at that time. -/
theorem writeMemoryBinary_answer (build : Build) (ctx : Context) {encoded : List (BitVec 8)}
    (hencoded : Encodes bytes encoded) (hlength : bytes.length < 2 ^ 32) (rest : List (BitVec 8))
    (g : Gdb) (hsize : g.arm.mem.size < 2 ^ 32) :
    let o := writeMemoryBinary build ctx (downloadText address count encoded ++ rest) g
    let sent := gdbSendData
      (if a.toNat < g.arm.mem.size ∧ a.toNat + bytes.length ≤ g.arm.mem.size then text ['O', 'K']
        else text ['E', '0', '2'])
      { g with arm := { g.arm with mem := g.arm.mem.store a bytes } }
    o.value = sent.value ∧ o.state = sent.state := by
  obtain ⟨position, hindex, hdata⟩ := index_downloadText haddress hcount encoded rest
  have hscan := scan_downloadText haddress hcount build ctx hlength encoded rest
  generalize downloadText address count encoded ++ rest = data at hindex hdata hscan
  intro o sent
  let g' : Gdb := { g with arm := { g.arm with mem := g.arm.mem.store a bytes } }
  have hcountNat : (BitVec.ofNat 32 bytes.length).toNat = bytes.length := by
    rw [BitVec.toNat_ofNat, Nat.mod_eq_of_lt hlength]
  let loop : GdbM Bool :=
    if a.toNat < g.arm.mem.size then storeLoop data bytes.length (some (position + 1)) a
    else pure false
  have hloop : (loop g).value =
        .ok (decide (a.toNat < g.arm.mem.size ∧ a.toNat + bytes.length ≤ g.arm.mem.size)) ∧
      (loop g).state = g' := by
    by_cases hin : a.toNat < g.arm.mem.size
    · obtain ⟨hvalue, hstate⟩ := storeLoop_encodes hencoded hdata a g hsize
      have hfits : (bytes = [] ∨ a.toNat + bytes.length ≤ g.arm.mem.size) ↔
          a.toNat < g.arm.mem.size ∧ a.toNat + bytes.length ≤ g.arm.mem.size := by
        refine ⟨?_, fun h => Or.inr h.2⟩
        rintro (rfl | hfit)
        · exact ⟨hin, by rw [List.length_nil]; omega⟩
        · exact ⟨hin, hfit⟩
      simp only [loop, if_pos hin]
      exact ⟨hvalue.trans (congrArg Except.ok (decide_eq_decide.mpr hfits)), hstate⟩
    · simp only [loop, if_neg hin]
      refine ⟨congrArg Except.ok (decide_eq_false fun h => hin h.1).symm, ?_⟩
      show g = g'
      rw [show g' = { g with arm := { g.arm with mem := g.arm.mem } } from by
        simp only [g', store_outside hin]]
  have hbody : o.value = ((loop >>= fun stored =>
        if stored = true then gdbSendData (text ['O', 'K'])
        else gdbSendData (text ['E', '0', '2'])) g).value ∧
      o.state = ((loop >>= fun stored =>
        if stored = true then gdbSendData (text ['O', 'K'])
        else gdbSendData (text ['E', '0', '2'])) g).state := by
    have hread : (requestAt data 0 g).value = .ok data := rfl
    have hmem : (memoryGetSize g).value = .ok g.arm.mem.size := rfl
    simp only [o, writeMemoryBinary]
    rw [Halting.bind_apply_ok hread]
    simp only [hscan, hindex, Option.map_some, hcountNat]
    exact ⟨rfl, rfl⟩
  rw [hbody.1, hbody.2, Halting.bind_apply_ok hloop.1, hloop.2]
  simp only [decide_eq_true_eq, sent]
  split_ifs with hfits
  · exact ⟨rfl, rfl⟩
  · exact ⟨rfl, rfl⟩

end

/-- A download stores the bytes it encodes as far as the memory reaches, and changes
nothing else.  It is answered `OK` when they all lie inside, and `E02` otherwise. -/
theorem writeMemoryBinary_stores (build : Build) (ctx : Context)
    {address count encoded bytes : List (BitVec 8)} {a : BitVec 32}
    (haddress : Numeral address a.toNat) (hcount : Numeral count bytes.length)
    (hencoded : Encodes bytes encoded) (hlength : bytes.length < 2 ^ 32) (rest : List (BitVec 8))
    (g : Gdb) (hsize : g.arm.mem.size < 2 ^ 32) :
    let o := writeMemoryBinary build ctx (downloadText address count encoded ++ rest) g
    o.state.arm = { g.arm with mem := g.arm.mem.store a bytes } ∧
      (o.state.reply = frame (text ['O', 'K']) ↔
        a.toNat < g.arm.mem.size ∧ a.toNat + bytes.length ≤ g.arm.mem.size) ∧
      (¬(a.toNat < g.arm.mem.size ∧ a.toNat + bytes.length ≤ g.arm.mem.size) →
        o.state.reply = frame (text ['E', '0', '2'])) ∧
      (g.connected = true → o.value = .ok () ∧ lastReply o.trace = some o.state.reply) := by
  intro o
  obtain ⟨hvalue, hstate⟩ := writeMemoryBinary_answer haddress hcount build ctx hencoded hlength rest
    g hsize
  let g' : Gdb := { g with arm := { g.arm with mem := g.arm.mem.store a bytes } }
  let answer := if a.toNat < g.arm.mem.size ∧ a.toNat + bytes.length ≤ g.arm.mem.size then
    text ['O', 'K'] else text ['E', '0', '2']
  have hanswer : answer.length ≤ 1019 ∧ ∀ c ∈ answer, c ≠ 0 := by
    simp only [answer]
    split_ifs <;> decide
  obtain ⟨hreply, hreturns, -⟩ := gdbSendData_reply hanswer.1 hanswer.2 g'
  have harm : (gdbSendData answer g').state.arm = g'.arm := (gdbSendData_state answer g').1
  have hstored : o.state.reply = frame answer := (congrArg reply hstate).trans hreply
  refine ⟨(congrArg Gdb.arm hstate).trans harm, ?_, fun hfits => ?_, fun hopen => ?_⟩
  · rw [hstored]
    constructor
    · intro h
      by_contra hfits
      have hne := frame_injective h
      simp only [answer, if_neg hfits] at hne
      exact absurd hne (by decide)
    · intro hfits
      simp only [answer, if_pos hfits]
  · rw [hstored]
    simp only [answer, if_neg hfits]
  · have hok : o.value = .ok () := hvalue.trans (hreturns.mpr hopen)
    exact ⟨hok, sends_writeMemoryBinary build ctx _ g () hok⟩

/-- Of a dollar sign, which is escaped, and a colon the last byte of the memory takes the
first. -/
theorem writeMemoryBinary_stores_straddle :
    let data := downloadText (text ['3', 'f']) (text ['2']) [0x7d, 4, chr ':']
    let o := writeMemoryBinary quietBuild quietContext (data ++ [0]) dumpGdb
    o.state.arm.mem.m 63 = chr '$' ∧ o.state.arm.mem.m 0 = dumpGdb.arm.mem.m 0 ∧
      o.state.reply = frame (text ['E', '0', '2']) := by
  have haddress : Numeral (text ['3', 'f']) (63 : BitVec 32).toNat := ⟨by decide, by decide, rfl⟩
  have hcount : Numeral (text ['2']) [chr '$', chr ':'].length := ⟨by decide, by decide, rfl⟩
  have hencoded : Encodes [chr '$', chr ':'] [0x7d, 4, chr ':'] :=
    Encodes.escaped (chr '$') (Encodes.raw (by decide) Encodes.nil)
  obtain ⟨harm, -, hfails, -⟩ := writeMemoryBinary_stores quietBuild quietContext haddress hcount
    hencoded (by decide) [0] dumpGdb (by decide)
  intro data o
  refine ⟨?_, ?_, hfails (by decide)⟩
  · rw [harm]
    rfl
  · rw [harm]
    rfl

end Gdb

end ArmSimulator
