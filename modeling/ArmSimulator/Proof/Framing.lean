/-
Packets, from both ends.

`gdb_send_buffer` frames the string it finds in the packet array: a dollar sign, the
string, a hash and the sum of its characters in two digits.  The packet rule matches the
frame whole, and `gdb_packet_analysis` takes the string out again.  A packet whose
digits are not the sum of its characters is answered by a minus sign and nothing else.
-/
import ArmSimulator.Proof.Scanner

namespace ArmSimulator

namespace Gdb

/-! ## Strings in the packet array -/

/-- The array after `putChars`. -/
def overwrite (packet : Nat → BitVec 8) (i : Nat) (s : List (BitVec 8)) : Nat → BitVec 8 :=
  Bytes.writeAll packet ((List.range' i s.length).zip s)

/-- The array holds the string `s` and its NUL from index `i` on. -/
structure StringAt (packet : Nat → BitVec 8) (i : Nat) (s : List (BitVec 8)) : Prop where
  chars : (List.range' i s.length).map packet = s
  terminated : packet (i + s.length) = 0
  nonzero : ∀ c ∈ s, c ≠ 0

theorem overwrite_of_lt {packet : Nat → BitVec 8} {i j : Nat} {s : List (BitVec 8)}
    (h : j < i ∨ i + s.length ≤ j) : overwrite packet i s j = packet j := by
  apply Bytes.writeAll_of_not_mem
  rw [List.map_fst_zip (by simp), List.mem_range'_1]
  omega

theorem map_overwrite (packet : Nat → BitVec 8) (i : Nat) (s : List (BitVec 8)) :
    (List.range' i s.length).map (overwrite packet i s) = s :=
  Bytes.map_writeAll_zip packet List.nodup_range' (by simp)

theorem setPacket_apply {i : Nat} (h : i < maxPacketSize) (c : BitVec 8) (g : Gdb) :
    setPacket i c g =
      { value := .ok (), state := { g with packet := Function.update g.packet i c },
        trace := [] } := by
  rw [setPacket, if_pos h]

theorem putChars_apply {i : Nat} {s : List (BitVec 8)} (h : i + s.length ≤ maxPacketSize)
    (g : Gdb) :
    putChars i s g =
      { value := .ok (), state := { g with packet := overwrite g.packet i s }, trace := [] } := by
  induction s generalizing i g with
  | nil => rfl
  | cons c rest ih =>
    rw [List.length_cons] at h
    have hset := setPacket_apply (show i < maxPacketSize by omega) c g
    have hrest := ih (show i + 1 + rest.length ≤ maxPacketSize by omega)
      { g with packet := Function.update g.packet i c }
    rw [putChars, Halting.bind_apply_ok (by rw [hset]), hset, hrest]
    rfl

theorem putString_apply {i : Nat} {s : List (BitVec 8)} (h : i + s.length < maxPacketSize)
    (g : Gdb) :
    putString i s g =
      { value := .ok (), state := { g with packet := overwrite g.packet i (s ++ [0]) },
        trace := [] } :=
  putChars_apply (by rw [List.length_append, List.length_singleton]; omega) g

theorem StringAt.tail {packet : Nat → BitVec 8} {i : Nat} {c : BitVec 8} {s : List (BitVec 8)}
    (h : StringAt packet i (c :: s)) : packet i = c ∧ c ≠ 0 ∧ StringAt packet (i + 1) s := by
  have hchars := h.chars
  rw [List.length_cons, List.range'_succ, List.map_cons, List.cons.injEq] at hchars
  refine ⟨hchars.1, h.nonzero c List.mem_cons_self, hchars.2, ?_, fun d hd => ?_⟩
  · have := h.terminated
    rwa [List.length_cons, show i + (s.length + 1) = i + 1 + s.length by omega] at this
  · exact h.nonzero d (List.mem_cons_of_mem _ hd)

theorem StringAt.update_of_lt {packet : Nat → BitVec 8} {i j : Nat} {s : List (BitVec 8)}
    (h : StringAt packet i s) (hj : j < i) (c : BitVec 8) :
    StringAt (Function.update packet j c) i s := by
  refine ⟨Eq.trans (List.map_congr_left fun k hk => ?_) h.chars, ?_, h.nonzero⟩
  · rw [List.mem_range'_1] at hk
    exact Function.update_of_ne (by omega) _ _
  · rw [Function.update_of_ne (by omega), h.terminated]

/-- The array after texts are put side by side, each with a NUL that the next one
replaces. -/
def layTexts (packet : Nat → BitVec 8) : Nat → List (List (BitVec 8)) → (Nat → BitVec 8)
  | _, [] => packet
  | i, t :: rest => layTexts (overwrite packet i (t ++ [0])) (i + t.length) rest

theorem layTexts_of_lt {packet : Nat → BitVec 8} {i j : Nat} (h : j < i)
    (texts : List (List (BitVec 8))) : layTexts packet i texts j = packet j := by
  induction texts generalizing packet i with
  | nil => rfl
  | cons t rest ih =>
    rw [layTexts, ih (by omega)]
    exact overwrite_of_lt (Or.inl h)

/-- A text in the array and the NUL behind it. -/
theorem overwrite_text (packet : Nat → BitVec 8) (i : Nat) (t : List (BitVec 8)) :
    (List.range' i t.length).map (overwrite packet i (t ++ [0])) = t ∧
      overwrite packet i (t ++ [0]) (i + t.length) = 0 := by
  have hmap := map_overwrite packet i (t ++ [0])
  rw [List.length_append, List.length_singleton, ← List.range'_append_1, List.map_append] at hmap
  obtain ⟨htext, hnul⟩ := List.append_inj hmap (by simp)
  exact ⟨htext, by simpa using hnul⟩

theorem stringAt_layTexts {packet : Nat → BitVec 8} {i : Nat} {texts : List (List (BitVec 8))}
    (hnonzero : ∀ t ∈ texts, ∀ c ∈ t, c ≠ 0) (hend : texts = [] → packet i = 0) :
    StringAt (layTexts packet i texts) i texts.flatten := by
  refine ⟨?_, ?_, fun c hc => ?_⟩
  · induction texts generalizing packet i with
    | nil => rfl
    | cons t rest ih =>
      obtain ⟨htext, hnul⟩ := overwrite_text packet i t
      -- The texts behind it leave the first one as it is.
      have hsame : (List.range' i t.length).map (layTexts packet i (t :: rest)) = t := by
        refine Eq.trans (List.map_congr_left fun j hj => ?_) htext
        rw [List.mem_range'_1] at hj
        exact layTexts_of_lt hj.2 rest
      rw [List.flatten_cons, List.length_append, ← List.range'_append_1, List.map_append, hsame,
        layTexts, ih (fun t ht => hnonzero t (List.mem_cons_of_mem _ ht)) fun _ => hnul]
  · induction texts generalizing packet i with
    | nil => exact hend rfl
    | cons t rest ih =>
      obtain ⟨-, hnul⟩ := overwrite_text packet i t
      rw [List.flatten_cons, List.length_append, ← Nat.add_assoc, layTexts]
      exact ih (fun t ht => hnonzero t (List.mem_cons_of_mem _ ht)) fun _ => hnul
  · obtain ⟨t, ht, hct⟩ := List.mem_flatten.mp hc
    exact hnonzero t ht c hct

/-- The loop of `gdb_send_buffer` goes to the end of the string and sums it. -/
theorem checkLoop_of_string {n i : Nat} {s : List (BitVec 8)} {g : Gdb}
    (h : StringAt g.packet i s) (hi : i + s.length < maxPacketSize) (hn : s.length < n)
    (check : BitVec 8) :
    checkLoop n i check g =
      { value := .ok (i + s.length, s.foldl (· + ·) check), state := g, trace := [] } := by
  induction s generalizing n i check with
  | nil =>
    obtain ⟨n, rfl⟩ : ∃ m, n = m + 1 := ⟨n - 1, by simp at hn; omega⟩
    have hget : getPacket i g = { value := .ok 0, state := g, trace := [] } := by
      rw [getPacket, if_pos (by simpa using hi)]
      exact congrArg (fun c => Outcome.mk (Except.ok c) g []) h.terminated
    rw [checkLoop, Halting.bind_apply_ok (by rw [hget]), hget]
    rfl
  | cons c rest ih =>
    obtain ⟨n, rfl⟩ : ∃ m, n = m + 1 := ⟨n - 1, by simp at hn; omega⟩
    obtain ⟨hc, hnonzero, htail⟩ := h.tail
    rw [List.length_cons] at hi hn
    have hget : getPacket i g = { value := .ok c, state := g, trace := [] } := by
      rw [getPacket, if_pos (by omega), hc]
    rw [checkLoop, Halting.bind_apply_ok (by rw [hget]), hget]
    simp only [hnonzero, if_false]
    rw [ih htail (by omega) (by omega)]
    simp only [List.length_cons, List.foldl_cons, List.nil_append, Nat.add_assoc,
      Nat.add_comm 1]

/-! ## Frames -/

/-- The state in which `gdb_send_buffer` transmits, from where it found the NUL and the
sum it made. -/
def framed (g : Gdb) (j : Nat) (check : BitVec 8) : Gdb :=
  { g with
    packet := Function.update
      (overwrite (Function.update (Function.update g.packet 0 (chr '$')) j (chr '#')) (j + 1)
        (Hex.ofByte check ++ [0])) (j + 3) 0
    len := j + 3 }

theorem gdbSendBuffer_of_checkLoop {g : Gdb} {j : Nat} {check : BitVec 8}
    (hloop : checkLoop maxPacketSize 1 0 { g with packet := Function.update g.packet 0 (chr '$') } =
      { value := .ok (j, check),
        state := { g with packet := Function.update g.packet 0 (chr '$') }, trace := [] })
    (hj : j + 3 < maxPacketSize) :
    gdbSendBuffer g = gdbTransmitPacket (framed g j check) := by
  have hdollar := setPacket_apply (show 0 < maxPacketSize by decide) (chr '$') g
  have hhash := setPacket_apply (show j < maxPacketSize by omega) (chr '#')
    { g with packet := Function.update g.packet 0 (chr '$') }
  have hdigits : (Hex.ofByte check ++ [0]).length = 3 := rfl
  have hstring := putChars_apply (show j + 1 + (Hex.ofByte check ++ [0]).length ≤ maxPacketSize by
      rw [hdigits]; omega)
    { g with packet := Function.update (Function.update g.packet 0 (chr '$')) j (chr '#') }
  have hend := fun g => setPacket_apply hj 0 g
  rw [gdbSendBuffer, Halting.bind_apply_ok (by rw [hdollar]), hdollar,
    Halting.bind_apply_ok (by rw [hloop]), hloop]
  simp only [List.nil_append]
  rw [Halting.bind_apply_ok (by rw [hhash]), hhash, putString,
    Halting.bind_apply_ok (by rw [hstring]), hstring, Halting.bind_apply_ok (by rw [hend]), hend]
  rfl

theorem framed_of_le (g : Gdb) {j n : Nat} (hj : j ≤ n) (check : BitVec 8) :
    (framed g n check).packet j =
      Function.update (Function.update g.packet 0 (chr '$')) n (chr '#') j := by
  have hne : j ≠ n + 3 := by omega
  rw [framed]
  simp only
  rw [Function.update_of_ne hne, overwrite_of_lt (Or.inl (by omega))]

/-- The digits of the sum stand behind the hash. -/
theorem framed_digits (g : Gdb) (n : Nat) (check : BitVec 8) :
    (List.range' (n + 1) 2).map (framed g n check).packet = Hex.ofByte check := by
  have hmap := map_overwrite (Function.update (Function.update g.packet 0 (chr '$')) n (chr '#'))
    (n + 1) (Hex.ofByte check ++ [0])
  have hlast : ∀ j ∈ List.range' (n + 1) 2, (framed g n check).packet j =
      overwrite (Function.update (Function.update g.packet 0 (chr '$')) n (chr '#'))
        (n + 1) (Hex.ofByte check ++ [0]) j := by
    intro j hj
    rw [List.mem_range'_1] at hj
    exact Function.update_of_ne (by omega) _ _
  have hthree : List.range' (n + 1) (Hex.ofByte check ++ [0]).length =
      List.range' (n + 1) 2 ++ [n + 3] := rfl
  rw [hthree, List.map_append] at hmap
  rw [List.map_congr_left hlast]
  exact (List.append_inj' hmap rfl).1

theorem reply_framed (g : Gdb) {n : Nat} (check : BitVec 8) :
    (framed g (n + 1) check).reply =
      chr '$' :: ((List.range' 1 n).map g.packet ++ chr '#' :: Hex.ofByte check) := by
  have hrange : List.range (n + 4) =
      0 :: (List.range' 1 n ++ (n + 1) :: List.range' (n + 2) 2) := by
    rw [List.range_eq_range', List.range'_succ, Nat.zero_add, ← List.range'_append_1,
      Nat.add_comm 1 n]
    rfl
  have hpayload : (List.range' 1 n).map (framed g (n + 1) check).packet =
      (List.range' 1 n).map g.packet := by
    apply List.map_congr_left
    intro j hj
    rw [List.mem_range'_1] at hj
    rw [framed_of_le g (by omega), Function.update_of_ne (by omega),
      Function.update_of_ne (by omega)]
  have hlen : (framed g (n + 1) check).len = n + 4 := rfl
  rw [reply, hlen, hrange, List.map_cons, List.map_append, List.map_cons, framed_digits, hpayload,
    framed_of_le g (by omega), framed_of_le g (Nat.le_refl _), Function.update_self,
    Function.update_of_ne (by omega), Function.update_self]

/-- The packet of a string. -/
def frame (s : List (BitVec 8)) : List (BitVec 8) :=
  chr '$' :: (s ++ chr '#' :: Hex.ofByte (s.foldl (· + ·) 0))

theorem frame_injective : Function.Injective frame := by
  intro s t h
  rw [frame, frame, List.cons.injEq] at h
  exact (List.append_inj' h.2 rfl).1

theorem rioWriten_state (bytes : List (BitVec 8)) (g : Gdb) : (rioWriten bytes g).state = g := by
  rw [rioWriten]
  split_ifs <;> rfl

/-- `gdb_send_buffer` frames the string of the array. -/
theorem gdbSendBuffer_of_string {g : Gdb} {s : List (BitVec 8)} (h : StringAt g.packet 1 s)
    (hlength : s.length ≤ 1019) :
    gdbSendBuffer g = gdbTransmitPacket (framed g (s.length + 1) (s.foldl (· + ·) 0)) ∧
      (framed g (s.length + 1) (s.foldl (· + ·) 0)).reply = frame s := by
  have hstring := h.update_of_lt (show 0 < 1 by decide) (chr '$')
  have hloop := checkLoop_of_string (g := { g with packet := Function.update g.packet 0 (chr '$') })
    hstring (show 1 + s.length < maxPacketSize by unfold maxPacketSize; omega)
    (show s.length < maxPacketSize by unfold maxPacketSize; omega) 0
  rw [Nat.add_comm 1] at hloop
  refine ⟨gdbSendBuffer_of_checkLoop hloop (by unfold maxPacketSize; omega), ?_⟩
  rw [reply_framed, h.chars, frame]

/-- The reply is stored whether or not it can be written. -/
theorem gdbSendBuffer_reply {g : Gdb} {s : List (BitVec 8)} (h : StringAt g.packet 1 s)
    (hlength : s.length ≤ 1019) : (gdbSendBuffer g).state.reply = frame s := by
  obtain ⟨hsend, hreply⟩ := gdbSendBuffer_of_string h hlength
  rw [hsend, gdbTransmitPacket, rioWriten_state, hreply]

/-! ## The analysis of a packet -/

/-- The two digits are the sum of the payload modulo 256. -/
def ChecksumOk (k : Packet) : Prop :=
  Hex.number [k.high, k.low] = (k.payload.map BitVec.toNat).sum % 256

instance (k : Packet) : Decidable (ChecksumOk k) := inferInstanceAs (Decidable (_ = _))

theorem toNat_foldl_add (s : List (BitVec 8)) (c : BitVec 8) :
    (s.foldl (· + ·) c).toNat = (c.toNat + (s.map BitVec.toNat).sum) % 256 := by
  induction s generalizing c with
  | nil =>
    have hc := c.isLt
    simp only [List.foldl_nil, List.map_nil, List.sum_nil]
    omega
  | cons d rest ih =>
    rw [List.foldl_cons, ih, BitVec.toNat_add, List.map_cons, List.sum_cons]
    omega

/-- The bytes from `packet + 1` on when the handler table is looked up. -/
def requestText (ctx : Context) (k : Packet) : List (BitVec 8) :=
  k.payload ++ 0 :: k.high :: k.low :: 0 :: ctx.beyond

theorem scan_given (build : Build) (ctx : Context) (k : Packet) :
    CString.scanHexAll build.bareBase (k.high :: k.low :: 0 :: ctx.beyond) =
      some (BitVec.ofNat 32 (Hex.number [k.high, k.low]), 0 :: ctx.beyond) := by
  obtain ⟨m, hm⟩ := Hex.isDigit_iff.mp k.high_digit
  obtain ⟨n, hn⟩ := Hex.isDigit_iff.mp k.low_digit
  have hend : ∀ w, ((0 :: ctx.beyond).take w).takeWhile Hex.isDigit = [] := by
    intro w
    cases w with
    | zero => rfl
    | succ w => rfl
  rw [Hex.number_pair hm hn]
  exact CString.scanHex_pair build.bareBase (by simp) hm hn (hend _)

theorem gdbPacketAnalysis_text (build : Build) (ctx : Context) (k : Packet) :
    gdbPacketAnalysis build ctx k.text =
      if ChecksumOk k then do
        gdbSendAck
        noteRequest (requestText ctx k)
        answer build ctx (requestText ctx k)
      else gdbRequireRetransmission := by
  have hlength : k.text.length - 3 = k.payload.length + 1 := by
    simp [Packet.text]
  have hpayload : (k.text.drop 1).take k.payload.length = k.payload := by
    simp [Packet.text]
  have hgiven : k.text.drop (k.payload.length + 1 + 1) = [k.high, k.low] := by
    simp [Packet.text, List.drop_append]
  have hset : (k.text.set (k.payload.length + 1) 0).drop 1 = k.payload ++ [0, k.high, k.low] := by
    simp [Packet.text]
  have hmax : max 1 (k.payload.length + 1) = k.payload.length + 1 := by omega
  have hcheck : (k.payload.foldl (· + ·) 0).setWidth 32 =
      BitVec.ofNat 32 (Hex.number [k.high, k.low]) ↔ ChecksumOk k := by
    obtain ⟨m, hm⟩ := Hex.isDigit_iff.mp k.high_digit
    obtain ⟨n, hn⟩ := Hex.isDigit_iff.mp k.low_digit
    have hm' := Hex.value_lt hm
    have hn' := Hex.value_lt hn
    have hsum := toNat_foldl_add k.payload 0
    have hzero : (0 : BitVec 8).toNat = 0 := rfl
    rw [← BitVec.toNat_inj, BitVec.toNat_setWidth, BitVec.toNat_ofNat, ChecksumOk,
      Hex.number_pair hm hn, hsum, hzero, Nat.zero_add]
    omega
  simp only [gdbPacketAnalysis, hlength, hmax, Nat.add_sub_cancel, hpayload, hgiven, hset,
    List.append_assoc, List.cons_append, List.nil_append, scan_given, hcheck, requestText]

theorem rioWriten_apply {bytes : List (BitVec 8)} (hne : bytes ≠ []) {g : Gdb}
    (hopen : g.connected = true) :
    rioWriten bytes g = { value := .ok (), state := g, trace := [.write bytes] } := by
  rw [rioWriten, if_neg hne, if_pos hopen]

theorem rioWriten_closed {bytes : List (BitVec 8)} (hne : bytes ≠ []) {g : Gdb}
    (hclosed : g.connected = false) :
    rioWriten bytes g = { value := .error .exit, state := g, trace := [] } := by
  rw [rioWriten, if_neg hne, if_neg (by rw [hclosed]; decide)]

/-- What `gdb_send_buffer` writes while the connection is open. -/
theorem gdbSendBuffer_written {g : Gdb} {s : List (BitVec 8)} (h : StringAt g.packet 1 s)
    (hlength : s.length ≤ 1019) (hopen : g.connected = true) :
    gdbSendBuffer g =
      { value := .ok (), state := framed g (s.length + 1) (s.foldl (· + ·) 0),
        trace := [.write (frame s)] } := by
  obtain ⟨hsend, hreply⟩ := gdbSendBuffer_of_string h hlength
  rw [hsend, gdbTransmitPacket, hreply]
  exact rioWriten_apply (List.cons_ne_nil _ _) hopen

section

variable (build : Build) (ctx : Context) {k : Packet} {g : Gdb} (hopen : g.connected = true)
include hopen

theorem gdbPacketAnalysis_rejected (h : ¬ChecksumOk k) :
    gdbPacketAnalysis build ctx k.text g =
      { value := .ok (), state := g, trace := [.write (text ['-'])] } := by
  rw [gdbPacketAnalysis_text, if_neg h]
  exact rioWriten_apply (by decide) hopen

theorem gdbPacketAnalysis_accepted (h : ChecksumOk k) :
    gdbPacketAnalysis build ctx k.text g =
      { value := (answer build ctx (requestText ctx k) g).value
        state := (answer build ctx (requestText ctx k) g).state
        trace := .write (text ['+']) :: .request (requestText ctx k) ::
          (answer build ctx (requestText ctx k) g).trace } := by
  have hack : gdbSendAck g = { value := .ok (), state := g, trace := [.write (text ['+'])] } :=
    rioWriten_apply (by decide) hopen
  have hnote : noteRequest (requestText ctx k) g =
      { value := .ok (), state := g, trace := [.request (requestText ctx k)] } := rfl
  rw [gdbPacketAnalysis_text, if_pos h, Halting.bind_apply_ok (by rw [hack]), hack,
    Halting.bind_apply_ok (by rw [hnote]), hnote]
  rfl

end

/-- Nothing can be answered on a connection that is shut down. -/
theorem gdbPacketAnalysis_closed (build : Build) (ctx : Context) (k : Packet) {g : Gdb}
    (hclosed : g.connected = false) :
    gdbPacketAnalysis build ctx k.text g = { value := .error .exit, state := g, trace := [] } := by
  have hack := rioWriten_closed (show text ['+'] ≠ [] by decide) hclosed
  rw [gdbPacketAnalysis_text]
  by_cases hsum : ChecksumOk k
  · rw [if_pos hsum, gdbSendAck, Halting.bind_apply_error (by rw [hack]), hack]
  · rw [if_neg hsum, gdbRequireRetransmission, rioWriten_closed (by decide) hclosed]

/-- `gdb_send_data` stores the frame of its text, and returns when it can be written. -/
theorem gdbSendData_reply {s : List (BitVec 8)} (hlength : s.length ≤ 1019)
    (hnonzero : ∀ c ∈ s, c ≠ 0) (g : Gdb) :
    (gdbSendData s g).state.reply = frame s ∧
      ((gdbSendData s g).value = .ok () ↔ g.connected = true) ∧
      (g.connected = true → (gdbSendData s g).trace = [.write (frame s)]) := by
  let g' : Gdb := { g with packet := overwrite g.packet 1 (s ++ [0]) }
  have hput : putString 1 s g = { value := .ok (), state := g', trace := [] } :=
    putString_apply (show 1 + s.length < maxPacketSize by unfold maxPacketSize; omega) g
  obtain ⟨hchars, hnul⟩ := overwrite_text g.packet 1 s
  have hstring : StringAt g'.packet 1 s := ⟨hchars, hnul, hnonzero⟩
  have hsend : gdbSendData s g = gdbSendBuffer g' := by
    rw [gdbSendData, Halting.bind_apply_ok (by rw [hput]), hput]
    rfl
  rw [hsend]
  refine ⟨gdbSendBuffer_reply hstring hlength, ?_, fun hopen => ?_⟩
  · cases hopen : g.connected with
    | true =>
      rw [gdbSendBuffer_written hstring hlength hopen]
      exact iff_of_true rfl rfl
    | false =>
      obtain ⟨htransmit, hreply⟩ := gdbSendBuffer_of_string hstring hlength
      have hclosed : (framed g' (s.length + 1) (s.foldl (· + ·) 0)).connected = false := hopen
      have hne : frame s ≠ [] := List.cons_ne_nil _ _
      rw [htransmit, gdbTransmitPacket, hreply, rioWriten_closed hne hclosed]
      exact iff_of_false (by simp) (by decide)
  · rw [gdbSendBuffer_written hstring hlength hopen]

theorem stopReason_plain (targetException : BitVec 32) :
    (stopReason targetException).length ≤ 1019 ∧ ∀ c ∈ stopReason targetException, c ≠ 0 := by
  unfold stopReason
  split_ifs <;> decide

/-! ## Round trip -/

/-- The packet of a string that holds no framing character. -/
def packetOfString (s : List (BitVec 8)) (h : ∀ c ∈ s, c ≠ 0 ∧ c ≠ chr '$' ∧ c ≠ chr '#') :
    Packet where
  payload := s
  high := Hex.digit ((s.foldl (· + ·) 0).toNat / 16)
  low := Hex.digit ((s.foldl (· + ·) 0).toNat % 16)
  payload_plain c hc := (h c hc).2
  high_digit := Hex.isDigit_digit (by have := (s.foldl (· + ·) (0 : BitVec 8)).isLt; omega)
  low_digit := Hex.isDigit_digit (Nat.mod_lt _ (by decide))

theorem isDigit_plain {c : BitVec 8} (h : Hex.isDigit c = true) :
    c ≠ 0 ∧ c ≠ chr '$' ∧ c ≠ chr '#' := by
  revert c
  decide

theorem checksumOk_packetOfString (s : List (BitVec 8))
    (h : ∀ c ∈ s, c ≠ 0 ∧ c ≠ chr '$' ∧ c ≠ chr '#') : ChecksumOk (packetOfString s h) := by
  have hzero : (0 : BitVec 8).toNat = 0 := rfl
  have hsum := toNat_foldl_add s 0
  rw [hzero, Nat.zero_add] at hsum
  rw [ChecksumOk, packetOfString, ← hsum]
  exact Hex.number_ofByte _

theorem contents_requestText (ctx : Context) {k : Packet} (h : ∀ c ∈ k.payload, c ≠ 0) :
    CString.contents (requestText ctx k) = k.payload := by
  rw [CString.contents, requestText, List.takeWhile_append_of_pos (by simpa using h),
    List.takeWhile_cons_of_neg (by decide), List.append_nil]

/-- The frame of a string is matched whole and its analysis sees the string, and a
packet gets to the handlers exactly when its digits are the sum of its payload.  On a
connection that is shut down the process ends in the first write. -/
theorem framing_round_trip (build : Build) (ctx : Context) {g : Gdb} (hopen : g.connected = true) :
    (∀ s : List (BitVec 8), s.length ≤ 1019 → (∀ c ∈ s, c ≠ 0 ∧ c ≠ chr '$' ∧ c ≠ chr '#') →
      StringAt g.packet 1 s →
        ∃ k : Packet, k.payload = s ∧ scan k.text = [.packet k] ∧
          (gdbSendBuffer g).value = .ok () ∧ (gdbSendBuffer g).trace = [.write k.text] ∧
          ∀ peer : Gdb, peer.connected = true →
            ∃ t rest, CString.contents t = s ∧
              (gdbPacketAnalysis build ctx k.text peer).trace =
                .write (text ['+']) :: .request t :: rest) ∧
      ∀ k : Packet,
        ((∃ t, .request t ∈ (gdbPacketAnalysis build ctx k.text g).trace) ↔
          Hex.number [k.high, k.low] = (k.payload.map BitVec.toNat).sum % 256) ∧
        (Hex.number [k.high, k.low] = (k.payload.map BitVec.toNat).sum % 256 →
          (gdbPacketAnalysis build ctx k.text g).state =
              (answer build ctx (requestText ctx k) g).state ∧
            (gdbPacketAnalysis build ctx k.text g).trace =
              .write (text ['+']) :: .request (requestText ctx k) ::
                (answer build ctx (requestText ctx k) g).trace) ∧
        (Hex.number [k.high, k.low] ≠ (k.payload.map BitVec.toNat).sum % 256 →
          (gdbPacketAnalysis build ctx k.text g).state = g ∧
            (gdbPacketAnalysis build ctx k.text g).trace = [.write (text ['-'])]) ∧
        ∀ closed : Gdb, closed.connected = false →
          gdbPacketAnalysis build ctx k.text closed =
            { value := .error .exit, state := closed, trace := [] } := by
  refine ⟨?_, ?_⟩
  · intro s hlength hplain hstring
    have htext : (packetOfString s hplain).text = frame s := rfl
    have htransmit := gdbSendBuffer_written hstring hlength hopen
    refine ⟨packetOfString s hplain, rfl, scan_text _, by rw [htransmit], by rw [htransmit, htext],
      fun peer hpeer => ?_⟩
    have haccepted :=
      gdbPacketAnalysis_accepted build ctx hpeer (checksumOk_packetOfString s hplain)
    exact ⟨_, _, contents_requestText ctx fun c hc => (hplain c hc).1,
      congrArg Outcome.trace haccepted⟩
  · intro k
    refine ⟨?_, ?_, ?_, fun closed => gdbPacketAnalysis_closed build ctx k⟩
    · constructor
      · rintro ⟨t, ht⟩
        by_contra h
        rw [gdbPacketAnalysis_rejected build ctx hopen h] at ht
        simp at ht
      · intro h
        refine ⟨requestText ctx k, ?_⟩
        rw [gdbPacketAnalysis_accepted build ctx hopen h]
        exact List.mem_cons_of_mem _ List.mem_cons_self
    · intro h
      rw [gdbPacketAnalysis_accepted build ctx hopen h]
      exact ⟨rfl, rfl⟩
    · intro h
      rw [gdbPacketAnalysis_rejected build ctx hopen h]
      exact ⟨rfl, rfl⟩

/-- A server about to send `OK`. -/
def okGdb : Gdb :=
  gdbInitData { cycleCount := 0, reg := fun _ => 0, mem := memoryOfWords true 0 [] } fun i =>
    (text ['x', 'O', 'K']).getD i 0

theorem framing_round_trip_ok :
    okGdb.connected = true ∧ StringAt okGdb.packet 1 (text ['O', 'K']) ∧
      ∃ k : Packet, k.payload = text ['O', 'K'] ∧
        (gdbSendBuffer okGdb).trace = [.write k.text] := by
  have hstring : StringAt okGdb.packet 1 (text ['O', 'K']) := ⟨by decide, by decide, by decide⟩
  have hround := (framing_round_trip ⟨.modular false, true, false⟩
    ⟨0, 0, 0, 0, 0, 0, fun _ => 0, [], []⟩ (g := okGdb) rfl).1 _ (by decide) (by decide) hstring
  obtain ⟨k, hpayload, -, -, htrace, -⟩ := hround
  exact ⟨rfl, hstring, k, hpayload, htrace⟩

/-- After a kill request the acknowledgement cannot be written: the process ends before a
packet with the right sum gets to its handler. -/
theorem killed_packet_not_handled :
    let build : Build := ⟨.modular false, true, false⟩
    let ctx : Context := ⟨0, 0, 0, 0, 0, 0, fun _ => 0, [], []⟩
    let kill := packetOfString (text ['k']) (by decide)
    let k := packetOfString (text ['?']) (by decide)
    let killed := (gdbPacketAnalysis build ctx kill.text okGdb).state
    Hex.number [k.high, k.low] = (k.payload.map BitVec.toNat).sum % 256 ∧
      ∀ t, .request t ∉ (gdbPacketAnalysis build ctx k.text killed).trace := by
  intro build ctx kill k killed
  have hclosed : killed.connected = false := by decide +kernel
  refine ⟨checksumOk_packetOfString _ _, ?_⟩
  rw [gdbPacketAnalysis_closed build ctx k hclosed]
  exact fun _ => List.not_mem_nil

end Gdb

end ArmSimulator
