/-
The memory module refines an array of bytes.

A call that is accepted touches the bytes from its address on, as many as it is
wide, and a call that is rejected touches none.  A sequence of calls therefore
leaves what the log of its accepted writes leaves, whatever their widths and
however they overlap, and a read composes the last bytes written in the byte order
of the memory.
-/
import ArmSimulator.Base.Bytes
import ArmSimulator.Model.Bytewise

namespace ArmSimulator

/-- The indices of the `width` bytes from `a` on. -/
def span (a : BitVec 32) (width : Nat) : List (BitVec 32) :=
  (List.range width).map fun k => a + BitVec.ofNat 32 k

def Inside (size : Nat) (a : BitVec 32) (width : Nat) : Prop := ∀ i ∈ span a width, i.toNat < size

instance (size : Nat) (a : BitVec 32) (width : Nat) : Decidable (Inside size a width) :=
  List.decidableBAll _ _

/-! ## Bytes of words -/

theorem byte_eq (v : BitVec 32) (k : Nat) :
    Word.byte v k = BitVec.ofNat 8 (v.toNat / 256 ^ k) := by
  apply BitVec.eq_of_toNat_eq
  rw [Word.byte, BitVec.toNat_setWidth, BitVec.toNat_ushiftRight, BitVec.toNat_ofNat,
    Nat.shiftRight_eq_div_pow, Nat.pow_mul]

theorem ofBytes_eq (b3 b2 b1 b0 : BitVec 8) :
    Word.ofBytes b3 b2 b1 b0 = BitVec.ofNat 32 (Bytes.number false [b0, b1, b2, b3]) := by
  apply BitVec.eq_of_toNat_eq
  have h := (Word.ofBytes b3 b2 b1 b0).isLt
  rw [Word.toNat_ofBytes] at h ⊢
  rw [BitVec.toNat_ofNat]
  simp only [Bytes.number, Bytes.order, Bool.false_eq_true, if_false, List.map_cons, List.map_nil,
    Nat.ofDigits_cons, Nat.ofDigits_nil]
  omega

theorem ofHalves_eq (b1 b0 : BitVec 8) :
    b1.setWidth 16 <<< 8 ||| b0.setWidth 16 = BitVec.ofNat 16 (Bytes.number false [b0, b1]) := by
  have h0 := b0.isLt
  have e0 : (b0.setWidth 16).toNat = b0.toNat := by
    rw [BitVec.toNat_setWidth]
    omega
  apply BitVec.eq_of_toNat_eq
  rw [Word.toNat_shiftLeft_or (by decide) (by omega), e0, BitVec.toNat_ofNat]
  simp only [Bytes.number, Bytes.order, Bool.false_eq_true, if_false, List.map_cons, List.map_nil,
    Nat.ofDigits_cons, Nat.ofDigits_nil]
  have h1 := b1.isLt
  omega

/-! ## One call -/

/-- Where the memory module accepts an access of `width` bytes: a read anywhere inside
the memory, a write only at a multiple of its width. -/
def Accepted (mem : Memory) (isLoad : Bool) (width : Nat) (a : BitVec 32) : Prop :=
  a.toNat < mem.size ∧ (isLoad = false → a.toNat % width = 0)

instance (mem : Memory) (isLoad : Bool) (width : Nat) (a : BitVec 32) :
    Decidable (Accepted mem isLoad width a) :=
  inferInstanceAs (Decidable (_ ∧ _))

/-- The bytes a write stores, each at its index, in the given byte order. -/
def MemoryCall.bytes (big : Bool) : MemoryCall → List (BitVec 32 × BitVec 8)
  | writeByte a v => (span a 1).zip (Bytes.split big 1 v.toNat)
  | writeHalf a v => (span a 2).zip (Bytes.split big 2 v.toNat)
  | writeWord a v => (span a 4).zip (Bytes.split big 4 v.toNat)
  | _ => []

/-- A read of `width` bytes, as a whole. -/
def readOutcome {w : Nat} (width : Nat) (a : BitVec 32) (mem : Memory) :
    Outcome (BitVec 32) Memory (Except (BitVec 32) (BitVec w)) :=
  if mem.size ≤ a.toNat then { value := .error dataAbort, state := mem, trace := [] }
  else
    { value := .ok (BitVec.ofNat w (Bytes.number mem.isBigEndian ((span a width).map mem.m))),
      state := mem, trace := span a width }

theorem memoryReadByte_outcome (a : BitVec 32) (mem : Memory) :
    Bytewise.memoryReadByte a mem = readOutcome 1 a mem := by
  unfold Bytewise.memoryReadByte Bytewise.isNotValidAddress isNotValidAddress readOutcome
  by_cases h : mem.size ≤ a.toNat
  · simp [bind, h]
  · cases hb : mem.isBigEndian <;>
      simp [bind, h, Bytewise.load, span, Bytes.number, Bytes.order]

theorem span_two (a : BitVec 32) : span a 2 = [a, a + 1] := by
  simp [span, List.range_succ]

theorem span_four (a : BitVec 32) : span a 4 = [a, a + 1, a + 2, a + 3] := by
  simp [span, List.range_succ]

theorem memoryReadHalf_outcome (a : BitVec 32) (mem : Memory) :
    Bytewise.memoryReadHalf a mem = readOutcome 2 a mem := by
  unfold Bytewise.memoryReadHalf Bytewise.isNotValidAddress isNotValidAddress readOutcome
  by_cases h : mem.size ≤ a.toNat
  · simp [bind, h]
  · cases hb : mem.isBigEndian <;>
      simp [bind, h, hb, Bytewise.load, Bytewise.isBigEndian, span_two, Bytes.number_true,
        ofHalves_eq]

theorem memoryReadWord_outcome (a : BitVec 32) (mem : Memory) :
    Bytewise.memoryReadWord a mem = readOutcome 4 a mem := by
  unfold Bytewise.memoryReadWord Bytewise.isNotValidAddress isNotValidAddress readOutcome
  by_cases h : mem.size ≤ a.toNat
  · simp [bind, h]
  · cases hb : mem.isBigEndian <;>
      simp [bind, h, hb, Bytewise.load, Bytewise.isBigEndian, span_four, Bytes.number_true,
        ofBytes_eq]

/-- What a call does: one that is accepted stores its bytes and touches every index
from its address on, one that is not does nothing. -/
def MemoryCall.outcome (c : MemoryCall) (mem : Memory) : Outcome (BitVec 32) Memory (BitVec 32) :=
  if Accepted mem c.isRead c.width c.address then
    { value := 0,
      state := { mem with m := Bytes.writeAll mem.m (c.bytes mem.isBigEndian) },
      trace := span c.address c.width }
  else { value := dataAbort, state := mem, trace := [] }

theorem resultCode_readOutcome {w : Nat} {width : Nat} {a : BitVec 32} {mem : Memory}
    {m : Bytewise (Except (BitVec 32) (BitVec w))} (h : m mem = readOutcome width a mem)
    {c : MemoryCall} (hbytes : ∀ big, c.bytes big = []) (hread : c.isRead = true)
    (hwidth : c.width = width) (ha : c.address = a) :
    (do pure (resultCode (← m)) : Bytewise (BitVec 32)) mem = c.outcome mem := by
  simp only [bind, pure, h, readOutcome, MemoryCall.outcome, Accepted, hread, hwidth, ha, hbytes]
  by_cases hsize : mem.size ≤ a.toNat
  · simp [hsize, Nat.not_lt.mpr hsize, resultCode]
  · simp [hsize, Nat.lt_of_not_le hsize, resultCode, Bytes.writeAll]

theorem split_byte (big : Bool) (v : BitVec 8) : Bytes.split big 1 v.toNat = [v] := by
  cases big <;> simp [Bytes.split, Bytes.order, Bytes.lowBytes]

theorem split_half (v : BitVec 16) :
    Bytes.lowBytes 2 v.toNat = [v.setWidth 8, (v >>> 8).setWidth 8] := by
  have h1 : BitVec.ofNat 8 (v.toNat / 256) = (v >>> 8).setWidth 8 := by
    apply BitVec.eq_of_toNat_eq
    simp [Nat.shiftRight_eq_div_pow]
  have h0 : BitVec.ofNat 8 v.toNat = v.setWidth 8 := by
    apply BitVec.eq_of_toNat_eq
    simp
  rw [Bytes.lowBytes, Bytes.lowBytes, Bytes.lowBytes, h0, h1]

theorem split_word (v : BitVec 32) :
    Bytes.lowBytes 4 v.toNat = [Word.byte v 0, Word.byte v 1, Word.byte v 2, Word.byte v 3] := by
  simp [Bytes.lowBytes, byte_eq, Nat.div_div_eq_div_mul]

theorem memoryWriteByte_outcome (a : BitVec 32) (v : BitVec 8) (mem : Memory) :
    Bytewise.memoryWriteByte a v mem = (MemoryCall.writeByte a v).outcome mem := by
  unfold Bytewise.memoryWriteByte Bytewise.isNotValidAddress isNotValidAddress
    MemoryCall.outcome Accepted
  by_cases h : mem.size ≤ a.toNat
  · simp [bind, h, Nat.not_lt.mpr h, MemoryCall.address]
  · simp [bind, h, Nat.lt_of_not_le h, MemoryCall.address, MemoryCall.width, MemoryCall.isRead,
      MemoryCall.bytes, Bytewise.store, split_byte, span, Bytes.writeAll, Nat.mod_one]

theorem memoryWriteHalf_outcome (a : BitVec 32) (v : BitVec 16) (mem : Memory) :
    Bytewise.memoryWriteHalf a v mem = (MemoryCall.writeHalf a v).outcome mem := by
  unfold Bytewise.memoryWriteHalf Bytewise.isNotValidAddress isNotValidAddress
    MemoryCall.outcome Accepted
  by_cases h : mem.size ≤ a.toNat
  · simp [bind, h, Nat.not_lt.mpr h, MemoryCall.address]
  · by_cases halign : a.toNat % 2 = 0
    · cases hb : mem.isBigEndian <;>
        simp [bind, h, hb, halign, Nat.lt_of_not_le h, MemoryCall.address, MemoryCall.width,
          MemoryCall.isRead, MemoryCall.bytes, Bytewise.store, Bytewise.isBigEndian, Bytes.split,
          Bytes.order, split_half, span_two, Bytes.writeAll]
    · simp [bind, h, halign, MemoryCall.address, MemoryCall.width, MemoryCall.isRead]

theorem memoryWriteWord_outcome (a v : BitVec 32) (mem : Memory) :
    Bytewise.memoryWriteWord a v mem = (MemoryCall.writeWord a v).outcome mem := by
  unfold Bytewise.memoryWriteWord Bytewise.isNotValidAddress isNotValidAddress
    MemoryCall.outcome Accepted
  by_cases h : mem.size ≤ a.toNat
  · simp [bind, h, Nat.not_lt.mpr h, MemoryCall.address]
  · by_cases halign : a.toNat % 4 = 0
    · cases hb : mem.isBigEndian <;>
        simp [bind, h, hb, halign, Nat.lt_of_not_le h, MemoryCall.address, MemoryCall.width,
          MemoryCall.isRead, MemoryCall.bytes, Bytewise.store, Bytewise.isBigEndian, Bytes.split,
          Bytes.order, split_word, span_four, Bytes.writeAll]
    · simp [bind, h, halign, MemoryCall.address, MemoryCall.width, MemoryCall.isRead]

theorem MemoryCall.run_eq (c : MemoryCall) (mem : Memory) : c.run mem = c.outcome mem := by
  cases c with
  | readByte a =>
    exact resultCode_readOutcome (memoryReadByte_outcome a mem) (fun _ => rfl) rfl rfl rfl
  | readHalf a =>
    exact resultCode_readOutcome (memoryReadHalf_outcome a mem) (fun _ => rfl) rfl rfl rfl
  | readWord a =>
    exact resultCode_readOutcome (memoryReadWord_outcome a mem) (fun _ => rfl) rfl rfl rfl
  | writeByte a v => exact memoryWriteByte_outcome a v mem
  | writeHalf a v => exact memoryWriteHalf_outcome a v mem
  | writeWord a v => exact memoryWriteWord_outcome a v mem

/-- The code of an access of `width` bytes. -/
def accessResult (mem : Memory) (isLoad : Bool) (width : Nat) (a : BitVec 32) : BitVec 32 :=
  if Accepted mem isLoad width a then 0 else dataAbort

theorem accessResult_eq_zero {mem : Memory} {isLoad : Bool} {width : Nat} {a : BitVec 32} :
    accessResult mem isLoad width a = 0 ↔ Accepted mem isLoad width a := by
  unfold accessResult
  split
  · simp [*]
  · simp only [*, iff_false]
    decide

theorem MemoryCall.run_value (c : MemoryCall) (mem : Memory) :
    (c.run mem).value = accessResult mem c.isRead c.width c.address := by
  rw [c.run_eq, MemoryCall.outcome, accessResult]
  split
  · rfl
  · rfl

section

variable (mem : Memory) (a : BitVec 32)

theorem resultCode_readByte : resultCode (memoryReadByte mem a) = accessResult mem true 1 a := by
  rw [← Bytewise.memoryReadByte_value]
  exact (MemoryCall.readByte a).run_value mem

theorem resultCode_readHalf : resultCode (memoryReadHalf mem a) = accessResult mem true 2 a := by
  rw [← Bytewise.memoryReadHalf_value]
  exact (MemoryCall.readHalf a).run_value mem

theorem resultCode_readWord : resultCode (memoryReadWord mem a) = accessResult mem true 4 a := by
  rw [← Bytewise.memoryReadWord_value]
  exact (MemoryCall.readWord a).run_value mem

theorem resultCode_writeByte (v : BitVec 8) :
    resultCode (memoryWriteByte mem a v) = accessResult mem false 1 a := by
  rw [← (Bytewise.memoryWriteByte_value mem a v).1]
  exact (MemoryCall.writeByte a v).run_value mem

theorem resultCode_writeHalf (v : BitVec 16) :
    resultCode (memoryWriteHalf mem a v) = accessResult mem false 2 a := by
  rw [← (Bytewise.memoryWriteHalf_value mem a v).1]
  exact (MemoryCall.writeHalf a v).run_value mem

theorem resultCode_writeWord (v : BitVec 32) :
    resultCode (memoryWriteWord mem a v) = accessResult mem false 4 a := by
  rw [← (Bytewise.memoryWriteWord_value mem a v).1]
  exact (MemoryCall.writeWord a v).run_value mem

end

/-! ## Sequences of calls -/

/-- The memory after a sequence of calls. -/
def afterCalls (mem : Memory) (calls : List MemoryCall) : Memory :=
  calls.foldl (fun mem c => (c.run mem).state) mem

/-- The bytes of the writes that returned 0, in the order of the calls. -/
def written (mem : Memory) : List MemoryCall → List (BitVec 32 × BitVec 8)
  | [] => []
  | c :: rest =>
    (if (c.run mem).value = 0 then c.bytes mem.isBigEndian else []) ++
      written (c.run mem).state rest

/-- The byte array a sequence of calls leaves: each index holds the last byte written
there, or the byte it held at first. -/
def lastBytes (mem : Memory) (calls : List MemoryCall) (i : BitVec 32) : BitVec 8 :=
  (Bytes.lastWritten (written mem calls) i).getD (mem.m i)

theorem MemoryCall.run_state (c : MemoryCall) (mem : Memory) :
    (c.run mem).state =
      { mem with
        m := Bytes.writeAll mem.m
          (if (c.run mem).value = 0 then c.bytes mem.isBigEndian else []) } := by
  rw [c.run_eq, MemoryCall.outcome]
  split
  · rfl
  · rfl

/-- The code a call returns and what it does to the memory. -/
theorem MemoryCall.run_cases (c : MemoryCall) (mem : Memory) :
    ((c.run mem).value = dataAbort ∧ (c.run mem).state = mem) ∨
      ((c.run mem).value = 0 ∧ c.address.toNat < mem.size ∧
        (c.run mem).state =
          { mem with m := Bytes.writeAll mem.m (c.bytes mem.isBigEndian) }) := by
  rw [c.run_eq, MemoryCall.outcome]
  split
  · next h => exact Or.inr ⟨rfl, h.1, rfl⟩
  · exact Or.inl ⟨rfl, rfl⟩

theorem afterCalls_eq (mem : Memory) (calls : List MemoryCall) :
    afterCalls mem calls = { mem with m := lastBytes mem calls } := by
  have hlog : afterCalls mem calls =
      { mem with m := Bytes.writeAll mem.m (written mem calls) } := by
    induction calls generalizing mem with
    | nil => rfl
    | cons c rest ih =>
      have hstep : afterCalls mem (c :: rest) = afterCalls (c.run mem).state rest := rfl
      rw [hstep, ih, written, Bytes.writeAll_append, c.run_state]
  rw [hlog]
  congr
  funext i
  exact Bytes.writeAll_apply mem.m _ i

/-- What it means for the memory module to be an array of bytes over a sequence of
calls. -/
structure RefinesBytes (mem : Memory) (calls : List MemoryCall) : Prop where
  size : (afterCalls mem calls).size = mem.size
  isBigEndian : (afterCalls mem calls).isBigEndian = mem.isBigEndian
  /-- A call that returns `DATA_ABORT` changes nothing, one that returns 0 the bytes
  from its address on, all of them inside the memory. -/
  call : ∀ before c after, calls = before ++ c :: after →
    let s := afterCalls mem before
    ((c.run s).value = dataAbort ∧ (c.run s).state = s) ∨
      ((c.run s).value = 0 ∧ Inside mem.size c.address c.width ∧
        (c.run s).state = { s with m := Bytes.writeAll s.m (c.bytes mem.isBigEndian) })
  readByte : ∀ a, Inside mem.size a 1 →
    (Bytewise.memoryReadByte a (afterCalls mem calls)).value = .ok (lastBytes mem calls a)
  readHalf : ∀ a, Inside mem.size a 2 →
    (Bytewise.memoryReadHalf a (afterCalls mem calls)).value =
      .ok (BitVec.ofNat 16 (Bytes.number mem.isBigEndian ((span a 2).map (lastBytes mem calls))))
  readWord : ∀ a, Inside mem.size a 4 →
    (Bytewise.memoryReadWord a (afterCalls mem calls)).value =
      .ok (BitVec.ofNat 32 (Bytes.number mem.isBigEndian ((span a 4).map (lastBytes mem calls))))
  halfReadBack : ∀ a v, a.toNat % 2 = 0 → Inside mem.size a 2 →
    (Bytewise.memoryReadHalf a (afterCalls mem (calls ++ [.writeHalf a v]))).value = .ok v
  wordReadBack : ∀ a v, a.toNat % 4 = 0 → Inside mem.size a 4 →
    (Bytewise.memoryReadWord a (afterCalls mem (calls ++ [.writeWord a v]))).value = .ok v

theorem Inside.lt {size : Nat} {a : BitVec 32} {width : Nat} (h : Inside size a width)
    (hwidth : 0 < width) : a.toNat < size := by
  apply h a
  exact List.mem_map.mpr ⟨0, List.mem_range.mpr hwidth, by simp⟩

theorem readOutcome_value {w width : Nat} {a : BitVec 32} {mem : Memory}
    (h : a.toNat < mem.size) :
    (readOutcome (w := w) width a mem).value =
      .ok (BitVec.ofNat w (Bytes.number mem.isBigEndian ((span a width).map mem.m))) := by
  rw [readOutcome, if_neg (Nat.not_le.mpr h)]

theorem readOutcome_afterCalls {w width : Nat} {a : BitVec 32} {mem : Memory}
    (calls : List MemoryCall) (h : a.toNat < mem.size) :
    (readOutcome (w := w) width a (afterCalls mem calls)).value =
      .ok (BitVec.ofNat w
        (Bytes.number mem.isBigEndian ((span a width).map (lastBytes mem calls)))) := by
  have hlt : a.toNat < (afterCalls mem calls).size := by
    rw [afterCalls_eq]
    exact h
  rw [readOutcome_value hlt, afterCalls_eq]

theorem afterCalls_concat (mem : Memory) (calls : List MemoryCall) (c : MemoryCall) :
    afterCalls mem (calls ++ [c]) = (c.run (afterCalls mem calls)).state :=
  List.foldl_append

theorem span_nodup (a : BitVec 32) {width : Nat} (h : width ≤ 4) : (span a width).Nodup := by
  apply List.Nodup.map_on _ List.nodup_range
  intro i hi j hj heq
  have hi' := List.mem_range.mp hi
  have hj' := List.mem_range.mp hj
  have hij := congrArg BitVec.toNat ((BitVec.add_right_inj a).mp heq)
  simp only [BitVec.toNat_ofNat] at hij
  omega

/-- The value of an accepted write is read back. -/
theorem readOutcome_run {w width : Nat} {mem : Memory} {c : MemoryCall} {v : BitVec w}
    (hwidth : width ≤ 4) (hpow : 2 ^ w = 256 ^ width)
    (hbytes : c.bytes mem.isBigEndian =
      (span c.address width).zip (Bytes.split mem.isBigEndian width v.toNat))
    (haccepted : Accepted mem c.isRead c.width c.address) :
    (readOutcome width c.address (c.run mem).state).value = .ok v := by
  have hlength : (span c.address width).length =
      (Bytes.split mem.isBigEndian width v.toNat).length := by
    simp [span]
  have hstate : (c.run mem).state =
      { mem with m := Bytes.writeAll mem.m (c.bytes mem.isBigEndian) } := by
    rw [c.run_eq, MemoryCall.outcome, if_pos haccepted]
  have hlt : c.address.toNat < (c.run mem).state.size := by
    rw [hstate]
    exact haccepted.1
  rw [readOutcome_value hlt, hstate, hbytes,
    Bytes.map_writeAll_zip mem.m (span_nodup _ hwidth) hlength, Bytes.number_split, ← hpow,
    Nat.mod_eq_of_lt v.isLt, BitVec.ofNat_toNat, BitVec.setWidth_eq]

theorem memory_refines_bytes (mem : Memory) (calls : List MemoryCall)
    (hfit : ∀ c ∈ calls, c.width = 1 ∨ Inside mem.size c.address c.width) :
    RefinesBytes mem calls where
  size := by rw [afterCalls_eq]
  isBigEndian := by rw [afterCalls_eq]
  call := by
    intro before c after hcalls s
    have hs : s = { mem with m := lastBytes mem before } := afterCalls_eq mem before
    have hsize : s.size = mem.size := by rw [hs]
    have hbig : s.isBigEndian = mem.isBigEndian := by rw [hs]
    rcases c.run_cases s with h | ⟨hzero, hin, hstate⟩
    · exact Or.inl h
    · refine Or.inr ⟨hzero, ?_, hbig ▸ hstate⟩
      rcases hfit c (hcalls ▸ by simp) with hone | hinside
      · rw [hone]
        intro i hi
        rw [show i = c.address by simpa [span] using hi, ← hsize]
        exact hin
      · exact hinside
  readByte := by
    intro a ha
    rw [memoryReadByte_outcome, readOutcome_afterCalls calls (ha.lt (by decide))]
    cases hb : mem.isBigEndian <;> simp [span, Bytes.number, Bytes.order]
  readHalf := by
    intro a ha
    rw [memoryReadHalf_outcome, readOutcome_afterCalls calls (ha.lt (by decide))]
  readWord := by
    intro a ha
    rw [memoryReadWord_outcome, readOutcome_afterCalls calls (ha.lt (by decide))]
  halfReadBack := by
    intro a v haligned ha
    have haccepted : Accepted (afterCalls mem calls) false 2 a := by
      rw [afterCalls_eq]
      exact ⟨ha.lt (by decide), fun _ => haligned⟩
    rw [afterCalls_concat, memoryReadHalf_outcome]
    exact readOutcome_run (c := .writeHalf a v) (by decide) (by decide) rfl haccepted
  wordReadBack := by
    intro a v haligned ha
    have haccepted : Accepted (afterCalls mem calls) false 4 a := by
      rw [afterCalls_eq]
      exact ⟨ha.lt (by decide), fun _ => haligned⟩
    rw [afterCalls_concat, memoryReadWord_outcome]
    exact readOutcome_run (c := .writeWord a v) (by decide) (by decide) rfl haccepted

theorem memory_refines_bytes_overlapping :
    let mem := memoryOfWords true 8 []
    let calls := [MemoryCall.writeWord 4 0x11223344, .writeHalf 4 0xAABB, .writeByte 9 0xCC,
      .writeHalf 3 0xDDEE]
    (∀ c ∈ calls, c.width = 1 ∨ Inside mem.size c.address c.width) ∧ RefinesBytes mem calls := by
  have hfit : ∀ c ∈ [MemoryCall.writeWord 4 0x11223344, .writeHalf 4 0xAABB, .writeByte 9 0xCC,
      .writeHalf 3 0xDDEE], c.width = 1 ∨ Inside 8 c.address c.width := by
    simp [MemoryCall.width, MemoryCall.address, Inside, span_two, span_four]
  exact ⟨hfit, memory_refines_bytes _ _ hfit⟩

end ArmSimulator
