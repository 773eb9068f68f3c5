/-
Words as text.

`write_uint32` gives the bytes of a word in two digits each, and `read_uint32` puts them
together again.  Both go through the bytes of a union, upwards or downwards as the orders
of the host and the target agree or not, so that the text has the order of the target
whatever the host.
-/
import ArmSimulator.Model.Gdb

namespace ArmSimulator

namespace Gdb

/-! ## Reading what was written -/

theorem uint32Indices_cases (build : Build) :
    uint32Indices build = [0, 1, 2, 3] ∨ uint32Indices build = [3, 2, 1, 0] := by
  unfold uint32Indices
  split
  · exact Or.inl (by decide)
  · exact Or.inr (by decide)

theorem mem_uint32Indices (build : Build) {k : Nat} (hk : k < 4) : k ∈ uint32Indices build := by
  rcases uint32Indices_cases build with h | h <;> rw [h] <;> interval_cases k <;> decide

/-- Bytes written in two digits each are read back, one after the other. -/
theorem readBytes_digits (build : Build) (f : Nat → BitVec 8) (indices : List Nat)
    (value : BitVec 32) (rest : List (BitVec 8)) (bytes : Nat → BitVec 8) (j : Nat) :
    readBytes build indices value (indices.flatMap (fun i => Hex.ofByte (f i)) ++ rest) bytes j =
      if j ∈ indices then f j else bytes j := by
  induction indices generalizing value bytes with
  | nil => rfl
  | cons i indices ih =>
    have hbyte := (f i).isLt
    have hscan : CString.scanHex build.bareBase 2 (Hex.ofByte (f i) ++
        (indices.flatMap (fun i => Hex.ofByte (f i)) ++ rest)) =
          some (BitVec.ofNat 32 (16 * ((f i).toNat / 16) + (f i).toNat % 16),
            indices.flatMap (fun i => Hex.ofByte (f i)) ++ rest) := by
      apply CString.scanHex_pair
      · exact Nat.le_refl 2
      · exact Hex.value_digit (by omega)
      · exact Hex.value_digit (by omega)
      · rfl
    have hvalue : (BitVec.ofNat 32 (16 * ((f i).toNat / 16) + (f i).toNat % 16)).setWidth 8 =
        f i := by
      apply BitVec.eq_of_toNat_eq
      rw [BitVec.toNat_setWidth, BitVec.toNat_ofNat]
      omega
    rw [List.flatMap_cons, List.append_assoc, readBytes, hscan]
    simp only [hvalue]
    have hdrop : (Hex.ofByte (f i) ++ (indices.flatMap (fun i => Hex.ofByte (f i)) ++ rest)).drop 2 =
        indices.flatMap (fun i => Hex.ofByte (f i)) ++ rest := rfl
    rw [hdrop, ih]
    by_cases hj : j = i
    · subst hj
      simp
    · simp [hj, Function.update_of_ne]

/-- `read_uint32` undoes `write_uint32`, whatever follows the digits. -/
theorem readUint32_writeUint32 (build : Build) (value v : BitVec 32) (rest : List (BitVec 8)) :
    readUint32 build value (writeUint32 build v ++ rest) = v := by
  have hbytes : ∀ k, k < 4 → readBytes build (uint32Indices build) value
      (writeUint32 build v ++ rest) (fun _ => 0) k =
        (Bytes.split build.host.isBigEndian 4 v.toNat).getD k 0 := by
    intro k hk
    rw [writeUint32, readBytes_digits, if_pos (mem_uint32Indices build hk)]
  have hsplit : ∀ big n, [(Bytes.split big 4 n).getD 0 0, (Bytes.split big 4 n).getD 1 0,
      (Bytes.split big 4 n).getD 2 0, (Bytes.split big 4 n).getD 3 0] = Bytes.split big 4 n := by
    intro big n
    cases big <;> rfl
  rw [readUint32, hbytes 0 (by decide), hbytes 1 (by decide), hbytes 2 (by decide),
    hbytes 3 (by decide), hsplit, Bytes.number_split, show (256 : Nat) ^ 4 = 2 ^ 32 from rfl,
    Nat.mod_eq_of_lt v.isLt, BitVec.ofNat_toNat, BitVec.setWidth_eq]

theorem writeUint32_injective (build : Build) : Function.Injective (writeUint32 build) := by
  intro v w h
  rw [← readUint32_writeUint32 build 0 v [], h, readUint32_writeUint32]

theorem length_writeUint32 (build : Build) (v : BitVec 32) : (writeUint32 build v).length = 8 := by
  rw [writeUint32]
  rcases uint32Indices_cases build with h | h <;> rw [h] <;> rfl

theorem writeUint32_digits (build : Build) (v : BitVec 32) :
    ∀ c ∈ writeUint32 build v, ∃ n, n < 16 ∧ c = Hex.digit n := by
  intro c hc
  obtain ⟨i, -, hi⟩ := List.mem_flatMap.mp hc
  have hbyte := ((Bytes.split build.host.isBigEndian 4 v.toNat).getD i 0).isLt
  rw [Hex.ofByte, List.mem_cons, List.mem_singleton] at hi
  rcases hi with rfl | rfl
  · exact ⟨_, by omega, rfl⟩
  · exact ⟨_, by omega, rfl⟩

theorem writeUint32_isDigit (build : Build) (v : BitVec 32) :
    ∀ c ∈ writeUint32 build v, Hex.isDigit c = true := by
  intro c hc
  obtain ⟨n, hn, rfl⟩ := writeUint32_digits build v c hc
  exact Hex.isDigit_digit hn

theorem writeUint32_nonzero (build : Build) (v : BitVec 32) : ∀ c ∈ writeUint32 build v, c ≠ 0 :=
  fun c hc => (CString.isDigit_cases (writeUint32_isDigit build v c hc)).2.2.2.2.2

/-! ## Writing what was read -/

/-- The loop makes its four turns and leaves the range, however many more it is given. -/
theorem byteIndices_of_le {n : Nat} (h : 4 ≤ n) :
    byteIndices n 0 1 = [0, 1, 2, 3] ∧ byteIndices n 3 (-1) = [3, 2, 1, 0] := by
  obtain ⟨m, rfl⟩ : ∃ m, n = m + 4 := ⟨n - 4, by omega⟩
  have hout : ∀ i step : BitVec 32, 4 ≤ i.toNat → byteIndices m i step = [] := by
    intro i step hi
    cases m with
    | zero => rfl
    | succ m => rw [byteIndices, if_neg (by omega)]
  have hup : byteIndices m 4 1 = [] := hout 4 1 (by decide)
  have hdown : byteIndices m (-1) (-1) = [] := hout (-1) (-1) (by decide)
  constructor
  · show 0 :: 1 :: 2 :: 3 :: byteIndices m 4 1 = _
    rw [hup]
  · show 3 :: 2 :: 1 :: 0 :: byteIndices m (-1) (-1) = _
    rw [hdown]

/-- The bytes of the text are those of the word in the order of the target. -/
theorem writeUint32_eq (build : Build) (v : BitVec 32) :
    writeUint32 build v = (Bytes.split build.bigEndianSimulator 4 v.toNat).flatMap Hex.ofByte := by
  unfold writeUint32 uint32Indices
  rw [(byteIndices_of_le (by decide)).1, (byteIndices_of_le (by decide)).2]
  cases build.host.isBigEndian <;> cases build.bigEndianSimulator <;> rfl

theorem exists_pair {s : List (BitVec 8)} {n : Nat} (h : s.length = 2 * (n + 1)) :
    ∃ c d t, s = c :: d :: t ∧ t.length = 2 * n := by
  obtain ⟨c, s, rfl⟩ := List.exists_cons_of_length_eq_add_one h
  obtain ⟨d, t, rfl⟩ := List.exists_cons_of_length_eq_add_one (Nat.succ.inj h)
  rw [List.length_cons, List.length_cons] at h
  exact ⟨c, d, t, rfl, by omega⟩

/-- A text of digits is read in either case. -/
theorem readBytes_lower (build : Build) (indices : List Nat) {s : List (BitVec 8)}
    (hlength : s.length = 2 * indices.length) (hdigits : ∀ c ∈ s, Hex.isDigit c = true)
    (value : BitVec 32) (rest : List (BitVec 8)) (bytes : Nat → BitVec 8) :
    readBytes build indices value (s ++ rest) bytes =
      readBytes build indices value (s.map Hex.lower ++ rest) bytes := by
  induction indices generalizing s value bytes with
  | nil =>
    rw [List.length_nil, Nat.mul_zero, List.length_eq_zero_iff] at hlength
    rw [hlength]
    rfl
  | cons i indices ih =>
    obtain ⟨c, d, s, rfl, hs⟩ := exists_pair hlength
    have hc := hdigits c (by simp)
    have hd := hdigits d (by simp)
    obtain ⟨m, hm⟩ := Hex.isDigit_iff.mp hc
    obtain ⟨n, hn⟩ := Hex.isDigit_iff.mp hd
    have hnone : ∀ t : List (BitVec 8), (t.take (2 - 2)).takeWhile Hex.isDigit = [] := fun _ => rfl
    have hscan := CString.scanHex_pair build.bareBase (Nat.le_refl 2) hm hn (hnone (s ++ rest))
    have hscan' := CString.scanHex_pair build.bareBase (Nat.le_refl 2)
      ((Hex.value_lower c hc).trans hm) ((Hex.value_lower d hd).trans hn)
      (hnone (s.map Hex.lower ++ rest))
    simp only [List.cons_append, List.map_cons, readBytes, hscan, hscan', List.drop_succ_cons,
      List.drop_zero]
    exact ih hs (fun c hc => hdigits c (by simp [hc])) _ _

/-- Two digits are the text of a byte. -/
theorem exists_byte_of_digits {c d : BitVec 8} (hc : Hex.isDigit c = true)
    (hd : Hex.isDigit d = true) : ∃ b : BitVec 8, [Hex.lower c, Hex.lower d] = Hex.ofByte b := by
  obtain ⟨m, hm⟩ := Hex.isDigit_iff.mp hc
  obtain ⟨n, hn⟩ := Hex.isDigit_iff.mp hd
  have hm' := Hex.value_lt hm
  have hn' := Hex.value_lt hn
  refine ⟨BitVec.ofNat 8 (16 * m + n), ?_⟩
  have hb : (BitVec.ofNat 8 (16 * m + n)).toNat = 16 * m + n := by
    rw [BitVec.toNat_ofNat]
    omega
  rw [Hex.ofByte, hb, Hex.lower_of_value hm, Hex.lower_of_value hn,
    show (16 * m + n) / 16 = m by omega, show (16 * m + n) % 16 = n by omega]

/-- Digits in pairs are the text of a byte each, whatever the order the bytes are listed
in. -/
theorem exists_bytes_of_digits (indices : List Nat) (hnodup : indices.Nodup) {s : List (BitVec 8)}
    (hlength : s.length = 2 * indices.length) (hdigits : ∀ c ∈ s, Hex.isDigit c = true) :
    ∃ f : Nat → BitVec 8, s.map Hex.lower = indices.flatMap fun i => Hex.ofByte (f i) := by
  induction indices generalizing s with
  | nil =>
    rw [List.length_nil, Nat.mul_zero, List.length_eq_zero_iff] at hlength
    exact ⟨fun _ => 0, by rw [hlength]; rfl⟩
  | cons i indices ih =>
    obtain ⟨c, d, s, rfl, hs⟩ := exists_pair hlength
    obtain ⟨b, hb⟩ := exists_byte_of_digits (hdigits c (by simp)) (hdigits d (by simp))
    obtain ⟨hi, hnodup⟩ := List.nodup_cons.mp hnodup
    obtain ⟨f, hf⟩ := ih hnodup hs fun c hc => hdigits c (by simp [hc])
    refine ⟨Function.update f i b, ?_⟩
    have hrest : (indices.flatMap fun j => Hex.ofByte (Function.update f i b j)) =
        indices.flatMap fun j => Hex.ofByte (f j) := by
      refine List.flatMap_congr fun j hj => ?_
      have hne : j ≠ i := by
        rintro rfl
        exact hi hj
      rw [Function.update_of_ne hne]
    rw [List.flatMap_cons, hrest, ← hf, Function.update_self, ← hb]
    rfl

theorem writeUint32_readUint32 (build : Build) {s : List (BitVec 8)} (hlength : s.length = 8)
    (hdigits : ∀ c ∈ s, Hex.isDigit c = true) (value : BitVec 32) (rest : List (BitVec 8)) :
    writeUint32 build (readUint32 build value (s ++ rest)) = s.map Hex.lower := by
  have hcount : (uint32Indices build).length = 4 := by
    rcases uint32Indices_cases build with h | h <;> rw [h] <;> rfl
  have hnodup : (uint32Indices build).Nodup := by
    rcases uint32Indices_cases build with h | h <;> rw [h] <;> decide
  obtain ⟨f, hf⟩ := exists_bytes_of_digits (uint32Indices build) hnodup
    (by rw [hlength, hcount]) hdigits
  have hbytes : ∀ k, k < 4 → readBytes build (uint32Indices build) value (s ++ rest)
      (fun _ => 0) k = f k := by
    intro k hk
    rw [readBytes_lower build _ (by rw [hlength, hcount]) hdigits, hf, readBytes_digits,
      if_pos (mem_uint32Indices build hk)]
  have hsplit : Bytes.split build.host.isBigEndian 4 (readUint32 build value (s ++ rest)).toNat =
      [f 0, f 1, f 2, f 3] := by
    have hnumber := Bytes.number_split build.host.isBigEndian 4
      (Bytes.number build.host.isBigEndian [f 0, f 1, f 2, f 3])
    have hback : Bytes.split build.host.isBigEndian 4
        (Bytes.number build.host.isBigEndian [f 0, f 1, f 2, f 3]) = [f 0, f 1, f 2, f 3] :=
      Bytes.split_number _ [f 0, f 1, f 2, f 3]
    rw [hback] at hnumber
    rw [readUint32, hbytes 0 (by decide), hbytes 1 (by decide), hbytes 2 (by decide),
      hbytes 3 (by decide), BitVec.toNat_ofNat, show (2 : Nat) ^ 32 = 256 ^ 4 from rfl,
      ← hnumber, hback]
  rw [writeUint32, hsplit, hf]
  rcases uint32Indices_cases build with h | h <;> rw [h] <;> rfl

/-- The text of a word: eight digits in lower case that list its bytes in the order of the
target, which are read back to the word; and eight digits that are read are written in
lower case again. -/
theorem uint32_codec (build : Build) (v : BitVec 32) :
    (∀ n, 4 ≤ n → (if build.host.isBigEndian = build.bigEndianSimulator then byteIndices n 0 1
        else byteIndices n 3 (-1)) = uint32Indices build) ∧
      (writeUint32 build v).length = 8 ∧
      (∀ c ∈ writeUint32 build v, ∃ n, n < 16 ∧ c = Hex.digit n) ∧
      writeUint32 build v = (Bytes.split build.bigEndianSimulator 4 v.toNat).flatMap Hex.ofByte ∧
      (∀ host, writeUint32 { build with host := host } v = writeUint32 build v) ∧
      (∀ value rest, readUint32 build value (writeUint32 build v ++ rest) = v) ∧
      ∀ s : List (BitVec 8), s.length = 8 → (∀ c ∈ s, Hex.isDigit c = true) → ∀ value rest,
        writeUint32 build (readUint32 build value (s ++ rest)) = s.map Hex.lower := by
  refine ⟨?_, length_writeUint32 build v, ?_, writeUint32_eq build v, ?_,
    fun value rest => readUint32_writeUint32 build value v rest,
    fun s hlength hdigits value rest => writeUint32_readUint32 build hlength hdigits value rest⟩
  · intro n hn
    unfold uint32Indices
    obtain ⟨hup, hdown⟩ := byteIndices_of_le hn
    obtain ⟨hup', hdown'⟩ := byteIndices_of_le (show 4 ≤ 5 by decide)
    rw [hup, hdown, hup', hdown']
  · intro c hc
    exact writeUint32_digits build v c hc
  · intro host
    rw [writeUint32_eq, writeUint32_eq]

theorem uint32_codec_mixed_case :
    let build : Build := ⟨.modular false, true, false⟩
    let s := text ['D', 'e', 'A', 'd', 'B', 'E', 'e', 'F']
    writeUint32 build (readUint32 build 0 (s ++ [])) = s.map Hex.lower :=
  (uint32_codec ⟨.modular false, true, false⟩ 0).2.2.2.2.2.2
    (text ['D', 'e', 'A', 'd', 'B', 'E', 'e', 'F']) (by decide) (by decide) 0 []

end Gdb

end ArmSimulator
