/-
Memory dumps.

The loop of `read_memory` is to stop at the end of the memory, but it compares the code
of the read with a value that no read returns.  It gives as many bytes as were asked
for: the last byte that was read stands for every byte outside.
-/
import ArmSimulator.Proof.Bytes
import ArmSimulator.Proof.RegisterDump

namespace ArmSimulator

namespace Gdb

/-! ## The loop -/

/-- `value` after a read through a pointer. -/
def byteRead (mem : Memory) (a : BitVec 32) (value : BitVec 8) : BitVec 8 :=
  match memoryReadByte mem a with
  | .ok b => b
  | .error _ => value

/-- The bytes of a dump: a rejected read gives the byte before it once more. -/
def dumpBytes (mem : Memory) : Nat → BitVec 32 → BitVec 8 → List (BitVec 8)
  | 0, _, _ => []
  | size + 1, a, value =>
    byteRead mem a value :: dumpBytes mem size (a + 1) (byteRead mem a value)

theorem length_dumpBytes (mem : Memory) (size : Nat) (a : BitVec 32) (value : BitVec 8) :
    (dumpBytes mem size a value).length = size := by
  induction size generalizing a value with
  | zero => rfl
  | succ size ih => rw [dumpBytes, List.length_cons, ih]

/-- No read returns the code the loop is to stop at. -/
theorem resultCode_readByte_ne (mem : Memory) (a : BitVec 32) :
    resultCode (memoryReadByte mem a) ≠ -1 := by
  rw [resultCode_readByte, accessResult]
  split <;> decide

/-- One turn of the loop, up to the text of its byte. -/
theorem dumpLoop_succ (size position : Nat) (a : BitVec 32) (value : BitVec 8) (g : Gdb) :
    let b := byteRead g.arm.mem a value
    (dumpLoop (size + 1) position a value g).value =
        ((putString position (Hex.ofByte b) >>= fun _ =>
          dumpLoop size (position + 2) (a + 1) b) g).value ∧
      (dumpLoop (size + 1) position a value g).state =
        ((putString position (Hex.ofByte b) >>= fun _ =>
          dumpLoop size (position + 2) (a + 1) b) g).state := by
  intro b
  have hread : (readByte a value g).value = .ok (resultCode (memoryReadByte g.arm.mem a), b) := rfl
  rw [dumpLoop, Halting.bind_apply_ok hread]
  simp only [if_neg (resultCode_readByte_ne g.arm.mem a)]
  exact ⟨rfl, rfl⟩

theorem dumpLoop_apply {size position : Nat} (hfit : position + 2 * size < maxPacketSize)
    (a : BitVec 32) (value : BitVec 8) (g : Gdb) :
    (dumpLoop size position a value g).value = .ok () ∧
      (dumpLoop size position a value g).state =
        { g with
          packet := layTexts g.packet position
            ((dumpBytes g.arm.mem size a value).map Hex.ofByte) } := by
  induction size generalizing position a value g with
  | zero => exact ⟨rfl, rfl⟩
  | succ size ih =>
    let b := byteRead g.arm.mem a value
    have hput := putString_apply
      (show position + (Hex.ofByte b).length < maxPacketSize from by
        show position + 2 < maxPacketSize
        omega) g
    have hrest := ih (show position + 2 + 2 * size < maxPacketSize by omega) (a + 1) b
      { g with packet := overwrite g.packet position (Hex.ofByte b ++ [0]) }
    obtain ⟨hvalue, hstate⟩ := dumpLoop_succ size position a value g
    rw [hvalue, hstate, Halting.bind_apply_ok (by rw [hput]), hput, dumpBytes, List.map_cons,
      layTexts]
    exact hrest

/-- The numbers of the request. -/
def dumpRequest (build : Build) (ctx : Context) (data : List (BitVec 8)) :
    BitVec 32 × BitVec 32 :=
  CString.scanHexPair build.bareBase data ctx.address ctx.size

theorem ofByte_nonzero (b : BitVec 8) : ∀ c ∈ Hex.ofByte b, c ≠ 0 := by
  intro c hc
  have hbyte := b.isLt
  rw [Hex.ofByte, List.mem_cons, List.mem_singleton] at hc
  rcases hc with rfl | rfl
  · exact (CString.isDigit_cases (Hex.isDigit_digit (by omega))).2.2.2.2.2
  · exact (CString.isDigit_cases (Hex.isDigit_digit (by omega))).2.2.2.2.2

theorem length_flatMap_ofByte (bytes : List (BitVec 8)) :
    (bytes.flatMap Hex.ofByte).length = 2 * bytes.length := by
  induction bytes with
  | nil => rfl
  | cons b bytes ih =>
    rw [List.flatMap_cons, List.length_append, ih, List.length_cons]
    show 2 + 2 * bytes.length = _
    omega

/-- What the loop leaves in an array that starts with the empty string. -/
theorem dumpLoop_string {size : Nat} (hfit : 1 + 2 * size < maxPacketSize) (a : BitVec 32)
    (value : BitVec 8) {g : Gdb} (hempty : g.packet 1 = 0) :
    ∃ packet, (dumpLoop size 1 a value g).value = .ok () ∧
      (dumpLoop size 1 a value g).state = { g with packet := packet } ∧
      StringAt packet 1 ((dumpBytes g.arm.mem size a value).flatMap Hex.ofByte) := by
  obtain ⟨hvalue, hstate⟩ := dumpLoop_apply hfit a value g
  refine ⟨_, hvalue, hstate, ?_⟩
  rw [List.flatMap_def]
  refine stringAt_layTexts (fun t ht => ?_) fun _ => hempty
  obtain ⟨b, -, rfl⟩ := List.mem_map.mp ht
  exact ofByte_nonzero b

theorem readMemory_reply (build : Build) (ctx : Context) (data : List (BitVec 8)) (g : Gdb)
    (hsize : 2 * (dumpRequest build ctx data).2.toNat ≤ 1018) :
    (readMemory build ctx data g).state.reply =
      frame ((dumpBytes g.arm.mem (dumpRequest build ctx data).2.toNat
        (dumpRequest build ctx data).1 ctx.value).flatMap Hex.ofByte) := by
  generalize hrequest : dumpRequest build ctx data = request at hsize ⊢
  let g' : Gdb := { g with packet := Function.update g.packet 1 0 }
  have hset : setPacket 1 0 g = { value := .ok (), state := g', trace := [] } :=
    setPacket_apply (by decide) 0 g
  obtain ⟨packet, hvalue, hstate, hstring⟩ := dumpLoop_string
    (show 1 + 2 * request.2.toNat < maxPacketSize by unfold maxPacketSize; omega)
    request.1 ctx.value (g := g') (Function.update_self 1 0 g.packet)
  have hstart : (readMemory build ctx data g).state =
      ((dumpLoop request.2.toNat 1 request.1 ctx.value >>= fun _ => gdbSendBuffer) g').state := by
    rw [readMemory, Halting.bind_state_ok (show (requestAt data 0 g).value = .ok data from rfl)
      (show (requestAt data 0 g).state = g from rfl), ← hrequest]
    exact Halting.bind_state_ok (by rw [hset]) (by rw [hset]) _
  have hlength : ((dumpBytes g'.arm.mem request.2.toNat request.1 ctx.value).flatMap
      Hex.ofByte).length = 2 * request.2.toNat := by
    rw [length_flatMap_ofByte, length_dumpBytes]
  rw [hstart, Halting.bind_state_ok hvalue hstate]
  exact gdbSendBuffer_reply hstring (by rw [hlength]; exact Nat.le_trans hsize (by decide))

/-! ## Dumps of real memory -/

/-- The text of the bytes from `a` on, as many as were asked for or as the memory has. -/
def memoryText (mem : Memory) (a : BitVec 32) (size : Nat) : List (BitVec 8) :=
  (List.range (min size (mem.size - a.toNat))).flatMap fun i =>
    Hex.ofByte (mem.m (a + BitVec.ofNat 32 i))

theorem dumpBytes_inside {mem : Memory} {size : Nat} {a : BitVec 32}
    (h : size = 0 ∨ a.toNat + size ≤ mem.size) (value : BitVec 8) :
    dumpBytes mem size a value = (List.range size).map fun i => mem.m (a + BitVec.ofNat 32 i) := by
  induction size generalizing a value with
  | zero => rfl
  | succ size ih =>
    have hfirst : byteRead mem a value = mem.m a := by
      have hvalid : isNotValidAddress mem a = false := decide_eq_false (by omega)
      rw [byteRead, memoryReadByte, hvalid]
      rfl
    have hrest : size = 0 ∨ (a + 1).toNat + size ≤ mem.size := by
      have hnext : (a + 1).toNat ≤ a.toNat + 1 := by
        rw [BitVec.toNat_add]
        exact Nat.mod_le _ _
      omega
    have hsucc : ∀ i, a + BitVec.ofNat 32 (i + 1) = a + 1 + BitVec.ofNat 32 i := by
      intro i
      rw [BitVec.ofNat_add, BitVec.add_comm (BitVec.ofNat 32 i), BitVec.add_assoc]
      rfl
    rw [dumpBytes, hfirst, ih hrest, List.range_succ_eq_map, List.map_cons, List.map_map]
    refine congrArg₂ List.cons (by simp) (List.map_congr_left fun i _ => ?_)
    rw [Function.comp_apply, Nat.succ_eq_add_one, hsucc]

/-- The reply to `m` is the text of the bytes that were asked for exactly when they all lie
inside the memory. -/
theorem readMemory_dumps_iff (build : Build) (ctx : Context) (data : List (BitVec 8)) (g : Gdb)
    (hsize : 2 * (dumpRequest build ctx data).2.toNat ≤ 1018) :
    let a := (dumpRequest build ctx data).1
    let size := (dumpRequest build ctx data).2.toNat
    (readMemory build ctx data g).state.reply = frame (memoryText g.arm.mem a size) ↔
      size = 0 ∨ a.toNat + size ≤ g.arm.mem.size := by
  intro a size
  have htext : memoryText g.arm.mem a size =
      ((List.range (min size (g.arm.mem.size - a.toNat))).map fun i =>
        g.arm.mem.m (a + BitVec.ofNat 32 i)).flatMap Hex.ofByte := by
    rw [List.flatMap_map]
    rfl
  rw [readMemory_reply build ctx data g hsize, htext]
  constructor
  · intro h
    have hcount := congrArg List.length (frame_injective h)
    rw [length_flatMap_ofByte, length_dumpBytes, length_flatMap_ofByte, List.length_map,
      List.length_range] at hcount
    omega
  · intro h
    rw [dumpBytes_inside h, show min size (g.arm.mem.size - a.toNat) = size by omega]

/-- A server with a memory of 64 bytes. -/
def dumpGdb : Gdb :=
  gdbInitData { cycleCount := 0, reg := fun _ => 0, mem := memoryOfWords true 64 [0x11223344] }
    fun _ => 0

theorem readMemory_dumps_start :
    (readMemory quietBuild quietContext (text ['1', ',', '2']) dumpGdb).state.reply =
      frame (memoryText dumpGdb.arm.mem 1 2) := by
  have hrequest : dumpRequest quietBuild quietContext (text ['1', ',', '2']) = (1, 2) := by
    decide +kernel
  have h := readMemory_dumps_iff quietBuild quietContext (text ['1', ',', '2']) dumpGdb
    (by rw [hrequest]; decide)
  rw [hrequest] at h
  exact h.mpr (by decide)

/-- A request that straddles the end of the memory is answered with two bytes, of which the
second is the first once more. -/
theorem readMemory_straddles :
    let data := text ['3', 'f', ',', '2']
    dumpRequest quietBuild quietContext data = (63, 2) ∧
      memoryText dumpGdb.arm.mem 63 2 = text ['0', '0'] ∧
      (readMemory quietBuild quietContext data dumpGdb).state.reply =
        frame (text ['0', '0', '0', '0']) := by
  decide +kernel

end Gdb

end ArmSimulator
