/-
Requests that crash the server.

With the conditions of the commands at hand, two questions have exact answers: which
packets make the server leave its packet array, and which make it fail an assertion,
follow a null pointer or read behind the end of the packet.
-/
import ArmSimulator.Proof.Commands

namespace ArmSimulator

namespace Gdb

open Halting (Allowed)

/-! ## Replies fit -/

theorem headD_requestText_eq_iff (ctx : Context) (k : Packet) {c : BitVec 8} (hc : c ≠ 0) :
    (requestText ctx k).headD 0 = c ↔ k.payload.head? = some c := by
  rw [requestText]
  cases k.payload with
  | nil => exact iff_of_false (fun h => hc h.symm) (by simp)
  | cons d rest => simp

theorem value_ne_overflow_iff {o : Outcome GdbEvent Gdb (Except Stop Unit)} :
    o.value ≠ .error .overflow ↔ Allowed (· ≠ .overflow) (fun _ => True) o := by
  constructor
  · intro hne
    refine ⟨?_, fun _ _ => trivial⟩
    rintro w hw rfl
    exact hne hw
  · exact fun hallowed hover => hallowed.stop _ hover rfl

theorem answer_fits_iff (build : Build) (ctx : Context) (k : Packet) (g : Gdb) :
    (answer build ctx (requestText ctx k) g).value ≠ .error .overflow ↔
      (k.payload.head? = some (chr 'm') →
        (dumpRequest build ctx ((requestText ctx k).drop 1)).2.toNat ≤ 509) := by
  have hcommand : CommandAllowance (· ≠ .overflow) fun _ => True := by
    constructor <;> simp
  have hword : ∀ position, ReadsWord (fun _ => True) position := fun _ =>
    ⟨trivial, trivial, trivial, trivial⟩
  rw [value_ne_overflow_iff.trans (allowed_answer_iff hcommand build ctx _ g fun _ => trivial),
    ← headD_requestText_eq_iff ctx k (show chr 'm' ≠ 0 by decide), RequestAllowed]
  split_ifs with hm hp hH hG hX hP
  · exact ⟨fun hor _ => hor.resolve_right fun hne => hne rfl, fun hsize => Or.inl (hsize hm)⟩
  · exact iff_of_true (Or.inr (by decide)) fun h => absurd h hm
  · exact iff_of_true trivial fun h => absurd h hm
  · exact iff_of_true (fun _ _ => hword _) fun h => absurd h hm
  · refine iff_of_true (fun _ _ => ?_) fun h => absurd h hm
    split
    · decide
    · exact fun _ _ => trivial
  · refine iff_of_true ?_ fun h => absurd h hm
    split
    · decide
    · exact ⟨hword _, Or.inr (by decide)⟩
  · exact iff_of_true trivial fun h => absurd h hm

/-- The packet array is left only by a dump of more than 509 bytes. -/
theorem gdbPacketAnalysis_fits_iff (build : Build) (ctx : Context) {k : Packet}
    (hsum : ChecksumOk k) (g : Gdb) :
    (gdbPacketAnalysis build ctx k.text g).value ≠ .error .overflow ↔
      (g.connected = true → k.payload.head? = some (chr 'm') →
        (dumpRequest build ctx ((requestText ctx k).drop 1)).2.toNat ≤ 509) := by
  cases hopen : g.connected with
  | false =>
    rw [gdbPacketAnalysis_closed build ctx k hopen]
    exact iff_of_true (by simp) (by simp)
  | true =>
    rw [gdbPacketAnalysis_accepted build ctx hopen hsum]
    exact (answer_fits_iff build ctx k g).trans ⟨fun hfits _ => hfits, fun hfits => hfits rfl⟩

theorem gdbPacketAnalysis_fits_status :
    let k := packetOfString (text ['?']) (by decide)
    (gdbPacketAnalysis quietBuild quietContext k.text dumpGdb).value ≠ .error .overflow :=
  (gdbPacketAnalysis_fits_iff quietBuild quietContext
    (checksumOk_packetOfString (text ['?']) (by decide)) dumpGdb).mpr
      fun _ hm => absurd hm (by decide)

theorem gdbPacketAnalysis_overflow (build : Build) (ctx : Context) {k : Packet} {g : Gdb}
    (hopen : g.connected = true) (hsum : ChecksumOk k) (hdump : k.payload.head? = some (chr 'm'))
    (hsize : ¬(dumpRequest build ctx ((requestText ctx k).drop 1)).2.toNat ≤ 509) :
    (gdbPacketAnalysis build ctx k.text g).value = .error .overflow := by
  by_contra hne
  rw [gdbPacketAnalysis_accepted build ctx hopen hsum] at hne
  exact hsize ((answer_fits_iff build ctx k g).mp hne hdump)

/-- `m 0,1fe` asks for 510 bytes. -/
theorem gdbPacketAnalysis_overflows :
    let k := packetOfString (text ['m', '0', ',', '1', 'f', 'e']) (by decide)
    ChecksumOk k ∧ dumpGdb.connected = true ∧
      (gdbPacketAnalysis quietBuild quietContext k.text dumpGdb).value = .error .overflow := by
  have hsum := checksumOk_packetOfString (text ['m', '0', ',', '1', 'f', 'e']) (by decide)
  exact ⟨hsum, rfl, gdbPacketAnalysis_overflow quietBuild quietContext rfl hsum rfl
    (by decide +kernel)⟩

/-! ## Crashes -/

/-- No assertion fails, no failed search is followed, and no byte of the request is read at
an offset from `limit` on. -/
structure CrashFree (limit : Nat) (o : Outcome GdbEvent Gdb (Except Stop Unit)) : Prop where
  assertion : o.value ≠ .error .assertFailed
  pointer : o.value ≠ .error .nullPointer
  reads : ∀ offset, .read offset ∈ o.trace → offset < limit

/-- What keeps a request from crashing its handler. -/
def CrashFreeRequest (limit : Nat) (build : Build) (ctx : Context) (memSize : Nat)
    (s : List (BitVec 8)) : Prop :=
  let data := s.drop 1
  let request := dumpRequest build ctx data
  if s.headD 0 = chr 'p' then (CString.atoi data).toNat < 16
  else if s.headD 0 = chr 'H' then 1 < limit
  else if s.headD 0 = chr 'G' then 334 < limit
  else if s.headD 0 = chr 'X' then
    request.1.toNat < memSize → request.2.toNat ≠ 0 →
      ∃ position, CString.index data (chr ':') = some position ∧
        ∀ i ∈ encodedOffsets data (storedTurns memSize request.2.toNat request.1) (position + 1),
          i < limit
  else if s.headD 0 = chr 'P' then
    ∃ position, CString.index data (chr '=') = some position ∧ position + 7 < limit ∧
      (givenRegister build ctx data).toNat < 16
  else True

/-- Why a command may stop, and what it may do, if it is not to crash. -/
theorem crashFree_iff {limit : Nat} {o : Outcome GdbEvent Gdb (Except Stop Unit)} :
    CrashFree limit o ↔ Allowed (fun w => w ≠ .assertFailed ∧ w ≠ .nullPointer)
      (fun e => ∀ offset, e = .read offset → offset < limit) o := by
  constructor
  · intro h
    refine ⟨fun w hw => ⟨?_, ?_⟩, fun e he offset hoffset => ?_⟩
    · rintro rfl
      exact h.assertion hw
    · rintro rfl
      exact h.pointer hw
    · exact h.reads offset (hoffset ▸ he)
  · intro h
    exact ⟨fun hv => (h.stop _ hv).1 rfl, fun hv => (h.stop _ hv).2 rfl,
      fun offset hoffset => h.events _ hoffset offset rfl⟩

/-- Of all that a command may do, only the reads of its request are limited. -/
theorem commandAllowance_reads (limit : Nat) :
    CommandAllowance (fun w => w ≠ .assertFailed ∧ w ≠ .nullPointer)
      fun e => ∀ offset, e = .read offset → offset < limit := by
  constructor <;> simp

theorem crashFreeRequest_iff (limit : Nat) (build : Build) (ctx : Context) (memSize : Nat)
    (s : List (BitVec 8)) :
    RequestAllowed (fun w => w ≠ .assertFailed ∧ w ≠ .nullPointer)
      (fun e => ∀ offset, e = .read offset → offset < limit) build ctx memSize s ↔
      CrashFreeRequest limit build ctx memSize s := by
  have hread : ∀ offset, (∀ offset', GdbEvent.read offset = .read offset' → offset' < limit) ↔
      offset < limit := by
    intro offset
    simp
  have hword : ∀ position, ReadsWord (fun e => ∀ offset, e = .read offset → offset < limit)
      position ↔ position + 6 < limit := by
    intro position
    rw [ReadsWord, hread, hread, hread, hread]
    omega
  have hassert : ¬(Stop.assertFailed ≠ .assertFailed ∧ Stop.assertFailed ≠ .nullPointer) :=
    fun h => h.1 rfl
  have hnull : ¬(Stop.nullPointer ≠ .assertFailed ∧ Stop.nullPointer ≠ .nullPointer) :=
    fun h => h.2 rfl
  rw [RequestAllowed, CrashFreeRequest]
  simp only [hread, hword, or_iff_left hassert]
  by_cases hm : s.headD 0 = chr 'm'
  · simp only [hm]
    exact iff_of_true (Or.inr (by decide)) trivial
  · rw [if_neg hm]
    split_ifs with hp hH hG hX hP
    · rfl
    · rfl
    · -- The last of the 42 words decides.
      exact ⟨fun hall => hall 41 (by decide), fun hlast k hk => by omega⟩
    · refine imp_congr_right fun _ => imp_congr_right fun _ => ?_
      cases CString.index (s.drop 1) (chr ':') with
      | none =>
        refine iff_of_false hnull ?_
        rintro ⟨position, hnone, -⟩
        cases hnone
      | some position => simp
    · cases CString.index (s.drop 1) (chr '=') with
      | none =>
        refine iff_of_false hnull ?_
        rintro ⟨position, hnone, -⟩
        cases hnone
      | some position => simp [Nat.add_right_comm position 1 6]
    · rfl

/-- A packet crashes its handler exactly when its request asks for it, however far behind the
payload a byte counts as one of the packet. -/
theorem gdbPacketAnalysis_crashFree_iff (build : Build) (ctx : Context) {k : Packet}
    (hsum : ChecksumOk k) {limit : Nat} (hlimit : k.payload.length ≤ limit) (g : Gdb) :
    CrashFree limit (gdbPacketAnalysis build ctx k.text g) ↔
      (g.connected = true →
        CrashFreeRequest limit build ctx g.arm.mem.size (requestText ctx k)) := by
  cases hopen : g.connected with
  | false =>
    rw [gdbPacketAnalysis_closed build ctx k hopen]
    exact iff_of_true ⟨by simp, by simp, by simp⟩ (by simp)
  | true =>
    have hzero : (requestText ctx k).headD 0 ≠ 0 → 0 < limit := by
      intro hhead
      refine lt_of_lt_of_le (List.length_pos_iff.mpr ?_) hlimit
      intro hempty
      exact hhead (by rw [requestText, hempty]; rfl)
    have hanswer := allowed_answer_iff (commandAllowance_reads limit) build ctx (requestText ctx k) g
      fun hhead offset hoffset => by
        cases hoffset
        exact hzero hhead
    rw [gdbPacketAnalysis_accepted build ctx hopen hsum, crashFree_iff,
      ← crashFreeRequest_iff limit build ctx, ← hanswer]
    constructor
    · intro hall _
      exact ⟨hall.stop, fun e he =>
        hall.events e (List.mem_cons_of_mem _ (List.mem_cons_of_mem _ he))⟩
    · intro hall
      refine ⟨(hall rfl).stop, fun e he offset hoffset => ?_⟩
      rcases List.mem_cons.mp he with rfl | he
      · cases hoffset
      · rcases List.mem_cons.mp he with rfl | he
        · cases hoffset
        · exact (hall rfl).events e he offset hoffset

theorem gdbPacketAnalysis_crashFree_register :
    let k := packetOfString (text ['p', '9']) (by decide)
    CrashFree k.payload.length (gdbPacketAnalysis quietBuild quietContext k.text dumpGdb) := by
  refine (gdbPacketAnalysis_crashFree_iff quietBuild quietContext
    (checksumOk_packetOfString (text ['p', '9']) (by decide)) le_rfl dumpGdb).mpr fun _ => ?_
  rw [CrashFreeRequest, if_pos (by decide)]
  decide

/-- The debugger asks for the status register with `p19`, the number in hexadecimal. -/
theorem gdbPacketAnalysis_crashes :
    let k := packetOfString (text ['p', '1', '9']) (by decide)
    ChecksumOk k ∧ dumpGdb.connected = true ∧
      (gdbPacketAnalysis quietBuild quietContext k.text dumpGdb).value = .error .assertFailed := by
  intro k
  have hsum : ChecksumOk k := checksumOk_packetOfString _ _
  refine ⟨hsum, rfl, ?_⟩
  rw [gdbPacketAnalysis_accepted quietBuild quietContext (g := dumpGdb) rfl hsum]
  show (readRegister quietBuild quietContext _ dumpGdb).value = _
  rfl

end Gdb

end ArmSimulator
