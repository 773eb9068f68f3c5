/-
What arrives at the debugger.

The kernel may take a write of the server in parts, and a call of `write` may be
interrupted or fail.  The writer goes on from where the kernel has stopped, so nothing is
lost, repeated or reordered: what has arrived is a number of whole writes and a part of
the next, whatever the calls return.
-/
import ArmSimulator.Model.Csapp
import ArmSimulator.Proof.Dialogue

namespace ArmSimulator

namespace Csapp

/-! ## One write -/

/-- A call that takes something, or that a signal has interrupted. -/
def WriteResult.Accepts : WriteResult → Prop
  | .taken count => 0 < count
  | .failed errno => errno = eintr

def WriteResult.isTaken : WriteResult → Bool
  | .taken _ => true
  | .failed _ => false

/-- The number of the calls to come that take something. -/
def takes (results : List WriteResult) : Nat := results.countP WriteResult.isTaken

/-- Of the buffer the kernel has taken `sent`.  Calls that all accept are enough if one of
them takes something for each byte. -/
structure Contract (n : Nat) (results : List WriteResult) (bufp : List (BitVec 8)) (c : Connection)
    (o : Written) (sent left : List (BitVec 8)) : Prop where
  split : bufp = sent ++ left
  taken : o.connection.taken = c.taken ++ sent
  returns : o.value = some (n : Int) ↔ left = []
  accepts : (∀ r ∈ results, r.Accepts) → (∀ r ∈ o.results, r.Accepts) ∧
    takes results ≤ takes o.results + sent.length ∧
    (o.value = some (n : Int) ∨ o.value = none ∧ o.results = [])

section

variable {n : Nat} {result : WriteResult} {rest : List WriteResult} {bufp : List (BitVec 8)}
  {c : Connection}

theorem writeLoop_done (results : List WriteResult) :
    writeLoop n results [] c = { value := some n, connection := c, results := results } := by
  unfold writeLoop
  exact if_pos rfl

/-- A call that takes something, and the loop behind it. -/
theorem writeLoop_taken {count : Nat} (hcount : 0 < count) (hne : bufp ≠ []) :
    writeLoop n (.taken count :: rest) bufp c =
      writeLoop n rest (bufp.drop count) { c with taken := c.taken ++ bufp.take count } := by
  have hlength := List.length_pos_iff.mpr hne
  have hpositive : ¬((min count bufp.length : Nat) : Int) ≤ 0 := by omega
  have hdrop : bufp.drop (min count bufp.length) = bufp.drop count := by
    rcases Nat.le_total count bufp.length with h | h
    · rw [Nat.min_eq_left h]
    · rw [Nat.min_eq_right h, List.drop_eq_nil_of_le h, List.drop_length]
  rw [writeLoop, if_neg hne]
  simp only [write, ← Nat.cast_min, if_neg hpositive, Int.toNat_natCast, hdrop]

/-- A call that takes nothing ends the loop unless `errno` stands at the interruption. -/
theorem writeLoop_idle (hidle : (write result bufp c).1 ≤ 0) (hne : bufp ≠ []) :
    writeLoop n (result :: rest) bufp c =
      if (write result bufp c).2.errno = eintr then
        writeLoop n rest bufp (write result bufp c).2
      else { value := some (-1), connection := (write result bufp c).2, results := rest } := by
  rw [writeLoop, if_neg hne]
  simp only [if_pos hidle]

theorem write_idle (hidle : (write result bufp c).1 ≤ 0) (hne : bufp ≠ []) :
    (write result bufp c).2.taken = c.taken ∧
      (result.Accepts → result.isTaken = false ∧ (write result bufp c).2.errno = eintr) := by
  have hlength := List.length_pos_iff.mpr hne
  cases result with
  | taken count =>
    have hzero : count = 0 := by
      simp only [write] at hidle
      omega
    subst hzero
    exact ⟨List.append_nil _, fun h => absurd h (Nat.lt_irrefl 0)⟩
  | failed errno => exact ⟨rfl, fun h => ⟨rfl, h⟩⟩

end

/-- One call and the rest of the loop. -/
theorem writeLoop_contract (n : Nat) (results : List WriteResult) (bufp : List (BitVec 8))
    (c : Connection) :
    ∃ sent left, Contract n results bufp c (writeLoop n results bufp c) sent left := by
  induction results generalizing bufp c with
  | nil =>
    by_cases hbufp : bufp = []
    · subst hbufp
      rw [writeLoop_done]
      exact ⟨[], [], rfl, (List.append_nil _).symm, iff_of_true rfl rfl,
        fun h => ⟨h, Nat.le_refl _, Or.inl rfl⟩⟩
    · rw [writeLoop, if_neg hbufp]
      exact ⟨[], bufp, rfl, (List.append_nil _).symm, iff_of_false (by simp) hbufp,
        fun h => ⟨h, Nat.le_refl _, Or.inr ⟨rfl, rfl⟩⟩⟩
  | cons result rest ih =>
    by_cases hbufp : bufp = []
    · subst hbufp
      rw [writeLoop_done]
      exact ⟨[], [], rfl, (List.append_nil _).symm, iff_of_true rfl rfl,
        fun h => ⟨h, Nat.le_refl _, Or.inl rfl⟩⟩
    by_cases hidle : (write result bufp c).1 ≤ 0
    · obtain ⟨htaken, haccepts⟩ := write_idle hidle hbufp
      rw [writeLoop_idle hidle hbufp]
      by_cases heintr : (write result bufp c).2.errno = eintr
      · obtain ⟨sent, left, hsplit, hsent, hreturns, hrest⟩ := ih bufp (write result bufp c).2
        rw [if_pos heintr]
        refine ⟨sent, left, hsplit, htaken ▸ hsent, hreturns, fun h => ?_⟩
        have hcount : takes (result :: rest) = takes rest :=
          List.countP_cons_of_neg (by simp [(haccepts (h _ List.mem_cons_self)).1])
        rw [hcount]
        exact hrest fun r hr => h r (List.mem_cons_of_mem _ hr)
      · rw [if_neg heintr]
        refine ⟨[], bufp, rfl, htaken.trans (List.append_nil _).symm, iff_of_false ?_ hbufp,
          fun h => absurd (haccepts (h _ List.mem_cons_self)).2 heintr⟩
        exact fun h => absurd (Option.some.inj h) (by omega)
    · obtain ⟨count, rfl, hcount⟩ : ∃ count, result = .taken count ∧ 0 < count := by
        cases result with
        | taken count => exact ⟨count, rfl, by simp only [write] at hidle; omega⟩
        | failed errno => exact absurd (show (-1 : Int) ≤ 0 by decide) hidle
      obtain ⟨sent, left, hsplit, hsent, hreturns, hrest⟩ :=
        ih (bufp.drop count) { c with taken := c.taken ++ bufp.take count }
      rw [writeLoop_taken hcount hbufp]
      refine ⟨bufp.take count ++ sent, left, ?_, ?_, hreturns, fun h => ?_⟩
      · rw [List.append_assoc, ← hsplit, List.take_append_drop]
      · rw [hsent, List.append_assoc]
      · obtain ⟨hlast, hbound, hend⟩ := hrest fun r hr => h r (List.mem_cons_of_mem _ hr)
        have hone : takes (.taken count :: rest) = takes rest + 1 := List.countP_cons_of_pos rfl
        have hlength := List.length_pos_iff.mpr hbufp
        refine ⟨hlast, ?_, hend⟩
        rw [hone, List.length_append, List.length_take]
        omega

/-! ## All writes -/

/-- What has arrived of writes of which not even the first is complete. -/
def Unfinished : List (List (BitVec 8)) → List (BitVec 8) → Prop
  | [], part => part = []
  | bytes :: _, part => part <+: bytes ∧ part ≠ bytes

theorem Unfinished.length_lt {writes : List (List (BitVec 8))} {part : List (BitVec 8)}
    (h : Unfinished writes part) (hne : writes ≠ []) : part.length < writes.flatten.length := by
  cases writes with
  | nil => exact absurd rfl hne
  | cons bytes rest =>
    obtain ⟨hstarts, hpart⟩ := h
    have hlt : part.length < bytes.length :=
      Nat.lt_of_le_of_ne hstarts.length_le fun heq => hpart (hstarts.eq_of_length heq)
    rw [List.flatten_cons, List.length_append]
    omega

/-- Of the writes those of `done` have arrived, and `part` of the next. -/
structure Delivers (writes : List (List (BitVec 8))) (w : Wire)
    (o : Outcome Empty Wire (Except Stop Unit)) (done rest : List (List (BitVec 8)))
    (part : List (BitVec 8)) : Prop where
  split : writes = done ++ rest
  unfinished : Unfinished rest part
  taken : o.state.connection.taken = w.connection.taken ++ (done.flatten ++ part)
  returns : o.value = .ok () ↔ rest = []
  accepts : (∀ r ∈ w.results, r.Accepts) → (∀ r ∈ o.state.results, r.Accepts) ∧
    takes w.results ≤ takes o.state.results + (done.flatten ++ part).length ∧
    (o.value = .ok () ∨ o.value = .error .running ∧ o.state.results = [])

theorem checkedRioWriten_value (bytes : List (BitVec 8)) (w : Wire) :
    let o := rioWriten bytes w.connection w.results
    ((checkedRioWriten bytes w).value = .ok () ↔ o.value = some (bytes.length : Int)) ∧
      (o.value = none → (checkedRioWriten bytes w).value = .error .running) := by
  intro o
  cases h : o.value with
  | none => simp [checkedRioWriten, o, h]
  | some n => by_cases hn : n = (bytes.length : Int) <;> simp [checkedRioWriten, o, h, hn]

/-- One write and the rest. -/
theorem sendAll_delivers (writes : List (List (BitVec 8))) (w : Wire) :
    ∃ done rest part, Delivers writes w (sendAll writes w) done rest part := by
  induction writes generalizing w with
  | nil =>
    exact ⟨[], [], [], rfl, rfl, (List.append_nil _).symm, iff_of_true rfl rfl,
      fun h => ⟨h, Nat.le_refl _, Or.inl rfl⟩⟩
  | cons bytes writes ih =>
    obtain ⟨sent, left, hsplit, htaken, hreturns, haccepts⟩ :=
      writeLoop_contract bytes.length w.results bytes w.connection
    obtain ⟨hok, hrunning⟩ := checkedRioWriten_value bytes w
    by_cases hleft : left = []
    · have hvalue := hok.mpr (hreturns.mpr hleft)
      obtain ⟨done, rest, part, hwrites, hpart, hrest, hend, hbound⟩ :=
        ih (checkedRioWriten bytes w).state
      rw [hleft, List.append_nil] at hsplit
      subst hsplit
      rw [sendAll, Halting.bind_apply_ok hvalue]
      refine ⟨bytes :: done, rest, part, by rw [hwrites]; rfl, hpart, ?_, hend, fun h => ?_⟩
      · rw [hrest, show (checkedRioWriten bytes w).state.connection.taken = _ from htaken]
        simp only [List.flatten_cons, List.append_assoc]
      · obtain ⟨hleft, hcount, -⟩ := haccepts h
        obtain ⟨hlast, hcount', hstop⟩ := hbound hleft
        refine ⟨hlast, ?_, hstop⟩
        have hsum : takes w.results ≤ takes (checkedRioWriten bytes w).state.results +
            bytes.length := hcount
        simp only [List.flatten_cons, List.append_assoc, List.length_append] at hcount' ⊢
        omega
    · have hvalue : (checkedRioWriten bytes w).value ≠ .ok () :=
        fun h => hleft (hreturns.mp (hok.mp h))
      obtain ⟨stop, hstop⟩ : ∃ stop, (checkedRioWriten bytes w).value = .error stop := by
        cases h : (checkedRioWriten bytes w).value with
        | ok => exact absurd h hvalue
        | error stop => exact ⟨stop, rfl⟩
      rw [sendAll, Halting.bind_apply_error hstop]
      refine ⟨[], bytes :: writes, sent, rfl, ⟨⟨left, hsplit.symm⟩, fun h => ?_⟩, htaken,
        iff_of_false (by simp) (List.cons_ne_nil _ _), fun h => ?_⟩
      · rw [h] at hsplit
        exact hleft (List.append_right_eq_self.mp hsplit.symm)
      · obtain ⟨hlast, hcount, hend⟩ := haccepts h
        refine ⟨hlast, hcount, Or.inr ?_⟩
        rcases hend with hend | ⟨hnone, hresults⟩
        · exact absurd (hreturns.mp hend) hleft
        · exact ⟨hstop.symm.trans (hrunning hnone), hresults⟩

end Csapp

open Csapp (sendAll takes Unfinished Wire)

/-- Whatever the calls of `write` return, a number of whole writes of the session arrives,
each of which a scanner of the same rules reads as one token, and a part of the next: all of
them exactly if every write returns.  Calls that fail only when they are interrupted end no
session, and are enough if one of them takes something for each byte. -/
theorem session_delivered (build : Build) (arm : Core) (packet buffer : Nat → BitVec 8)
    (inputs : List (Input × Context)) (w : Wire) :
    let writes := output (runSession build inputs (newSession arm packet buffer)).trace
    let o := sendAll writes w
    (∃ done rest part, writes = done ++ rest ∧ Unfinished rest part ∧
      o.state.connection.taken = w.connection.taken ++ (done.flatten ++ part) ∧
      List.Forall₂ ReadAs done (scan done.flatten) ∧ (o.value = .ok () ↔ rest = [])) ∧
    ((∀ r ∈ w.results, r.Accepts) → o.value ≠ .error .exit ∧
      (writes.flatten.length ≤ takes w.results → o.value = .ok ())) := by
  intro writes o
  have hconforms : ∀ bytes ∈ writes, Conforms bytes :=
    (says_session build inputs (follows_newSession arm packet buffer)).conforms
  obtain ⟨done, rest, part, hsplit, hpart, htaken, hreturns, haccepts⟩ :=
    Csapp.sendAll_delivers writes w
  refine ⟨⟨done, rest, part, hsplit, hpart, htaken, scan_output fun bytes hbytes => ?_, hreturns⟩,
    fun h => ?_⟩
  · exact hconforms bytes (hsplit ▸ List.mem_append_left _ hbytes)
  · obtain ⟨-, hcount, hend⟩ := haccepts h
    rcases hend with hok | ⟨hrunning, hresults⟩
    · exact ⟨fun hexit => absurd (hok.symm.trans hexit) (by simp), fun _ => hok⟩
    · refine ⟨fun hexit => absurd (hrunning.symm.trans hexit) (by simp), fun henough => ?_⟩
      by_contra hnot
      have hlonger := hpart.length_lt fun hrest => hnot (hreturns.mpr hrest)
      have hzero : takes (sendAll writes w).state.results = 0 := by
        rw [hresults]
        rfl
      rw [hsplit, List.flatten_append, List.length_append] at henough
      rw [List.length_append] at hcount
      omega

end ArmSimulator
