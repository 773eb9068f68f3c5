/-
Traced computations that can stop.

`Halting ω ε σ α` returns an `α` or stops for a reason `ω`; what it did to the state and
the events it produced up to there are kept in both cases.  `Keeps` says that an
invariant of the state survives a computation, however it ends, and that its events meet
a condition while the invariant holds.
-/
import ArmSimulator.Base.Traced

def Halting (ω ε σ α : Type) : Type := Traced ε σ (Except ω α)

namespace Halting

variable {ω ε σ α β : Type}

instance : Monad (Halting ω ε σ) where
  pure a := fun s => { value := .ok a, state := s, trace := [] }
  bind m f := fun s =>
    match (m s).value with
    | .error w => { value := .error w, state := (m s).state, trace := (m s).trace }
    | .ok a =>
      { value := (f a (m s).state).value, state := (f a (m s).state).state,
        trace := (m s).trace ++ (f a (m s).state).trace }

def halt (w : ω) : Halting ω ε σ α := fun s => { value := .error w, state := s, trace := [] }

theorem pure_apply (a : α) (s : σ) :
    (pure a : Halting ω ε σ α) s = { value := .ok a, state := s, trace := [] } := rfl

theorem bind_apply_ok {m : Halting ω ε σ α} {s : σ} {a : α} (h : (m s).value = .ok a)
    (f : α → Halting ω ε σ β) :
    (m >>= f) s =
      { value := (f a (m s).state).value, state := (f a (m s).state).state,
        trace := (m s).trace ++ (f a (m s).state).trace } := by
  show (match (m s).value with | .error w => _ | .ok a => _) = _
  rw [h]

theorem bind_apply_error {m : Halting ω ε σ α} {s : σ} {w : ω} (h : (m s).value = .error w)
    (f : α → Halting ω ε σ β) :
    (m >>= f) s = { value := .error w, state := (m s).state, trace := (m s).trace } := by
  show (match (m s).value with | .error w => _ | .ok a => _) = _
  rw [h]

theorem bind_state_ok {m : Halting ω ε σ α} {s s' : σ} {a : α} (h : (m s).value = .ok a)
    (hs : (m s).state = s') (f : α → Halting ω ε σ β) :
    ((m >>= f) s).state = (f a s').state := by
  rw [bind_apply_ok h, hs]

/-- What a sequence has done when it returns. -/
theorem of_bind_ok {m : Halting ω ε σ α} {f : α → Halting ω ε σ β} {s : σ} {b : β}
    (h : ((m >>= f) s).value = .ok b) :
    ∃ a, (m s).value = .ok a ∧ (f a (m s).state).value = .ok b := by
  cases hm : (m s).value with
  | error w =>
    rw [bind_apply_error hm] at h
    cases h
  | ok a =>
    rw [bind_apply_ok hm] at h
    exact ⟨a, rfl, h⟩

theorem bind_assoc {γ : Type} (m : Halting ω ε σ α) (f : α → Halting ω ε σ β)
    (k : β → Halting ω ε σ γ) : (m >>= f >>= k) = m >>= fun a => f a >>= k := by
  funext s
  cases hm : (m s).value with
  | error w =>
    have hmf : ((m >>= f) s).value = .error w := by rw [bind_apply_error hm]
    rw [bind_apply_error hmf, bind_apply_error hm, bind_apply_error hm]
  | ok a =>
    rw [bind_apply_ok hm]
    cases hf : (f a (m s).state).value with
    | error w =>
      have hmf : ((m >>= f) s).value = .error w := by rw [bind_apply_ok hm, hf]
      rw [bind_apply_error hmf, bind_apply_error hf, bind_apply_ok hm]
    | ok b =>
      have hmf : ((m >>= f) s).value = .ok b := by rw [bind_apply_ok hm, hf]
      rw [bind_apply_ok hmf, bind_apply_ok hf, bind_apply_ok hm]
      simp only [List.append_assoc]

theorem bind_pure_unit (m : Halting ω ε σ Unit) : (m >>= fun _ => pure ()) = m := by
  funext s
  cases hm : (m s).value with
  | error w =>
    rw [bind_apply_error hm]
    exact Outcome.eq_of_fields hm.symm rfl rfl
  | ok a =>
    rw [bind_apply_ok hm]
    exact Outcome.eq_of_fields hm.symm rfl (List.append_nil _)

theorem ite_bind {c : Prop} [Decidable c] (m n : Halting ω ε σ α) (f : α → Halting ω ε σ β) :
    (if c then m else n) >>= f = if c then m >>= f else n >>= f := by
  by_cases hc : c
  · rw [if_pos hc, if_pos hc]
  · rw [if_neg hc, if_neg hc]

/-! ## Invariants -/

/-- The computation keeps the invariant `I`, and its events meet `G` while it holds. -/
def Keeps (I : σ → Prop) (G : ε → Prop) (m : Halting ω ε σ α) : Prop :=
  ∀ s, I s → I (m s).state ∧ ∀ e ∈ (m s).trace, G e

namespace Keeps

variable {I : σ → Prop} {G : ε → Prop}

theorem pure (a : α) : Keeps I G (Pure.pure a : Halting ω ε σ α) :=
  fun _ hs => ⟨hs, fun _ he => absurd he List.not_mem_nil⟩

theorem halt (w : ω) : Keeps I G (Halting.halt w : Halting ω ε σ α) :=
  fun _ hs => ⟨hs, fun _ he => absurd he List.not_mem_nil⟩

theorem bind {m : Halting ω ε σ α} {f : α → Halting ω ε σ β} (hm : Keeps I G m)
    (hf : ∀ a, Keeps I G (f a)) : Keeps I G (m >>= f) := by
  intro s hs
  obtain ⟨hs', hG⟩ := hm s hs
  cases hv : (m s).value with
  | error w =>
    rw [bind_apply_error hv]
    exact ⟨hs', hG⟩
  | ok a =>
    obtain ⟨hs'', hG'⟩ := hf a (m s).state hs'
    rw [bind_apply_ok hv]
    refine ⟨hs'', fun e he => ?_⟩
    rcases List.mem_append.mp he with he | he
    · exact hG e he
    · exact hG' e he

theorem ite {c : Prop} [Decidable c] {m n : Halting ω ε σ α} (hm : c → Keeps I G m)
    (hn : ¬c → Keeps I G n) : Keeps I G (if c then m else n) := by
  by_cases hc : c
  · rw [if_pos hc]
    exact hm hc
  · rw [if_neg hc]
    exact hn hc

end Keeps

/-! ## Allowed runs

An exact account of the ways a run may end and of the events it may produce: a sequence
is allowed exactly when its first part is, and its second part where the first returns. -/

structure Allowed (W : ω → Prop) (G : ε → Prop) (o : Outcome ε σ (Except ω α)) : Prop where
  stop : ∀ w, o.value = .error w → W w
  events : ∀ e ∈ o.trace, G e

section

variable {W : ω → Prop} {G : ε → Prop}

theorem allowed_ok {o : Outcome ε σ (Except ω α)} {a : α} (h : o.value = .ok a) :
    Allowed W G o ↔ ∀ e ∈ o.trace, G e := by
  refine ⟨Allowed.events, fun hG => ⟨fun w hw => ?_, hG⟩⟩
  cases h.symm.trans hw

theorem allowed_pure (a : α) (s : σ) : Allowed W G ((pure a : Halting ω ε σ α) s) :=
  (allowed_ok rfl).mpr fun _ he => absurd he List.not_mem_nil

theorem allowed_halt_iff {w : ω} {s : σ} : Allowed W G ((halt w : Halting ω ε σ α) s) ↔ W w := by
  refine ⟨fun h => h.stop w rfl, fun h => ⟨fun w' hw => ?_, fun _ he => absurd he List.not_mem_nil⟩⟩
  cases hw
  exact h

theorem allowed_bind_iff {m : Halting ω ε σ α} {f : α → Halting ω ε σ β} {s : σ} :
    Allowed W G ((m >>= f) s) ↔
      Allowed W G (m s) ∧ ∀ a, (m s).value = .ok a → Allowed W G (f a (m s).state) := by
  cases h : (m s).value with
  | error w =>
    rw [bind_apply_error h]
    constructor
    · intro hm
      refine ⟨⟨fun w' hw => ?_, hm.events⟩, fun a ha => ?_⟩
      · cases h.symm.trans hw
        exact hm.stop w rfl
      · cases ha
    · rintro ⟨hm, -⟩
      refine ⟨fun w' hw => ?_, hm.events⟩
      cases hw
      exact hm.stop w h
  | ok a =>
    rw [bind_apply_ok h, allowed_ok h]
    constructor
    · intro hm
      refine ⟨fun e he => hm.events e (List.mem_append_left _ he), fun b hb => ?_⟩
      cases hb
      exact ⟨hm.stop, fun e he => hm.events e (List.mem_append_right _ he)⟩
    · rintro ⟨hm, hf⟩
      refine ⟨(hf a rfl).stop, fun e he => ?_⟩
      rcases List.mem_append.mp he with he | he
      · exact hm e he
      · exact (hf a rfl).events e he

/-- A sequence whose first part always returns. -/
theorem allowed_bind_ok_iff {m : Halting ω ε σ α} {s : σ} {a : α} (h : (m s).value = .ok a)
    (f : α → Halting ω ε σ β) :
    Allowed W G ((m >>= f) s) ↔ (∀ e ∈ (m s).trace, G e) ∧ Allowed W G (f a (m s).state) := by
  rw [allowed_bind_iff, allowed_ok h]
  refine and_congr_right fun _ => ⟨fun hf => hf a h, fun hf b hb => ?_⟩
  cases h.symm.trans hb
  exact hf

/-- A sequence whose second part is allowed on a condition that its first part has no say
in. -/
theorem allowed_bind_iff_of {m : Halting ω ε σ α} {f : α → Halting ω ε σ β} {s : σ} {a : α}
    (h : (m s).value = .ok a) {P : Prop} (hf : ∀ s', Allowed W G (f a s') ↔ P) :
    Allowed W G ((m >>= f) s) ↔ Allowed W G (m s) ∧ P := by
  rw [allowed_bind_ok_iff h, allowed_ok h, hf]

end

end Halting
