/-
Computations over a state that also record what they touch.

`Traced ε σ α` is a deterministic computation on a state `σ` that returns an
`α` and the list of the events `ε` it produced.  The events are an output and
not a part of the state, so that a statement about states never mentions them
and a statement about events never has to undo them.

`Sim` compares two such computations under a relation on their states.  It is an
assume-guarantee judgement: as long as every event of the first computation
meets the assumption `A`, the two return the same value and the same events, end
in related states, and every event meets the guarantee `G`.  A unary invariant is
the case where the two computations and the two states are the same.
-/
import Mathlib.Data.List.Forall2
import Mathlib.Logic.Function.Basic

/-- What a computation returns: its value, the state it leaves and its events. -/
structure Outcome (ε σ α : Type) where
  value : α
  state : σ
  trace : List ε

theorem Outcome.eq_of_fields {ε σ α : Type} {o o' : Outcome ε σ α} (hvalue : o.value = o'.value)
    (hstate : o.state = o'.state) (htrace : o.trace = o'.trace) : o = o' := by
  cases o
  cases o'
  cases hvalue
  cases hstate
  cases htrace
  rfl

def Traced (ε σ α : Type) : Type := σ → Outcome ε σ α

namespace Traced

variable {ε σ τ α β ι : Type}

instance : Monad (Traced ε σ) where
  pure a := fun s => { value := a, state := s, trace := [] }
  bind m f := fun s =>
    let first := m s
    let second := f first.value first.state
    { value := second.value, state := second.state, trace := first.trace ++ second.trace }

@[simp] theorem pure_apply (a : α) (s : σ) :
    (pure a : Traced ε σ α) s = { value := a, state := s, trace := [] } := rfl

@[simp] theorem bind_value (m : Traced ε σ α) (f : α → Traced ε σ β) (s : σ) :
    ((m >>= f) s).value = (f (m s).value (m s).state).value := rfl

@[simp] theorem bind_state (m : Traced ε σ α) (f : α → Traced ε σ β) (s : σ) :
    ((m >>= f) s).state = (f (m s).value (m s).state).state := rfl

@[simp] theorem bind_trace (m : Traced ε σ α) (f : α → Traced ε σ β) (s : σ) :
    ((m >>= f) s).trace = (m s).trace ++ (f (m s).value (m s).state).trace := rfl

/-! ## Runs

A run performs one computation for each input in turn.  A computation that
returns `none` ends the run. -/

def runAll (f : ι → Traced ε σ (Option β)) : List ι → Traced ε σ (List (Option β))
  | [] => pure []
  | i :: rest => do
    match ← f i with
    | none => pure [none]
    | some b => do
      let bs ← runAll f rest
      pure (some b :: bs)

theorem runAll_cons_some {f : ι → Traced ε σ (Option β)} {i : ι} {s : σ} {b : β}
    (h : (f i s).value = some b) (rest : List ι) :
    (runAll f (i :: rest) s).value = some b :: (runAll f rest (f i s).state).value ∧
      (runAll f (i :: rest) s).state = (runAll f rest (f i s).state).state := by
  simp only [runAll, bind_value, bind_state, h, pure_apply, and_self]

theorem runAll_cons_some_trace {f : ι → Traced ε σ (Option β)} {i : ι} {s : σ} {b : β}
    (h : (f i s).value = some b) (rest : List ι) :
    (runAll f (i :: rest) s).trace = (f i s).trace ++ (runAll f rest (f i s).state).trace := by
  simp only [runAll, bind_trace, h, pure_apply, List.append_nil]

theorem runAll_cons_none {f : ι → Traced ε σ (Option β)} {i : ι} {s : σ}
    (h : (f i s).value = none) (rest : List ι) :
    (runAll f (i :: rest) s).value = [none] ∧
      (runAll f (i :: rest) s).state = (f i s).state := by
  simp only [runAll, bind_value, bind_state, h, pure_apply, and_self]

theorem runAll_cons_none_trace {f : ι → Traced ε σ (Option β)} {i : ι} {s : σ}
    (h : (f i s).value = none) (rest : List ι) :
    (runAll f (i :: rest) s).trace = (f i s).trace := by
  simp only [runAll, bind_trace, h, pure_apply, List.append_nil]

theorem runAll_singleton_state (f : ι → Traced ε σ (Option β)) (i : ι) (s : σ) :
    (runAll f [i] s).state = (f i s).state := by
  cases h : (f i s).value with
  | none => exact (runAll_cons_none h []).2
  | some b => rw [(runAll_cons_some h []).2, runAll, pure_apply]

/-- Every event of a run comes from one of its steps. -/
theorem mem_runAll_trace {f : ι → Traced ε σ (Option β)} {inputs : List ι} {s : σ} {e : ε}
    (h : e ∈ (runAll f inputs s).trace) :
    ∃ before i after, inputs = before ++ i :: after ∧ none ∉ (runAll f before s).value ∧
      e ∈ (f i (runAll f before s).state).trace := by
  induction inputs generalizing s with
  | nil => exact absurd h List.not_mem_nil
  | cons i rest ih =>
    cases hi : (f i s).value with
    | none =>
      rw [runAll_cons_none_trace hi] at h
      exact ⟨[], i, rest, rfl, List.not_mem_nil, h⟩
    | some b =>
      rw [runAll_cons_some_trace hi, List.mem_append] at h
      rcases h with h | h
      · exact ⟨[], i, rest, rfl, List.not_mem_nil, h⟩
      · obtain ⟨before, j, after, rfl, hreturns, hmem⟩ := ih h
        obtain ⟨hvalue, hstate⟩ := runAll_cons_some hi before
        refine ⟨i :: before, j, after, rfl, ?_, ?_⟩
        · rw [hvalue, List.mem_cons, not_or]
          exact ⟨(Option.some_ne_none b).symm, hreturns⟩
        · rw [hstate]
          exact hmem

/-- A run that does not end goes on with the inputs behind it. -/
theorem runAll_append_of_not_mem {f : ι → Traced ε σ (Option β)} {inputs : List ι} {s : σ}
    (h : none ∉ (runAll f inputs s).value) (rest : List ι) :
    (runAll f (inputs ++ rest) s).value =
        (runAll f inputs s).value ++ (runAll f rest (runAll f inputs s).state).value ∧
      (runAll f (inputs ++ rest) s).state =
        (runAll f rest (runAll f inputs s).state).state := by
  induction inputs generalizing s with
  | nil => exact ⟨rfl, rfl⟩
  | cons i inputs ih =>
    cases hi : (f i s).value with
    | none =>
      rw [(runAll_cons_none hi inputs).1] at h
      exact absurd List.mem_cons_self h
    | some b =>
      obtain ⟨hvalue, hstate⟩ := runAll_cons_some hi inputs
      obtain ⟨hvalue', hstate'⟩ := runAll_cons_some hi (inputs ++ rest)
      rw [hvalue, List.mem_cons, not_or] at h
      obtain ⟨ihvalue, ihstate⟩ := ih h.2
      rw [List.cons_append, hvalue', hstate', hvalue, hstate, ihvalue, ihstate]
      exact ⟨rfl, rfl⟩

/-- A run that ends ignores the inputs behind it. -/
theorem runAll_append_of_mem {f : ι → Traced ε σ (Option β)} {inputs : List ι} {s : σ}
    (h : none ∈ (runAll f inputs s).value) (rest : List ι) :
    (runAll f (inputs ++ rest) s).value = (runAll f inputs s).value ∧
      (runAll f (inputs ++ rest) s).state = (runAll f inputs s).state := by
  induction inputs generalizing s with
  | nil => exact absurd h List.not_mem_nil
  | cons i inputs ih =>
    cases hi : (f i s).value with
    | none =>
      obtain ⟨hvalue, hstate⟩ := runAll_cons_none hi inputs
      obtain ⟨hvalue', hstate'⟩ := runAll_cons_none hi (inputs ++ rest)
      rw [List.cons_append, hvalue', hstate', hvalue, hstate]
      exact ⟨rfl, rfl⟩
    | some b =>
      obtain ⟨hvalue, hstate⟩ := runAll_cons_some hi inputs
      obtain ⟨hvalue', hstate'⟩ := runAll_cons_some hi (inputs ++ rest)
      rw [hvalue, List.mem_cons] at h
      obtain ⟨ihvalue, ihstate⟩ := ih (h.resolve_left (Option.some_ne_none b).symm)
      rw [List.cons_append, hvalue', hstate', hvalue, hstate, ihvalue, ihstate]
      exact ⟨rfl, rfl⟩

/-! ## Effects

What a computation may do to the state, as a relation between the state before
and the state after, and what events it may produce.  For a reflexive and
transitive relation the judgement composes: a frame condition (some component
stays as it is) and an invariant (if it held before, it holds after) are both of
this kind. -/

/-- The state after is related to the state before by `R`, and every event meets
`G`. -/
def Effect (R : σ → σ → Prop) (G : ε → Prop) (m : Traced ε σ α) : Prop :=
  ∀ s, R s (m s).state ∧ ∀ e ∈ (m s).trace, G e

namespace Effect

variable {R : σ → σ → Prop} {G : ε → Prop}

theorem pure (hrefl : ∀ s, R s s) (a : α) : Effect R G (Pure.pure a : Traced ε σ α) :=
  fun s => ⟨hrefl s, fun _ he => absurd he List.not_mem_nil⟩

theorem bind (htrans : ∀ s t u, R s t → R t u → R s u) {m : Traced ε σ α}
    {f : α → Traced ε σ β} (hm : Effect R G m) (hf : ∀ a, Effect R G (f a)) :
    Effect R G (m >>= f) := by
  intro s
  obtain ⟨hs, hG⟩ := hm s
  obtain ⟨hs', hG'⟩ := hf (m s).value (m s).state
  refine ⟨htrans _ _ _ hs hs', fun e he => ?_⟩
  rcases List.mem_append.mp he with he | he
  · exact hG e he
  · exact hG' e he

theorem ite {c : Prop} [Decidable c] {m n : Traced ε σ α} (hm : c → Effect R G m)
    (hn : ¬c → Effect R G n) : Effect R G (if c then m else n) := by
  by_cases hc : c
  · rw [if_pos hc]
    exact hm hc
  · rw [if_neg hc]
    exact hn hc

end Effect

/-- The state stays as it is, and every event meets `G`. -/
def Reads (G : ε → Prop) (m : Traced ε σ α) : Prop :=
  ∀ s, (m s).state = s ∧ ∀ e ∈ (m s).trace, G e

/-! ## Assume-guarantee simulation -/

/-- From related states, and as long as every event of `m` meets `A`, the two
computations return one value, which meets `V`, and the same events, all of which
meet `G`, and leave related states. -/
def Sim (R : σ → τ → Prop) (A G : ε → Prop) (V : α → Prop)
    (m : Traced ε σ α) (n : Traced ε τ α) : Prop :=
  ∀ s t, R s t → (∀ e ∈ (m s).trace, A e) →
    (n t).value = (m s).value ∧ (n t).trace = (m s).trace ∧
      R (m s).state (n t).state ∧ V (m s).value ∧ ∀ e ∈ (m s).trace, G e

namespace Sim

variable {R : σ → τ → Prop} {A G : ε → Prop} {V : α → Prop} {W : β → Prop}

theorem pure {a : α} (h : V a) :
    Sim R A G V (Pure.pure a : Traced ε σ α) (Pure.pure a : Traced ε τ α) := by
  intro s t hR _
  exact ⟨rfl, rfl, hR, h, fun e he => absurd he List.not_mem_nil⟩

/-- The events of a sequence are those of its two halves, so the assumption on
the whole gives it on each half. -/
theorem bind {m : Traced ε σ α} {n : Traced ε τ α}
    {f : α → Traced ε σ β} {g : α → Traced ε τ β}
    (hm : Sim R A G V m n) (hf : ∀ a, V a → Sim R A G W (f a) (g a)) :
    Sim R A G W (m >>= f) (n >>= g) := by
  intro s t hR hA
  simp only [bind_trace, List.mem_append] at hA
  obtain ⟨hv, htr, hR', hV, hG⟩ := hm s t hR (fun e he => hA e (Or.inl he))
  obtain ⟨hv', htr', hR'', hW, hG'⟩ :=
    hf _ hV (m s).state (n t).state hR' (fun e he => hA e (Or.inr he))
  simp only [bind_value, bind_state, bind_trace, hv, htr]
  refine ⟨hv', by rw [htr'], hR'', hW, fun e he => ?_⟩
  rcases List.mem_append.mp he with he | he
  · exact hG e he
  · exact hG' e he

theorem ite {c : Prop} [Decidable c] {m m' : Traced ε σ α} {n n' : Traced ε τ α}
    (h : c → Sim R A G V m n) (h' : ¬c → Sim R A G V m' n') :
    Sim R A G V (if c then m else m') (if c then n else n') := by
  by_cases hc : c
  · rw [if_pos hc, if_pos hc]
    exact h hc
  · rw [if_neg hc, if_neg hc]
    exact h' hc

/-- An invariant is a simulation of a computation by itself. -/
theorem invariant {I : σ → Prop} {m : Traced ε σ α}
    (h : ∀ s, I s → I (m s).state ∧ V (m s).value ∧ ∀ e ∈ (m s).trace, G e) :
    Sim (fun s t => s = t ∧ I s) A G V m m := by
  rintro s _ ⟨rfl, hI⟩ _
  obtain ⟨hI', hV, hG⟩ := h s hI
  exact ⟨rfl, rfl, ⟨rfl, hI'⟩, hV, hG⟩

theorem runAll {f : ι → Traced ε σ (Option β)} {g : ι → Traced ε τ (Option β)}
    (h : ∀ i, Sim R A G (fun _ => True) (f i) (g i)) (inputs : List ι) :
    Sim R A G (fun _ => True) (Traced.runAll f inputs) (Traced.runAll g inputs) := by
  induction inputs with
  | nil => exact Sim.pure trivial
  | cons i rest ih =>
    refine Sim.bind (h i) fun b _ => ?_
    cases b with
    | none => exact Sim.pure trivial
    | some b => exact Sim.bind ih fun _ _ => Sim.pure trivial

/-- Runs on two lists of inputs that are related one by one. -/
theorem runAll_of_forall₂ {f g : ι → Traced ε σ (Option β)} {R : σ → σ → Prop} {P : ι → ι → Prop}
    (h : ∀ i j, P i j → Sim R A G (fun _ => True) (f i) (g j)) {inputs inputs' : List ι}
    (hinputs : List.Forall₂ P inputs inputs') :
    Sim R A G (fun _ => True) (Traced.runAll f inputs) (Traced.runAll g inputs') := by
  induction hinputs with
  | nil => exact Sim.pure trivial
  | cons hij _ ih =>
    refine Sim.bind (h _ _ hij) fun b _ => ?_
    cases b with
    | none => exact Sim.pure trivial
    | some b => exact Sim.bind ih fun _ _ => Sim.pure trivial

/-- A computation simulates itself on one state. -/
theorem refl (m : Traced ε σ α) : Sim (· = ·) A (fun _ => True) (fun _ => True) m m := by
  rintro s _ rfl _
  exact ⟨rfl, rfl, rfl, trivial, fun _ _ => trivial⟩

end Sim

end Traced
