/-
Machines that take one step at a time.

A machine is a partial function on its states: it stops where it is undefined.  A state
has at most one run, so total correctness is one judgement: from every state of `P` the
machine comes, after some number of steps, to a state of `Q`.  The rules below are those
of a sequence, of a case split and of a loop with a variant.  A loop whose end is not
known in advance has a rule of its own: it stops exactly when its data does.
-/
import Mathlib.Data.Nat.Find
import Mathlib.Logic.Function.Iterate
import Mathlib.Order.WellFounded

namespace Machine

variable {σ α : Type} {step : σ → Option σ}

/-- The state after `n` steps, where there is one. -/
def after (step : σ → Option σ) : Nat → σ → Option σ
  | 0, s => some s
  | n + 1, s => (step s).bind (after step n)

theorem after_one (step : σ → Option σ) (s : σ) : after step 1 s = step s :=
  Option.bind_fun_some (step s)

theorem after_cons {n : Nat} {s t u : σ} (h : step s = some t) (h' : after step n t = some u) :
    after step (n + 1) s = some u := by
  rw [after, h, Option.bind_some, h']

theorem after_add (step : σ → Option σ) (m n : Nat) (s : σ) :
    after step (m + n) s = (after step m s).bind (after step n) := by
  induction m generalizing s with
  | zero => rw [Nat.zero_add, after, Option.bind_some]
  | succ m ih =>
    rw [Nat.succ_add, after, after, Option.bind_assoc]
    exact congrArg (step s).bind (funext ih)

/-- A run can be cut after any of its steps. -/
theorem exists_after_of_le {m n : Nat} {s t : σ} (h : after step n s = some t) (hle : m ≤ n) :
    ∃ u, after step m s = some u ∧ after step (n - m) u = some t := by
  have hsplit := after_add step m (n - m) s
  rw [Nat.add_sub_cancel' hle, h] at hsplit
  exact Option.bind_eq_some_iff.mp hsplit.symm

/-- A loop of `n` turns, each of `c` steps. -/
theorem exists_after_mul {I : Nat → σ → Prop} {c : Nat}
    (h : ∀ n s, I (n + 1) s → ∃ t, after step c s = some t ∧ I n t) {n : Nat} {s : σ} (hI : I n s) :
    ∃ t, after step (c * n) s = some t ∧ I 0 t := by
  induction n generalizing s with
  | zero => exact ⟨s, rfl, hI⟩
  | succ n ih =>
    obtain ⟨t, ht, hIt⟩ := h n s hI
    obtain ⟨u, hu, hIu⟩ := ih hIt
    exact ⟨u, by rw [Nat.mul_succ, Nat.add_comm, after_add, ht, Option.bind_some, hu], hIu⟩

/-! ## Total correctness -/

def Leads (step : σ → Option σ) (P Q : σ → Prop) : Prop :=
  ∀ s, P s → ∃ n t, after step n s = some t ∧ Q t

namespace Leads

variable {P P' Q Q' R : σ → Prop}

theorem of_imp (h : ∀ s, P s → Q s) : Leads step P Q :=
  fun s hs => ⟨0, s, rfl, h s hs⟩

theorem of_after (n : Nat) (h : ∀ s, P s → ∃ t, after step n s = some t ∧ Q t) :
    Leads step P Q := fun s hs => ⟨n, h s hs⟩

theorem trans (hP : Leads step P Q) (hQ : Leads step Q R) : Leads step P R := by
  intro s hs
  obtain ⟨m, t, ht, hQt⟩ := hP s hs
  obtain ⟨n, u, hu, hRu⟩ := hQ t hQt
  exact ⟨m + n, u, by rw [after_add, ht, Option.bind_some, hu], hRu⟩

theorem mono (h : Leads step P Q) (hP : ∀ s, P' s → P s) (hQ : ∀ s, Q s → Q' s) :
    Leads step P' Q' := by
  intro s hs
  obtain ⟨n, t, ht, hQt⟩ := h s (hP s hs)
  exact ⟨n, t, ht, hQ t hQt⟩

theorem or (hP : Leads step P R) (hQ : Leads step Q R) : Leads step (fun s => P s ∨ Q s) R := by
  intro s hs
  rcases hs with hs | hs
  · exact hP s hs
  · exact hQ s hs

/-- A turn of the loop reaches the exit or the invariant at a smaller value of the variant. -/
theorem loop {r : α → α → Prop} (hr : WellFounded r) {I : α → σ → Prop}
    (h : ∀ x, Leads step (I x) fun t => Q t ∨ ∃ y, r y x ∧ I y t) (x : α) :
    Leads step (I x) Q := by
  induction x using hr.induction with
  | h x ih =>
    refine trans (h x) (or (of_imp fun _ hQ => hQ) ?_)
    rintro t ⟨y, hy, hI⟩
    exact ih y hy t hI

end Leads

/-! ## Loops that need not end

`I x s` says that the machine is at the head of the loop with data `x`. -/

/-- The machine comes to a stop in a state of `Q`. -/
def Stops (step : σ → Option σ) (Q : σ → Prop) (s : σ) : Prop :=
  ∃ n t, after step n s = some t ∧ step t = none ∧ Q t

section

variable {I : α → σ → Prop} {f : α → α} {done : α → Prop} {Q : σ → Prop}
  (hturn : ∀ x s, I x s → ¬done x → ∃ n t, after step (n + 1) s = some t ∧ I (f x) t)

include hturn

/-- As long as the data is not done the loop turns. -/
theorem exists_turns {j : Nat} {x : α} {s : σ} (hI : I x s) (hdone : ∀ i, i < j → ¬done (f^[i] x)) :
    ∃ n t, j ≤ n ∧ after step n s = some t ∧ I (f^[j] x) t := by
  induction j with
  | zero => exact ⟨0, s, Nat.le_refl 0, rfl, hI⟩
  | succ j ih =>
    obtain ⟨n, t, hn, ht, hIt⟩ := ih fun i hi => hdone i (Nat.lt_succ_of_lt hi)
    obtain ⟨m, u, hu, hIu⟩ := hturn _ t hIt (hdone j (Nat.lt_succ_self j))
    refine ⟨n + (m + 1), u, by omega, ?_, ?_⟩
    · rw [after_add, ht, Option.bind_some, hu]
    · rw [Function.iterate_succ_apply']
      exact hIu

/-- A loop whose data is never done takes any number of steps. -/
theorem runs_forever {x : α} {s : σ} (hI : I x s) (hdone : ∀ i, ¬done (f^[i] x)) (n : Nat) :
    ∃ t, after step n s = some t := by
  obtain ⟨m, t, hm, ht, -⟩ := exists_turns hturn hI (j := n) fun i _ => hdone i
  obtain ⟨u, hu, -⟩ := exists_after_of_le ht hm
  exact ⟨u, hu⟩

/-- The loop stops exactly when its data is done at some turn. -/
theorem stops_iff (hexit : ∀ x s, I x s → done x → Stops step Q s) {x : α} {s : σ} (hI : I x s) :
    Stops step Q s ↔ ∃ j, done (f^[j] x) := by
  constructor
  · rintro ⟨n, t, ht, hnone, -⟩
    by_contra hnever
    obtain ⟨u, hu⟩ := runs_forever hturn hI (fun i hi => hnever ⟨i, hi⟩) (n + 1)
    rw [after_add, ht, Option.bind_some, after_one, hnone] at hu
    cases hu
  · intro hsome
    classical
    have hfirst : ∀ i, i < Nat.find hsome → ¬done (f^[i] x) := fun i hi => Nat.find_min hsome hi
    obtain ⟨m, t, -, ht, hIt⟩ := exists_turns hturn hI hfirst
    obtain ⟨n, u, hu, hstop⟩ := hexit _ t hIt (Nat.find_spec hsome)
    exact ⟨m + n, u, by rw [after_add, ht, Option.bind_some, hu], hstop⟩

end

end Machine
