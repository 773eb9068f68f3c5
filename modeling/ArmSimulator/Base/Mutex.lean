/-
Threads that share a state behind one mutex.

A thread has data of its own and a list of jobs.  A job works outside of the lock first,
where it must neither see nor touch the shared state, and then may take the lock and
work on both.  The work under the lock is a `Resumption`: any way to cut it into atomic
steps, with which the steps of the other threads interleave.

The main result is `Reachable.explained`: whatever the interleaving, the state is the one
that whole jobs leave when they run one after the other, in the order in which they end,
followed by the part of the jobs that are under way.
-/
import Mathlib.Logic.Function.Basic

namespace Mutex

/-! ## Work under the lock -/

/-- A computation cut into atomic steps.  What comes next may depend on what a step has
seen. -/
inductive Resumption (τ : Type) where
  | done
  | step (f : τ → Option τ) (next : τ → Resumption τ)

def Resumption.eval {τ : Type} : Resumption τ → τ → Option τ
  | .done, s => some s
  | .step f next, s =>
    match f s with
    | none => none
    | some s' => (next s').eval s'

/-! ## Jobs -/

section

variable {σ π : Type}

/-- What a job does: the part outside of the lock, which returns what is left to do under
it, if anything. -/
structure Transaction (σ π : Type) where
  outside : σ → π → Option (π × Option (σ × π → Option (σ × π)))
  blind : ∀ s s' p, outside s p = outside s' p

/-- The job in one piece. -/
def Transaction.run (t : Transaction σ π) (s : σ) (p : π) : Option (σ × π) :=
  match t.outside s p with
  | none => none
  | some (p', none) => some (s, p')
  | some (p', some f) => f (s, p')

/-- Where a thread is in its job. -/
inductive Phase (σ π : Type) where
  | idle
  | waiting (f : σ × π → Option (σ × π))
  | inside (r : Resumption (σ × π))

end

/-! ## Interleavings -/

section

variable {ι : Type} [DecidableEq ι] {σ : Type} {π J : ι → Type}

structure Config (σ : Type) (π J : ι → Type) where
  shared : σ
  own : ∀ i, π i
  todo : ∀ i, List (J i)
  phase : ∀ i, Phase σ (π i)
  owner : Option ι

/-- All threads at the start of their jobs, and the lock free. -/
def Config.start (s : σ) (p : ∀ i, π i) (jobs : ∀ i, List (J i)) : Config σ π J where
  shared := s
  own := p
  todo := jobs
  phase _ := .idle
  owner := none

variable (T : ∀ i, J i → Transaction σ (π i))

/-- One atomic step of one thread.  A step that does not return has no successor: the
process has ended, or the thread runs for ever. -/
inductive Step : Config σ π J → Config σ π J → Prop where
  /-- A job that does not need the lock. -/
  | free {c : Config σ π J} {i : ι} {j : J i} {rest : List (J i)} {p : π i}
      (phase : c.phase i = .idle) (todo : c.todo i = j :: rest)
      (outside : (T i j).outside c.shared (c.own i) = some (p, none)) :
      Step c
        { c with own := Function.update c.own i p, todo := Function.update c.todo i rest }
  /-- The part of a job outside of the lock. -/
  | outside {c : Config σ π J} {i : ι} {j : J i} {rest : List (J i)} {p : π i}
      {f : σ × π i → Option (σ × π i)} (phase : c.phase i = .idle) (todo : c.todo i = j :: rest)
      (outside : (T i j).outside c.shared (c.own i) = some (p, some f)) :
      Step c
        { c with
          own := Function.update c.own i p
          todo := Function.update c.todo i rest
          phase := Function.update c.phase i (.waiting f) }
  /-- The lock is free and is taken.  The work ahead may be cut in any way. -/
  | acquire {c : Config σ π J} {i : ι} {f : σ × π i → Option (σ × π i)}
      {r : Resumption (σ × π i)} (phase : c.phase i = .waiting f) (owner : c.owner = none)
      (cut : ∀ s, r.eval s = f s) :
      Step c { c with phase := Function.update c.phase i (.inside r), owner := some i }
  | inside {c : Config σ π J} {i : ι} {f : σ × π i → Option (σ × π i)}
      {next : σ × π i → Resumption (σ × π i)} {s : σ} {p : π i}
      (phase : c.phase i = .inside (.step f next)) (step : f (c.shared, c.own i) = some (s, p)) :
      Step c
        { c with
          shared := s
          own := Function.update c.own i p
          phase := Function.update c.phase i (.inside (next (s, p))) }
  | release {c : Config σ π J} {i : ι} (phase : c.phase i = .inside .done) :
      Step c { c with phase := Function.update c.phase i .idle, owner := none }

inductive Reachable (c : Config σ π J) : Config σ π J → Prop where
  | refl : Reachable c c
  | step {c' c'' : Config σ π J} (reachable : Reachable c c') (step : Step T c' c'') :
      Reachable c c''

/-! ## One job after the other -/

def runJob (e : Σ i, J i) (s : σ) (p : ∀ i, π i) : Option (σ × ∀ i, π i) :=
  ((T e.1 e.2).run s (p e.1)).map fun q => (q.1, Function.update p e.1 q.2)

def runJobs : List (Σ i, J i) → σ → (∀ i, π i) → Option (σ × ∀ i, π i)
  | [], s, p => some (s, p)
  | e :: rest, s, p =>
    match runJob T e s p with
    | none => none
    | some (s', p') => runJobs rest s' p'

theorem runJobs_append (log : List (Σ i, J i)) (e : Σ i, J i) (s : σ) (p : ∀ i, π i) :
    runJobs T (log ++ [e]) s p =
      match runJobs T log s p with
      | none => none
      | some (s', p') => runJob T e s' p' := by
  induction log generalizing s p with
  | nil =>
    simp only [List.nil_append, runJobs]
    cases runJob T e s p <;> rfl
  | cons e' rest ih =>
    simp only [List.cons_append, runJobs]
    cases runJob T e' s p with
    | none => rfl
    | some q => exact ih q.1 q.2

/-- The jobs of one thread in a log. -/
def jobsOf (i : ι) : List (Σ i, J i) → List (J i)
  | [] => []
  | ⟨j, x⟩ :: rest => if h : j = i then h ▸ x :: jobsOf i rest else jobsOf i rest

theorem jobsOf_append (i : ι) (log : List (Σ i, J i)) (e : Σ i, J i) :
    jobsOf i (log ++ [e]) = jobsOf i log ++ jobsOf i [e] := by
  induction log with
  | nil => rfl
  | cons e' rest ih =>
    obtain ⟨j, x⟩ := e'
    rw [List.cons_append, jobsOf, jobsOf]
    by_cases h : j = i
    · rw [dif_pos h, dif_pos h, ih]
      rfl
    · rw [dif_neg h, dif_neg h, ih]

theorem jobsOf_self (i : ι) (j : J i) : jobsOf i [⟨i, j⟩] = [j] := by
  simp [jobsOf]

theorem jobsOf_of_ne {i k : ι} (h : k ≠ i) (j : J k) : jobsOf i [⟨k, j⟩] = [] := by
  simp [jobsOf, h]

/-! ## Every interleaving is explained by whole jobs -/

/-- How far a thread has got from its state `p₀`, when the shared state was `s₀`. -/
inductive Progress {σ π J : Type} (T : J → Transaction σ π) (s₀ : σ) (p₀ : π) (shared : σ) :
    Option J → Phase σ π → π → Prop where
  | idle : Progress T s₀ p₀ shared none .idle p₀
  | waiting {j : J} {p : π} {f : σ × π → Option (σ × π)}
      (outside : (T j).outside s₀ p₀ = some (p, some f)) :
      Progress T s₀ p₀ shared (some j) (.waiting f) p
  /-- What is left to do gives what the whole gives. -/
  | inside {j : J} {p p' : π} {f : σ × π → Option (σ × π)} {r : Resumption (σ × π)}
      (outside : (T j).outside s₀ p₀ = some (p', some f))
      (rest : r.eval (shared, p) = f (s₀, p')) :
      Progress T s₀ p₀ shared (some j) (.inside r) p

/-- A thread that is not under the lock does not see the shared state. -/
theorem Progress.rebase {σ π J : Type} {T : J → Transaction σ π} {s₀ : σ} {p₀ : π} {shared : σ}
    {current : Option J} {phase : Phase σ π} {p : π}
    (h : Progress T s₀ p₀ shared current phase p) (hout : ∀ r, phase ≠ .inside r) (s₁ shared' : σ) :
    Progress T s₁ p₀ shared' current phase p := by
  cases h with
  | idle => exact .idle
  | waiting outside =>
    rw [(T _).blind s₀ s₁] at outside
    exact .waiting outside
  | inside outside rest => exact absurd rfl (hout _)

/-- The whole jobs of `log` lead from `s` and `p` to `s₀` and `p₀`, and from there each
thread has begun its current job, at most one of them under the lock. -/
structure Explained (s : σ) (p : ∀ i, π i) (jobs : ∀ i, List (J i)) (c : Config σ π J)
    (log : List (Σ i, J i)) (current : ∀ i, Option (J i)) (s₀ : σ) (p₀ : ∀ i, π i) : Prop where
  serial : runJobs T log s p = some (s₀, p₀)
  progress : ∀ i, Progress (T i) s₀ (p₀ i) c.shared (current i) (c.phase i) (c.own i)
  owner : ∀ i, (∃ r, c.phase i = .inside r) ↔ c.owner = some i
  shared : c.owner = none → c.shared = s₀
  jobs : ∀ i, jobsOf i log ++ (current i).toList ++ c.todo i = jobs i

variable {T} {s : σ} {p : ∀ i, π i} {jobs : ∀ i, List (J i)} {c c' : Config σ π J}

theorem Explained.start (T : ∀ i, J i → Transaction σ (π i)) (s : σ) (p : ∀ i, π i)
    (jobs : ∀ i, List (J i)) :
    Explained T s p jobs (Config.start s p jobs) [] (fun _ => none) s p where
  serial := rfl
  progress _ := .idle
  owner i := by simp [Config.start]
  shared _ := rfl
  jobs _ := rfl

section

variable {log : List (Σ i, J i)} {current : ∀ i, Option (J i)} {s₀ : σ} {p₀ : ∀ i, π i}
  (h : Explained T s p jobs c log current s₀ p₀)
include h

/-- A thread outside of the lock is explained whatever the shared state is. -/
theorem Explained.rebase {i : ι} (hi : c.owner ≠ some i) (s₁ shared : σ) :
    Progress (T i) s₁ (p₀ i) shared (current i) (c.phase i) (c.own i) := by
  refine (h.progress i).rebase (fun r hr => hi ?_) s₁ shared
  exact (h.owner i).mp ⟨r, hr⟩

theorem Explained.idle {i : ι} (hi : c.phase i = .idle) : current i = none ∧ c.own i = p₀ i := by
  have hprogress := h.progress i
  rw [hi] at hprogress
  generalize hcurrent : current i = x at hprogress
  generalize hown : c.own i = y at hprogress
  cases hprogress
  exact ⟨rfl, rfl⟩

theorem Explained.current_eq_none_iff (i : ι) : current i = none ↔ c.phase i = .idle := by
  have hprogress := h.progress i
  generalize current i = x at hprogress ⊢
  generalize c.phase i = y at hprogress ⊢
  generalize c.own i = z at hprogress
  cases hprogress with
  | idle => simp
  | waiting => simp
  | inside => simp

/-- Mutual exclusion. -/
theorem Explained.exclusive {i k : ι} (hne : i ≠ k) :
    ¬((∃ r, c.phase i = .inside r) ∧ ∃ r, c.phase k = .inside r) := by
  rintro ⟨hi, hk⟩
  have howner := ((h.owner i).mp hi).symm.trans ((h.owner k).mp hk)
  exact hne (Option.some.inj howner)

theorem Explained.free {i : ι} {j : J i} {rest : List (J i)} {q : π i}
    (hphase : c.phase i = .idle) (htodo : c.todo i = j :: rest)
    (houtside : (T i j).outside c.shared (c.own i) = some (q, none)) :
    Explained T s p jobs
      { c with own := Function.update c.own i q, todo := Function.update c.todo i rest }
      (log ++ [⟨i, j⟩]) current s₀ (Function.update p₀ i q) := by
  obtain ⟨hcurrent, hown⟩ := h.idle hphase
  have hrun : (T i j).run s₀ (p₀ i) = some (s₀, q) := by
    rw [hown, (T i j).blind c.shared s₀] at houtside
    rw [Transaction.run, houtside]
  refine ⟨?_, fun k => ?_, h.owner, h.shared, fun k => ?_⟩
  · rw [runJobs_append, h.serial]
    simp only [runJob, hrun, Option.map_some]
  · by_cases hk : k = i
    · subst hk
      simp only [Function.update_self, hphase, hcurrent]
      exact .idle
    · simp only [Function.update_of_ne hk]
      exact h.progress k
  · have hjobs := h.jobs k
    rw [jobsOf_append]
    by_cases hk : k = i
    · subst hk
      rw [htodo, hcurrent] at hjobs
      rw [jobsOf_self, hcurrent, ← hjobs]
      simp
    · simp only [jobsOf_of_ne (Ne.symm hk), List.append_nil, Function.update_of_ne hk, hjobs]

theorem Explained.outside {i : ι} {j : J i} {rest : List (J i)} {q : π i}
    {f : σ × π i → Option (σ × π i)} (hphase : c.phase i = .idle) (htodo : c.todo i = j :: rest)
    (houtside : (T i j).outside c.shared (c.own i) = some (q, some f)) :
    Explained T s p jobs
      { c with
        own := Function.update c.own i q
        todo := Function.update c.todo i rest
        phase := Function.update c.phase i (.waiting f) }
      log (Function.update current i (some j)) s₀ p₀ := by
  obtain ⟨hcurrent, hown⟩ := h.idle hphase
  rw [hown, (T i j).blind c.shared s₀] at houtside
  refine ⟨h.serial, fun k => ?_, fun k => ?_, h.shared, fun k => ?_⟩
  · by_cases hk : k = i
    · subst hk
      simp only [Function.update_self]
      exact .waiting houtside
    · simp only [Function.update_of_ne hk]
      exact h.progress k
  · by_cases hk : k = i
    · subst hk
      have howner := h.owner k
      simp only [hphase, reduceCtorEq, exists_false, false_iff] at howner
      simp [howner]
    · simp only [Function.update_of_ne hk]
      exact h.owner k
  · have hjobs := h.jobs k
    by_cases hk : k = i
    · subst hk
      rw [htodo, hcurrent] at hjobs
      rw [← hjobs]
      simp
    · simp only [Function.update_of_ne hk, hjobs]

theorem Explained.acquire {i : ι} {f : σ × π i → Option (σ × π i)} {r : Resumption (σ × π i)}
    (hphase : c.phase i = .waiting f) (howner : c.owner = none) (hcut : ∀ s, r.eval s = f s) :
    Explained T s p jobs
      { c with phase := Function.update c.phase i (.inside r), owner := some i } log current s₀
      p₀ := by
  refine ⟨h.serial, fun k => ?_, fun k => ?_, fun hnone => absurd hnone (by simp), h.jobs⟩
  · by_cases hk : k = i
    · subst hk
      have hprogress := h.progress k
      rw [hphase] at hprogress
      simp only [Function.update_self]
      generalize current k = x at hprogress
      generalize c.own k = y at hprogress
      cases hprogress with
      | waiting outside =>
        refine .inside outside ?_
        rw [hcut, h.shared howner]
    · simp only [Function.update_of_ne hk]
      exact h.progress k
  · by_cases hk : k = i
    · subst hk
      simp
    · have hout := h.owner k
      rw [howner] at hout
      simp only [Function.update_of_ne hk, Option.some.injEq, hout, Ne.symm hk, reduceCtorEq]

theorem Explained.inside {i : ι} {f : σ × π i → Option (σ × π i)}
    {next : σ × π i → Resumption (σ × π i)} {s' : σ} {q : π i}
    (hphase : c.phase i = .inside (.step f next)) (hstep : f (c.shared, c.own i) = some (s', q)) :
    Explained T s p jobs
      { c with
        shared := s'
        own := Function.update c.own i q
        phase := Function.update c.phase i (.inside (next (s', q))) } log current s₀ p₀ := by
  have howner : c.owner = some i := (h.owner i).mp ⟨_, hphase⟩
  refine ⟨h.serial, fun k => ?_, fun k => ?_, fun hnone => ?_, h.jobs⟩
  · by_cases hk : k = i
    · subst hk
      have hprogress := h.progress k
      rw [hphase] at hprogress
      simp only [Function.update_self]
      generalize current k = x at hprogress
      generalize hown : c.own k = y at hprogress hstep
      cases hprogress with
      | inside outside rest =>
        refine .inside outside ?_
        rw [← rest, Resumption.eval, hstep]
    · simp only [Function.update_of_ne hk]
      refine h.rebase ?_ s₀ s'
      rw [howner]
      exact fun he => hk (Option.some.inj he).symm
  · by_cases hk : k = i
    · subst hk
      simp [howner]
    · simp only [Function.update_of_ne hk]
      exact h.owner k
  · rw [howner] at hnone
    cases hnone

theorem Explained.release {i : ι} (hphase : c.phase i = .inside .done) :
    ∃ j, current i = some j ∧
      Explained T s p jobs { c with phase := Function.update c.phase i .idle, owner := none }
        (log ++ [⟨i, j⟩]) (Function.update current i none) c.shared
        (Function.update p₀ i (c.own i)) := by
  have howner : c.owner = some i := (h.owner i).mp ⟨_, hphase⟩
  have hprogress := h.progress i
  rw [hphase] at hprogress
  generalize hcurrent : current i = x at hprogress
  generalize hown : c.own i = y at hprogress
  cases hprogress with
  | @inside j _ p' f _ outside rest =>
    have hrun : (T i j).run s₀ (p₀ i) = some (c.shared, y) := by
      rw [Transaction.run, outside]
      exact rest.symm
    refine ⟨j, rfl, ?_, fun k => ?_, fun k => ?_, fun _ => rfl, fun k => ?_⟩
    · rw [runJobs_append, h.serial]
      simp only [runJob, hrun, Option.map_some]
    · by_cases hk : k = i
      · subst hk
        simp only [Function.update_self, hown]
        exact .idle
      · simp only [Function.update_of_ne hk]
        refine h.rebase ?_ c.shared c.shared
        rw [howner]
        exact fun he => hk (Option.some.inj he).symm
    · by_cases hk : k = i
      · subst hk
        simp
      · have hout := h.owner k
        rw [howner] at hout
        simp only [Function.update_of_ne hk, hout, Option.some.injEq, Ne.symm hk, reduceCtorEq]
    · have hjobs := h.jobs k
      rw [jobsOf_append]
      by_cases hk : k = i
      · subst hk
        rw [hcurrent] at hjobs
        rw [jobsOf_self, ← hjobs]
        simp
      · simp only [jobsOf_of_ne (Ne.symm hk), List.append_nil, Function.update_of_ne hk, hjobs]

end

/-- Every configuration that the threads reach is explained by whole jobs, one after the
other, and the jobs that are under way. -/
theorem Reachable.explained (h : Reachable T (Config.start s p jobs) c) :
    ∃ log current s₀ p₀, Explained T s p jobs c log current s₀ p₀ := by
  induction h with
  | refl => exact ⟨_, _, _, _, Explained.start T s p jobs⟩
  | step _ step ih =>
    obtain ⟨log, current, s₀, p₀, h⟩ := ih
    cases step with
    | free phase todo outside => exact ⟨_, _, _, _, h.free phase todo outside⟩
    | outside phase todo outside => exact ⟨_, _, _, _, h.outside phase todo outside⟩
    | acquire phase owner cut => exact ⟨_, _, _, _, h.acquire phase owner cut⟩
    | inside phase step => exact ⟨_, _, _, _, h.inside phase step⟩
    | release phase =>
      obtain ⟨j, -, h⟩ := h.release phase
      exact ⟨_, _, _, _, h⟩

end

end Mutex
