import LidoDao.Library.Outcome

namespace LidoDao.Library.Transition

open Outcome

/-- A state machine whose inputs may be rejected: a rejected input leaves the
state as it was. -/
structure Machine (σ ι ε : Type) where
  initial : σ → Prop
  step : σ → ι → Except ε σ

variable {σ ι ε η : Type}

inductive Reachable (M : Machine σ ι ε) : σ → Prop
  | initial {s : σ} : M.initial s → Reachable M s
  | step {s t : σ} {i : ι} : Reachable M s → M.step s i = .ok t → Reachable M t

/-- What holds initially and is kept by every accepted input holds of every
reachable state. -/
theorem Reachable.invariant {M : Machine σ ι ε} {P : σ → Prop}
    (hinit : ∀ s, M.initial s → P s)
    (hstep : ∀ s i t, Reachable M s → P s → M.step s i = .ok t → P t)
    {s : σ} (h : Reachable M s) : P s := by
  induction h with
  | initial h => exact hinit _ h
  | step h hs ih => exact hstep _ _ _ h ih hs

/-- A run between two states, all of whose accepted inputs meet a condition. -/
inductive Runs (M : Machine σ ι ε) (p : σ → ι → Prop) : σ → σ → Prop
  | refl (s : σ) : Runs M p s s
  | step {s t u : σ} {i : ι} : Runs M p s t → p t i → M.step t i = .ok u → Runs M p s u

namespace Runs

variable {M : Machine σ ι ε} {p q : σ → ι → Prop} {s t : σ}

theorem mono (hpq : ∀ s i, p s i → q s i) (h : Runs M p s t) : Runs M q s t := by
  induction h with
  | refl => exact .refl _
  | step _ hp hs ih => exact ih.step (hpq _ _ hp) hs

theorem reachable (h : Runs M p s t) (hs : Reachable M s) : Reachable M t := by
  induction h with
  | refl => exact hs
  | step _ _ hstep ih => exact ih.step hstep

theorem invariant {P : σ → Prop} (hstep : ∀ t i u, p t i → P t → M.step t i = .ok u → P u)
    (h : Runs M p s t) (hs : P s) : P t := by
  induction h with
  | refl => exact hs
  | step _ hp hi ih => exact hstep _ _ _ hp ih hi

end Runs

def execute (M : Machine σ ι ε) : σ → List ι → Except ε σ
  | s, [] => .ok s
  | s, i :: is => M.step s i >>= fun t ↦ execute M t is

theorem execute_append {M : Machine σ ι ε} {s : σ} (is js : List ι) :
    execute M s (is ++ js) = execute M s is >>= fun t ↦ execute M t js := by
  induction is generalizing s with
  | nil => rfl
  | cons i is ih =>
    simp only [List.cons_append, execute, bind_assoc]
    exact congrArg _ (funext fun t ↦ ih)

theorem Runs.of_execute {M : Machine σ ι ε} {p : σ → ι → Prop} {s t : σ} {is : List ι}
    (h : execute M s is = .ok t) (hp : ∀ i ∈ is, ∀ s, p s i) : Runs M p s t := by
  suffices hfrom : ∀ u, Runs M p s u → execute M u is = .ok t → Runs M p s t from
    hfrom s (.refl s) h
  clear h
  induction is with
  | nil =>
    intro u hu h
    cases h
    exact hu
  | cons i is ih =>
    intro u hu h
    obtain ⟨v, hv, h⟩ := bind_eq_ok.mp h
    exact ih (fun j hj ↦ hp j (List.mem_cons_of_mem _ hj)) v
      (hu.step (hp i List.mem_cons_self u) hv) h

theorem Reachable.execute {M : Machine σ ι ε} {s t : σ} {is : List ι} (h : Reachable M s)
    (he : execute M s is = .ok t) : Reachable M t := by
  induction is generalizing s with
  | nil => cases he; exact h
  | cons i is ih =>
    obtain ⟨u, hu, he⟩ := bind_eq_ok.mp he
    exact ih (h.step hu) he

/-- A run is accepted and ends in a state that passes a test. -/
def reaches (M : Machine σ ι ε) (s : σ) (is : List ι) (p : σ → Bool) : Bool :=
  match execute M s is with
  | .ok t => p t
  | .error _ => false

theorem reaches_iff {M : Machine σ ι ε} {s : σ} {is : List ι} {p : σ → Bool} :
    reaches M s is p = true ↔ ∃ t, execute M s is = .ok t ∧ p t = true := by
  unfold reaches
  cases execute M s is with
  | error e => simp
  | ok t => simp

theorem Reachable.of_reaches {M : Machine σ ι ε} {s : σ} {is : List ι} {p : σ → Bool}
    (h : Reachable M s) (hr : reaches M s is p = true) : ∃ t, Reachable M t ∧ p t = true := by
  obtain ⟨t, he, hp⟩ := reaches_iff.mp hr
  exact ⟨t, h.execute he, hp⟩

theorem Runs.of_reaches {M : Machine σ ι ε} {p : σ → ι → Prop} {s : σ} {is : List ι}
    {q : σ → Bool} (h : reaches M s is q = true) (hp : ∀ i ∈ is, ∀ s, p s i) :
    ∃ t, Runs M p s t ∧ q t = true := by
  obtain ⟨t, he, hq⟩ := reaches_iff.mp h
  exact ⟨t, .of_execute he hp, hq⟩

theorem step_of_reaches {M : Machine σ ι ε} {s : σ} {i : ι} {p : σ → Bool}
    (h : reaches M s [i] p = true) : ∃ t, M.step s i = .ok t ∧ p t = true := by
  obtain ⟨t, ht, hp⟩ := reaches_iff.mp h
  obtain ⟨_, hstep, hdone⟩ := bind_eq_ok.mp ht
  cases hdone
  exact ⟨t, hstep, hp⟩

/-- A run whose inputs meet a condition is accepted and ends in a state that passes a
test. -/
def reachesBy (M : Machine σ ι ε) (p : σ → ι → Prop) [∀ s i, Decidable (p s i)] (q : σ → Bool) :
    σ → List ι → Bool
  | s, [] => q s
  | s, i :: is =>
    decide (p s i) && match M.step s i with
      | .ok t => reachesBy M p q t is
      | .error _ => false

theorem Runs.of_reachesBy {M : Machine σ ι ε} {p : σ → ι → Prop} [∀ s i, Decidable (p s i)]
    {q : σ → Bool} {s : σ} {is : List ι} (h : reachesBy M p q s is = true) :
    ∃ t, Runs M p s t ∧ q t = true := by
  suffices hfrom : ∀ t, Runs M p s t → reachesBy M p q t is = true →
      ∃ u, Runs M p s u ∧ q u = true from hfrom s (.refl s) h
  clear h
  induction is with
  | nil => exact fun t ht hq ↦ ⟨t, ht, hq⟩
  | cons i is ih =>
    intro t ht h
    rw [reachesBy, Bool.and_eq_true] at h
    obtain ⟨hp, h⟩ := h
    cases hs : M.step t i with
    | error _ =>
      rw [hs] at h
      cases h
    | ok u =>
      rw [hs] at h
      exact ih u (ht.step (of_decide_eq_true hp) hs) h

section Attempt

variable (M : Machine σ ι ε)

/-- An input is tried: if it is rejected, nothing happens. -/
def Machine.attempt (s : σ) (i : ι) : σ :=
  match M.step s i with
  | .ok t => t
  | .error _ => s

/-- All of these inputs are tried, one after the other. -/
def Machine.attemptAll (s : σ) (is : List ι) : σ := is.foldl M.attempt s

variable {M} {s t : σ} {i : ι}

theorem Machine.attempt_ok (h : M.step s i = .ok t) : M.attempt s i = t := by
  rw [attempt, h]

theorem Machine.attempt_error (h : ∀ t, M.step s i ≠ .ok t) : M.attempt s i = s := by
  rw [attempt]
  cases hs : M.step s i with
  | ok t => exact absurd hs (h t)
  | error _ => rfl

@[simp] theorem Machine.attemptAll_nil : M.attemptAll s [] = s := rfl

@[simp] theorem Machine.attemptAll_cons {is : List ι} :
    M.attemptAll s (i :: is) = M.attemptAll (M.attempt s i) is := rfl

theorem Machine.attemptAll_rejected {is : List ι} (h : ∀ i ∈ is, ∀ t, M.step s i ≠ .ok t) :
    M.attemptAll s is = s := by
  induction is with
  | nil => rfl
  | cons i is ih =>
    rw [attemptAll_cons, attempt_error (h i (List.mem_cons_self ..))]
    exact ih fun j hj ↦ h j (List.mem_cons_of_mem _ hj)

end Attempt

/-- The machine that also keeps a history: every accepted input adds to it what
the observer reads off the states before and after. -/
def Machine.observed (M : Machine σ ι ε) (start : η) (observe : σ → ι → σ → η → η) :
    Machine (σ × η) ι ε where
  initial s := M.initial s.1 ∧ s.2 = start
  step s i := M.step s.1 i >>= fun t ↦ .ok (t, observe s.1 i t s.2)

section Observed

variable {M : Machine σ ι ε} {start : η} {observe : σ → ι → σ → η → η}

theorem observed_step {s t : σ × η} {i : ι} :
    (M.observed start observe).step s i = .ok t ↔
      M.step s.1 i = .ok t.1 ∧ observe s.1 i t.1 s.2 = t.2 := by
  simp only [Machine.observed, bind_eq_ok, Except.ok.injEq]
  constructor
  · intro h
    obtain ⟨u, hu, rfl⟩ := h
    exact ⟨hu, rfl⟩
  · intro h
    obtain ⟨hu, ht⟩ := h
    exact ⟨t.1, hu, by rw [ht]⟩

theorem Reachable.of_observed {s : σ × η} (h : Reachable (M.observed start observe) s) :
    Reachable M s.1 := by
  induction h with
  | initial h => exact .initial h.1
  | step _ hs ih => exact ih.step (observed_step.mp hs).1

theorem Reachable.exists_history {s : σ} (h : Reachable M s) :
    ∃ v, Reachable (M.observed start observe) (s, v) := by
  induction h with
  | initial h => exact ⟨start, .initial ⟨h, rfl⟩⟩
  | @step s t i _ hs ih =>
    obtain ⟨v, hv⟩ := ih
    exact ⟨observe s i t v, hv.step (observed_step.mpr ⟨hs, rfl⟩)⟩

end Observed

end LidoDao.Library.Transition
