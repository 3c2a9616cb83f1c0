import LidoDao.Library.Transition
import Mathlib.Control.Monad.Writer

/-!
# Computations that emit events

A computation may fail, and its events are gone then.
-/

namespace LidoDao.Library.Emission

open Outcome Transition

variable {ε η α β σ ι ρ : Type}

abbrev Emits (ε η : Type) : Type → Type := WriterT (List η) (Except ε)

def emit (e : η) : Emits ε η Unit := tell [e]

def outcome (x : Emits ε η α) : Except ε α := Prod.fst <$> x.run

section Outcome

@[simp] theorem bind_ok (x : Except ε α) : (x >>= fun a ↦ .ok a) = x := by
  cases x <;> rfl

@[simp] theorem outcome_pure (a : α) : outcome (pure a : Emits ε η α) = .ok a := rfl

@[simp] theorem outcome_emit (e : η) : outcome (emit e : Emits ε η Unit) = .ok () := rfl

@[simp] theorem outcome_lift (x : Except ε α) : outcome (liftM x : Emits ε η α) = x := by
  cases x with
  | error e => rfl
  | ok a => rfl

@[simp] theorem outcome_bind (x : Emits ε η α) (f : α → Emits ε η β) :
    outcome (x >>= f) = outcome x >>= fun a ↦ outcome (f a) := by
  unfold outcome
  rw [WriterT.run_bind]
  cases x.run with
  | error e => rfl
  | ok p =>
    change Prod.fst <$> ((fun q ↦ (q.1, p.2 ++ q.2)) <$> (f p.1).run) = Prod.fst <$> (f p.1).run
    cases (f p.1).run with
    | error e => rfl
    | ok q => rfl

@[simp] theorem outcome_ite (p : Prop) [Decidable p] (x y : Emits ε η α) :
    outcome (if p then x else y) = if p then outcome x else outcome y :=
  apply_ite outcome p x y

theorem outcome_eq_ok {x : Emits ε η α} {a : α} :
    outcome x = .ok a ↔ ∃ log, x.run = .ok (a, log) := by
  unfold outcome
  cases x.run with
  | error e => simp
  | ok p => simp [Prod.ext_iff]

end Outcome

section Run

variable {log : List η} {a a' : α} {b : β}

theorem run_pure_eq_ok : (pure a : Emits ε η α).run = .ok (a', log) ↔ a' = a ∧ log = [] := by
  change (Except.ok (a, []) : Except ε (α × List η)) = .ok (a', log) ↔ _
  simp [eq_comm]

theorem run_emit_eq_ok {e : η} {u : Unit} :
    (emit e : Emits ε η Unit).run = .ok (u, log) ↔ log = [e] := by
  change (Except.ok ((), [e]) : Except ε (Unit × List η)) = .ok (u, log) ↔ _
  simp [eq_comm]

theorem run_lift_eq_ok {x : Except ε α} :
    (liftM x : Emits ε η α).run = .ok (a, log) ↔ x = .ok a ∧ log = [] := by
  change (fun a ↦ (a, [])) <$> x = .ok (a, log) ↔ _
  cases x with
  | error e => simp
  | ok a' => simp [eq_comm]

theorem run_bind_eq_ok {x : Emits ε η α} {f : α → Emits ε η β} :
    (x >>= f).run = .ok (b, log) ↔ ∃ a before after,
      x.run = .ok (a, before) ∧ (f a).run = .ok (b, after) ∧ log = before ++ after := by
  change (x.run >>= fun p ↦ (fun q : β × List η ↦ (q.1, p.2 ++ q.2)) <$> (f p.1).run) =
    .ok (b, log) ↔ _
  rw [bind_eq_ok]
  constructor
  · intro h
    obtain ⟨⟨a, before⟩, hx, h⟩ := h
    dsimp only at h
    cases hf : (f a).run with
    | error e => simp [hf] at h
    | ok q =>
      rw [hf] at h
      cases h
      exact ⟨a, before, q.2, hx, hf, rfl⟩
  · intro h
    obtain ⟨a, before, after, hx, hf, rfl⟩ := h
    refine ⟨(a, before), hx, ?_⟩
    dsimp only
    rw [hf]
    rfl

end Run

section Replay

/-- From what is seen before, the events of a computation lead to what is seen of its
result. -/
def Tracks (apply : ρ → η → ρ) (v : ρ) (x : Emits ε η α) (view : α → ρ) : Prop :=
  ∀ a log, x.run = .ok (a, log) → log.foldl apply v = view a

namespace Tracks

variable {apply : ρ → η → ρ} {v : ρ} {x : Emits ε η α} {view : α → ρ} {view' : β → ρ}
  {f : α → Emits ε η β} {y : Except ε α}

theorem pure {a : α} (h : v = view a) : Tracks apply v (pure a : Emits ε η α) view := by
  intro a' log hrun
  obtain ⟨rfl, rfl⟩ := run_pure_eq_ok.mp hrun
  exact h

theorem lift (h : ∀ a, y = .ok a → v = view a) :
    Tracks apply v (liftM y : Emits ε η α) view := by
  intro a log hrun
  obtain ⟨hy, rfl⟩ := run_lift_eq_ok.mp hrun
  exact h a hy

theorem bind (hx : Tracks apply v x view)
    (hf : ∀ a, outcome x = .ok a → Tracks apply (view a) (f a) view') :
    Tracks apply v (x >>= f) view' := by
  intro b log hrun
  obtain ⟨a, before, after, hbefore, hafter, rfl⟩ := run_bind_eq_ok.mp hrun
  rw [List.foldl_append, hx a before hbefore]
  exact hf a (outcome_eq_ok.mpr ⟨before, hbefore⟩) b after hafter

theorem lift_bind (hf : ∀ a, y = .ok a → Tracks apply v (f a) view') :
    Tracks apply v ((liftM y : Emits ε η α) >>= f) view' := by
  have hlift : Tracks apply v (liftM y : Emits ε η α) fun _ ↦ v := lift fun _ _ ↦ rfl
  apply hlift.bind
  intro a ha
  rw [outcome_lift] at ha
  exact hf a ha

theorem emit_bind {e : η} {f : Unit → Emits ε η β}
    (hf : Tracks apply (apply v e) (f ()) view') :
    Tracks apply v (emit e >>= f) view' := by
  have hemit : Tracks apply v (emit e : Emits ε η Unit) fun _ ↦ apply v e := by
    intro _ log hrun
    rw [run_emit_eq_ok.mp hrun]
    rfl
  exact hemit.bind fun _ _ ↦ hf

theorem lift_emit {e : η} (h : ∀ a, y = .ok a → apply v e = view a) :
    Tracks apply v (liftM y >>= fun a ↦ emit e >>= fun _ ↦ Pure.pure a : Emits ε η α) view :=
  lift_bind fun a ha ↦ emit_bind (pure (h a ha))

theorem ite {p : Prop} [Decidable p] {x y : Emits ε η α} (hx : p → Tracks apply v x view)
    (hy : ¬p → Tracks apply v y view) : Tracks apply v (if p then x else y) view := by
  split
  · exact hx ‹_›
  · exact hy ‹_›

end Tracks

/-- The states that can be reached, each with the events emitted since the start. -/
def logging (start : σ → List η → Prop) (step : σ → ι → Emits ε η σ) :
    Machine (σ × List η) ι ε where
  initial s := start s.1 s.2
  step s i := (step s.1 i).run >>= fun p ↦ .ok (p.1, s.2 ++ p.2)

variable {start : σ → List η → Prop} {step : σ → ι → Emits ε η σ} {apply : ρ → η → ρ}
  {blank : ρ} {s : σ}

theorem logging_step {s t : σ × List η} {i : ι} :
    (logging start step).step s i = .ok t ↔
      ∃ log, (step s.1 i).run = .ok (t.1, log) ∧ t.2 = s.2 ++ log := by
  simp only [logging, bind_eq_ok, Except.ok.injEq]
  constructor
  · intro h
    obtain ⟨p, hp, rfl⟩ := h
    exact ⟨p.2, hp, rfl⟩
  · intro h
    obtain ⟨log, hlog, heq⟩ := h
    exact ⟨(t.1, log), hlog, Prod.ext rfl heq.symm⟩

theorem reachable_iff_logging {M : Machine σ ι ε}
    (hstart : ∀ s, M.initial s ↔ ∃ log, start s log)
    (hstep : ∀ s i, outcome (step s i) = M.step s i) :
    Reachable M s ↔ ∃ log, Reachable (logging start step) (s, log) := by
  constructor
  · intro h
    induction h with
    | initial h =>
      obtain ⟨log, hlog⟩ := (hstart _).mp h
      exact ⟨log, .initial hlog⟩
    | @step s t i _ hs ih =>
      obtain ⟨log, hlog⟩ := ih
      rw [← hstep] at hs
      obtain ⟨log', hlog'⟩ := outcome_eq_ok.mp hs
      exact ⟨log ++ log', hlog.step (logging_step.mpr ⟨log', hlog', rfl⟩)⟩
  · intro h
    obtain ⟨log, hlog⟩ := h
    have hall : ∀ p : σ × List η, Reachable (logging start step) p → Reachable M p.1 := by
      intro p hp
      induction hp with
      | initial h => exact .initial ((hstart _).mpr ⟨_, h⟩)
      | @step p q i _ hs ih =>
        obtain ⟨log', hlog', _⟩ := logging_step.mp hs
        apply ih.step (i := i)
        rw [← hstep]
        exact outcome_eq_ok.mpr ⟨log', hlog'⟩
    exact hall _ hlog

theorem replay_of_reachable (view : σ → ρ)
    (hstart : ∀ s log, start s log → log.foldl apply blank = view s)
    (hstep : ∀ s i, Tracks apply (view s) (step s i) view) {p : σ × List η}
    (h : Reachable (logging start step) p) : p.2.foldl apply blank = view p.1 := by
  induction h with
  | initial h => exact hstart _ _ h
  | @step p q i _ hs ih =>
    obtain ⟨log, hlog, heq⟩ := logging_step.mp hs
    rw [heq, List.foldl_append, ih]
    exact hstep p.1 i q.1 log hlog

end Replay

end LidoDao.Library.Emission
