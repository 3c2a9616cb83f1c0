import Mathlib.Data.List.Forall2
import LidoDao.Library.Transition

namespace LidoDao.Library.Transition

open Outcome

variable {σ τ ι κ ε δ : Type}

/-- The second machine follows the first: from related states, whenever the first
accepts an input, the second accepts some reading of it and they stay related. -/
structure Simulation (M : Machine σ ι ε) (N : Machine τ κ δ) (R : σ → τ → Prop)
    (reads : ι → κ → Prop) : Prop where
  initial : ∀ s, M.initial s → ∃ t, N.initial t ∧ R s t
  step : ∀ s i s' t, Reachable M s → M.step s i = .ok s' → R s t →
    ∃ k t', reads i k ∧ N.step t k = .ok t' ∧ R s' t'

namespace Simulation

variable {M : Machine σ ι ε} {N : Machine τ κ δ} {R : σ → τ → Prop} {reads : ι → κ → Prop}
  {s s' : σ} {t : τ}

theorem execute {is : List ι} (h : Simulation M N R reads) (hs : Reachable M s) (hR : R s t)
    (he : execute M s is = .ok s') :
    ∃ ks t', List.Forall₂ reads is ks ∧ Transition.execute N t ks = .ok t' ∧ R s' t' := by
  induction is generalizing s t with
  | nil =>
    cases he
    exact ⟨[], t, .nil, rfl, hR⟩
  | cons i is ih =>
    obtain ⟨u, hu, he⟩ := bind_eq_ok.mp he
    obtain ⟨k, v, hk, hv, hR⟩ := h.step s i u t hs hu hR
    obtain ⟨ks, t', hks, ht', hR⟩ := ih (hs.step hu) hR he
    exact ⟨k :: ks, t', .cons hk hks, bind_eq_ok.mpr ⟨v, hv, ht'⟩, hR⟩

end Simulation

theorem execute_induction {M : Machine σ ι ε} {p : σ → σ → Prop} (hrefl : ∀ s, p s s)
    (hstep : ∀ s t u i, p s t → M.step t i = .ok u → p s u) {s s' : σ} {is : List ι}
    (he : execute M s is = .ok s') : p s s' := by
  suffices hfrom : ∀ t, p s t → execute M t is = .ok s' → p s s' from hfrom s (hrefl s) he
  clear he
  induction is with
  | nil =>
    intro t ht he
    cases he
    exact ht
  | cons i is ih =>
    intro t ht he
    obtain ⟨u, hu, he⟩ := bind_eq_ok.mp he
    exact ih u (hstep s t u i ht hu) he

end LidoDao.Library.Transition
