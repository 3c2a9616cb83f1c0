import Mathlib.Algebra.BigOperators.Group.Finset.Basic
import Mathlib.Algebra.Order.BigOperators.Group.Finset
import Mathlib.Algebra.BigOperators.Ring.Finset
import Mathlib.Data.Fintype.BigOperators
import Mathlib.Tactic.Linarith
import Mathlib.Tactic.Ring

namespace LidoDao.Library.Ledger

open Function
open scoped BigOperators

variable {α : Type}

def total (ps : List (α × ℕ)) : ℕ := (ps.map Prod.snd).sum

@[simp] theorem total_nil : total ([] : List (α × ℕ)) = 0 := rfl

@[simp] theorem total_cons (p : α × ℕ) (ps : List (α × ℕ)) :
    total (p :: ps) = p.2 + total ps := by simp [total]

@[simp] theorem total_append (ps qs : List (α × ℕ)) :
    total (ps ++ qs) = total ps + total qs := by simp [total]

theorem update_update_apply {β γ : Type} [DecidableEq α] [DecidableEq β] (f : α → β → γ) (a c : α)
    (b d : β) (x : γ) :
    update f a (update (f a) b x) c d = if c = a ∧ d = b then x else f c d := by
  by_cases ha : c = a
  · subst ha
    by_cases hb : d = b
    · subst hb
      simp
    · simp [hb]
  · simp [ha]

section Prorata

variable [Fintype α]

theorem le_sum (f : α → ℕ) (a : α) : f a ≤ ∑ b, f b :=
  Finset.single_le_sum (fun _ _ ↦ Nat.zero_le _) (Finset.mem_univ a)

theorem sum_prorata_le {f : α → ℕ} {n : ℕ} (hf : ∑ a, f a = n) (whole : ℕ) :
    ∑ a, f a * whole / n ≤ whole := by
  rcases Nat.eq_zero_or_pos n with rfl | hn
  · simp
  · have h : n * ∑ a, f a * whole / n ≤ n * whole := by
      rw [Finset.mul_sum, ← hf, Finset.sum_mul, hf]
      exact Finset.sum_le_sum fun a _ ↦ Nat.mul_div_le _ _
    exact Nat.le_of_mul_le_mul_left h hn

theorem lt_sum_prorata_add_card {f : α → ℕ} {n : ℕ} (hf : ∑ a, f a = n) (hn : 0 < n)
    (whole : ℕ) :
    whole < ∑ a, f a * whole / n + (Finset.univ.filter fun a ↦ 0 < f a).card := by
  let holders := Finset.univ.filter fun a ↦ 0 < f a
  have hsub (g : α → ℕ) (hg : ∀ a, f a = 0 → g a = 0) : ∑ a, g a = ∑ a ∈ holders, g a := by
    refine (Finset.sum_subset (Finset.subset_univ _) fun a _ ha ↦ hg a ?_).symm
    simpa [holders] using ha
  have hne : holders.Nonempty := by
    by_contra h
    rw [Finset.not_nonempty_iff_eq_empty] at h
    have hz : ∑ a, f a = 0 := by rw [hsub f (fun _ h ↦ h), h, Finset.sum_empty]
    omega
  have hlt : ∑ a ∈ holders, f a * whole < ∑ a ∈ holders, n * (f a * whole / n + 1) :=
    Finset.sum_lt_sum_of_nonempty hne fun a _ ↦ Nat.lt_mul_div_succ _ hn
  have hleft : ∑ a ∈ holders, f a * whole = n * whole := by
    rw [← hsub _ (fun a ha ↦ by rw [ha, Nat.zero_mul]), ← Finset.sum_mul, hf]
  have hright : ∑ a ∈ holders, n * (f a * whole / n + 1) =
      n * (∑ a, f a * whole / n + holders.card) := by
    rw [hsub (fun a ↦ f a * whole / n) (fun a ha ↦ by simp [ha]), ← Finset.mul_sum,
      Finset.sum_add_distrib, Finset.card_eq_sum_ones]
  rw [hleft, hright] at hlt
  exact Nat.lt_of_mul_lt_mul_left hlt

end Prorata

variable [DecidableEq α]

/-- Move an amount between two accounts, possibly the same. -/
def moved (f : α → ℕ) (source target : α) (amount : ℕ) : α → ℕ :=
  let debited := update f source (f source - amount)
  update debited target (debited target + amount)

theorem moved_apply {f : α → ℕ} {source : α} {amount : ℕ} (h : amount ≤ f source)
    (target a : α) : moved f source target amount a + (if a = source then amount else 0) =
      f a + (if a = target then amount else 0) := by
  by_cases hs : a = source <;> by_cases ht : a = target
  · subst hs
    subst ht
    simp only [moved, update_self, if_true]
    omega
  · subst hs
    simp only [moved, update_of_ne ht, update_self, if_true, if_neg ht]
    omega
  · subst ht
    simp only [moved, update_self, update_of_ne hs, if_neg hs, if_true]
    omega
  · simp only [moved, update_of_ne ht, update_of_ne hs, if_neg hs, if_neg ht]

section Moved

variable {f : α → ℕ} {source target a : α} {amount n : ℕ}

theorem moved_source (h : amount ≤ f source) (hne : source ≠ target) :
    moved f source target amount source + amount = f source := by
  have hmoved := moved_apply h target source
  rwa [if_pos rfl, if_neg hne, Nat.add_zero] at hmoved

theorem moved_target (h : amount ≤ f source) (hne : target ≠ source) :
    moved f source target amount target = f target + amount := by
  have hmoved := moved_apply h target target
  rwa [if_neg hne, if_pos rfl, Nat.add_zero] at hmoved

theorem moved_other (h : amount ≤ f source) (hs : a ≠ source) (ht : a ≠ target) :
    moved f source target amount a = f a := by
  have hmoved := moved_apply h target a
  rwa [if_neg hs, if_neg ht, Nat.add_zero, Nat.add_zero] at hmoved

theorem le_moved_of_ne (h : amount ≤ f source) (hs : a ≠ source) :
    f a ≤ moved f source target amount a := by
  have hmoved := moved_apply h target a
  rw [if_neg hs, Nat.add_zero] at hmoved
  exact (Nat.le_add_right _ _).trans_eq hmoved.symm

theorem le_moved (h : amount + n ≤ f source) (target : α) :
    n ≤ moved f source target amount source := by
  have hmoved := moved_apply (Nat.le_of_add_right_le h) target source
  rw [if_pos rfl] at hmoved
  omega

end Moved

/-- What a list of payments brings an account. -/
def credits : List (α × ℕ) → α → ℕ
  | [], _ => 0
  | p :: ps, a => (if a = p.1 then p.2 else 0) + credits ps a

theorem credits_eq_zero {ps : List (α × ℕ)} {a : α} (h : ∀ p ∈ ps, p.1 ≠ a) :
    credits ps a = 0 := by
  induction ps with
  | nil => rfl
  | cons p ps ih =>
    have hp : a ≠ p.1 := fun he ↦ h p (by simp) he.symm
    simp only [credits, if_neg hp, ih (fun q hq ↦ h q (by simp [hq])), Nat.add_zero]

theorem credits_append (ps qs : List (α × ℕ)) (a : α) :
    credits (ps ++ qs) a = credits ps a + credits qs a := by
  induction ps with
  | nil => exact (Nat.zero_add _).symm
  | cons p ps ih => rw [List.cons_append, credits, credits, ih, Nat.add_assoc]

/-- Pay a list of recipients out of one account. -/
def payOut (f : α → ℕ) (source : α) : List (α × ℕ) → α → ℕ
  | [] => f
  | p :: ps => payOut (moved f source p.1 p.2) source ps

theorem payOut_append (f : α → ℕ) (source : α) (ps qs : List (α × ℕ)) :
    payOut f source (ps ++ qs) = payOut (payOut f source ps) source qs := by
  induction ps generalizing f with
  | nil => rfl
  | cons p ps ih => exact ih _

theorem payOut_apply {f : α → ℕ} {source : α} {ps : List (α × ℕ)}
    (h : total ps ≤ f source) (a : α) :
    payOut f source ps a + (if a = source then total ps else 0) = f a + credits ps a := by
  induction ps generalizing f with
  | nil => simp [payOut, credits]
  | cons p ps ih =>
    rw [total_cons] at h
    have hm := moved_apply (Nat.le_of_add_right_le h) p.1 a
    have hi := ih (le_moved h p.1)
    simp only [payOut, credits, total_cons]
    by_cases ha : a = source
    · simp only [ha, if_true] at hm hi ⊢
      omega
    · simp only [if_neg ha] at hm hi ⊢
      omega

section Sums

variable [Fintype α]

theorem sum_update_add (f : α → ℕ) (i : α) (v : ℕ) :
    ∑ a, update f i v a + f i = ∑ a, f a + v := by
  have h := Finset.add_sum_erase Finset.univ f (Finset.mem_univ i)
  have h' := Finset.add_sum_erase Finset.univ (update f i v) (Finset.mem_univ i)
  have he : ∑ a ∈ Finset.univ.erase i, update f i v a = ∑ a ∈ Finset.univ.erase i, f a :=
    Finset.sum_congr rfl fun a ha ↦ update_of_ne (Finset.ne_of_mem_erase ha) _ _
  rw [update_self, he] at h'
  omega

theorem sum_moved {f : α → ℕ} {source target : α} {amount : ℕ} (h : amount ≤ f source) :
    ∑ a, moved f source target amount a = ∑ a, f a := by
  have hs := Finset.sum_congr rfl (fun a (_ : a ∈ Finset.univ) ↦ moved_apply h target a)
  simp only [Finset.sum_add_distrib, Finset.sum_ite_eq', Finset.mem_univ, if_true] at hs
  omega

theorem sum_payOut {f : α → ℕ} {source : α} {ps : List (α × ℕ)} (h : total ps ≤ f source) :
    ∑ a, payOut f source ps a = ∑ a, f a := by
  induction ps generalizing f with
  | nil => rfl
  | cons p ps ih =>
    rw [total_cons] at h
    exact (ih (le_moved h p.1)).trans (sum_moved (Nat.le_of_add_right_le h))

end Sums

end LidoDao.Library.Ledger
