import Mathlib.Data.List.Perm.Basic
import Mathlib.Data.Nat.Notation

namespace LidoDao.Library.Maxima

variable {α : Type} {f : α → ℕ} {l l' : List α} {a : α}

/-- The elements whose value no other exceeds, as often as they are listed. -/
def maxima (f : α → ℕ) (l : List α) : List α := l.filter fun a ↦ ∀ b ∈ l, f b ≤ f a

/-- The element at this position has the greatest value. -/
def AttainsMaximum (f : α → ℕ) (l : List α) (i : ℕ) : Prop :=
  ∃ a, l[i]? = some a ∧ ∀ b ∈ l, f b ≤ f a

theorem maxima_eq_filter {m : ℕ} (hle : ∀ b ∈ l, f b ≤ m) (ha : a ∈ l) (hm : f a = m) :
    maxima f l = l.filter fun b ↦ f b = m := by
  refine List.filter_congr fun b hb ↦ ?_
  rw [decide_eq_decide]
  constructor
  · intro hmax
    exact Nat.le_antisymm (hle b hb) (hm ▸ hmax a ha)
  · intro heq c hc
    exact heq ▸ hle c hc

theorem maxima_perm (h : l.Perm l') : (maxima f l).Perm (maxima f l') := by
  have heq : maxima f l = l.filter fun a ↦ ∀ b ∈ l', f b ≤ f a :=
    List.filter_congr fun a _ ↦ by simp only [h.mem_iff]
  rw [heq]
  exact h.filter _

theorem filter_eq_singleton_iff {p : α → Bool} : l.filter p = [a] ↔
    ∃ i : ℕ, (l[i]? = some a ∧ p a) ∧ ∀ (j : ℕ) (b : α), l[j]? = some b → p b → j = i := by
  induction l with
  | nil => simp
  | cons c l ih =>
    by_cases hc : p c = true
    · rw [List.filter_cons_of_pos hc]
      constructor
      · intro h
        obtain ⟨rfl, hnil⟩ := List.cons.inj h
        rw [List.filter_eq_nil_iff] at hnil
        refine ⟨0, ⟨rfl, hc⟩, fun j b hj hb ↦ ?_⟩
        cases j with
        | zero => rfl
        | succ j => exact absurd hb (hnil b (List.mem_of_getElem? hj))
      · intro h
        obtain ⟨i, ⟨hi, ha⟩, hunique⟩ := h
        obtain rfl : 0 = i := hunique 0 c rfl hc
        obtain rfl : c = a := Option.some.inj hi
        congr 1
        rw [List.filter_eq_nil_iff]
        intro b hb hpb
        obtain ⟨j, hj⟩ := List.mem_iff_getElem?.mp hb
        exact Nat.succ_ne_zero j (hunique (j + 1) b hj hpb)
    · rw [List.filter_cons_of_neg hc, ih]
      constructor
      · intro h
        obtain ⟨i, hi, hunique⟩ := h
        refine ⟨i + 1, hi, fun j b hj hb ↦ ?_⟩
        cases j with
        | zero =>
          obtain rfl : c = b := Option.some.inj hj
          exact absurd hb hc
        | succ j => rw [hunique j b hj hb]
      · intro h
        obtain ⟨i, ⟨hi, ha⟩, hunique⟩ := h
        cases i with
        | zero =>
          obtain rfl : c = a := Option.some.inj hi
          exact absurd ha hc
        | succ i =>
          exact ⟨i, ⟨hi, ha⟩, fun j b hj hb ↦ Nat.succ.inj (hunique (j + 1) b hj hb)⟩

theorem maxima_eq_singleton_iff :
    maxima f l = [a] ↔ ∃ i : ℕ, l[i]? = some a ∧ ∀ j, AttainsMaximum f l j ↔ j = i := by
  rw [maxima, filter_eq_singleton_iff]
  simp only [decide_eq_true_eq]
  constructor
  · intro h
    obtain ⟨i, ⟨hi, hmax⟩, hunique⟩ := h
    refine ⟨i, hi, fun j ↦ ⟨?_, ?_⟩⟩
    · intro h
      obtain ⟨b, hj, hb⟩ := h
      exact hunique j b hj hb
    · rintro rfl
      exact ⟨a, hi, hmax⟩
  · intro h
    obtain ⟨i, hi, hunique⟩ := h
    obtain ⟨b, hb, hmax⟩ := (hunique i).mpr rfl
    obtain rfl : a = b := Option.some.inj (hi.symm.trans hb)
    exact ⟨i, ⟨hi, hmax⟩, fun j c hj hc ↦ (hunique j).mp ⟨c, hj, hc⟩⟩

end LidoDao.Library.Maxima
