import Mathlib.Algebra.BigOperators.Group.List.Basic
import Mathlib.Algebra.Order.BigOperators.Group.List
import Mathlib.Algebra.Order.Group.Nat
import Mathlib.Algebra.GroupWithZero.Nat
import Mathlib.Data.Nat.Notation
import Mathlib.Tactic.Common

namespace LidoDao.Library.FairShare

variable {ι : Type} [LinearOrder ι] {level room n m : ι → ℕ} {s : List ι}

/-- Units are dealt out to the lowest level first and, on one level, in the order of those
who get them: no unit lies above a free place. -/
def Fair (level room : ι → ℕ) (s : List ι) (n : ι → ℕ) : Prop :=
  ∀ i ∈ s, ∀ j ∈ s, 0 < n i → n j < room j →
    level i + n i ≤ level j + n j + 1 ∧ (j < i → level i + n i ≤ level j + n j)

/-- Who deals out more leaves nobody with less: a unit that only the smaller share has lies
above a free place of it, or a unit of the larger share lies above a free place there. -/
theorem Fair.le (hn : Fair level room s n) (hm : Fair level room s m)
    (hroomn : ∀ i ∈ s, n i ≤ room i) (hroomm : ∀ i ∈ s, m i ≤ room i)
    (hsum : (s.map n).sum ≤ (s.map m).sum) {i : ι} (hi : i ∈ s) : n i ≤ m i := by
  by_contra hnot
  have hlt : m i < n i := Nat.lt_of_not_le hnot
  obtain ⟨j, hj, hj'⟩ : ∃ j ∈ s, n j < m j := by
    by_contra hnone
    have hall : ∀ j ∈ s, m j ≤ n j := fun j hj ↦ Nat.le_of_not_lt fun h ↦ hnone ⟨j, hj, h⟩
    exact absurd hsum (Nat.not_le.mpr (List.sum_lt_sum m n hall ⟨i, hi, hlt⟩))
  have hnroom := hroomn i hi
  have hmroom := hroomm j hj
  obtain ⟨hij, hij'⟩ := hn i hi j hj (by omega) (by omega)
  obtain ⟨hji, hji'⟩ := hm j hj i hi (by omega) (by omega)
  rcases lt_trichotomy i j with h | rfl | h
  · have := hji' h
    omega
  · omega
  · have := hij' h
    omega

theorem Fair.unique (hn : Fair level room s n) (hm : Fair level room s m)
    (hroomn : ∀ i ∈ s, n i ≤ room i) (hroomm : ∀ i ∈ s, m i ≤ room i)
    (hsum : (s.map n).sum = (s.map m).sum) {i : ι} (hi : i ∈ s) : n i = m i :=
  Nat.le_antisymm (hn.le hm hroomn hroomm hsum.le hi) (hm.le hn hroomm hroomn hsum.ge hi)

theorem Fair.add (hn : Fair level room s n)
    (hm : Fair (fun i ↦ level i + n i) (fun i ↦ room i - n i) s m) :
    Fair level room s fun i ↦ n i + m i := by
  intro i hi j hj hpos hfree
  dsimp only at hpos hfree ⊢
  by_cases hzero : m i = 0
  · obtain ⟨hle, hlt⟩ := hn i hi j hj (by omega) (by omega)
    refine ⟨by omega, fun hji ↦ ?_⟩
    have := hlt hji
    omega
  · obtain ⟨hle, hlt⟩ := hm i hi j hj (by omega) (by dsimp only; omega)
    dsimp only at hle hlt
    refine ⟨by omega, fun hji ↦ ?_⟩
    have := hlt hji
    omega

end LidoDao.Library.FairShare
