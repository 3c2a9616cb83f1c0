import LidoDao.Library.FairShare
import Mathlib.Algebra.Module.BigOperators
import Mathlib.Algebra.Order.BigOperators.Group.List
import Mathlib.Data.Finset.Lattice.Fold

/-!
# Fair shares cost least

A cost of a level is convex when each unit more costs at least as much as the one below it. Dealing
out to the lowest level first then costs no more than any other way to deal out as many units.
-/

namespace LidoDao.Library.FairShare

variable {α ι : Type} [AddCommGroup α] {f : ℕ → α} {level room n m : ι → ℕ} {s : List ι}
  {x t k : ℕ}

/-- What one more unit costs. -/
def marginal (f : ℕ → α) (x : ℕ) : α := f (x + 1) - f x

theorem add_marginal (f : ℕ → α) (x : ℕ) : f x + marginal f x = f (x + 1) := by
  rw [marginal, add_sub_cancel]

variable [LinearOrder α] [IsOrderedAddMonoid α]

def Convex (f : ℕ → α) : Prop := Monotone (marginal f)

theorem Convex.le_above (hf : Convex f) (h : t ≤ x) (k : ℕ) :
    f x + k • marginal f t ≤ f (x + k) := by
  induction k with
  | zero => rw [zero_nsmul, Nat.add_zero, add_zero]
  | succ k ih =>
    calc f x + (k + 1) • marginal f t = f x + k • marginal f t + marginal f t := by
          rw [succ_nsmul, add_assoc]
      _ ≤ f (x + k) + marginal f (x + k) := add_le_add ih (hf (h.trans (Nat.le_add_right _ _)))
      _ = f (x + (k + 1)) := add_marginal f (x + k)

theorem Convex.le_below (hf : Convex f) (h : x + k ≤ t + 1) :
    f (x + k) ≤ f x + k • marginal f t := by
  induction k with
  | zero => rw [zero_nsmul, Nat.add_zero, add_zero]
  | succ k ih =>
    calc f (x + (k + 1)) = f (x + k) + marginal f (x + k) := (add_marginal f (x + k)).symm
      _ ≤ f x + k • marginal f t + marginal f t := add_le_add (ih (by omega)) (hf (by omega))
      _ = f x + (k + 1) • marginal f t := by rw [succ_nsmul, add_assoc]

/-- At the price that a unit has on that level, nobody's share can be bettered. -/
theorem Convex.priced {i : ι} (hf : Convex f) (ht : 0 < n i → level i + n i ≤ t + 1)
    (ht' : n i < room i → t ≤ level i + n i) (hroom : m i ≤ room i) :
    f (level i + n i) + m i • marginal f t ≤ f (level i + m i) + n i • marginal f t := by
  rcases Nat.le_total (m i) (n i) with hle | hle
  · obtain ⟨k, hk⟩ := Nat.exists_eq_add_of_le hle
    rcases Nat.eq_zero_or_pos k with rfl | hpos
    · rw [hk, Nat.add_zero]
    · have hbelow : level i + m i + k ≤ t + 1 := by
        have hlevel := ht (by omega)
        omega
      calc f (level i + n i) + m i • marginal f t
          = f (level i + m i + k) + m i • marginal f t := by rw [hk, Nat.add_assoc]
        _ ≤ f (level i + m i) + k • marginal f t + m i • marginal f t :=
            add_le_add_left (hf.le_below hbelow) _
        _ = f (level i + m i) + n i • marginal f t := by
            rw [hk, add_assoc, ← add_nsmul, Nat.add_comm k]
  · obtain ⟨k, hk⟩ := Nat.exists_eq_add_of_le hle
    rcases Nat.eq_zero_or_pos k with rfl | hpos
    · rw [hk, Nat.add_zero]
    · have habove : t ≤ level i + n i := ht' (by omega)
      calc f (level i + n i) + m i • marginal f t
          = f (level i + n i) + k • marginal f t + n i • marginal f t := by
            rw [hk, add_assoc, ← add_nsmul, Nat.add_comm k]
        _ ≤ f (level i + n i + k) + n i • marginal f t := add_le_add_left (hf.le_above habove k) _
        _ = f (level i + m i) + n i • marginal f t := by rw [hk, Nat.add_assoc]

variable [LinearOrder ι]

theorem Fair.exists_level (hn : Fair level room s n) :
    ∃ t, (∀ i ∈ s, 0 < n i → level i + n i ≤ t + 1) ∧ ∀ j ∈ s, n j < room j → t ≤ level j + n j := by
  let top : ι → ℕ := fun i ↦ if 0 < n i then level i + n i - 1 else 0
  refine ⟨s.toFinset.sup top, ?_, ?_⟩
  · intro i hi hpos
    have hle : top i ≤ s.toFinset.sup top := Finset.le_sup (List.mem_toFinset.mpr hi)
    have htop : top i = level i + n i - 1 := if_pos hpos
    omega
  · intro j hj hfree
    apply Finset.sup_le
    intro i hi
    dsimp only [top]
    split
    · rename_i hpos
      have hle := (hn i (List.mem_toFinset.mp hi) j hj hpos hfree).1
      omega
    · exact Nat.zero_le _

theorem Fair.cost_le (hn : Fair level room s n) (hf : Convex f) (hroom : ∀ i ∈ s, m i ≤ room i)
    (hsum : (s.map n).sum = (s.map m).sum) :
    (s.map fun i ↦ f (level i + n i)).sum ≤ (s.map fun i ↦ f (level i + m i)).sum := by
  obtain ⟨t, ht, ht'⟩ := hn.exists_level
  have hprice (k : ι → ℕ) :
      (s.map fun i ↦ k i • marginal f t).sum = (s.map k).sum • marginal f t := by
    rw [List.sum_smul, List.map_map]
    rfl
  have htotal := List.sum_le_sum fun i hi ↦ hf.priced (ht i hi) (ht' i hi) (hroom i hi)
  rw [List.sum_map_add, List.sum_map_add, hprice, hprice, hsum] at htotal
  exact le_of_add_le_add_right htotal

end LidoDao.Library.FairShare
