import Mathlib.Analysis.Complex.Exponential
import Mathlib.Algebra.Order.BigOperators.GroupWithZero.List

namespace LidoDao.Library.Compounding

/-! A value changes in a row of periods, each with what it was before and after and how long
the period took. -/

variable {ι : Type} {before after time : ι → ℝ} {rate : ℝ} {l : List ι}

theorem prod_after_le (before after time : ι → ℝ) (rate : ℝ) (h : ∀ i ∈ l, 0 ≤ before i ∧ 0 ≤ after i ∧
    after i ≤ before i * (1 + rate * time i)) :
    (l.map after).prod ≤ (l.map before).prod * Real.exp (rate * (l.map time).sum) := by
  induction l with
  | nil => simp
  | cons i l ih =>
    obtain ⟨⟨hbefore, hafter, hgrowth⟩, hrest⟩ := List.forall_mem_cons.mp h
    have hexp : after i ≤ before i * Real.exp (rate * time i) := by
      refine hgrowth.trans (mul_le_mul_of_nonneg_left ?_ hbefore)
      rw [add_comm]
      exact Real.add_one_le_exp _
    have hnonneg : 0 ≤ (l.map after).prod := by
      refine List.prod_nonneg fun x hx ↦ ?_
      obtain ⟨j, hj, rfl⟩ := List.mem_map.mp hx
      exact (hrest j hj).2.1
    rw [List.map_cons, List.prod_cons, List.map_cons, List.prod_cons, List.map_cons, List.sum_cons]
    calc after i * (l.map after).prod
        ≤ before i * Real.exp (rate * time i) *
            ((l.map before).prod * Real.exp (rate * (l.map time).sum)) :=
          mul_le_mul hexp (ih hrest) hnonneg (hafter.trans hexp)
      _ = before i * (l.map before).prod * Real.exp (rate * (time i + (l.map time).sum)) := by
          rw [mul_add, Real.exp_add]
          ring

theorem le_prod_after {kept : ℝ} (hkept : 0 ≤ kept)
    (h : ∀ i ∈ l, 0 ≤ before i ∧ before i * kept ≤ after i) :
    (l.map before).prod * kept ^ l.length ≤ (l.map after).prod := by
  induction l with
  | nil => simp
  | cons i l ih =>
    obtain ⟨⟨hbefore, hloss⟩, hrest⟩ := List.forall_mem_cons.mp h
    have hnonneg : 0 ≤ (l.map before).prod := by
      refine List.prod_nonneg fun x hx ↦ ?_
      obtain ⟨j, hj, rfl⟩ := List.mem_map.mp hx
      exact (hrest j hj).1
    rw [List.map_cons, List.prod_cons, List.map_cons, List.prod_cons, List.length_cons, pow_succ]
    calc before i * (l.map before).prod * (kept ^ l.length * kept)
        = before i * kept * ((l.map before).prod * kept ^ l.length) := by ring
      _ ≤ after i * (l.map after).prod :=
          mul_le_mul hloss (ih hrest) (mul_nonneg hnonneg (pow_nonneg hkept _))
            ((mul_nonneg hbefore hkept).trans hloss)

end LidoDao.Library.Compounding
