import Mathlib.Algebra.Order.BigOperators.Group.List
import Mathlib.Algebra.Group.Action.Defs
import LidoDao.Library.TokenBucket

namespace LidoDao.Library.SpacedBatches

open TokenBucket

theorem length_le_of_spaced {times : List ℕ} {distance first last : ℕ} (hpos : 0 < distance)
    (hspaced : times.Pairwise fun s t ↦ s + distance ≤ t)
    (hwindow : ∀ t ∈ times, first ≤ t ∧ t ≤ last) :
    times.length ≤ (last - first) / distance + 1 := by
  induction times generalizing first with
  | nil => exact Nat.zero_le _
  | cons t times ih =>
    obtain ⟨hlater, hspaced⟩ := List.pairwise_cons.mp hspaced
    obtain ⟨hfirst, hlast⟩ := hwindow t List.mem_cons_self
    cases times with
    | nil => exact Nat.le_add_left _ _
    | cons u times =>
      have hrest : (u :: times).length ≤ (last - (t + distance)) / distance + 1 :=
        ih hspaced fun s hs ↦ ⟨hlater s hs, (hwindow s (List.mem_cons_of_mem _ hs)).2⟩
      have hnext := hlater u List.mem_cons_self
      have hu := (hwindow u (List.mem_cons_of_mem _ List.mem_cons_self)).2
      have hone : (last - t) / distance = (last - (t + distance)) / distance + 1 := by
        rw [← Nat.add_div_right _ hpos]
        congr 1
        omega
      have hmono : (last - t) / distance ≤ (last - first) / distance :=
        Nat.div_le_div_right (by omega)
      rw [List.length_cons]
      omega

variable {batches : List (ℕ × ℕ)} {distance size first last : ℕ}

theorem takenBetween_le_of_spaced (hpos : 0 < distance)
    (hspaced : batches.Pairwise fun p q ↦ p.1 + distance ≤ q.1)
    (hsize : ∀ p ∈ batches, p.2 ≤ size) :
    takenBetween batches first last ≤ size * ((last - first) / distance + 1) := by
  let inside := batches.filter fun p ↦ decide (first ≤ p.1 ∧ p.1 ≤ last)
  have hlength : inside.length ≤ (last - first) / distance + 1 := by
    rw [← List.length_map (f := Prod.fst)]
    refine length_le_of_spaced hpos (List.pairwise_map.mpr (hspaced.filter _)) fun t ht ↦ ?_
    obtain ⟨p, hp, rfl⟩ := List.mem_map.mp ht
    exact of_decide_eq_true (List.mem_filter.mp hp).2
  have hsum : (inside.map Prod.snd).sum ≤ (inside.map Prod.snd).length • size := by
    refine List.sum_le_card_nsmul _ _ fun n hn ↦ ?_
    obtain ⟨p, hp, rfl⟩ := List.mem_map.mp hn
    exact hsize p (List.mem_filter.mp hp).1
  rw [List.length_map, smul_eq_mul, Nat.mul_comm] at hsum
  exact hsum.trans (Nat.mul_le_mul_left size hlength)

end LidoDao.Library.SpacedBatches
