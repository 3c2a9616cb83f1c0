import Mathlib.Data.List.Nodup
import Mathlib.Data.Nat.Notation
import Mathlib.Tactic.Common

namespace LidoDao.Library.IndexedArray

open Function

variable {α : Type}

/-- A map that tells the one-based position of each element of an array, and zero for
what is not in it. -/
def Indexes (items : List α) (index : α → ℕ) : Prop :=
  ∀ a i, items[i]? = some a ↔ index a = i + 1

namespace Indexes

variable {items : List α} {index : α → ℕ} {a x : α}

theorem nil : Indexes ([] : List α) fun _ ↦ 0 := by
  intro a i
  simp

theorem mem (h : Indexes items index) : a ∈ items ↔ 0 < index a := by
  rw [List.mem_iff_getElem?]
  constructor
  · intro h'
    obtain ⟨i, hi⟩ := h'
    have hindex := (h a i).mp hi
    omega
  · intro hpos
    exact ⟨index a - 1, (h a _).mpr (by omega)⟩

theorem le_length (h : Indexes items index) (a : α) : index a ≤ items.length := by
  rcases Nat.eq_zero_or_pos (index a) with hzero | hpos
  · rw [hzero]
    exact Nat.zero_le _
  · obtain ⟨hlt, _⟩ := List.getElem?_eq_some_iff.mp ((h a (index a - 1)).mpr (by omega))
    omega

theorem nodup (h : Indexes items index) : items.Nodup := by
  rw [List.nodup_iff_getElem?_ne_getElem?]
  intro i j hij hj heq
  obtain ⟨b, hb⟩ : ∃ b, items[j]? = some b := ⟨_, List.getElem?_eq_getElem hj⟩
  have hi := (h b i).mp (heq.trans hb)
  have hj := (h b j).mp hb
  omega

variable [DecidableEq α]

theorem push (h : Indexes items index) (ha : index a = 0) :
    Indexes (items ++ [a]) (update index a (items.length + 1)) := by
  intro b i
  have hold := h b i
  have hle := h.le_length b
  rw [List.getElem?_append]
  by_cases hb : b = a
  · subst hb
    rw [update_self]
    split
    · rw [hold, ha]
      omega
    · simp only [List.getElem?_singleton]
      split
      · simp
        omega
      · simp
        omega
  · rw [update_of_ne hb]
    split
    · exact hold
    · have hne : index b ≠ i + 1 := by omega
      simp only [List.getElem?_singleton]
      split
      · simp [hne, Ne.symm hb]
      · simp [hne]

theorem pop (h : Indexes (items ++ [x]) index) : Indexes items (update index x 0) := by
  intro b i
  have hx : index x = items.length + 1 := (h x items.length).mp (by simp)
  by_cases hb : b = x
  · subst hb
    rw [update_self]
    have hne : items[i]? ≠ some b := by
      intro hi
      obtain ⟨hlt, _⟩ := List.getElem?_eq_some_iff.mp hi
      have hindex := (h b i).mp (by rw [List.getElem?_append_left hlt, hi])
      omega
    simp [hne]
  · rw [update_of_ne hb, ← h b i]
    rcases Nat.lt_trichotomy i items.length with hlt | rfl | hlt
    · rw [List.getElem?_append_left hlt]
    · simp [Ne.symm hb]
    · rw [List.getElem?_eq_none (Nat.le_of_lt hlt), List.getElem?_eq_none]
      rw [List.length_append, List.length_singleton]
      exact hlt

theorem move (h : Indexes (items ++ [x]) index) {i : ℕ} (ha : index a = i + 1)
    (hi : i < items.length) :
    Indexes (items.set i x) (update (update index x (i + 1)) a 0) := by
  have hx : index x = items.length + 1 := (h x items.length).mp (by simp)
  have hax : a ≠ x := by
    rintro rfl
    omega
  have hpopped := h.pop
  intro b j
  have hold := hpopped b j
  by_cases hba : b = a
  · subst hba
    rw [update_self]
    rw [update_of_ne hax] at hold
    have hne : (items.set i x)[j]? ≠ some b := by
      rw [List.getElem?_set]
      split
      · simp [Ne.symm hax]
      · rw [Ne, hold]
        omega
    simp [hne]
  · rw [update_of_ne hba, List.getElem?_set]
    by_cases hbx : b = x
    · subst hbx
      rw [update_self] at hold ⊢
      split
      · simp
        omega
      · rw [hold]
        omega
    · rw [update_of_ne hbx] at hold ⊢
      split
      · have hib := h b i
        rw [List.getElem?_append_left hi] at hib
        have hai : items[i]? = some a := by
          have haa := (h a i).mpr ha
          rwa [List.getElem?_append_left hi] at haa
        rw [hai] at hib
        subst j
        simp [Ne.symm hbx, ← hib, Ne.symm hba]
      · exact hold

end Indexes

end LidoDao.Library.IndexedArray
