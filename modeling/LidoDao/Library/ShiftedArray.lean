import Mathlib.Data.List.InsertIdx
import Mathlib.Data.Nat.Notation

namespace LidoDao.Library.ShiftedArray

/-! Insertion into an array and removal from it by moving its elements one by one. A position
out of bounds is an error. -/

variable {α : Type} {l : List α} {i k n : ℕ}

/-- Move the elements from position `i` on up by one; `k` is the next position written. -/
def openGap (i : ℕ) : ℕ → List α → Option (List α)
  | 0, l => some l
  | k + 1, l =>
    if i < k + 1 then
      match l[k]? with
      | some a => if k + 1 < l.length then openGap i k (l.set (k + 1) a) else none
      | none => none
    else some l

/-- Move the `n` elements behind position `i` down by one. -/
def closeGap : ℕ → ℕ → List α → Option (List α)
  | 0, _, l => some l
  | n + 1, i, l =>
    match l[i + 1]? with
    | some a => closeGap n (i + 1) (l.set i a)
    | none => none

theorem exists_openGap (hik : i ≤ k) (hk : k < l.length) : ∃ l', openGap i k l = some l' ∧
    l'.length = l.length ∧ ∀ j, l'[j]? = if i < j ∧ j ≤ k then l[j - 1]? else l[j]? := by
  induction k generalizing l with
  | zero =>
    refine ⟨l, rfl, rfl, fun j ↦ ?_⟩
    rw [if_neg (by omega)]
  | succ k ih =>
    rw [openGap]
    by_cases hi : i < k + 1
    · have hget : l[k]? = some l[k] := List.getElem?_eq_getElem (by omega)
      have hlength : (l.set (k + 1) l[k]).length = l.length := List.length_set ..
      obtain ⟨l', hl', hlength', hat⟩ := ih (l := l.set (k + 1) l[k]) (by omega) (by omega)
      rw [if_pos hi, hget]
      dsimp only
      rw [if_pos hk]
      refine ⟨l', hl', hlength'.trans hlength, fun j ↦ ?_⟩
      rw [hat]
      -- Position `k + 1` now holds what stood in front of it.
      rcases Nat.lt_trichotomy j (k + 1) with hj | rfl | hj
      · rw [List.getElem?_set_ne (by omega), List.getElem?_set_ne (by omega)]
        simp only [show j ≤ k ↔ j ≤ k + 1 by omega]
      · rw [if_neg (by omega), if_pos (by omega), List.getElem?_set_self hk]
        exact hget.symm
      · rw [if_neg (by omega), if_neg (by omega), List.getElem?_set_ne (by omega)]
    · refine ⟨l, if_neg hi, rfl, fun j ↦ ?_⟩
      rw [if_neg (by omega)]

theorem openGap_eq_insertIdx (hi : i ≤ l.length) (blank a : α) :
    ∃ l', openGap i l.length (l ++ [blank]) = some l' ∧ i < l'.length ∧
      l'.set i a = l.insertIdx i a := by
  obtain ⟨l', hl', hlength, hat⟩ := exists_openGap (l := l ++ [blank]) hi (by simp)
  rw [List.length_append, List.length_singleton] at hlength
  refine ⟨l', hl', by omega, List.ext_getElem? fun j ↦ ?_⟩
  rcases Nat.lt_trichotomy j i with hj | rfl | hj
  · rw [List.getElem?_set_ne (by omega), List.getElem?_insertIdx_of_lt hj, hat,
      if_neg (by omega), List.getElem?_append_left (by omega)]
  · rw [List.getElem?_set_self (by omega), List.getElem?_insertIdx_self, if_pos hi]
  · rw [List.getElem?_set_ne (by omega), List.getElem?_insertIdx_of_gt hj, hat]
    by_cases hjl : j ≤ l.length
    · rw [if_pos ⟨hj, hjl⟩, List.getElem?_append_left (by omega)]
    · rw [if_neg (by omega), List.getElem?_eq_none (by simp; omega),
        List.getElem?_eq_none (by omega)]

theorem insertIdx_eq_take_append_drop (hi : i ≤ l.length) (a : α) :
    l.insertIdx i a = l.take i ++ [a] ++ l.drop i := by
  induction l generalizing i with
  | nil =>
    obtain rfl : i = 0 := Nat.le_zero.mp hi
    rfl
  | cons b l ih =>
    cases i with
    | zero => rfl
    | succ i => exact congrArg (b :: ·) (ih (Nat.le_of_succ_le_succ hi))

theorem exists_closeGap (h : i + n < l.length) : ∃ l', closeGap n i l = some l' ∧
    l'.length = l.length ∧ ∀ j, l'[j]? = if i ≤ j ∧ j < i + n then l[j + 1]? else l[j]? := by
  induction n generalizing i l with
  | zero =>
    refine ⟨l, rfl, rfl, fun j ↦ ?_⟩
    rw [if_neg (by omega)]
  | succ n ih =>
    have hget : l[i + 1]? = some l[i + 1] := List.getElem?_eq_getElem (by omega)
    have hlength : (l.set i l[i + 1]).length = l.length := List.length_set ..
    obtain ⟨l', hl', hlength', hat⟩ := ih (i := i + 1) (l := l.set i l[i + 1]) (by omega)
    rw [closeGap, hget]
    refine ⟨l', hl', hlength'.trans hlength, fun j ↦ ?_⟩
    rw [hat]
    rcases Nat.lt_trichotomy j i with hj | rfl | hj
    · rw [if_neg (by omega), if_neg (by omega), List.getElem?_set_ne (by omega)]
    · rw [if_neg (by omega), if_pos (by omega), List.getElem?_set_self (by omega)]
      exact hget.symm
    · rw [List.getElem?_set_ne (by omega), List.getElem?_set_ne (by omega)]
      simp only [show (i + 1 ≤ j ∧ j < i + 1 + n) ↔ (i ≤ j ∧ j < i + (n + 1)) by omega]

theorem closeGap_eq_eraseIdx (hi : i < l.length) :
    ∃ l', closeGap (l.length - 1 - i) i l = some l' ∧ l' ≠ [] ∧ l'.dropLast = l.eraseIdx i := by
  obtain ⟨l', hl', hlength, hat⟩ :=
    exists_closeGap (i := i) (n := l.length - 1 - i) (l := l) (by omega)
  refine ⟨l', hl', List.ne_nil_of_length_pos (by omega), List.ext_getElem? fun j ↦ ?_⟩
  rw [List.getElem?_dropLast, List.getElem?_eraseIdx, hat, hlength]
  rcases Nat.lt_or_ge j i with hj | hj
  · rw [if_pos (by omega), if_neg (by omega), if_pos hj]
  · rw [if_neg (Nat.not_lt_of_le hj)]
    by_cases hlast : j < l.length - 1
    · rw [if_pos hlast, if_pos (by omega)]
    · rw [if_neg hlast, List.getElem?_eq_none (by omega)]

end LidoDao.Library.ShiftedArray
