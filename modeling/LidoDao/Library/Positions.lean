import Mathlib.Algebra.BigOperators.Group.List.Basic
import Mathlib.Algebra.Order.BigOperators.Group.List
import Mathlib.Algebra.Order.Group.Nat
import Mathlib.Algebra.GroupWithZero.Nat
import Mathlib.Data.List.GetD
import Mathlib.Data.List.Nodup
import Mathlib.Data.List.Perm.Basic
import Mathlib.Data.Set.Function
import Mathlib.Order.Interval.Set.Basic
import Mathlib.Logic.Function.Basic
import Mathlib.Data.Nat.Notation
import Mathlib.Tactic.Common

namespace LidoDao.Library.Positions

open Function

variable {α β : Type}

section Sums

theorem sum_map_update [DecidableEq α] {l : List α} (hl : l.Nodup) {i : α} (hi : i ∈ l)
    (f : α → β) (g : β → ℕ) (b : β) :
    (l.map fun a ↦ g (update f i b a)).sum + g (f i) = (l.map fun a ↦ g (f a)).sum + g b := by
  induction l with
  | nil => simp at hi
  | cons a l ih =>
    obtain ⟨ha, hl⟩ := List.nodup_cons.mp hl
    simp only [List.map_cons, List.sum_cons]
    by_cases hai : a = i
    · subst hai
      have hrest : (l.map fun x ↦ g (update f a b x)) = l.map fun x ↦ g (f x) := by
        refine List.map_congr_left fun x hx ↦ ?_
        rw [update_of_ne (ne_of_mem_of_not_mem hx ha)]
      rw [hrest, update_self]
      omega
    · have h := ih hl ((List.mem_cons.mp hi).resolve_left (Ne.symm hai))
      rw [update_of_ne hai]
      omega

theorem length_filter_eq_sum (p : α → Bool) (l : List α) :
    (l.filter p).length = (l.map fun a ↦ (p a).toNat).sum := by
  induction l with
  | nil => rfl
  | cons a l ih =>
    cases h : p a <;> simp [h, ih, Nat.add_comm]

theorem sum_map_filter {p : α → Bool} {l : List α} {f : α → ℕ} (h : ∀ a ∈ l, p a = false → f a = 0) :
    ((l.filter p).map f).sum = (l.map f).sum := by
  induction l with
  | nil => rfl
  | cons a l ih =>
    have hl := ih fun b hb ↦ h b (by simp [hb])
    cases ha : p a with
    | false => simp [ha, hl, h a (by simp) ha]
    | true => simp [ha, hl]

theorem flatMap_filter {p : α → Bool} {l : List α} {f : α → List β}
    (h : ∀ a ∈ l, p a = false → f a = []) : (l.filter p).flatMap f = l.flatMap f := by
  induction l with
  | nil => rfl
  | cons a l ih =>
    have hl := ih fun b hb ↦ h b (by simp [hb])
    cases ha : p a with
    | false => simp [ha, hl, h a (by simp) ha]
    | true => simp [ha, hl]

end Sums

section SwapRemove

/-- Take out the element at a position; the last one moves into its place. -/
def swapRemove (l : List α) (i : ℕ) : List α :=
  match l.getLast? with
  | none => []
  | some x => (l.set i x).dropLast

theorem swapRemove_concat_of_lt {l : List α} {x : α} {i : ℕ} (hi : i < l.length) :
    swapRemove (l ++ [x]) i = l.set i x := by
  simp [swapRemove, List.set_append_left, hi]

theorem swapRemove_concat_length (l : List α) (x : α) : swapRemove (l ++ [x]) l.length = l := by
  simp [swapRemove]

theorem swapRemove_last (l : List α) : swapRemove l (l.length - 1) = l.dropLast := by
  rcases List.eq_nil_or_concat l with rfl | ⟨init, x, rfl⟩
  · rfl
  · simp only [List.concat_eq_append, List.length_append, List.length_singleton,
      Nat.add_sub_cancel, swapRemove_concat_length, List.dropLast_concat]

theorem map_swapRemove (f : α → β) (l : List α) (i : ℕ) :
    (swapRemove l i).map f = swapRemove (l.map f) i := by
  unfold swapRemove
  rw [List.getLast?_map]
  cases l.getLast? with
  | none => rfl
  | some x => simp [List.map_dropLast, List.map_set]

theorem perm_swapRemove {l : List α} {i : ℕ} (hi : i < l.length) :
    l.Perm (l[i] :: swapRemove l i) := by
  rcases List.eq_nil_or_concat l with rfl | ⟨init, x, rfl⟩
  · simp at hi
  · simp only [List.concat_eq_append, List.length_append, List.length_singleton] at hi ⊢
    rcases Nat.lt_succ_iff_lt_or_eq.mp hi with hlt | rfl
    · rw [swapRemove_concat_of_lt hlt]
      simp only [List.getElem_append_left hlt]
      have hsplit : (x :: init).Perm (init[i] :: x :: init.eraseIdx i) :=
        ((List.getElem_cons_eraseIdx_perm hlt).symm.cons x).trans (.swap _ _ _)
      have hset : (x :: init.eraseIdx i).Perm (init.set i x) :=
        (List.set_perm_cons_eraseIdx hlt x).symm
      exact ((List.perm_append_singleton x init).trans hsplit).trans (hset.cons _)
    · rw [swapRemove_concat_length]
      simp only [List.getElem_concat_length]
      exact List.perm_append_singleton x init

theorem length_swapRemove {l : List α} {i : ℕ} (hi : i < l.length) :
    (swapRemove l i).length + 1 = l.length := by
  have h := (perm_swapRemove hi).length_eq
  rw [List.length_cons] at h
  exact h.symm

theorem getElem?_swapRemove_of_lt {l : List α} {i j : ℕ} (hi : i < l.length) (hj : j < i) :
    (swapRemove l i)[j]? = l[j]? := by
  rcases List.eq_nil_or_concat l with rfl | ⟨init, x, rfl⟩
  · simp at hi
  · simp only [List.concat_eq_append, List.length_append, List.length_singleton] at hi ⊢
    rcases Nat.lt_succ_iff_lt_or_eq.mp hi with hlt | rfl
    · rw [swapRemove_concat_of_lt hlt, List.getElem?_set_ne (by omega),
        List.getElem?_append_left (by omega)]
    · rw [swapRemove_concat_length, List.getElem?_append_left (by omega)]

theorem take_swapRemove {l : List α} {i k : ℕ} (hi : i < l.length) (hk : k ≤ i) :
    (swapRemove l i).take k = l.take k := by
  refine List.ext_getElem? fun j ↦ ?_
  rw [List.getElem?_take, List.getElem?_take]
  split
  · exact getElem?_swapRemove_of_lt hi (by omega)
  · rfl

theorem mem_take_or_drop {l : List α} {a : α} (k : ℕ) (h : a ∈ l) : a ∈ l.take k ∨ a ∈ l.drop k := by
  rwa [← List.mem_append, List.take_append_drop]

/-- Take out `n` elements from a position on, the last of them first. -/
def swapRemoves (i : ℕ) : ℕ → List α → List α
  | 0, l => l
  | n + 1, l => swapRemoves i n (swapRemove l (i + n))

theorem map_swapRemoves (f : α → β) (i n : ℕ) (l : List α) :
    (swapRemoves i n l).map f = swapRemoves i n (l.map f) := by
  induction n generalizing l with
  | zero => rfl
  | succ n ih => rw [swapRemoves, ih, map_swapRemove, swapRemoves]

theorem take_swapRemoves {l : List α} {i n k : ℕ} (hi : ∀ j < n, i + j < l.length) (hk : k ≤ i) :
    (swapRemoves i n l).take k = l.take k := by
  induction n generalizing l with
  | zero => rfl
  | succ n ih =>
    have hlast : i + n < l.length := hi n (Nat.lt_succ_self n)
    have hlength := length_swapRemove hlast
    rw [swapRemoves, ih fun j hj ↦ by omega, take_swapRemove hlast (by omega)]

theorem perm_swapRemoves {l : List α} {i n : ℕ} (hi : ∀ j < n, i + j < l.length) :
    l.Perm ((l.drop i).take n ++ swapRemoves i n l) := by
  induction n generalizing l with
  | zero => rfl
  | succ n ih =>
    have hlast : i + n < l.length := hi n (Nat.lt_succ_self n)
    have hlength := length_swapRemove hlast
    have hrest := ih (l := swapRemove l (i + n)) fun j hj ↦ by omega
    have hfront : ((swapRemove l (i + n)).drop i).take n = (l.drop i).take n := by
      rw [List.take_drop, List.take_drop, take_swapRemove hlast (Nat.add_comm i n ▸ le_rfl)]
    have hout : (l.drop i).take (n + 1) = (l.drop i).take n ++ [l[i + n]] := by
      have hin : n < (l.drop i).length := by
        rw [List.length_drop]
        omega
      rw [List.take_succ_eq_append_getElem hin, List.getElem_drop]
    rw [swapRemoves, hout, List.append_assoc, List.singleton_append]
    rw [hfront] at hrest
    exact (perm_swapRemove hlast).trans ((hrest.cons _).trans List.perm_middle.symm)

theorem length_swapRemoves {l : List α} {i n : ℕ} (h : i + n ≤ l.length) :
    (swapRemoves i n l).length = l.length - n := by
  have hlength := (perm_swapRemoves (l := l) (i := i) (n := n) fun j hj ↦ by omega).length_eq
  rw [List.length_append, List.length_take, List.length_drop] at hlength
  omega

section Moved

variable {i n t : ℕ}

/-- The position that the element now at a position had before the removals. -/
def movedFrom (i n t j : ℕ) : ℕ := (swapRemoves i n (List.range t)).getD j 0

theorem getElem?_swapRemoves (h : i + n ≤ t) (f : ℕ → α) {j : ℕ} (hj : j < t - n) :
    (swapRemoves i n ((List.range t).map f))[j]? = some (f (movedFrom i n t j)) := by
  have hlength : j < (swapRemoves i n (List.range t)).length := by
    rw [length_swapRemoves (by simpa using h), List.length_range]
    exact hj
  rw [← map_swapRemoves, List.getElem?_map, List.getElem?_eq_getElem hlength, movedFrom,
    List.getD_eq_getElem _ _ hlength]
  rfl

theorem movedFrom_of_lt (h : i + n ≤ t) {j : ℕ} (hj : j < i) : movedFrom i n t j = j := by
  have htake : (swapRemoves i n (List.range t)).take i = (List.range t).take i :=
    take_swapRemoves (fun k hk ↦ by rw [List.length_range]; omega) le_rfl
  have hget := congrArg (·[j]?) htake
  simp only [List.getElem?_take, if_pos hj, List.getElem?_range (show j < t by omega)] at hget
  rw [movedFrom, List.getD_eq_getElem?_getD, hget]
  rfl

theorem perm_range_swapRemoves (h : i + n ≤ t) :
    (List.range t).Perm (List.range' i n ++ swapRemoves i n (List.range t)) := by
  have hperm := perm_swapRemoves (l := List.range t) (i := i) (n := n) fun j hj ↦ by
    rw [List.length_range]
    omega
  have hout : ((List.range t).drop i).take n = List.range' i n := by
    refine List.ext_getElem ?_ fun k _ _ ↦ ?_
    · rw [List.length_take, List.length_drop, List.length_range, List.length_range']
      omega
    · simp
  rwa [hout] at hperm

theorem nodup_swapRemoves (h : i + n ≤ t) :
    (swapRemoves i n (List.range t)).Nodup ∧
      ∀ j ∈ swapRemoves i n (List.range t), j < t ∧ (j < i ∨ i + n ≤ j) := by
  have hperm := perm_range_swapRemoves h
  obtain ⟨_, hnodup, hdisjoint⟩ := List.nodup_append.mp (hperm.nodup_iff.mp List.nodup_range)
  refine ⟨hnodup, fun j hj ↦ ⟨?_, ?_⟩⟩
  · exact List.mem_range.mp (hperm.mem_iff.mpr (List.mem_append_right _ hj))
  · by_contra hnot
    have hmem : j ∈ List.range' i n := List.mem_range'_1.mpr (by omega)
    exact hdisjoint j hmem j hj rfl

theorem movedFrom_mem (h : i + n ≤ t) {j : ℕ} (hj : j < t - n) :
    movedFrom i n t j ∈ swapRemoves i n (List.range t) := by
  have hlength : j < (swapRemoves i n (List.range t)).length := by
    rw [length_swapRemoves (by simpa using h), List.length_range]
    exact hj
  rw [movedFrom, List.getD_eq_getElem _ _ hlength]
  exact List.getElem_mem hlength

theorem movedFrom_inj (h : i + n ≤ t) {j k : ℕ} (hj : j < t - n) (hk : k < t - n)
    (heq : movedFrom i n t j = movedFrom i n t k) : j = k := by
  have hlength : (swapRemoves i n (List.range t)).length = t - n := by
    rw [length_swapRemoves (by simpa using h), List.length_range]
  rw [← hlength] at hj hk
  rw [movedFrom, movedFrom, List.getD_eq_getElem _ _ hj, List.getD_eq_getElem _ _ hk] at heq
  exact (nodup_swapRemoves h).1.getElem_inj_iff.mp heq

theorem bijOn_movedFrom (h : i + n ≤ t) :
    Set.BijOn (movedFrom i n t) (Set.Ico i (t - n)) (Set.Ico (i + n) t) := by
  refine ⟨?_, ?_, ?_⟩
  · intro j h'
    obtain ⟨hij, hjt⟩ := h'
    obtain ⟨hlt, hcase⟩ := (nodup_swapRemoves h).2 _ (movedFrom_mem h hjt)
    refine ⟨hcase.resolve_left fun hfront ↦ ?_, hlt⟩
    have heq := movedFrom_inj h (by omega) hjt (movedFrom_of_lt h hfront)
    omega
  · intro j hj k hk heq
    obtain ⟨_, hj⟩ := hj
    obtain ⟨_, hk⟩ := hk
    exact movedFrom_inj h hj hk heq
  · intro k h'
    obtain ⟨hik, hkt⟩ := h'
    have hmem := (perm_range_swapRemoves h).mem_iff.mp (List.mem_range.mpr hkt)
    have hleft := (List.mem_append.mp hmem).resolve_left fun hout ↦ by
      have hbounds := List.mem_range'_1.mp hout
      omega
    obtain ⟨j, hj, hget⟩ := List.mem_iff_getElem.mp hleft
    have hmoved : movedFrom i n t j = k := by
      rw [movedFrom, List.getD_eq_getElem _ _ hj, hget]
    rw [length_swapRemoves (by simpa using h), List.length_range] at hj
    refine ⟨j, ⟨?_, hj⟩, hmoved⟩
    by_contra hfront
    rw [movedFrom_of_lt h (by omega)] at hmoved
    omega

end Moved

end SwapRemove

end LidoDao.Library.Positions
