import Mathlib.Algebra.GroupWithZero.Nat
import Mathlib.Algebra.Order.Ring.Nat
import Mathlib.Data.Set.Defs
import Mathlib.Logic.Function.Basic
import Mathlib.Tactic.Ring

namespace LidoDao.Library.MerkleTree

variable {α : Type} (combine : α → α → α)

/-- The node at a height and a position of the tree over these leaves. -/
def node (leaves : ℕ → α) : ℕ → ℕ → α
  | 0, i => leaves i
  | h + 1, i => combine (node leaves h (2 * i)) (node leaves h (2 * i + 1))

def zeroNode (zero : α) : ℕ → α
  | 0 => zero
  | h + 1 => combine (zeroNode zero h) (zeroNode zero h)

/-- The root of a tree of this depth over a list that is filled up with zeros. -/
def root (zero : α) (depth : ℕ) (l : List α) : α :=
  node combine (fun i ↦ l.getD i zero) depth 0

variable {combine} {f g : ℕ → α} {zero : α} {h i n depth : ℕ}

section Node

theorem leaf_bounds {j : ℕ} : i * 2 ^ (h + 1) ≤ j ∧ j < (i + 1) * 2 ^ (h + 1) ↔
    (2 * i * 2 ^ h ≤ j ∧ j < (2 * i + 1) * 2 ^ h) ∨
      ((2 * i + 1) * 2 ^ h ≤ j ∧ j < (2 * i + 1 + 1) * 2 ^ h) := by
  have hstart : i * 2 ^ (h + 1) = 2 * i * 2 ^ h := by ring
  have hstop : (i + 1) * 2 ^ (h + 1) = (2 * i + 1 + 1) * 2 ^ h := by ring
  have hmiddle : (2 * i + 1) * 2 ^ h = 2 * i * 2 ^ h + 2 ^ h := by ring
  have hlast : (2 * i + 1 + 1) * 2 ^ h = 2 * i * 2 ^ h + 2 ^ h + 2 ^ h := by ring
  rw [hstart, hstop, hmiddle, hlast]
  omega

theorem node_congr (hsame : ∀ j, i * 2 ^ h ≤ j ∧ j < (i + 1) * 2 ^ h → f j = g j) :
    node combine f h i = node combine g h i := by
  induction h generalizing i with
  | zero =>
    rw [node, node]
    exact hsame i (by omega)
  | succ h ih =>
    rw [node, node]
    congr 1
    · exact ih fun j hj ↦ hsame j (leaf_bounds.mpr (.inl hj))
    · exact ih fun j hj ↦ hsame j (leaf_bounds.mpr (.inr hj))

theorem node_eq_zeroNode (hzero : ∀ j, i * 2 ^ h ≤ j → f j = zero) :
    node combine f h i = zeroNode combine zero h := by
  induction h generalizing i with
  | zero =>
    rw [node, zeroNode]
    exact hzero i (by omega)
  | succ h ih =>
    have hstart : i * 2 ^ (h + 1) = 2 * i * 2 ^ h := by ring
    have hmiddle : (2 * i + 1) * 2 ^ h = 2 * i * 2 ^ h + 2 ^ h := by ring
    rw [hstart] at hzero
    rw [node, zeroNode]
    congr 1
    · exact ih hzero
    · refine ih fun j hj ↦ hzero j ?_
      rw [hmiddle] at hj
      exact (Nat.le_add_right _ _).trans hj

/-- Equal nodes are over equal leaves, or the same node comes of different pairs somewhere
under them. -/
theorem node_binding (heq : node combine f h i = node combine g h i) :
    (∀ j, i * 2 ^ h ≤ j ∧ j < (i + 1) * 2 ^ h → f j = g j) ∨
    ∃ k j, k < h ∧ j / 2 ^ (h - (k + 1)) = i ∧
      node combine f (k + 1) j = node combine g (k + 1) j ∧
      ¬(node combine f k (2 * j) = node combine g k (2 * j) ∧
        node combine f k (2 * j + 1) = node combine g k (2 * j + 1)) := by
  induction h generalizing i with
  | zero =>
    refine .inl fun j hj ↦ ?_
    obtain rfl : j = i := by omega
    exact heq
  | succ h ih =>
    by_cases hchildren : node combine f h (2 * i) = node combine g h (2 * i) ∧
        node combine f h (2 * i + 1) = node combine g h (2 * i + 1)
    · rcases ih hchildren.1 with hleft | ⟨k, j, hk, hj, hpair⟩
      · rcases ih hchildren.2 with hright | ⟨k, j, hk, hj, hpair⟩
        · refine .inl fun j hj ↦ ?_
          rcases leaf_bounds.mp hj with hj | hj
          · exact hleft j hj
          · exact hright j hj
        · refine .inr ⟨k, j, by omega, ?_, hpair⟩
          rw [show h + 1 - (k + 1) = h - (k + 1) + 1 by omega, pow_succ,
            ← Nat.div_div_eq_div_mul, hj]
          omega
      · refine .inr ⟨k, j, by omega, ?_, hpair⟩
        rw [show h + 1 - (k + 1) = h - (k + 1) + 1 by omega, pow_succ,
          ← Nat.div_div_eq_div_mul, hj]
        omega
    · refine .inr ⟨h, i, by omega, ?_, heq, hchildren⟩
      rw [Nat.sub_self, pow_zero, Nat.div_one]

end Node

section Frontier

/-- What is kept of the first `n` leaves: at each height where they end in a whole node
without a sibling, this node. -/
def Frontier (combine : α → α → α) (leaves : ℕ → α) (n : ℕ) (branch : Fin depth → α) : Prop :=
  ∀ h : Fin depth, n / 2 ^ h.val % 2 = 1 →
    branch h = node combine leaves h (n / 2 ^ h.val - 1)

theorem div_two_pow_succ (n h : ℕ) : n / 2 ^ (h + 1) = n / 2 ^ h / 2 := by
  rw [pow_succ, Nat.div_div_eq_div_mul]

variable {branch : Fin depth → α} {height : Fin depth}

theorem Frontier.zero_leaves (combine : α → α → α) (leaves : ℕ → α) (branch : Fin depth → α) :
    Frontier combine leaves 0 branch := by
  intro h hbit
  rw [Nat.zero_div] at hbit
  omega

theorem Frontier.combine_last (hf : Frontier combine f n branch)
    (hsame : ∀ j, j < n → f j = g j) (hdvd : 2 ^ height.val ∣ n + 1)
    (heven : (n + 1) / 2 ^ height.val % 2 = 0) :
    combine (branch height) (node combine g height ((n + 1) / 2 ^ height.val - 1)) =
      node combine g (height + 1) ((n + 1) / 2 ^ (height.val + 1) - 1) := by
  have hsucc : (n + 1) / 2 ^ height.val = n / 2 ^ height.val + 1 := Nat.succ_div_of_dvd hdvd
  rw [div_two_pow_succ, hsucc, node, Nat.add_sub_cancel]
  rw [hsucc] at heven
  have hpos : 0 < n / 2 ^ height.val := Nat.pos_of_ne_zero fun hzero ↦ by simp [hzero] at heven
  have hkept : node combine f height (n / 2 ^ height.val - 1) =
      node combine g height (n / 2 ^ height.val - 1) := by
    refine node_congr fun j hj ↦ hsame j (hj.2.trans_le ?_)
    rw [Nat.sub_add_cancel hpos]
    exact Nat.div_mul_le_self _ _
  rw [hf height (by omega), hkept]
  congr 2 <;> omega

theorem Frontier.keep_last (hf : Frontier combine f n branch)
    (hsame : ∀ j, j < n → f j = g j) (hdvd : 2 ^ height.val ∣ n + 1)
    (hodd : (n + 1) / 2 ^ height.val % 2 = 1) :
    Frontier combine g (n + 1) (Function.update branch height
      (node combine g height ((n + 1) / 2 ^ height.val - 1))) := by
  intro h hbit
  by_cases heq : h = height
  · rw [heq, Function.update_self]
  rw [Function.update_of_ne heq]
  have hpos : 0 < 2 ^ height.val := Nat.two_pow_pos _
  rcases Nat.lt_or_gt_of_ne (Fin.val_ne_of_ne heq) with hlt | hgt
  · -- Below the node that is kept nothing is left over.
    have hmod : (n + 1) / 2 ^ h.val % 2 = 0 := by
      obtain ⟨size, hsize⟩ := hdvd
      have hsplit : 2 ^ height.val = 2 ^ h.val * (2 * 2 ^ (height.val - h.val - 1)) := by
        rw [← pow_succ', ← pow_add]
        congr 1
        omega
      rw [hsize, hsplit, Nat.mul_assoc, Nat.mul_div_cancel_left _ (Nat.two_pow_pos _), Nat.mul_assoc,
        Nat.mul_mod_right]
    omega
  · -- Above it the additional leaf completes no node.
    have hdiv : (n + 1) / 2 ^ h.val = n / 2 ^ h.val := by
      refine Nat.succ_div_of_not_dvd fun hdvd' ↦ ?_
      have hsplit : 2 ^ h.val = 2 ^ height.val * 2 * 2 ^ (h.val - height.val - 1) := by
        rw [← pow_succ, ← pow_add]
        congr 1
        omega
      obtain ⟨size, hsize⟩ := hdvd'
      rw [hsize, hsplit, Nat.mul_assoc, Nat.mul_assoc, Nat.mul_div_cancel_left _ hpos,
        Nat.mul_mod_right] at hodd
      omega
    rw [hdiv] at hbit ⊢
    rw [hf h hbit]
    refine node_congr fun j hj ↦ hsame j (hj.2.trans_le ?_)
    have hwhole : n / 2 ^ h.val - 1 + 1 = n / 2 ^ h.val :=
      Nat.sub_add_cancel (Nat.pos_of_ne_zero fun hzero ↦ by simp [hzero] at hbit)
    rw [hwhole]
    exact Nat.div_mul_le_self _ _

theorem Frontier.climb_odd (hf : Frontier combine f n branch)
    (hodd : n / 2 ^ height.val % 2 = 1) :
    combine (branch height) (node combine f height (n / 2 ^ height.val)) =
      node combine f (height + 1) (n / 2 ^ (height.val + 1)) := by
  rw [hf height hodd, div_two_pow_succ, node]
  congr 2 <;> omega

theorem climb_even (hzero : ∀ j, n ≤ j → f j = zero) (heven : n / 2 ^ h % 2 = 0) :
    combine (node combine f h (n / 2 ^ h)) (zeroNode combine zero h) =
      node combine f (h + 1) (n / 2 ^ (h + 1)) := by
  have hright : node combine f h (n / 2 ^ h + 1) = zeroNode combine zero h := by
    refine node_eq_zeroNode fun j hj ↦ hzero j (le_trans ?_ hj)
    have hlt := Nat.lt_div_mul_add (a := n) (Nat.two_pow_pos h)
    rw [Nat.add_mul, Nat.one_mul]
    omega
  rw [← hright, div_two_pow_succ, node]
  congr 2 <;> omega

end Frontier

section Collision

variable {β γ : Type} {H : β → γ} {A B : Set β}

/-- Two different inputs, one of each set, with the same hash. -/
def Collides (H : β → γ) (A B : Set β) : Prop := ∃ x ∈ A, ∃ y ∈ B, x ≠ y ∧ H x = H y

theorem eq_of_not_collides (h : ¬Collides H A B) {x y : β} (hx : x ∈ A) (hy : y ∈ B)
    (heq : H x = H y) : x = y := by
  by_contra hne
  exact h ⟨x, hx, y, hy, hne, heq⟩

end Collision

end LidoDao.Library.MerkleTree
