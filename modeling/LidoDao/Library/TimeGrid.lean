import Mathlib.Order.Bounds.Basic
import Mathlib.Tactic.Ring

namespace LidoDao.Library.TimeGrid

/-- Time cut into intervals of one length from an origin on. -/
structure Grid where
  origin : ℕ
  length : ℕ
  length_pos : 0 < length

namespace Grid

variable {g : Grid} {k l t : ℕ}

def start (g : Grid) (k : ℕ) : ℕ := k * g.length + g.origin

def stop (g : Grid) (k : ℕ) : ℕ := (k + 1) * g.length + g.origin - 1

def index (g : Grid) (t : ℕ) : ℕ := (t - g.origin) / g.length

theorem start_succ (g : Grid) (k : ℕ) : g.start (k + 1) = g.stop k + 1 := by
  have hpos := g.length_pos
  have hle : g.length ≤ (k + 1) * g.length := Nat.le_mul_of_pos_left _ (Nat.succ_pos k)
  rw [start, stop]
  omega

theorem stop_succ (g : Grid) (k : ℕ) : g.stop k + 1 = g.start k + g.length := by
  rw [← start_succ, start, start, Nat.succ_mul]
  exact Nat.add_right_comm _ _ _

theorem stop_lt_of_le_mod {w : ℕ} (hlength : g.length ≤ w) (ht : g.start k ≤ t) (htw : t < w)
    (h : t ≤ g.stop k % w) : g.stop k < w := by
  by_contra hle
  have hsucc := g.stop_succ k
  rw [Nat.mod_eq_sub_mod (by omega), Nat.mod_eq_of_lt (by omega)] at h
  omega

theorem start_mono (h : k ≤ l) : g.start k ≤ g.start l :=
  Nat.add_le_add_right (Nat.mul_le_mul_right _ h) _

theorem start_index_le (ht : g.origin ≤ t) : g.start (g.index t) ≤ t := by
  have h := Nat.div_mul_le_self (t - g.origin) g.length
  rw [start, index]
  omega

theorem le_stop_index (ht : g.origin ≤ t) : t ≤ g.stop (g.index t) := by
  have h : t - g.origin < (g.index t + 1) * g.length :=
    (Nat.div_lt_iff_lt_mul g.length_pos).mp (Nat.lt_succ_self _)
  rw [stop]
  omega

theorem equal_or_disjoint (g : Grid) (k l : ℕ) : k = l ∨ g.stop k < g.start l ∨
    g.stop l < g.start k := by
  rcases Nat.lt_trichotomy k l with h | h | h
  · have hle := start_mono (g := g) (Nat.succ_le_of_lt h)
    rw [Nat.succ_eq_add_one, start_succ] at hle
    exact .inr (.inl hle)
  · exact .inl h
  · have hle := start_mono (g := g) (Nat.succ_le_of_lt h)
    rw [Nat.succ_eq_add_one, start_succ] at hle
    exact .inr (.inr hle)

theorem start_index_stop_succ (ht : g.stop k + 1 = t) : g.start (g.index t) = t := by
  rw [← start_succ] at ht
  have hindex : g.index t = k + 1 := by
    rw [index, ← ht, start, Nat.add_sub_cancel, Nat.mul_div_cancel _ g.length_pos]
  rw [hindex, ht]

end Grid

theorem isGreatest_div_mul {n m : ℕ} (hm : 0 < m) : IsGreatest {k | m ∣ k ∧ k ≤ n} (n / m * m) := by
  constructor
  · exact ⟨Nat.dvd_mul_left _ _, Nat.div_mul_le_self _ _⟩
  · intro k h
    obtain ⟨⟨a, rfl⟩, hk⟩ := h
    rw [Nat.mul_comm]
    exact Nat.mul_le_mul_right _ ((Nat.le_div_iff_mul_le hm).mpr (Nat.mul_comm m a ▸ hk))

theorem div_mod_eq_iff {d p m : ℕ} (hm : 0 < m) (hpos : 0 < p % m) :
    d / (p % m) = d / p ↔ p < m ∨ d < p % m := by
  rcases Nat.lt_or_ge p m with hlt | hge
  · simp only [Nat.mod_eq_of_lt hlt, hlt, true_or]
  · have hlt : p % m < m := Nat.mod_lt _ hm
    have htwice : 2 * (p % m) < p := by
      have hdiv : m ≤ m * (p / m) := Nat.le_mul_of_pos_right _ (Nat.div_pos hge hm)
      have hsum := Nat.mod_add_div p m
      omega
    constructor
    · intro heq
      refine .inr (Nat.lt_of_not_le fun hle ↦ ?_)
      have hone : 1 ≤ d / p := heq ▸ Nat.div_pos hle hpos
      have hbelow : d / p * p ≤ d := Nat.div_mul_le_self _ _
      have habove : d < (d / p + 1) * (p % m) := by
        rw [← heq]
        exact (Nat.div_lt_iff_lt_mul hpos).mp (Nat.lt_succ_self _)
      have hmul : d / p * (2 * (p % m)) ≤ d / p * p := Nat.mul_le_mul_left _ htwice.le
      have hmore : 1 * (p % m) ≤ d / p * (p % m) := Nat.mul_le_mul_right _ hone
      have hsplit : d / p * (2 * (p % m)) = d / p * (p % m) + d / p * (p % m) := by ring
      rw [Nat.add_mul] at habove
      omega
    · intro h
      rcases h with h | h
      · exact absurd h (Nat.not_lt_of_le hge)
      · rw [Nat.div_eq_of_lt h, Nat.div_eq_of_lt (by omega)]

end LidoDao.Library.TimeGrid
