import Mathlib.Algebra.BigOperators.Group.List.Basic
import Mathlib.Algebra.Order.Ring.Nat

namespace LidoDao.Library.TokenBucket

def takenBetween (taken : List (ℕ × ℕ)) (first last : ℕ) : ℕ :=
  ((taken.filter fun p ↦ decide (first ≤ p.1 ∧ p.1 ≤ last)).map Prod.snd).sum

section Window

variable {taken : List (ℕ × ℕ)} {first last now time amount : ℕ}

theorem takenBetween_concat : takenBetween (taken ++ [(time, amount)]) first last =
    takenBetween taken first last + if first ≤ time ∧ time ≤ last then amount else 0 := by
  rw [takenBetween, List.filter_append, List.map_append, List.sum_append, takenBetween]
  by_cases h : first ≤ time ∧ time ≤ last
  · simp [h]
  · simp [h]

theorem takenBetween_of_past (h : ∀ p ∈ taken, p.1 ≤ now) (hlast : now ≤ last) :
    takenBetween taken first last = takenBetween taken first now := by
  rw [takenBetween, takenBetween]
  refine congrArg (fun l : List (ℕ × ℕ) ↦ (l.map Prod.snd).sum) (List.filter_congr fun p hp ↦ ?_)
  have hle := h p hp
  rw [decide_eq_decide]
  omega

theorem takenBetween_of_lt (h : ∀ p ∈ taken, p.1 ≤ now) (hfirst : now < first) :
    takenBetween taken first last = 0 := by
  rw [takenBetween, List.filter_eq_nil_iff.mpr]
  · rfl
  · intro p hp
    have hle := h p hp
    rw [decide_eq_true_eq]
    omega

end Window

/-- A bucket that refills with time, up to a capacity. The level is that of the time of
the last step; what was taken is listed with its times. -/
structure Bucket where
  level : ℕ
  now : ℕ
  taken : List (ℕ × ℕ)

variable (capacity rate : ℕ)

def Bucket.available (b : Bucket) (time : ℕ) : ℕ :=
  min capacity (b.level + (time - b.now) * rate)

/-- Some of what is available is taken, or time passes and something may get lost. -/
inductive Step (b : Bucket) : Bucket → Prop
  | take {time amount : ℕ} (htime : b.now ≤ time)
      (hamount : amount ≤ b.available capacity rate time) :
      Step b
        { level := b.available capacity rate time - amount
          now := time
          taken := b.taken ++ [(time, amount)] }
  | wait {time level : ℕ} (htime : b.now ≤ time)
      (hlevel : level ≤ b.available capacity rate time) :
      Step b { b with level, now := time }

/-- In every window no more was taken than the capacity and what the window adds; in
one that ends now the level is still to be taken. -/
structure Bounded (b : Bucket) : Prop where
  past : ∀ p ∈ b.taken, p.1 ≤ b.now
  level : b.level ≤ capacity
  recent : ∀ first,
    takenBetween b.taken first b.now + b.level ≤ capacity + (b.now - first) * rate
  window : ∀ first last, first ≤ last →
    takenBetween b.taken first last ≤ capacity + (last - first) * rate

namespace Bounded

variable {capacity rate : ℕ} {b b' : Bucket}

theorem full (now : ℕ) : Bounded capacity rate { level := capacity, now, taken := [] } where
  past _ h := absurd h List.not_mem_nil
  level := le_rfl
  recent first := by
    rw [takenBetween, List.filter_nil, List.map_nil, List.sum_nil, Nat.zero_add]
    exact Nat.le_add_right _ _
  window first last _ := Nat.zero_le _

theorem elapsed {first now time : ℕ} (hfirst : first ≤ now) (htime : now ≤ time) :
    (time - first) * rate = (now - first) * rate + (time - now) * rate := by
  rw [← Nat.add_mul]
  congr 1
  omega

theorem available_le (h : Bounded capacity rate b) {time : ℕ} (htime : b.now ≤ time)
    (first : ℕ) : takenBetween b.taken first time + b.available capacity rate time ≤
      capacity + (time - first) * rate := by
  have hcapacity : b.available capacity rate time ≤ capacity := min_le_left _ _
  rcases Nat.lt_or_ge b.now first with hfirst | hfirst
  · rw [takenBetween_of_lt h.past hfirst, Nat.zero_add]
    exact hcapacity.trans (Nat.le_add_right _ _)
  · have hgrown : b.available capacity rate time ≤ b.level + (time - b.now) * rate :=
      min_le_right _ _
    have hrecent := h.recent first
    rw [takenBetween_of_past h.past htime, elapsed hfirst htime]
    omega

theorem step (h : Bounded capacity rate b) (hstep : Step capacity rate b b') :
    Bounded capacity rate b' := by
  cases hstep with
  | @take time amount htime hamount =>
    have hcapacity : b.available capacity rate time ≤ capacity := min_le_left _ _
    have hrecent (first : ℕ) :
        takenBetween (b.taken ++ [(time, amount)]) first time +
          (b.available capacity rate time - amount) ≤ capacity + (time - first) * rate := by
      have hle := h.available_le htime first
      rw [takenBetween_concat]
      split
      · omega
      · omega
    have hpast : ∀ p ∈ b.taken ++ [(time, amount)], p.1 ≤ time := by
      intro p hp
      rcases List.mem_append.mp hp with hp | hp
      · exact (h.past p hp).trans htime
      · rw [List.mem_singleton.mp hp]
    refine ⟨hpast, (Nat.sub_le _ _).trans hcapacity, hrecent, fun first last hle ↦ ?_⟩
    dsimp only
    rcases Nat.lt_or_ge last time with hlast | hlast
    · rw [takenBetween_concat, if_neg fun hin ↦ by omega]
      exact h.window first last hle
    · rw [takenBetween_of_past hpast hlast]
      have hmono : (time - first) * rate ≤ (last - first) * rate :=
        Nat.mul_le_mul_right _ (by omega)
      have hfirst := hrecent first
      omega
  | @wait time level htime hlevel =>
    have hcapacity : b.available capacity rate time ≤ capacity := min_le_left _ _
    refine ⟨fun p hp ↦ (h.past p hp).trans htime, hlevel.trans hcapacity, fun first ↦ ?_, h.window⟩
    have hle := h.available_le htime first
    dsimp only
    omega

end Bounded

section RoundedRate

variable {rate waited lost : ℕ}

theorem le_rounded_rate (hle : rate ≤ capacity) (hpos : 0 < rate) :
    rate ≤ capacity / (capacity / rate) := by
  rw [Nat.le_div_iff_mul_le (Nat.div_pos hle hpos)]
  exact Nat.mul_div_le capacity rate

/-- An empty bucket refills as with the rate itself exactly where this rate was got back, or
where both rates fill it. A start that is late by some steps is not made up for: the rate
exceeds the one it was got back from by less than the latter over all the steps. -/
theorem rounded_refill_eq_iff (hle : rate ≤ capacity) (hpos : 0 < rate) (hlost : lost ≤ waited) :
    min capacity ((waited - lost) * (capacity / (capacity / rate))) =
        min capacity (waited * rate) ↔
      waited = 0 ∨ (lost = 0 ∧ capacity / (capacity / rate) = rate) ∨
        (capacity ≤ waited * rate ∧
          capacity ≤ (waited - lost) * (capacity / (capacity / rate))) := by
  have hrounded := le_rounded_rate capacity hle hpos
  have hfill : capacity / (capacity / rate) * (capacity / rate) ≤ capacity :=
    Nat.div_mul_le_self _ _
  have hover : capacity < (capacity / rate + 1) * rate := by
    rw [Nat.mul_comm]
    exact Nat.lt_mul_div_succ capacity hpos
  generalize hsteps : capacity / rate = steps at *
  generalize capacity / steps = rounded at *
  constructor
  · intro heq
    rcases Nat.lt_or_ge (waited * rate) capacity with hlt | hge
    · have hproduct : (waited - lost) * rounded = waited * rate := by omega
      have hsmall : waited ≤ steps := by
        rw [← hsteps, Nat.le_div_iff_mul_le hpos]
        exact hlt.le
      obtain ⟨more, rfl⟩ := Nat.exists_eq_add_of_le hrounded
      obtain ⟨left, rfl⟩ := Nat.exists_eq_add_of_le hlost
      rw [Nat.add_sub_cancel_left] at hproduct
      have hextra : left * more = lost * rate := by
        rw [Nat.mul_add, Nat.add_mul] at hproduct
        omega
      have hless : steps * more < rate := by
        rw [Nat.add_mul, Nat.mul_comm rate] at hfill
        rw [Nat.add_mul, Nat.one_mul] at hover
        rw [Nat.mul_comm steps]
        omega
      have hbound : left * more ≤ steps * more :=
        Nat.mul_le_mul_right _ ((Nat.le_add_left _ _).trans hsmall)
      rcases Nat.eq_zero_or_pos lost with rfl | hlate
      · rw [Nat.zero_mul] at hextra
        rcases Nat.mul_eq_zero.mp hextra with rfl | rfl
        · exact .inl rfl
        · exact .inr (.inl ⟨rfl, rfl⟩)
      · have hrate : rate ≤ lost * rate := Nat.le_mul_of_pos_left rate hlate
        omega
    · exact .inr (.inr ⟨hge, by omega⟩)
  · intro h
    rcases h with rfl | ⟨rfl, rfl⟩ | ⟨hge, hge'⟩
    · simp
    · simp
    · rw [Nat.min_eq_left hge, Nat.min_eq_left hge']

end RoundedRate

end LidoDao.Library.TokenBucket
