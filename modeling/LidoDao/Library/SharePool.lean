import Mathlib.Data.Nat.Notation
import Mathlib.Algebra.Order.Field.Rat
import Mathlib.Algebra.Order.Ring.Nat
import Mathlib.Tactic.Linarith
import Mathlib.Tactic.Ring

namespace LidoDao.Library.SharePool

variable {value shares value' shares' part part' paid issued : ℕ}

theorem worth_le_worth (hshares : 0 < shares) (hshares' : 0 < shares') (hpart : part ≤ part')
    (hprice : value * shares' ≤ value' * shares) :
    part * value / shares ≤ part' * value' / shares' := by
  rw [Nat.le_div_iff_mul_le hshares']
  have hfloor : part * value / shares * shares ≤ part * value := Nat.div_mul_le_self _ _
  have hscaled : part * value / shares * shares' * shares ≤ part' * value' * shares := by
    calc part * value / shares * shares' * shares
        = part * value / shares * shares * shares' := by ring
      _ ≤ part * value * shares' := Nat.mul_le_mul_right _ hfloor
      _ = part * (value * shares') := by ring
      _ ≤ part * (value' * shares) := Nat.mul_le_mul_left _ hprice
      _ = part * value' * shares := by ring
      _ ≤ part' * value' * shares :=
        Nat.mul_le_mul_right _ (Nat.mul_le_mul_right _ hpart)
  exact Nat.le_of_mul_le_mul_right hscaled hshares

theorem price_trans {value'' shares'' : ℕ} (hshares' : 0 < shares')
    (h : value * shares' ≤ value' * shares) (h' : value' * shares'' ≤ value'' * shares') :
    value * shares'' ≤ value'' * shares := by
  refine Nat.le_of_mul_le_mul_right ?_ hshares'
  calc value * shares'' * shares' = value * shares' * shares'' := by ring
    _ ≤ value' * shares * shares'' := Nat.mul_le_mul_right _ h
    _ = value' * shares'' * shares := by ring
    _ ≤ value'' * shares' * shares := Nat.mul_le_mul_right _ h'
    _ = value'' * shares * shares' := by ring

section Move

/-! An `amount` of the value stands for `amount * shares / value` shares, rounded down.
These are moved to or from somebody who holds `held` besides. -/

variable {amount held : ℕ}

theorem standing_le_held (h : amount ≤ held * value / shares) :
    amount * shares / value ≤ held := by
  apply Nat.div_le_of_le_mul
  calc amount * shares ≤ held * value / shares * shares := Nat.mul_le_mul_right _ h
    _ ≤ held * value := Nat.div_mul_le_self _ _
    _ = value * held := Nat.mul_comm _ _

theorem standing_le_held_iff (hvalue : 0 < value) :
    amount * shares / value ≤ held ↔ amount * shares < (held + 1) * value := by
  rw [← Nat.lt_succ_iff, Nat.div_lt_iff_lt_mul hvalue]

theorem worth_moved_le (hshares : 0 < shares) :
    (held + amount * shares / value) * value / shares ≤ held * value / shares + amount := by
  have hmoved : amount * shares / value * value ≤ amount * shares := Nat.div_mul_le_self _ _
  calc (held + amount * shares / value) * value / shares
      ≤ (held * value + amount * shares) / shares := by
        apply Nat.div_le_div_right
        rw [Nat.add_mul]
        exact Nat.add_le_add_left hmoved _
    _ = held * value / shares + amount := Nat.add_mul_div_right _ _ hshares

theorem lt_worth_moved (amount held : ℕ) (hvalue : 0 < value) (hshares : 0 < shares) :
    (amount + held * value / shares) * shares <
      ((held + amount * shares / value) * value / shares + 1) * shares + value := by
  have hstanding : amount * shares < amount * shares / value * value + value :=
    Nat.lt_div_mul_add hvalue
  have hafter : (held + amount * shares / value) * value <
      (held + amount * shares / value) * value / shares * shares + shares :=
    Nat.lt_div_mul_add hshares
  have hbefore : held * value / shares * shares ≤ held * value := Nat.div_mul_le_self _ _
  linarith

theorem lt_worth_moved_sub (hvalue : 0 < value) (hshares : 0 < shares) :
    (amount : ℚ) - (value : ℚ) / shares - 1 <
      ((held + amount * shares / value) * value / shares : ℕ) - (held * value / shares : ℕ) := by
  have hlt := lt_worth_moved amount held hvalue hshares
  generalize (held + amount * shares / value) * value / shares = after at hlt ⊢
  generalize held * value / shares = before at hlt ⊢
  have hcast : ((amount : ℚ) + before) * shares < ((after : ℚ) + 1) * shares + value := by
    exact_mod_cast hlt
  have hpos : (0 : ℚ) < shares := by exact_mod_cast hshares
  have hprice : (amount : ℚ) + before - (after + 1) < value / shares := by
    rw [lt_div_iff₀ hpos]
    linarith
  linarith

/-- Shares turned into the value they are worth and back are fewer by under the shares of one
unit and one share. -/
theorem lt_round_trip (held : ℕ) (hvalue : 0 < value) (hshares : 0 < shares) :
    held * value < (held * value / shares * shares / value + 1) * value + shares := by
  have hworth : held * value < held * value / shares * shares + shares :=
    Nat.lt_div_mul_add hshares
  have hback : held * value / shares * shares <
      held * value / shares * shares / value * value + value := Nat.lt_div_mul_add hvalue
  linarith

theorem lt_round_trip_sub (held : ℕ) (hvalue : 0 < value) (hshares : 0 < shares) :
    -((shares : ℚ) / value + 1) < (held * value / shares * shares / value : ℕ) - (held : ℚ) := by
  have hlt := lt_round_trip held hvalue hshares
  generalize held * value / shares * shares / value = back at hlt ⊢
  have hcast : (held : ℚ) * value < (back + 1) * value + shares := by exact_mod_cast hlt
  have hpos : (0 : ℚ) < value := by exact_mod_cast hvalue
  have hprice : (held : ℚ) - (back + 1) < shares / value := by
    rw [lt_div_iff₀ hpos]
    linarith
  linarith

end Move

section Issue

theorem issue_price (h : issued * value ≤ paid * shares) :
    value * (shares + issued) ≤ (value + paid) * shares := by
  linarith [Nat.mul_comm issued value]

theorem issue_worth (h : issued * value ≤ paid * shares) :
    issued * (value + paid) / (shares + issued) ≤ paid := by
  apply Nat.div_le_of_le_mul
  linarith [Nat.mul_comm issued paid]

theorem issue_lowers_price (hpaid : 0 < paid) (h : paid * shares < value) :
    (value + paid) * shares < value * (shares + paid) := by
  have hvalue : value ≤ value * paid := Nat.le_mul_of_pos_right _ hpaid
  linarith

end Issue

section Fee

/-! A fee of `rate` in `base` on `gain`, taken as `issued` fresh shares in a pool
that is worth `value` with the gain. -/

variable {rate base gain : ℕ}

def feeShares (rate base gain value shares : ℕ) : ℕ :=
  gain * rate * shares / (value * base - rate * gain)

variable (hfee : rate * gain < value * base)

include hfee

theorem feeShares_mul_le :
    base * feeShares rate base gain value shares * value ≤
      rate * gain * (shares + feeShares rate base gain value shares) := by
  have hfloor : feeShares rate base gain value shares * (value * base - rate * gain) ≤
      gain * rate * shares := Nat.div_mul_le_self _ _
  generalize feeShares rate base gain value shares = issued at hfloor ⊢
  obtain ⟨rest, hrest⟩ := Nat.exists_eq_add_of_lt hfee
  rw [hrest, show rate * gain + rest + 1 - rate * gain = rest + 1 by omega] at hfloor
  calc base * issued * value = issued * (value * base) := by ring
    _ = issued * (rest + 1) + rate * gain * issued := by rw [hrest]; ring
    _ ≤ gain * rate * shares + rate * gain * issued := Nat.add_le_add_right hfloor _
    _ = rate * gain * (shares + issued) := by ring

theorem lt_feeShares_succ_mul :
    rate * gain * (shares + feeShares rate base gain value shares) <
      base * (feeShares rate base gain value shares + 1) * value := by
  have hpos : 0 < value * base - rate * gain := by omega
  have hfloor : gain * rate * shares <
      (value * base - rate * gain) * (feeShares rate base gain value shares + 1) :=
    Nat.lt_mul_div_succ _ hpos
  generalize feeShares rate base gain value shares = issued at hfloor ⊢
  obtain ⟨rest, hrest⟩ := Nat.exists_eq_add_of_lt hfee
  rw [hrest, show rate * gain + rest + 1 - rate * gain = rest + 1 by omega] at hfloor
  calc rate * gain * (shares + issued) = gain * rate * shares + rate * gain * issued := by ring
    _ < (rest + 1) * (issued + 1) + rate * gain * issued := Nat.add_lt_add_right hfloor _
    _ ≤ (rest + 1) * (issued + 1) + rate * gain * (issued + 1) := by
      exact Nat.add_le_add_left (Nat.mul_le_mul_left _ (Nat.le_succ _)) _
    _ = base * (issued + 1) * value := by
      rw [show base * (issued + 1) * value = (issued + 1) * (value * base) by ring, hrest]
      ring

theorem feeShares_price {before : ℕ} (hvalue : value = before + gain) (hrate : rate ≤ base) :
    before * (shares + feeShares rate base gain value shares) ≤ value * shares := by
  have hle : base * feeShares rate base gain value shares * value ≤
      rate * gain * (shares + feeShares rate base gain value shares) := feeShares_mul_le hfee
  generalize feeShares rate base gain value shares = issued at hle ⊢
  have hbase : 0 < base := by
    rcases Nat.eq_zero_or_pos base with hzero | hpos
    · simp [hzero] at hfee
    · exact hpos
  subst hvalue
  have hscaled : base * (before * issued) + base * (gain * issued) ≤
      rate * (gain * shares) + rate * (gain * issued) := by linarith
  have hissued : rate * (gain * issued) ≤ base * (gain * issued) :=
    Nat.mul_le_mul_right _ hrate
  have hgain : rate * (gain * shares) ≤ base * (gain * shares) :=
    Nat.mul_le_mul_right _ hrate
  have hle' : base * (before * issued) ≤ base * (gain * shares) := by omega
  have hfinal : before * issued ≤ gain * shares := Nat.le_of_mul_le_mul_left hle' hbase
  linarith

end Fee

end LidoDao.Library.SharePool
