import LidoDao.StETH
import LidoDao.Library.Ledger

namespace LidoDao.StETH

open Evm Library.Outcome Library.Ledger SafeMath
open scoped BigOperators

variable {s t : StETH} {pooled : Except Revert ℕ}

@[simp] theorem whenNotStopped_eq_ok {u : Unit} :
    s.whenNotStopped = .ok u ↔ s.activeFlag = true := by
  simp [whenNotStopped]

theorem _stop_ok (h : s._stop = .ok t) : t = { s with activeFlag := false } := by
  simp only [_stop, bind_eq_ok, pure_eq, Except.ok.injEq] at h
  obtain ⟨_, _, rfl⟩ := h
  rfl

theorem _resume_ok (h : s._resume = .ok t) : t = { s with activeFlag := true } := by
  simp only [_resume, bind_eq_ok, pure_eq, Except.ok.injEq] at h
  obtain ⟨_, _, rfl⟩ := h
  rfl

theorem getSharesByPooledEth_eq_ok {ethAmount n : ℕ} :
    s.getSharesByPooledEth pooled ethAmount = .ok n ↔ ∃ total, pooled = .ok total ∧
      ((total = 0 ∧ n = 0) ∨ (0 < total ∧ ethAmount * s.totalShares < wordLimit ∧
        n = ethAmount * s.totalShares / total)) := by
  simp only [getSharesByPooledEth, bind_eq_ok]
  refine exists_congr fun total ↦ and_congr_right fun _ ↦ ?_
  by_cases h : total = 0
  · simp [h, eq_comm]
  · simp only [h, if_false, bind_eq_ok, mul_eq_ok, div_eq_ok]
    constructor
    · intro h
      obtain ⟨_, ⟨hlt, rfl⟩, hpos, rfl⟩ := h
      exact .inr ⟨hpos, hlt, rfl⟩
    · intro h
      rcases h with ⟨h', _⟩ | ⟨hpos, hlt, rfl⟩
      · exact absurd h' not_false
      · exact ⟨_, ⟨hlt, rfl⟩, hpos, rfl⟩

theorem getPooledEthByShares_eq_ok {sharesAmount n : ℕ} :
    s.getPooledEthByShares pooled sharesAmount = .ok n ↔
      (s.totalShares = 0 ∧ n = 0) ∨ (0 < s.totalShares ∧ ∃ total, pooled = .ok total ∧
        sharesAmount * total < wordLimit ∧ n = sharesAmount * total / s.totalShares) := by
  unfold getPooledEthByShares
  by_cases h : s.totalShares = 0
  · simp [h, eq_comm]
  · simp only [h, if_false, bind_eq_ok, mul_eq_ok, div_eq_ok]
    constructor
    · intro h
      obtain ⟨total, hp, _, ⟨hlt, rfl⟩, hpos, rfl⟩ := h
      exact .inr ⟨hpos, total, hp, hlt, rfl⟩
    · intro h
      rcases h with ⟨h', _⟩ | ⟨hpos, total, hp, hlt, rfl⟩
      · exact absurd h' not_false
      · exact ⟨total, hp, _, ⟨hlt, rfl⟩, hpos, rfl⟩

theorem _approve_ok {owner spender : Address} {amount : ℕ}
    (h : s._approve owner spender amount = .ok t) :
    t.shares = s.shares ∧ t.totalShares = s.totalShares ∧ t.activeFlag = s.activeFlag := by
  simp only [_approve, bind_eq_ok, pure_eq, Except.ok.injEq] at h
  obtain ⟨_, _, _, _, _, _, rfl⟩ := h
  exact ⟨rfl, rfl, rfl⟩

theorem increaseAllowance_ok {msgSender spender : Address} {addedValue : ℕ}
    (h : s.increaseAllowance msgSender spender addedValue = .ok t) :
    s._approve msgSender spender (s.allowances msgSender spender + addedValue) = .ok t := by
  obtain ⟨_, hadd, h⟩ := bind_eq_ok.mp h
  obtain ⟨_, rfl⟩ := add_eq_ok.mp hadd
  exact h

theorem decreaseAllowance_ok {msgSender spender : Address} {subtractedValue : ℕ}
    (h : s.decreaseAllowance msgSender spender subtractedValue = .ok t) :
    subtractedValue ≤ s.allowances msgSender spender ∧
      s._approve msgSender spender (s.allowances msgSender spender - subtractedValue) = .ok t := by
  simp only [decreaseAllowance, bind_eq_ok, require_eq_ok, exists_const, sub_eq_ok] at h
  obtain ⟨hle, _, ⟨_, rfl⟩, h⟩ := h
  exact ⟨hle, h⟩

theorem getPooledEthByShares_isOk (s : StETH) {total sharesAmount : ℕ}
    (hpooled : pooled = .ok total) (hlt : sharesAmount * total < wordLimit) :
    ∃ n, s.getPooledEthByShares pooled sharesAmount = .ok n := by
  rcases Nat.eq_zero_or_pos s.totalShares with hzero | hpos
  · exact ⟨0, getPooledEthByShares_eq_ok.mpr (.inl ⟨hzero, rfl⟩)⟩
  · exact ⟨_, getPooledEthByShares_eq_ok.mpr (.inr ⟨hpos, total, hpooled, hlt, rfl⟩)⟩

theorem _transferShares_eq_ok {sender recipient : Address} {amount : ℕ} :
    s._transferShares sender recipient amount = .ok t ↔
      s.activeFlag = true ∧ sender ≠ 0 ∧ recipient ≠ 0 ∧ amount ≤ s.shares sender ∧
      moved s.shares sender recipient amount recipient < wordLimit ∧
      t = { s with shares := moved s.shares sender recipient amount } := by
  simp only [_transferShares, bind_eq_ok, require_eq_ok, whenNotStopped_eq_ok, sub_eq_ok,
    add_eq_ok, pure_eq, Except.ok.injEq, exists_const]
  constructor
  · intro h
    obtain ⟨hf, hs, hr, hle, _, ⟨_, rfl⟩, _, ⟨hlt, rfl⟩, rfl⟩ := h
    exact ⟨hf, hs, hr, hle, by simpa [moved] using hlt, rfl⟩
  · intro h
    obtain ⟨hf, hs, hr, hle, hlt, rfl⟩ := h
    exact ⟨hf, hs, hr, hle, _, ⟨hle, rfl⟩, _, ⟨by simpa [moved] using hlt, rfl⟩, rfl⟩

theorem _mintShares_eq_ok {recipient : Address} {amount : ℕ} :
    s._mintShares recipient amount = .ok t ↔
      s.activeFlag = true ∧ recipient ≠ 0 ∧ s.totalShares + amount < wordLimit ∧
      s.shares recipient + amount < wordLimit ∧
      t = { s with
        totalShares := s.totalShares + amount
        shares := Function.update s.shares recipient (s.shares recipient + amount) } := by
  simp only [_mintShares, bind_eq_ok, require_eq_ok, whenNotStopped_eq_ok, add_eq_ok, pure_eq,
    Except.ok.injEq, exists_const]
  constructor
  · intro h
    obtain ⟨hf, hr, _, ⟨hT, rfl⟩, _, ⟨hS, rfl⟩, rfl⟩ := h
    exact ⟨hf, hr, hT, hS, rfl⟩
  · intro h
    obtain ⟨hf, hr, hT, hS, rfl⟩ := h
    exact ⟨hf, hr, _, ⟨hT, rfl⟩, _, ⟨hS, rfl⟩, rfl⟩

theorem _burnShares_ok {account : Address} {amount : ℕ}
    (h : s._burnShares pooled account amount = .ok t) :
    s.activeFlag = true ∧ amount ≤ s.shares account ∧ amount ≤ s.totalShares ∧
      t = { s with
        totalShares := s.totalShares - amount
        shares := Function.update s.shares account (s.shares account - amount) } := by
  simp only [_burnShares, bind_eq_ok, require_eq_ok, whenNotStopped_eq_ok, sub_eq_ok, pure_eq,
    Except.ok.injEq, exists_const] at h
  obtain ⟨hf, _, hle, _, _, _, ⟨hT, rfl⟩, _, ⟨_, rfl⟩, _, _, rfl⟩ := h
  exact ⟨hf, hle, hT, rfl⟩

theorem _transfer_ok {sender recipient : Address} {amount : ℕ}
    (h : s._transfer pooled sender recipient amount = .ok t) :
    ∃ sharesAmount, s.getSharesByPooledEth pooled amount = .ok sharesAmount ∧
      s._transferShares sender recipient sharesAmount = .ok t :=
  bind_eq_ok.mp h

theorem transferFrom_ok {msgSender sender recipient : Address} {amount : ℕ}
    (h : s.transferFrom pooled msgSender sender recipient amount = .ok t) :
    ∃ u, s._transfer pooled sender recipient amount = .ok u ∧ t.shares = u.shares ∧
      t.totalShares = u.totalShares ∧ t.activeFlag = u.activeFlag := by
  simp only [transferFrom, bind_eq_ok] at h
  obtain ⟨_, _, u, hu, _, _, hu'⟩ := h
  exact ⟨u, hu, _approve_ok hu'⟩

theorem transferShares_ok {msgSender recipient : Address} {amount : ℕ} {p : ℕ × StETH}
    (h : s.transferShares pooled msgSender recipient amount = .ok p) :
    s._transferShares msgSender recipient amount = .ok p.2 := by
  simp only [transferShares, bind_eq_ok, pure_eq, Except.ok.injEq] at h
  obtain ⟨u, hu, _, _, rfl⟩ := h
  exact hu

/-- The shares of all accounts add up to the recorded total. -/
def Balanced (s : StETH) : Prop := ∑ a, s.shares a = s.totalShares

theorem Balanced.of_eq (h : Balanced s) (hs : t.shares = s.shares)
    (ht : t.totalShares = s.totalShares) : Balanced t := by
  unfold Balanced
  rw [hs, ht]
  exact h

theorem Balanced.le (h : Balanced s) (a : Address) : s.shares a ≤ s.totalShares :=
  (le_sum _ a).trans_eq h

theorem Balanced.transferShares (h : Balanced s) {sender recipient : Address} {amount : ℕ}
    (ht : s._transferShares sender recipient amount = .ok t) : Balanced t := by
  obtain ⟨_, _, _, hle, _, rfl⟩ := _transferShares_eq_ok.mp ht
  exact (sum_moved hle).trans h

theorem Balanced.mintShares (h : Balanced s) {recipient : Address} {amount : ℕ}
    (ht : s._mintShares recipient amount = .ok t) : Balanced t := by
  obtain ⟨_, _, _, _, rfl⟩ := _mintShares_eq_ok.mp ht
  have hs := sum_update_add s.shares recipient (s.shares recipient + amount)
  unfold Balanced at h ⊢
  dsimp only
  omega

theorem Balanced.burnShares (h : Balanced s) {account : Address} {amount : ℕ}
    (ht : s._burnShares pooled account amount = .ok t) : Balanced t := by
  obtain ⟨_, hle, _, rfl⟩ := _burnShares_ok ht
  have hs := sum_update_add s.shares account (s.shares account - amount)
  unfold Balanced at h ⊢
  dsimp only
  omega

end LidoDao.StETH
