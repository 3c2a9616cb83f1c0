import LidoDao.Protocol
import LidoDao.TokenEffects
import LidoDao.EtherBooks

namespace LidoDao

open Evm Library.Outcome Library.Ledger Library.ByteWords SafeMath EtherBooks StakeLimit

variable {R ρ : Type} {D : Deployment} {I : INodeOperatorsRegistry R ρ}

namespace Lido

def books (s : Lido) : Books where
  balance := s.balance
  buffered := s.bufferedEther
  deposited := s.depositedValidators
  beaconValidators := s.beaconValidators
  beaconBalance := s.beaconBalance
  rewardsCollected := s.totalELRewardsCollected

def pooled (s : Lido) : ℕ := s.books.pooled depositSize

variable {s s' : Lido}

section Ether

theorem _getBufferedEther_eq_ok {n : ℕ} :
    s._getBufferedEther = .ok n ↔ s.bufferedEther ≤ s.balance ∧ n = s.bufferedEther := by
  simp only [_getBufferedEther, bind_eq_ok, require_eq_ok, pure_eq, Except.ok.injEq, exists_const]
  exact and_congr_right fun _ ↦ eq_comm

theorem _getUnaccountedEther_eq_ok {n : ℕ} :
    s._getUnaccountedEther = .ok n ↔
      s.bufferedEther ≤ s.balance ∧ n = s.balance - s.bufferedEther := by
  simp only [_getUnaccountedEther, bind_eq_ok, _getBufferedEther_eq_ok, sub_eq_ok]
  constructor
  · intro h
    obtain ⟨_, ⟨h, rfl⟩, _, rfl⟩ := h
    exact ⟨h, rfl⟩
  · intro h
    obtain ⟨h, rfl⟩ := h
    exact ⟨_, ⟨h, rfl⟩, h, rfl⟩

theorem _getTotalPooledEther_eq_ok {n : ℕ} :
    s._getTotalPooledEther = .ok n ↔ Sound s.books ∧ s.pooled < wordLimit ∧ n = s.pooled := by
  simp only [_getTotalPooledEther, _getTransientBalance, bind_eq_ok, _getBufferedEther_eq_ok,
    require_eq_ok, add_eq_ok, sub_eq_ok, mul_eq_ok, exists_const]
  constructor
  · intro h
    obtain ⟨_, ⟨hb, rfl⟩, _, ⟨_, rfl⟩, _, ⟨hv, _, ⟨_, rfl⟩, _, rfl⟩, hlt, rfl⟩ := h
    exact ⟨⟨hb, hv⟩, hlt, rfl⟩
  · intro h
    obtain ⟨⟨hb, hv⟩, hlt, rfl⟩ := h
    have hle : s.bufferedEther + s.beaconBalance ≤ s.pooled := Nat.le_add_right _ _
    have hle' : (s.depositedValidators - s.beaconValidators) * depositSize ≤ s.pooled :=
      Nat.le_add_left _ _
    refine ⟨_, ⟨hb, rfl⟩, _, ⟨?_, rfl⟩, _, ⟨hv, _, ⟨hv, rfl⟩, ?_, rfl⟩, hlt, rfl⟩
    · omega
    · omega

theorem _markAsUnbuffered_eq_ok {n : ℕ} :
    s._markAsUnbuffered n = .ok s' ↔
      n ≤ s.bufferedEther ∧ s' = { s with bufferedEther := s.bufferedEther - n } := by
  simp only [_markAsUnbuffered, bind_eq_ok, sub_eq_ok, pure_eq, Except.ok.injEq]
  constructor
  · intro h
    obtain ⟨_, ⟨h, rfl⟩, rfl⟩ := h
    exact ⟨h, rfl⟩
  · intro h
    obtain ⟨h, rfl⟩ := h
    exact ⟨_, ⟨h, rfl⟩, rfl⟩

end Ether

theorem onToken_eq_ok {f : StETH → Except Revert StETH} :
    s.onToken f = .ok s' ↔ ∃ t, f s.toStETH = .ok t ∧ s' = { s with toStETH := t } := by
  simp only [onToken, bind_eq_ok, pure_eq, Except.ok.injEq]
  exact exists_congr fun t ↦ and_congr_right fun _ ↦ eq_comm

section Staking

theorem consumeStakeLimit_ok {v blockNumber : ℕ}
    (h : s.consumeStakeLimit v blockNumber = .ok s') :
    ∃ slot, s' = { s with stakingState := slot } := by
  simp only [consumeStakeLimit] at h
  split at h
  · simp only [bind_eq_ok, pure_eq, Except.ok.injEq] at h
    obtain ⟨_, _, _, _, rfl⟩ := h
    exact ⟨_, rfl⟩
  · cases h
    exact ⟨s.stakingState, rfl⟩

theorem _submit_ok {msgSender : Address} {v blockNumber m : ℕ}
    (h : s._submit msgSender v blockNumber = .ok (m, s')) :
    0 < v ∧ (∃ n, s.getSharesByPooledEth v = .ok n ∧ m = if n = 0 then v else n) ∧
    ∃ t slot, s.toStETH._mintShares msgSender m = .ok t ∧
      s' = { s with
        toStETH := t
        stakingState := slot
        bufferedEther := s.bufferedEther + v } := by
  simp only [_submit, bind_eq_ok, require_eq_ok, exists_const, _mintShares, onToken_eq_ok,
    _getBufferedEther_eq_ok, add_eq_ok, pure_eq, Except.ok.injEq, Prod.mk.injEq] at h
  obtain ⟨hv, _, s₁, hs₁, n, hn, s₂, ⟨t, ht, rfl⟩, _, ⟨_, rfl⟩, _, ⟨_, rfl⟩, _, _, rfl, rfl⟩ := h
  obtain ⟨slot, rfl⟩ := consumeStakeLimit_ok hs₁
  exact ⟨Nat.pos_of_ne_zero hv, ⟨n, hn, rfl⟩, t, slot, ht, rfl⟩

theorem receiveELRewards_eq_ok {msgSender : Address} {v : ℕ} :
    s.receiveELRewards msgSender v = .ok s' ↔
      msgSender = s.elRewardsVault ∧ s.totalELRewardsCollected + v < wordLimit ∧
      s' = { s with
        balance := s.balance + v
        totalELRewardsCollected := s.totalELRewardsCollected + v } := by
  simp only [receiveELRewards, bind_eq_ok, require_eq_ok, add_eq_ok, pure_eq,
    Except.ok.injEq, exists_const]
  constructor
  · intro h
    obtain ⟨ha, _, ⟨hlt, rfl⟩, rfl⟩ := h
    exact ⟨ha, hlt, rfl⟩
  · intro h
    obtain ⟨ha, hlt, rfl⟩ := h
    exact ⟨ha, _, ⟨hlt, rfl⟩, rfl⟩

end Staking

end Lido

end LidoDao
