import LidoDao.PoolEffects

namespace LidoDao

open Evm Library.Outcome SafeMath StakeLimit

variable {R ρ : Type} {D : Deployment} {I : INodeOperatorsRegistry R ρ}

namespace Lido

variable {s s' : Lido} {blockNumber : ℕ}

theorem stop_ok (h : s.stop blockNumber = .ok s') :
    s' = ({ s with activeFlag := false } : Lido)._pauseStaking blockNumber := by
  simp only [stop, bind_eq_ok, onToken_eq_ok, pure_eq, Except.ok.injEq] at h
  obtain ⟨_, ⟨_, h, rfl⟩, rfl⟩ := h
  rw [StETH._stop_ok h]

theorem resume_ok (h : s.resume blockNumber = .ok s') :
    s' = ({ s with activeFlag := true } : Lido)._resumeStaking blockNumber := by
  simp only [resume, bind_eq_ok, onToken_eq_ok, pure_eq, Except.ok.injEq] at h
  obtain ⟨_, ⟨_, h, rfl⟩, rfl⟩ := h
  rw [StETH._resume_ok h]

theorem setStakingLimit_ok {maxStakeLimit stakeLimitIncreasePerBlock : ℕ}
    (h : s.setStakingLimit maxStakeLimit stakeLimitIncreasePerBlock blockNumber = .ok s') :
    ∃ d, (getStorageStakeLimitStruct s.stakingState).setStakingLimit maxStakeLimit
      stakeLimitIncreasePerBlock blockNumber = .ok d ∧
      s' = { s with stakingState := setStorageStakeLimitStruct d } := by
  obtain ⟨d, hd, hs'⟩ := bind_eq_ok.mp h
  cases hs'
  exact ⟨d, hd, rfl⟩

theorem setFee_ok {fee : ℕ} (h : s.setFee fee = .ok s') :
    fee ≤ totalBasisPoints ∧ s' = { s with fee } := by
  simp only [setFee, checkBPValue, bind_eq_ok, require_eq_ok, exists_const, pure_eq,
    Except.ok.injEq] at h
  exact ⟨h.1, h.2.symm⟩

theorem setFeeDistribution_ok {treasuryFee insuranceFee nodeOperatorsFee : ℕ}
    (h : s.setFeeDistribution treasuryFee insuranceFee nodeOperatorsFee = .ok s') :
    treasuryFee + insuranceFee + nodeOperatorsFee = totalBasisPoints ∧
      s' = { s with treasuryFee, insuranceFee, nodeOperatorsFee } := by
  simp only [setFeeDistribution, checkBPValue, bind_eq_ok, add_eq_ok, require_eq_ok,
    exists_const, pure_eq, Except.ok.injEq] at h
  obtain ⟨_, ⟨_, rfl⟩, _, ⟨_, rfl⟩, hsum, _, _, _, rfl⟩ := h
  exact ⟨hsum.symm, rfl⟩

theorem setELRewardsWithdrawalLimit_ok {limit : ℕ}
    (h : s.setELRewardsWithdrawalLimit limit = .ok s') :
    limit ≤ totalBasisPoints ∧ s' = { s with elRewardsWithdrawalLimit := limit } := by
  simp only [setELRewardsWithdrawalLimit, checkBPValue, bind_eq_ok, require_eq_ok, exists_const,
    pure_eq, Except.ok.injEq] at h
  exact ⟨h.1, h.2.symm⟩

theorem _setProtocolContracts_ok {oracle treasury insuranceFund : Address}
    (h : s._setProtocolContracts oracle treasury insuranceFund = .ok s') :
    (oracle ≠ 0 ∧ treasury ≠ 0 ∧ insuranceFund ≠ 0) ∧
      s' = { s with oracle, treasury, insuranceFund } := by
  simp only [_setProtocolContracts, bind_eq_ok, require_eq_ok, exists_const, pure_eq,
    Except.ok.injEq] at h
  obtain ⟨ho, ht, hi, rfl⟩ := h
  exact ⟨⟨ho, ht, hi⟩, rfl⟩

end Lido

/-! The shapes that the handlers of the pool come in. -/
namespace World

variable {w w' : World R} {c : LidoCall D} {role : Lido.Role} {params : List ℕ}

theorem onLido_eq_ok {f : Lido → Except Revert Lido} :
    onLido f w = .ok w' ↔ ∃ s, f w.lido = .ok s ∧ w' = { w with lido := s } := by
  simp only [onLido, bind_eq_ok, pure_eq, Except.ok.injEq]
  exact exists_congr fun s ↦ and_congr_right fun _ ↦ eq_comm

theorem exists_onToken {f : StETH → Except Revert StETH} :
    (∃ s, w.lido.onToken f = .ok s ∧ w' = { w with lido := s }) ↔
      ∃ t, f w.lido.toStETH = .ok t ∧ w' = { w with lido := { w.lido with toStETH := t } } := by
  simp only [Lido.onToken_eq_ok]
  constructor
  · intro h
    obtain ⟨_, ⟨t, ht, rfl⟩, rfl⟩ := h
    exact ⟨t, ht, rfl⟩
  · intro h
    obtain ⟨t, ht, rfl⟩ := h
    exact ⟨_, ⟨t, ht, rfl⟩, rfl⟩

theorem onToken_eq_ok {f : Lido → StETH → Except Revert StETH} :
    onLido (fun s ↦ s.onToken (f s)) w = .ok w' ↔
      ∃ t, f w.lido w.lido.toStETH = .ok t ∧ w' = { w with lido := { w.lido with toStETH := t } } :=
  onLido_eq_ok.trans exists_onToken

theorem authorized_eq_ok {f : Lido → Except Revert Lido} :
    onLido (fun s ↦ do
      c.auth role params
      f s) w = .ok w' ↔
      c.canPerform role params = true ∧ ∃ s, f w.lido = .ok s ∧ w' = { w with lido := s } := by
  simp only [onLido_eq_ok, bind_eq_ok, Call.auth, require_eq_ok, exists_const]
  constructor
  · intro h
    obtain ⟨s, ⟨hauth, hs⟩, rfl⟩ := h
    exact ⟨hauth, s, hs, rfl⟩
  · intro h
    obtain ⟨hauth, s, hs, rfl⟩ := h
    exact ⟨s, ⟨hauth, hs⟩, rfl⟩

theorem authorizedAlways_eq_ok {f : Lido → Lido} :
    onLido (fun s ↦ do
      c.auth role params
      pure (f s)) w = .ok w' ↔
      c.canPerform role params = true ∧ w' = { w with lido := f w.lido } := by
  refine (authorized_eq_ok (f := fun s ↦ pure (f s))).trans (and_congr_right fun _ ↦ ?_)
  simp only [pure_eq, Except.ok.injEq, exists_eq_left']

theorem submit_eq_ok {referral : Address} {msgValue : ℕ} :
    handle D I c (.submit referral msgValue) w = .ok w' ↔ ∃ n s,
      (w.lido.receive msgValue)._submit c.sender msgValue c.blockNumber = .ok (n, s) ∧
      w' = { w with lido := s } := by
  simp only [handle, onLido_eq_ok, Lido.submit, bind_eq_ok, pure_eq, Except.ok.injEq]
  constructor
  · intro h
    obtain ⟨_, ⟨⟨n, s⟩, h, rfl⟩, rfl⟩ := h
    exact ⟨n, s, h, rfl⟩
  · intro h
    obtain ⟨n, s, h, rfl⟩ := h
    exact ⟨s, ⟨(n, s), h, rfl⟩, rfl⟩

theorem fallback_eq_ok {msgDataLength msgValue : ℕ} :
    handle D I c (.fallback msgDataLength msgValue) w = .ok w' ↔ msgDataLength = 0 ∧ ∃ n s,
      (w.lido.receive msgValue)._submit c.sender msgValue c.blockNumber = .ok (n, s) ∧
      w' = { w with lido := s } := by
  simp only [handle, onLido_eq_ok, Lido.fallback, bind_eq_ok, require_eq_ok, exists_const,
    pure_eq, Except.ok.injEq]
  constructor
  · intro h
    obtain ⟨_, ⟨⟨n, s⟩, ⟨hlength, h⟩, rfl⟩, rfl⟩ := h
    exact ⟨hlength, n, s, h, rfl⟩
  · intro h
    obtain ⟨hlength, n, s, h, rfl⟩ := h
    exact ⟨s, ⟨(n, s), ⟨hlength, h⟩, rfl⟩, rfl⟩

theorem burnShares_eq_ok {account : Address} {sharesAmount : ℕ} :
    handle D I c (.burnShares account sharesAmount) w = .ok w' ↔
      c.canPerform .burnRole [account.id, sharesAmount] = true ∧ ∃ t,
        w.lido.toStETH._burnShares w.lido._getTotalPooledEther account sharesAmount = .ok t ∧
        w' = { w with lido := { w.lido with toStETH := t } } := by
  rw [handle, authorized_eq_ok, exists_onToken]

theorem transferShares_ok {recipient : Address} {sharesAmount : ℕ}
    (h : handle D I c (.transferShares recipient sharesAmount) w = .ok w') :
    ∃ t, w.lido.toStETH._transferShares c.sender recipient sharesAmount = .ok t ∧
      w' = { w with lido := { w.lido with toStETH := t } } := by
  rw [handle, onToken_eq_ok] at h
  obtain ⟨_, h, rfl⟩ := h
  obtain ⟨_, hmoved, ht⟩ := bind_eq_ok.mp h
  cases ht
  exact ⟨_, StETH.transferShares_ok hmoved, rfl⟩

end World

end LidoDao
