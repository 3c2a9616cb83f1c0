import LidoDao.PoolLog

namespace LidoDao

open Evm Library.Outcome Library.Emission Library.Transition SafeMath StakeLimit

namespace Logged

section Token

variable (s : StETH) (pooled : Except Revert ℕ)

@[simp] theorem _stop_outcome : outcome (_stop s) = s._stop := by simp [_stop]

@[simp] theorem _resume_outcome : outcome (_resume s) = s._resume := by simp [_resume]

@[simp] theorem _approve_outcome (owner spender : Address) (amount : ℕ) :
    outcome (_approve s owner spender amount) = s._approve owner spender amount := by
  simp [_approve]

@[simp] theorem _transfer_outcome (sender recipient : Address) (amount : ℕ) :
    outcome (_transfer s pooled sender recipient amount) =
      s._transfer pooled sender recipient amount := by
  simp [_transfer, StETH._transfer]

@[simp] theorem transfer_outcome (msgSender recipient : Address) (amount : ℕ) :
    outcome (transfer s pooled msgSender recipient amount) =
      s.transfer pooled msgSender recipient amount := _transfer_outcome ..

@[simp] theorem approve_outcome (msgSender spender : Address) (amount : ℕ) :
    outcome (approve s msgSender spender amount) = s.approve msgSender spender amount :=
  _approve_outcome ..

@[simp] theorem transferFrom_outcome (msgSender sender recipient : Address) (amount : ℕ) :
    outcome (transferFrom s pooled msgSender sender recipient amount) =
      s.transferFrom pooled msgSender sender recipient amount := by
  simp [transferFrom, StETH.transferFrom]

@[simp] theorem increaseAllowance_outcome (msgSender spender : Address) (addedValue : ℕ) :
    outcome (increaseAllowance s msgSender spender addedValue) =
      s.increaseAllowance msgSender spender addedValue := by
  simp [increaseAllowance, StETH.increaseAllowance]

@[simp] theorem decreaseAllowance_outcome (msgSender spender : Address) (subtractedValue : ℕ) :
    outcome (decreaseAllowance s msgSender spender subtractedValue) =
      s.decreaseAllowance msgSender spender subtractedValue := by
  simp [decreaseAllowance, StETH.decreaseAllowance]

@[simp] theorem transferShares_outcome (msgSender recipient : Address) (sharesAmount : ℕ) :
    outcome (transferShares s pooled msgSender recipient sharesAmount) =
      s.transferShares pooled msgSender recipient sharesAmount := by
  simp [transferShares, StETH.transferShares]

@[simp] theorem _burnShares_outcome (account : Address) (sharesAmount : ℕ) :
    outcome (_burnShares s pooled account sharesAmount) =
      s._burnShares pooled account sharesAmount := by
  simp [_burnShares, StETH._burnShares]

end Token

section Pool

variable (s : Lido)

@[simp] theorem onToken_outcome (f : StETH → Emits StETH) :
    outcome (onToken s f) = s.onToken fun t ↦ outcome (f t) := by
  simp [onToken, Lido.onToken]

@[simp] theorem _setProtocolContracts_outcome (oracle treasury insuranceFund : Address) :
    outcome (_setProtocolContracts s oracle treasury insuranceFund) =
      s._setProtocolContracts oracle treasury insuranceFund := by
  simp [_setProtocolContracts]

@[simp] theorem _markAsUnbuffered_outcome (amount : ℕ) :
    outcome (_markAsUnbuffered s amount) = s._markAsUnbuffered amount := by
  simp [_markAsUnbuffered]

@[simp] theorem _emitTransferAfterMintingShares_outcome (recipient : Address)
    (sharesAmount : ℕ) : outcome (_emitTransferAfterMintingShares s recipient sharesAmount) =
      s._emitTransferAfterMintingShares sharesAmount := by
  simp [_emitTransferAfterMintingShares, Lido._emitTransferAfterMintingShares,
    StETH._emitTransferAfterMintingShares, Lido.getPooledEthByShares]

@[simp] theorem _pauseStaking_outcome (blockNumber : ℕ) :
    outcome (_pauseStaking s blockNumber) = .ok (s._pauseStaking blockNumber) := by
  simp [_pauseStaking]

@[simp] theorem _resumeStaking_outcome (blockNumber : ℕ) :
    outcome (_resumeStaking s blockNumber) = .ok (s._resumeStaking blockNumber) := by
  simp [_resumeStaking]

@[simp] theorem setStakingLimit_outcome (maxStakeLimit stakeLimitIncreasePerBlock
    blockNumber : ℕ) :
    outcome (setStakingLimit s maxStakeLimit stakeLimitIncreasePerBlock blockNumber) =
      s.setStakingLimit maxStakeLimit stakeLimitIncreasePerBlock blockNumber := by
  simp [setStakingLimit]

@[simp] theorem removeStakingLimit_outcome :
    outcome (removeStakingLimit s) = .ok s.removeStakingLimit := by
  simp [removeStakingLimit]

@[simp] theorem _submit_outcome (referral msgSender : Address) (msgValue blockNumber : ℕ) :
    outcome (_submit s referral msgSender msgValue blockNumber) =
      s._submit msgSender msgValue blockNumber := by
  simp [_submit, Lido._submit]

@[simp] theorem submit_outcome (referral msgSender : Address) (msgValue blockNumber : ℕ) :
    outcome (submit s referral msgSender msgValue blockNumber) =
      s.submit msgSender msgValue blockNumber := _submit_outcome ..

@[simp] theorem fallback_outcome (msgSender : Address) (msgDataLength msgValue
    blockNumber : ℕ) : outcome (fallback s msgSender msgDataLength msgValue blockNumber) =
      s.fallback msgSender msgDataLength msgValue blockNumber := by
  simp [fallback, Lido.fallback]

@[simp] theorem receiveELRewards_outcome (msgSender : Address) (msgValue : ℕ) :
    outcome (receiveELRewards s msgSender msgValue) = s.receiveELRewards msgSender msgValue := by
  simp [receiveELRewards]

@[simp] theorem stop_outcome (blockNumber : ℕ) :
    outcome (stop s blockNumber) = s.stop blockNumber := by
  simp [stop, Lido.stop]

@[simp] theorem resume_outcome (blockNumber : ℕ) :
    outcome (resume s blockNumber) = s.resume blockNumber := by
  simp [resume, Lido.resume]

@[simp] theorem setFee_outcome (feeBasisPoints : ℕ) :
    outcome (setFee s feeBasisPoints) = s.setFee feeBasisPoints := by
  simp [setFee]

@[simp] theorem setFeeDistribution_outcome (treasuryFee insuranceFee operatorsFee : ℕ) :
    outcome (setFeeDistribution s treasuryFee insuranceFee operatorsFee) =
      s.setFeeDistribution treasuryFee insuranceFee operatorsFee := by
  simp [setFeeDistribution]

@[simp] theorem setELRewardsVault_outcome (executionLayerRewardsVault : Address) :
    outcome (setELRewardsVault s executionLayerRewardsVault) =
      .ok (s.setELRewardsVault executionLayerRewardsVault) := by
  simp [setELRewardsVault]

@[simp] theorem setELRewardsWithdrawalLimit_outcome (limitPoints : ℕ) :
    outcome (setELRewardsWithdrawalLimit s limitPoints) =
      s.setELRewardsWithdrawalLimit limitPoints := by
  simp [setELRewardsWithdrawalLimit]

end Pool

variable {R ρ : Type} (D : Deployment) (I : INodeOperatorsRegistry R ρ) (c : LidoCall D)

section Report

@[simp] theorem payShares_outcome (recipient : Address) (sharesAmount : ℕ) (s : Lido) :
    outcome (payShares D recipient sharesAmount s) =
      Lido.payShares D recipient sharesAmount s := by
  simp [payShares, Lido.payShares]

@[simp] theorem payOperators_outcome (recipients : List Address) (shares : List ℕ)
    (distributed : ℕ) (s : Lido) :
    outcome (payOperators D recipients shares distributed s) =
      Lido.payOperators D recipients shares distributed s := by
  induction recipients generalizing shares distributed s with
  | nil => rfl
  | cons recipient recipients ih =>
    cases shares with
    | nil => rfl
    | cons sharesAmount shares => simp [payOperators, Lido.payOperators, ih]

@[simp] theorem _distributeNodeOperatorsReward_outcome (registry : R) (n : ℕ) (s : Lido) :
    outcome (_distributeNodeOperatorsReward D I registry n s) =
      Lido._distributeNodeOperatorsReward D I registry n s := by
  simp [_distributeNodeOperatorsReward, Lido._distributeNodeOperatorsReward]

@[simp] theorem distributeFee_outcome (registry : R) (totalRewards : ℕ) (s : Lido) :
    outcome (distributeFee D I registry totalRewards s) =
      Lido.distributeFee D I registry totalRewards s := by
  simp [distributeFee, Lido.distributeFee]

@[simp] theorem withdrawRewards_outcome (vault : ELRewardsVault) (vaultAddress
    msgSender : Address) (maxAmount : ℕ) (s : Lido) :
    outcome (withdrawRewards vault vaultAddress msgSender maxAmount s) =
      vault.withdrawRewards (fun l value ↦ l.receiveELRewards vaultAddress value) msgSender
        maxAmount s := by
  simp [withdrawRewards, ELRewardsVault.withdrawRewards]

@[simp] theorem callWithdrawRewards_outcome (vaultAddress : Address) (maxAmount : ℕ)
    (w : World R) : outcome (callWithdrawRewards D vaultAddress maxAmount w) =
      Lido.callWithdrawRewards D vaultAddress maxAmount w := by
  unfold callWithdrawRewards Lido.callWithdrawRewards
  cases w.vaults vaultAddress with
  | none => rfl
  | some vault => simp

@[simp] theorem withdrawELRewards_outcome (w : World R) :
    outcome (withdrawELRewards D w) = Lido.withdrawELRewards D w := by
  simp [withdrawELRewards, Lido.withdrawELRewards]

@[simp] theorem handleOracleReport_outcome (msgSender : Address) (v b : ℕ) (w : World R) :
    outcome (handleOracleReport D I msgSender v b w) =
      Lido.handleOracleReport D I msgSender v b w := by
  simp [handleOracleReport, Lido.handleOracleReport]

end Report

section World

@[simp] theorem _depositBufferedEther_outcome (maxDeposits : ℕ) (w : World R) :
    outcome (_depositBufferedEther D I c maxDeposits w) =
      Lido._depositBufferedEther D I c maxDeposits w := by
  simp [_depositBufferedEther, Lido._depositBufferedEther]

@[simp] theorem setWithdrawalCredentials_outcome (withdrawalCredentials : ℕ) (w : World R) :
    outcome (setWithdrawalCredentials I withdrawalCredentials w) =
      Lido.setWithdrawalCredentials I withdrawalCredentials w := by
  simp [setWithdrawalCredentials]

@[simp] theorem asRevert_outcome {α : Type} (text : String) (x : Emits α) :
    outcome (asRevert text x) = Lido.asRevert text (outcome x) := by
  unfold outcome asRevert
  rw [WriterT.run_mk]
  cases x.run with
  | error e => rfl
  | ok p => rfl

@[simp] theorem transferToVault_outcome (token : Address) (w : World R) :
    outcome (transferToVault D c token w) = Lido.transferToVault D c token w := by
  simp [transferToVault, recover, Lido.transferToVault]

@[simp] theorem onLido_outcome (f : Lido → Emits Lido) (w : World R) :
    outcome (onLido f w) = World.onLido (fun s ↦ outcome (f s)) w := by
  simp [onLido, World.onLido]

theorem handle_outcome (m : LidoMessage) (w : World R) :
    outcome (handle D I c m w) = World.handle D I c m w := by
  cases m <;> simp [handle, World.handle]

theorem step_outcome (w : World R) (e : Event D ρ) :
    outcome (step D I w e) = World.step D I w e := by
  cases e with
  | lido c m => exact handle_outcome D I c m w
  | registry r => exact outcome_lift _
  | forceEther amount => exact outcome_lift _
  | fundVault vault amount => exact outcome_lift _
  | deployVault vault lido treasury balance => exact outcome_lift _

end World

end Logged

end LidoDao
