import LidoDao.StakeLimit
import LidoDao.StETH

namespace LidoDao

open Evm Library.Outcome SafeMath StakeLimit Library.ByteWords

/-- The ether the contract holds and the storage that accounts for it. -/
structure Accounting where
  balance : ℕ
  bufferedEther : ℕ
  depositedValidators : ℕ
  beaconBalance : ℕ
  beaconValidators : ℕ
  totalELRewardsCollected : ℕ

/-- The storage that only the setters write. -/
structure Settings where
  fee : ℕ
  treasuryFee : ℕ
  insuranceFee : ℕ
  nodeOperatorsFee : ℕ
  oracle : Address
  treasury : Address
  insuranceFund : Address
  elRewardsVault : Address
  elRewardsWithdrawalLimit : ℕ
  withdrawalCredentials : ℕ

/-- The storage of `Lido`. -/
structure Lido extends StETH, Accounting, Settings where
  stakingState : BitVec 256

namespace Lido

inductive Role
  | pauseRole
  | resumeRole
  | stakingPauseRole
  | stakingControlRole
  | manageFee
  | manageWithdrawalKey
  | manageProtocolContractsRole
  | burnRole
  | depositRole
  | setELRewardsVaultRole
  | setELRewardsWithdrawalLimitRole
  deriving DecidableEq

def pubkeyLength : ℕ := 48

def signatureLength : ℕ := 96

@[irreducible] def depositSize : ℕ := 32 * 10 ^ 18

def depositAmountUnit : ℕ := 1000000000

def totalBasisPoints : ℕ := 10000

def defaultMaxDepositsPerCall : ℕ := 150

def blank (balance : ℕ) : Lido where
  shares _ := 0
  allowances _ _ := 0
  totalShares := 0
  activeFlag := false
  balance := balance
  bufferedEther := 0
  depositedValidators := 0
  beaconBalance := 0
  beaconValidators := 0
  totalELRewardsCollected := 0
  fee := 0
  treasuryFee := 0
  insuranceFee := 0
  nodeOperatorsFee := 0
  oracle := 0
  treasury := 0
  insuranceFund := 0
  elRewardsVault := 0
  elRewardsWithdrawalLimit := 0
  withdrawalCredentials := 0
  stakingState := 0

variable (s : Lido)

def _setProtocolContracts (oracle treasury insuranceFund : Address) : Except Revert Lido := do
  require (oracle ≠ 0) (.reason "ORACLE_ZERO_ADDRESS")
  require (treasury ≠ 0) (.reason "TREASURY_ZERO_ADDRESS")
  require (insuranceFund ≠ 0) (.reason "INSURANCE_FUND_ZERO_ADDRESS")
  pure { s with oracle := oracle, treasury := treasury, insuranceFund := insuranceFund }

/-- `initialize`. The registry and the deposit contract handles, set here once
and for all, are parameters of the model. -/
def initializeLido (oracle treasury insuranceFund : Address) : Except Revert Lido :=
  _setProtocolContracts s oracle treasury insuranceFund

section Ether

def _getBufferedEther : Except Revert ℕ := do
  require (s.bufferedEther ≤ s.balance) (.assertion "_getBufferedEther")
  pure s.bufferedEther

def _getUnaccountedEther : Except Revert ℕ := do
  let buffered ← _getBufferedEther s
  sub s.balance buffered

def _getTransientBalance : Except Revert ℕ := do
  require (s.beaconValidators ≤ s.depositedValidators) (.assertion "_getTransientBalance")
  let inTransit ← sub s.depositedValidators s.beaconValidators
  mul inTransit depositSize

def _getTotalPooledEther : Except Revert ℕ := do
  let buffered ← _getBufferedEther s
  let visible ← add buffered s.beaconBalance
  let inTransit ← _getTransientBalance s
  add visible inTransit

def _markAsUnbuffered (amount : ℕ) : Except Revert Lido := do
  let bufferedEther ← sub s.bufferedEther amount
  pure { s with bufferedEther }

end Ether

section Token

def onToken (f : StETH → Except Revert StETH) : Except Revert Lido := do
  let token ← f s.toStETH
  pure { s with toStETH := token }

def getSharesByPooledEth (ethAmount : ℕ) : Except Revert ℕ :=
  s.toStETH.getSharesByPooledEth s._getTotalPooledEther ethAmount

def getPooledEthByShares (sharesAmount : ℕ) : Except Revert ℕ :=
  s.toStETH.getPooledEthByShares s._getTotalPooledEther sharesAmount

def getTotalPooledEther : Except Revert ℕ := s._getTotalPooledEther

def totalSupply : Except Revert ℕ := s._getTotalPooledEther

def balanceOf (account : Address) : Except Revert ℕ :=
  s.toStETH.balanceOf s._getTotalPooledEther account

def _mintShares (recipient : Address) (sharesAmount : ℕ) : Except Revert Lido :=
  s.onToken fun t ↦ t._mintShares recipient sharesAmount

def _transferShares (sender recipient : Address) (sharesAmount : ℕ) : Except Revert Lido :=
  s.onToken fun t ↦ t._transferShares sender recipient sharesAmount

def _emitTransferAfterMintingShares (sharesAmount : ℕ) : Except Revert Unit :=
  s.toStETH._emitTransferAfterMintingShares s._getTotalPooledEther sharesAmount

end Token

section Staking

def _pauseStaking (blockNumber : ℕ) : Lido :=
  let data := (getStorageStakeLimitStruct s.stakingState).setStakeLimitPauseState true blockNumber
  { s with stakingState := setStorageStakeLimitStruct data }

def _resumeStaking (blockNumber : ℕ) : Lido :=
  let data := (getStorageStakeLimitStruct s.stakingState).setStakeLimitPauseState false blockNumber
  { s with stakingState := setStorageStakeLimitStruct data }

def setStakingLimit (maxStakeLimit stakeLimitIncreasePerBlock blockNumber : ℕ) :
    Except Revert Lido := do
  let data ← (getStorageStakeLimitStruct s.stakingState).setStakingLimit
    maxStakeLimit stakeLimitIncreasePerBlock blockNumber
  pure { s with stakingState := setStorageStakeLimitStruct data }

def removeStakingLimit : Lido :=
  let data := (getStorageStakeLimitStruct s.stakingState).removeStakingLimit
  { s with stakingState := setStorageStakeLimitStruct data }

def _getCurrentStakeLimit (stakeLimitData : Data) (blockNumber : ℕ) : ℕ :=
  if stakeLimitData.isStakingPaused then 0
  else if !stakeLimitData.isStakingLimitSet then wordLimit - 1
  else stakeLimitData.calculateCurrentStakeLimit blockNumber

def getCurrentStakeLimit (blockNumber : ℕ) : ℕ :=
  _getCurrentStakeLimit (getStorageStakeLimitStruct s.stakingState) blockNumber

def consumeStakeLimit (msgValue blockNumber : ℕ) : Except Revert Lido := do
  let stakeLimitData := getStorageStakeLimitStruct s.stakingState
  if stakeLimitData.isStakingLimitSet then do
    let currentStakeLimit := stakeLimitData.calculateCurrentStakeLimit blockNumber
    require (msgValue ≤ currentStakeLimit) (.reason "STAKE_LIMIT")
    let data ← stakeLimitData.updatePrevStakeLimit (currentStakeLimit - msgValue) blockNumber
    pure { s with stakingState := setStorageStakeLimitStruct data }
  else pure s

/-- The ether sent along is on the balance before the code runs. -/
def receive (msgValue : ℕ) : Lido := { s with balance := s.balance + msgValue }

def _submit (msgSender : Address) (msgValue blockNumber : ℕ) : Except Revert (ℕ × Lido) := do
  require (msgValue ≠ 0) (.reason "ZERO_DEPOSIT")
  require (!(getStorageStakeLimitStruct s.stakingState).isStakingPaused) (.reason "STAKING_PAUSED")
  let s ← s.consumeStakeLimit msgValue blockNumber
  let sharesAmount ← s.getSharesByPooledEth msgValue
  let sharesAmount := if sharesAmount = 0 then msgValue else sharesAmount
  let s ← s._mintShares msgSender sharesAmount
  let buffered ← s._getBufferedEther
  let bufferedEther ← add buffered msgValue
  let s := { s with bufferedEther }
  s._emitTransferAfterMintingShares sharesAmount
  pure (sharesAmount, s)

def submit (msgSender : Address) (msgValue blockNumber : ℕ) : Except Revert (ℕ × Lido) :=
  (s.receive msgValue)._submit msgSender msgValue blockNumber

def fallback (msgSender : Address) (msgDataLength msgValue blockNumber : ℕ) :
    Except Revert (ℕ × Lido) := do
  require (msgDataLength = 0) (.reason "NON_EMPTY_DATA")
  (s.receive msgValue)._submit msgSender msgValue blockNumber

def receiveELRewards (msgSender : Address) (msgValue : ℕ) : Except Revert Lido := do
  let s := s.receive msgValue
  require (msgSender = s.elRewardsVault) .silent
  let totalELRewardsCollected ← add s.totalELRewardsCollected msgValue
  pure { s with totalELRewardsCollected }

end Staking

section Control

def stop (blockNumber : ℕ) : Except Revert Lido := do
  let s ← s.onToken StETH._stop
  pure (s._pauseStaking blockNumber)

def resume (blockNumber : ℕ) : Except Revert Lido := do
  let s ← s.onToken StETH._resume
  pure (s._resumeStaking blockNumber)

def checkBPValue (value : ℕ) : Except Revert Unit :=
  require (value ≤ totalBasisPoints) (.reason "VALUE_OVER_100_PERCENT")

def setFee (feeBasisPoints : ℕ) : Except Revert Lido := do
  checkBPValue feeBasisPoints
  pure { s with fee := feeBasisPoints }

def setFeeDistribution (treasuryFeeBasisPoints insuranceFeeBasisPoints
    operatorsFeeBasisPoints : ℕ) : Except Revert Lido := do
  let sum ← add treasuryFeeBasisPoints insuranceFeeBasisPoints
  let sum ← add sum operatorsFeeBasisPoints
  require (totalBasisPoints = sum) (.reason "FEES_DONT_ADD_UP")
  checkBPValue treasuryFeeBasisPoints
  checkBPValue insuranceFeeBasisPoints
  checkBPValue operatorsFeeBasisPoints
  pure { s with
    treasuryFee := treasuryFeeBasisPoints
    insuranceFee := insuranceFeeBasisPoints
    nodeOperatorsFee := operatorsFeeBasisPoints }

def setELRewardsVault (executionLayerRewardsVault : Address) : Lido :=
  { s with elRewardsVault := executionLayerRewardsVault }

def setELRewardsWithdrawalLimit (limitPoints : ℕ) : Except Revert Lido := do
  checkBPValue limitPoints
  pure { s with elRewardsWithdrawalLimit := limitPoints }

/-- Read back as a `uint16`. -/
def getFee : ℕ := s.fee % 2 ^ 16

def getInsuranceFee : ℕ := s.insuranceFee % 2 ^ 16

def getNodeOperatorsFee : ℕ := s.nodeOperatorsFee % 2 ^ 16

end Control

end Lido

end LidoDao
