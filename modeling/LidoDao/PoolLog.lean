import LidoDao.Library.Emission
import LidoDao.Protocol

/-!
# The events of the pool

The functions of the pool again, with the events they emit.
-/

namespace LidoDao

open Evm Library.Outcome Library.Emission Library.Transition SafeMath StakeLimit

/-- An entry of the pool's log. The amount of a foreign token that is recovered is for
that token to say. -/
inductive LidoLog
  | transfer (sender recipient : Address) (value : ℕ)
  | approval (owner spender : Address) (value : ℕ)
  | transferShares (sender recipient : Address) (sharesValue : ℕ)
  | sharesBurnt (account : Address)
      (preRebaseTokenAmount postRebaseTokenAmount sharesAmount : ℕ)
  | stopped
  | resumed
  | stakingPaused
  | stakingResumed
  | stakingLimitSet (maxStakeLimit stakeLimitIncreasePerBlock : ℕ)
  | stakingLimitRemoved
  | protocolContactsSet (oracle treasury insuranceFund : Address)
  | feeSet (feeBasisPoints : ℕ)
  | feeDistributionSet (treasuryFeeBasisPoints insuranceFeeBasisPoints
      operatorsFeeBasisPoints : ℕ)
  | elRewardsReceived (amount : ℕ)
  | elRewardsWithdrawalLimitSet (limitPoints : ℕ)
  | withdrawalCredentialsSet (withdrawalCredentials : ℕ)
  | elRewardsVaultSet (executionLayerRewardsVault : Address)
  | submitted (sender : Address) (amount : ℕ) (referral : Address)
  | unbuffered (amount : ℕ)
  | recoverToVault (vault token : Address)
  deriving DecidableEq

namespace Logged

abbrev Emits : Type → Type := Library.Emission.Emits Revert LidoLog

section Token

variable (s : StETH) (pooled : Except Revert ℕ)

def _stop : Emits StETH := do
  let s ← s._stop
  emit .stopped
  pure s

def _resume : Emits StETH := do
  let s ← s._resume
  emit .resumed
  pure s

def _approve (owner spender : Address) (amount : ℕ) : Emits StETH := do
  let s ← s._approve owner spender amount
  emit (.approval owner spender amount)
  pure s

def _transfer (sender recipient : Address) (amount : ℕ) : Emits StETH := do
  let sharesToTransfer ← s.getSharesByPooledEth pooled amount
  let s ← s._transferShares sender recipient sharesToTransfer
  emit (.transfer sender recipient amount)
  emit (.transferShares sender recipient sharesToTransfer)
  pure s

def transfer (msgSender recipient : Address) (amount : ℕ) : Emits StETH :=
  _transfer s pooled msgSender recipient amount

def approve (msgSender spender : Address) (amount : ℕ) : Emits StETH :=
  _approve s msgSender spender amount

def transferFrom (msgSender sender recipient : Address) (amount : ℕ) : Emits StETH := do
  let currentAllowance := s.allowances sender msgSender
  require (amount ≤ currentAllowance) (Revert.reason "TRANSFER_AMOUNT_EXCEEDS_ALLOWANCE")
  let s ← _transfer s pooled sender recipient amount
  let rest ← sub currentAllowance amount
  _approve s sender msgSender rest

def increaseAllowance (msgSender spender : Address) (addedValue : ℕ) : Emits StETH := do
  let amount ← add (s.allowances msgSender spender) addedValue
  _approve s msgSender spender amount

def decreaseAllowance (msgSender spender : Address) (subtractedValue : ℕ) : Emits StETH := do
  let currentAllowance := s.allowances msgSender spender
  require (subtractedValue ≤ currentAllowance) (Revert.reason "DECREASED_ALLOWANCE_BELOW_ZERO")
  let amount ← sub currentAllowance subtractedValue
  _approve s msgSender spender amount

def transferShares (msgSender recipient : Address) (sharesAmount : ℕ) : Emits (ℕ × StETH) := do
  let s ← s._transferShares msgSender recipient sharesAmount
  emit (.transferShares msgSender recipient sharesAmount)
  let tokensAmount ← s.getPooledEthByShares pooled sharesAmount
  emit (.transfer msgSender recipient tokensAmount)
  pure (tokensAmount, s)

def _burnShares (account : Address) (sharesAmount : ℕ) : Emits StETH := do
  s.whenNotStopped
  require (account ≠ 0) (Revert.reason "BURN_FROM_THE_ZERO_ADDRESS")
  let accountShares := s.shares account
  require (sharesAmount ≤ accountShares) (Revert.reason "BURN_AMOUNT_EXCEEDS_BALANCE")
  let preRebaseTokenAmount ← s.getPooledEthByShares pooled sharesAmount
  let newTotalShares ← sub s.totalShares sharesAmount
  let debited ← sub accountShares sharesAmount
  let s := { s with
    totalShares := newTotalShares
    shares := Function.update s.shares account debited }
  let postRebaseTokenAmount ← s.getPooledEthByShares pooled sharesAmount
  emit (.sharesBurnt account preRebaseTokenAmount postRebaseTokenAmount sharesAmount)
  pure s

end Token

section Pool

variable (s : Lido)

def onToken (f : StETH → Emits StETH) : Emits Lido := do
  let token ← f s.toStETH
  pure { s with toStETH := token }

def _setProtocolContracts (oracle treasury insuranceFund : Address) : Emits Lido := do
  let s ← s._setProtocolContracts oracle treasury insuranceFund
  emit (.protocolContactsSet oracle treasury insuranceFund)
  pure s

def initializeLido (oracle treasury insuranceFund : Address) : Emits Lido :=
  _setProtocolContracts s oracle treasury insuranceFund

def _markAsUnbuffered (amount : ℕ) : Emits Lido := do
  let s ← s._markAsUnbuffered amount
  emit (.unbuffered amount)
  pure s

def _emitTransferAfterMintingShares (recipient : Address) (sharesAmount : ℕ) : Emits Unit := do
  let amount ← s.getPooledEthByShares sharesAmount
  emit (.transfer 0 recipient amount)
  emit (.transferShares 0 recipient sharesAmount)

def _pauseStaking (blockNumber : ℕ) : Emits Lido := do
  emit .stakingPaused
  pure (s._pauseStaking blockNumber)

def _resumeStaking (blockNumber : ℕ) : Emits Lido := do
  emit .stakingResumed
  pure (s._resumeStaking blockNumber)

def setStakingLimit (maxStakeLimit stakeLimitIncreasePerBlock blockNumber : ℕ) : Emits Lido := do
  let s ← s.setStakingLimit maxStakeLimit stakeLimitIncreasePerBlock blockNumber
  emit (.stakingLimitSet maxStakeLimit stakeLimitIncreasePerBlock)
  pure s

def removeStakingLimit : Emits Lido := do
  emit .stakingLimitRemoved
  pure s.removeStakingLimit

def _submit (referral msgSender : Address) (msgValue blockNumber : ℕ) : Emits (ℕ × Lido) := do
  require (msgValue ≠ 0) (Revert.reason "ZERO_DEPOSIT")
  require (!(getStorageStakeLimitStruct s.stakingState).isStakingPaused)
    (Revert.reason "STAKING_PAUSED")
  let s ← s.consumeStakeLimit msgValue blockNumber
  let sharesAmount ← s.getSharesByPooledEth msgValue
  let sharesAmount := if sharesAmount = 0 then msgValue else sharesAmount
  let s ← s._mintShares msgSender sharesAmount
  let buffered ← s._getBufferedEther
  let bufferedEther ← add buffered msgValue
  let s := { s with bufferedEther }
  emit (.submitted msgSender msgValue referral)
  _emitTransferAfterMintingShares s msgSender sharesAmount
  pure (sharesAmount, s)

def submit (referral msgSender : Address) (msgValue blockNumber : ℕ) : Emits (ℕ × Lido) :=
  _submit (s.receive msgValue) referral msgSender msgValue blockNumber

def fallback (msgSender : Address) (msgDataLength msgValue blockNumber : ℕ) :
    Emits (ℕ × Lido) := do
  require (msgDataLength = 0) (Revert.reason "NON_EMPTY_DATA")
  _submit (s.receive msgValue) 0 msgSender msgValue blockNumber

def receiveELRewards (msgSender : Address) (msgValue : ℕ) : Emits Lido := do
  let s ← s.receiveELRewards msgSender msgValue
  emit (.elRewardsReceived msgValue)
  pure s

def stop (blockNumber : ℕ) : Emits Lido := do
  let s ← onToken s _stop
  _pauseStaking s blockNumber

def resume (blockNumber : ℕ) : Emits Lido := do
  let s ← onToken s _resume
  _resumeStaking s blockNumber

def setFee (feeBasisPoints : ℕ) : Emits Lido := do
  let s ← s.setFee feeBasisPoints
  emit (.feeSet feeBasisPoints)
  pure s

def setFeeDistribution (treasuryFeeBasisPoints insuranceFeeBasisPoints
    operatorsFeeBasisPoints : ℕ) : Emits Lido := do
  let s ← s.setFeeDistribution treasuryFeeBasisPoints insuranceFeeBasisPoints
    operatorsFeeBasisPoints
  emit (.feeDistributionSet treasuryFeeBasisPoints insuranceFeeBasisPoints
    operatorsFeeBasisPoints)
  pure s

def setELRewardsVault (executionLayerRewardsVault : Address) : Emits Lido := do
  emit (.elRewardsVaultSet executionLayerRewardsVault)
  pure (s.setELRewardsVault executionLayerRewardsVault)

def setELRewardsWithdrawalLimit (limitPoints : ℕ) : Emits Lido := do
  let s ← s.setELRewardsWithdrawalLimit limitPoints
  emit (.elRewardsWithdrawalLimitSet limitPoints)
  pure s

end Pool

variable {R ρ : Type} (D : Deployment) (I : INodeOperatorsRegistry R ρ) (c : LidoCall D)

section Report

def payShares (recipient : Address) (sharesAmount : ℕ) (s : Lido) : Emits Lido := do
  let s ← s._transferShares D.lido recipient sharesAmount
  _emitTransferAfterMintingShares s recipient sharesAmount
  pure s

def payOperators : List Address → List ℕ → ℕ → Lido → Emits (ℕ × Lido)
  | recipient :: recipients, sharesAmount :: shares, distributed, s => do
    let s ← payShares D recipient sharesAmount s
    let distributed ← add distributed sharesAmount
    payOperators recipients shares distributed s
  | _, _, distributed, s => pure (distributed, s)

def _distributeNodeOperatorsReward (registry : R) (sharesToDistribute : ℕ) (s : Lido) :
    Emits (ℕ × Lido) := do
  let (recipients, shares) ← I.getRewardsDistribution registry sharesToDistribute
  require (recipients.length = shares.length)
    (Revert.assertion "_distributeNodeOperatorsReward")
  payOperators D recipients shares 0 s

def distributeFee (registry : R) (totalRewards : ℕ) (s : Lido) : Emits Lido := do
  let shares2mint ← Lido.sharesToMint totalRewards s
  let s ← s._mintShares D.lido shares2mint
  let insurancePart ← mul shares2mint s.getInsuranceFee
  let toInsuranceFund ← div insurancePart Lido.totalBasisPoints
  let s ← payShares D s.insuranceFund toInsuranceFund s
  let operatorsPart ← mul shares2mint s.getNodeOperatorsFee
  let toOperators ← div operatorsPart Lido.totalBasisPoints
  let (distributedToOperatorsShares, s) ←
    _distributeNodeOperatorsReward D I registry toOperators s
  let rest ← sub shares2mint toInsuranceFund
  let toTreasury ← sub rest distributedToOperatorsShares
  payShares D s.treasury toTreasury s

/-- The vault's own event is not in this log. -/
def withdrawRewards (vault : ELRewardsVault) (vaultAddress msgSender : Address)
    (maxAmount : ℕ) (s : Lido) : Emits (ℕ × ELRewardsVault × Lido) := do
  require (msgSender = vault.lido) (Revert.reason "ONLY_LIDO_CAN_WITHDRAW")
  let balance := vault.balance
  let amount := if maxAmount < balance then maxAmount else balance
  if 0 < amount then do
    let s ← receiveELRewards s vaultAddress amount
    pure (amount, { vault with balance := balance - amount }, s)
  else pure (amount, vault, s)

def callWithdrawRewards (vaultAddress : Address) (maxAmount : ℕ) (w : World R) :
    Emits (ℕ × World R) :=
  match w.vaults vaultAddress with
  | none => liftM (Except.error Revert.silent : Except Revert (ℕ × World R))
  | some vault => do
    let (amount, vault, lido) ← withdrawRewards vault vaultAddress D.lido maxAmount w.lido
    pure (amount, { w with lido, vaults := Function.update w.vaults vaultAddress (some vault) })

def withdrawELRewards (w : World R) : Emits (ℕ × World R) :=
  if w.lido.elRewardsVault ≠ 0 then do
    let totalPooledEther ← w.lido._getTotalPooledEther
    let maxAmount :=
      totalPooledEther * w.lido.elRewardsWithdrawalLimit % wordLimit / Lido.totalBasisPoints
    let (executionLayerRewards, w) ← callWithdrawRewards D w.lido.elRewardsVault maxAmount w
    if executionLayerRewards ≠ 0 then do
      let buffered ← w.lido._getBufferedEther
      let bufferedEther ← add buffered executionLayerRewards
      pure (executionLayerRewards, { w with lido := { w.lido with bufferedEther } })
    else pure (executionLayerRewards, w)
  else pure (0, w)

def handleOracleReport (msgSender : Address) (beaconValidators beaconBalance : ℕ)
    (w : World R) : Emits (World R) := do
  w.lido.toStETH.whenNotStopped
  require (msgSender = w.lido.oracle) (Revert.reason "APP_AUTH_FAILED")
  require (beaconValidators ≤ w.lido.depositedValidators)
    (Revert.reason "REPORTED_MORE_DEPOSITED")
  require (w.lido.beaconValidators ≤ beaconValidators) (Revert.reason "REPORTED_LESS_VALIDATORS")
  let appearedValidators ← sub beaconValidators w.lido.beaconValidators
  let appearedBalance ← mul appearedValidators Lido.depositSize
  let rewardBase ← add appearedBalance w.lido.beaconBalance
  let (executionLayerRewards, w) ←
    withdrawELRewards D { w with lido := { w.lido with beaconBalance, beaconValidators } }
  if rewardBase < beaconBalance then do
    let rewards ← sub beaconBalance rewardBase
    let totalRewards ← add rewards executionLayerRewards
    let lido ← distributeFee D I w.registry totalRewards w.lido
    pure { w with lido }
  else pure w

end Report

section World

def _depositBufferedEther (maxDeposits : ℕ) (w : World R) : Emits (World R) := do
  w.lido.toStETH.whenNotStopped
  let buffered ← w.lido._getBufferedEther
  if Lido.depositSize ≤ buffered then do
    let unaccounted ← w.lido._getUnaccountedEther
    let numDeposits ← div buffered Lido.depositSize
    let (amount, w) ←
      Lido._ETH2Deposit D I c (if numDeposits < maxDeposits then numDeposits else maxDeposits) w
    let lido ← _markAsUnbuffered w.lido amount
    let unaccountedAfter ← lido._getUnaccountedEther
    require (unaccountedAfter = unaccounted) (Revert.assertion "_depositBufferedEther")
    pure { w with lido }
  else pure w

def setWithdrawalCredentials (withdrawalCredentials : ℕ) (w : World R) : Emits (World R) := do
  let w ← Lido.setWithdrawalCredentials I withdrawalCredentials w
  emit (.withdrawalCredentialsSet withdrawalCredentials)
  pure w

/-- A failed inner call leaves no events either. -/
def asRevert {α : Type} (text : String) (x : Emits α) : Emits α :=
  WriterT.mk (Lido.asRevert text x.run)

/-- The transfer of `transferToVault`. -/
def recover (token : Address) (w : World R) : Emits (World R) :=
  if token = 0 then do
    let balance ← w.lido._getUnaccountedEther
    require c.recoveryAccepts (Revert.reason "RECOVER_TRANSFER_FAILED")
    pure { w with
      lido := { w.lido with balance := w.lido.balance - balance }
      vaults := fun a ↦
        if a = c.recoveryVault then (w.vaults a).map (·.receive balance) else w.vaults a }
  else if token = D.lido then do
    let balance ← liftM (Lido.asRevert "SAFE_ERC_20_BALANCE_REVERTED" (w.lido.balanceOf D.lido))
    let lido ← asRevert "RECOVER_TOKEN_TRANSFER_FAILED" (onToken w.lido fun t ↦
      transfer t w.lido._getTotalPooledEther D.lido c.recoveryVault balance)
    pure { w with lido }
  else do
    require c.tokenTransfers (Revert.reason "RECOVER_TOKEN_TRANSFER_FAILED")
    pure w

def transferToVault (token : Address) (w : World R) : Emits (World R) := do
  require (D.allowRecoverability token) (Revert.reason "RECOVER_DISALLOWED")
  let vault := c.recoveryVault
  require (vault ≠ 0) (Revert.reason "RECOVER_VAULT_ZERO")
  let w ← recover D c token w
  emit (.recoverToVault vault token)
  pure w

def onLido (f : Lido → Emits Lido) (w : World R) : Emits (World R) := do
  let lido ← f w.lido
  pure { w with lido }

def handle : LidoMessage → World R → Emits (World R)
  | .fallback msgDataLength msgValue => onLido fun s ↦ do
    let (_, s) ← fallback s c.sender msgDataLength msgValue c.blockNumber
    pure s
  | .submit referral msgValue => onLido fun s ↦ do
    let (_, s) ← submit s referral c.sender msgValue c.blockNumber
    pure s
  | .receiveELRewards msgValue => onLido fun s ↦ receiveELRewards s c.sender msgValue
  | .depositBufferedEther => fun w ↦ do
    c.auth .depositRole []
    _depositBufferedEther D I c Lido.defaultMaxDepositsPerCall w
  | .depositBufferedEtherUpTo maxDeposits => fun w ↦ do
    c.auth .depositRole []
    _depositBufferedEther D I c maxDeposits w
  | .burnShares account sharesAmount => onLido fun s ↦ do
    c.auth .burnRole [account.id, sharesAmount]
    onToken s fun t ↦ _burnShares t s._getTotalPooledEther account sharesAmount
  | .stop => onLido fun s ↦ do
    c.auth .pauseRole []
    stop s c.blockNumber
  | .resume => onLido fun s ↦ do
    c.auth .resumeRole []
    resume s c.blockNumber
  | .pauseStaking => onLido fun s ↦ do
    c.auth .stakingPauseRole []
    _pauseStaking s c.blockNumber
  | .resumeStaking => onLido fun s ↦ do
    c.auth .stakingControlRole []
    _resumeStaking s c.blockNumber
  | .setStakingLimit maxStakeLimit stakeLimitIncreasePerBlock => onLido fun s ↦ do
    c.auth .stakingControlRole []
    setStakingLimit s maxStakeLimit stakeLimitIncreasePerBlock c.blockNumber
  | .removeStakingLimit => onLido fun s ↦ do
    c.auth .stakingControlRole []
    removeStakingLimit s
  | .setFee feeBasisPoints => onLido fun s ↦ do
    c.auth .manageFee []
    setFee s feeBasisPoints
  | .setFeeDistribution treasuryFee insuranceFee operatorsFee => onLido fun s ↦ do
    c.auth .manageFee []
    setFeeDistribution s treasuryFee insuranceFee operatorsFee
  | .setProtocolContracts oracle treasury insuranceFund => onLido fun s ↦ do
    c.auth .manageProtocolContractsRole []
    _setProtocolContracts s oracle treasury insuranceFund
  | .setWithdrawalCredentials withdrawalCredentials => fun w ↦ do
    c.auth .manageWithdrawalKey []
    setWithdrawalCredentials I withdrawalCredentials w
  | .setELRewardsVault executionLayerRewardsVault => onLido fun s ↦ do
    c.auth .setELRewardsVaultRole []
    setELRewardsVault s executionLayerRewardsVault
  | .setELRewardsWithdrawalLimit limitPoints => onLido fun s ↦ do
    c.auth .setELRewardsWithdrawalLimitRole []
    setELRewardsWithdrawalLimit s limitPoints
  | .handleOracleReport beaconValidators beaconBalance =>
    handleOracleReport D I c.sender beaconValidators beaconBalance
  | .transferToVault token => transferToVault D c token
  | .transfer recipient amount => onLido fun s ↦
    onToken s fun t ↦ transfer t s._getTotalPooledEther c.sender recipient amount
  | .approve spender amount => onLido fun s ↦
    onToken s fun t ↦ approve t c.sender spender amount
  | .transferFrom sender recipient amount => onLido fun s ↦
    onToken s fun t ↦ transferFrom t s._getTotalPooledEther c.sender sender recipient amount
  | .increaseAllowance spender addedValue => onLido fun s ↦
    onToken s fun t ↦ increaseAllowance t c.sender spender addedValue
  | .decreaseAllowance spender subtractedValue => onLido fun s ↦
    onToken s fun t ↦ decreaseAllowance t c.sender spender subtractedValue
  | .transferShares recipient sharesAmount => onLido fun s ↦
    onToken s fun t ↦ do
      let (_, t) ← transferShares t s._getTotalPooledEther c.sender recipient sharesAmount
      pure t

/-- What happens outside the pool emits none of its events. -/
def step (w : World R) : Event D ρ → Emits (World R)
  | .lido c m => handle D I c m w
  | e => liftM (World.step D I w e)

def Start (w : World R) (log : List LidoLog) : Prop :=
  (∃ balance oracle treasury insuranceFund,
    (initializeLido (Lido.blank balance) oracle treasury insuranceFund).run = .ok (w.lido, log)) ∧
  I.initial w.registry ∧ w.vaults D.lido = none ∧ w.deposits = []

end World

end Logged

def loggedSystem {R ρ : Type} (D : Deployment) (I : INodeOperatorsRegistry R ρ) :
    Machine (World R × List LidoLog) (Event D ρ) Revert :=
  logging (Logged.Start D I) (Logged.step D I)

end LidoDao
