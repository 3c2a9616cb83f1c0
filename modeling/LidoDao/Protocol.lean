import LidoDao.Lido
import LidoDao.ELRewardsVault
import LidoDao.Library.Transition

namespace LidoDao

open Evm Library.Outcome SafeMath StakeLimit Library.ByteWords Library.Transition

/-- One call of the deposit contract. -/
structure DepositCall where
  value : ℕ
  pubkey : Bytes
  withdrawalCredentials : Bytes
  signature : Bytes
  depositDataRoot : ℕ
  deriving DecidableEq

/-- What the pool is deployed with and does not contain: its own address, the
hash precompile and the recovery policy of its base contract. -/
structure Deployment where
  lido : Address
  lido_ne_zero : lido ≠ 0
  sha256 : Bytes → ℕ
  allowRecoverability : Address → Bool

/-- The registry as the pool sees it: states `R`, the three functions the pool
calls and, as calls `ρ`, whatever else can happen to it. -/
structure INodeOperatorsRegistry (R ρ : Type) where
  initial : R → Prop
  assignNextSigningKeys : R → ℕ → Except Revert ((Bytes × Bytes) × R)
  getRewardsDistribution : R → ℕ → Except Revert (List Address × List ℕ)
  trimUnusedKeys : R → Except Revert R
  call : R → ρ → Except Revert R

/-- The pool with the contracts around it. An address either holds a rewards
vault or does not. -/
structure World (R : Type) where
  lido : Lido
  registry : R
  vaults : Address → Option ELRewardsVault
  deposits : List DepositCall

/-- A call of the pool from outside. During it the deposit contract keeps the
ether of a deposit or reverts, as the deposits so far make it decide. The
recovery vault of the kernel is another contract; it and foreign tokens answer
as they like. -/
structure LidoCall (D : Deployment) extends Call Lido.Role where
  sender_ne_lido : sender ≠ D.lido
  depositAccepts : List DepositCall → DepositCall → Bool
  recoveryVault : Address
  recoveryVault_ne_lido : recoveryVault ≠ D.lido
  recoveryAccepts : Bool
  tokenTransfers : Bool

variable {R ρ : Type}

namespace Lido

variable (D : Deployment) (I : INodeOperatorsRegistry R ρ) (c : LidoCall D)

def _pad64 (b : Bytes) : Except Revert Bytes := do
  require (32 ≤ b.length ∧ b.length ≤ 64) (.assertion "_pad64")
  if 64 = b.length then pure b
  else do
    let zero32 : Bytes := List.replicate 32 0
    if 32 = b.length then pure (b ++ zero32)
    else do
      let padding ← bytesSlice zero32 0 (64 - b.length)
      pure (b ++ padding)

def _toLittleEndian64 (value : ℕ) : Except Revert ℕ := do
  let step : ℕ × ℕ → ℕ × ℕ := fun p ↦ ((p.1 <<< 8) ||| (p.2 &&& 0xFF), p.2 >>> 8)
  let p := step^[8] (0, value)
  require (0 = p.2) (.assertion "_toLittleEndian64")
  pure (p.1 <<< (24 * 8))

/-- The deposit data root that `_stake` passes to the deposit contract. -/
def depositDataRoot (pubkey signature : Bytes) (withdrawalCredentials depositAmount : ℕ) :
    Except Revert ℕ := do
  let paddedPubkey ← _pad64 pubkey
  let pubkeyRoot := D.sha256 paddedPubkey
  let head ← bytesSlice signature 0 64
  let tail ← bytesSlice signature 64 (signatureLength - 64)
  let paddedTail ← _pad64 tail
  let signatureRoot :=
    D.sha256 (toBytes 32 (D.sha256 head) ++ toBytes 32 (D.sha256 paddedTail))
  let amount ← _toLittleEndian64 depositAmount
  pure (D.sha256 (
    toBytes 32 (D.sha256 (toBytes 32 pubkeyRoot ++ toBytes 32 withdrawalCredentials)) ++
    toBytes 32 (D.sha256 (toBytes 32 amount ++ toBytes 32 signatureRoot))))

def _stake (pubkey signature : Bytes) (s : Lido) (deposits : List DepositCall) :
    Except Revert (Lido × List DepositCall) := do
  require (s.withdrawalCredentials ≠ 0) (.reason "EMPTY_WITHDRAWAL_CREDENTIALS")
  let value := depositSize
  let depositAmount ← div value depositAmountUnit
  let rounded ← mul depositAmount depositAmountUnit
  require (rounded = value) (.assertion "_stake")
  let root ← depositDataRoot D pubkey signature s.withdrawalCredentials depositAmount
  let targetBalance ← sub s.balance value
  let deposit : DepositCall :=
    { value, pubkey, signature
      withdrawalCredentials := toBytes 32 s.withdrawalCredentials
      depositDataRoot := root }
  require (c.depositAccepts deposits deposit) .silent
  let s := { s with balance := s.balance - value }
  require (s.balance = targetBalance) (.reason "EXPECTING_DEPOSIT_TO_HAPPEN")
  pure (s, deposits ++ [deposit])

/-- The loop of `_ETH2Deposit` over the remaining key positions. -/
def stakeKeys (pubkeys signatures : Bytes) :
    List ℕ → Lido → List DepositCall → Except Revert (Lido × List DepositCall)
  | [], s, deposits => .ok (s, deposits)
  | i :: is, s, deposits => do
    let pubkey ← bytesSlice pubkeys (i * pubkeyLength) pubkeyLength
    let signature ← bytesSlice signatures (i * signatureLength) signatureLength
    let (s, deposits) ← _stake D c pubkey signature s deposits
    stakeKeys pubkeys signatures is s deposits

def _ETH2Deposit (numDeposits : ℕ) (w : World R) : Except Revert (ℕ × World R) := do
  let ((pubkeys, signatures), registry) ← I.assignNextSigningKeys w.registry numDeposits
  if pubkeys.length = 0 then pure (0, { w with registry })
  else do
    let pubkeysRest ← mod pubkeys.length pubkeyLength
    require (pubkeysRest = 0) (.reason "REGISTRY_INCONSISTENT_PUBKEYS_LEN")
    let signaturesRest ← mod signatures.length signatureLength
    require (signaturesRest = 0) (.reason "REGISTRY_INCONSISTENT_SIG_LEN")
    let numKeys ← div pubkeys.length pubkeyLength
    let numSignatures ← div signatures.length signatureLength
    require (numKeys = numSignatures) (.reason "REGISTRY_INCONSISTENT_SIG_COUNT")
    let (lido, deposits) ←
      stakeKeys D c pubkeys signatures (List.range numKeys) w.lido w.deposits
    let depositedValidators ← add lido.depositedValidators numKeys
    let amount ← mul numKeys depositSize
    pure (amount, { w with lido := { lido with depositedValidators }, registry, deposits })

def _depositBufferedEther (maxDeposits : ℕ) (w : World R) : Except Revert (World R) := do
  w.lido.toStETH.whenNotStopped
  let buffered ← w.lido._getBufferedEther
  if depositSize ≤ buffered then do
    let unaccounted ← w.lido._getUnaccountedEther
    let numDeposits ← div buffered depositSize
    let (amount, w) ←
      _ETH2Deposit D I c (if numDeposits < maxDeposits then numDeposits else maxDeposits) w
    let lido ← w.lido._markAsUnbuffered amount
    let unaccountedAfter ← lido._getUnaccountedEther
    require (unaccountedAfter = unaccounted) (.assertion "_depositBufferedEther")
    pure { w with lido }
  else pure w

def setWithdrawalCredentials (withdrawalCredentials : ℕ) (w : World R) :
    Except Revert (World R) := do
  let lido := { w.lido with withdrawalCredentials }
  let registry ← I.trimUnusedKeys w.registry
  pure { w with lido, registry }

/-- A transfer of freshly minted shares out of the pool, with its events. -/
def payShares (recipient : Address) (sharesAmount : ℕ) (s : Lido) : Except Revert Lido := do
  let s ← s._transferShares D.lido recipient sharesAmount
  s._emitTransferAfterMintingShares sharesAmount
  pure s

/-- The loop of `_distributeNodeOperatorsReward`. -/
def payOperators : List Address → List ℕ → ℕ → Lido → Except Revert (ℕ × Lido)
  | recipient :: recipients, sharesAmount :: shares, distributed, s => do
    let s ← payShares D recipient sharesAmount s
    let distributed ← add distributed sharesAmount
    payOperators recipients shares distributed s
  | _, _, distributed, s => .ok (distributed, s)

def _distributeNodeOperatorsReward (registry : R) (sharesToDistribute : ℕ) (s : Lido) :
    Except Revert (ℕ × Lido) := do
  let (recipients, shares) ← I.getRewardsDistribution registry sharesToDistribute
  require (recipients.length = shares.length) (.assertion "_distributeNodeOperatorsReward")
  payOperators D recipients shares 0 s

/-- The amount of shares that `distributeFee` mints. -/
def sharesToMint (totalRewards : ℕ) (s : Lido) : Except Revert ℕ := do
  let feeBasis := s.getFee
  let feePart ← mul totalRewards feeBasis
  let dividend ← mul feePart s.totalShares
  let totalPooledEther ← s._getTotalPooledEther
  let scaled ← mul totalPooledEther totalBasisPoints
  let taken ← mul feeBasis totalRewards
  let divisor ← sub scaled taken
  div dividend divisor

def distributeFee (registry : R) (totalRewards : ℕ) (s : Lido) : Except Revert Lido := do
  let shares2mint ← sharesToMint totalRewards s
  let s ← s._mintShares D.lido shares2mint
  let insurancePart ← mul shares2mint s.getInsuranceFee
  let toInsuranceFund ← div insurancePart totalBasisPoints
  let s ← payShares D s.insuranceFund toInsuranceFund s
  let operatorsPart ← mul shares2mint s.getNodeOperatorsFee
  let toOperators ← div operatorsPart totalBasisPoints
  let (distributedToOperatorsShares, s) ←
    _distributeNodeOperatorsReward D I registry toOperators s
  let rest ← sub shares2mint toInsuranceFund
  let toTreasury ← sub rest distributedToOperatorsShares
  payShares D s.treasury toTreasury s

/-- The external call of `withdrawRewards` on the vault at an address, which
calls back into the pool. -/
def callWithdrawRewards (vaultAddress : Address) (maxAmount : ℕ) (w : World R) :
    Except Revert (ℕ × World R) :=
  match w.vaults vaultAddress with
  | none => .error .silent
  | some vault => do
    let (amount, vault, lido) ← vault.withdrawRewards
      (fun l value ↦ l.receiveELRewards vaultAddress value) D.lido maxAmount w.lido
    pure (amount, { w with lido, vaults := Function.update w.vaults vaultAddress (some vault) })

/-- The execution-layer part of `handleOracleReport`. The product that caps the
withdrawal is not checked for overflow. -/
def withdrawELRewards (w : World R) : Except Revert (ℕ × World R) :=
  if w.lido.elRewardsVault ≠ 0 then do
    let totalPooledEther ← w.lido._getTotalPooledEther
    let maxAmount :=
      totalPooledEther * w.lido.elRewardsWithdrawalLimit % wordLimit / totalBasisPoints
    let (executionLayerRewards, w) ← callWithdrawRewards D w.lido.elRewardsVault maxAmount w
    if executionLayerRewards ≠ 0 then do
      let buffered ← w.lido._getBufferedEther
      let bufferedEther ← add buffered executionLayerRewards
      pure (executionLayerRewards, { w with lido := { w.lido with bufferedEther } })
    else pure (executionLayerRewards, w)
  else pure (0, w)

def handleOracleReport (msgSender : Address) (beaconValidators beaconBalance : ℕ)
    (w : World R) : Except Revert (World R) := do
  w.lido.toStETH.whenNotStopped
  require (msgSender = w.lido.oracle) (.reason "APP_AUTH_FAILED")
  require (beaconValidators ≤ w.lido.depositedValidators) (.reason "REPORTED_MORE_DEPOSITED")
  require (w.lido.beaconValidators ≤ beaconValidators) (.reason "REPORTED_LESS_VALIDATORS")
  let appearedValidators ← sub beaconValidators w.lido.beaconValidators
  let appearedBalance ← mul appearedValidators depositSize
  let rewardBase ← add appearedBalance w.lido.beaconBalance
  let (executionLayerRewards, w) ←
    withdrawELRewards D { w with lido := { w.lido with beaconBalance, beaconValidators } }
  if rewardBase < beaconBalance then do
    let rewards ← sub beaconBalance rewardBase
    let totalRewards ← add rewards executionLayerRewards
    let lido ← distributeFee D I w.registry totalRewards w.lido
    pure { w with lido }
  else pure w

/-- A failed inner call, reported under the caller's own text. -/
def asRevert {α : Type} (text : String) : Except Revert α → Except Revert α
  | .ok a => .ok a
  | .error _ => .error (.reason text)

/-- The zero address stands for ether. The pool's own token is a token like any
other: the pool is then the sender of its `transfer`. -/
def transferToVault (token : Address) (w : World R) :
    Except Revert (World R) := do
  require (D.allowRecoverability token) (.reason "RECOVER_DISALLOWED")
  let vault := c.recoveryVault
  require (vault ≠ 0) (.reason "RECOVER_VAULT_ZERO")
  if token = 0 then do
    let balance ← w.lido._getUnaccountedEther
    require c.recoveryAccepts (.reason "RECOVER_TRANSFER_FAILED")
    pure { w with
      lido := { w.lido with balance := w.lido.balance - balance }
      vaults := fun a ↦
        if a = vault then (w.vaults a).map (·.receive balance) else w.vaults a }
  else if token = D.lido then do
    let balance ← asRevert "SAFE_ERC_20_BALANCE_REVERTED" (w.lido.balanceOf D.lido)
    let lido ← asRevert "RECOVER_TOKEN_TRANSFER_FAILED"
      (w.lido.onToken fun t ↦ t.transfer w.lido._getTotalPooledEther D.lido vault balance)
    pure { w with lido }
  else do
    require c.tokenTransfers (.reason "RECOVER_TOKEN_TRANSFER_FAILED")
    pure w

end Lido

/-- The external functions of the pool that change its state. -/
inductive LidoMessage
  | fallback (msgDataLength msgValue : ℕ)
  | submit (referral : Address) (msgValue : ℕ)
  | receiveELRewards (msgValue : ℕ)
  | depositBufferedEther
  | depositBufferedEtherUpTo (maxDeposits : ℕ)
  | burnShares (account : Address) (sharesAmount : ℕ)
  | stop
  | resume
  | pauseStaking
  | resumeStaking
  | setStakingLimit (maxStakeLimit stakeLimitIncreasePerBlock : ℕ)
  | removeStakingLimit
  | setFee (feeBasisPoints : ℕ)
  | setFeeDistribution (treasuryFeeBasisPoints insuranceFeeBasisPoints
      operatorsFeeBasisPoints : ℕ)
  | setProtocolContracts (oracle treasury insuranceFund : Address)
  | setWithdrawalCredentials (withdrawalCredentials : ℕ)
  | setELRewardsVault (executionLayerRewardsVault : Address)
  | setELRewardsWithdrawalLimit (limitPoints : ℕ)
  | handleOracleReport (beaconValidators beaconBalance : ℕ)
  | transferToVault (token : Address)
  | transfer (recipient : Address) (amount : ℕ)
  | approve (spender : Address) (amount : ℕ)
  | transferFrom (sender recipient : Address) (amount : ℕ)
  | increaseAllowance (spender : Address) (addedValue : ℕ)
  | decreaseAllowance (spender : Address) (subtractedValue : ℕ)
  | transferShares (recipient : Address) (sharesAmount : ℕ)

/-- Everything that can happen: a call of the pool, something in the registry,
ether forced onto the pool, ether sent to a vault, a vault being deployed. -/
inductive Event (D : Deployment) (ρ : Type)
  | lido (c : LidoCall D) (m : LidoMessage)
  | registry (r : ρ)
  | forceEther (amount : ℕ)
  | fundVault (vault : Address) (amount : ℕ)
  | deployVault (vault lido treasury : Address) (balance : ℕ)

namespace World

variable (D : Deployment) (I : INodeOperatorsRegistry R ρ)

def onLido (f : Lido → Except Revert Lido) (w : World R) : Except Revert (World R) := do
  let lido ← f w.lido
  pure { w with lido }

def handle (c : LidoCall D) : LidoMessage → World R → Except Revert (World R)
  | .fallback msgDataLength msgValue => onLido fun s ↦ do
    let (_, s) ← s.fallback c.sender msgDataLength msgValue c.blockNumber
    pure s
  | .submit _ msgValue => onLido fun s ↦ do
    let (_, s) ← s.submit c.sender msgValue c.blockNumber
    pure s
  | .receiveELRewards msgValue => onLido fun s ↦ s.receiveELRewards c.sender msgValue
  | .depositBufferedEther => fun w ↦ do
    c.auth .depositRole []
    Lido._depositBufferedEther D I c Lido.defaultMaxDepositsPerCall w
  | .depositBufferedEtherUpTo maxDeposits => fun w ↦ do
    c.auth .depositRole []
    Lido._depositBufferedEther D I c maxDeposits w
  | .burnShares account sharesAmount => onLido fun s ↦ do
    c.auth .burnRole [account.id, sharesAmount]
    s.onToken fun t ↦ t._burnShares s._getTotalPooledEther account sharesAmount
  | .stop => onLido fun s ↦ do
    c.auth .pauseRole []
    s.stop c.blockNumber
  | .resume => onLido fun s ↦ do
    c.auth .resumeRole []
    s.resume c.blockNumber
  | .pauseStaking => onLido fun s ↦ do
    c.auth .stakingPauseRole []
    pure (s._pauseStaking c.blockNumber)
  | .resumeStaking => onLido fun s ↦ do
    c.auth .stakingControlRole []
    pure (s._resumeStaking c.blockNumber)
  | .setStakingLimit maxStakeLimit stakeLimitIncreasePerBlock => onLido fun s ↦ do
    c.auth .stakingControlRole []
    s.setStakingLimit maxStakeLimit stakeLimitIncreasePerBlock c.blockNumber
  | .removeStakingLimit => onLido fun s ↦ do
    c.auth .stakingControlRole []
    pure s.removeStakingLimit
  | .setFee feeBasisPoints => onLido fun s ↦ do
    c.auth .manageFee []
    s.setFee feeBasisPoints
  | .setFeeDistribution treasuryFee insuranceFee operatorsFee => onLido fun s ↦ do
    c.auth .manageFee []
    s.setFeeDistribution treasuryFee insuranceFee operatorsFee
  | .setProtocolContracts oracle treasury insuranceFund => onLido fun s ↦ do
    c.auth .manageProtocolContractsRole []
    s._setProtocolContracts oracle treasury insuranceFund
  | .setWithdrawalCredentials withdrawalCredentials => fun w ↦ do
    c.auth .manageWithdrawalKey []
    Lido.setWithdrawalCredentials I withdrawalCredentials w
  | .setELRewardsVault executionLayerRewardsVault => onLido fun s ↦ do
    c.auth .setELRewardsVaultRole []
    pure (s.setELRewardsVault executionLayerRewardsVault)
  | .setELRewardsWithdrawalLimit limitPoints => onLido fun s ↦ do
    c.auth .setELRewardsWithdrawalLimitRole []
    s.setELRewardsWithdrawalLimit limitPoints
  | .handleOracleReport beaconValidators beaconBalance =>
    Lido.handleOracleReport D I c.sender beaconValidators beaconBalance
  | .transferToVault token => Lido.transferToVault D c token
  | .transfer recipient amount => onLido fun s ↦
    s.onToken fun t ↦ t.transfer s._getTotalPooledEther c.sender recipient amount
  | .approve spender amount => onLido fun s ↦
    s.onToken fun t ↦ t.approve c.sender spender amount
  | .transferFrom sender recipient amount => onLido fun s ↦
    s.onToken fun t ↦ t.transferFrom s._getTotalPooledEther c.sender sender recipient amount
  | .increaseAllowance spender addedValue => onLido fun s ↦
    s.onToken fun t ↦ t.increaseAllowance c.sender spender addedValue
  | .decreaseAllowance spender subtractedValue => onLido fun s ↦
    s.onToken fun t ↦ t.decreaseAllowance c.sender spender subtractedValue
  | .transferShares recipient sharesAmount => onLido fun s ↦
    s.onToken fun t ↦ do
      let (_, t) ← t.transferShares s._getTotalPooledEther c.sender recipient sharesAmount
      pure t

def step (w : World R) : Event D ρ → Except Revert (World R)
  | .lido c m => handle D I c m w
  | .registry r => do
    let registry ← I.call w.registry r
    pure { w with registry }
  | .forceEther amount => .ok { w with lido := w.lido.receive amount }
  | .fundVault vault amount =>
    .ok { w with vaults := fun a ↦
      if a = vault then (w.vaults a).map (·.receive amount) else w.vaults a }
  | .deployVault vault lido treasury balance => do
    require (vault ≠ D.lido ∧ w.vaults vault = none) .silent
    let deployed ← ELRewardsVault.constructor lido treasury balance
    pure { w with vaults := Function.update w.vaults vault (some deployed) }

def Initial (w : World R) : Prop :=
  (∃ balance oracle treasury insuranceFund,
    (Lido.blank balance).initializeLido oracle treasury insuranceFund = .ok w.lido) ∧
  I.initial w.registry ∧ w.vaults D.lido = none ∧ w.deposits = []

def machine : Machine (World R) (Event D ρ) Revert where
  initial := Initial D I
  step := step D I

end World

end LidoDao
