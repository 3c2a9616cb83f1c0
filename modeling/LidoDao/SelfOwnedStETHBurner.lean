import LidoDao.CheckedMath
import LidoDao.WstETH

namespace LidoDao

open Evm Library.Outcome Library.Transition

/-- The storage of `SelfOwnedStETHBurner` and its immutable addresses. -/
structure SelfOwnedStETHBurner where
  coverSharesBurnRequested : ℕ
  nonCoverSharesBurnRequested : ℕ
  totalCoverSharesBurnt : ℕ
  totalNonCoverSharesBurnt : ℕ
  maxBurnAmountPerRunBasisPoints : ℕ
  lido : Address
  treasury : Address
  voting : Address

/-- A call of the burner. For its own calls of the pool the roles it holds there matter;
the oracle answers its receiver. -/
structure BurnerCall where
  sender : Address
  blockNumber : ℕ
  canPerform : Lido.Role → List ℕ → Bool
  getBeaconReportReceiver : Address → Except Revert Address

structure BurnWorld (R : Type) where
  pool : World R
  burner : SelfOwnedStETHBurner

variable {R ρ : Type} {D : Deployment}

/-- A call of the pool by the contract, with the roles it holds. -/
def HolderContract.callWith (H : HolderContract D) (c : BurnerCall) : LidoCall D :=
  { H.call c.blockNumber with canPerform := c.canPerform }

namespace SelfOwnedStETHBurner

def maxBasisPoints : ℕ := 10000

def constructor (treasury lido voting : Address) (totalCoverSharesBurnt totalNonCoverSharesBurnt
    maxBurnAmountPerRunBasisPoints : ℕ) : Except Revert SelfOwnedStETHBurner := do
  require (treasury ≠ 0) (.reason "TREASURY_ZERO_ADDRESS")
  require (lido ≠ 0) (.reason "LIDO_ZERO_ADDRESS")
  require (voting ≠ 0) (.reason "VOTING_ZERO_ADDRESS")
  require (0 < maxBurnAmountPerRunBasisPoints) (.reason "ZERO_BURN_AMOUNT_PER_RUN")
  require (maxBurnAmountPerRunBasisPoints ≤ maxBasisPoints)
    (.reason "TOO_LARGE_BURN_AMOUNT_PER_RUN")
  pure {
    coverSharesBurnRequested := 0
    nonCoverSharesBurnRequested := 0
    totalCoverSharesBurnt
    totalNonCoverSharesBurnt
    maxBurnAmountPerRunBasisPoints
    lido
    treasury
    voting }

def setBurnAmountPerRunQuota (b : SelfOwnedStETHBurner) (msgSender : Address)
    (maxBurnAmountPerRunBasisPoints : ℕ) : Except Revert SelfOwnedStETHBurner := do
  require (0 < maxBurnAmountPerRunBasisPoints) (.reason "ZERO_BURN_AMOUNT_PER_RUN")
  require (maxBurnAmountPerRunBasisPoints ≤ maxBasisPoints)
    (.reason "TOO_LARGE_BURN_AMOUNT_PER_RUN")
  require (msgSender = b.voting) (.reason "MSG_SENDER_MUST_BE_VOTING")
  pure { b with maxBurnAmountPerRunBasisPoints }

variable (I : INodeOperatorsRegistry R ρ) (H : HolderContract D) (c : BurnerCall)
  (w : BurnWorld R)

def callLido (m : LidoMessage) (w : BurnWorld R) : Except Revert (BurnWorld R) := do
  let pool ← World.handle D I (H.callWith c) m w.pool
  pure { w with pool }

def _requestBurnMyStETH (stETH2Burn : ℕ) (isCover : Bool) : Except Revert (BurnWorld R) := do
  require (0 < stETH2Burn) (.reason "ZERO_BURN_AMOUNT")
  require (c.sender = w.burner.voting) (.reason "MSG_SENDER_MUST_BE_VOTING")
  let w ← callLido I H c (.transferFrom c.sender H.address stETH2Burn) w
  let sharesAmount ← w.pool.lido.getSharesByPooledEth stETH2Burn
  if isCover then do
    let coverSharesBurnRequested ← Checked.add w.burner.coverSharesBurnRequested sharesAmount
    pure { w with burner := { w.burner with coverSharesBurnRequested } }
  else do
    let nonCoverSharesBurnRequested ←
      Checked.add w.burner.nonCoverSharesBurnRequested sharesAmount
    pure { w with burner := { w.burner with nonCoverSharesBurnRequested } }

def getExcessStETH : Except Revert ℕ := do
  let sharesBurnRequested ←
    Checked.add w.burner.coverSharesBurnRequested w.burner.nonCoverSharesBurnRequested
  let totalShares := w.pool.lido.shares H.address
  if totalShares ≤ sharesBurnRequested then pure 0
  else do
    let excess ← Checked.sub totalShares sharesBurnRequested
    w.pool.lido.getPooledEthByShares excess

def recoverExcessStETH : Except Revert (BurnWorld R) := do
  let excessStETH ← getExcessStETH H w
  if 0 < excessStETH then do
    let _excessSharesAmount ← w.pool.lido.getSharesByPooledEth excessStETH
    callLido I H c (.transfer w.burner.treasury excessStETH) w
  else pure w

/-- A foreign token answers as it likes; it has no hold on the burner's shares. -/
def recoverERC20 (token : Address) (amount : ℕ) : Except Revert (BurnWorld R) := do
  require (0 < amount) (.reason "ZERO_RECOVERY_AMOUNT")
  require (token ≠ D.lido) (.reason "STETH_RECOVER_WRONG_FUNC")
  pure w

/-- The pool's own token has a `transferFrom` with the same signature. -/
def recoverERC721 (token : Address) (tokenId : ℕ) : Except Revert (BurnWorld R) :=
  if token = D.lido then callLido I H c (.transferFrom H.address w.burner.treasury tokenId) w
  else pure w

/-- The part of `processLidoOracleReport` after the shares requested for cover. -/
def processNonCover (maxSharesToBurnNow memCoverSharesBurnRequested
    memNonCoverSharesBurnRequested : ℕ) (w : BurnWorld R) : Except Revert (BurnWorld R) := do
  let rest ← Checked.sub maxSharesToBurnNow memCoverSharesBurnRequested
  let sharesToBurnNowForNonCover := min rest memNonCoverSharesBurnRequested
  let totalNonCoverSharesBurnt ←
    Checked.add w.burner.totalNonCoverSharesBurnt sharesToBurnNowForNonCover
  let _stETHToBurnNowForNonCover ← w.pool.lido.getPooledEthByShares sharesToBurnNowForNonCover
  let nonCoverSharesBurnRequested ←
    Checked.sub w.burner.nonCoverSharesBurnRequested sharesToBurnNowForNonCover
  let burner := { w.burner with totalNonCoverSharesBurnt, nonCoverSharesBurnRequested }
  let sharesToBurnNow ← Checked.add memCoverSharesBurnRequested sharesToBurnNowForNonCover
  callLido I H c (.burnShares H.address sharesToBurnNow) { w with burner }

def checkReporter (oracle : Address) : Except Revert Unit :=
  if c.sender = oracle then pure ()
  else do
    let receiver ← c.getBeaconReportReceiver oracle
    require (c.sender = receiver) (.reason "APP_AUTH_FAILED")

def processLidoOracleReport : Except Revert (BurnWorld R) := do
  let memCoverSharesBurnRequested := w.burner.coverSharesBurnRequested
  let memNonCoverSharesBurnRequested := w.burner.nonCoverSharesBurnRequested
  let burnAmount ← Checked.add memCoverSharesBurnRequested memNonCoverSharesBurnRequested
  if burnAmount = 0 then pure w
  else do
    checkReporter c w.pool.lido.oracle
    let product ← Checked.mul w.pool.lido.totalShares w.burner.maxBurnAmountPerRunBasisPoints
    let maxSharesToBurnNow := product / maxBasisPoints
    if 0 < memCoverSharesBurnRequested then do
      let sharesToBurnNowForCover := min maxSharesToBurnNow memCoverSharesBurnRequested
      let totalCoverSharesBurnt ←
        Checked.add w.burner.totalCoverSharesBurnt sharesToBurnNowForCover
      let _stETHToBurnNowForCover ← w.pool.lido.getPooledEthByShares sharesToBurnNowForCover
      let coverSharesBurnRequested ←
        Checked.sub w.burner.coverSharesBurnRequested sharesToBurnNowForCover
      let burner := { w.burner with totalCoverSharesBurnt, coverSharesBurnRequested }
      if sharesToBurnNowForCover = maxSharesToBurnNow ∨ memNonCoverSharesBurnRequested = 0 then
        callLido I H c (.burnShares H.address sharesToBurnNowForCover) { w with burner }
      else
        processNonCover I H c maxSharesToBurnNow memCoverSharesBurnRequested
          memNonCoverSharesBurnRequested { w with burner }
    else
      processNonCover I H c maxSharesToBurnNow memCoverSharesBurnRequested
        memNonCoverSharesBurnRequested w

/-- The external functions that change the state; `receive` always reverts. -/
inductive Message
  | setBurnAmountPerRunQuota (maxBurnAmountPerRunBasisPoints : ℕ)
  | requestBurnMyStETHForCover (stETH2Burn : ℕ)
  | requestBurnMyStETH (stETH2Burn : ℕ)
  | recoverExcessStETH
  | recoverERC20 (token : Address) (amount : ℕ)
  | recoverERC721 (token : Address) (tokenId : ℕ)
  | processLidoOracleReport

def handle : Message → Except Revert (BurnWorld R)
  | .setBurnAmountPerRunQuota maxBurnAmountPerRunBasisPoints => do
    let burner ← w.burner.setBurnAmountPerRunQuota c.sender maxBurnAmountPerRunBasisPoints
    pure { w with burner }
  | .requestBurnMyStETHForCover stETH2Burn => _requestBurnMyStETH I H c w stETH2Burn true
  | .requestBurnMyStETH stETH2Burn => _requestBurnMyStETH I H c w stETH2Burn false
  | .recoverExcessStETH => recoverExcessStETH I H c w
  | .recoverERC20 token amount => recoverERC20 (D := D) w token amount
  | .recoverERC721 token tokenId => recoverERC721 I H c w token tokenId
  | .processLidoOracleReport => processLidoOracleReport I H c w

end SelfOwnedStETHBurner

/-- Anything around the burner, or a call of the burner. The burner calls the pool only
through its own functions. -/
inductive BurnEvent (H : HolderContract D) (ρ : Type)
  | pool (e : Event D ρ) (he : ∀ c m, e = .lido c m → c.sender ≠ H.address)
  | burner (c : BurnerCall) (m : SelfOwnedStETHBurner.Message)

namespace BurnWorld

variable (I : INodeOperatorsRegistry R ρ) (H : HolderContract D)

def step (w : BurnWorld R) : BurnEvent H ρ → Except Revert (BurnWorld R)
  | .pool e _ => do
    let pool ← World.step D I w.pool e
    pure { w with pool }
  | .burner c m => SelfOwnedStETHBurner.handle I H c w m

/-- The burner is deployed for a pool that may have been running before, at an address
that has granted no allowance. -/
def Initial (w : BurnWorld R) : Prop :=
  (∃ treasury voting totalCover totalNonCover maxBurn,
    SelfOwnedStETHBurner.constructor treasury D.lido voting totalCover totalNonCover maxBurn =
      .ok w.burner) ∧
  Reachable (World.machine D I) w.pool ∧ ∀ a, w.pool.lido.allowances H.address a = 0

def machine : Machine (BurnWorld R) (BurnEvent H ρ) Revert where
  initial := Initial I H
  step := step I H

end BurnWorld

end LidoDao
