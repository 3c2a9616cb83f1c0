import Mathlib.Logic.Function.Basic
import LidoDao.Evm

namespace LidoDao

open Evm Library.Outcome SafeMath

/-- The token part of the storage, with the active flag of `Pausable`. The
functions below take the outcome of the overridden `_getTotalPooledEther()`,
which no token operation changes. -/
structure StETH where
  shares : Address → ℕ
  allowances : Address → Address → ℕ
  totalShares : ℕ
  activeFlag : Bool

namespace StETH

variable (s : StETH) (pooled : Except Revert ℕ)

def whenNotStopped : Except Revert Unit :=
  require s.activeFlag (.reason "CONTRACT_IS_STOPPED")

def whenStopped : Except Revert Unit :=
  require (!s.activeFlag) (.reason "CONTRACT_IS_ACTIVE")

def _stop : Except Revert StETH := do
  whenNotStopped s
  pure { s with activeFlag := false }

def _resume : Except Revert StETH := do
  whenStopped s
  pure { s with activeFlag := true }

def getSharesByPooledEth (ethAmount : ℕ) : Except Revert ℕ := do
  let totalPooledEther ← pooled
  if totalPooledEther = 0 then pure 0
  else do
    let product ← mul ethAmount s.totalShares
    div product totalPooledEther

def getPooledEthByShares (sharesAmount : ℕ) : Except Revert ℕ :=
  if s.totalShares = 0 then pure 0
  else do
    let totalPooledEther ← pooled
    let product ← mul sharesAmount totalPooledEther
    div product s.totalShares

def balanceOf (account : Address) : Except Revert ℕ :=
  getPooledEthByShares s pooled (s.shares account)

def _approve (owner spender : Address) (amount : ℕ) : Except Revert StETH := do
  whenNotStopped s
  require (owner ≠ 0) (.reason "APPROVE_FROM_ZERO_ADDRESS")
  require (spender ≠ 0) (.reason "APPROVE_TO_ZERO_ADDRESS")
  pure { s with allowances :=
    Function.update s.allowances owner (Function.update (s.allowances owner) spender amount) }

def _transferShares (sender recipient : Address) (sharesAmount : ℕ) : Except Revert StETH := do
  whenNotStopped s
  require (sender ≠ 0) (.reason "TRANSFER_FROM_THE_ZERO_ADDRESS")
  require (recipient ≠ 0) (.reason "TRANSFER_TO_THE_ZERO_ADDRESS")
  let currentSenderShares := s.shares sender
  require (sharesAmount ≤ currentSenderShares) (.reason "TRANSFER_AMOUNT_EXCEEDS_BALANCE")
  let debited ← sub currentSenderShares sharesAmount
  let shares := Function.update s.shares sender debited
  let credited ← add (shares recipient) sharesAmount
  pure { s with shares := Function.update shares recipient credited }

def _mintShares (recipient : Address) (sharesAmount : ℕ) : Except Revert StETH := do
  whenNotStopped s
  require (recipient ≠ 0) (.reason "MINT_TO_THE_ZERO_ADDRESS")
  let newTotalShares ← add s.totalShares sharesAmount
  let credited ← add (s.shares recipient) sharesAmount
  pure { s with
    totalShares := newTotalShares
    shares := Function.update s.shares recipient credited }

/-- The two token amounts are reported in the `SharesBurnt` event only. -/
def _burnShares (account : Address) (sharesAmount : ℕ) : Except Revert StETH := do
  whenNotStopped s
  require (account ≠ 0) (.reason "BURN_FROM_THE_ZERO_ADDRESS")
  let accountShares := s.shares account
  require (sharesAmount ≤ accountShares) (.reason "BURN_AMOUNT_EXCEEDS_BALANCE")
  let _preRebaseTokenAmount ← getPooledEthByShares s pooled sharesAmount
  let newTotalShares ← sub s.totalShares sharesAmount
  let debited ← sub accountShares sharesAmount
  let s := { s with
    totalShares := newTotalShares
    shares := Function.update s.shares account debited }
  let _postRebaseTokenAmount ← getPooledEthByShares s pooled sharesAmount
  pure s

def _transfer (sender recipient : Address) (amount : ℕ) : Except Revert StETH := do
  let sharesToTransfer ← getSharesByPooledEth s pooled amount
  _transferShares s sender recipient sharesToTransfer

def transfer (msgSender recipient : Address) (amount : ℕ) : Except Revert StETH :=
  _transfer s pooled msgSender recipient amount

def approve (msgSender spender : Address) (amount : ℕ) : Except Revert StETH :=
  _approve s msgSender spender amount

def transferFrom (msgSender sender recipient : Address) (amount : ℕ) : Except Revert StETH := do
  let currentAllowance := s.allowances sender msgSender
  require (amount ≤ currentAllowance) (.reason "TRANSFER_AMOUNT_EXCEEDS_ALLOWANCE")
  let s ← _transfer s pooled sender recipient amount
  let rest ← sub currentAllowance amount
  _approve s sender msgSender rest

def increaseAllowance (msgSender spender : Address) (addedValue : ℕ) : Except Revert StETH := do
  let amount ← add (s.allowances msgSender spender) addedValue
  _approve s msgSender spender amount

def decreaseAllowance (msgSender spender : Address) (subtractedValue : ℕ) :
    Except Revert StETH := do
  let currentAllowance := s.allowances msgSender spender
  require (subtractedValue ≤ currentAllowance) (.reason "DECREASED_ALLOWANCE_BELOW_ZERO")
  let amount ← sub currentAllowance subtractedValue
  _approve s msgSender spender amount

/-- The token amount is returned to the caller. -/
def transferShares (msgSender recipient : Address) (sharesAmount : ℕ) :
    Except Revert (ℕ × StETH) := do
  let s ← _transferShares s msgSender recipient sharesAmount
  let tokensAmount ← getPooledEthByShares s pooled sharesAmount
  pure (tokensAmount, s)

/-- The amounts go into the `Transfer` and `TransferShares` events; computing
them may still undo the transaction. -/
def _emitTransferAfterMintingShares (sharesAmount : ℕ) : Except Revert Unit := do
  let _amount ← getPooledEthByShares s pooled sharesAmount
  pure ()

end StETH

end LidoDao
