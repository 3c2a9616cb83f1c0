import LidoDao.Evm

namespace LidoDao

open Evm Library.Outcome

/-- The storage of `LidoExecutionLayerRewardsVault`: its immutable `LIDO`
address and the ether it holds. -/
structure ELRewardsVault where
  lido : Address
  balance : ℕ

namespace ELRewardsVault

/-- The treasury only receives recovered tokens; the constructor checks it. -/
def constructor (lido treasury : Address) (balance : ℕ) : Except Revert ELRewardsVault := do
  require (lido ≠ 0) (.reason "LIDO_ZERO_ADDRESS")
  require (treasury ≠ 0) (.reason "TREASURY_ZERO_ADDRESS")
  pure { lido, balance }

def receive (vault : ELRewardsVault) (msgValue : ℕ) : ELRewardsVault :=
  { vault with balance := vault.balance + msgValue }

/-- The state `l` of the calling pool is passed through the callback. -/
def withdrawRewards {L : Type} (vault : ELRewardsVault)
    (receiveELRewards : L → ℕ → Except Revert L) (msgSender : Address) (maxAmount : ℕ) (l : L) :
    Except Revert (ℕ × ELRewardsVault × L) := do
  require (msgSender = vault.lido) (.reason "ONLY_LIDO_CAN_WITHDRAW")
  let balance := vault.balance
  let amount := if maxAmount < balance then maxAmount else balance
  if 0 < amount then do
    let l ← receiveELRewards l amount
    pure (amount, { vault with balance := balance - amount }, l)
  else pure (amount, vault, l)

end ELRewardsVault

end LidoDao
