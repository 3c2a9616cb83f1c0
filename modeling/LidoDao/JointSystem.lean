import LidoDao.Protocol
import LidoDao.SigningKeys

namespace LidoDao

open Evm

/-- A call of the registry by anyone but the pool. -/
structure RegistryCall (D : Deployment) extends Call NodeOperatorsRegistry.Role where
  sender_ne_lido : sender ≠ D.lido
  message : NodeOperatorsRegistry.Message

/-- The repository's registry, initialized with the pool, behind the interface
the pool uses. -/
def registryContract (D : Deployment) (L : SigningKeyLayout) :
    INodeOperatorsRegistry NodeOperatorsRegistry (RegistryCall D) where
  initial r := r = NodeOperatorsRegistry.initializeRegistry D.lido
  assignNextSigningKeys r numKeys := r.assignNextSigningKeys L D.lido numKeys
  getRewardsDistribution r totalRewardShares := r.getRewardsDistribution totalRewardShares
  trimUnusedKeys r := r.trimUnusedKeys D.lido
  call r c := r.handle L c.toCall c.message

def jointSystem (D : Deployment) (L : SigningKeyLayout) :
    Library.Transition.Machine (World NodeOperatorsRegistry) (Event D (RegistryCall D)) Revert :=
  World.machine D (registryContract D L)

/-! A small deployment, for concrete runs. -/
namespace Sample

open Library.Transition

def deployment : Deployment where
  lido := 1
  lido_ne_zero := by decide
  sha256 := List.length
  allowRecoverability _ := true

theorem five_ne_lido : (5 : Address) ≠ deployment.lido := by decide

theorem six_ne_lido : (6 : Address) ≠ deployment.lido := by decide

theorem nine_ne_lido : (9 : Address) ≠ deployment.lido := by decide

theorem ten_ne_lido : (10 : Address) ≠ deployment.lido := by decide

def call (sender : Address) (h : sender ≠ 1) (m : LidoMessage) :
    Event deployment (RegistryCall deployment) :=
  .lido { sender, sender_ne_lido := h, blockNumber := 10, canPerform := fun _ _ ↦ true
          depositAccepts := fun _ _ ↦ true, recoveryVault := 9
          recoveryVault_ne_lido := nine_ne_lido, recoveryAccepts := true, tokenTransfers := true } m

def admin (m : LidoMessage) : Event deployment (RegistryCall deployment) :=
  call 5 five_ne_lido m

def report (beaconValidators beaconBalance : ℕ) : Event deployment (RegistryCall deployment) :=
  call 2 (by decide) (.handleOracleReport beaconValidators beaconBalance)

def registry (m : NodeOperatorsRegistry.Message) : Event deployment (RegistryCall deployment) :=
  .registry { sender := 5, sender_ne_lido := five_ne_lido, blockNumber := 10
              canPerform := fun _ _ ↦ true, message := m }

def start : World NodeOperatorsRegistry where
  lido := { Lido.blank 0 with oracle := 2, treasury := 3, insuranceFund := 4 }
  registry := NodeOperatorsRegistry.initializeRegistry 1
  vaults _ := none
  deposits := []

def depositRun : List (Event deployment (RegistryCall deployment)) := [
  admin .resume,
  admin (.setWithdrawalCredentials 7),
  admin (.setFee 1000),
  admin (.setFeeDistribution 5000 2000 3000),
  registry (.addNodeOperator "first" 11),
  registry (.setNodeOperatorStakingLimit 0 10),
  registry (.addSigningKeys 0 2 (List.replicate 96 1) (List.replicate 192 2)),
  admin (.submit 0 (70 * 10 ^ 18))]

theorem start_reachable : Reachable (jointSystem deployment layout) start :=
  .initial ⟨⟨0, 2, 3, 4, rfl⟩, rfl, rfl, rfl⟩

theorem reachable_of_run {l : List (Event deployment (RegistryCall deployment))}
    {p : World NodeOperatorsRegistry → Bool}
    (h : reaches (jointSystem deployment layout) start l p = true) :
    ∃ w, Reachable (jointSystem deployment layout) w ∧ p w = true :=
  start_reachable.of_reaches h

end Sample

end LidoDao
