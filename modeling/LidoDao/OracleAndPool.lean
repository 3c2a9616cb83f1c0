import LidoDao.LidoOracle
import LidoDao.JointSystem

namespace LidoDao

open Evm Library.Outcome Library.Transition

/-- The oracle at an address, in front of the pool and a receiver. -/
def poolSurroundings {R ρ : Type} (D : Deployment) (I : INodeOperatorsRegistry R ρ)
    (oracle : Address)
    (processLidoOracleReport : Address → World R → ℕ → ℕ → ℕ → Except Revert (World R))
    (supportsReceiver : World R → Address → Bool) : OracleSurroundings (World R) where
  totalSupply w := w.lido._getTotalPooledEther
  getTotalShares w := .ok w.lido.totalShares
  handleOracleReport w beaconValidators beaconBalance :=
    Lido.handleOracleReport D I oracle beaconValidators beaconBalance w
  processLidoOracleReport := processLidoOracleReport
  supportsReceiver := supportsReceiver

/-! The small deployment, with an oracle. -/
namespace Sample

def surroundings : OracleSurroundings (World NodeOperatorsRegistry) :=
  poolSurroundings deployment (registryContract deployment layout) 2
    (fun _ w _ _ _ ↦ .ok w) fun _ _ ↦ true

def beaconSpec : BeaconSpec where
  epochsPerFrame := 10
  slotsPerEpoch := 32
  secondsPerSlot := 12
  genesisTime := 1000

def oracleStart : OracleWorld (World NodeOperatorsRegistry) where
  oracle :=
    match LidoOracle.blank.initializeOracle beaconSpec 1000 500 with
    | .ok oracle => oracle
    | .error _ => LidoOracle.blank
  outside := { start with lido := { start.lido with activeFlag := true } }
  pushes := []

def oracleCall (sender : Address) (second : UInt64) (m : OracleMessage) :
    OracleEvent (World NodeOperatorsRegistry) :=
  .call { sender, blockNumber := 10, canPerform := fun _ _ ↦ true
          timestamp := beaconSpec.genesisTime + second } m

def oracleReport (sender : Address) (second : UInt64) (epochId : ℕ) (beaconBalance : UInt64) :
    OracleEvent (World NodeOperatorsRegistry) :=
  oracleCall sender second (.reportBeacon epochId beaconBalance 0)

theorem oracleStart_initial : (OracleWorld.machine surroundings).initial oracleStart := by
  refine ⟨⟨beaconSpec, 1000, 500, ?_⟩, rfl⟩
  have hok : (LidoOracle.blank.initializeOracle beaconSpec 1000 500).isOk = true := by
    decide +kernel
  obtain ⟨oracle, horacle⟩ := exists_of_isOk hok
  rw [oracleStart, horacle]

end Sample

end LidoDao
