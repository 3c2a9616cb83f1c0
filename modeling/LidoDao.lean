import LidoDao.Library.Outcome
import LidoDao.Library.Transition
import LidoDao.Library.ByteWords
import LidoDao.Library.Ledger
import LidoDao.Evm
import LidoDao.StakeLimit
import LidoDao.StETH
import LidoDao.ELRewardsVault
import LidoDao.Lido
import LidoDao.NodeOperatorsRegistry
import LidoDao.Protocol
import LidoDao.JointSystem
import LidoDao.TokenEffects
import LidoDao.EtherBooks
import LidoDao.PoolEffects
import LidoDao.DepositEffects
import LidoDao.ReportEffects
import LidoDao.Steps
import LidoDao.PoolInvariants
import LidoDao.Solvency
import LidoDao.Asserts
import LidoDao.PooledEther
import LidoDao.Library.SharePool
import LidoDao.Library.Positions
import LidoDao.SubmitPrice
import LidoDao.FeePrice
import LidoDao.SigningKeys
import LidoDao.RegistryInvariant
import LidoDao.RewardsDistribution
import LidoDao.RegistryKeys
import LidoDao.KeyAssignment
import LidoDao.NextSigningKeys
import LidoDao.RegistrySteps
import LidoDao.JointInvariant
import LidoDao.RegistryAsserts
import LidoDao.EtherBacking
import LidoDao.DepositAgreement
import LidoDao.FeeDistribution
import LidoDao.ReportAcceptance
import LidoDao.KeyHistory
import LidoDao.KeyInvariant
import LidoDao.DepositedKeys
import LidoDao.LidoOracle
import LidoDao.Library.Ballots
import LidoDao.OracleReports
import LidoDao.OracleSteps
import LidoDao.OracleChanges
import LidoDao.OracleSafety
import LidoDao.OracleAndPool
import LidoDao.OracleQuorum
import LidoDao.OracleEpochs
import LidoDao.OracleOrder
import LidoDao.OracleProgress
import LidoDao.OracleFrames
import LidoDao.OracleTime
import LidoDao.TokenMoves
import LidoDao.TokenConsent
import LidoDao.WrappedShares
import LidoDao.RegistrySystem
import LidoDao.KeyLists
import LidoDao.AssignedKeys
import LidoDao.KeysOpIndex
import LidoDao.RemovedSlots
import LidoDao.Library.TokenBucket
import LidoDao.StakingRate
import LidoDao.DepositSecurityModule
import LidoDao.GuardianSet
import LidoDao.StakeLimitView
import LidoDao.GuardedDeposits
import LidoDao.DepositRate
import LidoDao.AttestationReplay
import LidoDao.GuardianQuorum
import LidoDao.SelfOwnedStETHBurner
import LidoDao.BurnerShares
import LidoDao.AssignmentBatches
import LidoDao.KeyRemoval
import LidoDao.StakeLimitRegrowth
import LidoDao.TransferRounding
import LidoDao.BurnLedger
import LidoDao.WrapProfit
import LidoDao.DepositContract
import LidoDao.GuardianChanges
import LidoDao.Library.ShiftedArray
import LidoDao.OrderedCallbacksArray
import LidoDao.CallbackOrder
import LidoDao.FrameTimes
import LidoDao.Library.Maxima
import LidoDao.QuorumReport
import LidoDao.PackedReports
import LidoDao.Library.ByteMemory
import LidoDao.MemUtils
import LidoDao.DepositTree
import LidoDao.DepositCommitment
import LidoDao.UnusedKeys
import LidoDao.DepositChain
import LidoDao.FrontRunning
import LidoDao.DepositProgress
import LidoDao.Library.Compounding
import LidoDao.OracleRebases
import LidoDao.SharePrice
import LidoDao.OracleCalls
import LidoDao.ReportingSystem
import LidoDao.ReportPipeline
import LidoDao.OracleFaults
import LidoDao.Library.Emission
import LidoDao.PoolLog
import LidoDao.LogErasure
import LidoDao.LogReplay
import LidoDao.AddSigningKeysPanel
import LidoDao.KeySubmission
import LidoDao.EvenAssignment
import LidoDao.GuardianAlarm
import LidoDao.DepositBatches
import LidoDao.EtherConservation
import LidoDao.CompactSignatures
import LidoDao.DepositConsent
