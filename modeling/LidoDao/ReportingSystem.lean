import LidoDao.BurnerShares
import LidoDao.CallbackOrder
import LidoDao.OracleAndPool
import LidoDao.OracleCalls

namespace LidoDao

open Evm Library.Outcome Library.Transition

/-- Where a report goes: from the oracle to the pool, and on to the receiver and the burner. -/
structure ReportingSites (D : Deployment) where
  oracle : Address
  oracle_ne_lido : oracle ≠ D.lido
  receiver : Address
  receiver_ne_zero : receiver ≠ 0
  burner : HolderContract D
  oracle_ne_burner : oracle ≠ burner.address
  receiver_ne_burner : receiver ≠ burner.address
  beaconReportReceiverId : BitVec 32

/-- The contracts behind the oracle. -/
structure BehindOracle (R : Type) where
  burn : BurnWorld R
  receiver : CompositePostRebaseBeaconReceiver

/-- What others decide during a call: the roles of the burner in the pool, how a callback that
is not the burner's reacts to a report, and an oracle that is not ours. Such a callback looks
at everything around the burner; then it reverts, or calls what it likes. -/
structure ReportContext {D : Deployment} (N : ReportingSites D) (R ρ : Type) where
  blockNumber : ℕ
  burnerRoles : Lido.Role → List ℕ → Bool
  reacts : Address → BurnWorld R → ℕ → ℕ → ℕ → Except Revert (List (BurnEvent N.burner ρ))
  supportsReceiver : Address → Bool
  otherReceiver : Address → Except Revert Address

namespace ReportingSites

variable {R ρ : Type} {D : Deployment} (I : INodeOperatorsRegistry R ρ) (N : ReportingSites D)
  (k : ReportContext N R ρ)

def burnerCall (beaconReportReceiver msgSender : Address) : BurnerCall where
  sender := msgSender
  blockNumber := k.blockNumber
  canPerform := k.burnerRoles
  getBeaconReportReceiver oracle :=
    if oracle = N.oracle then .ok beaconReportReceiver else k.otherReceiver oracle

/-- A callback that is not the burner's makes its calls one after the other; it does not
call the oracle or the receiver back in the middle of theirs. -/
def otherCallback (callback : Address) (w : BurnWorld R)
    (postTotalPooledEther preTotalPooledEther timeElapsed : ℕ) : Except Revert (BurnWorld R) := do
  let calls ← k.reacts callback w postTotalPooledEther preTotalPooledEther timeElapsed
  execute (BurnWorld.machine I N.burner) w calls

/-- A callback called by the oracle or by the receiver. -/
def callback (beaconReportReceiver msgSender : Address) : CallbackSurroundings (BurnWorld R) where
  processLidoOracleReport callback w postTotalPooledEther preTotalPooledEther timeElapsed :=
    if callback = N.burner.address then
      SelfOwnedStETHBurner.processLidoOracleReport I N.burner
        (N.burnerCall k beaconReportReceiver msgSender) w
    else
      N.otherCallback I k callback w postTotalPooledEther preTotalPooledEther timeElapsed
  beaconReportReceiverId := N.beaconReportReceiverId

def surroundings : OracleSurroundings (BehindOracle R) where
  totalSupply x := x.burn.pool.lido._getTotalPooledEther
  getTotalShares x := .ok x.burn.pool.lido.totalShares
  handleOracleReport x beaconValidators beaconBalance := do
    let pool ← Lido.handleOracleReport D I N.oracle beaconValidators beaconBalance x.burn.pool
    pure { x with burn := { x.burn with pool } }
  processLidoOracleReport beaconReportReceiver x postTotalPooledEther preTotalPooledEther
      timeElapsed := do
    let burn ←
      if beaconReportReceiver = N.receiver then
        x.receiver.processLidoOracleReport (N.callback I k beaconReportReceiver N.receiver)
          N.oracle postTotalPooledEther preTotalPooledEther timeElapsed x.burn
      else
        (N.callback I k beaconReportReceiver N.oracle).processLidoOracleReport
          beaconReportReceiver x.burn postTotalPooledEther preTotalPooledEther timeElapsed
    pure { x with burn }
  supportsReceiver _ := k.supportsReceiver

end ReportingSites

/-- A call of the oracle, the burner or the receiver's array, or anything else around the pool. -/
inductive ReportingEvent {D : Deployment} (N : ReportingSites D) (R ρ : Type)
  | oracle (k : ReportContext N R ρ) (c : OracleCall) (m : OracleMessage)
  | pool (e : Event D ρ)
      (he : ∀ c m, e = .lido c m → c.sender ≠ N.burner.address ∧ c.sender ≠ N.oracle)
  | burner (k : ReportContext N R ρ) (msgSender : Address) (m : SelfOwnedStETHBurner.Message)
  | addCallback (c : CallbacksCall) (callback : Address)
  | insertCallback (c : CallbacksCall) (callback : Address) (atIndex : ℕ)
  | removeCallback (msgSender : Address) (atIndex : ℕ)

namespace ReportingWorld

variable {R ρ : Type} {D : Deployment} (I : INodeOperatorsRegistry R ρ) (N : ReportingSites D)
  (w : OracleWorld (BehindOracle R))

def onBurn (f : BurnWorld R → Except Revert (BurnWorld R)) :
    Except Revert (OracleWorld (BehindOracle R)) := do
  let burn ← f w.outside.burn
  pure { w with outside := { w.outside with burn } }

def onArray (f : OrderedCallbacksArray → Except Revert OrderedCallbacksArray) :
    Except Revert (OracleWorld (BehindOracle R)) := do
  let array ← f w.outside.receiver.toOrderedCallbacksArray
  let receiver := { w.outside.receiver with toOrderedCallbacksArray := array }
  pure { w with outside := { w.outside with receiver } }

def step : ReportingEvent N R ρ → Except Revert (OracleWorld (BehindOracle R))
  | .oracle k c m => w.handle (N.surroundings I k) c m
  | .pool e _ => onBurn w fun burn ↦ do
    let pool ← World.step D I burn.pool e
    pure { burn with pool }
  | .burner k msgSender m => onBurn w fun burn ↦
    SelfOwnedStETHBurner.handle I N.burner
      (N.burnerCall k w.oracle.beaconReportReceiver msgSender) burn m
  | .addCallback c callback => onArray w fun a ↦ a.addCallback c callback
  | .insertCallback c callback atIndex => onArray w fun a ↦ a.insertCallback c callback atIndex
  | .removeCallback msgSender atIndex => onArray w fun a ↦ a.removeCallback msgSender atIndex

/-- Oracle, receiver and burner are deployed for a pool that may have been running before. -/
def Initial : Prop :=
  w.Initial ∧ BurnWorld.Initial I N.burner w.outside.burn ∧
  ∃ k : ReportContext N R ρ, ∃ beaconReportReceiver voting,
    CompositePostRebaseBeaconReceiver.constructor
      (N.callback I k beaconReportReceiver N.receiver) voting N.oracle = .ok w.outside.receiver

def machine : Machine (OracleWorld (BehindOracle R)) (ReportingEvent N R ρ) Revert where
  initial := Initial I N
  step := step I N

end ReportingWorld

end LidoDao
