import LidoDao.Evm
import LidoDao.Library.Transition

namespace LidoDao

open Evm Library.Outcome Library.Transition

/-! Reports packed into a word, with their number in the lowest 16 bits. -/
namespace ReportUtils

def countOutmask : ℕ := 0xFFFFFFFFFFFFFFFFFFFFFFFF0000

def encode (beaconBalance : UInt64) (beaconValidators : UInt32) : ℕ :=
  beaconBalance.toNat <<< 48 ||| beaconValidators.toNat <<< 16

def decode (value : ℕ) : UInt64 × UInt32 := ((value >>> 48).toUInt64, (value >>> 16).toUInt32)

def decodeWithCount (value : ℕ) : UInt64 × UInt32 × UInt16 :=
  ((value >>> 48).toUInt64, (value >>> 16).toUInt32, value.toUInt16)

def isDifferent (value that : ℕ) : Bool := value &&& countOutmask != that

def getCount (value : ℕ) : UInt16 := value.toUInt16

end ReportUtils

structure BeaconSpec where
  epochsPerFrame : UInt64
  slotsPerEpoch : UInt64
  secondsPerSlot : UInt64
  genesisTime : UInt64
  deriving DecidableEq

/-- The storage of `LidoOracle`. The beacon specification is packed into a word. -/
structure LidoOracle where
  members : List Address
  currentReportVariants : List ℕ
  quorum : ℕ
  beaconSpec : BitVec 256
  contractVersion : ℕ
  expectedEpochId : ℕ
  reportsBitmask : BitVec 256
  postCompletedTotalPooledEther : ℕ
  preCompletedTotalPooledEther : ℕ
  lastCompletedEpochId : ℕ
  timeElapsed : ℕ
  beaconReportReceiver : Address
  allowedBeaconBalanceAnnualRelativeIncrease : ℕ
  allowedBeaconBalanceRelativeDecrease : ℕ
  deriving DecidableEq

/-- A report that was pushed to the pool, with the balance in the pool's unit. -/
structure Push where
  epochId : ℕ
  beaconBalanceEth1 : ℕ
  beaconValidators : ℕ
  timeElapsed : ℕ
  deriving DecidableEq

/-- The pool and the receiver as the oracle sees them, at states `X`. -/
structure OracleSurroundings (X : Type) where
  totalSupply : X → Except Revert ℕ
  getTotalShares : X → Except Revert ℕ
  handleOracleReport : X → ℕ → ℕ → Except Revert X
  processLidoOracleReport : Address → X → ℕ → ℕ → ℕ → Except Revert X
  supportsReceiver : X → Address → Bool

/-- The oracle with what surrounds it and the reports pushed so far. -/
structure OracleWorld (X : Type) where
  oracle : LidoOracle
  outside : X
  pushes : List Push

namespace LidoOracle

inductive Role
  | manageMembers
  | manageQuorum
  | setBeaconSpec
  | setReportBoundaries
  | setBeaconReportReceiver
  deriving DecidableEq

def maxMembers : ℕ := 256

def denominationOffset : ℕ := 10 ^ 9

def memberNotFound : ℕ := wordLimit - 1

variable (o : LidoOracle)

section BeaconSpec

def _getBeaconSpec : BeaconSpec where
  epochsPerFrame := .ofBitVec ((o.beaconSpec >>> 192).setWidth 64)
  slotsPerEpoch := .ofBitVec ((o.beaconSpec >>> 128).setWidth 64)
  secondsPerSlot := .ofBitVec ((o.beaconSpec >>> 64).setWidth 64)
  genesisTime := .ofBitVec (o.beaconSpec.setWidth 64)

def _setBeaconSpec (spec : BeaconSpec) : Except Revert LidoOracle := do
  require (0 < spec.epochsPerFrame) (.reason "BAD_EPOCHS_PER_FRAME")
  require (0 < spec.slotsPerEpoch) (.reason "BAD_SLOTS_PER_EPOCH")
  require (0 < spec.secondsPerSlot) (.reason "BAD_SECONDS_PER_SLOT")
  require (0 < spec.genesisTime) (.reason "BAD_GENESIS_TIME")
  let data : BitVec 256 :=
    spec.epochsPerFrame.toBitVec.setWidth 256 <<< 192 |||
      spec.slotsPerEpoch.toBitVec.setWidth 256 <<< 128 |||
      spec.secondsPerSlot.toBitVec.setWidth 256 <<< 64 |||
      spec.genesisTime.toBitVec.setWidth 256
  pure { o with beaconSpec := data }

/-- The difference wraps on 256-bit words, the product on 64-bit ones. -/
def _getCurrentEpochId (spec : BeaconSpec) (time : UInt64) : Except Revert ℕ := do
  let secondsPerEpoch := spec.slotsPerEpoch * spec.secondsPerSlot
  require (secondsPerEpoch ≠ 0) (.assertion "_getCurrentEpochId")
  pure ((time.toNat + wordLimit - spec.genesisTime.toNat) % wordLimit / secondsPerEpoch.toNat)

def _getFrameFirstEpochId (epochId : ℕ) (spec : BeaconSpec) : Except Revert ℕ := do
  require (spec.epochsPerFrame ≠ 0) (.assertion "_getFrameFirstEpochId")
  pure (epochId / spec.epochsPerFrame.toNat * spec.epochsPerFrame.toNat)

end BeaconSpec

def blank : LidoOracle where
  members := []
  currentReportVariants := []
  quorum := 0
  beaconSpec := 0
  contractVersion := 0
  expectedEpochId := 0
  reportsBitmask := 0
  postCompletedTotalPooledEther := 0
  preCompletedTotalPooledEther := 0
  lastCompletedEpochId := 0
  timeElapsed := 0
  beaconReportReceiver := 0
  allowedBeaconBalanceAnnualRelativeIncrease := 0
  allowedBeaconBalanceRelativeDecrease := 0

/-- `initialize`, but for the address of the pool. -/
def initializeOracle (spec : BeaconSpec) (allowedBeaconBalanceAnnualRelativeIncrease
    allowedBeaconBalanceRelativeDecrease : ℕ) : Except Revert LidoOracle := do
  require (o.contractVersion = 0) (.reason "BASE_VERSION_MUST_BE_ZERO")
  let o ← o._setBeaconSpec spec
  let o := { o with
    quorum := 1, allowedBeaconBalanceAnnualRelativeIncrease, allowedBeaconBalanceRelativeDecrease }
  let spec := o._getBeaconSpec
  let first ← _getFrameFirstEpochId 0 spec
  pure { o with
    expectedEpochId := (first + spec.epochsPerFrame.toNat) % wordLimit
    contractVersion := 3 }

def finalizeUpgrade_v3 : Except Revert LidoOracle := do
  require (o.contractVersion = 1) (.reason "WRONG_BASE_VERSION")
  pure { o with contractVersion := 3 }

section Members

def _getMemberId (member : Address) : ℕ := (o.members.idxOf? member).getD memberNotFound

def addOracleMember (member : Address) : Except Revert LidoOracle := do
  require (0 ≠ member) (.reason "BAD_ARGUMENT")
  require (memberNotFound = o._getMemberId member) (.reason "MEMBER_EXISTS")
  require (o.members.length < maxMembers) (.reason "TOO_MANY_MEMBERS")
  pure { o with members := o.members ++ [member] }

/-- The last member moves to the position of the removed one. -/
def removeOracleMember (member : Address) : Except Revert LidoOracle := do
  let index := o._getMemberId member
  require (index ≠ memberNotFound) (.reason "MEMBER_NOT_FOUND")
  let last := o.members.length - 1
  let members ←
    if index ≠ last then
      match o.members[last]? with
      | none => .error (.assertion "removeOracleMember")
      | some lastMember => pure (o.members.set index lastMember)
    else pure o.members
  pure { o with members := members.dropLast, reportsBitmask := 0, currentReportVariants := [] }

end Members

section Quorum

/-- The loop of `_getQuorumReport` from position `i` on, with the position of the
most frequent report, the number of further ones as frequent and their count. -/
def mostFrequent : ℕ → List ℕ → ℕ × ℕ × UInt16 → ℕ × ℕ × UInt16
  | _, [], best => best
  | i, report :: reports, (maxind, repeated, maxval) =>
    let cur := ReportUtils.getCount report
    if maxval ≤ cur then
      if cur = maxval then mostFrequent (i + 1) reports (maxind, repeated + 1, maxval)
      else mostFrequent (i + 1) reports (i, 0, cur)
    else mostFrequent (i + 1) reports (maxind, repeated, maxval)

def _getQuorumReport (quorum : ℕ) : Except Revert (Bool × ℕ) :=
  match o.currentReportVariants with
  | [] => .ok (false, 0)
  | [report] => .ok (quorum ≤ (ReportUtils.getCount report).toNat, report)
  | reports =>
    let (maxind, repeated, maxval) := mostFrequent 0 reports (0, 0, 0)
    match reports[maxind]? with
    | none => .error (.assertion "_getQuorumReport")
    | some report => .ok (quorum ≤ maxval.toNat ∧ repeated = 0, report)

end Quorum

def _clearReportingAndAdvanceTo (epochId : ℕ) : LidoOracle :=
  { o with reportsBitmask := 0, expectedEpochId := epochId, currentReportVariants := [] }

def _reportSanityChecks (postTotalPooledEther preTotalPooledEther timeElapsed : ℕ) :
    Except Revert Unit :=
  if preTotalPooledEther ≤ postTotalPooledEther then do
    let increase ← SafeMath.mul (10000 * (365 * 86400)) (postTotalPooledEther - preTotalPooledEther)
    let allowed ← SafeMath.mul o.allowedBeaconBalanceAnnualRelativeIncrease preTotalPooledEther
    let allowed ← SafeMath.mul allowed timeElapsed
    require (increase ≤ allowed) (.reason "ALLOWED_BEACON_BALANCE_INCREASE")
  else do
    let decrease ← SafeMath.mul 10000 (preTotalPooledEther - postTotalPooledEther)
    let allowed ← SafeMath.mul o.allowedBeaconBalanceRelativeDecrease preTotalPooledEther
    require (decrease ≤ allowed) (.reason "ALLOWED_BEACON_BALANCE_DECREASE")

end LidoOracle

/-- A call of the oracle; a block's timestamp has 64 bits. -/
structure OracleCall extends Call LidoOracle.Role where
  timestamp : UInt64

inductive OracleMessage
  | setAllowedBeaconBalanceAnnualRelativeIncrease (value : ℕ)
  | setAllowedBeaconBalanceRelativeDecrease (value : ℕ)
  | setBeaconReportReceiver (addr : Address)
  | setBeaconSpec (spec : BeaconSpec)
  | finalizeUpgrade_v3
  | addOracleMember (member : Address)
  | removeOracleMember (member : Address)
  | setQuorum (quorum : ℕ)
  | reportBeacon (epochId : ℕ) (beaconBalance : UInt64) (beaconValidators : UInt32)

/-- The oracle is called, or something happens around it. -/
inductive OracleEvent (X : Type)
  | call (c : OracleCall) (m : OracleMessage)
  | outside (x : X)

namespace OracleWorld

open LidoOracle

variable {X : Type} (S : OracleSurroundings X) (w : OracleWorld X)

/-- Epochs and times elapsed are computed on words, without checks. -/
def _push (epochId beaconBalanceEth1 beaconValidators : ℕ) (spec : BeaconSpec) :
    Except Revert (OracleWorld X) := do
  let o := w.oracle._clearReportingAndAdvanceTo
    ((epochId + spec.epochsPerFrame.toNat) % wordLimit)
  let prevTotalPooledEther ← S.totalSupply w.outside
  let outside ← S.handleOracleReport w.outside beaconValidators beaconBalanceEth1
  let postTotalPooledEther ← S.totalSupply outside
  let timeElapsed := (epochId + wordLimit - o.lastCompletedEpochId) % wordLimit *
    spec.slotsPerEpoch.toNat * spec.secondsPerSlot.toNat % wordLimit
  let o := { o with
    preCompletedTotalPooledEther := prevTotalPooledEther
    postCompletedTotalPooledEther := postTotalPooledEther
    timeElapsed
    lastCompletedEpochId := epochId }
  o._reportSanityChecks postTotalPooledEther prevTotalPooledEther timeElapsed
  let _totalShares ← S.getTotalShares outside
  let outside ←
    if o.beaconReportReceiver ≠ 0 then
      S.processLidoOracleReport o.beaconReportReceiver outside postTotalPooledEther
        prevTotalPooledEther timeElapsed
    else pure outside
  let completed : Push := { epochId, beaconBalanceEth1, beaconValidators, timeElapsed }
  pure { oracle := o, outside, pushes := w.pushes ++ [completed] }

def setQuorum (quorum : ℕ) : Except Revert (OracleWorld X) := do
  require (0 ≠ quorum) (.reason "QUORUM_WONT_BE_MADE")
  let oldQuorum := w.oracle.quorum
  let w := { w with oracle := { w.oracle with quorum } }
  if quorum < oldQuorum then do
    let (isQuorum, report) ← w.oracle._getQuorumReport quorum
    if isQuorum then
      let (beaconBalance, beaconValidators) := ReportUtils.decode report
      w._push S w.oracle.expectedEpochId (denominationOffset * beaconBalance.toNat)
        beaconValidators.toNat w.oracle._getBeaconSpec
    else pure w
  else pure w

/-- The first variant that is not different from the report, or their number. -/
def matchingVariant (variants : List ℕ) (report : ℕ) : ℕ :=
  variants.findIdx fun variant ↦ !ReportUtils.isDifferent variant report

def reportBeacon (msgSender : Address) (time : UInt64) (epochId : ℕ) (beaconBalance : UInt64)
    (beaconValidators : UInt32) : Except Revert (OracleWorld X) := do
  let spec := w.oracle._getBeaconSpec
  let expectedEpoch := w.oracle.expectedEpochId
  require (expectedEpoch ≤ epochId) (.reason "EPOCH_IS_TOO_OLD")
  let o ←
    if expectedEpoch < epochId then do
      let currentEpoch ← _getCurrentEpochId spec time
      let frameFirst ← _getFrameFirstEpochId currentEpoch spec
      require (epochId = frameFirst) (.reason "UNEXPECTED_EPOCH")
      pure (w.oracle._clearReportingAndAdvanceTo epochId)
    else pure w.oracle
  let beaconBalanceEth1 := denominationOffset * beaconBalance.toNat
  let index := o._getMemberId msgSender
  require (index ≠ memberNotFound) (.reason "MEMBER_NOT_FOUND")
  let bitMask := o.reportsBitmask
  let mask := 1#256 <<< index
  require (bitMask &&& mask = 0) (.reason "ALREADY_SUBMITTED")
  let o := { o with reportsBitmask := bitMask ||| mask }
  let report := ReportUtils.encode beaconBalance beaconValidators
  let quorum := o.quorum
  let i := matchingVariant o.currentReportVariants report
  let w := { w with oracle := o }
  match o.currentReportVariants[i]? with
  | some variant =>
    if quorum ≤ (ReportUtils.getCount variant + 1).toNat then
      w._push S epochId beaconBalanceEth1 beaconValidators.toNat spec
    else
      pure { w with oracle := { o with
        currentReportVariants := o.currentReportVariants.set i ((variant + 1) % wordLimit) } }
  | none =>
    if quorum = 1 then w._push S epochId beaconBalanceEth1 beaconValidators.toNat spec
    else
      pure { w with oracle := { o with
        currentReportVariants := o.currentReportVariants ++ [report + 1] } }

def onOracle (f : LidoOracle → Except Revert LidoOracle) : Except Revert (OracleWorld X) := do
  let oracle ← f w.oracle
  pure { w with oracle }

def handle (c : OracleCall) : OracleMessage → Except Revert (OracleWorld X)
  | .setAllowedBeaconBalanceAnnualRelativeIncrease value => do
    c.auth .setReportBoundaries []
    w.onOracle fun o ↦ pure { o with allowedBeaconBalanceAnnualRelativeIncrease := value }
  | .setAllowedBeaconBalanceRelativeDecrease value => do
    c.auth .setReportBoundaries []
    w.onOracle fun o ↦ pure { o with allowedBeaconBalanceRelativeDecrease := value }
  | .setBeaconReportReceiver addr => do
    c.auth .setBeaconReportReceiver []
    require (addr ≠ 0 → S.supportsReceiver w.outside addr) (.reason "BAD_BEACON_REPORT_RECEIVER")
    w.onOracle fun o ↦ pure { o with beaconReportReceiver := addr }
  | .setBeaconSpec spec => do
    c.auth .setBeaconSpec []
    w.onOracle fun o ↦ o._setBeaconSpec spec
  | .finalizeUpgrade_v3 => w.onOracle fun o ↦ o.finalizeUpgrade_v3
  | .addOracleMember member => do
    c.auth .manageMembers []
    w.onOracle fun o ↦ o.addOracleMember member
  | .removeOracleMember member => do
    c.auth .manageMembers []
    w.onOracle fun o ↦ o.removeOracleMember member
  | .setQuorum quorum => do
    c.auth .manageQuorum []
    w.setQuorum S quorum
  | .reportBeacon epochId beaconBalance beaconValidators =>
    w.reportBeacon S c.sender c.timestamp epochId beaconBalance beaconValidators

def step : OracleEvent X → Except Revert (OracleWorld X)
  | .call c m => w.handle S c m
  | .outside x => .ok { w with outside := x }

/-- The oracle freshly initialized, with nothing pushed yet. -/
def Initial (w : OracleWorld X) : Prop :=
  (∃ spec allowedIncrease allowedDecrease,
    LidoOracle.blank.initializeOracle spec allowedIncrease allowedDecrease = .ok w.oracle) ∧
  w.pushes = []

def machine : Machine (OracleWorld X) (OracleEvent X) Revert where
  initial := Initial
  step w := w.step S

end OracleWorld

end LidoDao
