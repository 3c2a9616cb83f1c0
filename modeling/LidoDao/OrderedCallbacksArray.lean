import LidoDao.CheckedMath
import LidoDao.Library.ShiftedArray
import LidoDao.Library.Transition

namespace LidoDao

open Evm Library.Outcome Library.ShiftedArray Library.Transition

/-- The storage of `OrderedCallbacksArray` and its immutable values. -/
structure OrderedCallbacksArray where
  voting : Address
  requiredInterface : BitVec 32
  callbacks : List Address
  deriving DecidableEq

/-- A call of the array. Which interfaces an account supports is what it answers when it is
asked. -/
structure CallbacksCall where
  sender : Address
  supportsInterface : Address → BitVec 32 → Bool

namespace OrderedCallbacksArray

def maxCallbacksCount : ℕ := 16

def invalidInterfaceId : BitVec 32 := 0xffffffff

def constructor (voting : Address) (requiredIface : BitVec 32) :
    Except Revert OrderedCallbacksArray := do
  require (requiredIface ≠ invalidInterfaceId) (.reason "INVALID_IFACE")
  require (voting ≠ 0) (.reason "VOTING_ZERO_ADDRESS")
  pure { voting, requiredInterface := requiredIface, callbacks := [] }

variable (a : OrderedCallbacksArray)

def onlyVoting (msgSender : Address) : Except Revert Unit :=
  require (msgSender = a.voting) (.reason "MSG_SENDER_MUST_BE_VOTING")

/-- The result of array accesses that are checked against its bounds. -/
def inBounds (site : String) : Option (List Address) → Except Revert (List Address)
  | some callbacks => .ok callbacks
  | none => .error (.assertion site)

/-- The new last element is zero at first. -/
def _insertCallback (c : CallbacksCall) (callback : Address) (atIndex : ℕ) :
    Except Revert OrderedCallbacksArray := do
  require (callback ≠ 0) (.reason "CALLBACK_ZERO_ADDRESS")
  require (c.supportsInterface callback a.requiredInterface) (.reason "BAD_CALLBACK_INTERFACE")
  let oldCArrayLength := a.callbacks.length
  require (atIndex ≤ oldCArrayLength) (.reason "INDEX_IS_OUT_OF_RANGE")
  require (oldCArrayLength < maxCallbacksCount) (.reason "MAX_CALLBACKS_COUNT_EXCEEDED")
  let callbacks := a.callbacks ++ [0]
  let callbacks ← inBounds "_insertCallback"
    (if 0 < oldCArrayLength then openGap atIndex oldCArrayLength callbacks else some callbacks)
  require (atIndex < callbacks.length) (.assertion "_insertCallback")
  pure { a with callbacks := callbacks.set atIndex callback }

def addCallback (c : CallbacksCall) (callback : Address) :
    Except Revert OrderedCallbacksArray := do
  a.onlyVoting c.sender
  a._insertCallback c callback a.callbacks.length

def insertCallback (c : CallbacksCall) (callback : Address) (atIndex : ℕ) :
    Except Revert OrderedCallbacksArray := do
  a.onlyVoting c.sender
  a._insertCallback c callback atIndex

def removeCallback (msgSender : Address) (atIndex : ℕ) : Except Revert OrderedCallbacksArray := do
  a.onlyVoting msgSender
  let oldCArrayLength := a.callbacks.length
  require (atIndex < oldCArrayLength) (.reason "INDEX_IS_OUT_OF_RANGE")
  let last ← Checked.sub oldCArrayLength 1
  let callbacks ← inBounds "removeCallback" (closeGap (last - atIndex) atIndex a.callbacks)
  require (callbacks ≠ []) (.assertion "removeCallback")
  pure { a with callbacks := callbacks.dropLast }

end OrderedCallbacksArray

/-- The storage of `CompositePostRebaseBeaconReceiver` and its immutable values. -/
structure CompositePostRebaseBeaconReceiver extends OrderedCallbacksArray where
  oracle : Address
  deriving DecidableEq

/-- The receiver in its surroundings, which callbacks change but for its array. -/
structure ReceiverWorld (X : Type) where
  receiver : CompositePostRebaseBeaconReceiver
  outside : X

/-- The accounts that are called back, as they are found at states `X`, and the identifier of
the interface they have. -/
structure CallbackSurroundings (X : Type) where
  processLidoOracleReport : Address → X → ℕ → ℕ → ℕ → Except Revert X
  beaconReportReceiverId : BitVec 32

inductive ReceiverEvent (X : Type)
  | addCallback (c : CallbacksCall) (callback : Address)
  | insertCallback (c : CallbacksCall) (callback : Address) (atIndex : ℕ)
  | removeCallback (msgSender : Address) (atIndex : ℕ)
  | processLidoOracleReport (msgSender : Address)
      (postTotalPooledEther preTotalPooledEther timeElapsed : ℕ)
  | outside (x : X)

namespace CompositePostRebaseBeaconReceiver

variable {X : Type} (S : CallbackSurroundings X)

def constructor (voting oracle : Address) : Except Revert CompositePostRebaseBeaconReceiver := do
  let array ← OrderedCallbacksArray.constructor voting S.beaconReportReceiverId
  require (oracle ≠ 0) (.reason "ORACLE_ZERO_ADDRESS")
  pure { array with oracle }

variable (r : CompositePostRebaseBeaconReceiver)

def onlyOracle (msgSender : Address) : Except Revert Unit :=
  require (msgSender = r.oracle) (.reason "MSG_SENDER_MUST_BE_ORACLE")

/-- The loop of `processLidoOracleReport` over the remaining indices. -/
def callBack (postTotalPooledEther preTotalPooledEther timeElapsed : ℕ) :
    List ℕ → X → Except Revert X
  | [], x => .ok x
  | brIndex :: brIndices, x =>
    match r.callbacks[brIndex]? with
    | none => .error (.assertion "processLidoOracleReport")
    | some callback => do
      let x ← S.processLidoOracleReport callback x postTotalPooledEther preTotalPooledEther
        timeElapsed
      callBack postTotalPooledEther preTotalPooledEther timeElapsed brIndices x

def processLidoOracleReport (msgSender : Address)
    (postTotalPooledEther preTotalPooledEther timeElapsed : ℕ) (x : X) : Except Revert X := do
  r.onlyOracle msgSender
  let callbacksLen := r.callbacks.length
  callBack S r postTotalPooledEther preTotalPooledEther timeElapsed (List.range callbacksLen) x

end CompositePostRebaseBeaconReceiver

namespace ReceiverWorld

variable {X : Type} (S : CallbackSurroundings X) (w : ReceiverWorld X)

def onArray (f : OrderedCallbacksArray → Except Revert OrderedCallbacksArray) :
    Except Revert (ReceiverWorld X) := do
  let array ← f w.receiver.toOrderedCallbacksArray
  pure { w with receiver := { w.receiver with toOrderedCallbacksArray := array } }

def step : ReceiverEvent X → Except Revert (ReceiverWorld X)
  | .addCallback c callback => w.onArray fun a ↦ a.addCallback c callback
  | .insertCallback c callback atIndex => w.onArray fun a ↦ a.insertCallback c callback atIndex
  | .removeCallback msgSender atIndex => w.onArray fun a ↦ a.removeCallback msgSender atIndex
  | .processLidoOracleReport msgSender postTotalPooledEther preTotalPooledEther timeElapsed => do
    let outside ← w.receiver.processLidoOracleReport S msgSender postTotalPooledEther
      preTotalPooledEther timeElapsed w.outside
    pure { w with outside }
  | .outside x => .ok { w with outside := x }

def Initial (w : ReceiverWorld X) : Prop :=
  ∃ voting oracle, CompositePostRebaseBeaconReceiver.constructor S voting oracle = .ok w.receiver

def machine : Machine (ReceiverWorld X) (ReceiverEvent X) Revert where
  initial := Initial S
  step w := w.step S

end ReceiverWorld

end LidoDao
