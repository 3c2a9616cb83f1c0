import Mathlib.Logic.Function.Basic
import LidoDao.Evm

namespace LidoDao

open Evm Library.Outcome SafeMath Library.ByteWords

structure NodeOperator where
  active : Bool
  rewardAddress : Address
  name : String
  stakingLimit : ℕ
  stoppedValidators : ℕ
  totalSigningKeys : ℕ
  usedSigningKeys : ℕ
  deriving DecidableEq

/-- The storage of `NodeOperatorsRegistry`; the raw slots hold the signing keys. -/
structure NodeOperatorsRegistry where
  operators : ℕ → NodeOperator
  totalOperatorsCount : ℕ
  activeOperatorsCount : ℕ
  lido : Address
  keysOpIndex : ℕ
  slots : ℕ → ℕ

def NodeOperatorsRegistry.maxNodeOperatorsCount : ℕ := 200

/-- An operator and a position in its list that the registry has room for. -/
def KeyPlace (operatorId keyIndex : ℕ) : Prop :=
  operatorId < NodeOperatorsRegistry.maxNodeOperatorsCount ∧ keyIndex < 2 ^ 64

/-- Where signing keys live: the slots of a key start at a hash of the operator
and the position, and the five slots of distinct keys do not meet. The memory is
what an unallocated byte happens to hold. -/
structure SigningKeyLayout where
  signingKeyOffset : ℕ → ℕ → ℕ
  disjoint : ∀ {o i k o' i' k' : ℕ}, KeyPlace o i → KeyPlace o' i' → k < 5 → k' < 5 →
    signingKeyOffset o i + k = signingKeyOffset o' i' + k' → o = o' ∧ i = i'
  memory : ℕ → UInt8

namespace NodeOperatorsRegistry

inductive Role
  | manageSigningKeys
  | addNodeOperatorRole
  | setNodeOperatorActiveRole
  | setNodeOperatorNameRole
  | setNodeOperatorAddressRole
  | setNodeOperatorLimitRole
  | reportStoppedValidatorsRole
  deriving DecidableEq

def pubkeyLength : ℕ := 48

def signatureLength : ℕ := 96

def uint64Max : ℕ := 2 ^ 64 - 1

def initializeRegistry (lido : Address) : NodeOperatorsRegistry where
  operators _ :=
    { active := false, rewardAddress := 0, name := "", stakingLimit := 0,
      stoppedValidators := 0, totalSigningKeys := 0, usedSigningKeys := 0 }
  totalOperatorsCount := 0
  activeOperatorsCount := 0
  lido := lido
  keysOpIndex := 0
  slots _ := 0

variable (L : SigningKeyLayout) (r : NodeOperatorsRegistry)

def onlyLido (msgSender : Address) : Except Revert Unit :=
  require (msgSender = r.lido) (.reason "APP_AUTH_FAILED")

def validAddress (a : Address) : Except Revert Unit :=
  require (a ≠ 0) (.reason "EMPTY_ADDRESS")

def operatorExists (id : ℕ) : Except Revert Unit :=
  require (id < r.totalOperatorsCount) (.reason "NODE_OPERATOR_NOT_FOUND")

def setOperator (id : ℕ) (f : NodeOperator → NodeOperator) : NodeOperatorsRegistry :=
  { r with operators := Function.update r.operators id (f (r.operators id)) }

def _increaseKeysOpIndex : NodeOperatorsRegistry := { r with keysOpIndex := r.keysOpIndex + 1 }

section Operators

def addNodeOperator (name : String) (rewardAddress : Address) :
    Except Revert NodeOperatorsRegistry := do
  validAddress rewardAddress
  let id := r.totalOperatorsCount
  require (id < maxNodeOperatorsCount) (.reason "MAX_NODE_OPERATORS_COUNT_EXCEEDED")
  let totalOperatorsCount ← add id 1
  let activeOperatorsCount ← add r.activeOperatorsCount 1
  let r := { r with totalOperatorsCount, activeOperatorsCount }
  pure (r.setOperator id fun o ↦
    { o with active := true, name := name, rewardAddress := rewardAddress, stakingLimit := 0 })

def setNodeOperatorActive (id : ℕ) (active : Bool) : Except Revert NodeOperatorsRegistry := do
  operatorExists r id
  require ((r.operators id).active ≠ active) (.reason "NODE_OPERATOR_ACTIVITY_ALREADY_SET")
  let r := r._increaseKeysOpIndex
  let activeOperatorsCount ←
    if active then add r.activeOperatorsCount 1 else sub r.activeOperatorsCount 1
  let r := { r with activeOperatorsCount }
  pure (r.setOperator id fun o ↦ { o with active := active })

/-- The names are compared by their hashes. -/
def setNodeOperatorName (id : ℕ) (name : String) : Except Revert NodeOperatorsRegistry := do
  operatorExists r id
  require ((r.operators id).name ≠ name) (.reason "NODE_OPERATOR_NAME_IS_THE_SAME")
  pure (r.setOperator id fun o ↦ { o with name := name })

def setNodeOperatorRewardAddress (id : ℕ) (rewardAddress : Address) :
    Except Revert NodeOperatorsRegistry := do
  operatorExists r id
  validAddress rewardAddress
  require ((r.operators id).rewardAddress ≠ rewardAddress)
    (.reason "NODE_OPERATOR_ADDRESS_IS_THE_SAME")
  pure (r.setOperator id fun o ↦ { o with rewardAddress := rewardAddress })

def setNodeOperatorStakingLimit (id : ℕ) (stakingLimit : UInt64) :
    Except Revert NodeOperatorsRegistry := do
  operatorExists r id
  require ((r.operators id).stakingLimit ≠ stakingLimit.toNat)
    (.reason "NODE_OPERATOR_STAKING_LIMIT_IS_THE_SAME")
  let r := r._increaseKeysOpIndex
  pure (r.setOperator id fun o ↦ { o with stakingLimit := stakingLimit.toNat })

def reportStoppedValidators (id : ℕ) (stoppedIncrement : UInt64) :
    Except Revert NodeOperatorsRegistry := do
  operatorExists r id
  require (0 ≠ stoppedIncrement) (.reason "EMPTY_VALUE")
  let stoppedValidators ← SafeMath64.add (r.operators id).stoppedValidators stoppedIncrement.toNat
  require (stoppedValidators ≤ (r.operators id).usedSigningKeys)
    (.reason "STOPPED_MORE_THAN_LAUNCHED")
  pure (r.setOperator id fun o ↦ { o with stoppedValidators := stoppedValidators })

def trimOperator (operatorId : ℕ) : NodeOperatorsRegistry :=
  let totalSigningKeys := (r.operators operatorId).totalSigningKeys
  let usedSigningKeys := (r.operators operatorId).usedSigningKeys
  if totalSigningKeys ≠ usedSigningKeys then
    r.setOperator operatorId fun o ↦ { o with totalSigningKeys := usedSigningKeys }
  else r

def trimUnusedKeys (msgSender : Address) : Except Revert NodeOperatorsRegistry := do
  onlyLido r msgSender
  pure ((List.range r.totalOperatorsCount).foldl trimOperator r)

end Operators

section SigningKeys

/-- The word at an offset of a byte array in memory; bytes past its end are
whatever the memory holds. -/
def mload (bs : Bytes) (offset : ℕ) : ℕ :=
  fromBytes ((List.range 32).map fun k ↦ (bs[offset + k]?).getD (L.memory (offset + k)))

def keyExcessBits : ℕ := (2 * 32 - pubkeyLength) * 8

def _isEmptySigningKey (key : Bytes) : Except Revert Bool := do
  require (key.length = pubkeyLength) (.assertion "_isEmptySigningKey")
  let k1 := mload L key 0
  let k2 := mload L key 32
  pure (0 = k1 ∧ 0 = k2 >>> keyExcessBits : Bool)

def to64 (v : ℕ) : Except Revert ℕ := do
  require (v ≤ uint64Max) (.assertion "to64")
  pure v

def sstore (slots : ℕ → ℕ) (slot value : ℕ) : ℕ → ℕ := Function.update slots slot value

def _storeSigningKey (operatorId keyIndex : ℕ) (key signature : Bytes) :
    Except Revert NodeOperatorsRegistry := do
  require (key.length = pubkeyLength) (.assertion "_storeSigningKey")
  require (signature.length = signatureLength) (.assertion "_storeSigningKey")
  let offset := L.signingKeyOffset operatorId keyIndex
  let slots := sstore r.slots offset (mload L key 0)
  let slots := sstore slots (offset + 1) ((mload L key 32 >>> keyExcessBits) <<< keyExcessBits)
  let slots := (List.range (signatureLength / 32)).foldl
    (fun slots k ↦ sstore slots (offset + 2 + k) (mload L signature (32 * k))) slots
  pure { r with slots }

def _deleteSigningKey (operatorId keyIndex : ℕ) : NodeOperatorsRegistry :=
  let offset := L.signingKeyOffset operatorId keyIndex
  let slots := (List.range ((pubkeyLength + signatureLength) / 32 + 1)).foldl
    (fun slots k ↦ sstore slots (offset + k) 0) r.slots
  { r with slots }

def _loadSigningKey (operatorId keyIndex : ℕ) : Bytes × Bytes :=
  let offset := L.signingKeyOffset operatorId keyIndex
  let tmpKey := toBytes 32 (r.slots offset) ++ toBytes 32 (r.slots (offset + 1))
  (slice tmpKey 0 pubkeyLength,
    (List.range (signatureLength / 32)).flatMap fun k ↦ toBytes 32 (r.slots (offset + 2 + k)))

def getSigningKey (operatorId index : ℕ) : Except Revert ((Bytes × Bytes) × Bool) := do
  operatorExists r operatorId
  require (index < (r.operators operatorId).totalSigningKeys) (.reason "KEY_NOT_FOUND")
  let key := _loadSigningKey L r operatorId index
  pure (key, index < (r.operators operatorId).usedSigningKeys)

/-- The loop of `_addSigningKeys` over the remaining positions; the number of
keys before the call is not touched by it. -/
def storeKeys (operatorId totalSigningKeys : ℕ) (pubkeys signatures : Bytes) :
    List ℕ → NodeOperatorsRegistry → Except Revert NodeOperatorsRegistry
  | [], r => .ok r
  | i :: is, r => do
    let key ← bytesSlice pubkeys (i * pubkeyLength) pubkeyLength
    let empty ← _isEmptySigningKey L key
    require (!empty) (.reason "EMPTY_KEY")
    let sig ← bytesSlice signatures (i * signatureLength) signatureLength
    let r ← _storeSigningKey L r operatorId (totalSigningKeys + i) key sig
    storeKeys operatorId totalSigningKeys pubkeys signatures is r

def _addSigningKeys (operatorId quantity : ℕ) (pubkeys signatures : Bytes) :
    Except Revert NodeOperatorsRegistry := do
  operatorExists r operatorId
  require (quantity ≠ 0) (.reason "NO_KEYS")
  let pubkeysLength ← mul quantity pubkeyLength
  require (pubkeys.length = pubkeysLength) (.reason "INVALID_LENGTH")
  let signaturesLength ← mul quantity signatureLength
  require (signatures.length = signaturesLength) (.reason "INVALID_LENGTH")
  let r := r._increaseKeysOpIndex
  let r ← storeKeys L operatorId (r.operators operatorId).totalSigningKeys pubkeys signatures
    (List.range quantity) r
  let quantity64 ← to64 quantity
  let totalSigningKeys ←
    SafeMath64.add (r.operators operatorId).totalSigningKeys quantity64
  pure (r.setOperator operatorId fun o ↦ { o with totalSigningKeys := totalSigningKeys })

def _removeSigningKey (operatorId index : ℕ) : Except Revert NodeOperatorsRegistry := do
  operatorExists r operatorId
  require (index < (r.operators operatorId).totalSigningKeys) (.reason "KEY_NOT_FOUND")
  require ((r.operators operatorId).usedSigningKeys ≤ index) (.reason "KEY_WAS_USED")
  let r := r._increaseKeysOpIndex
  let lastIndex ← SafeMath64.sub (r.operators operatorId).totalSigningKeys 1
  let r ←
    if index < lastIndex then
      let last := _loadSigningKey L r operatorId lastIndex
      _storeSigningKey L r operatorId index last.1 last.2
    else pure r
  let r := _deleteSigningKey L r operatorId lastIndex
  let totalSigningKeys ← SafeMath64.sub (r.operators operatorId).totalSigningKeys 1
  pure (r.setOperator operatorId fun o ↦
    { o with
      totalSigningKeys := totalSigningKeys
      stakingLimit := if index < o.stakingLimit then index % 2 ^ 64 else o.stakingLimit })

/-- The loop of `removeSigningKeys`, from the last position down. -/
def removeKeys (operatorId index : ℕ) :
    ℕ → NodeOperatorsRegistry → Except Revert NodeOperatorsRegistry
  | 0, r => .ok r
  | n + 1, r => do
    let r ← _removeSigningKey L r operatorId (index + n)
    removeKeys operatorId index n r

def _removeSigningKeys (operatorId index amount : ℕ) : Except Revert NodeOperatorsRegistry := do
  let _last ← add index amount
  removeKeys L operatorId index amount r

/-- The check of the `OperatorBH` functions. -/
def operatorOnly (msgSender : Address) (operatorId : ℕ) : Except Revert Unit :=
  require (msgSender = (r.operators operatorId).rewardAddress) (.reason "APP_AUTH_FAILED")

end SigningKeys

section Assignment

structure DepositLookupCacheEntry where
  id : ℕ
  stakingLimit : ℕ
  stoppedValidators : ℕ
  totalSigningKeys : ℕ
  usedSigningKeys : ℕ
  initialUsedSigningKeys : ℕ
  deriving DecidableEq

def cacheEntry (operatorId : ℕ) : DepositLookupCacheEntry where
  id := operatorId
  stakingLimit := (r.operators operatorId).stakingLimit
  stoppedValidators := (r.operators operatorId).stoppedValidators
  totalSigningKeys := (r.operators operatorId).totalSigningKeys
  usedSigningKeys := (r.operators operatorId).usedSigningKeys
  initialUsedSigningKeys := (r.operators operatorId).usedSigningKeys

/-- The loop of `_loadOperatorCache`; writing past the allocated size fails. -/
def fillCache (size : ℕ) :
    List ℕ → List DepositLookupCacheEntry → Except Revert (List DepositLookupCacheEntry)
  | [], cache => .ok cache
  | id :: ids, cache =>
    if (r.operators id).active then do
      require (cache.length < size) (.assertion "_loadOperatorCache")
      fillCache size ids (cache ++ [cacheEntry r id])
    else fillCache size ids cache

def _loadOperatorCache : Except Revert (List DepositLookupCacheEntry) :=
  if 0 = r.activeOperatorsCount then .ok []
  else do
    let cache ← fillCache r r.activeOperatorsCount (List.range r.totalOperatorsCount) []
    require (cache.length = r.activeOperatorsCount) (.reason "INCOSISTENT_ACTIVE_COUNT")
    pure cache

/-- The inner loop of `assignNextSigningKeys`, from a position on. The best index
is the length of the cache as long as no operator was found. -/
def findBest (notFound : ℕ) :
    ℕ → List DepositLookupCacheEntry → ℕ × ℕ → Except Revert (ℕ × ℕ)
  | _, [], best => .ok best
  | idx, entry :: entries, best => do
    require (entry.usedSigningKeys ≤ entry.totalSigningKeys) (.assertion "assignNextSigningKeys")
    if entry.usedSigningKeys = entry.totalSigningKeys then
      findBest notFound (idx + 1) entries best
    else do
      let stake ← sub entry.usedSigningKeys entry.stoppedValidators
      if entry.stakingLimit < stake + 1 then findBest notFound (idx + 1) entries best
      else if best.1 = notFound ∨ stake < best.2 then
        findBest notFound (idx + 1) entries (idx, stake)
      else findBest notFound (idx + 1) entries best

def useKey (entry : DepositLookupCacheEntry) : DepositLookupCacheEntry :=
  { entry with usedSigningKeys := entry.usedSigningKeys + 1 }

/-- The outer loop, with the number of keys still wanted; it returns the number
of keys assigned. -/
def assignKeys :
    ℕ → List DepositLookupCacheEntry → Except Revert (ℕ × List DepositLookupCacheEntry)
  | 0, cache => .ok (0, cache)
  | wanted + 1, cache => do
    let (bestOperatorIdx, _) ← findBest cache.length 0 cache (cache.length, 0)
    match cache[bestOperatorIdx]? with
    | none => .ok (0, cache)
    | some entry => do
      require (entry.usedSigningKeys < uint64Max) (.assertion "assignNextSigningKeys")
      let (numAssignedKeys, cache) ←
        assignKeys wanted (cache.set bestOperatorIdx (useKey entry))
      pure (numAssignedKeys + 1, cache)

def unsafeAllocateBytes (len : ℕ) : Bytes := (List.range len).map L.memory

/-- `MemUtils.copyBytes`, at its documented contract; in memory it meets it up to the end of the
range copied to. -/
def copyBytes (src dst : Bytes) (dstStart : ℕ) : Except Revert Bytes := do
  require (dstStart + src.length ≤ dst.length) (.reason "BYTES_ARRAY_OUT_OF_BOUNDS")
  pure (splice dst dstStart src)

/-- The keys being returned, with the number already copied. -/
structure KeyBuffers where
  pubkeys : Bytes
  signatures : Bytes
  numLoadedKeys : ℕ

/-- The inner output loop over the remaining key positions of an operator. -/
def copyKeys (operatorId : ℕ) : List ℕ → KeyBuffers → Except Revert KeyBuffers
  | [], out => .ok out
  | keyIndex :: keyIndices, out => do
    let (pubkey, signature) := _loadSigningKey L r operatorId keyIndex
    let pubkeys ← copyBytes pubkey out.pubkeys (out.numLoadedKeys * pubkeyLength)
    let signatures ← copyBytes signature out.signatures (out.numLoadedKeys * signatureLength)
    copyKeys operatorId keyIndices
      { pubkeys, signatures, numLoadedKeys := out.numLoadedKeys + 1 }

def newKeyIndices (entry : DepositLookupCacheEntry) : List ℕ :=
  List.range' entry.initialUsedSigningKeys
    (entry.usedSigningKeys - entry.initialUsedSigningKeys)

/-- After the output loop, or on leaving it early. -/
def finishOutput (numAssignedKeys : ℕ) (out : KeyBuffers) :
    Except Revert ((Bytes × Bytes) × NodeOperatorsRegistry) := do
  let r := r._increaseKeysOpIndex
  require (out.numLoadedKeys = numAssignedKeys) (.assertion "assignNextSigningKeys")
  pure ((out.pubkeys, out.signatures), r)

/-- The output loop over the remaining cache entries. A single assigned key is
returned from inside it, without going through the buffers. -/
def outputKeys (numAssignedKeys : ℕ) : List DepositLookupCacheEntry → KeyBuffers →
    NodeOperatorsRegistry → Except Revert ((Bytes × Bytes) × NodeOperatorsRegistry)
  | [], out, r => finishOutput r numAssignedKeys out
  | entry :: entries, out, r =>
    if entry.usedSigningKeys = entry.initialUsedSigningKeys then
      outputKeys numAssignedKeys entries out r
    else
      let r := r.setOperator entry.id fun o ↦
        { o with usedSigningKeys := entry.usedSigningKeys % 2 ^ 64 }
      match numAssignedKeys, newKeyIndices entry with
      | 1, keyIndex :: _ =>
        .ok (_loadSigningKey L r entry.id keyIndex, r._increaseKeysOpIndex)
      | _, keyIndices => do
        let out ← copyKeys L r entry.id keyIndices out
        if out.numLoadedKeys = numAssignedKeys then finishOutput r numAssignedKeys out
        else outputKeys numAssignedKeys entries out r

def assignNextSigningKeys (msgSender : Address) (numKeys : ℕ) :
    Except Revert ((Bytes × Bytes) × NodeOperatorsRegistry) := do
  onlyLido r msgSender
  let cache ← _loadOperatorCache r
  if 0 = cache.length then pure (([], []), r)
  else do
    let (numAssignedKeys, cache) ← assignKeys numKeys cache
    if numAssignedKeys = 0 then pure (([], []), r)
    else
      let allocated := if 1 < numAssignedKeys then numAssignedKeys else 0
      outputKeys L numAssignedKeys cache
        { pubkeys := unsafeAllocateBytes L (allocated * pubkeyLength)
          signatures := unsafeAllocateBytes L (allocated * signatureLength)
          numLoadedKeys := 0 } r

end Assignment

section Rewards

/-- The two arrays being filled, the next index and the number of validators. -/
structure Distribution where
  recipients : List Address
  shares : List ℕ
  idx : ℕ
  activeValidatorsTotal : ℕ

/-- The first loop of `getRewardsDistribution`; writing past the end of the
arrays fails. -/
def countValidators : List ℕ → Distribution → Except Revert Distribution
  | [], d => .ok d
  | id :: ids, d =>
    if (r.operators id).active then do
      let activeValidators ←
        SafeMath64.sub (r.operators id).usedSigningKeys (r.operators id).stoppedValidators
      let activeValidatorsTotal ← add d.activeValidatorsTotal activeValidators
      require (d.idx < d.recipients.length) (.assertion "getRewardsDistribution")
      require (d.idx < d.shares.length) (.assertion "getRewardsDistribution")
      countValidators ids
        { recipients := d.recipients.set d.idx (r.operators id).rewardAddress
          shares := d.shares.set d.idx activeValidators
          idx := d.idx + 1
          activeValidatorsTotal }
    else countValidators ids d

/-- The second loop of `getRewardsDistribution`. -/
def scaleShares (perValidatorReward : ℕ) : List ℕ → Except Revert (List ℕ)
  | [] => .ok []
  | share :: shares => do
    let scaled ← mul share perValidatorReward
    let rest ← scaleShares perValidatorReward shares
    pure (scaled :: rest)

def getRewardsDistribution (totalRewardShares : ℕ) :
    Except Revert (List Address × List ℕ) := do
  let d ← countValidators r (List.range r.totalOperatorsCount)
    { recipients := List.replicate r.activeOperatorsCount 0
      shares := List.replicate r.activeOperatorsCount 0
      idx := 0
      activeValidatorsTotal := 0 }
  if d.activeValidatorsTotal = 0 then pure (d.recipients, d.shares)
  else do
    let perValidatorReward ← div totalRewardShares d.activeValidatorsTotal
    let shares ← scaleShares perValidatorReward d.shares
    pure (d.recipients, shares)

end Rewards

/-- The external functions that change the registry. -/
inductive Message
  | addNodeOperator (name : String) (rewardAddress : Address)
  | setNodeOperatorActive (id : ℕ) (active : Bool)
  | setNodeOperatorName (id : ℕ) (name : String)
  | setNodeOperatorRewardAddress (id : ℕ) (rewardAddress : Address)
  | setNodeOperatorStakingLimit (id : ℕ) (stakingLimit : UInt64)
  | reportStoppedValidators (id : ℕ) (stoppedIncrement : UInt64)
  | trimUnusedKeys
  | addSigningKeys (operatorId quantity : ℕ) (pubkeys signatures : Bytes)
  | addSigningKeysOperatorBH (operatorId quantity : ℕ) (pubkeys signatures : Bytes)
  | removeSigningKey (operatorId index : ℕ)
  | removeSigningKeys (operatorId index amount : ℕ)
  | removeSigningKeyOperatorBH (operatorId index : ℕ)
  | removeSigningKeysOperatorBH (operatorId index amount : ℕ)
  | assignNextSigningKeys (numKeys : ℕ)

def handle (c : Call Role) (r : NodeOperatorsRegistry) :
    Message → Except Revert NodeOperatorsRegistry
  | .addNodeOperator name rewardAddress => do
    c.auth .addNodeOperatorRole []
    addNodeOperator r name rewardAddress
  | .setNodeOperatorActive id active => do
    c.auth .setNodeOperatorActiveRole [id, if active then 1 else 0]
    setNodeOperatorActive r id active
  | .setNodeOperatorName id name => do
    c.auth .setNodeOperatorNameRole [id]
    setNodeOperatorName r id name
  | .setNodeOperatorRewardAddress id rewardAddress => do
    c.auth .setNodeOperatorAddressRole [id, rewardAddress.id]
    setNodeOperatorRewardAddress r id rewardAddress
  | .setNodeOperatorStakingLimit id stakingLimit => do
    c.auth .setNodeOperatorLimitRole [id, stakingLimit.toNat]
    setNodeOperatorStakingLimit r id stakingLimit
  | .reportStoppedValidators id stoppedIncrement => do
    c.auth .reportStoppedValidatorsRole [id, stoppedIncrement.toNat]
    reportStoppedValidators r id stoppedIncrement
  | .trimUnusedKeys => trimUnusedKeys r c.sender
  | .addSigningKeys operatorId quantity pubkeys signatures => do
    c.auth .manageSigningKeys [operatorId]
    _addSigningKeys L r operatorId quantity pubkeys signatures
  | .addSigningKeysOperatorBH operatorId quantity pubkeys signatures => do
    operatorOnly r c.sender operatorId
    _addSigningKeys L r operatorId quantity pubkeys signatures
  | .removeSigningKey operatorId index => do
    c.auth .manageSigningKeys [operatorId]
    _removeSigningKey L r operatorId index
  | .removeSigningKeys operatorId index amount => do
    c.auth .manageSigningKeys [operatorId]
    _removeSigningKeys L r operatorId index amount
  | .removeSigningKeyOperatorBH operatorId index => do
    operatorOnly r c.sender operatorId
    _removeSigningKey L r operatorId index
  | .removeSigningKeysOperatorBH operatorId index amount => do
    operatorOnly r c.sender operatorId
    _removeSigningKeys L r operatorId index amount
  | .assignNextSigningKeys numKeys => do
    let (_, r) ← assignNextSigningKeys L r c.sender numKeys
    pure r

end NodeOperatorsRegistry

end LidoDao
