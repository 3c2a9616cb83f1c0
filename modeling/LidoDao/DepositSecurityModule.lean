import LidoDao.CheckedMath

namespace LidoDao

open Evm Library.Outcome Library.ByteWords

/-- The hash function and the precompile that finds out who signed; it answers zero for
what is no signature. -/
structure Precompiles where
  keccak256 : Bytes → BitVec 256
  ecrecover : BitVec 256 → BitVec 8 → BitVec 256 → BitVec 256 → Address

/-- A short signature: the top bit of `vs` stands for `v`. -/
structure Signature where
  r : BitVec 256
  vs : BitVec 256
  deriving DecidableEq

namespace ECDSA

variable (P : Precompiles)

def recover (hash : BitVec 256) (v : BitVec 8) (r s : BitVec 256) : Except Revert Address := do
  require (s ≤ 0x7FFFFFFFFFFFFFFFFFFFFFFFFFFFFFFF5D576E7357A4501DDFE92F46681B20A0)
    (.reason "ECDSA: invalid signature 's' value")
  require (v = 27 ∨ v = 28) (.reason "ECDSA: invalid signature 'v' value")
  let signer := P.ecrecover hash v r s
  require (signer ≠ 0) (.reason "ECDSA: invalid signature")
  pure signer

def recoverShort (hash r vs : BitVec 256) : Except Revert Address :=
  let s := vs &&& 0x7fffffffffffffffffffffffffffffffffffffffffffffffffffffffffffffff
  let v := ((vs >>> 255) + 27).setWidth 8
  recover P hash v r s

end ECDSA

/-- The storage of `DepositSecurityModule` and its immutable values. -/
structure DepositSecurityModule where
  attestMessagePrefix : BitVec 256
  pauseMessagePrefix : BitVec 256
  lido : Address
  depositContract : Address
  nodeOperatorsRegistry : Address
  maxDepositsPerBlock : ℕ
  minDepositBlockDistance : ℕ
  pauseIntentValidityPeriodBlocks : ℕ
  owner : Address
  guardians : List Address
  guardianIndicesOneBased : Address → ℕ
  quorum : ℕ
  paused : Bool
  lastDepositBlock : ℕ

/-- What the module sees of the chain: who calls it and when, the hashes of the blocks
and the root that the deposit contract answers. -/
structure ModuleCall where
  sender : Address
  blockNumber : ℕ
  blockhash : ℕ → BitVec 256
  depositRoot : BitVec 256

namespace DepositSecurityModule

variable (P : Precompiles) (m : DepositSecurityModule)

section Settings

def onlyOwner (msgSender : Address) : Except Revert Unit :=
  require (msgSender = m.owner) (.reason "not an owner")

def _setOwner (newValue : Address) : Except Revert DepositSecurityModule := do
  require (newValue ≠ 0)
    (.reason "invalid value for owner: must be different from zero address")
  pure { m with owner := newValue }

def _setNodeOperatorsRegistry (newValue : Address) : DepositSecurityModule :=
  { m with nodeOperatorsRegistry := newValue }

def _setPauseIntentValidityPeriodBlocks (newValue : ℕ) : Except Revert DepositSecurityModule := do
  require (0 < newValue)
    (.reason "invalid value for pauseIntentValidityPeriodBlocks: must be greater then 0")
  pure { m with pauseIntentValidityPeriodBlocks := newValue }

def _setMaxDeposits (newValue : ℕ) : DepositSecurityModule :=
  { m with maxDepositsPerBlock := newValue }

def _setMinDepositBlockDistance (newValue : ℕ) : Except Revert DepositSecurityModule := do
  require (0 < newValue)
    (.reason "invalid value for minDepositBlockDistance: must be greater then 0")
  pure (if newValue ≠ m.minDepositBlockDistance then
    { m with minDepositBlockDistance := newValue } else m)

def _setGuardianQuorum (newValue : ℕ) : DepositSecurityModule := { m with quorum := newValue }

end Settings

def blank (attestMessagePrefix pauseMessagePrefix : BitVec 256) (lido depositContract : Address) :
    DepositSecurityModule where
  attestMessagePrefix := attestMessagePrefix
  pauseMessagePrefix := pauseMessagePrefix
  lido := lido
  depositContract := depositContract
  nodeOperatorsRegistry := 0
  maxDepositsPerBlock := 0
  minDepositBlockDistance := 0
  pauseIntentValidityPeriodBlocks := 0
  owner := 0
  guardians := []
  guardianIndicesOneBased _ := 0
  quorum := 0
  paused := false
  lastDepositBlock := 0

def constructor (msgSender lido depositContract nodeOperatorsRegistry : Address)
    (networkId maxDepositsPerBlock minDepositBlockDistance pauseIntentValidityPeriodBlocks : ℕ) :
    Except Revert DepositSecurityModule := do
  require (lido ≠ 0) (.reason "LIDO_ZERO_ADDRESS")
  require (depositContract ≠ 0) (.reason "DEPOSIT_CONTRACT_ZERO_ADDRESS")
  let attestMessagePrefix := P.keccak256 (
    toBytes 32 0x1085395a994e25b1b3d0ea7937b7395495fb405b31c7d22dbc3976a6bd01f2bf ++
    toBytes 32 networkId)
  let pauseMessagePrefix := P.keccak256 (
    toBytes 32 0x9c4c40205558f12027f21204d6218b8006985b7a6359bcab15404bcc3e3fa122 ++
    toBytes 32 networkId)
  let m := blank attestMessagePrefix pauseMessagePrefix lido depositContract
  let m ← m._setOwner msgSender
  let m := m._setNodeOperatorsRegistry nodeOperatorsRegistry
  let m := m._setMaxDeposits maxDepositsPerBlock
  let m ← m._setMinDepositBlockDistance minDepositBlockDistance
  m._setPauseIntentValidityPeriodBlocks pauseIntentValidityPeriodBlocks

section Guardians

def _isGuardian (addr : Address) : Bool := 0 < m.guardianIndicesOneBased addr

def _getGuardianIndex (addr : Address) : ℤ := m.guardianIndicesOneBased addr - 1

def _addGuardian (addr : Address) : Except Revert DepositSecurityModule := do
  require (addr ≠ 0) (.reason "guardian zero address")
  require (!m._isGuardian addr) (.reason "duplicate address")
  let guardians := m.guardians ++ [addr]
  pure { m with
    guardians
    guardianIndicesOneBased := Function.update m.guardianIndicesOneBased addr guardians.length }

/-- The loop of `addGuardians`. -/
def _addGuardians : List Address → DepositSecurityModule → Except Revert DepositSecurityModule
  | [], m => .ok m
  | addr :: addresses, m => do
    let m ← m._addGuardian addr
    _addGuardians addresses m

def addGuardian (addr : Address) (newQuorum : ℕ) : Except Revert DepositSecurityModule := do
  let m ← m._addGuardian addr
  pure (m._setGuardianQuorum newQuorum)

def addGuardians (addresses : List Address) (newQuorum : ℕ) :
    Except Revert DepositSecurityModule := do
  let m ← _addGuardians addresses m
  pure (m._setGuardianQuorum newQuorum)

/-- An array access out of bounds stops the transaction. -/
def guardianAt (i : ℕ) : Except Revert Address :=
  match m.guardians[i]? with
  | some addr => .ok addr
  | none => .error (.assertion "removeGuardian")

def removeGuardian (addr : Address) (newQuorum : ℕ) : Except Revert DepositSecurityModule := do
  let indexOneBased := m.guardianIndicesOneBased addr
  require (indexOneBased ≠ 0) (.reason "not a guardian")
  let totalGuardians := m.guardians.length
  require (indexOneBased ≤ totalGuardians) (.assertion "removeGuardian")
  let m ← if indexOneBased ≠ totalGuardians then do
      let addrToMove ← m.guardianAt (totalGuardians - 1)
      pure { m with
        guardians := m.guardians.set (indexOneBased - 1) addrToMove
        guardianIndicesOneBased :=
          Function.update m.guardianIndicesOneBased addrToMove indexOneBased }
    else pure m
  let m := { m with
    guardianIndicesOneBased := Function.update m.guardianIndicesOneBased addr 0
    guardians := m.guardians.dropLast }
  pure (m._setGuardianQuorum newQuorum)

end Guardians

section Pausing

def pauseMessageHash (blockNumber : ℕ) : BitVec 256 :=
  P.keccak256 (toBytes 32 m.pauseMessagePrefix.toNat ++ toBytes 32 blockNumber)

def pauseDeposits (c : ModuleCall) (blockNumber : ℕ) (sig : Signature) :
    Except Revert DepositSecurityModule :=
  if m.paused then pure m
  else do
    if m._getGuardianIndex c.sender = -1 then do
      let guardianAddr ← ECDSA.recoverShort P (m.pauseMessageHash P blockNumber) sig.r sig.vs
      require (m._getGuardianIndex guardianAddr ≠ -1) (.reason "invalid signature")
    let age ← Checked.sub c.blockNumber blockNumber
    require (age ≤ m.pauseIntentValidityPeriodBlocks) (.reason "pause intent expired")
    pure { m with paused := true }

def unpauseDeposits : DepositSecurityModule := if m.paused then { m with paused := false } else m

end Pausing

section Deposits

/-- What the guardians sign. -/
def attestMessageHash (depositRoot : BitVec 256) (keysOpIndex blockNumber : ℕ)
    (blockHash : BitVec 256) : BitVec 256 :=
  P.keccak256 (toBytes 32 m.attestMessagePrefix.toNat ++ toBytes 32 depositRoot.toNat ++
    toBytes 32 keysOpIndex ++ toBytes 32 blockNumber ++ toBytes 32 blockHash.toNat)

/-- The loop of `_verifySignatures`. -/
def verifySignatures (msgHash : BitVec 256) :
    List Signature → Address → Except Revert Unit
  | [], _ => .ok ()
  | sig :: sigs, prevSignerAddr => do
    let signerAddr ← ECDSA.recoverShort P msgHash sig.r sig.vs
    require (m._isGuardian signerAddr) (.reason "invalid signature")
    require (prevSignerAddr.id < signerAddr.id) (.reason "signatures not sorted")
    verifySignatures msgHash sigs signerAddr

def _verifySignatures (depositRoot : BitVec 256) (keysOpIndex blockNumber : ℕ)
    (blockHash : BitVec 256) (sigs : List Signature) : Except Revert Unit :=
  m.verifySignatures P (m.attestMessageHash P depositRoot keysOpIndex blockNumber blockHash) sigs 0

/-- The arguments of `depositBufferedEther`. -/
structure Attestation where
  depositRoot : BitVec 256
  keysOpIndex : ℕ
  blockNumber : ℕ
  blockHash : BitVec 256
  sortedGuardianSignatures : List Signature

/-- The registry at an address answers its index; the pool deposits up to a number and
changes the world `W`. -/
def depositBufferedEther {W : Type} (getKeysOpIndex : Address → Except Revert ℕ)
    (depositUpTo : ℕ → Except Revert W) (c : ModuleCall) (a : Attestation) :
    Except Revert (DepositSecurityModule × W) := do
  require (a.depositRoot = c.depositRoot) (.reason "deposit root changed")
  require (!m.paused) (.reason "deposits are paused")
  require (0 < m.quorum ∧ m.quorum ≤ a.sortedGuardianSignatures.length)
    (.reason "no guardian quorum")
  let distance ← Checked.sub c.blockNumber m.lastDepositBlock
  require (m.minDepositBlockDistance ≤ distance) (.reason "too frequent deposits")
  require (a.blockHash ≠ 0 ∧ c.blockhash a.blockNumber = a.blockHash)
    (.reason "unexpected block hash")
  let onchainKeysOpIndex ← getKeysOpIndex m.nodeOperatorsRegistry
  require (a.keysOpIndex = onchainKeysOpIndex) (.reason "keys op index changed")
  m._verifySignatures P a.depositRoot a.keysOpIndex a.blockNumber a.blockHash
    a.sortedGuardianSignatures
  let w ← depositUpTo m.maxDepositsPerBlock
  pure ({ m with lastDepositBlock := c.blockNumber }, w)

/-- The distance is looked at only where deposits are not paused and a quorum is set. -/
def canDeposit (blockNumber : ℕ) : Except Revert Bool :=
  if !m.paused ∧ 0 < m.quorum then do
    let distance ← Checked.sub blockNumber m.lastDepositBlock
    pure (m.minDepositBlockDistance ≤ distance)
  else pure false

end Deposits

/-- The external functions that change nothing but the module. -/
inductive Message
  | setOwner (newValue : Address)
  | setNodeOperatorsRegistry (newValue : Address)
  | setPauseIntentValidityPeriodBlocks (newValue : ℕ)
  | setMaxDeposits (newValue : ℕ)
  | setMinDepositBlockDistance (newValue : ℕ)
  | setGuardianQuorum (newValue : ℕ)
  | addGuardian (addr : Address) (newQuorum : ℕ)
  | addGuardians (addresses : List Address) (newQuorum : ℕ)
  | removeGuardian (addr : Address) (newQuorum : ℕ)
  | pauseDeposits (blockNumber : ℕ) (sig : Signature)
  | unpauseDeposits
  | setLastDepositBlock (newLastDepositBlock : ℕ)

def handle (c : ModuleCall) : Message → Except Revert DepositSecurityModule
  | .setOwner newValue => do
    m.onlyOwner c.sender
    m._setOwner newValue
  | .setNodeOperatorsRegistry newValue => do
    m.onlyOwner c.sender
    pure (m._setNodeOperatorsRegistry newValue)
  | .setPauseIntentValidityPeriodBlocks newValue => do
    m.onlyOwner c.sender
    m._setPauseIntentValidityPeriodBlocks newValue
  | .setMaxDeposits newValue => do
    m.onlyOwner c.sender
    pure (m._setMaxDeposits newValue)
  | .setMinDepositBlockDistance newValue => do
    m.onlyOwner c.sender
    m._setMinDepositBlockDistance newValue
  | .setGuardianQuorum newValue => do
    m.onlyOwner c.sender
    pure (m._setGuardianQuorum newValue)
  | .addGuardian addr newQuorum => do
    m.onlyOwner c.sender
    m.addGuardian addr newQuorum
  | .addGuardians addresses newQuorum => do
    m.onlyOwner c.sender
    m.addGuardians addresses newQuorum
  | .removeGuardian addr newQuorum => do
    m.onlyOwner c.sender
    m.removeGuardian addr newQuorum
  | .pauseDeposits blockNumber sig => m.pauseDeposits P c blockNumber sig
  | .unpauseDeposits => do
    m.onlyOwner c.sender
    pure m.unpauseDeposits
  | .setLastDepositBlock newLastDepositBlock => do
    m.onlyOwner c.sender
    pure { m with lastDepositBlock := newLastDepositBlock }

end DepositSecurityModule

end LidoDao
