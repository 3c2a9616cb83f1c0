import LidoDao.GuardianSet
import LidoDao.KeysOpIndex

namespace LidoDao

open Evm Library.Outcome Library.Transition NodeOperatorsRegistry

/-- Where the module and the registry are, and what the chain computes with. -/
structure Guarding where
  dsm : Address
  registry : Address
  precompiles : Precompiles

/-- The pool and its registry behind the security module. -/
structure GuardedWorld where
  dsm : DepositSecurityModule
  world : World NodeOperatorsRegistry

/-- A call of `depositBufferedEther`. The module calls the pool in the same transaction; an
address that is not the registry's answers its index as it likes. -/
structure GuardedCall (D : Deployment) (G : Guarding) extends ModuleCall where
  pool : LidoCall D
  pool_sender : pool.sender = G.dsm
  pool_block : pool.blockNumber = blockNumber
  getKeysOpIndex : Address → Except Revert ℕ

/-- Everything that can happen. The module calls the pool only to deposit. -/
inductive GuardedEvent (D : Deployment) (G : Guarding)
  | world (e : Event D (RegistryCall D)) (hsender : ∀ c m, e = .lido c m → c.sender ≠ G.dsm)
  | dsm (c : ModuleCall) (m : DepositSecurityModule.Message)
  | deposit (c : GuardedCall D G) (a : DepositSecurityModule.Attestation)

namespace GuardedWorld

variable (D : Deployment) (L : SigningKeyLayout) (G : Guarding)

def getKeysOpIndex (c : GuardedCall D G) (s : GuardedWorld) (addr : Address) : Except Revert ℕ :=
  if addr = G.registry then .ok s.world.registry.keysOpIndex else c.getKeysOpIndex addr

def step (s : GuardedWorld) : GuardedEvent D G → Except Revert GuardedWorld
  | .world e _ => do
    let world ← (jointSystem D L).step s.world e
    pure { s with world }
  | .dsm c m => do
    let dsm ← s.dsm.handle G.precompiles c m
    pure { s with dsm }
  | .deposit c a => do
    let (dsm, world) ← s.dsm.depositBufferedEther G.precompiles (s.getKeysOpIndex D G c)
      (fun maxDeposits ↦
        (jointSystem D L).step s.world (.lido c.pool (.depositBufferedEtherUpTo maxDeposits)))
      c.toModuleCall a
    pure { dsm, world }

/-- The module is deployed for a pool that may have been running before. -/
def Initial (s : GuardedWorld) : Prop :=
  (∃ msgSender depositContract registry networkId maxDeposits distance validity,
    DepositSecurityModule.constructor G.precompiles msgSender D.lido depositContract registry
      networkId maxDeposits distance validity = .ok s.dsm) ∧
  Reachable (jointSystem D L) s.world

end GuardedWorld

def guardedSystem (D : Deployment) (L : SigningKeyLayout) (G : Guarding) :
    Machine GuardedWorld (GuardedEvent D G) Revert where
  initial := GuardedWorld.Initial D L G
  step := GuardedWorld.step D L G

variable {D : Deployment} {L : SigningKeyLayout} {G : Guarding}

namespace DepositSecurityModule

variable {P : Precompiles} {m m' : DepositSecurityModule} {W : Type}
  {getKeysOpIndex : Address → Except Revert ℕ} {depositUpTo : ℕ → Except Revert W}
  {c : ModuleCall} {a : Attestation} {w : W}

theorem depositBufferedEther_eq_ok :
    m.depositBufferedEther P getKeysOpIndex depositUpTo c a = .ok (m', w) ↔
      a.depositRoot = c.depositRoot ∧ m.paused = false ∧
      (0 < m.quorum ∧ m.quorum ≤ a.sortedGuardianSignatures.length) ∧
      m.lastDepositBlock ≤ c.blockNumber ∧
      m.minDepositBlockDistance ≤ c.blockNumber - m.lastDepositBlock ∧
      (a.blockHash ≠ 0 ∧ c.blockhash a.blockNumber = a.blockHash) ∧
      getKeysOpIndex m.nodeOperatorsRegistry = .ok a.keysOpIndex ∧
      m._verifySignatures P a.depositRoot a.keysOpIndex a.blockNumber a.blockHash
        a.sortedGuardianSignatures = .ok () ∧
      depositUpTo m.maxDepositsPerBlock = .ok w ∧
      m' = { m with lastDepositBlock := c.blockNumber } := by
  simp only [depositBufferedEther, bind_eq_ok, require_eq_ok, exists_const, Checked.sub_eq_ok,
    pure_eq, Except.ok.injEq, Prod.mk.injEq, Bool.not_eq_true']
  constructor
  · intro h
    obtain ⟨hroot, hpaused, hquorum, _, ⟨hlast, rfl⟩, hdistance, hhash, _, hindex, rfl, _,
      hverify, _, hw, rfl, rfl⟩ := h
    exact ⟨hroot, hpaused, hquorum, hlast, hdistance, hhash, hindex, hverify, hw, rfl⟩
  · intro h
    obtain ⟨hroot, hpaused, hquorum, hlast, hdistance, hhash, hindex, hverify, hw, rfl⟩ := h
    exact ⟨hroot, hpaused, hquorum, _, ⟨hlast, rfl⟩, hdistance, hhash, _, hindex, rfl, (), hverify,
      _, hw, rfl, rfl⟩

end DepositSecurityModule

namespace GuardedWorld

variable {s s' : GuardedWorld} {e : GuardedEvent D G}

theorem step_deposit {c : GuardedCall D G} {a : DepositSecurityModule.Attestation}
    (h : (guardedSystem D L G).step s (.deposit c a) = .ok s') :
    (jointSystem D L).step s.world
      (.lido c.pool (.depositBufferedEtherUpTo s.dsm.maxDepositsPerBlock)) = .ok s'.world ∧
    s'.dsm = { s.dsm with lastDepositBlock := c.blockNumber } ∧
    s.dsm.lastDepositBlock + s.dsm.minDepositBlockDistance ≤ c.blockNumber ∧
    s.getKeysOpIndex D G c s.dsm.nodeOperatorsRegistry = .ok a.keysOpIndex := by
  obtain ⟨⟨dsm, world⟩, hdeposit, hs'⟩ := bind_eq_ok.mp h
  cases hs'
  obtain ⟨_, _, _, hlast, hdistance, _, hindex, _, hw, hdsm⟩ :=
    DepositSecurityModule.depositBufferedEther_eq_ok.mp hdeposit
  exact ⟨hw, hdsm, by omega, hindex⟩

theorem reachable_world (h : Reachable (guardedSystem D L G) s) :
    Reachable (jointSystem D L) s.world := by
  refine h.invariant (P := fun s ↦ Reachable (jointSystem D L) s.world) (fun _ hs ↦ And.right hs) ?_
  intro s e s' _ hworld hstep
  cases e with
  | world e _ =>
    obtain ⟨world, h, hs'⟩ := bind_eq_ok.mp hstep
    cases hs'
    exact hworld.step h
  | dsm c m =>
    obtain ⟨dsm, h, hs'⟩ := bind_eq_ok.mp hstep
    cases hs'
    exact hworld
  | deposit c a => exact hworld.step (step_deposit hstep).1

theorem sane_dsm (h : Reachable (guardedSystem D L G) s) : s.dsm.Sane := by
  refine h.invariant (P := fun s ↦ s.dsm.Sane) ?_ ?_
  · intro s h
    obtain ⟨⟨_, _, _, _, _, _, _, h⟩, _⟩ := h
    exact (DepositSecurityModule.constructor_ok h).1
  · intro s e s' _ hsane hstep
    cases e with
    | world e _ =>
      obtain ⟨world, h, hs'⟩ := bind_eq_ok.mp hstep
      cases hs'
      exact hsane
    | dsm c m =>
      obtain ⟨dsm, h, hs'⟩ := bind_eq_ok.mp hstep
      cases hs'
      exact (DepositSecurityModule.handle_ok h).sane hsane
    | deposit c a =>
      rw [(step_deposit hstep).2.1]
      exact { hsane with }

end GuardedWorld

namespace Sample

def guarding : Guarding where
  dsm := 10
  registry := 6
  precompiles :=
    { keccak256 := fun bs ↦ BitVec.ofNat 256 bs.length
      ecrecover := fun _ _ r _ ↦ OfNat.ofNat r.toNat }

def moduleCall (blockNumber : ℕ) : ModuleCall where
  sender := 5
  blockNumber := blockNumber
  blockhash n := BitVec.ofNat 256 (n + 1)
  depositRoot := 3

def guardedCall (blockNumber : ℕ) : GuardedCall deployment guarding where
  toModuleCall := moduleCall blockNumber
  pool := { sender := 10, sender_ne_lido := ten_ne_lido, blockNumber, canPerform := fun _ _ ↦ true
            depositAccepts := fun _ _ ↦ true, recoveryVault := 9
            recoveryVault_ne_lido := nine_ne_lido, recoveryAccepts := true, tokenTransfers := true }
  pool_sender := rfl
  pool_block := rfl
  getKeysOpIndex _ := .error .silent

def attestation (keysOpIndex : ℕ) : DepositSecurityModule.Attestation where
  depositRoot := 3
  keysOpIndex := keysOpIndex
  blockNumber := 17
  blockHash := 18
  sortedGuardianSignatures := [{ r := 11, vs := 1 }, { r := 12, vs := 1 }]

def deployedModule : DepositSecurityModule :=
  { DepositSecurityModule.blank 64 64 1 7 with
    nodeOperatorsRegistry := 6
    maxDepositsPerBlock := 1
    minDepositBlockDistance := 5
    pauseIntentValidityPeriodBlocks := 10
    owner := 5 }

def setupModule : List (GuardedEvent deployment guarding) :=
  [.dsm (moduleCall 18) (.addGuardians [11, 12, 13] 2)]

theorem guarded_of_run {q : GuardedWorld → Bool}
    (h : reaches (jointSystem deployment layout) start depositRun (fun w ↦
      reaches (guardedSystem deployment layout guarding) ⟨deployedModule, w⟩ setupModule q) = true) :
    ∃ s, Reachable (guardedSystem deployment layout guarding) s ∧ q s = true := by
  obtain ⟨w, hw, hq⟩ := reachable_of_run h
  have hinit : Reachable (guardedSystem deployment layout guarding) ⟨deployedModule, w⟩ :=
    .initial ⟨⟨5, 7, 6, 1, 1, 5, 10, rfl⟩, hw⟩
  exact hinit.of_reaches hq

end Sample

end LidoDao
