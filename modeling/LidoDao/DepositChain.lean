import LidoDao.DepositTree
import LidoDao.UnusedKeys

namespace LidoDao

open Evm Library.Outcome Library.ByteWords Library.Transition NodeOperatorsRegistry
open OfficialDepositContract

/-- The guarded pool in front of the deposit contract, with all deposits that the contract
accepted from anybody. -/
structure ChainWorld where
  guarded : GuardedWorld
  contract : OfficialDepositContract
  log : List DepositCall

/-- Something that happens to the guarded pool, or a deposit of anybody else. -/
inductive ChainEvent (D : Deployment) (G : Guarding)
  | guarded (e : GuardedEvent D G)
  | deposit (d : DepositCall)

variable {D : Deployment} {L : SigningKeyLayout} {G : Guarding} {R ρ : Type}

section Answers

variable (accepts : List DepositCall → DepositCall → Bool)

def LidoCall.answered (c : LidoCall D) : LidoCall D := { c with depositAccepts := accepts }

/-- The same event with the answers of this deposit contract. -/
def Event.answered : Event D ρ → Event D ρ
  | .lido c m => .lido (c.answered accepts) m
  | .registry r => .registry r
  | .forceEther amount => .forceEther amount
  | .fundVault vault amount => .fundVault vault amount
  | .deployVault vault pool treasury balance => .deployVault vault pool treasury balance

theorem Event.answered_sender {e : Event D ρ} {a : Address}
    (h : ∀ c m, e = .lido c m → c.sender ≠ a) :
    ∀ c m, e.answered accepts = .lido c m → c.sender ≠ a := by
  intro c m heq
  cases e with
  | lido c' m' =>
    cases heq
    exact h c' m rfl
  | registry | forceEther | fundVault | deployVault => cases heq

def GuardedCall.answered (root : BitVec 256) (c : GuardedCall D G) : GuardedCall D G where
  toModuleCall := { c.toModuleCall with depositRoot := root }
  pool := c.pool.answered accepts
  pool_sender := c.pool_sender
  pool_block := c.pool_block
  getKeysOpIndex := c.getKeysOpIndex

def GuardedEvent.answered (root : BitVec 256) : GuardedEvent D G → GuardedEvent D G
  | .world e h => .world (e.answered accepts) (Event.answered_sender accepts h)
  | .dsm c m => .dsm { c with depositRoot := root } m
  | .deposit c a => .deposit (c.answered accepts root) a

end Answers

namespace ChainWorld

variable (D L G)

/-- The root that the module asks for. -/
def depositRoot (s : ChainWorld) : BitVec 256 := .ofNat 256 (s.contract.getDepositRoot D.sha256)

/-- The contract takes a deposit after those that the pool already made in the same call. -/
def accepts (s : ChainWorld) (deposits : List DepositCall) (d : DepositCall) : Bool :=
  (execute (machine D.sha256) s.contract
    (deposits.drop s.guarded.world.deposits.length ++ [d])).isOk

def made (s : ChainWorld) (g : GuardedWorld) : List DepositCall :=
  g.world.deposits.drop s.guarded.world.deposits.length

def step (s : ChainWorld) : ChainEvent D G → Except Revert ChainWorld
  | .guarded e => do
    let guarded ← (guardedSystem D L G).step s.guarded (e.answered (s.accepts D) (s.depositRoot D))
    let (contract, log) ← execute (recorded D.sha256) (s.contract, s.log) (s.made guarded)
    pure { guarded, contract, log }
  | .deposit d => do
    let (contract, log) ← (recorded D.sha256).step (s.contract, s.log) d
    pure { s with contract, log }

def Initial (s : ChainWorld) : Prop :=
  s.guarded.Initial D L G ∧ Reachable (recorded D.sha256) (s.contract, s.log) ∧
    s.guarded.world.deposits.Sublist s.log

end ChainWorld

def chainSystem (D : Deployment) (L : SigningKeyLayout) (G : Guarding) :
    Machine ChainWorld (ChainEvent D G) Revert where
  initial := ChainWorld.Initial D L G
  step := ChainWorld.step D L G

namespace OfficialDepositContract

variable {sha256 : Bytes → ℕ} {k k' : OfficialDepositContract} {ds ds' calls : List DepositCall}

theorem execute_recorded :
    execute (recorded sha256) (k, ds) calls = .ok (k', ds') ↔
      execute (machine sha256) k calls = .ok k' ∧ ds' = ds ++ calls := by
  induction calls generalizing k ds with
  | nil => simp [execute, eq_comm]
  | cons d calls ih =>
    simp only [execute, bind_eq_ok]
    constructor
    · intro h
      obtain ⟨⟨k₁, ds₁⟩, hstep, h⟩ := h
      obtain ⟨hk₁, hds₁⟩ := observed_step.mp hstep
      obtain ⟨hk', rfl⟩ := ih.mp h
      have hds₁ : ds ++ [d] = ds₁ := hds₁
      exact ⟨⟨k₁, hk₁, hk'⟩, by rw [← hds₁, List.append_assoc, List.singleton_append]⟩
    · intro h
      obtain ⟨⟨k₁, hk₁, hk'⟩, rfl⟩ := h
      refine ⟨(k₁, ds ++ [d]), observed_step.mpr ⟨hk₁, rfl⟩, ih.mpr ⟨hk', ?_⟩⟩
      rw [List.append_assoc, List.singleton_append]

end OfficialDepositContract

namespace Lido

variable {c : LidoCall D} {I : INodeOperatorsRegistry R ρ} {w w' : World R}
  {k : OfficialDepositContract} {n : ℕ}

/-- Calls that the contract takes one after the other. -/
def Taken (D : Deployment) (k : OfficialDepositContract) (calls : List DepositCall) : Prop :=
  ∃ k', execute (machine D.sha256) k calls = .ok k'

theorem stakeKeys_taken {pubkeys signatures : Bytes} {is : List ℕ} {s : Lido}
    {deposits : List DepositCall} {p : Lido × List DepositCall}
    (hc : ∀ ds d, c.depositAccepts ds d = (execute (machine D.sha256) k (ds.drop n ++ [d])).isOk)
    (hn : n ≤ deposits.length) (htaken : Taken D k (deposits.drop n))
    (h : stakeKeys D c pubkeys signatures is s deposits = .ok p) : Taken D k (p.2.drop n) := by
  induction is generalizing s deposits with
  | nil =>
    cases h
    exact htaken
  | cons i is ih =>
    simp only [stakeKeys, bind_eq_ok] at h
    obtain ⟨_, _, _, _, ⟨s', deposits'⟩, hstake, h⟩ := h
    simp only [_stake, bind_eq_ok, require_eq_ok, exists_const, pure_eq, Except.ok.injEq,
      Prod.mk.injEq] at hstake
    obtain ⟨_, _, _, _, _, _, _, _, _, _, haccepts, _, _, rfl⟩ := hstake
    rw [hc] at haccepts
    refine ih ?_ ?_ h
    · rw [List.length_append]
      omega
    · rw [List.drop_append_of_le_length hn]
      exact exists_of_isOk haccepts

theorem _depositBufferedEther_stakes {maxDeposits : ℕ}
    (h : _depositBufferedEther D I c maxDeposits w = .ok w') :
    w'.deposits = w.deposits ∨ ∃ pubkeys signatures is p,
      stakeKeys D c pubkeys signatures is w.lido w.deposits = .ok p ∧ w'.deposits = p.2 := by
  simp only [_depositBufferedEther, bind_eq_ok] at h
  obtain ⟨_, _, _, _, h⟩ := h
  split at h
  · simp only [bind_eq_ok, pure_eq, Except.ok.injEq] at h
    obtain ⟨_, _, _, _, ⟨amount, w₁⟩, hdeposit, _, _, _, _, _, _, rfl⟩ := h
    simp only [_ETH2Deposit, bind_eq_ok] at hdeposit
    obtain ⟨⟨⟨pubkeys, signatures⟩, registry⟩, _, hdeposit⟩ := hdeposit
    dsimp only at hdeposit
    split at hdeposit
    · cases hdeposit
      exact .inl rfl
    · simp only [bind_eq_ok, pure_eq, Except.ok.injEq, Prod.mk.injEq] at hdeposit
      obtain ⟨_, _, _, _, _, _, _, _, _, _, _, _, _, _, _, hstake, _, _, _, _, _, rfl⟩ := hdeposit
      exact .inr ⟨_, _, _, _, hstake, rfl⟩
  · cases h
    exact .inl rfl

theorem _depositBufferedEther_taken {maxDeposits : ℕ}
    (hc : ∀ ds d, c.depositAccepts ds d =
      (execute (machine D.sha256) k (ds.drop w.deposits.length ++ [d])).isOk)
    (h : _depositBufferedEther D I c maxDeposits w = .ok w') :
    Taken D k (w'.deposits.drop w.deposits.length) := by
  have hnone : Taken D k (w.deposits.drop w.deposits.length) := by
    rw [List.drop_length]
    exact ⟨k, rfl⟩
  rcases _depositBufferedEther_stakes h with heq | ⟨_, _, _, _, hstake, heq⟩
  · rw [heq]
    exact hnone
  · rw [heq]
    exact stakeKeys_taken hc le_rfl hnone hstake

end Lido

theorem World.deposits_append {I : INodeOperatorsRegistry R ρ} {w w' : World R} {e : Event D ρ}
    (h : World.step D I w e = .ok w') : ∃ calls, w'.deposits = w.deposits ++ calls := by
  rcases World.step_deposits h with heq | ⟨_, _, _, _, _, hdeposit⟩
  · exact ⟨[], by rw [heq, List.append_nil]⟩
  · rcases Lido._depositBufferedEther_ok hdeposit with ⟨_, rfl⟩ |
      ⟨_, _, _, _, _, calls, _, _, _, rfl⟩
    · exact ⟨[], (List.append_nil _).symm⟩
    · exact ⟨calls, rfl⟩

namespace GuardedWorld

variable {s s' : GuardedWorld} {e : GuardedEvent D G}

theorem step_world (h : (guardedSystem D L G).step s e = .ok s') :
    s'.world = s.world ∨ ∃ e', (jointSystem D L).step s.world e' = .ok s'.world ∧
      ((∃ hsender, e = .world e' hsender) ∨ ∃ c a, e = .deposit c a ∧
        e' = .lido c.pool (.depositBufferedEtherUpTo s.dsm.maxDepositsPerBlock)) := by
  cases e with
  | world e hsender =>
    obtain ⟨world, hw, hs'⟩ := bind_eq_ok.mp h
    cases hs'
    exact .inr ⟨e, hw, .inl ⟨hsender, rfl⟩⟩
  | dsm c m =>
    obtain ⟨dsm, _, hs'⟩ := bind_eq_ok.mp h
    cases hs'
    exact .inl rfl
  | deposit c a => exact .inr ⟨_, (step_deposit h).1, .inr ⟨c, a, rfl, rfl⟩⟩

end GuardedWorld

namespace ChainWorld

variable {s s' : ChainWorld} {e : GuardedEvent D G} {g : GuardedWorld}

theorem deposits_eq
    (h : (guardedSystem D L G).step s.guarded (e.answered (s.accepts D) (s.depositRoot D)) = .ok g) :
    g.world.deposits = s.guarded.world.deposits ++ s.made g := by
  rcases GuardedWorld.step_world h with heq | ⟨e', hstep, _⟩
  · rw [made, heq, List.drop_length, List.append_nil]
  · obtain ⟨calls, hcalls⟩ := World.deposits_append hstep
    rw [made, hcalls, List.drop_left]

theorem made_taken
    (h : (guardedSystem D L G).step s.guarded (e.answered (s.accepts D) (s.depositRoot D)) = .ok g) :
    Lido.Taken D s.contract (s.made g) := by
  have hnone (heq : g.world.deposits = s.guarded.world.deposits) :
      Lido.Taken D s.contract (s.made g) := by
    rw [made, heq, List.drop_length]
    exact ⟨_, rfl⟩
  rcases GuardedWorld.step_world h with heq | ⟨e', hstep, hevent⟩
  · exact hnone (by rw [heq])
  · rcases World.step_deposits hstep with heq | ⟨c, m, n, rfl, _, hdeposit⟩
    · exact hnone heq
    · refine Lido._depositBufferedEther_taken (fun ds d ↦ ?_) hdeposit
      cases e with
      | world e hsender =>
        obtain ⟨_, heq⟩ | ⟨_, _, heq, _⟩ := hevent
        · cases e with
          | lido c' m' =>
            cases heq
            rfl
          | registry | forceEther | fundVault | deployVault => cases heq
        · cases heq
      | dsm c m =>
        obtain ⟨_, heq⟩ | ⟨_, _, heq, _⟩ := hevent
        · cases heq
        · cases heq
      | deposit c a =>
        obtain ⟨_, heq⟩ | ⟨_, _, heq, heq'⟩ := hevent
        · cases heq
        · cases heq
          cases heq'
          rfl

theorem step_guarded : (chainSystem D L G).step s (.guarded e) = .ok s' ↔
    (guardedSystem D L G).step s.guarded (e.answered (s.accepts D) (s.depositRoot D)) =
      .ok s'.guarded ∧
    execute (machine D.sha256) s.contract (s.made s'.guarded) = .ok s'.contract ∧
    s'.log = s.log ++ s.made s'.guarded := by
  simp only [chainSystem, step, bind_eq_ok, Prod.exists, pure_eq, Except.ok.injEq]
  constructor
  · intro h
    obtain ⟨g, hg, k, ds, hexecute, rfl⟩ := h
    exact ⟨hg, execute_recorded.mp hexecute⟩
  · intro h
    obtain ⟨hg, hexecute, hlog⟩ := h
    exact ⟨s'.guarded, hg, s'.contract, s'.log, execute_recorded.mpr ⟨hexecute, hlog⟩, rfl⟩

theorem guarded_isOk_iff : (∃ s', (chainSystem D L G).step s (.guarded e) = .ok s') ↔
    ∃ g, (guardedSystem D L G).step s.guarded (e.answered (s.accepts D) (s.depositRoot D)) =
      .ok g := by
  constructor
  · intro h
    obtain ⟨s', h⟩ := h
    exact ⟨_, (step_guarded.mp h).1⟩
  · intro h
    obtain ⟨g, hg⟩ := h
    obtain ⟨k', hk'⟩ := made_taken hg
    exact ⟨⟨g, k', s.log ++ s.made g⟩, step_guarded.mpr ⟨hg, hk', rfl⟩⟩

theorem step_other {d : DepositCall} : (chainSystem D L G).step s (.deposit d) = .ok s' ↔
    s'.guarded = s.guarded ∧ s.contract.deposit D.sha256 d = .ok s'.contract ∧
      s'.log = s.log ++ [d] := by
  simp only [chainSystem, step, bind_eq_ok, Prod.exists, pure_eq, Except.ok.injEq]
  constructor
  · intro h
    obtain ⟨k, ds, hstep, rfl⟩ := h
    obtain ⟨hk, hds⟩ := observed_step.mp hstep
    exact ⟨rfl, hk, hds.symm⟩
  · intro h
    obtain ⟨hguarded, hk, hlog⟩ := h
    refine ⟨s'.contract, s'.log, observed_step.mpr ⟨hk, hlog.symm⟩, ?_⟩
    rw [← hguarded]

theorem reachable_guarded (h : Reachable (chainSystem D L G) s) :
    Reachable (guardedSystem D L G) s.guarded := by
  refine h.invariant (P := fun s ↦ Reachable (guardedSystem D L G) s.guarded)
    (fun s (hs : s.Initial D L G) ↦ .initial hs.1) ?_
  intro s e s' _ hs hstep
  cases e with
  | guarded e => exact hs.step (step_guarded.mp hstep).1
  | deposit d =>
    rw [(step_other.mp hstep).1]
    exact hs

theorem reachable_contract (h : Reachable (chainSystem D L G) s) :
    Reachable (recorded D.sha256) (s.contract, s.log) := by
  refine h.invariant (P := fun s ↦ Reachable (recorded D.sha256) (s.contract, s.log))
    (fun s (hs : s.Initial D L G) ↦ hs.2.1) ?_
  intro s e s' _ hs hstep
  cases e with
  | guarded e => exact hs.execute (execute_recorded.mpr (step_guarded.mp hstep).2)
  | deposit d =>
    obtain ⟨_, hk, hlog⟩ := step_other.mp hstep
    exact hs.step (observed_step.mpr ⟨hk, hlog.symm⟩)

theorem sublist_log (h : Reachable (chainSystem D L G) s) :
    s.guarded.world.deposits.Sublist s.log := by
  refine h.invariant (P := fun s ↦ s.guarded.world.deposits.Sublist s.log)
    (fun s (hs : s.Initial D L G) ↦ hs.2.2) ?_
  intro s e s' _ hs hstep
  cases e with
  | guarded e =>
    obtain ⟨hg, _, hlog⟩ := step_guarded.mp hstep
    rw [deposits_eq hg, hlog]
    exact hs.append_right _
  | deposit d =>
    obtain ⟨hguarded, _, hlog⟩ := step_other.mp hstep
    rw [hguarded, hlog]
    exact hs.trans (List.sublist_append_left _ _)

end ChainWorld

namespace Sample

/-- The attestation of the guardians eleven and twelve for the roots of this deployment. -/
def chainAttestation (keysOpIndex : ℕ) : DepositSecurityModule.Attestation :=
  { attestation keysOpIndex with depositRoot := 64 }

theorem chain_of_run {q : ChainWorld → Bool}
    (h : reaches (jointSystem deployment layout) start depositRun (fun w ↦
      decide (w.deposits = []) &&
      reaches (chainSystem deployment layout guarding)
        ⟨⟨deployedModule, w⟩, constructor deployment.sha256, []⟩
        (setupModule.map .guarded) q) = true) :
    ∃ s, Reachable (chainSystem deployment layout guarding) s ∧ q s = true := by
  obtain ⟨w, hw, hq⟩ := reachable_of_run h
  rw [Bool.and_eq_true, decide_eq_true_eq] at hq
  obtain ⟨hnone, hq⟩ := hq
  have hinit : Reachable (chainSystem deployment layout guarding)
      ⟨⟨deployedModule, w⟩, constructor deployment.sha256, []⟩ := by
    refine .initial ⟨⟨⟨5, 7, 6, 1, 1, 5, 10, rfl⟩, hw⟩, .initial ⟨rfl, rfl⟩, ?_⟩
    exact (List.sublist_nil.mpr hnone)
  exact hinit.of_reaches hq

end Sample

end LidoDao
