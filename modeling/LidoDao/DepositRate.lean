import LidoDao.GuardedDeposits
import LidoDao.DepositAgreement
import LidoDao.Library.SpacedBatches

namespace LidoDao

open Evm Library.Outcome Library.Transition Library.TokenBucket Library.SpacedBatches
  NodeOperatorsRegistry

variable {D : Deployment} {L : SigningKeyLayout} {G : Guarding}

def GuardedEvent.block : GuardedEvent D G → Option ℕ
  | .world (.lido c _) _ => some c.blockNumber
  | .world (.registry c) _ => some c.blockNumber
  | .world _ _ => none
  | .dsm c _ => some c.blockNumber
  | .deposit c _ => some c.blockNumber

/-- Each event that stakes validators is listed with its block and their number. -/
def recordStaked (s : GuardedWorld) (e : GuardedEvent D G) (s' : GuardedWorld)
    (log : List (ℕ × ℕ)) : List (ℕ × ℕ) :=
  let staked := s'.world.lido.depositedValidators - s.world.lido.depositedValidators
  match e.block with
  | some block => if staked = 0 then log else log ++ [(block, staked)]
  | none => log

def GuardedEvent.setsLastDepositBlock : GuardedEvent D G → Bool
  | .dsm _ (.setLastDepositBlock _) => true
  | _ => false

/-- Somebody who is not the module calls the pool and may deposit. -/
def GuardedEvent.othersMayDeposit : GuardedEvent D G → Bool
  | .world (.lido c _) _ => c.canPerform .depositRole []
  | _ => false

/-- The limits are these, the last deposit block is not set by hand, and nobody but the
module may deposit. -/
structure FixedRate (maxDeposits distance : ℕ) (s : GuardedWorld) (e : GuardedEvent D G) : Prop where
  maxDeposits : s.dsm.maxDepositsPerBlock = maxDeposits
  distance : s.dsm.minDepositBlockDistance = distance
  lastDepositBlock : e.setsLastDepositBlock = false
  depositRole : e.othersMayDeposit = false

instance (maxDeposits distance : ℕ) (s : GuardedWorld) (e : GuardedEvent D G) :
    Decidable (FixedRate maxDeposits distance s e) :=
  decidable_of_iff (s.dsm.maxDepositsPerBlock = maxDeposits ∧
    s.dsm.minDepositBlockDistance = distance ∧ e.setsLastDepositBlock = false ∧
      e.othersMayDeposit = false)
    ⟨fun ⟨h₁, h₂, h₃, h₄⟩ ↦ ⟨h₁, h₂, h₃, h₄⟩, fun ⟨h₁, h₂, h₃, h₄⟩ ↦ ⟨h₁, h₂, h₃, h₄⟩⟩

section Staked

variable {R ρ : Type} {I : INodeOperatorsRegistry R ρ}

theorem World.step_staked {w w' : World R} {e : Event D ρ} (he : e.maxDeposits = none)
    (hstep : World.step D I w e = .ok w') :
    w'.lido.depositedValidators = w.lido.depositedValidators := by
  cases World.step_change hstep with
  | token | control | settings | credentials | registry | recovered | forceEther | vaults => rfl
  | paidIn _ h =>
    obtain ⟨_, _, _, _, _, rfl⟩ := Lido._submit_ok h
    rfl
  | rewardsIn h =>
    obtain ⟨_, _, rfl⟩ := Lido.receiveELRewards_eq_ok.mp h
    rfl
  | deposited hm =>
    rw [he] at hm
    cases hm
  | reported v b h => exact (Lido.handleOracleReport_frame h).depositedValidators

theorem World.step_depositRole {w w' : World R} {c : LidoCall D} {m : LidoMessage} {n : ℕ}
    (hm : (Event.lido c m : Event D ρ).maxDeposits = some n)
    (hstep : World.step D I w (.lido c m) = .ok w') : c.canPerform .depositRole [] = true := by
  cases World.step_effect hstep with
  | depositBufferedEther hauth | depositBufferedEtherUpTo hauth => exact hauth
  | _ => cases hm

theorem staked_le {w w' : World NodeOperatorsRegistry} {c : LidoCall D} {n : ℕ}
    (hs : JointSane D w)
    (h : (jointSystem D L).step w (.lido c (.depositBufferedEtherUpTo n)) = .ok w') :
    w'.lido.depositedValidators - w.lido.depositedValidators ≤ n := by
  obtain ⟨_, _, hdeposit⟩ := bind_eq_ok.mp h
  rcases Nat.lt_or_ge w.lido.bufferedEther Lido.depositSize with hlt | hge
  · rcases Lido._depositBufferedEther_ok hdeposit with ⟨_, rfl⟩ | ⟨hge, _⟩
    · omega
    · omega
  · have hmade := (depositsMade hs hdeposit hge).depositedValidators
    omega

end Staked

/-- The batches staked so far are spaced out and of the right size, and none is later than
the last deposit block. -/
structure Paced (maxDeposits distance : ℕ) (s : GuardedWorld) (log : List (ℕ × ℕ)) : Prop where
  spaced : log.Pairwise fun p q ↦ p.1 + distance ≤ q.1
  size : ∀ p ∈ log, p.2 ≤ maxDeposits
  past : ∀ p ∈ log, p.1 ≤ s.dsm.lastDepositBlock

namespace Paced

variable {maxDeposits distance : ℕ} {s s' : GuardedWorld} {log : List (ℕ × ℕ)}
  {e : GuardedEvent D G}

theorem recordStaked_of_eq
    (h : s'.world.lido.depositedValidators = s.world.lido.depositedValidators) :
    recordStaked s e s' log = log := by
  rw [recordStaked, h, Nat.sub_self]
  cases e.block <;> rfl

theorem later (h : Paced maxDeposits distance s log)
    (hle : s.dsm.lastDepositBlock ≤ s'.dsm.lastDepositBlock) : Paced maxDeposits distance s' log :=
  ⟨h.spaced, h.size, fun p hp ↦ (h.past p hp).trans hle⟩

theorem deposit (h : Paced maxDeposits distance s log) {c : GuardedCall D G}
    {a : DepositSecurityModule.Attestation} (hfixed : FixedRate maxDeposits distance s
      (.deposit c a : GuardedEvent D G)) (hs : JointSane D s.world)
    (hstep : (guardedSystem D L G).step s (.deposit c a) = .ok s') :
    Paced maxDeposits distance s' (recordStaked s (.deposit c a : GuardedEvent D G) s' log) := by
  obtain ⟨hw, hdsm, hdistance, _⟩ := GuardedWorld.step_deposit hstep
  rw [hfixed.distance] at hdistance
  have hlast : s'.dsm.lastDepositBlock = c.blockNumber := by rw [hdsm]
  have hstaked := staked_le hs hw
  rw [hfixed.maxDeposits] at hstaked
  have hlater : Paced maxDeposits distance s' log := h.later (by omega)
  rw [recordStaked, GuardedEvent.block]
  dsimp only
  split
  · exact hlater
  · refine ⟨List.pairwise_append.mpr ⟨h.spaced, List.pairwise_singleton _ _, ?_⟩, ?_, ?_⟩
    · intro p hp q hq
      have hpast := h.past p hp
      rw [List.mem_singleton.mp hq]
      dsimp only
      omega
    · intro p hp
      rcases List.mem_append.mp hp with hp | hp
      · exact h.size p hp
      · rw [List.mem_singleton.mp hp]
        exact hstaked
    · intro p hp
      rcases List.mem_append.mp hp with hp | hp
      · exact hlater.past p hp
      · rw [List.mem_singleton.mp hp, hlast]

theorem step (h : Paced maxDeposits distance s log) (hfixed : FixedRate maxDeposits distance s e)
    (hs : JointSane D s.world) (hstep : (guardedSystem D L G).step s e = .ok s') :
    Paced maxDeposits distance s' (recordStaked s e s' log) := by
  cases e with
  | world e hsender =>
    obtain ⟨world, hw, hs'⟩ := bind_eq_ok.mp hstep
    cases hs'
    cases he : e.maxDeposits with
    | none =>
      have hsame : world.lido.depositedValidators = s.world.lido.depositedValidators :=
        World.step_staked he hw
      have hlog : recordStaked s (.world e hsender : GuardedEvent D G) { s with world } log = log :=
        recordStaked_of_eq hsame
      rw [hlog]
      exact h.later le_rfl
    | some n =>
      cases e with
      | lido c m =>
        have hrole := World.step_depositRole he hw
        have hnone : c.canPerform .depositRole [] = false := hfixed.depositRole
        rw [hnone] at hrole
        cases hrole
      | registry | forceEther | fundVault | deployVault => cases he
  | dsm c m =>
    obtain ⟨dsm, hdsm, hs'⟩ := bind_eq_ok.mp hstep
    cases hs'
    have hlast := (DepositSecurityModule.handle_ok hdsm).lastDepositBlock fun n hn ↦ by
      have hset := hfixed.lastDepositBlock
      subst hn
      cases hset
    have hlog : recordStaked s (.dsm c m : GuardedEvent D G) { s with dsm } log = log :=
      recordStaked_of_eq rfl
    rw [hlog]
    exact h.later hlast.ge
  | deposit c a => exact h.deposit hfixed hs hstep

end Paced

/-- The validators staked in any window of blocks: one batch, and one more for each
distance that the window is long. -/
theorem deposit_rate_is_bounded {s₀ s : GuardedWorld} {log : List (ℕ × ℕ)}
    {maxDeposits distance : ℕ} (h : Reachable (guardedSystem D L G) s₀)
    (hdistance : s₀.dsm.minDepositBlockDistance = distance)
    (hrun : Runs ((guardedSystem D L G).observed [] recordStaked)
      (fun p e ↦ FixedRate maxDeposits distance p.1 e) (s₀, []) (s, log))
    (first W : ℕ) (hW : 1 ≤ W) :
    takenBetween log first (first + W - 1) ≤ maxDeposits * ((W - 1) / distance + 1) := by
  have hpos : 0 < distance := hdistance ▸ (GuardedWorld.sane_dsm h).distance
  have hpaced := hrun.invariant
    (P := fun p ↦ Reachable (guardedSystem D L G) p.1 ∧ Paced maxDeposits distance p.1 p.2) ?_
    ⟨h, .nil, nofun, nofun⟩
  · have hlength : first + W - 1 - first = W - 1 := by omega
    rw [← hlength]
    exact takenBetween_le_of_spaced hpos hpaced.2.spaced hpaced.2.size
  · intro p e q hfixed hp hstep
    obtain ⟨s, log⟩ := p
    obtain ⟨s', log'⟩ := q
    obtain ⟨hreach, hpaced⟩ := hp
    obtain ⟨hstep, hlog⟩ := observed_step.mp hstep
    refine ⟨hreach.step hstep, ?_⟩
    rw [← hlog]
    exact hpaced.step hfixed (jointSane (GuardedWorld.reachable_world hreach)) hstep

namespace Sample

def twoDeposits : List (GuardedEvent deployment guarding) :=
  [.deposit (guardedCall 20) (attestation 2), .deposit (guardedCall 25) (attestation 3)]

/-- Two batches of one validator in six blocks, for a distance of five. -/
theorem two_batches_in_six_blocks : ∃ s₀ s log,
    Reachable (guardedSystem deployment layout guarding) s₀ ∧
    Runs ((guardedSystem deployment layout guarding).observed [] recordStaked)
      (fun p e ↦ FixedRate 1 5 p.1 e) (s₀, []) (s, log) ∧
    log = [(20, 1), (25, 1)] ∧
    takenBetween log 20 (20 + 6 - 1) ≤ 1 * ((6 - 1) / 5 + 1) := by
  have hrun : reaches (jointSystem deployment layout) start depositRun (fun w ↦
      reaches (guardedSystem deployment layout guarding) ⟨deployedModule, w⟩ setupModule fun s ↦
        decide (s.dsm.minDepositBlockDistance = 5) &&
        reachesBy ((guardedSystem deployment layout guarding).observed [] recordStaked)
          (fun p e ↦ FixedRate 1 5 p.1 e) (fun p ↦ decide (p.2 = [(20, 1), (25, 1)])) (s, [])
          twoDeposits) = true := by
    decide +kernel
  obtain ⟨s₀, hs₀, hq⟩ := guarded_of_run hrun
  rw [Bool.and_eq_true, decide_eq_true_eq] at hq
  obtain ⟨hdistance, hdeposits⟩ := hq
  obtain ⟨⟨s, log⟩, hruns, hlog⟩ := Runs.of_reachesBy hdeposits
  exact ⟨s₀, s, log, hs₀, hruns, of_decide_eq_true hlog,
    deposit_rate_is_bounded hs₀ hdistance hruns 20 6 (by decide)⟩

end Sample

end LidoDao
