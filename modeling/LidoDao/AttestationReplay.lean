import LidoDao.DepositRate

namespace LidoDao

open Evm Library.Outcome Library.Transition NodeOperatorsRegistry

variable {D : Deployment} {L : SigningKeyLayout} {G : Guarding}

section Index

variable {w w' : World NodeOperatorsRegistry} {e : Event D (RegistryCall D)}

theorem deposit_keysOpIndex (hs : JointSane D w) {c : LidoCall D} {n : ℕ}
    (h : Lido._depositBufferedEther D (registryContract D L) c n w = .ok w') :
    w.registry.keysOpIndex ≤ w'.registry.keysOpIndex ∧
      (w.lido.depositedValidators < w'.lido.depositedValidators →
        w.registry.keysOpIndex < w'.registry.keysOpIndex) := by
  rcases Lido._depositBufferedEther_ok h with ⟨_, rfl⟩ |
    ⟨_, count, amount, keys, registry, calls, hbatch, _, _, rfl⟩
  · exact ⟨le_rfl, fun hlt ↦ absurd hlt (lt_irrefl _)⟩
  · obtain ⟨_, hcount⟩ := hbatch.keysDeposited hs.registry
    obtain ⟨k, _, _, hassign⟩ := assignNextSigningKeys_ok (L := L) hs.registry
      (min (w.lido.bufferedEther / Lido.depositSize) n)
    have heq := hbatch.assigned.symm.trans hassign
    simp only [Except.ok.injEq, Prod.mk.injEq] at heq
    obtain ⟨_, rfl⟩ := heq
    have hstaked : (w.lido.launch count amount).depositedValidators =
        w.lido.depositedValidators + count := rfl
    rw [handOut, ← hcount, hstaked]
    dsimp only
    split
    · exact ⟨le_rfl, by omega⟩
    · exact ⟨Nat.le_succ _, fun _ ↦ Nat.lt_succ_self _⟩

theorem keysOpIndex_le (hs : JointSane D w) (hstep : (jointSystem D L).step w e = .ok w') :
    w.registry.keysOpIndex ≤ w'.registry.keysOpIndex := by
  cases World.step_change hstep with
  | token | control | settings | paidIn | rewardsIn | recovered | forceEther | vaults =>
    exact le_rfl
  | credentials h =>
    obtain ⟨_, rfl⟩ := trimUnusedKeys_ok h
    exact le_rfl
  | deposited _ _ h => exact (deposit_keysOpIndex hs h).1
  | reported v b h =>
    rw [(Lido.handleOracleReport_frame h).registry]
  | registry h => exact (handle_change hs.registry h).keysOpIndex_le

end Index

namespace GuardedWorld

variable {s s' : GuardedWorld} {e : GuardedEvent D G}

theorem keysOpIndex_step (h : Reachable (guardedSystem D L G) s)
    (hstep : (guardedSystem D L G).step s e = .ok s') :
    s.world.registry.keysOpIndex ≤ s'.world.registry.keysOpIndex := by
  have hs := jointSane (reachable_world h)
  cases e with
  | world e _ =>
    obtain ⟨world, hw, hs'⟩ := bind_eq_ok.mp hstep
    cases hs'
    exact keysOpIndex_le hs hw
  | dsm c m =>
    obtain ⟨dsm, _, hs'⟩ := bind_eq_ok.mp hstep
    cases hs'
    exact le_rfl
  | deposit c a => exact keysOpIndex_le hs (step_deposit hstep).1

theorem keysOpIndex_run {p : GuardedWorld → GuardedEvent D G → Prop}
    (h : Reachable (guardedSystem D L G) s) (hrun : Runs (guardedSystem D L G) p s s') :
    s.world.registry.keysOpIndex ≤ s'.world.registry.keysOpIndex := by
  induction hrun with
  | refl => exact le_rfl
  | step hrun _ hstep ih => exact ih.trans (keysOpIndex_step (hrun.reachable h) hstep)

end GuardedWorld

/-- Of two deposits with one operation index, and whatever happens between them, the first
staked nothing. -/
theorem attestation_pays_once {s₀ s₁ s₂ s₃ : GuardedWorld} {c c' : GuardedCall D G}
    {a a' : DepositSecurityModule.Attestation} (h : Reachable (guardedSystem D L G) s₀)
    (hfirst : (guardedSystem D L G).step s₀ (.deposit c a) = .ok s₁)
    (hrun : Runs (guardedSystem D L G)
      (fun s _ ↦ s.dsm.nodeOperatorsRegistry = G.registry) s₁ s₂)
    (hsecond : (guardedSystem D L G).step s₂ (.deposit c' a') = .ok s₃)
    (hregistry : s₀.dsm.nodeOperatorsRegistry = G.registry)
    (hregistry' : s₂.dsm.nodeOperatorsRegistry = G.registry)
    (hindex : a.keysOpIndex = a'.keysOpIndex) :
    s₁.world.lido.depositedValidators = s₀.world.lido.depositedValidators := by
  obtain ⟨hw, _, _, hfirstIndex⟩ := GuardedWorld.step_deposit hfirst
  obtain ⟨_, _, _, hsecondIndex⟩ := GuardedWorld.step_deposit hsecond
  rw [hregistry, GuardedWorld.getKeysOpIndex, if_pos rfl, Except.ok.injEq] at hfirstIndex
  rw [hregistry', GuardedWorld.getKeysOpIndex, if_pos rfl, Except.ok.injEq] at hsecondIndex
  have hlater := GuardedWorld.keysOpIndex_run (h.step hfirst) hrun
  have hs := jointSane (GuardedWorld.reachable_world h)
  obtain ⟨_, _, hdeposit⟩ := bind_eq_ok.mp hw
  have hraised := (deposit_keysOpIndex hs hdeposit).2
  have hmore : s₀.world.lido.depositedValidators ≤ s₁.world.lido.depositedValidators := by
    rcases Lido._depositBufferedEther_ok hdeposit with ⟨_, hw⟩ |
      ⟨_, _, _, _, _, _, _, _, _, hw⟩
    · rw [hw]
    · rw [hw]
      exact Nat.le_add_right _ _
  by_contra hne
  have hlt := hraised (Nat.lt_of_le_of_ne hmore (Ne.symm hne))
  omega

namespace Sample

def smallPayment : GuardedEvent deployment guarding :=
  .world (admin (.submit 0 100)) fun c m h ↦ by
    cases h
    decide

/-- Both keys are staked; the next attestation is used, before and after a payment, for
deposits of nothing. -/
theorem empty_deposits_repeat : ∃ s₀ s₁ s₂ s₃,
    Reachable (guardedSystem deployment layout guarding) s₀ ∧
    (guardedSystem deployment layout guarding).step s₀ (.deposit (guardedCall 30) (attestation 4)) =
      .ok s₁ ∧
    (guardedSystem deployment layout guarding).step s₁ smallPayment = .ok s₂ ∧
    (guardedSystem deployment layout guarding).step s₂ (.deposit (guardedCall 35) (attestation 4)) =
      .ok s₃ ∧
    s₁.world.lido.depositedValidators = s₀.world.lido.depositedValidators := by
  have hrun : reaches (jointSystem deployment layout) start depositRun (fun w ↦
      reaches (guardedSystem deployment layout guarding) ⟨deployedModule, w⟩ setupModule fun s ↦
        reaches (guardedSystem deployment layout guarding) s twoDeposits fun s₀ ↦
          decide (s₀.dsm.nodeOperatorsRegistry = 6) &&
          reaches (guardedSystem deployment layout guarding) s₀
            [.deposit (guardedCall 30) (attestation 4)] fun s₁ ↦
              decide (s₁.dsm.nodeOperatorsRegistry = 6) &&
              reaches (guardedSystem deployment layout guarding) s₁ [smallPayment] fun s₂ ↦
                decide (s₂.dsm.nodeOperatorsRegistry = 6) &&
                reaches (guardedSystem deployment layout guarding) s₂
                  [.deposit (guardedCall 35) (attestation 4)] fun _ ↦ true) = true := by
    decide +kernel
  obtain ⟨s, hs, hq⟩ := guarded_of_run hrun
  obtain ⟨s₀, hs₀, hq⟩ := hs.of_reaches hq
  rw [Bool.and_eq_true, decide_eq_true_eq] at hq
  obtain ⟨hregistry, hq⟩ := hq
  obtain ⟨s₁, hs₁, hq⟩ := step_of_reaches hq
  rw [Bool.and_eq_true, decide_eq_true_eq] at hq
  obtain ⟨hregistry₁, hq⟩ := hq
  obtain ⟨s₂, hs₂, hq⟩ := step_of_reaches hq
  rw [Bool.and_eq_true, decide_eq_true_eq] at hq
  obtain ⟨hregistry₂, hq⟩ := hq
  obtain ⟨s₃, hs₃, _⟩ := step_of_reaches hq
  exact ⟨s₀, s₁, s₂, s₃, hs₀, hs₁, hs₂, hs₃,
    attestation_pays_once hs₀ hs₁ ((Runs.refl s₁).step hregistry₁ hs₂) hs₃ hregistry hregistry₂
      rfl⟩

end Sample

end LidoDao
