import LidoDao.DepositRate
import LidoDao.GuardianQuorum

namespace LidoDao

open Evm Library.Outcome Library.Transition NodeOperatorsRegistry

variable {D : Deployment} {L : SigningKeyLayout} {G : Guarding}

namespace DepositSecurityModule

variable {P : Precompiles} {m m' : DepositSecurityModule} {c : ModuleCall} {blockNumber : ℕ}
  {sig : Signature}

/-- A guardian calls, or has signed the intent, and the intent is not too old. -/
structure Alarm (P : Precompiles) (m : DepositSecurityModule) (c : ModuleCall) (blockNumber : ℕ)
    (sig : Signature) : Prop where
  guardian : c.sender ∈ m.members ∨
    ∃ g ∈ m.members, Signs P (m.pauseMessageHash P blockNumber) sig g
  past : blockNumber ≤ c.blockNumber
  fresh : c.blockNumber ≤ blockNumber + m.pauseIntentValidityPeriodBlocks

theorem Sane.getGuardianIndex (hs : m.Sane) (addr : Address) :
    m._getGuardianIndex addr = -1 ↔ addr ∉ m.members := by
  rw [← hs.isGuardian, _getGuardianIndex, _isGuardian, decide_eq_true_eq]
  omega

theorem Sane.pauseDeposits_eq_ok (hs : m.Sane) (hpaused : m.paused = false) :
    m.pauseDeposits P c blockNumber sig = .ok m' ↔
      Alarm P m c blockNumber sig ∧ m' = { m with paused := true } := by
  have hage : (∃ age, Checked.sub c.blockNumber blockNumber = .ok age ∧
      age ≤ m.pauseIntentValidityPeriodBlocks ∧ { m with paused := true } = m') ↔
        (blockNumber ≤ c.blockNumber ∧
          c.blockNumber ≤ blockNumber + m.pauseIntentValidityPeriodBlocks) ∧
        m' = { m with paused := true } := by
    simp only [Checked.sub_eq_ok]
    constructor
    · intro h
      obtain ⟨_, ⟨hpast, rfl⟩, hfresh, rfl⟩ := h
      exact ⟨⟨hpast, by omega⟩, rfl⟩
    · intro h
      obtain ⟨⟨hpast, hfresh⟩, rfl⟩ := h
      exact ⟨_, ⟨hpast, rfl⟩, by omega, rfl⟩
  have halarm : Alarm P m c blockNumber sig ↔
      (c.sender ∈ m.members ∨ ∃ g ∈ m.members, Signs P (m.pauseMessageHash P blockNumber) sig g) ∧
        blockNumber ≤ c.blockNumber ∧
        c.blockNumber ≤ blockNumber + m.pauseIntentValidityPeriodBlocks :=
    ⟨fun h ↦ ⟨h.guardian, h.past, h.fresh⟩, fun h ↦ ⟨h.1, h.2.1, h.2.2⟩⟩
  have hnot : ¬m.paused = true := by
    rw [hpaused]
    decide
  rw [pauseDeposits, if_neg hnot, halarm, and_assoc, ← hage]
  dsimp only
  split
  · rename_i hsender
    rw [hs.getGuardianIndex] at hsender
    simp only [bind_eq_ok, require_eq_ok, exists_const, pure_eq, Except.ok.injEq, ne_eq,
      hs.getGuardianIndex, Decidable.not_not, hsender, false_or]
    constructor
    · intro h
      obtain ⟨g, hsigns, hmember, h⟩ := h
      exact ⟨⟨g, hmember, hsigns⟩, h⟩
    · intro h
      obtain ⟨⟨g, hmember, hsigns⟩, h⟩ := h
      exact ⟨g, hsigns, hmember, h⟩
  · rename_i hsender
    rw [hs.getGuardianIndex, Decidable.not_not] at hsender
    simp only [bind_eq_ok, require_eq_ok, exists_const, pure_eq, Except.ok.injEq, hsender, true_or,
      true_and]

theorem handle_paused {msg : Message} (h : m.handle P c msg = .ok m') :
    m'.paused = m.paused ∨ msg = .unpauseDeposits ∨
      ∃ blockNumber sig, msg = .pauseDeposits blockNumber sig ∧ m'.paused = true := by
  cases msg with
  | setOwner newValue =>
    simp only [handle, _setOwner, bind_eq_ok, pure_eq, Except.ok.injEq] at h
    obtain ⟨_, _, _, _, rfl⟩ := h
    exact .inl rfl
  | setPauseIntentValidityPeriodBlocks newValue =>
    simp only [handle, _setPauseIntentValidityPeriodBlocks, bind_eq_ok, pure_eq,
      Except.ok.injEq] at h
    obtain ⟨_, _, _, _, rfl⟩ := h
    exact .inl rfl
  | setMinDepositBlockDistance newValue =>
    simp only [handle, _setMinDepositBlockDistance, bind_eq_ok, pure_eq, Except.ok.injEq] at h
    obtain ⟨_, _, _, _, rfl⟩ := h
    left
    split
    · rfl
    · rfl
  | setNodeOperatorsRegistry | setMaxDeposits | setGuardianQuorum | setLastDepositBlock =>
    obtain ⟨_, _, h⟩ := bind_eq_ok.mp h
    cases h
    exact .inl rfl
  | addGuardian addr newQuorum =>
    simp only [handle, addGuardian, bind_eq_ok, pure_eq, Except.ok.injEq] at h
    obtain ⟨_, _, _, hadd, rfl⟩ := h
    obtain ⟨_, _, rfl⟩ := _addGuardian_ok hadd
    exact .inl rfl
  | addGuardians addresses newQuorum =>
    simp only [handle, addGuardians, bind_eq_ok, pure_eq, Except.ok.injEq] at h
    obtain ⟨_, _, _, hadd, rfl⟩ := h
    obtain ⟨⟨_, _, _, rfl⟩, _⟩ := _addGuardians_ok hadd
    exact .inl rfl
  | removeGuardian addr newQuorum =>
    obtain ⟨_, _, h⟩ := bind_eq_ok.mp h
    obtain ⟨_, _, _, rfl⟩ := removeGuardian_same h
    exact .inl rfl
  | pauseDeposits blockNumber sig =>
    rcases pauseDeposits_ok h with rfl | rfl
    · exact .inl rfl
    · exact .inr (.inr ⟨blockNumber, sig, rfl, rfl⟩)
  | unpauseDeposits => exact .inr (.inl rfl)

end DepositSecurityModule

def GuardedEvent.unpauses : GuardedEvent D G → Bool
  | .dsm _ .unpauseDeposits => true
  | _ => false

namespace GuardedWorld

variable {s s' s₀ : GuardedWorld} {e : GuardedEvent D G} {maxDeposits distance first last : ℕ}

def SameDeposits (s s' : GuardedWorld) : Prop :=
  s'.world.deposits = s.world.deposits ∧
    s'.world.lido.depositedValidators = s.world.lido.depositedValidators

theorem step_sameDeposits (hrole : e.othersMayDeposit = false)
    (hstep : (guardedSystem D L G).step s e = .ok s') :
    SameDeposits s s' ∨ ∃ c a, e = .deposit c a := by
  cases e with
  | world e hsender =>
    obtain ⟨world, hw, hs'⟩ := bind_eq_ok.mp hstep
    cases hs'
    left
    cases he : e.maxDeposits with
    | none => exact ⟨World.step_deposits_eq he hw, World.step_staked he hw⟩
    | some n =>
      cases e with
      | lido c m =>
        have hmay := World.step_depositRole he hw
        have hnone : c.canPerform .depositRole [] = false := hrole
        rw [hnone] at hmay
        cases hmay
      | registry | forceEther | fundVault | deployVault => cases he
  | dsm c m =>
    obtain ⟨dsm, _, hs'⟩ := bind_eq_ok.mp hstep
    cases hs'
    exact .inl ⟨rfl, rfl⟩
  | deposit c a => exact .inr ⟨c, a, rfl⟩

section Paused

/-- The owner leaves the pause alone, and nobody but the module may deposit. -/
def StaysPaused (_ : GuardedWorld) (e : GuardedEvent D G) : Prop :=
  e.unpauses = false ∧ e.othersMayDeposit = false

theorem paused_step (hpaused : s.dsm.paused = true) (hstays : StaysPaused s e)
    (hstep : (guardedSystem D L G).step s e = .ok s') :
    s'.dsm.paused = true ∧ SameDeposits s s' := by
  cases e with
  | world e hsender =>
    have hsame := step_sameDeposits hstays.2 hstep
    obtain ⟨world, _, hs'⟩ := bind_eq_ok.mp hstep
    cases hs'
    rcases hsame with hsame | ⟨_, _, hdeposit⟩
    · exact ⟨hpaused, hsame⟩
    · cases hdeposit
  | dsm c m =>
    obtain ⟨dsm, hdsm, hs'⟩ := bind_eq_ok.mp hstep
    cases hs'
    refine ⟨?_, rfl, rfl⟩
    rcases DepositSecurityModule.handle_paused hdsm with heq | rfl | ⟨_, _, _, h⟩
    · exact heq.trans hpaused
    · cases hstays.1
    · exact h
  | deposit c a =>
    obtain ⟨_, hdeposit, _⟩ := bind_eq_ok.mp hstep
    have hopen := (DepositSecurityModule.depositBufferedEther_eq_ok.mp hdeposit).2.1
    rw [hpaused] at hopen
    cases hopen

theorem paused_run (hpaused : s.dsm.paused = true)
    (hrun : Runs (guardedSystem D L G) StaysPaused s s') :
    s'.dsm.paused = true ∧ SameDeposits s s' := by
  apply hrun.invariant (P := fun t ↦ t.dsm.paused = true ∧ SameDeposits s t)
  · intro t e u hstays ht hstep
    obtain ⟨hu, hdeposits, hstaked⟩ := paused_step ht.1 hstays hstep
    exact ⟨hu, hdeposits.trans ht.2.1, hstaked.trans ht.2.2⟩
  · exact ⟨hpaused, rfl, rfl⟩

theorem pause_needs_alarm (h : Reachable (guardedSystem D L G) s₀)
    (hrun : Runs (guardedSystem D L G) (fun _ _ ↦ True) s₀ s) (hopen : s₀.dsm.paused = false)
    (hpaused : s.dsm.paused = true) :
    ∃ s₁ s₂ c blockNumber sig, Runs (guardedSystem D L G) (fun _ _ ↦ True) s₀ s₁ ∧
      (guardedSystem D L G).step s₁ (.dsm c (.pauseDeposits blockNumber sig)) = .ok s₂ ∧
      s₁.dsm.paused = false ∧ DepositSecurityModule.Alarm G.precompiles s₁.dsm c blockNumber sig ∧
      Runs (guardedSystem D L G) (fun _ _ ↦ True) s₂ s := by
  induction hrun with
  | refl =>
    rw [hopen] at hpaused
    cases hpaused
  | @step t u e hrun _ hstep ih =>
    cases ht : t.dsm.paused with
    | true =>
      obtain ⟨s₁, s₂, c, blockNumber, sig, hrun₁, hstep₁, hopen₁, halarm, hrun₂⟩ := ih ht
      exact ⟨s₁, s₂, c, blockNumber, sig, hrun₁, hstep₁, hopen₁, halarm,
        hrun₂.step trivial hstep⟩
    | false =>
      cases e with
      | world e hsender =>
        obtain ⟨world, _, hs'⟩ := bind_eq_ok.mp hstep
        cases hs'
        rw [ht] at hpaused
        cases hpaused
      | deposit c a =>
        rw [(step_deposit hstep).2.1, ht] at hpaused
        cases hpaused
      | dsm c m =>
        obtain ⟨dsm, hdsm, hs'⟩ := bind_eq_ok.mp hstep
        cases hs'
        rcases DepositSecurityModule.handle_paused hdsm with heq | rfl | ⟨blockNumber, sig, rfl, _⟩
        · rw [ht] at heq
          rw [heq] at hpaused
          cases hpaused
        · obtain ⟨_, _, hunpause⟩ := bind_eq_ok.mp hdsm
          cases hunpause
          rw [DepositSecurityModule.unpauseDeposits, if_neg (by rw [ht]; decide), ht] at hpaused
          cases hpaused
        · have hsane := sane_dsm (hrun.reachable h)
          have halarm := ((hsane.pauseDeposits_eq_ok ht).mp hdsm).1
          exact ⟨t, _, c, blockNumber, sig, hrun, hstep, ht, halarm, .refl _⟩

end Paused

section Damage

/-- What was staked since a state, at blocks of a window, given when the module last deposited. -/
def Damage (maxDeposits distance first last : ℕ) (s₀ s : GuardedWorld) : Prop :=
  s.world.lido.depositedValidators = s₀.world.lido.depositedValidators ∨
    first ≤ s.dsm.lastDepositBlock ∧ s.dsm.lastDepositBlock ≤ last ∧
      s.world.lido.depositedValidators ≤ s₀.world.lido.depositedValidators +
        maxDeposits * ((s.dsm.lastDepositBlock - first) / distance + 1)

theorem Damage.le (h : Damage maxDeposits distance first last s₀ s) :
    s.world.lido.depositedValidators ≤ s₀.world.lido.depositedValidators +
      maxDeposits * ((last - first) / distance + 1) := by
  rcases h with heq | ⟨_, hlast, hle⟩
  · rw [heq]
    exact Nat.le_add_right _ _
  · have hmono : (s.dsm.lastDepositBlock - first) / distance ≤ (last - first) / distance :=
      Nat.div_le_div_right (by omega)
    exact hle.trans (Nat.add_le_add_left (Nat.mul_le_mul_left _ (Nat.succ_le_succ hmono)) _)

theorem next_batch_le {block : ℕ} (hpos : 0 < distance) (hfirst : first ≤ last)
    (hnext : last + distance ≤ block) :
    maxDeposits * ((last - first) / distance + 1) + maxDeposits ≤
      maxDeposits * ((block - first) / distance + 1) := by
  have hone : (last - first) / distance + 1 ≤ (block - first) / distance := by
    rw [← Nat.add_div_right _ hpos]
    exact Nat.div_le_div_right (by omega)
  rw [← Nat.mul_succ]
  exact Nat.mul_le_mul_left _ (Nat.succ_le_succ hone)

theorem Damage.step (h : Damage maxDeposits distance first last s₀ s)
    (hr : Reachable (guardedSystem D L G) s) (hfixed : FixedRate maxDeposits distance s e)
    (hblock : ∀ b ∈ e.block, first ≤ b ∧ b ≤ last)
    (hstep : (guardedSystem D L G).step s e = .ok s') :
    Damage maxDeposits distance first last s₀ s' := by
  have hdistance := hfixed.distance
  have hpos : 0 < distance := hdistance ▸ (sane_dsm hr).distance
  cases e with
  | world e hsender =>
    have hsame := step_sameDeposits hfixed.depositRole hstep
    obtain ⟨world, _, hs'⟩ := bind_eq_ok.mp hstep
    cases hs'
    rcases hsame with ⟨_, hstaked⟩ | ⟨_, _, hdeposit⟩
    · rwa [Damage, hstaked]
    · cases hdeposit
  | dsm c m =>
    obtain ⟨dsm, hdsm, hs'⟩ := bind_eq_ok.mp hstep
    cases hs'
    have hlast := (DepositSecurityModule.handle_ok hdsm).lastDepositBlock fun n hn ↦ by
      have hset := hfixed.lastDepositBlock
      subst hn
      cases hset
    rwa [Damage, hlast]
  | deposit c a =>
    obtain ⟨hw, hdsm, hspaced, _⟩ := step_deposit hstep
    obtain ⟨hfirst, hlast⟩ := hblock c.blockNumber rfl
    have hstaked := staked_le (jointSane (reachable_world hr)) hw
    rw [hfixed.maxDeposits] at hstaked
    rw [hdistance] at hspaced
    have hnow : s'.dsm.lastDepositBlock = c.blockNumber := by rw [hdsm]
    right
    rw [hnow]
    refine ⟨hfirst, hlast, ?_⟩
    rcases h with heq | ⟨hfirst', _, hle⟩
    · have hone : maxDeposits ≤ maxDeposits * ((c.blockNumber - first) / distance + 1) :=
        Nat.le_mul_of_pos_right _ (Nat.succ_pos _)
      omega
    · have hnext : maxDeposits * ((s.dsm.lastDepositBlock - first) / distance + 1) + maxDeposits ≤
          maxDeposits * ((c.blockNumber - first) / distance + 1) :=
        next_batch_le hpos hfirst' hspaced
      omega

end Damage

/-- Deposits are paused by guardians alone and by any one of them: a pause comes from an alarm that
was not too old, every alarm pauses, and from then on nothing is deposited until the owner unpauses.
With the limits fixed, what was staked in the blocks before it is bounded. -/
theorem deposits_pause_on_alarm (h : Reachable (guardedSystem D L G) s₀) :
    (∀ s, Runs (guardedSystem D L G) (fun _ _ ↦ True) s₀ s → s₀.dsm.paused = false →
      s.dsm.paused = true →
      ∃ s₁ s₂ c blockNumber sig, Runs (guardedSystem D L G) (fun _ _ ↦ True) s₀ s₁ ∧
        (guardedSystem D L G).step s₁ (.dsm c (.pauseDeposits blockNumber sig)) = .ok s₂ ∧
        s₁.dsm.paused = false ∧
        DepositSecurityModule.Alarm G.precompiles s₁.dsm c blockNumber sig ∧
        Runs (guardedSystem D L G) (fun _ _ ↦ True) s₂ s) ∧
    ∀ s₁ c blockNumber sig maxDeposits distance first,
      Runs (guardedSystem D L G) (fun s e ↦ FixedRate maxDeposits distance s e ∧
        ∀ b ∈ e.block, first ≤ b ∧ b ≤ c.blockNumber) s₀ s₁ →
      DepositSecurityModule.Alarm G.precompiles s₁.dsm c blockNumber sig →
      ∃ s₂, (guardedSystem D L G).step s₁ (.dsm c (.pauseDeposits blockNumber sig)) = .ok s₂ ∧
        ∀ s₃, Runs (guardedSystem D L G) StaysPaused s₂ s₃ →
          s₃.dsm.paused = true ∧ s₃.world.deposits = s₁.world.deposits ∧
          s₃.world.lido.depositedValidators ≤ s₀.world.lido.depositedValidators +
            maxDeposits * ((c.blockNumber - first) / distance + 1) := by
  refine ⟨fun s hrun ↦ pause_needs_alarm h hrun, ?_⟩
  intro s₁ c blockNumber sig maxDeposits distance first hrun halarm
  have hr := hrun.reachable h
  have hdamage : Damage maxDeposits distance first c.blockNumber s₀ s₁ := by
    refine (hrun.invariant (P := fun s ↦ Reachable (guardedSystem D L G) s ∧
      Damage maxDeposits distance first c.blockNumber s₀ s) ?_ ⟨h, .inl rfl⟩).2
    intro s e s' hp hs hstep
    exact ⟨hs.1.step hstep, hs.2.step hs.1 hp.1 hp.2 hstep⟩
  obtain ⟨dsm, hpause, hpaused⟩ : ∃ dsm, s₁.dsm.pauseDeposits G.precompiles c blockNumber sig =
      .ok dsm ∧ dsm.paused = true := by
    cases hopen : s₁.dsm.paused with
    | true =>
      refine ⟨s₁.dsm, ?_, hopen⟩
      rw [DepositSecurityModule.pauseDeposits, if_pos hopen, pure_eq]
    | false => exact ⟨_, ((sane_dsm hr).pauseDeposits_eq_ok hopen).mpr ⟨halarm, rfl⟩, rfl⟩
  refine ⟨{ s₁ with dsm }, bind_eq_ok.mpr ⟨dsm, hpause, rfl⟩, ?_⟩
  intro s₃ hrun₃
  obtain ⟨hpaused₃, hdeposits, hstaked⟩ := paused_run (s := { s₁ with dsm }) hpaused hrun₃
  exact ⟨hpaused₃, hdeposits, hstaked ▸ hdamage.le⟩

end GuardedWorld

namespace Sample

def guardianCall (blockNumber : ℕ) : ModuleCall := { moduleCall blockNumber with sender := 11 }

/-- The guardian eleven pauses four blocks after the start, when one batch is staked. -/
theorem guardian_stops_deposits : ∃ s₀ s₁ s₂,
    Reachable (guardedSystem deployment layout guarding) s₀ ∧
    s₁.world.lido.depositedValidators = s₀.world.lido.depositedValidators + 1 ∧
    (guardedSystem deployment layout guarding).step s₁
      (.dsm (guardianCall 22) (.pauseDeposits 22 { r := 0, vs := 0 })) = .ok s₂ ∧
    (∃ s c blockNumber sig, s.dsm.paused = false ∧
      DepositSecurityModule.Alarm guarding.precompiles s.dsm c blockNumber sig ∧
      Runs (guardedSystem deployment layout guarding) (fun _ _ ↦ True) s₀ s) ∧
    ∀ s₃, Runs (guardedSystem deployment layout guarding) GuardedWorld.StaysPaused s₂ s₃ →
      s₃.world.lido.depositedValidators ≤ s₀.world.lido.depositedValidators +
        1 * ((22 - 18) / 5 + 1) := by
  have hrun : reaches (jointSystem deployment layout) start depositRun (fun w ↦
      reaches (guardedSystem deployment layout guarding) ⟨deployedModule, w⟩ setupModule fun s ↦
        decide (s.world.lido.depositedValidators = 0 ∧ s.dsm.paused = false) &&
        reachesBy (guardedSystem deployment layout guarding)
          (fun s e ↦ FixedRate 1 5 s e ∧ ∀ b ∈ e.block, 18 ≤ b ∧ b ≤ 22)
          (fun s ↦ decide (s.world.lido.depositedValidators = 1 ∧
            s.dsm.guardians = [11, 12, 13]))
          s [.deposit (guardedCall 20) (attestation 2)]) = true := by
    decide +kernel
  obtain ⟨s₀, hs₀, hq⟩ := guarded_of_run hrun
  rw [Bool.and_eq_true, decide_eq_true_eq] at hq
  obtain ⟨⟨hnone, hopen⟩, hdeposit⟩ := hq
  obtain ⟨s₁, hruns, hone⟩ := Runs.of_reachesBy hdeposit
  obtain ⟨hstaked, hguardians⟩ := of_decide_eq_true hone
  have hmember : (guardianCall 22).sender ∈ s₁.dsm.members := by
    rw [DepositSecurityModule.mem_members, hguardians]
    exact List.mem_cons_self
  have halarm : DepositSecurityModule.Alarm guarding.precompiles s₁.dsm (guardianCall 22) 22
      { r := 0, vs := 0 } := ⟨.inl hmember, le_rfl, Nat.le_add_right _ _⟩
  obtain ⟨hneeded, hpauses⟩ := GuardedWorld.deposits_pause_on_alarm hs₀
  obtain ⟨s₂, hstep, hafter⟩ := hpauses s₁ _ _ _ 1 5 18 hruns halarm
  have hruns₂ : Runs (guardedSystem deployment layout guarding) (fun _ _ ↦ True) s₀ s₂ :=
    (hruns.mono fun _ _ _ ↦ trivial).step trivial hstep
  obtain ⟨s, _, c, blockNumber, sig, hrun₁, _, hopen₁, halarm₁, _⟩ :=
    hneeded s₂ hruns₂ hopen (hafter s₂ (.refl s₂)).1
  refine ⟨s₀, s₁, s₂, hs₀, by rw [hstaked, hnone], hstep,
    ⟨s, c, blockNumber, sig, hopen₁, halarm₁, hrun₁⟩, ?_⟩
  intro s₃ hrun₃
  exact (hafter s₃ hrun₃).2.2

end Sample

end LidoDao
