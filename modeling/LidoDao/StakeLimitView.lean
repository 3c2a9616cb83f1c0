import LidoDao.StakingRate
import LidoDao.TokenTransfers

namespace LidoDao

open Evm Library.Outcome Library.Transition SafeMath StakeLimit

variable {R ρ : Type} {D : Deployment} {I : INodeOperatorsRegistry R ρ}

namespace Lido

variable {s s' : Lido} {v blockNumber : ℕ} {msgSender : Address}

structure Fits (s : Lido) (v : ℕ) : Prop where
  pooled : s.pooled + v < wordLimit
  product : s.pooled = 0 ∨ v * s.totalShares < wordLimit
  totalShares : s.totalShares + World.mintedShares s.pooled s.totalShares v < wordLimit
  worth : World.mintedShares s.pooled s.totalShares v * (s.pooled + v) < wordLimit

theorem consumeStakeLimit_isOk (hpaused : s.stakeLimit.isStakingPaused = false) :
    (∃ s', s.consumeStakeLimit v blockNumber = .ok s') ↔
      (s.stakeLimit.isStakingLimitSet = true →
        v ≤ s.stakeLimit.calculateCurrentStakeLimit blockNumber) := by
  simp only [consumeStakeLimit_eq_ok hpaused]
  constructor
  · intro h hset
    obtain ⟨_, ⟨hunset, _⟩ | ⟨_, hle, _⟩⟩ := h
    · rw [hset] at hunset
      cases hunset
    · exact hle
  · intro hle
    cases hset : s.stakeLimit.isStakingLimitSet with
    | false => exact ⟨s, .inl ⟨rfl, rfl⟩⟩
    | true => exact ⟨_, .inr ⟨rfl, hle hset, rfl⟩⟩

theorem emit_isOk {n : ℕ} (hpos : 0 < s.totalShares) :
    (∃ u, s._emitTransferAfterMintingShares n = .ok u) ↔
      EtherBooks.Sound s.books ∧ s.pooled < wordLimit ∧ n * s.pooled < wordLimit := by
  simp only [_emitTransferAfterMintingShares, StETH._emitTransferAfterMintingShares, bind_eq_ok,
    StETH.getPooledEthByShares_eq_ok, _getTotalPooledEther_eq_ok, pure_eq]
  constructor
  · intro h
    obtain ⟨_, _, ⟨hzero, _⟩ | ⟨_, _, ⟨hsound, hlt, rfl⟩, hworth, _⟩, _⟩ := h
    · omega
    · exact ⟨hsound, hlt, hworth⟩
  · intro h
    obtain ⟨hsound, hlt, hworth⟩ := h
    exact ⟨(), _, .inr ⟨hpos, _, ⟨hsound, hlt, rfl⟩, hworth, rfl⟩, trivial⟩

def submitted (s : Lido) (msgSender : Address) (v m : ℕ) (slot : BitVec 256) : Lido :=
  { s with
    totalShares := s.totalShares + m
    shares := Function.update s.shares msgSender (s.shares msgSender + m)
    balance := s.balance + v
    bufferedEther := s.bufferedEther + v
    stakingState := slot }

theorem pooled_submitted (m : ℕ) (slot : BitVec 256) :
    (s.submitted msgSender v m slot).pooled = s.pooled + v := by
  simp only [pooled, books, EtherBooks.Books.pooled, EtherBooks.Books.inTransit, submitted]
  omega

theorem sound_submitted (hs : s.Sane) (m : ℕ) (slot : BitVec 256) :
    EtherBooks.Sound (s.submitted msgSender v m slot).books :=
  ⟨Nat.add_le_add_right hs.sound.backed v, hs.sound.seen⟩

theorem mintedShares_pos {T S : ℕ} (hv : v ≠ 0) : 0 < World.mintedShares T S v := by
  rw [World.mintedShares]
  split
  · exact Nat.pos_of_ne_zero hv
  · exact Nat.pos_of_ne_zero ‹_›

theorem submit_isOk (hs : s.Sane) : (∃ p, s.submit msgSender v blockNumber = .ok p) ↔
    v ≠ 0 ∧ s.stakeLimit.isStakingPaused = false ∧
      (s.stakeLimit.isStakingLimitSet = true →
        v ≤ s.stakeLimit.calculateCurrentStakeLimit blockNumber) ∧
      s.activeFlag = true ∧ msgSender ≠ 0 ∧ s.Fits v := by
  simp only [submit, _submit, bind_eq_ok, require_eq_ok, exists_const, _mintShares, onToken_eq_ok,
    _getBufferedEther_eq_ok, add_eq_ok, pure_eq, Except.ok.injEq, Bool.not_eq_true']
  constructor
  · intro h
    obtain ⟨p, hv, hpaused, s₁, hs₁, n, hn, s₂, ⟨t, ht, rfl⟩, _, ⟨_, rfl⟩, _, ⟨_, rfl⟩, u, hu,
      _⟩ := h
    have hlimit := (consumeStakeLimit_isOk hpaused).mp ⟨s₁, hs₁⟩
    obtain ⟨slot, rfl⟩ := consumeStakeLimit_ok hs₁
    obtain ⟨_, _, hproduct, rfl⟩ := getSharesByPooledEth_eq_ok.mp hn
    obtain ⟨hactive, hsender, htotal, _, rfl⟩ := StETH._mintShares_eq_ok.mp ht
    have hemit := (emit_isOk (s := s.submitted msgSender v
      (World.mintedShares s.pooled s.totalShares v) slot)
        (Nat.lt_of_lt_of_le (mintedShares_pos hv) (Nat.le_add_left _ _))).mp ⟨u, hu⟩
    rw [pooled_submitted] at hemit
    exact ⟨hv, hpaused, hlimit, hactive, hsender, hemit.2.1, hproduct, htotal, hemit.2.2⟩
  · intro h
    obtain ⟨hv, hpaused, hlimit, hactive, hsender, hfits⟩ := h
    obtain ⟨s₁, hs₁⟩ := (consumeStakeLimit_isOk (s := s.receive v) hpaused).mpr hlimit
    obtain ⟨slot, rfl⟩ := consumeStakeLimit_ok hs₁
    have hsound : EtherBooks.Sound (s.submitted msgSender v
        (World.mintedShares s.pooled s.totalShares v) slot).books :=
      sound_submitted hs _ slot
    obtain ⟨u, hu⟩ := (emit_isOk (n := World.mintedShares s.pooled s.totalShares v)
      (s := s.submitted msgSender v (World.mintedShares s.pooled s.totalShares v) slot)
      (Nat.lt_of_lt_of_le (mintedShares_pos hv) (Nat.le_add_left _ _))).mpr
        ⟨hsound, by rw [pooled_submitted]; exact hfits.pooled,
          by rw [pooled_submitted]; exact hfits.worth⟩
    have hheld : s.shares msgSender ≤ s.totalShares :=
      (Library.Ledger.le_sum s.shares msgSender).trans_eq hs.balanced
    have htotal := hfits.totalShares
    have hbuffered : s.bufferedEther + v < wordLimit := by
      have hle : s.bufferedEther ≤ s.pooled := (Nat.le_add_right _ _).trans (Nat.le_add_right _ _)
      have hlt := hfits.pooled
      omega
    have hshares : ({ s.receive v with stakingState := slot } : Lido).getSharesByPooledEth v =
        .ok (v * s.totalShares / s.pooled) :=
      getSharesByPooledEth_eq_ok.mpr ⟨⟨hs.sound.backed.trans (Nat.le_add_right _ _), hs.sound.seen⟩,
        (Nat.le_add_right _ _).trans_lt hfits.pooled, hfits.product, rfl⟩
    exact ⟨_, hv, hpaused, _, hs₁, _, hshares, _, ⟨_, StETH._mintShares_eq_ok.mpr
      ⟨hactive, hsender, htotal, (Nat.add_le_add_right hheld _).trans_lt htotal, rfl⟩, rfl⟩, _,
      ⟨hs.sound.backed.trans (Nat.le_add_right _ _), rfl⟩, _, ⟨hbuffered, rfl⟩, u, hu, rfl⟩

theorem le_getCurrentStakeLimit (hpos : 0 < v) (hlt : v < wordLimit) :
    v ≤ s.getCurrentStakeLimit blockNumber ↔ s.stakeLimit.isStakingPaused = false ∧
      (s.stakeLimit.isStakingLimitSet = true →
        v ≤ s.stakeLimit.calculateCurrentStakeLimit blockNumber) := by
  have hview : s.getCurrentStakeLimit blockNumber =
      _getCurrentStakeLimit s.stakeLimit blockNumber := rfl
  rw [hview, _getCurrentStakeLimit]
  cases hpaused : s.stakeLimit.isStakingPaused with
  | true =>
    rw [if_pos rfl]
    exact ⟨fun hle ↦ absurd hle (by omega), nofun⟩
  | false =>
    rw [if_neg Bool.false_ne_true]
    cases hset : s.stakeLimit.isStakingLimitSet with
    | false =>
      rw [Bool.not_false, if_pos rfl]
      exact ⟨fun _ ↦ ⟨rfl, nofun⟩, fun _ ↦ Nat.le_sub_one_of_lt hlt⟩
    | true =>
      rw [Bool.not_true, if_neg Bool.false_ne_true]
      exact ⟨fun hle ↦ ⟨rfl, fun _ ↦ hle⟩, fun h ↦ h.2 rfl⟩

theorem getCurrentStakeLimit_lt (hpos : 0 < v) (hlt : v < wordLimit) :
    s.getCurrentStakeLimit blockNumber < v ↔ s.stakeLimit.isStakingPaused = true ∨
      (s.stakeLimit.isStakingLimitSet = true ∧
        s.stakeLimit.calculateCurrentStakeLimit blockNumber < v) := by
  rw [← not_le, le_getCurrentStakeLimit hpos hlt, not_and_or, Bool.not_eq_false,
    Classical.not_imp, not_le]

end Lido

theorem World.submit_accepted {w : World R} {c : LidoCall D} {referral : Address} {v : ℕ} :
    (∃ w', World.step D I w (.lido c (.submit referral v)) = .ok w') ↔
      ∃ p, w.lido.submit c.sender v c.blockNumber = .ok p := by
  simp only [World.step, World.submit_eq_ok]
  constructor
  · intro h
    obtain ⟨_, n, s, h, _⟩ := h
    exact ⟨(n, s), h⟩
  · intro h
    obtain ⟨⟨n, s⟩, h⟩ := h
    exact ⟨_, n, s, h, rfl⟩

/-- A stopped pool lets no payment in. -/
def Gate.Shut (g : Gate) : Prop := g.activeFlag = false → g.limit.isStakingPaused = true

/-- Staking is resumed on its own only while the pool is not stopped. -/
def Event.ResumesActive (w : World R) (e : Event D ρ) : Prop :=
  ∀ c, e = .lido c .resumeStaking → w.lido.activeFlag = true

theorem StakeLimit.Data.setStakingLimit_paused {d d' : Data} {m n blockNumber : ℕ}
    (h : d.setStakingLimit m n blockNumber = .ok d') (hpaused : d.isStakingPaused = true) :
    d'.isStakingPaused = true := by
  simp only [setStakingLimit, bind_eq_ok, pure_eq, Except.ok.injEq] at h
  obtain ⟨_, _, _, _, _, _, _, _, rfl⟩ := h
  have hzero : d.prevStakeBlockNumber = 0 := by simpa [isStakingPaused] using hpaused
  simp [isStakingPaused, hzero]

namespace Gate.Shut

variable {w : World R} {e : Event D ρ} {g' : Gate}

theorem change (h : w.lido.gate.Shut) (hchange : GateChange w.lido.gate e g')
    (hactive : e.ResumesActive w) : g'.Shut := by
  cases hchange with
  | idle | unlimited => exact h
  | consumed _ hpaused =>
    intro hstopped
    rw [h hstopped] at hpaused
    cases hpaused
  | stopped | stakingPaused => exact fun _ ↦ rfl
  | resumed => exact nofun
  | stakingResumed =>
    intro hstopped
    have hflag : w.lido.gate.activeFlag = true := hactive _ rfl
    rw [hflag] at hstopped
    cases hstopped
  | limited hd => exact fun hstopped ↦ Data.setStakingLimit_paused hd (h hstopped)
  | removed => exact h

theorem of_runs {w₀ : World R} (hinit : (World.machine D I).initial w₀)
    (hrun : Runs (World.machine D I) Event.ResumesActive w₀ w) : w.lido.gate.Shut := by
  refine hrun.invariant (P := fun w ↦ w.lido.gate.Shut) ?_ ?_
  · intro w e w' hactive hshut hstep
    exact hshut.change (World.gate_change hstep) hactive
  · obtain ⟨⟨_, _, _, _, hlido⟩, _⟩ := hinit
    obtain ⟨_, hlido⟩ := Lido._setProtocolContracts_ok hlido
    have hslot : w₀.lido.stakingState = 0 := by
      rw [hlido]
      rfl
    have hpaused : w₀.lido.stakeLimit.isStakingPaused = true := by
      rw [Lido.stakeLimit, hslot]
      decide
    exact fun _ ↦ hpaused

end Gate.Shut

/-- A submit is accepted exactly up to the published limit, where the pool is not stopped
and no word overflows, or where the limit keeps it out anyway. As long as staking is not
resumed on its own in a stopped pool, a stopped pool publishes no limit. -/
theorem stake_limit_is_real_iff {w : World R} (hw : Reachable (World.machine D I) w) :
    (∀ (c : LidoCall D) (referral : Address) (v : ℕ), 0 < v → v < wordLimit →
      (((∃ w', World.step D I w (.lido c (.submit referral v)) = .ok w') ↔
          v ≤ w.lido.getCurrentStakeLimit c.blockNumber) ↔
        (w.lido.activeFlag = true ∧ c.sender ≠ 0 ∧ w.lido.Fits v) ∨
          w.lido.stakeLimit.isStakingPaused = true ∨
          (w.lido.stakeLimit.isStakingLimitSet = true ∧
            w.lido.stakeLimit.calculateCurrentStakeLimit c.blockNumber < v))) ∧
    (∀ w₀, (World.machine D I).initial w₀ →
      Runs (World.machine D I) Event.ResumesActive w₀ w →
      ∀ (c : LidoCall D) (referral : Address) (v : ℕ), 0 < v → c.sender ≠ 0 → w.lido.Fits v →
        ((∃ w', World.step D I w (.lido c (.submit referral v)) = .ok w') ↔
          v ≤ w.lido.getCurrentStakeLimit c.blockNumber)) := by
  have hs := World.sane hw
  have hiff (c : LidoCall D) (referral : Address) {v : ℕ} (hpos : 0 < v) (hlt : v < wordLimit) :
      (∃ w', World.step D I w (.lido c (.submit referral v)) = .ok w') ↔
        v ≤ w.lido.getCurrentStakeLimit c.blockNumber ∧
          w.lido.activeFlag = true ∧ c.sender ≠ 0 ∧ w.lido.Fits v := by
    rw [World.submit_accepted, Lido.submit_isOk hs, Lido.le_getCurrentStakeLimit hpos hlt]
    have hne : v ≠ 0 := hpos.ne'
    tauto
  refine ⟨fun c referral v hpos hlt ↦ ?_, fun w₀ hinit hrun c referral v hpos hsender hfits ↦ ?_⟩
  · rw [hiff c referral hpos hlt, ← Lido.getCurrentStakeLimit_lt hpos hlt, ← not_le]
    tauto
  · have hlt : v < wordLimit := (Nat.le_add_left _ _).trans_lt hfits.pooled
    have hshut := Gate.Shut.of_runs hinit hrun
    rw [hiff c referral hpos hlt]
    refine ⟨fun h ↦ h.1, fun hle ↦ ⟨hle, ?_, hsender, hfits⟩⟩
    have hopen := ((Lido.le_getCurrentStakeLimit hpos hlt).mp hle).1
    cases hactive : w.lido.activeFlag with
    | true => rfl
    | false =>
      have hpaused : w.lido.stakeLimit.isStakingPaused = true := hshut hactive
      rw [hpaused] at hopen
      cases hopen

namespace Sample

/-- Staking is resumed on its own in a stopped pool. -/
def resumedWhileStopped : List (Event deployment (RegistryCall deployment)) :=
  limitedRun ++ [admin .stop, admin .resumeStaking]

/-- The published limit is a hundred ether, and not one wei gets in. -/
theorem limit_of_a_stopped_pool : ∃ w, Reachable (jointSystem deployment layout) w ∧
    w.lido.getCurrentStakeLimit 10 = 100 * 10 ^ 18 ∧
    ¬((∃ w', (jointSystem deployment layout).step w (admin (.submit 0 1)) = .ok w') ↔
      1 ≤ w.lido.getCurrentStakeLimit 10) := by
  have hrun : reaches (jointSystem deployment layout) start resumedWhileStopped (fun w ↦
      decide (w.lido.getCurrentStakeLimit 10 = 100 * 10 ^ 18) &&
        !((jointSystem deployment layout).step w (admin (.submit 0 1))).isOk) = true := by
    decide +kernel
  obtain ⟨w, hw, hp⟩ := reachable_of_run hrun
  simp only [Bool.and_eq_true, decide_eq_true_eq, Bool.not_eq_true'] at hp
  obtain ⟨hlimit, hfail⟩ := hp
  refine ⟨w, hw, hlimit, fun hiff ↦ ?_⟩
  obtain ⟨w', hw'⟩ := hiff.mpr (by rw [hlimit]; decide)
  rw [hw'] at hfail
  cases hfail

/-- Sixty of the hundred ether of a limit are within it and are accepted. -/
theorem sixty_of_a_hundred_pass : ∃ w, Reachable (jointSystem deployment layout) w ∧
    w.lido.getCurrentStakeLimit 11 = 100 * 10 ^ 18 ∧
    ∃ w', (jointSystem deployment layout).step w (inBlock 11 (.submit 0 (60 * 10 ^ 18))) =
      .ok w' := by
  have hrun : reaches (jointSystem deployment layout) start limitedRun (fun w ↦
      decide (w.lido.activeFlag = true) &&
        decide (w.lido.getCurrentStakeLimit 11 = 100 * 10 ^ 18) &&
        decide (w.lido.pooled = 0) && decide (w.lido.totalShares = 0)) = true := by
    decide +kernel
  obtain ⟨w, hw, hp⟩ := reachable_of_run hrun
  simp only [Bool.and_eq_true, decide_eq_true_eq] at hp
  obtain ⟨⟨⟨hactive, hlimit⟩, hpooled⟩, htotal⟩ := hp
  have hfits : w.lido.Fits (60 * 10 ^ 18) := by
    refine ⟨?_, .inl hpooled, ?_, ?_⟩
    · rw [hpooled, wordLimit]
      decide
    · rw [hpooled, htotal, wordLimit]
      decide
    · rw [hpooled, htotal, wordLimit]
      decide
  have hreal := (stake_limit_is_real_iff hw).1
    { sender := 5, sender_ne_lido := by decide, blockNumber := 11, canPerform := fun _ _ ↦ true
      depositAccepts := fun _ _ ↦ true, recoveryVault := 9
      recoveryVault_ne_lido := by decide, recoveryAccepts := true, tokenTransfers := true }
    0 (60 * 10 ^ 18) (by decide) ((Nat.le_add_left _ _).trans_lt hfits.pooled)
  refine ⟨w, hw, hlimit, (hreal.mpr (.inl ⟨hactive, by decide, hfits⟩)).mpr ?_⟩
  rw [hlimit]
  decide

end Sample

end LidoDao
