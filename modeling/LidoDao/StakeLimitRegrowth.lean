import LidoDao.StakeLimitView

namespace LidoDao

open Evm Library.Outcome Library.Transition Library.TokenBucket StakeLimit

variable {R ρ : Type} {D : Deployment} {I : INodeOperatorsRegistry R ρ}

namespace StakeLimit.Data

variable {d d' : Data} {M inc b last : ℕ}

structure Limited (M inc : ℕ) (d : Data) : Prop where
  maximum : d.maxStakeLimit.toNat = M
  growth : d.maxStakeLimitGrowthBlocks.toNat = M / inc

theorem Limited.change {e : Event D ρ} {g g' : Gate} (h : g.limit.Limited M inc)
    (hchange : GateChange g e g') (hkeeps : e.setsLimit = false) : g'.limit.Limited M inc := by
  cases hchange with
  | idle | unlimited | consumed | stopped | resumed | stakingPaused | stakingResumed =>
    exact ⟨h.maximum, h.growth⟩
  | limited | removed => cases hkeeps

theorem Limited.increase (h : d.Limited M inc) (hle : inc ≤ M) (hinc : 0 < inc) :
    d.increasePerBlock = M / (M / inc) := by
  have hpos : 0 < M / inc := Nat.div_pos hle hinc
  have hgrowth := h.growth
  rw [increasePerBlock, if_neg, h.maximum, h.growth]
  intro hzero
  rw [hzero] at hgrowth
  exact absurd hgrowth hpos.ne

theorem Limited.isSet (h : d.Limited M inc) (hpos : 0 < M) : d.isStakingLimitSet = true := by
  have hne : d.maxStakeLimit ≠ 0 := by
    intro hzero
    have hmaximum := h.maximum
    rw [hzero] at hmaximum
    exact absurd hmaximum hpos.ne
  simpa [isStakingLimitSet] using hne

theorem Limited.restored {k : ℕ} (h : d.Limited M inc) (hdvd : inc ∣ M)
    (hk : d.maxStakeLimitGrowthBlocks.toNat ≤ k) : min M (k * inc) = M := by
  rw [h.growth] at hk
  have hmul := Nat.mul_le_mul_right inc hk
  rw [Nat.div_mul_cancel hdvd] at hmul
  exact Nat.min_eq_left hmul

theorem setStakingLimit_bounds {m n blockNumber : ℕ}
    (h : d.setStakingLimit m n blockNumber = .ok d') : 0 < m ∧ n ≤ m := by
  simp only [setStakingLimit, bind_eq_ok, require_eq_ok, exists_const] at h
  exact ⟨Nat.pos_of_ne_zero h.1, h.2.2.1⟩

/-- The limit was exhausted in a block; nothing was paid in since. -/
structure Exhausted (M inc b last : ℕ) (d : Data) : Prop where
  limited : d.Limited M inc
  empty : d.prevStakeLimit.toNat = 0
  since : d.isStakingPaused = false →
    b ≤ d.prevStakeBlockNumber.toNat ∧ d.prevStakeBlockNumber.toNat ≤ last

theorem Exhausted.start (h : d.Limited M inc) (hlast : b ≤ last) (hblock : last < 2 ^ 32) :
    (d.consumed (d.calculateCurrentStakeLimit b) b).Exhausted M inc b last := by
  refine ⟨⟨h.maximum, h.growth⟩, ?_, fun _ ↦ ?_⟩
  · rw [consumed_limit, Nat.sub_self]
  · have hword : (BitVec.ofNat 32 b).toNat = b := Nat.mod_eq_of_lt (by omega)
    rw [consumed, hword]
    exact ⟨le_rfl, hlast⟩

theorem Exhausted.change {e : Event D ρ} {g g' : Gate} (h : g.limit.Exhausted M inc b last)
    (hchange : GateChange g e g') (hkeeps : e.setsLimit = false) (hquiet : e.submitted = none)
    (hclock : ∀ t, e.block = some t → b ≤ t ∧ t ≤ last) (hblock : last < 2 ^ 32) :
    g'.limit.Exhausted M inc b last := by
  refine ⟨h.limited.change hchange hkeeps, ?_, fun hpaused ↦ ?_⟩
  · cases hchange with
    | idle | unlimited | stopped | resumed | stakingPaused | stakingResumed => exact h.empty
    | consumed he =>
      rw [hquiet] at he
      cases he
    | limited | removed => cases hkeeps
  · cases hchange with
    | idle | unlimited => exact h.since hpaused
    | consumed he =>
      rw [hquiet] at he
      cases he
    | stopped | stakingPaused => cases hpaused
    | @resumed c | @stakingResumed c =>
      have hbounds := hclock _ rfl
      have hword : (BitVec.ofNat 32 c.blockNumber).toNat = c.blockNumber :=
        Nat.mod_eq_of_lt (by omega)
      rw [setStakeLimitPauseState, if_neg Bool.false_ne_true, hword]
      exact hbounds
    | limited | removed => cases hkeeps

end StakeLimit.Data

theorem Lido.getCurrentStakeLimit_of_paused {s : Lido} {blockNumber : ℕ}
    (hpaused : s.stakeLimit.isStakingPaused = true) : s.getCurrentStakeLimit blockNumber = 0 :=
  if_pos hpaused

theorem Lido.getCurrentStakeLimit_of_set {s : Lido} {blockNumber : ℕ}
    (hpaused : s.stakeLimit.isStakingPaused = false)
    (hset : s.stakeLimit.isStakingLimitSet = true) :
    s.getCurrentStakeLimit blockNumber = s.stakeLimit.calculateCurrentStakeLimit blockNumber := by
  have hview : s.getCurrentStakeLimit blockNumber =
      _getCurrentStakeLimit s.stakeLimit blockNumber := rfl
  rw [hview, _getCurrentStakeLimit, hpaused, hset]
  rfl

theorem Event.payment_eq_some {e : Event D ρ} {b v : ℕ} :
    e.payment = some (b, v) ↔ e.block = some b ∧ e.submitted = some v := by
  simp only [payment, Option.bind_eq_bind, Option.bind_eq_some_iff, Option.pure_def,
    Option.some.injEq, Prod.mk.injEq]
  constructor
  · intro h
    obtain ⟨_, hblock, _, hpaid, rfl, rfl⟩ := h
    exact ⟨hblock, hpaid⟩
  · intro h
    obtain ⟨hblock, hpaid⟩ := h
    exact ⟨b, hblock, v, hpaid, rfl, rfl⟩

namespace World

variable {w w' : World R} {e : Event D ρ} {c : LidoCall D} {M inc b last : ℕ}

theorem limited_run (hset : step D I w (.lido c (.setStakingLimit M inc)) = .ok w') {u : World R}
    (hrun : Runs (machine D I) (fun _ e ↦ e.setsLimit = false) w' u) :
    u.lido.stakeLimit.Limited M inc := by
  obtain ⟨hmaximum, hgrowth, _⟩ := setStakingLimit_stored hset
  refine hrun.invariant (P := fun u ↦ u.lido.stakeLimit.Limited M inc) ?_ ⟨hmaximum, hgrowth⟩
  intro u e u' hkeeps hu hstep
  exact Data.Limited.change (g := u.lido.gate) hu (gate_change hstep) hkeeps

theorem setStakingLimit_bounds
    (hset : step D I w (.lido c (.setStakingLimit M inc)) = .ok w') : 0 < M ∧ inc ≤ M := by
  cases step_effect hset with
  | setStakingLimit _ hd => exact Data.setStakingLimit_bounds hd

theorem exhausted_submit (h : w.lido.stakeLimit.Limited M inc) (hpos : 0 < M)
    (hlast : b ≤ last) (hblock : last < 2 ^ 32)
    (hpaid : e.payment = some (b, w.lido.getCurrentStakeLimit b))
    (hstep : step D I w e = .ok w') : w'.lido.stakeLimit.Exhausted M inc b last := by
  obtain ⟨hb, hv⟩ := Event.payment_eq_some.mp hpaid
  have hset : w.lido.stakeLimit.isStakingLimitSet = true := h.isSet hpos
  have hchange := gate_change hstep
  generalize hg : w'.lido.gate = g' at hchange
  have hlimit : w'.lido.stakeLimit = g'.limit := congrArg Gate.limit hg
  rw [hlimit]
  cases hchange with
  | idle he =>
    rw [hv] at he
    cases he
  | unlimited _ hunset =>
    have hunset : w.lido.stakeLimit.isStakingLimitSet = false := hunset
    rw [hset] at hunset
    cases hunset
  | @consumed c m v he hpaused _ =>
    have hblockNumber : c.blockNumber = b := Option.some.inj hb
    have hpaused : w.lido.stakeLimit.isStakingPaused = false := hpaused
    obtain rfl : w.lido.getCurrentStakeLimit b = v := Option.some.inj (hv.symm.trans he)
    rw [Lido.getCurrentStakeLimit_of_set hpaused hset, hblockNumber]
    exact .start h hlast hblock
  | stopped | resumed | stakingPaused | stakingResumed | limited | removed => cases hv

theorem exhausted_run (h : w.lido.stakeLimit.Exhausted M inc b last) (hblock : last < 2 ^ 32)
    (hrun : Runs (machine D I) (fun _ e ↦ e.setsLimit = false ∧ e.submitted = none ∧
      ∀ t, e.block = some t → b ≤ t ∧ t ≤ last) w w') :
    w'.lido.stakeLimit.Exhausted M inc b last := by
  refine hrun.invariant (P := fun u ↦ u.lido.stakeLimit.Exhausted M inc b last) ?_ h
  intro u e u' h hu hstep
  obtain ⟨hkeeps, hquiet, hclock⟩ := h
  exact Data.Exhausted.change (g := u.lido.gate) hu (gate_change hstep) hkeeps hquiet hclock hblock

end World

theorem Lido.getCurrentStakeLimit_exhausted {s : Lido} {M inc b last : ℕ}
    (h : s.stakeLimit.Exhausted M inc b last) (hpos : 0 < M) (hle : inc ≤ M) (hinc : 0 < inc)
    (hblock : last < 2 ^ 32) (hpaused : s.stakeLimit.isStakingPaused = false) :
    s.getCurrentStakeLimit last =
      min M ((last - s.stakeLimit.prevStakeBlockNumber.toNat) * (M / (M / inc))) := by
  rw [getCurrentStakeLimit_of_set hpaused (h.limited.isSet hpos),
    Data.calculate_eq (h.since hpaused).2 hblock, h.limited.maximum, h.empty,
    h.limited.increase hle hinc, Nat.zero_add]

/-- After a payment that exhausted it the limit is back, some blocks later, where the
increase voted for would have it, exactly if that increase is the one got back from the
number of blocks stored and staking was not paused or resumed since, or if the limit is
full under both. -/
theorem stake_limit_regrows_iff {w₀ w₁ w₂ w₃ w₄ : World R} {c : LidoCall D} {e : Event D ρ}
    {M inc b k : ℕ} (hinc : 0 < inc)
    (hset : World.step D I w₀ (.lido c (.setStakingLimit M inc)) = .ok w₁)
    (hrun : Runs (World.machine D I) (fun _ e ↦ e.setsLimit = false) w₁ w₂)
    (hpaid : e.payment = some (b, w₂.lido.getCurrentStakeLimit b))
    (hsubmit : World.step D I w₂ e = .ok w₃)
    (hwait : Runs (World.machine D I) (fun _ e ↦ e.setsLimit = false ∧ e.submitted = none ∧
      ∀ t, e.block = some t → b ≤ t ∧ t ≤ b + k) w₃ w₄)
    (hblock : b + k < 2 ^ 32) :
    (w₄.lido.getCurrentStakeLimit (b + k) = min M (k * inc) ∧
      (inc ∣ M → w₄.lido.stakeLimit.maxStakeLimitGrowthBlocks.toNat ≤ k →
        w₄.lido.getCurrentStakeLimit (b + k) = M)) ↔
    k = 0 ∨ w₄.lido.stakeLimit.isStakingPaused = false ∧
      ((w₄.lido.stakeLimit.prevStakeBlockNumber.toNat = b ∧ M / (M / inc) = inc) ∨
        (M ≤ k * inc ∧ M ≤
          (b + k - w₄.lido.stakeLimit.prevStakeBlockNumber.toNat) * (M / (M / inc)))) := by
  obtain ⟨hpos, hle⟩ := World.setStakingLimit_bounds hset
  have hexhausted := World.exhausted_run (World.exhausted_submit (World.limited_run hset hrun) hpos
    (Nat.le_add_right b k) hblock hpaid hsubmit) hblock hwait
  have hboth : (w₄.lido.getCurrentStakeLimit (b + k) = min M (k * inc) ∧
      (inc ∣ M → w₄.lido.stakeLimit.maxStakeLimitGrowthBlocks.toNat ≤ k →
        w₄.lido.getCurrentStakeLimit (b + k) = M)) ↔
      w₄.lido.getCurrentStakeLimit (b + k) = min M (k * inc) :=
    ⟨fun h ↦ h.1, fun h ↦ ⟨h, fun hdvd hk ↦ h.trans (hexhausted.limited.restored hdvd hk)⟩⟩
  rw [hboth]
  cases hpaused : w₄.lido.stakeLimit.isStakingPaused with
  | true =>
    rw [Lido.getCurrentStakeLimit_of_paused hpaused]
    constructor
    · intro hzero
      have hprod : k * inc = 0 := by omega
      exact .inl ((Nat.mul_eq_zero.mp hprod).resolve_right hinc.ne')
    · intro h
      rcases h with rfl | ⟨hfalse, _⟩
      · simp
      · cases hfalse
  | false =>
    obtain ⟨hlow, hhigh⟩ := hexhausted.since hpaused
    rw [Lido.getCurrentStakeLimit_exhausted hexhausted hpos hle hinc hblock hpaused]
    obtain ⟨lost, hlost⟩ := Nat.exists_eq_add_of_le hlow
    have hwaited : b + k - w₄.lido.stakeLimit.prevStakeBlockNumber.toNat = k - lost := by omega
    have hsince : w₄.lido.stakeLimit.prevStakeBlockNumber.toNat = b ↔ lost = 0 := by omega
    rw [hwaited, hsince, rounded_refill_eq_iff M hle hinc (by omega)]
    simp only [true_and]

namespace Sample

def exhausts (M inc : ℕ) (p : World NodeOperatorsRegistry → Bool) : Bool :=
  reaches (jointSystem deployment layout) start [admin .resume] fun w₀ ↦
    reaches (jointSystem deployment layout) w₀ [admin (.setStakingLimit M inc)] fun w₁ ↦
      decide (w₁.lido.getCurrentStakeLimit 11 = M) &&
        reaches (jointSystem deployment layout) w₁ [inBlock 11 (.submit 0 M)] p

theorem exists_of_exhausts {M inc : ℕ} {p : World NodeOperatorsRegistry → Bool}
    (h : exhausts M inc p = true) : ∃ w₀ w₁ w₃, Reachable (jointSystem deployment layout) w₀ ∧
      (jointSystem deployment layout).step w₀ (admin (.setStakingLimit M inc)) = .ok w₁ ∧
      w₁.lido.getCurrentStakeLimit 11 = M ∧
      (jointSystem deployment layout).step w₁ (inBlock 11 (.submit 0 M)) = .ok w₃ ∧
      p w₃ = true := by
  obtain ⟨w₀, hw₀, h⟩ := reachable_of_run h
  obtain ⟨w₁, hw₁, h⟩ := step_of_reaches h
  rw [Bool.and_eq_true, decide_eq_true_eq] at h
  obtain ⟨hlimit, h⟩ := h
  obtain ⟨w₃, hw₃, hp⟩ := step_of_reaches h
  exact ⟨w₀, w₁, w₃, hw₀, hw₁, hlimit, hw₃, hp⟩

/-- An increase of sixty ether in a block is one of a hundred: the maximum fits it once. -/
theorem sixty_grow_to_a_hundred : ∃ w₀ w₁ w₃, Reachable (jointSystem deployment layout) w₀ ∧
    (jointSystem deployment layout).step w₀
      (admin (.setStakingLimit (100 * 10 ^ 18) (60 * 10 ^ 18))) = .ok w₁ ∧
    w₁.lido.getCurrentStakeLimit 11 = 100 * 10 ^ 18 ∧
    (jointSystem deployment layout).step w₁ (inBlock 11 (.submit 0 (100 * 10 ^ 18))) = .ok w₃ ∧
    w₃.lido.getCurrentStakeLimit (11 + 1) = 100 * 10 ^ 18 ∧
    w₃.lido.getCurrentStakeLimit (11 + 1) ≠ min (100 * 10 ^ 18) (1 * (60 * 10 ^ 18)) := by
  have hrun : exhausts (100 * 10 ^ 18) (60 * 10 ^ 18)
      (fun w ↦ decide (w.lido.getCurrentStakeLimit (11 + 1) = 100 * 10 ^ 18)) = true := by
    decide +kernel
  obtain ⟨w₀, w₁, w₃, hw₀, hset, hlimit, hsubmit, hp⟩ := exists_of_exhausts hrun
  have hgrown := of_decide_eq_true hp
  refine ⟨w₀, w₁, w₃, hw₀, hset, hlimit, hsubmit, hgrown, ?_⟩
  rw [hgrown]
  decide

/-- With an increase of ten, three blocks and a transfer later thirty ether are available. -/
theorem thirty_grow_in_three_blocks : ∃ w₄, Reachable (jointSystem deployment layout) w₄ ∧
    w₄.lido.getCurrentStakeLimit (11 + 3) = 30 * 10 ^ 18 := by
  have hrun : exhausts (100 * 10 ^ 18) (10 * 10 ^ 18)
      (fun w ↦ reaches (jointSystem deployment layout) w [inBlock 12 (.transfer 6 7)] fun w₄ ↦
        !w₄.lido.stakeLimit.isStakingPaused &&
          decide (w₄.lido.stakeLimit.prevStakeBlockNumber.toNat = 11)) = true := by
    decide +kernel
  obtain ⟨w₀, w₁, w₃, hw₀, hset, hlimit, hsubmit, hp⟩ := exists_of_exhausts hrun
  obtain ⟨w₄, hwait, hp⟩ := step_of_reaches hp
  rw [Bool.and_eq_true, Bool.not_eq_true', decide_eq_true_eq] at hp
  have hpaid : (inBlock 11 (.submit 0 (100 * 10 ^ 18))).payment =
      some (11, w₁.lido.getCurrentStakeLimit 11) := by
    rw [hlimit]
    rfl
  have hquiet : Runs (jointSystem deployment layout) (fun _ e ↦ e.setsLimit = false ∧
      e.submitted = none ∧ ∀ t, e.block = some t → 11 ≤ t ∧ t ≤ 11 + 3) w₃ w₄ := by
    refine (Runs.refl w₃).step (i := inBlock 12 (.transfer 6 7)) ⟨rfl, rfl, fun t ht ↦ ?_⟩ hwait
    cases ht
    decide
  have hgrown := (stake_limit_regrows_iff (by decide) hset (.refl w₁) hpaid hsubmit hquiet
    (by decide)).mpr (.inr ⟨hp.1, .inl ⟨hp.2, by decide⟩⟩)
  refine ⟨w₄, ((hw₀.step hset).step hsubmit).step hwait, hgrown.1.trans ?_⟩
  decide

end Sample

section Preserved

namespace StakeLimit.Data

variable {d d' : Data} {m n blockNumber : ℕ}

/-- What is stored of the limit is what is available of it. -/
def NothingRegrown (d : Data) (blockNumber : ℕ) : Prop :=
  d.prevStakeLimit = d.maxStakeLimit ∨ d.prevStakeBlockNumber.toNat = blockNumber ∨
    d.increasePerBlock = 0

theorem nothingRegrown_iff (hlevel : d.prevStakeLimit.toNat ≤ d.maxStakeLimit.toNat)
    (hsince : d.prevStakeBlockNumber.toNat ≤ blockNumber) (hblock : blockNumber < 2 ^ 32) :
    d.NothingRegrown blockNumber ↔
      d.calculateCurrentStakeLimit blockNumber = d.prevStakeLimit.toNat := by
  rw [calculate_eq hsince hblock, NothingRegrown, ← BitVec.toNat_inj]
  constructor
  · intro h
    rcases h with hfull | hnow | hnone
    · rw [hfull]
      exact Nat.min_eq_left (Nat.le_add_right _ _)
    · rw [hnow, Nat.sub_self, Nat.zero_mul, Nat.add_zero, Nat.min_eq_right hlevel]
    · rw [hnone, Nat.mul_zero, Nat.add_zero, Nat.min_eq_right hlevel]
  · intro heq
    rcases Nat.lt_or_eq_of_le hlevel with hlt | hfull
    · have hnone : (blockNumber - d.prevStakeBlockNumber.toNat) * d.increasePerBlock = 0 := by
        omega
      rcases Nat.mul_eq_zero.mp hnone with hnow | hnone
      · exact .inr (.inl (by omega))
      · exact .inr (.inr hnone)
    · exact .inl hfull

theorem le_calculate (hlevel : d.prevStakeLimit.toNat ≤ d.maxStakeLimit.toNat)
    (hsince : d.prevStakeBlockNumber.toNat ≤ blockNumber) (hblock : blockNumber < 2 ^ 32) :
    d.prevStakeLimit.toNat ≤ d.calculateCurrentStakeLimit blockNumber := by
  rw [calculate_eq hsince hblock]
  exact le_min hlevel (Nat.le_add_right _ _)

theorem calculate_now (hlevel : d.prevStakeLimit.toNat ≤ d.maxStakeLimit.toNat)
    (hnow : d.prevStakeBlockNumber.toNat = blockNumber) (hblock : blockNumber < 2 ^ 32) :
    d.calculateCurrentStakeLimit blockNumber = d.prevStakeLimit.toNat :=
  (nothingRegrown_iff hlevel hnow.le hblock).mp (.inr (.inl hnow))

theorem isStakingPaused_eq_false : d.isStakingPaused = false ↔ 0 < d.prevStakeBlockNumber.toNat := by
  rw [Nat.pos_iff_ne_zero, isStakingPaused, beq_eq_false_iff_ne, ne_eq, ne_eq,
    ← BitVec.toNat_inj]
  rfl

theorem setStakingLimit_since
    (h : d.setStakingLimit m n blockNumber = .ok d') (hpaused : d.isStakingPaused = false)
    (hblock : blockNumber < 2 ^ 32) : d'.prevStakeBlockNumber.toNat = blockNumber := by
  have hnumber : d.prevStakeBlockNumber ≠ 0 := by simpa [isStakingPaused] using hpaused
  simp only [setStakingLimit, bind_eq_ok, pure_eq, Except.ok.injEq] at h
  obtain ⟨_, _, _, _, _, _, _, _, rfl⟩ := h
  rw [if_pos hnumber]
  exact Nat.mod_eq_of_lt hblock

end StakeLimit.Data

namespace Lido

variable {s : Lido} {blockNumber : ℕ}

theorem getCurrentStakeLimit_now (hpos : 0 < blockNumber) (hblock : blockNumber < 2 ^ 32)
    (hset : s.stakeLimit.isStakingLimitSet = true)
    (hlevel : s.stakeLimit.prevStakeLimit.toNat ≤ s.stakeLimit.maxStakeLimit.toNat)
    (hnow : s.stakeLimit.prevStakeBlockNumber.toNat = blockNumber) :
    s.getCurrentStakeLimit blockNumber = s.stakeLimit.prevStakeLimit.toNat := by
  have hpaused : s.stakeLimit.isStakingPaused = false := by
    rw [Data.isStakingPaused_eq_false, hnow]
    exact hpos
  rw [getCurrentStakeLimit_of_set hpaused hset, Data.calculate_now hlevel hnow hblock]

/-- Resuming stores the block and not what has regrown by it. -/
theorem getCurrentStakeLimit_resumed (hpos : 0 < blockNumber) (hblock : blockNumber < 2 ^ 32)
    (hset : s.stakeLimit.isStakingLimitSet = true)
    (hlevel : s.stakeLimit.prevStakeLimit.toNat ≤ s.stakeLimit.maxStakeLimit.toNat) :
    (s._resumeStaking blockNumber).getCurrentStakeLimit blockNumber =
      s.stakeLimit.prevStakeLimit.toNat := by
  have hlimit : (s._resumeStaking blockNumber).stakeLimit =
      s.stakeLimit.setStakeLimitPauseState false blockNumber := get_set _
  rw [getCurrentStakeLimit_now hpos hblock]
  · rw [hlimit]
    rfl
  · rw [hlimit]
    exact hset
  · rw [hlimit]
    exact hlevel
  · rw [hlimit]
    exact Nat.mod_eq_of_lt hblock

end Lido

namespace World

variable {w w' : World R} {c : LidoCall D} {M inc : ℕ}

theorem setStakingLimit_since (hpaused : w.lido.stakeLimit.isStakingPaused = false)
    (hblock : c.blockNumber < 2 ^ 32)
    (hstep : step D I w (.lido c (.setStakingLimit M inc)) = .ok w') :
    w'.lido.stakeLimit.prevStakeBlockNumber.toNat = c.blockNumber := by
  rw [step, handle, authorized_eq_ok] at hstep
  obtain ⟨_, _, hstep, rfl⟩ := hstep
  obtain ⟨d, hd, rfl⟩ := Lido.setStakingLimit_ok hstep
  have hlimit : ({ w.lido with stakingState := setStorageStakeLimitStruct d } : Lido).stakeLimit =
      d := get_set d
  rw [hlimit]
  exact Data.setStakingLimit_since hd hpaused hblock

/-- A new limit caps what was stored of the old one and not what has regrown. -/
theorem getCurrentStakeLimit_changed (hpos : 0 < c.blockNumber) (hblock : c.blockNumber < 2 ^ 32)
    (hpaused : w.lido.stakeLimit.isStakingPaused = false)
    (hset : w.lido.stakeLimit.isStakingLimitSet = true)
    (hstep : step D I w (.lido c (.setStakingLimit M inc)) = .ok w') :
    w'.lido.getCurrentStakeLimit c.blockNumber = min M w.lido.stakeLimit.prevStakeLimit.toNat := by
  obtain ⟨hmaximum, hgrowth, hprev⟩ := setStakingLimit_stored hstep
  obtain ⟨hM, _⟩ := setStakingLimit_bounds hstep
  rw [hset, if_pos rfl] at hprev
  have hset' := Data.Limited.isSet ⟨hmaximum, hgrowth⟩ hM
  have hlevel : w'.lido.stakeLimit.prevStakeLimit.toNat ≤
      w'.lido.stakeLimit.maxStakeLimit.toNat := by
    rw [hprev, hmaximum]
    exact min_le_left _ _
  rw [Lido.getCurrentStakeLimit_now hpos hblock hset' hlevel
    (setStakingLimit_since hpaused hblock hstep), hprev]

end World

/-- Setting or resuming the limit preserves what is available of it exactly if nothing of it
has regrown since it was stored, or if the new maximum is no higher than what is stored. -/
theorem regrown_limit_is_preserved_iff {w : World R} (hw : Reachable (World.machine D I) w)
    {c : LidoCall D} (hpaused : w.lido.stakeLimit.isStakingPaused = false)
    (hset : w.lido.stakeLimit.isStakingLimitSet = true)
    (hsince : w.lido.stakeLimit.prevStakeBlockNumber.toNat ≤ c.blockNumber)
    (hblock : c.blockNumber < 2 ^ 32) :
    (∀ M inc w', World.step D I w (.lido c (.setStakingLimit M inc)) = .ok w' →
      (w'.lido.getCurrentStakeLimit c.blockNumber =
          min (w.lido.getCurrentStakeLimit c.blockNumber) M ↔
        w.lido.stakeLimit.NothingRegrown c.blockNumber ∨
          M ≤ w.lido.stakeLimit.prevStakeLimit.toNat)) ∧
    ∀ w', World.step D I w (.lido c .resumeStaking) = .ok w' →
      (w'.lido.getCurrentStakeLimit c.blockNumber = w.lido.getCurrentStakeLimit c.blockNumber ↔
        w.lido.stakeLimit.NothingRegrown c.blockNumber) := by
  have hlevel : w.lido.stakeLimit.prevStakeLimit.toNat ≤ w.lido.stakeLimit.maxStakeLimit.toNat :=
    World.level hw (by simpa [Data.isStakingLimitSet] using hset)
  have hpos := (Data.isStakingPaused_eq_false.mp hpaused).trans_le hsince
  rw [Data.nothingRegrown_iff hlevel hsince hblock,
    Lido.getCurrentStakeLimit_of_set hpaused hset]
  have hle := Data.le_calculate hlevel hsince hblock
  refine ⟨fun M inc w' hstep ↦ ?_, fun w' hstep ↦ ?_⟩
  · rw [World.getCurrentStakeLimit_changed hpos hblock hpaused hset hstep]
    omega
  · rw [World.step, World.handle, World.authorizedAlways_eq_ok] at hstep
    obtain ⟨_, rfl⟩ := hstep
    have hcurrent := Lido.getCurrentStakeLimit_resumed hpos hblock hset hlevel
    dsimp only
    rw [hcurrent]
    exact eq_comm

end Preserved

namespace Sample

def paidRun (v : ℕ) : List (Event deployment (RegistryCall deployment)) :=
  limitedRun ++ [inBlock 11 (.submit 0 v)]

/-- Five blocks after the limit was exhausted half of it is back, and lost again. -/
theorem regrown_half_is_lost : ∃ w, Reachable (jointSystem deployment layout) w ∧
    w.lido.getCurrentStakeLimit 16 = 50 * 10 ^ 18 ∧
    (∃ w', (jointSystem deployment layout).step w (inBlock 16 .resumeStaking) = .ok w' ∧
      w'.lido.getCurrentStakeLimit 16 ≠ w.lido.getCurrentStakeLimit 16) ∧
    ∃ w', (jointSystem deployment layout).step w
        (inBlock 16 (.setStakingLimit (200 * 10 ^ 18) (10 * 10 ^ 18))) = .ok w' ∧
      w'.lido.getCurrentStakeLimit 16 ≠
        min (w.lido.getCurrentStakeLimit 16) (200 * 10 ^ 18) := by
  have hrun : reaches (jointSystem deployment layout) start (paidRun (100 * 10 ^ 18)) (fun w ↦
      decide (w.lido.getCurrentStakeLimit 16 = 50 * 10 ^ 18) &&
        reaches (jointSystem deployment layout) w [inBlock 16 .resumeStaking]
          (fun w' ↦ decide (w'.lido.getCurrentStakeLimit 16 = 0)) &&
        reaches (jointSystem deployment layout) w
          [inBlock 16 (.setStakingLimit (200 * 10 ^ 18) (10 * 10 ^ 18))]
          (fun w' ↦ decide (w'.lido.getCurrentStakeLimit 16 = 0))) = true := by
    decide +kernel
  obtain ⟨w, hw, hp⟩ := reachable_of_run hrun
  simp only [Bool.and_eq_true, decide_eq_true_eq] at hp
  obtain ⟨⟨hlimit, hresume⟩, hset⟩ := hp
  obtain ⟨w₁, hw₁, hp₁⟩ := step_of_reaches hresume
  obtain ⟨w₂, hw₂, hp₂⟩ := step_of_reaches hset
  refine ⟨w, hw, hlimit, ⟨w₁, hw₁, ?_⟩, ⟨w₂, hw₂, ?_⟩⟩
  · rw [hlimit, of_decide_eq_true hp₁]
    decide
  · rw [hlimit, of_decide_eq_true hp₂]
    decide

/-- In the block of the payment the forty ether left are capped by a new maximum of thirty. -/
theorem forty_are_capped_by_thirty : ∃ w w', Reachable (jointSystem deployment layout) w ∧
    w.lido.getCurrentStakeLimit 11 = 40 * 10 ^ 18 ∧
    (jointSystem deployment layout).step w
      (inBlock 11 (.setStakingLimit (30 * 10 ^ 18) (10 ^ 18))) = .ok w' ∧
    w'.lido.getCurrentStakeLimit 11 = 30 * 10 ^ 18 := by
  have hrun : reaches (jointSystem deployment layout) start (paidRun (60 * 10 ^ 18)) (fun w ↦
      decide (w.lido.getCurrentStakeLimit 11 = 40 * 10 ^ 18) &&
        !w.lido.stakeLimit.isStakingPaused && w.lido.stakeLimit.isStakingLimitSet &&
        decide (w.lido.stakeLimit.prevStakeBlockNumber.toNat = 11) &&
        reaches (jointSystem deployment layout) w
          [inBlock 11 (.setStakingLimit (30 * 10 ^ 18) (10 ^ 18))] (fun _ ↦ true)) = true := by
    decide +kernel
  obtain ⟨w, hw, hp⟩ := reachable_of_run hrun
  simp only [Bool.and_eq_true, Bool.not_eq_true', decide_eq_true_eq] at hp
  obtain ⟨⟨⟨⟨hlimit, hpaused⟩, hset⟩, hsince⟩, hnext⟩ := hp
  obtain ⟨w', hw', _⟩ := step_of_reaches hnext
  have hkept := ((regrown_limit_is_preserved_iff hw hpaused hset hsince.le (by decide)).1
    (30 * 10 ^ 18) (10 ^ 18) w' hw').mpr (.inl (.inr (.inl hsince)))
  refine ⟨w, w', hw, hlimit, hw', ?_⟩
  have hblock : w'.lido.getCurrentStakeLimit 11 =
      min (w.lido.getCurrentStakeLimit 11) (30 * 10 ^ 18) := hkept
  rw [hblock, hlimit]
  decide

end Sample

end LidoDao
