import Mathlib.Algebra.Order.Ring.Nat
import LidoDao.JointSystem
import LidoDao.Library.TokenBucket
import LidoDao.StakeLimitSlot
import LidoDao.SubmitPrice

namespace LidoDao

open Evm Library.Outcome Library.Transition Library.TokenBucket SafeMath StakeLimit

namespace StakeLimit

namespace Data

variable {d d' : Data} {v blockNumber : ℕ}

def increasePerBlock (d : Data) : ℕ :=
  if d.maxStakeLimitGrowthBlocks = 0 then 0
  else d.maxStakeLimit.toNat / d.maxStakeLimitGrowthBlocks.toNat

theorem increase_lt : d.increasePerBlock < 2 ^ 96 := by
  have hmax := d.maxStakeLimit.isLt
  rw [increasePerBlock]
  split
  · decide
  · exact (Nat.div_le_self _ _).trans_lt hmax

theorem toNat_increase :
    (if d.maxStakeLimitGrowthBlocks ≠ 0 then
      (d.maxStakeLimit / d.maxStakeLimitGrowthBlocks.setWidth 96).setWidth 256
    else 0 : BitVec 256).toNat = d.increasePerBlock := by
  have hlt := increase_lt (d := d)
  have hgrowth := d.maxStakeLimitGrowthBlocks.isLt
  rw [increasePerBlock] at hlt ⊢
  by_cases hzero : d.maxStakeLimitGrowthBlocks = 0
  · rw [if_pos hzero, if_neg (not_not.mpr hzero)]
    rfl
  · rw [if_neg hzero] at hlt
    rw [if_neg hzero, if_pos hzero, BitVec.toNat_setWidth, BitVec.toNat_udiv,
      BitVec.toNat_setWidth, Nat.mod_eq_of_lt (a := d.maxStakeLimitGrowthBlocks.toNat) (by omega),
      Nat.mod_eq_of_lt (by omega)]

theorem calculate_le : d.calculateCurrentStakeLimit blockNumber ≤ d.maxStakeLimit.toNat := by
  have hcapped (limit : ℕ) : (if d.maxStakeLimit.toNat < limit then d.maxStakeLimit.toNat
      else limit) ≤ d.maxStakeLimit.toNat := by
    split <;> omega
  exact hcapped _

theorem calculate_eq (hprev : d.prevStakeBlockNumber.toNat ≤ blockNumber)
    (hblock : blockNumber < 2 ^ 32) : d.calculateCurrentStakeLimit blockNumber =
      min d.maxStakeLimit.toNat (d.prevStakeLimit.toNat +
        (blockNumber - d.prevStakeBlockNumber.toNat) * d.increasePerBlock) := by
  have hlimit := d.prevStakeLimit.isLt
  have hnumber := d.prevStakeBlockNumber.isLt
  have hproduct : (blockNumber - d.prevStakeBlockNumber.toNat) * d.increasePerBlock <
      2 ^ 32 * 2 ^ 96 := Nat.mul_lt_mul'' (by omega) increase_lt
  have hsub : (BitVec.ofNat 256 blockNumber - d.prevStakeBlockNumber.setWidth 256).toNat =
      blockNumber - d.prevStakeBlockNumber.toNat := by
    rw [BitVec.toNat_sub, BitVec.toNat_setWidth, BitVec.toNat_ofNat]
    omega
  have hsum : (d.prevStakeLimit.setWidth 256 +
      (BitVec.ofNat 256 blockNumber - d.prevStakeBlockNumber.setWidth 256) *
        (if d.maxStakeLimitGrowthBlocks ≠ 0 then
          (d.maxStakeLimit / d.maxStakeLimitGrowthBlocks.setWidth 96).setWidth 256
        else 0 : BitVec 256)).toNat = d.prevStakeLimit.toNat +
          (blockNumber - d.prevStakeBlockNumber.toNat) * d.increasePerBlock := by
    rw [BitVec.toNat_add, BitVec.toNat_mul, hsub, toNat_increase, BitVec.toNat_setWidth]
    omega
  have hcapped (limit : ℕ) : (if d.maxStakeLimit.toNat < limit then d.maxStakeLimit.toNat
      else limit) = min d.maxStakeLimit.toNat limit := by
    split <;> omega
  exact (hcapped _).trans (congrArg (min d.maxStakeLimit.toNat) hsum)

def consumed (d : Data) (v blockNumber : ℕ) : Data :=
  { d with
    prevStakeLimit := BitVec.ofNat 96 (d.calculateCurrentStakeLimit blockNumber - v)
    prevStakeBlockNumber := BitVec.ofNat 32 blockNumber }

theorem consumed_limit (v blockNumber : ℕ) : (d.consumed v blockNumber).prevStakeLimit.toNat =
    d.calculateCurrentStakeLimit blockNumber - v := by
  have hle : d.calculateCurrentStakeLimit blockNumber ≤ d.maxStakeLimit.toNat := calculate_le
  have hmax := d.maxStakeLimit.isLt
  rw [consumed, BitVec.toNat_ofNat]
  exact Nat.mod_eq_of_lt (by omega)

theorem update_eq (hpaused : d.isStakingPaused = false) (v blockNumber : ℕ) :
    d.updatePrevStakeLimit (d.calculateCurrentStakeLimit blockNumber - v) blockNumber =
      .ok (d.consumed v blockNumber) := by
  have hle : d.calculateCurrentStakeLimit blockNumber ≤ d.maxStakeLimit.toNat := calculate_le
  have hmax := d.maxStakeLimit.isLt
  have hfits : d.calculateCurrentStakeLimit blockNumber - v ≤ 2 ^ 96 - 1 := by omega
  have hnumber : d.prevStakeBlockNumber ≠ 0 := by
    intro hzero
    simp [isStakingPaused, hzero] at hpaused
  rw [updatePrevStakeLimit, require_of hfits, ok_bind, require_of hnumber, ok_bind]
  rfl

def Level (d : Data) : Prop := d.maxStakeLimit ≠ 0 → d.prevStakeLimit.toNat ≤ d.maxStakeLimit.toNat

end Data

end StakeLimit

namespace Lido

variable {s s' : Lido} {v blockNumber m : ℕ}

def stakeLimit (s : Lido) : Data := getStorageStakeLimitStruct s.stakingState

theorem stakeLimit_congr (h : s.stakingState = s'.stakingState) : s.stakeLimit = s'.stakeLimit :=
  congrArg getStorageStakeLimitStruct h

theorem consumeStakeLimit_eq_ok (hpaused : s.stakeLimit.isStakingPaused = false) :
    s.consumeStakeLimit v blockNumber = .ok s' ↔
      (s.stakeLimit.isStakingLimitSet = false ∧ s' = s) ∨
      (s.stakeLimit.isStakingLimitSet = true ∧
        v ≤ s.stakeLimit.calculateCurrentStakeLimit blockNumber ∧
        s' = { s with
          stakingState := setStorageStakeLimitStruct (s.stakeLimit.consumed v blockNumber) }) := by
  have hupdate := Data.update_eq hpaused v blockNumber
  rw [stakeLimit] at hupdate ⊢
  rw [consumeStakeLimit]
  cases hset : (getStorageStakeLimitStruct s.stakingState).isStakingLimitSet with
  | false => simp [eq_comm]
  | true =>
    simp only [if_true, bind_eq_ok, require_eq_ok, exists_const, hupdate, ok_bind, pure_eq,
      Except.ok.injEq, Bool.true_eq_false, false_and, false_or, true_and]
    rw [eq_comm (a := s')]

theorem consumeStakeLimit_eq_error (hset : s.stakeLimit.isStakingLimitSet = true)
    (hlt : s.stakeLimit.calculateCurrentStakeLimit blockNumber < v) :
    s.consumeStakeLimit v blockNumber = .error (.reason "STAKE_LIMIT") := by
  rw [stakeLimit] at hset hlt
  have hfail : require (v ≤ (getStorageStakeLimitStruct s.stakingState).calculateCurrentStakeLimit
      blockNumber) (Revert.reason "STAKE_LIMIT") = .error (.reason "STAKE_LIMIT") :=
    require_eq_error.mpr ⟨hlt.not_ge, rfl⟩
  rw [consumeStakeLimit]
  dsimp only
  rw [if_pos hset, hfail, error_bind]

theorem _submit_staking {msgSender : Address}
    (h : s._submit msgSender v blockNumber = .ok (m, s')) :
    s.stakeLimit.isStakingPaused = false ∧ s'.activeFlag = s.activeFlag ∧
      ∃ s₁, s.consumeStakeLimit v blockNumber = .ok s₁ ∧ s'.stakingState = s₁.stakingState := by
  simp only [_submit, bind_eq_ok, require_eq_ok, exists_const, _mintShares, onToken_eq_ok,
    pure_eq, Except.ok.injEq, Prod.mk.injEq] at h
  obtain ⟨_, hpaused, s₁, hs₁, _, _, _, ⟨_, ht, rfl⟩, _, _, _, _, _, _, _, rfl⟩ := h
  obtain ⟨_, _, _, _, rfl⟩ := StETH._mintShares_eq_ok.mp ht
  refine ⟨by simpa [stakeLimit] using hpaused, ?_, s₁, hs₁, rfl⟩
  obtain ⟨_, rfl⟩ := consumeStakeLimit_ok hs₁
  rfl

end Lido

variable {R ρ : Type} {D : Deployment} {I : INodeOperatorsRegistry R ρ}

/-- What decides whether a payment gets in. -/
structure Gate where
  activeFlag : Bool
  limit : Data

def Lido.gate (s : Lido) : Gate where
  activeFlag := s.activeFlag
  limit := s.stakeLimit

theorem Lido.gate_congr {s s' : Lido} (hflag : s.activeFlag = s'.activeFlag)
    (hslot : s.stakingState = s'.stakingState) : s.gate = s'.gate := by
  rw [gate, gate, stakeLimit_congr hslot, hflag]

/-- What an accepted event does to the gate. -/
inductive GateChange (g : Gate) : Event D ρ → Gate → Prop
  | idle {e : Event D ρ} (he : e.submitted = none) : GateChange g e g
  | unlimited {e : Event D ρ} {v : ℕ} (he : e.submitted = some v)
      (hset : g.limit.isStakingLimitSet = false) : GateChange g e g
  | consumed {c : LidoCall D} {m : LidoMessage} {v : ℕ}
      (he : (Event.lido c m : Event D ρ).submitted = some v)
      (hpaused : g.limit.isStakingPaused = false)
      (hle : v ≤ g.limit.calculateCurrentStakeLimit c.blockNumber) :
      GateChange g (.lido c m) { g with limit := g.limit.consumed v c.blockNumber }
  | stopped {c : LidoCall D} : GateChange g (.lido c .stop)
      { activeFlag := false, limit := g.limit.setStakeLimitPauseState true c.blockNumber }
  | resumed {c : LidoCall D} : GateChange g (.lido c .resume)
      { activeFlag := true, limit := g.limit.setStakeLimitPauseState false c.blockNumber }
  | stakingPaused {c : LidoCall D} : GateChange g (.lido c .pauseStaking)
      { g with limit := g.limit.setStakeLimitPauseState true c.blockNumber }
  | stakingResumed {c : LidoCall D} : GateChange g (.lido c .resumeStaking)
      { g with limit := g.limit.setStakeLimitPauseState false c.blockNumber }
  | limited {c : LidoCall D} {maxStakeLimit stakeLimitIncreasePerBlock : ℕ} {d : Data}
      (h : g.limit.setStakingLimit maxStakeLimit stakeLimitIncreasePerBlock c.blockNumber =
        .ok d) :
      GateChange g (.lido c (.setStakingLimit maxStakeLimit stakeLimitIncreasePerBlock))
        { g with limit := d }
  | removed {c : LidoCall D} : GateChange g (.lido c .removeStakingLimit)
      { g with limit := g.limit.removeStakingLimit }

namespace GateChange

variable {w w' : World R} {e : Event D ρ} {c : LidoCall D} {m : LidoMessage}

theorem of_slot {g g' : Gate} {s : Lido} (h : GateChange g (.lido c m : Event D ρ) g')
    (hflag : s.activeFlag = g'.activeFlag)
    (hslot : s.stakingState = setStorageStakeLimitStruct g'.limit) :
    GateChange g (.lido c m : Event D ρ) s.gate := by
  have hgate : s.gate = g' := by
    rw [Lido.gate, Lido.stakeLimit, hslot, get_set, hflag]
  rwa [hgate]

theorem kept (he : e.submitted = none) (hflag : w'.lido.activeFlag = w.lido.activeFlag)
    (hslot : w'.lido.stakingState = w.lido.stakingState) :
    GateChange w.lido.gate e w'.lido.gate := by
  rw [Lido.gate_congr hflag hslot]
  exact .idle he

theorem transferred {sender recipient : Address} {amount : ℕ} {t : StETH}
    (he : (Event.lido c m : Event D ρ).submitted = none)
    (h : w.lido.toStETH._transferShares sender recipient amount = .ok t) :
    GateChange w.lido.gate (.lido c m : Event D ρ) { w.lido with toStETH := t : Lido }.gate := by
  obtain ⟨_, _, _, _, _, rfl⟩ := StETH._transferShares_eq_ok.mp h
  exact .idle he

theorem approved {owner spender : Address} {amount : ℕ} {t : StETH}
    (he : (Event.lido c m : Event D ρ).submitted = none)
    (h : w.lido.toStETH._approve owner spender amount = .ok t) :
    GateChange w.lido.gate (.lido c m : Event D ρ) { w.lido with toStETH := t : Lido }.gate := by
  obtain ⟨_, _, hflag⟩ := StETH._approve_ok h
  have hgate : { w.lido with toStETH := t : Lido }.gate = w.lido.gate := Lido.gate_congr hflag rfl
  rw [hgate]
  exact .idle he

theorem paid {v n : ℕ} {s : Lido} (he : (Event.lido c m : Event D ρ).submitted = some v)
    (h : (w.lido.receive v)._submit c.sender v c.blockNumber = .ok (n, s)) :
    GateChange w.lido.gate (.lido c m : Event D ρ) s.gate := by
  obtain ⟨hpaused, hflag, s₁, hs₁, hslot⟩ := Lido._submit_staking h
  have hsame : (w.lido.receive v).stakeLimit = w.lido.gate.limit := rfl
  rcases (Lido.consumeStakeLimit_eq_ok hpaused).mp hs₁ with ⟨hset, rfl⟩ | ⟨_, hle, rfl⟩
  · rw [Lido.gate_congr hflag hslot]
    exact .unlimited he hset
  · exact of_slot (.consumed he (hsame ▸ hpaused) (hsame ▸ hle)) hflag hslot

end GateChange

namespace World

variable {w w' : World R} {e : Event D ρ}

theorem gate_change (hstep : step D I w e = .ok w') : GateChange w.lido.gate e w'.lido.gate := by
  cases step_effect hstep with
  | fallback h | submit h => exact .paid rfl h
  | receiveELRewards h =>
    obtain ⟨_, _, rfl⟩ := Lido.receiveELRewards_eq_ok.mp h
    exact .kept rfl rfl rfl
  | depositBufferedEther _ h | depositBufferedEtherUpTo _ h =>
    have hframe := Lido._depositBufferedEther_frame h
    exact .kept rfl (congrArg StETH.activeFlag hframe.toStETH) hframe.stakingState
  | handleOracleReport h =>
    have hframe := Lido.handleOracleReport_frame h
    exact .kept rfl hframe.activeFlag hframe.stakingState
  | stop => exact .of_slot .stopped rfl rfl
  | resume => exact .of_slot .resumed rfl rfl
  | pauseStaking => exact .of_slot .stakingPaused rfl rfl
  | resumeStaking => exact .of_slot .stakingResumed rfl rfl
  | setStakingLimit _ h => exact .of_slot (.limited h) rfl rfl
  | removeStakingLimit => exact .of_slot .removed rfl rfl
  | setFee | setFeeDistribution | setProtocolContracts | setWithdrawalCredentials
  | setELRewardsVault | setELRewardsWithdrawalLimit | etherRecovered | tokenRecovered | registry
  | forceEther | fundVault | deployVault =>
    exact .kept rfl rfl rfl
  | sharesRecovered _ h | transferShares h => exact .transferred rfl h
  | transfer h =>
    obtain ⟨_, _, h⟩ := StETH._transfer_ok h
    exact .transferred rfl h
  | transferFrom h =>
    obtain ⟨_, hu, _, _, hflag⟩ := StETH.transferFrom_ok h
    obtain ⟨_, _, hu⟩ := StETH._transfer_ok hu
    obtain ⟨_, _, _, _, _, rfl⟩ := StETH._transferShares_eq_ok.mp hu
    exact .kept rfl hflag rfl
  | approve h => exact .approved rfl h
  | increaseAllowance h => exact .approved rfl (StETH.increaseAllowance_ok h)
  | decreaseAllowance h => exact .approved rfl (StETH.decreaseAllowance_ok h).2
  | burnShares _ h =>
    obtain ⟨_, _, _, rfl⟩ := StETH._burnShares_ok h
    exact .kept rfl rfl rfl

end World

namespace StakeLimit.Data

variable {d d' : Data} {maxStakeLimit stakeLimitIncreasePerBlock blockNumber : ℕ}

theorem setStakingLimit_ok
    (h : d.setStakingLimit maxStakeLimit stakeLimitIncreasePerBlock blockNumber = .ok d') :
    d'.maxStakeLimit.toNat = maxStakeLimit ∧
    d'.maxStakeLimitGrowthBlocks.toNat = maxStakeLimit / stakeLimitIncreasePerBlock ∧
    d'.prevStakeLimit.toNat =
      if d.isStakingLimitSet then min maxStakeLimit d.prevStakeLimit.toNat else maxStakeLimit := by
  simp only [setStakingLimit, bind_eq_ok, require_eq_ok, exists_const, pure_eq,
    Except.ok.injEq] at h
  obtain ⟨_, hmax, _, hgrowth, rfl⟩ := h
  have hword : (BitVec.ofNat 96 maxStakeLimit).toNat = maxStakeLimit := by
    rw [BitVec.toNat_ofNat]
    exact Nat.mod_eq_of_lt (by omega)
  refine ⟨hword, ?_, ?_⟩
  · dsimp only
    by_cases hzero : stakeLimitIncreasePerBlock = 0
    · rw [if_neg (not_not.mpr hzero), hzero, Nat.div_zero]
      rfl
    · rw [if_pos hzero, BitVec.toNat_ofNat]
      exact Nat.mod_eq_of_lt (by omega)
  · dsimp only
    by_cases hunset : d.maxStakeLimit = 0
    · have hset : d.isStakingLimitSet = false := by simpa [isStakingLimitSet] using hunset
      rw [if_pos (.inl hunset), hword, hset]
      rfl
    · have hset : d.isStakingLimitSet = true := by simpa [isStakingLimitSet] using hunset
      rw [if_pos hset]
      by_cases hlt : maxStakeLimit < d.prevStakeLimit.toNat
      · rw [if_pos (.inr hlt), hword, Nat.min_eq_left hlt.le]
      · rw [if_neg (not_or_intro hunset hlt), Nat.min_eq_right (by omega)]

theorem Level.consumed (v : ℕ) : (d.consumed v blockNumber).Level := by
  intro _
  rw [consumed_limit]
  exact (Nat.sub_le _ _).trans calculate_le

theorem Level.change {D : Deployment} {ρ : Type} {e : Event D ρ} {g g' : Gate}
    (h : g.limit.Level) (hchange : GateChange g e g') : g'.limit.Level := by
  cases hchange with
  | idle | unlimited | stopped | resumed | stakingPaused | stakingResumed => exact h
  | consumed => exact .consumed _
  | limited hset =>
    obtain ⟨hmax, _, hprev⟩ := setStakingLimit_ok hset
    intro _
    rw [hmax, hprev]
    split
    · exact min_le_left _ _
    · exact le_rfl
  | removed => exact fun hmax ↦ absurd rfl hmax

end StakeLimit.Data

theorem World.level {w : World R} (h : Reachable (World.machine D I) w) :
    w.lido.stakeLimit.Level := by
  refine h.invariant (P := fun w ↦ w.lido.stakeLimit.Level) ?_ ?_
  · intro w h
    obtain ⟨⟨_, _, _, _, hinit⟩, _⟩ := h
    obtain ⟨_, hlido⟩ := Lido._setProtocolContracts_ok hinit
    have hslot : w.lido.stakingState = 0 := by
      rw [hlido]
      rfl
    rw [Lido.stakeLimit, hslot]
    exact fun _ ↦ Nat.zero_le _
  · intro w e w' _ hs hstep
    exact Data.Level.change hs (World.gate_change hstep)

section Run

def Event.block : Event D ρ → Option ℕ
  | .lido c _ => some c.blockNumber
  | _ => none

def Event.payment (e : Event D ρ) : Option (ℕ × ℕ) := do
  let block ← e.block
  let msgValue ← e.submitted
  pure (block, msgValue)

def Event.setsLimit : Event D ρ → Bool
  | .lido _ (.setStakingLimit ..) | .lido _ .removeStakingLimit => true
  | _ => false

namespace StakeLimit.Data

variable {d d' : Data} {b : Bucket} {e : Event D ρ}

/-- What the limit lets through, the bucket lets through as well. -/
structure Follows (d : Data) (b : Bucket) : Prop where
  level : d.prevStakeLimit.toNat ≤ b.level
  current : d.isStakingPaused = false → ∀ t, b.now ≤ t → t < 2 ^ 32 →
    d.calculateCurrentStakeLimit t ≤ b.available d.maxStakeLimit.toNat d.increasePerBlock t

theorem Follows.full (h : d.Level) (hset : d.isStakingLimitSet = true) (now : ℕ) :
    d.Follows { level := d.maxStakeLimit.toNat, now, taken := [] } where
  level := h (by simpa [isStakingLimitSet] using hset)
  current _ t _ _ := by
    rw [Bucket.available, Nat.min_eq_left (Nat.le_add_right _ _)]
    exact calculate_le

theorem Follows.stored (hlevel : d.prevStakeLimit.toNat ≤ b.level)
    (hnow : d.prevStakeBlockNumber.toNat = b.now) : d.Follows b := by
  refine ⟨hlevel, fun _ t ht hlt ↦ ?_⟩
  rw [calculate_eq (hnow ▸ ht) hlt, hnow, Bucket.available]
  exact min_le_min_left _ (Nat.add_le_add_right hlevel _)

theorem Follows.wait (h : d.Follows b)
    (hb : Bounded d.maxStakeLimit.toNat d.increasePerBlock b) (isPaused : Bool)
    {blockNumber : ℕ} (hnow : b.now ≤ blockNumber) (hlt : blockNumber < 2 ^ 32) :
    (d.setStakeLimitPauseState isPaused blockNumber).Follows { b with
      level := b.available d.maxStakeLimit.toNat d.increasePerBlock blockNumber
      now := blockNumber } ∧
    Bounded d.maxStakeLimit.toNat d.increasePerBlock { b with
      level := b.available d.maxStakeLimit.toNat d.increasePerBlock blockNumber
      now := blockNumber } := by
  have hlevel : b.level ≤ b.available d.maxStakeLimit.toNat d.increasePerBlock blockNumber :=
    le_min hb.level (Nat.le_add_right _ _)
  refine ⟨?_, hb.step (.wait hnow le_rfl)⟩
  cases isPaused with
  | true => exact ⟨h.level.trans hlevel, nofun⟩
  | false => exact .stored (h.level.trans hlevel) (Nat.mod_eq_of_lt hlt)

theorem Follows.change {g g' : Gate} (h : g.limit.Follows b)
    (hb : Bounded g.limit.maxStakeLimit.toNat g.limit.increasePerBlock b)
    (hset : g.limit.isStakingLimitSet = true) (hchange : GateChange g e g')
    (hkeeps : e.setsLimit = false)
    (hclock : ∀ t, e.block = some t → b.now ≤ t ∧ 1 ≤ t ∧ t < 2 ^ 32) :
    ∃ b', g'.limit.Follows b' ∧ g'.limit.maxStakeLimit = g.limit.maxStakeLimit ∧
      g'.limit.increasePerBlock = g.limit.increasePerBlock ∧
      Bounded g.limit.maxStakeLimit.toNat g.limit.increasePerBlock b' ∧
      b'.taken = b.taken ++ e.payment.toList ∧ (b'.now = b.now ∨ e.block = some b'.now) := by
  cases hchange with
  | idle he =>
    refine ⟨b, h, rfl, rfl, hb, ?_, .inl rfl⟩
    simp [Event.payment, he]
  | unlimited _ hunset =>
    rw [hset] at hunset
    cases hunset
  | @consumed c m v he hpaused hle =>
    obtain ⟨hnow, _, hlt⟩ := hclock _ rfl
    have hcurrent := h.current hpaused _ hnow hlt
    refine ⟨_, .stored ?_ ?_, rfl, rfl, hb.step (.take hnow (hle.trans hcurrent)), ?_, .inr rfl⟩
    · rw [consumed_limit]
      exact Nat.sub_le_sub_right hcurrent v
    · exact Nat.mod_eq_of_lt hlt
    · simp [Event.payment, Event.block, he]
  | stopped | stakingPaused =>
    obtain ⟨hnow, _, hlt⟩ := hclock _ rfl
    obtain ⟨hf, hb⟩ := h.wait hb true hnow hlt
    exact ⟨_, hf, rfl, rfl, hb, (List.append_nil _).symm, .inr rfl⟩
  | resumed | stakingResumed =>
    obtain ⟨hnow, _, hlt⟩ := hclock _ rfl
    obtain ⟨hf, hb⟩ := h.wait hb false hnow hlt
    exact ⟨_, hf, rfl, rfl, hb, (List.append_nil _).symm, .inr rfl⟩
  | limited | removed => cases hkeeps

end StakeLimit.Data

/-- A run with a limit is one of a bucket that was full at its start. -/
theorem World.bounded_run {es : List (Event D ρ)} {w w' : World R} {b : Bucket} {M inc : ℕ}
    (hrun : execute (World.machine D I) w es = .ok w')
    (hmax : w.lido.stakeLimit.maxStakeLimit.toNat = M)
    (hinc : w.lido.stakeLimit.increasePerBlock = inc)
    (hset : w.lido.stakeLimit.isStakingLimitSet = true)
    (hkeeps : ∀ e ∈ es, e.setsLimit = false)
    (hblocks : ∀ t ∈ es.filterMap Event.block, b.now ≤ t ∧ 1 ≤ t ∧ t < 2 ^ 32)
    (hsorted : (es.filterMap Event.block).Pairwise (· ≤ ·))
    (hf : w.lido.stakeLimit.Follows b) (hb : Bounded M inc b) :
    ∃ b', Bounded M inc b' ∧ b'.taken = b.taken ++ es.filterMap Event.payment := by
  induction es generalizing w b with
  | nil => exact ⟨b, hb, (List.append_nil _).symm⟩
  | cons e es ih =>
    obtain ⟨w₁, hstep, hrun⟩ := bind_eq_ok.mp hrun
    subst hmax hinc
    have hclock : ∀ t, e.block = some t → b.now ≤ t ∧ 1 ≤ t ∧ t < 2 ^ 32 := by
      intro t ht
      exact hblocks t (List.mem_filterMap.mpr ⟨e, List.mem_cons_self, ht⟩)
    obtain ⟨b₁, hf₁, hmax, hinc, hb₁, htaken, hnow⟩ := hf.change hb hset (gate_change hstep)
      (hkeeps e List.mem_cons_self) hclock
    have hset₁ : w₁.lido.stakeLimit.isStakingLimitSet = true := by
      rw [Data.isStakingLimitSet, show w₁.lido.stakeLimit.maxStakeLimit = _ from hmax]
      exact hset
    have hlater : ∀ t ∈ es.filterMap Event.block, b₁.now ≤ t ∧ 1 ≤ t ∧ t < 2 ^ 32 := by
      intro t ht
      have hmem : t ∈ (e :: es).filterMap Event.block := by
        obtain ⟨e', he', ht'⟩ := List.mem_filterMap.mp ht
        exact List.mem_filterMap.mpr ⟨e', List.mem_cons_of_mem _ he', ht'⟩
      obtain ⟨hle, hrange⟩ := hblocks t hmem
      rcases hnow with hnow | hnow
      · exact ⟨hnow ▸ hle, hrange⟩
      · rw [List.filterMap_cons_some hnow, List.pairwise_cons] at hsorted
        exact ⟨hsorted.1 t ht, hrange⟩
    have hsorted₁ : (es.filterMap Event.block).Pairwise (· ≤ ·) := by
      cases hblock : e.block with
      | none => rwa [List.filterMap_cons_none hblock] at hsorted
      | some t =>
        rw [List.filterMap_cons_some hblock] at hsorted
        exact hsorted.of_cons
    obtain ⟨b', hb', htaken'⟩ := ih hrun (congrArg BitVec.toNat hmax) hinc hset₁
      (fun e he ↦ hkeeps e (List.mem_cons_of_mem _ he)) hlater hsorted₁ hf₁ hb₁
    refine ⟨b', hb', ?_⟩
    rw [htaken', htaken, List.append_assoc]
    cases hpayment : e.payment with
    | none => rw [List.filterMap_cons_none hpayment, Option.toList_none, List.nil_append]
    | some p => rw [List.filterMap_cons_some hpayment, Option.toList_some, List.singleton_append]

end Run

theorem World.setStakingLimit_stored {w w' : World R} {c : LidoCall D} {m n : ℕ}
    (hstep : World.step D I w (.lido c (.setStakingLimit m n)) = .ok w') :
    w'.lido.stakeLimit.maxStakeLimit.toNat = m ∧
    w'.lido.stakeLimit.maxStakeLimitGrowthBlocks.toNat = m / n ∧
    w'.lido.stakeLimit.prevStakeLimit.toNat =
      if w.lido.stakeLimit.isStakingLimitSet then
        min m w.lido.stakeLimit.prevStakeLimit.toNat
      else m := by
  cases World.step_effect hstep with
  | setStakingLimit _ hd =>
    rw [Lido.stakeLimit, get_set]
    exact Data.setStakingLimit_ok hd

/-- The level is at most the maximum, so that nothing is cut off where a limit is set or
used and the asserts hold. In a run that leaves the limit as it is, a window of blocks
lets through the maximum and what the blocks of the window add. -/
theorem staking_is_rate_limited {w : World R} (hw : Reachable (World.machine D I) w) :
    (w.lido.stakeLimit.isStakingLimitSet = true →
      w.lido.stakeLimit.prevStakeLimit.toNat ≤ w.lido.stakeLimit.maxStakeLimit.toNat) ∧
    (∀ v block, w.lido.stakeLimit.isStakingPaused = false →
      w.lido.stakeLimit.isStakingLimitSet = true →
      let current := w.lido.stakeLimit.calculateCurrentStakeLimit block
      (current < v → w.lido.consumeStakeLimit v block = .error (.reason "STAKE_LIMIT")) ∧
      (v ≤ current → ∃ s, w.lido.consumeStakeLimit v block = .ok s ∧
        s.stakeLimit.prevStakeLimit.toNat = current - v ∧
        s.stakeLimit.maxStakeLimit = w.lido.stakeLimit.maxStakeLimit ∧
        s.stakeLimit.maxStakeLimitGrowthBlocks = w.lido.stakeLimit.maxStakeLimitGrowthBlocks)) ∧
    (∀ c maxStakeLimit increase w',
      World.step D I w (.lido c (.setStakingLimit maxStakeLimit increase)) = .ok w' →
      w'.lido.stakeLimit.maxStakeLimit.toNat = maxStakeLimit ∧
      w'.lido.stakeLimit.maxStakeLimitGrowthBlocks.toNat = maxStakeLimit / increase ∧
      w'.lido.stakeLimit.prevStakeLimit.toNat =
        if w.lido.stakeLimit.isStakingLimitSet then
          min maxStakeLimit w.lido.stakeLimit.prevStakeLimit.toNat
        else maxStakeLimit) ∧
    (w.lido.stakeLimit.isStakingLimitSet = true → ∀ (es : List (Event D ρ)) (w' : World R),
      execute (World.machine D I) w es = .ok w' →
      (∀ e ∈ es, e.setsLimit = false) →
      (es.filterMap Event.block).Pairwise (· ≤ ·) →
      (∀ block ∈ es.filterMap Event.block, 1 ≤ block ∧ block < 2 ^ 32) →
      ∀ b₁ b₂, b₁ ≤ b₂ →
        takenBetween (es.filterMap Event.payment) b₁ b₂ ≤
          w.lido.stakeLimit.maxStakeLimit.toNat +
            (b₂ - b₁) * w.lido.stakeLimit.increasePerBlock) := by
  have hlevel := World.level hw
  refine ⟨fun hset ↦ hlevel (by simpa [Data.isStakingLimitSet] using hset), ?_, ?_, ?_⟩
  · intro v block hpaused hset
    refine ⟨fun hlt ↦ Lido.consumeStakeLimit_eq_error hset hlt, fun hle ↦ ?_⟩
    refine ⟨_, (Lido.consumeStakeLimit_eq_ok hpaused).mpr (.inr ⟨hset, hle, rfl⟩), ?_⟩
    rw [Lido.stakeLimit, get_set]
    exact ⟨Data.consumed_limit v block, rfl, rfl⟩
  · intro c maxStakeLimit increase w' h
    exact World.setStakingLimit_stored h
  · intro hset es w' hrun hkeeps hsorted hblocks b₁ b₂ hle
    obtain ⟨b, hb, htaken⟩ := World.bounded_run hrun rfl rfl hset hkeeps
      (fun t ht ↦ ⟨Nat.zero_le t, hblocks t ht⟩) hsorted (.full hlevel hset 0) (.full 0)
    rw [← List.nil_append (es.filterMap Event.payment), ← htaken]
    exact hb.window b₁ b₂ hle

namespace Sample

def inBlock (blockNumber : ℕ) (m : LidoMessage) : Event deployment (RegistryCall deployment) :=
  .lido { sender := 5, sender_ne_lido := five_ne_lido, blockNumber, canPerform := fun _ _ ↦ true
          depositAccepts := fun _ _ ↦ true, recoveryVault := 9
          recoveryVault_ne_lido := nine_ne_lido, recoveryAccepts := true, tokenTransfers := true } m

def limitedRun : List (Event deployment (RegistryCall deployment)) :=
  [admin .resume, admin (.setStakingLimit (100 * 10 ^ 18) (10 * 10 ^ 18))]

def pausedRun : List (Event deployment (RegistryCall deployment)) :=
  [inBlock 11 (.submit 0 (60 * 10 ^ 18)), inBlock 12 .pauseStaking, inBlock 13 .resumeStaking,
    inBlock 14 (.submit 0 (50 * 10 ^ 18))]

/-- Two payments around a pause stay below the bound of their four blocks. -/
theorem hundred_and_ten_pass : ∃ w, Reachable (jointSystem deployment layout) w ∧
    takenBetween (pausedRun.filterMap Event.payment) 11 14 = 110 * 10 ^ 18 ∧
    takenBetween (pausedRun.filterMap Event.payment) 11 14 ≤ 100 * 10 ^ 18 + 3 * (10 * 10 ^ 18) := by
  have hrun : reaches (jointSystem deployment layout) start limitedRun (fun w ↦
      w.lido.stakeLimit.isStakingLimitSet &&
      decide (w.lido.stakeLimit.maxStakeLimit.toNat = 100 * 10 ^ 18) &&
      decide (w.lido.stakeLimit.increasePerBlock = 10 * 10 ^ 18) &&
      (execute (jointSystem deployment layout) w pausedRun).isOk) = true := by
    decide +kernel
  obtain ⟨w, hw, hp⟩ := reachable_of_run hrun
  simp only [Bool.and_eq_true, decide_eq_true_eq] at hp
  obtain ⟨⟨⟨hset, hmax⟩, hinc⟩, hok⟩ := hp
  obtain ⟨w', hw'⟩ := exists_of_isOk hok
  have hbound := (staking_is_rate_limited hw).2.2.2 hset pausedRun w' hw' (by decide) (by decide)
    (by decide) 11 14 (by decide)
  rw [hmax, hinc] at hbound
  exact ⟨w, hw, by decide, hbound⟩

end Sample

end LidoDao
