import LidoDao.Library.Compounding
import LidoDao.OracleCalls
import LidoDao.OracleTime

namespace LidoDao

open Evm Library.Outcome Library.Transition LidoOracle

variable {X : Type} {S : OracleSurroundings X} {w w' u : OracleWorld X} {e : OracleEvent X}

structure ReportDelta where
  postTotalPooledEther : ℕ
  preTotalPooledEther : ℕ
  timeElapsed : ℕ
  deriving DecidableEq

def LidoOracle.getLastCompletedReportDelta (o : LidoOracle) : ReportDelta where
  postTotalPooledEther := o.postCompletedTotalPooledEther
  preTotalPooledEther := o.preCompletedTotalPooledEther
  timeElapsed := o.timeElapsed

/-- A completed report changed the pooled ether within these boundaries, in basis points. -/
structure ReportDelta.Within (increase decrease : ℕ) (d : ReportDelta) : Prop where
  increase : 10000 * (365 * 86400) * (d.postTotalPooledEther - d.preTotalPooledEther) ≤
    increase * d.preTotalPooledEther * d.timeElapsed
  decrease : 10000 * (d.preTotalPooledEther - d.postTotalPooledEther) ≤
    decrease * d.preTotalPooledEther

namespace LidoOracle

variable {o : LidoOracle} {post pre elapsed increase decrease : ℕ}

theorem within_of_checks (h : o._reportSanityChecks post pre elapsed = .ok ())
    (hincrease : o.allowedBeaconBalanceAnnualRelativeIncrease ≤ increase)
    (hdecrease : o.allowedBeaconBalanceRelativeDecrease ≤ decrease) :
    ReportDelta.Within increase decrease ⟨post, pre, elapsed⟩ := by
  rw [_reportSanityChecks] at h
  by_cases hgrown : pre ≤ post
  · rw [if_pos hgrown] at h
    simp only [bind_eq_ok, SafeMath.mul_eq_ok, require_eq_ok] at h
    obtain ⟨_, ⟨_, rfl⟩, _, ⟨_, rfl⟩, _, ⟨_, rfl⟩, hle⟩ := h
    refine ⟨hle.trans ?_, ?_⟩
    · exact Nat.mul_le_mul_right _ (Nat.mul_le_mul_right _ hincrease)
    · rw [Nat.sub_eq_zero_of_le hgrown]
      exact Nat.zero_le _
  · rw [if_neg hgrown] at h
    simp only [bind_eq_ok, SafeMath.mul_eq_ok, require_eq_ok] at h
    obtain ⟨_, ⟨_, rfl⟩, _, ⟨_, rfl⟩, hle⟩ := h
    refine ⟨?_, hle.trans (Nat.mul_le_mul_right _ hdecrease)⟩
    rw [Nat.sub_eq_zero_of_le (Nat.le_of_not_le hgrown)]
    exact Nat.zero_le _

end LidoOracle

namespace OracleWorld

/-- Nothing is pushed, or what is pushed passed the checks of this oracle. -/
def PushesChecked (w w' : OracleWorld X) : Prop :=
  w'.pushes = w.pushes ∨ ∃ p, w'.pushes = w.pushes ++ [p] ∧ w'.oracle.timeElapsed = p.timeElapsed ∧
    w.oracle._reportSanityChecks w'.oracle.postCompletedTotalPooledEther
      w'.oracle.preCompletedTotalPooledEther w'.oracle.timeElapsed = .ok ()

theorem pushesChecked_push {epochId balance validators : ℕ} {spec : BeaconSpec}
    (h : u._push S epochId balance validators spec = .ok w') (hpushes : u.pushes = w.pushes)
    (hincrease : u.oracle.allowedBeaconBalanceAnnualRelativeIncrease =
      w.oracle.allowedBeaconBalanceAnnualRelativeIncrease)
    (hdecrease : u.oracle.allowedBeaconBalanceRelativeDecrease =
      w.oracle.allowedBeaconBalanceRelativeDecrease) : PushesChecked w w' := by
  simp only [_push, bind_eq_ok, pure_eq] at h
  obtain ⟨pre, _, outside, _, post, _, _, hchecks, _, _, h⟩ := h
  have hsame (post pre elapsed : ℕ) : w.oracle._reportSanityChecks post pre elapsed =
      u.oracle._reportSanityChecks post pre elapsed := by
    rw [_reportSanityChecks, _reportSanityChecks, hincrease, hdecrease]
  rw [PushesChecked, ← hpushes]
  split at h
  · obtain ⟨outside', _, h⟩ := bind_eq_ok.mp h
    cases h
    exact .inr ⟨_, rfl, rfl, (hsame _ _ _).trans hchecks⟩
  · cases h
    exact .inr ⟨_, rfl, rfl, (hsame _ _ _).trans hchecks⟩

theorem pushesChecked (h : (machine S).step w e = .ok w') : PushesChecked w w' := by
  cases e with
  | outside x =>
    cases h
    exact .inl rfl
  | call c m =>
    cases handle_ends h with
    | idle hpushes _ => exact .inl hpushes
    | pushed h => exact pushesChecked_push h rfl rfl rfl

end OracleWorld

section Run

variable {now now' : UInt64} {spec : BeaconSpec} {deltas deltas' : List ReportDelta}
  {increase decrease : ℕ}

/-- The oracle with the time of the last call and the changes of every completed report. -/
def deltaSystem (S : OracleSurroundings X) :
    Machine ((OracleWorld X × UInt64) × List ReportDelta) (OracleEvent X) Revert :=
  (clockedSystem S).observed [] fun s _ t deltas ↦
    if t.1.pushes = s.1.pushes then deltas else deltas ++ [t.1.oracle.getLastCompletedReportDelta]

/-- The boundaries set in the oracle are no wider than these. -/
def LidoOracle.Allows (o : LidoOracle) (increase decrease : ℕ) : Prop :=
  o.allowedBeaconBalanceAnnualRelativeIncrease ≤ increase ∧
    o.allowedBeaconBalanceRelativeDecrease ≤ decrease

/-- Each push completed a report within the boundaries. -/
structure Recorded (increase decrease : ℕ) (w : OracleWorld X) (deltas : List ReportDelta) :
    Prop where
  elapsed : deltas.map ReportDelta.timeElapsed = w.pushes.map Push.timeElapsed
  within : ∀ d ∈ deltas, d.Within increase decrease

theorem Recorded.step (h : Recorded increase decrease w deltas)
    (hchecked : OracleWorld.PushesChecked w w') (hallows : w.oracle.Allows increase decrease) :
    Recorded increase decrease w' (if w'.pushes = w.pushes then deltas
      else deltas ++ [w'.oracle.getLastCompletedReportDelta]) := by
  rcases hchecked with hsame | ⟨p, hpushes, helapsed, hchecks⟩
  · rw [if_pos hsame]
    refine ⟨?_, h.within⟩
    rw [hsame]
    exact h.elapsed
  · have hne : w'.pushes ≠ w.pushes := by
      rw [hpushes]
      exact fun heq ↦ absurd (List.append_right_eq_self.mp heq) (List.cons_ne_nil _ _)
    rw [if_neg hne]
    refine ⟨?_, ?_⟩
    · rw [hpushes, List.map_append, List.map_append, h.elapsed, List.map_singleton,
        List.map_singleton, ← helapsed]
      rfl
    · intro d hd
      rcases List.mem_append.mp hd with hd | hd
      · exact h.within d hd
      · rw [List.mem_singleton.mp hd]
        exact LidoOracle.within_of_checks hchecks hallows.1 hallows.2

/-- In time, with one specification, and within the boundaries. -/
def OracleEvent.InBounds (increase decrease : ℕ) (s : (OracleWorld X × UInt64) × List ReportDelta)
    (e : OracleEvent X) : Prop :=
  OracleEvent.InOrder s.1 e ∧ OracleEvent.NotAhead s.1 e ∧ s.1.1.oracle.Allows increase decrease

theorem recorded_runs {w₀ : OracleWorld X} (h₀ : (OracleWorld.machine S).initial w₀)
    (h : Runs (deltaSystem S) (OracleEvent.InBounds increase decrease) ((w₀, 0), [])
      ((w, now), deltas)) :
    TimeSane w₀.oracle._getBeaconSpec w now ∧ Recorded increase decrease w deltas := by
  have hrecorded₀ : Recorded increase decrease w₀ [] := by
    refine ⟨?_, fun d hd ↦ absurd hd List.not_mem_nil⟩
    rw [h₀.2]
    rfl
  have hinv := h.invariant (P := fun s ↦ Reachable (OracleWorld.machine S) s.1.1 ∧
    TimeSane w₀.oracle._getBeaconSpec s.1.1 s.1.2 ∧ Recorded increase decrease s.1.1 s.2) ?_
    ⟨.initial h₀, .initial h₀, hrecorded₀⟩
  · exact hinv.2
  · intro s e t he hs hstep
    obtain ⟨hreachable, hsane, hrecorded⟩ := hs
    obtain ⟨hclocked, hdeltas⟩ := observed_step.mp hstep
    obtain ⟨hstep, htime⟩ := observed_step.mp hclocked
    refine ⟨hreachable.step hstep, ?_, ?_⟩
    · rw [← htime]
      exact hsane.step hreachable hstep he.1 he.2.1
    · rw [← hdeltas]
      exact hrecorded.step (OracleWorld.pushesChecked hstep) he.2.2

section Growth

variable {d : ReportDelta}

theorem ReportDelta.Within.growth (h : d.Within increase decrease) :
    (d.postTotalPooledEther : ℝ) ≤ d.preTotalPooledEther *
      (1 + increase / (10000 * (365 * 86400)) * d.timeElapsed) := by
  have hsub : (d.postTotalPooledEther : ℝ) - d.preTotalPooledEther ≤
      ((d.postTotalPooledEther - d.preTotalPooledEther : ℕ) : ℝ) := by
    rw [sub_le_iff_le_add]
    exact_mod_cast Nat.le_add_of_sub_le (le_refl _)
  have hincrease : (10000 * (365 * 86400) : ℝ) *
      ((d.postTotalPooledEther - d.preTotalPooledEther : ℕ) : ℝ) ≤
        increase * d.preTotalPooledEther * d.timeElapsed := by exact_mod_cast h.increase
  have hgrown : (d.postTotalPooledEther : ℝ) - d.preTotalPooledEther ≤
      increase * d.preTotalPooledEther * d.timeElapsed / (10000 * (365 * 86400)) := by
    rw [le_div_iff₀ (by norm_num), mul_comm]
    exact (mul_le_mul_of_nonneg_left hsub (by norm_num)).trans hincrease
  calc (d.postTotalPooledEther : ℝ)
      ≤ d.preTotalPooledEther +
          increase * d.preTotalPooledEther * d.timeElapsed / (10000 * (365 * 86400)) := by
        linarith
    _ = d.preTotalPooledEther * (1 + increase / (10000 * (365 * 86400)) * d.timeElapsed) := by
        ring

theorem ReportDelta.Within.loss (h : d.Within increase decrease) :
    (d.preTotalPooledEther : ℝ) * (1 - decrease / 10000) ≤ d.postTotalPooledEther := by
  have hsub : (d.preTotalPooledEther : ℝ) - d.postTotalPooledEther ≤
      ((d.preTotalPooledEther - d.postTotalPooledEther : ℕ) : ℝ) := by
    rw [sub_le_iff_le_add]
    exact_mod_cast Nat.le_add_of_sub_le (le_refl _)
  have hdecrease : (10000 : ℝ) * ((d.preTotalPooledEther - d.postTotalPooledEther : ℕ) : ℝ) ≤
      decrease * d.preTotalPooledEther := by exact_mod_cast h.decrease
  have hlost : (d.preTotalPooledEther : ℝ) - d.postTotalPooledEther ≤
      decrease * d.preTotalPooledEther / 10000 := by
    rw [le_div_iff₀ (by norm_num), mul_comm]
    exact (mul_le_mul_of_nonneg_left hsub (by norm_num)).trans hdecrease
  calc (d.preTotalPooledEther : ℝ) * (1 - decrease / 10000)
      = d.preTotalPooledEther - decrease * d.preTotalPooledEther / 10000 := by ring
    _ ≤ d.postTotalPooledEther := by linarith

end Growth

/-- All the rebases of a run together grow the pooled ether no faster than the allowed rate
compounded over the time since genesis, and each loses no more than the allowed part. -/
theorem rebases_stay_in_bounds {w₀ : OracleWorld X} (h₀ : (OracleWorld.machine S).initial w₀)
    (hdecrease : decrease ≤ 10000)
    (hseconds : w₀.oracle._getBeaconSpec.slotsPerEpoch.toNat *
      w₀.oracle._getBeaconSpec.secondsPerSlot.toNat < 2 ^ 64)
    (h : Runs (deltaSystem S) (OracleEvent.InBounds increase decrease) ((w₀, 0), [])
      ((w, now), deltas)) :
    (∀ d ∈ deltas, 10000 * (d.preTotalPooledEther - d.postTotalPooledEther) ≤
        decrease * d.preTotalPooledEther ∧
      10000 * (365 * 86400) * (d.postTotalPooledEther - d.preTotalPooledEther) ≤
        increase * d.preTotalPooledEther * d.timeElapsed) ∧
    (deltas.map fun d ↦ (d.postTotalPooledEther : ℝ)).prod ≤
      (deltas.map fun d ↦ (d.preTotalPooledEther : ℝ)).prod *
        Real.exp (increase / 10000 *
          ((now.toNat - w₀.oracle._getBeaconSpec.genesisTime.toNat : ℕ) / (365 * 86400))) ∧
    (deltas.map fun d ↦ (d.preTotalPooledEther : ℝ)).prod * (1 - decrease / 10000) ^ deltas.length ≤
      (deltas.map fun d ↦ (d.postTotalPooledEther : ℝ)).prod := by
  obtain ⟨hsane, helapsed, hwithin⟩ := recorded_runs h₀ h
  obtain ⟨_, hpassed⟩ := hsane.elapsed hseconds
  have hgrowth := Library.Compounding.prod_after_le (l := deltas)
    (fun d ↦ (d.preTotalPooledEther : ℝ)) (fun d ↦ d.postTotalPooledEther)
    (fun d ↦ d.timeElapsed) (increase / (10000 * (365 * 86400)))
    fun d hd ↦ ⟨Nat.cast_nonneg _, Nat.cast_nonneg _, (hwithin d hd).growth⟩
  have hkept : (0 : ℝ) ≤ 1 - decrease / 10000 := by
    rw [sub_nonneg, div_le_one (by norm_num)]
    exact_mod_cast hdecrease
  refine ⟨fun d hd ↦ ⟨(hwithin d hd).decrease, (hwithin d hd).increase⟩, hgrowth.trans ?_,
    Library.Compounding.le_prod_after hkept fun d hd ↦ ⟨Nat.cast_nonneg _, (hwithin d hd).loss⟩⟩
  have htime : (deltas.map fun d ↦ (d.timeElapsed : ℝ)).sum ≤
      ((now.toNat - w₀.oracle._getBeaconSpec.genesisTime.toNat : ℕ) : ℝ) := by
    have hcast : (deltas.map fun d ↦ (d.timeElapsed : ℝ)).sum =
        ((deltas.map ReportDelta.timeElapsed).sum : ℕ) := by
      rw [Nat.cast_list_sum, List.map_map]
      rfl
    rw [hcast, helapsed]
    exact_mod_cast hpassed
  have hbefore : 0 ≤ (deltas.map fun d ↦ (d.preTotalPooledEther : ℝ)).prod := by
    refine List.prod_nonneg fun x hx ↦ ?_
    obtain ⟨d, _, rfl⟩ := List.mem_map.mp hx
    exact Nat.cast_nonneg _
  refine mul_le_mul_of_nonneg_left (Real.exp_le_exp.mpr ?_) hbefore
  calc (increase : ℝ) / (10000 * (365 * 86400)) * (deltas.map fun d ↦ (d.timeElapsed : ℝ)).sum
      ≤ increase / (10000 * (365 * 86400)) *
          ((now.toNat - w₀.oracle._getBeaconSpec.genesisTime.toNat : ℕ) : ℝ) :=
        mul_le_mul_of_nonneg_left htime (by positivity)
    _ = increase / 10000 *
          (((now.toNat - w₀.oracle._getBeaconSpec.genesisTime.toNat : ℕ) : ℝ) / (365 * 86400)) := by
        ring

end Run

namespace Sample

def validatorPool : World NodeOperatorsRegistry :=
  { oracleStart.outside with
    lido := { oracleStart.outside.lido with
      shares := fun a ↦ if a = 9 then 32 * 10 ^ 18 else 0
      totalShares := 32 * 10 ^ 18
      depositedValidators := 1
      beaconValidators := 1
      beaconBalance := 32 * 10 ^ 18 } }

def rebaseRun : List (OracleEvent (World NodeOperatorsRegistry)) := [
  oracleCall 1 0 (.addOracleMember 11),
  .outside validatorPool,
  oracleCall 11 3840 (.reportBeacon 10 32000000100 1),
  oracleCall 11 7680 (.reportBeacon 20 31999999100 1)]

theorem rebases_of_two_frames : ∃ w now deltas,
    Runs (deltaSystem surroundings) (OracleEvent.InBounds 1000 500) ((oracleStart, 0), [])
      ((w, now), deltas) ∧
    deltas.map (fun d ↦ (d.preTotalPooledEther, d.postTotalPooledEther)) =
      [(32000000000 * 10 ^ 9, 32000000100 * 10 ^ 9),
        (32000000100 * 10 ^ 9, 31999999100 * 10 ^ 9)] ∧
    (∀ d ∈ deltas, 10000 * (d.preTotalPooledEther - d.postTotalPooledEther) ≤
      500 * d.preTotalPooledEther) ∧
    (deltas.map fun d ↦ (d.preTotalPooledEther : ℝ)).prod *
      (1 - (500 : ℕ) / 10000) ^ deltas.length ≤
      (deltas.map fun d ↦ (d.postTotalPooledEther : ℝ)).prod := by
  have hrun : reachesBy (deltaSystem surroundings) (fun s e ↦
      (OracleEvent.NotBeforeGenesis s.1.1 e ∧ s.1.2 ≤ e.time s.1.2 ∧ keepsSpec e = true) ∧
        inTime s.1 e = true ∧
        s.1.1.oracle.allowedBeaconBalanceAnnualRelativeIncrease ≤ 1000 ∧
        s.1.1.oracle.allowedBeaconBalanceRelativeDecrease ≤ 500)
      (fun s ↦ decide (s.2.map (fun d ↦ (d.preTotalPooledEther, d.postTotalPooledEther)) =
        [(32000000000 * 10 ^ 9, 32000000100 * 10 ^ 9),
          (32000000100 * 10 ^ 9, 31999999100 * 10 ^ 9)]))
      ((oracleStart, 0), []) rebaseRun = true := by
    decide +kernel
  obtain ⟨⟨⟨w, now⟩, deltas⟩, hw, hq⟩ := Runs.of_reachesBy hrun
  have hruns : Runs (deltaSystem surroundings) (OracleEvent.InBounds 1000 500)
      ((oracleStart, 0), []) ((w, now), deltas) :=
    hw.mono fun _ _ h ↦ ⟨inOrder_of_keepsSpec h.1, notAhead_of_inTime h.2.1, h.2.2⟩
  have hseconds : oracleStart.oracle._getBeaconSpec.slotsPerEpoch.toNat *
      oracleStart.oracle._getBeaconSpec.secondsPerSlot.toNat < 2 ^ 64 := by decide +kernel
  have hdecrease : 500 ≤ 10000 := by decide
  obtain ⟨heach, _, hkept⟩ := rebases_stay_in_bounds oracleStart_initial hdecrease hseconds hruns
  exact ⟨w, now, deltas, hruns, of_decide_eq_true hq, fun d hd ↦ (heach d hd).1, hkept⟩

end Sample

end LidoDao
