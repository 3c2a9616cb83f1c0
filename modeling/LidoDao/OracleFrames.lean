import Mathlib.Data.UInt
import LidoDao.OracleAndPool
import LidoDao.OracleProgress

namespace LidoDao

open Evm Library.Outcome Library.Ballots Library.Transition LidoOracle

variable {X : Type} {S : OracleSurroundings X} {w w' w₀ w₁ w₂ : OracleWorld X} {e : OracleEvent X}

def OracleEvent.NotBeforeGenesis (w : OracleWorld X) : OracleEvent X → Prop
  | .call c _ => w.oracle._getBeaconSpec.genesisTime ≤ c.timestamp
  | .outside _ => True

def OracleEvent.KeepsFrames (w : OracleWorld X) : OracleEvent X → Prop
  | .call _ (.setBeaconSpec spec) => spec.epochsPerFrame = w.oracle._getBeaconSpec.epochsPerFrame
  | _ => True

instance : DecidablePred (OracleEvent.NotBeforeGenesis w)
  | .call c _ => inferInstanceAs (Decidable (_ ≤ c.timestamp))
  | .outside _ => isTrue trivial

instance : DecidablePred (OracleEvent.KeepsFrames w)
  | .call _ (.setBeaconSpec spec) => inferInstanceAs (Decidable (spec.epochsPerFrame = _))
  | .call _ (.setAllowedBeaconBalanceAnnualRelativeIncrease _)
  | .call _ (.setAllowedBeaconBalanceRelativeDecrease _)
  | .call _ (.setBeaconReportReceiver _)
  | .call _ .finalizeUpgrade_v3
  | .call _ (.addOracleMember _)
  | .call _ (.removeOracleMember _)
  | .call _ (.setQuorum _)
  | .call _ (.reportBeacon ..)
  | .outside _ => isTrue trivial

theorem reportable_cases {o : LidoOracle} {epochId : ℕ} {time : UInt64}
    (h : Reportable o epochId time) (hgenesis : o._getBeaconSpec.genesisTime ≤ time) :
    epochId = o.expectedEpochId ∨
      epochId < 2 ^ 64 ∧ o._getBeaconSpec.epochsPerFrame.toNat ∣ epochId := by
  rcases Nat.eq_or_lt_of_le h.1 with heq | hlt
  · exact .inl heq.symm
  · obtain ⟨current, hcurrent, hfirst⟩ := h.2 hlt
    refine .inr ⟨(frameFirst_le hfirst).trans_lt (current_lt hgenesis hcurrent), ?_⟩
    obtain ⟨_, rfl⟩ := _getFrameFirstEpochId_ok hfirst
    exact Nat.dvd_mul_left _ _

section Advance

/-- The epochs are in order; the expected one has grown by no more than a word of 64
bits for each push. -/
structure EpochsSane (w : OracleWorld X) : Prop where
  frame_pos : 0 < w.oracle._getBeaconSpec.epochsPerFrame.toNat
  expected_le : w.oracle.expectedEpochId ≤ (w.pushes.length + 1) * (2 ^ 64 - 1)
  last_lt : w.oracle.lastCompletedEpochId < w.oracle.expectedEpochId
  le_last : ∀ p ∈ w.pushes, p.epochId ≤ w.oracle.lastCompletedEpochId
  increasing : (w.pushes.map Push.epochId).Pairwise (· < ·)

namespace EpochsSane

theorem epoch_le (h : EpochsSane w) {epochId : ℕ} {time : UInt64}
    (hE : Reportable w.oracle epochId time)
    (hgenesis : w.oracle._getBeaconSpec.genesisTime ≤ time) :
    epochId ≤ (w.pushes.length + 1) * (2 ^ 64 - 1) := by
  rcases reportable_cases hE hgenesis with rfl | ⟨hlt, _⟩
  · exact h.expected_le
  · calc epochId ≤ 1 * (2 ^ 64 - 1) := by omega
      _ ≤ (w.pushes.length + 1) * (2 ^ 64 - 1) :=
        Nat.mul_le_mul_right _ (Nat.le_add_left 1 w.pushes.length)

theorem advanced_eq (h : EpochsSane w) {epochId : ℕ} {time : UInt64}
    (hE : Reportable w.oracle epochId time)
    (hgenesis : w.oracle._getBeaconSpec.genesisTime ≤ time)
    (hlength : w.pushes.length + 1 < 2 ^ 192) :
    (epochId + w.oracle._getBeaconSpec.epochsPerFrame.toNat) % wordLimit =
      epochId + w.oracle._getBeaconSpec.epochsPerFrame.toNat := by
  have hle := h.epoch_le hE hgenesis
  have hepochs := w.oracle._getBeaconSpec.epochsPerFrame.toNat_lt
  have hword : 2 ^ 192 * (2 ^ 64 - 1) < wordLimit := by decide +kernel
  apply Nat.mod_eq_of_lt
  omega

theorem elapsed_eq (h : EpochsSane w) {epochId : ℕ} {time : UInt64}
    (hE : Reportable w.oracle epochId time)
    (hgenesis : w.oracle._getBeaconSpec.genesisTime ≤ time)
    (hlength : w.pushes.length + 1 < 2 ^ 192) :
    (epochId + wordLimit - w.oracle.lastCompletedEpochId) % wordLimit =
      epochId - w.oracle.lastCompletedEpochId := by
  have hle := h.epoch_le hE hgenesis
  have hlast := h.last_lt
  have hreported := hE.1
  have hword : 2 ^ 192 * (2 ^ 64 - 1) < wordLimit := by decide +kernel
  have heq : epochId + wordLimit - w.oracle.lastCompletedEpochId =
      epochId - w.oracle.lastCompletedEpochId + wordLimit := by omega
  rw [heq, Nat.add_mod_right, Nat.mod_eq_of_lt (by omega)]

theorem initial (h : (OracleWorld.machine S).initial w) : EpochsSane w := by
  obtain ⟨⟨spec, _, _, ho⟩, hpushes⟩ := h
  obtain ⟨hframe, hspec, hexpected, hlast⟩ := LidoOracle.initialized ho
  have hpos := UInt64.lt_iff_toNat_lt.mp hframe
  have hlt := spec.epochsPerFrame.toNat_lt
  refine ⟨?_, ?_, ?_, ?_, ?_⟩
  · rwa [hspec]
  · rw [hexpected, hpushes, List.length_nil]
    omega
  · rw [hexpected, hlast]
    exact hpos
  · rw [hpushes]
    exact nofun
  · rw [hpushes]
    exact .nil

theorem of_same (h : EpochsSane w) (hframe : 0 < w'.oracle._getBeaconSpec.epochsPerFrame.toNat)
    (hexpected : w'.oracle.expectedEpochId = w.oracle.expectedEpochId)
    (hlast : w'.oracle.lastCompletedEpochId = w.oracle.lastCompletedEpochId)
    (hpushes : w'.pushes = w.pushes) : EpochsSane w' := by
  refine ⟨hframe, ?_, ?_, ?_, ?_⟩
  · rw [hexpected, hpushes]
    exact h.expected_le
  · rw [hexpected, hlast]
    exact h.last_lt
  · rw [hpushes, hlast]
    exact h.le_last
  · rw [hpushes]
    exact h.increasing

theorem step (h : EpochsSane w) (hprogress : OracleWorld.Progress w e w')
    (hgenesis : e.NotBeforeGenesis w) (hlength : w'.pushes.length < 2 ^ 192) :
    EpochsSane w' ∧ w.oracle.expectedEpochId ≤ w'.oracle.expectedEpochId := by
  have hpos := h.frame_pos
  have hlt := h.last_lt
  cases hprogress with
  | idle hexpected hlast hpushes hspec =>
    refine ⟨h.of_same ?_ hexpected hlast hpushes, hexpected.ge⟩
    rwa [hspec]
  | spec hexpected hlast hpushes hframe hspec =>
    refine ⟨h.of_same ?_ hexpected hlast hpushes, hexpected.ge⟩
    rw [hspec]
    exact UInt64.lt_iff_toNat_lt.mp hframe
  | collected hE hexpected hlast hpushes hspec =>
    refine ⟨⟨?_, ?_, ?_, ?_, ?_⟩, ?_⟩
    · rwa [hspec]
    · rw [hexpected, hpushes]
      exact h.epoch_le hE hgenesis
    · rw [hexpected, hlast]
      exact hlt.trans_le hE.1
    · rw [hpushes, hlast]
      exact h.le_last
    · rw [hpushes]
      exact h.increasing
    · rw [hexpected]
      exact hE.1
  | @pushed c m p w' hE hm hexpected hlast hpushes hspec _ =>
    rw [hpushes, List.length_append, List.length_singleton] at hlength
    have hle := h.epoch_le hE hgenesis
    have hepochs := w.oracle._getBeaconSpec.epochsPerFrame.toNat_lt
    have hreported := hE.1
    rw [h.advanced_eq hE hgenesis hlength] at hexpected
    refine ⟨⟨?_, ?_, ?_, ?_, ?_⟩, ?_⟩
    · rwa [hspec]
    · rw [hexpected, hpushes, List.length_append, List.length_singleton]
      omega
    · rw [hexpected, hlast]
      omega
    · rw [hpushes, hlast]
      intro q hq
      rcases List.mem_append.mp hq with hq | hq
      · have := h.le_last q hq
        omega
      · rw [List.mem_singleton.mp hq]
    · rw [hpushes, List.map_append, List.map_singleton]
      refine List.pairwise_append.mpr ⟨h.increasing, List.pairwise_singleton _ _, ?_⟩
      intro a ha b hb
      obtain ⟨q, hq, rfl⟩ := List.mem_map.mp ha
      rw [List.mem_singleton.mp hb]
      have := h.le_last q hq
      omega
    · rw [hexpected]
      omega

end EpochsSane

theorem OracleWorld.Progress.pushes_length_le (h : Progress w e w') :
    w.pushes.length ≤ w'.pushes.length := by
  cases h with
  | idle _ _ hpushes _ | spec _ _ hpushes _ _ | collected _ _ _ hpushes _ => rw [hpushes]
  | pushed _ _ _ _ hpushes _ _ =>
    rw [hpushes, List.length_append]
    exact Nat.le_add_right _ _

theorem epochsSane_runs (h : Runs (OracleWorld.machine S) OracleEvent.NotBeforeGenesis w₁ w₂)
    (h₁ : Reachable (OracleWorld.machine S) w₁)
    (hsane : w₁.pushes.length < 2 ^ 192 → EpochsSane w₁) (hlength : w₂.pushes.length < 2 ^ 192) :
    EpochsSane w₂ ∧ w₁.oracle.expectedEpochId ≤ w₂.oracle.expectedEpochId := by
  suffices hrun : Reachable (OracleWorld.machine S) w₂ ∧ (w₂.pushes.length < 2 ^ 192 →
      EpochsSane w₂ ∧ w₁.oracle.expectedEpochId ≤ w₂.oracle.expectedEpochId) from hrun.2 hlength
  refine h.invariant (P := fun w ↦ Reachable (OracleWorld.machine S) w ∧
    (w.pushes.length < 2 ^ 192 →
      EpochsSane w ∧ w₁.oracle.expectedEpochId ≤ w.oracle.expectedEpochId)) ?_
    ⟨h₁, fun hlength ↦ ⟨hsane hlength, le_rfl⟩⟩
  intro w e w' hgenesis hw hstep
  obtain ⟨hreachable, hw⟩ := hw
  have hprogress := OracleWorld.progress hreachable hstep
  refine ⟨hreachable.step hstep, fun hlength ↦ ?_⟩
  obtain ⟨hsane, hle⟩ := hw (hprogress.pushes_length_le.trans_lt hlength)
  obtain ⟨hsane', hle'⟩ := hsane.step hprogress hgenesis hlength
  exact ⟨hsane', hle.trans hle'⟩

end Advance

section Frames

variable {n : UInt64}

/-- With frames of one length every epoch is the first of its frame. -/
structure FramesSane (n : UInt64) (w : OracleWorld X) : Prop where
  epochs : EpochsSane w
  length : w.oracle._getBeaconSpec.epochsPerFrame = n
  expected : n.toNat ∣ w.oracle.expectedEpochId
  aligned : ∀ p ∈ w.pushes, n.toNat ∣ p.epochId

theorem FramesSane.initial (h : (OracleWorld.machine S).initial w) :
    FramesSane w.oracle._getBeaconSpec.epochsPerFrame w := by
  refine ⟨.initial h, rfl, ?_, ?_⟩
  · obtain ⟨⟨spec, _, _, ho⟩, _⟩ := h
    obtain ⟨_, hspec, hexpected, _⟩ := LidoOracle.initialized ho
    rw [hspec, hexpected]
  · rw [h.2]
    exact nofun

theorem FramesSane.step (h : FramesSane n w) (hprogress : OracleWorld.Progress w e w')
    (hgenesis : e.NotBeforeGenesis w) (hkeeps : e.KeepsFrames w)
    (hlength : w'.pushes.length < 2 ^ 192) : FramesSane n w' := by
  have hepochs := (h.epochs.step hprogress hgenesis hlength).1
  have hdvd {epochId : ℕ} {time : UInt64} (hE : Reportable w.oracle epochId time)
      (hgenesis : w.oracle._getBeaconSpec.genesisTime ≤ time) : n.toNat ∣ epochId := by
    rcases reportable_cases hE hgenesis with rfl | ⟨_, hdvd⟩
    · exact h.expected
    · rwa [h.length] at hdvd
  cases hprogress with
  | idle hexpected _ hpushes hspec =>
    refine ⟨hepochs, ?_, ?_, ?_⟩
    · rw [hspec]
      exact h.length
    · rw [hexpected]
      exact h.expected
    · rw [hpushes]
      exact h.aligned
  | spec hexpected _ hpushes _ hspec =>
    refine ⟨hepochs, ?_, ?_, ?_⟩
    · rw [hspec]
      exact Eq.trans hkeeps h.length
    · rw [hexpected]
      exact h.expected
    · rw [hpushes]
      exact h.aligned
  | collected hE hexpected _ hpushes hspec =>
    refine ⟨hepochs, ?_, ?_, ?_⟩
    · rw [hspec]
      exact h.length
    · rw [hexpected]
      exact hdvd hE hgenesis
    · rw [hpushes]
      exact h.aligned
  | @pushed c m p w' hE _ hexpected _ hpushes hspec _ =>
    rw [hpushes, List.length_append, List.length_singleton] at hlength
    rw [h.epochs.advanced_eq hE hgenesis hlength, h.length] at hexpected
    refine ⟨hepochs, ?_, ?_, ?_⟩
    · rw [hspec]
      exact h.length
    · rw [hexpected]
      exact Nat.dvd_add (hdvd hE hgenesis) (dvd_refl _)
    · rw [hpushes]
      intro q hq
      rcases List.mem_append.mp hq with hq | hq
      · exact h.aligned q hq
      · rw [List.mem_singleton.mp hq]
        exact hdvd hE hgenesis

theorem framesSane_runs (h₀ : (OracleWorld.machine S).initial w₀)
    (h : Runs (OracleWorld.machine S)
      (fun w e ↦ OracleEvent.NotBeforeGenesis w e ∧ OracleEvent.KeepsFrames w e) w₀ w)
    (hlength : w.pushes.length < 2 ^ 192) :
    FramesSane w₀.oracle._getBeaconSpec.epochsPerFrame w := by
  suffices hrun : Reachable (OracleWorld.machine S) w ∧ (w.pushes.length < 2 ^ 192 →
      FramesSane w₀.oracle._getBeaconSpec.epochsPerFrame w) from hrun.2 hlength
  refine h.invariant (P := fun w ↦ Reachable (OracleWorld.machine S) w ∧
    (w.pushes.length < 2 ^ 192 → FramesSane w₀.oracle._getBeaconSpec.epochsPerFrame w)) ?_
    ⟨.initial h₀, fun _ ↦ .initial h₀⟩
  intro w e w' he hw hstep
  obtain ⟨hreachable, hw⟩ := hw
  have hprogress := OracleWorld.progress hreachable hstep
  refine ⟨hreachable.step hstep, fun hlength ↦ ?_⟩
  exact (hw (hprogress.pushes_length_le.trans_lt hlength)).step hprogress he.1 he.2 hlength

theorem FramesSane.frames_increasing (h : FramesSane n w) :
    (w.pushes.map fun p ↦ p.epochId / n.toNat).Pairwise (· < ·) := by
  have hincreasing := List.pairwise_map.mp h.epochs.increasing
  refine List.pairwise_map.mpr (hincreasing.imp_of_mem fun {p q} _ hq hpq ↦ ?_)
  exact Nat.div_lt_div_of_lt_of_dvd (h.aligned q hq) hpq

end Frames

/-- Epochs are completed in order and, as long as the frames keep their length, at most
one in each frame, until the expected epoch has been advanced around a whole word. -/
theorem completed_epochs_advance (h₀ : (OracleWorld.machine S).initial w₀)
    (h₁ : Runs (OracleWorld.machine S) OracleEvent.NotBeforeGenesis w₀ w₁)
    (h₂ : Runs (OracleWorld.machine S) OracleEvent.NotBeforeGenesis w₁ w₂)
    (hlength : w₂.pushes.length < 2 ^ 192) :
    w₁.oracle.expectedEpochId ≤ w₂.oracle.expectedEpochId ∧
    w₂.oracle.lastCompletedEpochId < w₂.oracle.expectedEpochId ∧
    (w₂.pushes.map Push.epochId).Pairwise (· < ·) ∧
    (∀ e w₃ p, OracleEvent.NotBeforeGenesis w₂ e → (OracleWorld.machine S).step w₂ e = .ok w₃ →
      w₃.pushes = w₂.pushes ++ [p] → w₃.pushes.length < 2 ^ 192 →
      w₂.oracle.lastCompletedEpochId < p.epochId ∧
      p.timeElapsed = (p.epochId - w₂.oracle.lastCompletedEpochId) *
        w₂.oracle._getBeaconSpec.slotsPerEpoch.toNat *
        w₂.oracle._getBeaconSpec.secondsPerSlot.toNat % wordLimit) ∧
    (Runs (OracleWorld.machine S)
        (fun w e ↦ OracleEvent.NotBeforeGenesis w e ∧ OracleEvent.KeepsFrames w e) w₀ w₂ →
      (∀ p ∈ w₂.pushes, w₀.oracle._getBeaconSpec.epochsPerFrame.toNat ∣ p.epochId) ∧
      (w₂.pushes.map fun p ↦
        p.epochId / w₀.oracle._getBeaconSpec.epochsPerFrame.toNat).Pairwise (· < ·)) := by
  have hstart : Reachable (OracleWorld.machine S) w₀ := .initial h₀
  have hsane₁ (hlength : w₁.pushes.length < 2 ^ 192) : EpochsSane w₁ :=
    (epochsSane_runs h₁ hstart (fun _ ↦ .initial h₀) hlength).1
  have hreachable₁ := h₁.reachable hstart
  obtain ⟨hsane, hle⟩ := epochsSane_runs h₂ hreachable₁ hsane₁ hlength
  refine ⟨hle, hsane.last_lt, hsane.increasing, ?_, fun hkeeps ↦ ?_⟩
  · intro e w₃ p hgenesis hstep hp hlength₃
    rw [hp, List.length_append, List.length_singleton] at hlength₃
    cases OracleWorld.progress (h₂.reachable hreachable₁) hstep with
    | idle _ _ hpushes _ | spec _ _ hpushes _ _ | collected _ _ _ hpushes _ =>
      exact absurd (List.append_right_eq_self.mp (hp.symm.trans hpushes)) (List.cons_ne_nil _ _)
    | @pushed c m q w' hE _ _ _ hpushes _ helapsed =>
      obtain rfl : p = q := List.singleton_inj.mp (List.append_cancel_left (hp.symm.trans hpushes))
      rw [hsane.elapsed_eq hE hgenesis hlength₃] at helapsed
      exact ⟨hsane.last_lt.trans_le hE.1, helapsed⟩
  · have hframes := framesSane_runs h₀ hkeeps hlength
    exact ⟨hframes.aligned, hframes.frames_increasing⟩

section Acceptance

theorem mul_zero_ok (a : ℕ) : SafeMath.mul a 0 = .ok 0 := by
  have hword : 0 < wordLimit := by decide +kernel
  exact SafeMath.mul_eq_ok.mpr ⟨by rwa [Nat.mul_zero], (Nat.mul_zero a).symm⟩

theorem zero_mul_ok (a : ℕ) : SafeMath.mul 0 a = .ok 0 := by
  have hword : 0 < wordLimit := by decide +kernel
  exact SafeMath.mul_eq_ok.mpr ⟨by rwa [Nat.zero_mul], (Nat.zero_mul a).symm⟩

theorem _reportSanityChecks_zero (o : LidoOracle) (elapsed : ℕ) :
    o._reportSanityChecks 0 0 elapsed = .ok () := by
  rw [_reportSanityChecks, if_pos le_rfl, Nat.sub_self, mul_zero_ok, ok_bind, mul_zero_ok, ok_bind,
    zero_mul_ok, ok_bind, require_of le_rfl]

theorem _push_isOk {outside outside' : X} {epochId balance validators pre post shares : ℕ}
    {spec : BeaconSpec}
    (hpre : S.totalSupply w.outside = .ok pre)
    (hreport : S.handleOracleReport w.outside validators balance = .ok outside)
    (hpost : S.totalSupply outside = .ok post)
    (hchecks : ∀ (o : LidoOracle) elapsed, o._reportSanityChecks post pre elapsed = .ok ())
    (hshares : S.getTotalShares outside = .ok shares)
    (hreceiver : ∀ addr elapsed,
      S.processLidoOracleReport addr outside post pre elapsed = .ok outside') :
    (w._push S epochId balance validators spec).isOk = true := by
  rw [OracleWorld._push]
  simp only [hpre, hreport, hpost, hchecks, hshares, hreceiver, ok_bind]
  split
  · rfl
  · rfl

end Acceptance

namespace Sample

def twoFrames : List (OracleEvent (World NodeOperatorsRegistry)) :=
  [oracleCall 1 0 (.addOracleMember 11), oracleReport 11 3840 10 0, oracleReport 11 7700 20 0]

theorem two_frames_are_completed : ∃ w : OracleWorld (World NodeOperatorsRegistry),
    w.pushes.length = 2 ∧ w.oracle.lastCompletedEpochId < w.oracle.expectedEpochId ∧
      (w.pushes.map Push.epochId).Pairwise (· < ·) ∧ ∀ p ∈ w.pushes, 10 ∣ p.epochId := by
  have hrun : reachesBy (OracleWorld.machine surroundings)
      (fun w e ↦ OracleEvent.NotBeforeGenesis w e ∧ OracleEvent.KeepsFrames w e)
      (fun w ↦ decide (w.pushes.length = 2)) oracleStart twoFrames = true := by
    decide +kernel
  obtain ⟨w, hw, hq⟩ := Runs.of_reachesBy hrun
  have hlength := of_decide_eq_true hq
  have hgenesis := hw.mono (q := OracleEvent.NotBeforeGenesis) fun _ _ h ↦ h.1
  obtain ⟨_, hlast, hincreasing, _, hframes⟩ := completed_epochs_advance oracleStart_initial
    (.refl _) hgenesis (by rw [hlength]; decide +kernel)
  have hspec : oracleStart.oracle._getBeaconSpec.epochsPerFrame.toNat = 10 := by decide +kernel
  obtain ⟨hdvd, _⟩ := hframes hw
  rw [hspec] at hdvd
  exact ⟨w, hlength, hlast, hincreasing, hdvd⟩

def acceptAll : OracleSurroundings Unit where
  totalSupply _ := .ok 0
  getTotalShares _ := .ok 0
  handleOracleReport _ _ _ := .ok ()
  processLidoOracleReport _ _ _ _ _ := .ok ()
  supportsReceiver _ _ := true

def longFrames : BeaconSpec where
  epochsPerFrame := 2 ^ 63
  slotsPerEpoch := 1
  secondsPerSlot := 1
  genesisTime := 1

/-- A member who alone is a quorum waits for this epoch. -/
structure Awaits (w : OracleWorld Unit) (epochId : ℕ) : Prop where
  committee : Committee w.oracle
  member : w.oracle.members[0]? = some 11
  quorum : w.oracle.quorum = 1
  represents : Represents w.oracle []
  expected : w.oracle.expectedEpochId = epochId
  spec : w.oracle._getBeaconSpec = longFrames

def reportAt (epochId : ℕ) : OracleEvent Unit :=
  .call { sender := 11, blockNumber := 10, canPerform := fun _ _ ↦ true, timestamp := 1 }
    (.reportBeacon epochId 0 0)

theorem _push_acceptAll (w : OracleWorld Unit) (epochId balance validators : ℕ)
    (spec : BeaconSpec) : (w._push acceptAll epochId balance validators spec).isOk = true :=
  _push_isOk rfl rfl rfl _reportSanityChecks_zero rfl fun _ _ ↦ rfl

theorem Awaits.reportAt_notBeforeGenesis {w : OracleWorld Unit} {epochId : ℕ}
    (h : Awaits w epochId) : (reportAt epochId).NotBeforeGenesis w := by
  have hgenesis : w.oracle._getBeaconSpec.genesisTime = 1 := by rw [h.spec, longFrames]
  rw [reportAt, OracleEvent.NotBeforeGenesis, hgenesis]
  exact UInt64.le_refl 1

theorem Awaits.report {w : OracleWorld Unit} {epochId : ℕ} (h : Awaits w epochId) :
    ∃ w', (OracleWorld.machine acceptAll).step w (reportAt epochId) = .ok w' ∧
      Awaits w' ((epochId + 2 ^ 63) % wordLimit) ∧ w'.oracle.lastCompletedEpochId = epochId := by
  have hE : Reportable w.oracle epochId 1 :=
    ⟨h.expected.le, fun hlt ↦ absurd h.expected hlt.ne⟩
  have hballots : w.oracle.ballotsOf epochId [] = [] := ite_self _
  have heq := OracleWorld.reportBeacon_eq (S := acceptAll) (c := (0, 0)) h.committee h.represents
    hE h.member (by rw [hballots]; exact List.not_mem_nil)
  rw [if_pos (by rw [h.quorum]; exact Nat.le_add_left _ _)] at heq
  obtain ⟨w', hpush⟩ := exists_of_isOk (_push_acceptAll
    { w with oracle := marked w.oracle epochId 0 } epochId (denominationOffset * 0) 0
    w.oracle._getBeaconSpec)
  refine ⟨w', heq.trans hpush, ?_⟩
  obtain ⟨pre, post, elapsed, _, horacle, _⟩ := (OracleWorld._push_ok hpush).oracle
  have hopened : opened w.oracle epochId = w.oracle := if_neg h.expected.not_lt
  have hframe : longFrames.epochsPerFrame.toNat = 2 ^ 63 := by decide +kernel
  rw [marked, hopened, h.spec, hframe] at horacle
  refine ⟨⟨?_, ?_, ?_, .nil ?_ ?_, ?_, ?_⟩, ?_⟩
  · rw [horacle]
    exact ⟨h.committee.nodup, h.committee.nonzero, h.committee.length_le, h.committee.quorum_pos⟩
  · rw [horacle]
    exact h.member
  · rw [horacle]
    exact h.quorum
  · rw [horacle]
  · rw [horacle]
  · rw [horacle]
  · rw [horacle]
    exact h.spec
  · rw [horacle]

theorem awaits_every_frame : ∃ w₀, (OracleWorld.machine acceptAll).initial w₀ ∧
    ∀ k : ℕ, (k + 1) * 2 ^ 63 < wordLimit → ∃ w,
      Runs (OracleWorld.machine acceptAll) OracleEvent.NotBeforeGenesis w₀ w ∧
      Awaits w ((k + 1) * 2 ^ 63) := by
  have hok : (LidoOracle.blank.initializeOracle longFrames 0 0).isOk = true := by decide +kernel
  obtain ⟨o, ho⟩ := exists_of_isOk hok
  refine ⟨⟨o, (), []⟩, ⟨⟨_, _, _, ho⟩, rfl⟩, fun k hk ↦ ?_⟩
  induction k with
  | zero =>
    have hrun : reachesBy (OracleWorld.machine acceptAll) OracleEvent.NotBeforeGenesis
        (fun w ↦ decide (w.oracle.members = [11] ∧ w.oracle.quorum = 1 ∧
          w.oracle.reportsBitmask = 0 ∧ w.oracle.currentReportVariants = [] ∧
          w.oracle.expectedEpochId = 2 ^ 63 ∧ w.oracle._getBeaconSpec = longFrames))
        ⟨(LidoOracle.blank.initializeOracle longFrames 0 0).toOption.getD LidoOracle.blank, (), []⟩
        [.call { sender := 1, blockNumber := 10, canPerform := fun _ _ ↦ true, timestamp := 1 }
          (.addOracleMember 11)] = true := by
      decide +kernel
    rw [ho] at hrun
    obtain ⟨w, hw, hq⟩ := Runs.of_reachesBy hrun
    obtain ⟨hmembers, hquorum, hmask, hvariants, hexpected, hspec⟩ := of_decide_eq_true hq
    refine ⟨w, hw, ⟨?_, ?_, ?_, ?_⟩, ?_, hquorum, .nil hmask hvariants, ?_, hspec⟩
    · rw [hmembers]
      exact List.nodup_singleton _
    · rw [hmembers]
      decide
    · rw [hmembers]
      decide
    · rw [hquorum]
      exact Nat.one_pos
    · rw [hmembers]
      rfl
    · rw [hexpected, Nat.zero_add, Nat.one_mul]
  | succ k ih =>
    have hle : (k + 1) * 2 ^ 63 ≤ (k + 1 + 1) * 2 ^ 63 := Nat.mul_le_mul_right _ (Nat.le_succ _)
    obtain ⟨w, hw, hawaits⟩ := ih (hle.trans_lt hk)
    obtain ⟨w', hstep, hawaits', _⟩ := hawaits.report
    have heq : (k + 1) * 2 ^ 63 + 2 ^ 63 = (k + 1 + 1) * 2 ^ 63 := (Nat.succ_mul _ _).symm
    rw [heq, Nat.mod_eq_of_lt hk] at hawaits'
    exact ⟨w', hw.step hawaits.reportAt_notBeforeGenesis hstep, hawaits'⟩

/-- After a number of pushes that does not fit 192 bits the expected epoch starts anew. -/
theorem expected_epoch_wraps : ∃ w₀ w w' e, (OracleWorld.machine acceptAll).initial w₀ ∧
    Runs (OracleWorld.machine acceptAll) OracleEvent.NotBeforeGenesis w₀ w ∧
    OracleEvent.NotBeforeGenesis w e ∧ (OracleWorld.machine acceptAll).step w e = .ok w' ∧
    w'.oracle.expectedEpochId < w.oracle.expectedEpochId ∧
    w'.oracle.expectedEpochId < w'.oracle.lastCompletedEpochId := by
  have hword : (2 ^ 193 - 1) * 2 ^ 63 + 2 ^ 63 = wordLimit := by decide +kernel
  obtain ⟨w₀, h₀, hall⟩ := awaits_every_frame
  obtain ⟨w, hw, hawaits⟩ := hall (2 ^ 193 - 2) (by omega)
  obtain ⟨w', hstep, hawaits', hlast⟩ := hawaits.report
  have heq : (2 ^ 193 - 2 + 1) * 2 ^ 63 + 2 ^ 63 = wordLimit := by omega
  rw [heq, Nat.mod_self] at hawaits'
  refine ⟨w₀, w, w', _, h₀, hw, hawaits.reportAt_notBeforeGenesis, hstep, ?_, ?_⟩
  · rw [hawaits'.expected, hawaits.expected]
    omega
  · rw [hawaits'.expected, hlast]
    omega

end Sample

end LidoDao
