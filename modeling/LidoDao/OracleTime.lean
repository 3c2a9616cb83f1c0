import LidoDao.OracleFrames

namespace LidoDao

open Evm Library.Outcome Library.Transition LidoOracle

variable {X : Type} {S : OracleSurroundings X} {w w' w₀ : OracleWorld X} {e : OracleEvent X}
  {now now' : UInt64} {spec : BeaconSpec} {epochId : ℕ}

/-- An epoch has started, as the oracle computes it. -/
def BeaconSpec.Started (spec : BeaconSpec) (epochId : ℕ) (now : UInt64) : Prop :=
  spec.genesisTime ≤ now ∧ ∃ current, _getCurrentEpochId spec now = .ok current ∧ epochId ≤ current

namespace BeaconSpec.Started

theorem lt (h : spec.Started epochId now) : epochId < 2 ^ 64 := by
  obtain ⟨hgenesis, current, hcurrent, hepoch⟩ := h
  exact hepoch.trans_lt (current_lt hgenesis hcurrent)

theorem mul_le (h : spec.Started epochId now)
    (hseconds : spec.slotsPerEpoch.toNat * spec.secondsPerSlot.toNat < 2 ^ 64) :
    epochId * (spec.slotsPerEpoch.toNat * spec.secondsPerSlot.toNat) ≤
      now.toNat - spec.genesisTime.toNat := by
  obtain ⟨hgenesis, current, hcurrent, hepoch⟩ := h
  obtain ⟨_, rfl⟩ := _getCurrentEpochId_ok hgenesis hcurrent
  have heq : spec.secondsPerEpoch = spec.slotsPerEpoch.toNat * spec.secondsPerSlot.toNat := by
    rw [secondsPerEpoch, UInt64.toNat_mul, Nat.mod_eq_of_lt hseconds]
  rw [heq] at hepoch
  exact (Nat.mul_le_mul_right _ hepoch).trans (Nat.div_mul_le_self _ _)

end BeaconSpec.Started

theorem LidoOracle.Reportable.started {o : LidoOracle} (h : Reportable o epochId now)
    (hgenesis : o._getBeaconSpec.genesisTime ≤ now)
    (hexpected : epochId = o.expectedEpochId → o._getBeaconSpec.Started epochId now) :
    o._getBeaconSpec.Started epochId now := by
  rcases Nat.eq_or_lt_of_le h.1 with heq | hlt
  · exact hexpected heq.symm
  · obtain ⟨current, hcurrent, hfirst⟩ := h.2 hlt
    exact ⟨hgenesis, current, hcurrent, frameFirst_le hfirst⟩

section Clock

def OracleEvent.time (now : UInt64) : OracleEvent X → UInt64
  | .call c _ => c.timestamp
  | .outside _ => now

def clockedSystem (S : OracleSurroundings X) :
    Machine (OracleWorld X × UInt64) (OracleEvent X) Revert :=
  (OracleWorld.machine S).observed 0 fun _ e _ now ↦ e.time now

/-- Calls are made one after the other, from genesis on and with one specification. -/
def OracleEvent.InOrder (s : OracleWorld X × UInt64) (e : OracleEvent X) : Prop :=
  e.NotBeforeGenesis s.1 ∧ s.2 ≤ e.time s.2 ∧
    ∀ c spec, e = .call c (.setBeaconSpec spec) → spec = s.1.oracle._getBeaconSpec

/-- A call that gives the expected epoch its quorum is not made before this epoch. -/
def OracleEvent.NotAhead (s : OracleWorld X × UInt64) (e : OracleEvent X) : Prop :=
  ∀ c m, e = .call c m → m.Decides s.1.oracle →
    ∃ current, _getCurrentEpochId s.1.oracle._getBeaconSpec c.timestamp = .ok current ∧
      s.1.oracle.expectedEpochId ≤ current

/-- The epochs completed so far have started. -/
structure TimeSane (spec : BeaconSpec) (w : OracleWorld X) (now : UInt64) : Prop where
  spec_eq : w.oracle._getBeaconSpec = spec
  frame_pos : 0 < spec.epochsPerFrame.toNat
  last_lt : w.oracle.lastCompletedEpochId < w.oracle.expectedEpochId
  elapsed : spec.slotsPerEpoch.toNat * spec.secondsPerSlot.toNat < 2 ^ 64 →
    (w.pushes.map Push.timeElapsed).sum =
      w.oracle.lastCompletedEpochId * (spec.slotsPerEpoch.toNat * spec.secondsPerSlot.toNat) ∧
    (w.pushes.map Push.timeElapsed).sum ≤ now.toNat - spec.genesisTime.toNat

theorem pushes_ne {p : Push} (h : w'.pushes = w.pushes ++ [p]) : w'.pushes ≠ w.pushes := by
  intro heq
  exact absurd (List.append_right_eq_self.mp (h.symm.trans heq)) (List.cons_ne_nil _ _)

namespace TimeSane

theorem initial (h : (OracleWorld.machine S).initial w) :
    TimeSane w.oracle._getBeaconSpec w 0 := by
  obtain ⟨⟨spec, _, _, ho⟩, hpushes⟩ := h
  obtain ⟨hframe, hspec, hexpected, hlast⟩ := LidoOracle.initialized ho
  have hpos := UInt64.lt_iff_toNat_lt.mp hframe
  refine ⟨rfl, ?_, ?_, fun _ ↦ ?_⟩
  · rwa [hspec]
  · rw [hexpected, hlast]
    exact hpos
  · rw [hpushes, hlast]
    exact ⟨(Nat.zero_mul _).symm, Nat.zero_le _⟩

theorem later (h : TimeSane spec w now) (hle : now ≤ now')
    (hexpected : w'.oracle.expectedEpochId = w.oracle.expectedEpochId)
    (hlast : w'.oracle.lastCompletedEpochId = w.oracle.lastCompletedEpochId)
    (hpushes : w'.pushes = w.pushes) (hspec : w'.oracle._getBeaconSpec = spec) :
    TimeSane spec w' now' := by
  refine ⟨hspec, h.frame_pos, ?_, ?_⟩
  · rw [hexpected, hlast]
    exact h.last_lt
  · intro hseconds
    obtain ⟨hsum, hbound⟩ := h.elapsed hseconds
    rw [hpushes, hlast]
    exact ⟨hsum, hbound.trans (Nat.sub_le_sub_right (UInt64.le_iff_toNat_le.mp hle) _)⟩

theorem started (h : TimeSane spec w now) {c : OracleCall} {m : OracleMessage}
    (hstep : (OracleWorld.machine S).step w (.call c m) = .ok w') (hpushes : w'.pushes ≠ w.pushes)
    (hE : Reportable w.oracle epochId c.timestamp) (hm : m.Completes w.oracle epochId)
    (horder : OracleEvent.InOrder (w, now) (.call c m))
    (hahead : OracleEvent.NotAhead (w, now) (.call c m)) : spec.Started epochId c.timestamp := by
  have hgenesis := horder.1
  rw [← h.spec_eq]
  refine hE.started hgenesis fun hexpected ↦ ?_
  subst hexpected
  refine ⟨hgenesis, hahead c m rfl ?_⟩
  cases m with
  | reportBeacon reported balance validators =>
    obtain rfl : reported = w.oracle.expectedEpochId := hm
    exact OracleWorld.reportBeacon_decides hstep hpushes
  | setQuorum quorum => exact OracleWorld.setQuorum_decides hstep hpushes
  | _ => exact hm.elim

theorem step (h : TimeSane spec w now) (hreachable : Reachable (OracleWorld.machine S) w)
    (hstep : (OracleWorld.machine S).step w e = .ok w') (horder : OracleEvent.InOrder (w, now) e)
    (hahead : OracleEvent.NotAhead (w, now) e) : TimeSane spec w' (e.time now) := by
  have hle : now ≤ e.time now := horder.2.1
  have hspec_eq := h.spec_eq
  cases OracleWorld.progress hreachable hstep with
  | idle hexpected hlast hpushes hspec =>
    exact h.later hle hexpected hlast hpushes (hspec.trans hspec_eq)
  | spec hexpected hlast hpushes _ hspec =>
    have hsame := horder.2.2 _ _ rfl
    exact h.later hle hexpected hlast hpushes ((hspec.trans hsame).trans hspec_eq)
  | @collected c epochId v w' hE hexpected hlast hpushes hspec =>
    refine ⟨hspec.trans hspec_eq, h.frame_pos, ?_, ?_⟩
    · rw [hexpected, hlast]
      exact h.last_lt.trans_le hE.1
    · intro hseconds
      obtain ⟨hsum, hbound⟩ := h.elapsed hseconds
      rw [hpushes, hlast]
      exact ⟨hsum, hbound.trans (Nat.sub_le_sub_right (UInt64.le_iff_toNat_le.mp hle) _)⟩
  | @pushed c m p w' hE hm hexpected hlast hpushes hspec helapsed =>
    have hstarted := h.started hstep (pushes_ne hpushes) hE hm horder hahead
    have hepoch := hstarted.lt
    have hepochs := spec.epochsPerFrame.toNat_lt
    have hword : 2 ^ 65 < wordLimit := by decide +kernel
    have hpos := h.frame_pos
    have hlt := h.last_lt.trans_le hE.1
    rw [hspec_eq] at hexpected helapsed
    rw [Nat.mod_eq_of_lt (by omega)] at hexpected
    refine ⟨hspec.trans hspec_eq, hpos, ?_, ?_⟩
    · rw [hexpected, hlast]
      omega
    · intro hseconds
      obtain ⟨hsum, _⟩ := h.elapsed hseconds
      have hpassed := hstarted.mul_le hseconds
      have hdifference : (p.epochId + wordLimit - w.oracle.lastCompletedEpochId) % wordLimit =
          p.epochId - w.oracle.lastCompletedEpochId := by
        have heq : p.epochId + wordLimit - w.oracle.lastCompletedEpochId =
            p.epochId - w.oracle.lastCompletedEpochId + wordLimit := by omega
        rw [heq, Nat.add_mod_right, Nat.mod_eq_of_lt (by omega)]
      have hfits : (p.epochId - w.oracle.lastCompletedEpochId) *
          (spec.slotsPerEpoch.toNat * spec.secondsPerSlot.toNat) < wordLimit := by
        refine (Nat.mul_le_mul_right _ (Nat.sub_le _ _)).trans_lt (hpassed.trans_lt ?_)
        exact (Nat.sub_le _ _).trans_lt (word_lt_wordLimit _)
      rw [hdifference, Nat.mul_assoc, Nat.mod_eq_of_lt hfits] at helapsed
      have htotal : (w'.pushes.map Push.timeElapsed).sum = p.epochId *
          (spec.slotsPerEpoch.toNat * spec.secondsPerSlot.toNat) := by
        rw [hpushes, List.map_append, List.sum_append, hsum, List.map_singleton,
          List.sum_singleton, helapsed, ← Nat.add_mul, Nat.add_sub_cancel' hlt.le]
      rw [htotal, hlast]
      exact ⟨rfl, hpassed⟩

end TimeSane

theorem timeSane_runs (h₀ : (OracleWorld.machine S).initial w₀)
    (h : Runs (clockedSystem S) (fun s e ↦ OracleEvent.InOrder s e ∧ OracleEvent.NotAhead s e)
      (w₀, 0) (w, now)) :
    Reachable (OracleWorld.machine S) w ∧ TimeSane w₀.oracle._getBeaconSpec w now := by
  refine h.invariant (P := fun s ↦ Reachable (OracleWorld.machine S) s.1 ∧
    TimeSane w₀.oracle._getBeaconSpec s.1 s.2) ?_ ⟨.initial h₀, .initial h₀⟩
  intro s e t he hs hstep
  obtain ⟨hreachable, hsane⟩ := hs
  obtain ⟨hstep, htime⟩ := observed_step.mp hstep
  refine ⟨hreachable.step hstep, ?_⟩
  rw [← htime]
  exact hsane.step hreachable hstep he.1 he.2

/-- Where the expected epoch gets its quorum only once it has started, only epochs that have
started are completed, and the times elapsed add up to no more than has passed. -/
theorem completed_epochs_have_started (h₀ : (OracleWorld.machine S).initial w₀)
    (h : Runs (clockedSystem S) (fun s e ↦ OracleEvent.InOrder s e ∧ OracleEvent.NotAhead s e)
      (w₀, 0) (w, now)) :
    (∀ e w' now' p, OracleEvent.InOrder (w, now) e →
      (clockedSystem S).step (w, now) e = .ok (w', now') → w'.pushes = w.pushes ++ [p] →
      w.oracle.expectedEpochId ≤ p.epochId ∧
      ((∃ current, _getCurrentEpochId w.oracle._getBeaconSpec now' = .ok current ∧
        p.epochId ≤ current) ↔ OracleEvent.NotAhead (w, now) e)) ∧
    (w₀.oracle._getBeaconSpec.slotsPerEpoch.toNat *
        w₀.oracle._getBeaconSpec.secondsPerSlot.toNat < 2 ^ 64 →
      (w.pushes.map Push.timeElapsed).sum ≤
        now.toNat - w₀.oracle._getBeaconSpec.genesisTime.toNat) := by
  obtain ⟨hreachable, hsane⟩ := timeSane_runs h₀ h
  refine ⟨?_, fun hseconds ↦ (hsane.elapsed hseconds).2⟩
  intro e w' now' p horder hstep hp
  obtain ⟨hstep, htime⟩ := observed_step.mp hstep
  cases OracleWorld.progress hreachable hstep with
  | idle _ _ hpushes _ | spec _ _ hpushes _ _ | collected _ _ _ hpushes _ =>
    exact absurd hpushes (pushes_ne hp)
  | @pushed c m q w' hE hm _ _ hpushes _ _ =>
    obtain rfl : p = q := List.singleton_inj.mp (List.append_cancel_left (hp.symm.trans hpushes))
    have htime' : c.timestamp = now' := htime
    rw [← htime']
    refine ⟨hE.1, ?_, ?_⟩
    · intro hstarted c' m' heq _
      cases heq
      obtain ⟨current, hcurrent, hle⟩ := hstarted
      exact ⟨current, hcurrent, hE.1.trans hle⟩
    · intro hahead
      obtain ⟨_, hcurrent⟩ := hsane.started hstep (pushes_ne hp) hE hm horder hahead
      rw [hsane.spec_eq]
      exact hcurrent

end Clock

namespace Sample

def keepsSpec : OracleEvent (World NodeOperatorsRegistry) → Bool
  | .call _ (.setBeaconSpec _) => false
  | _ => true

theorem inOrder_of_keepsSpec {s : OracleWorld (World NodeOperatorsRegistry) × UInt64}
    {e : OracleEvent (World NodeOperatorsRegistry)}
    (h : e.NotBeforeGenesis s.1 ∧ s.2 ≤ e.time s.2 ∧ keepsSpec e = true) :
    OracleEvent.InOrder s e := by
  refine ⟨h.1, h.2.1, ?_⟩
  rintro c spec rfl
  cases h.2.2

/-- The first expected epoch is completed in the second of genesis. -/
theorem future_epoch_is_completed : ∃ w now, (OracleWorld.machine surroundings).initial oracleStart ∧
    Runs (clockedSystem surroundings) OracleEvent.InOrder (oracleStart, 0) (w, now) ∧
    _getCurrentEpochId w.oracle._getBeaconSpec now = .ok 0 ∧ w.pushes.map Push.epochId = [10] ∧
    now.toNat - w.oracle._getBeaconSpec.genesisTime.toNat <
      (w.pushes.map Push.timeElapsed).sum := by
  have hrun : reachesBy (clockedSystem surroundings) (fun s e ↦
      OracleEvent.NotBeforeGenesis s.1 e ∧ s.2 ≤ e.time s.2 ∧ keepsSpec e = true)
      (fun s ↦ decide (s.2 = 1000 ∧ s.1.oracle._getBeaconSpec = beaconSpec ∧
        s.1.pushes.map Push.epochId = [10] ∧ (s.1.pushes.map Push.timeElapsed).sum = 3840))
      (oracleStart, 0) [oracleCall 1 0 (.addOracleMember 11), oracleReport 11 0 10 0] = true := by
    decide +kernel
  obtain ⟨⟨w, now⟩, hw, hq⟩ := Runs.of_reachesBy hrun
  have hruns := hw.mono fun _ _ h ↦ inOrder_of_keepsSpec h
  obtain ⟨hnow, hspec, hepochs, helapsed⟩ := of_decide_eq_true hq
  have hnow' : now = 1000 := hnow
  have helapsed' : (w.pushes.map Push.timeElapsed).sum = 3840 := helapsed
  have hspec' : w.oracle._getBeaconSpec = beaconSpec := hspec
  refine ⟨w, now, oracleStart_initial, hruns, ?_, hepochs, ?_⟩
  · rw [hspec', hnow']
    decide +kernel
  · rw [hspec', hnow', helapsed']
    decide +kernel

/-- Whether a call leaves the quorum as it is and is not made before the expected epoch. -/
def inTime (s : OracleWorld (World NodeOperatorsRegistry) × UInt64) :
    OracleEvent (World NodeOperatorsRegistry) → Bool
  | .call c (.reportBeacon ..) =>
    match _getCurrentEpochId s.1.oracle._getBeaconSpec c.timestamp with
    | .ok current => s.1.oracle.expectedEpochId ≤ current
    | .error _ => false
  | .call _ (.setQuorum _) => false
  | _ => true

theorem notAhead_of_inTime {s : OracleWorld (World NodeOperatorsRegistry) × UInt64}
    {e : OracleEvent (World NodeOperatorsRegistry)} (h : inTime s e = true) :
    OracleEvent.NotAhead s e := by
  intro c m heq hm
  subst heq
  cases m with
  | reportBeacon epochId balance validators =>
    rw [inTime] at h
    cases hcurrent : _getCurrentEpochId s.1.oracle._getBeaconSpec c.timestamp with
    | error _ =>
      rw [hcurrent] at h
      cases h
    | ok current =>
      rw [hcurrent] at h
      exact ⟨current, rfl, of_decide_eq_true h⟩
  | setQuorum quorum => cases h
  | _ => exact hm.elim

/-- A frame later the same report is in time. -/
theorem started_epoch_is_completed : ∃ w now,
    Runs (clockedSystem surroundings)
      (fun s e ↦ OracleEvent.InOrder s e ∧ OracleEvent.NotAhead s e) (oracleStart, 0) (w, now) ∧
    w.pushes.length = 1 ∧ (w.pushes.map Push.timeElapsed).sum ≤
      now.toNat - oracleStart.oracle._getBeaconSpec.genesisTime.toNat := by
  have hrun : reachesBy (clockedSystem surroundings) (fun s e ↦
      (OracleEvent.NotBeforeGenesis s.1 e ∧ s.2 ≤ e.time s.2 ∧ keepsSpec e = true) ∧
        inTime s e = true)
      (fun s ↦ decide (s.1.pushes.length = 1)) (oracleStart, 0)
      [oracleCall 1 0 (.addOracleMember 11), oracleReport 11 3840 10 0] = true := by
    decide +kernel
  obtain ⟨⟨w, now⟩, hw, hq⟩ := Runs.of_reachesBy hrun
  have hruns : Runs (clockedSystem surroundings)
      (fun s e ↦ OracleEvent.InOrder s e ∧ OracleEvent.NotAhead s e) (oracleStart, 0) (w, now) :=
    hw.mono fun _ _ h ↦ ⟨inOrder_of_keepsSpec h.1, notAhead_of_inTime h.2⟩
  obtain ⟨_, hsum⟩ := completed_epochs_have_started oracleStart_initial hruns
  refine ⟨w, now, hruns, of_decide_eq_true hq, hsum ?_⟩
  decide +kernel

end Sample

end LidoDao
