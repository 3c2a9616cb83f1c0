import LidoDao.OracleEpochs
import LidoDao.OracleSafety

namespace LidoDao

open Evm Library.Outcome Library.Ballots Library.Transition ReportUtils LidoOracle

variable {X : Type} {S : OracleSurroundings X} {w w' : OracleWorld X} {e : OracleEvent X}

/-- The epoch that a call can complete: the one it reports, or the expected one. -/
def OracleMessage.Completes (o : LidoOracle) (epochId : ℕ) : OracleMessage → Prop
  | .reportBeacon reported _ _ => reported = epochId
  | .setQuorum _ => o.expectedEpochId = epochId
  | _ => False

/-- A call that gives the expected epoch its quorum: a report of this epoch which is the
last one missing, or a lower quorum which the most frequent report meets. -/
def OracleMessage.Decides (o : LidoOracle) : OracleMessage → Prop
  | .reportBeacon epochId beaconBalance beaconValidators =>
    epochId = o.expectedEpochId ∧
      match o.currentReportVariants[OracleWorld.matchingVariant o.currentReportVariants
        (encode beaconBalance beaconValidators)]? with
      | some variant => o.quorum ≤ (getCount variant + 1).toNat
      | none => o.quorum = 1
  | .setQuorum quorum =>
    quorum < o.quorum ∧ ∃ report, o._getQuorumReport quorum = .ok (true, report)
  | _ => False

namespace OracleWorld

/-- What an accepted event does to the epochs. -/
inductive Progress (w : OracleWorld X) : OracleEvent X → OracleWorld X → Prop
  | idle {e : OracleEvent X} {w' : OracleWorld X}
      (hexpected : w'.oracle.expectedEpochId = w.oracle.expectedEpochId)
      (hlast : w'.oracle.lastCompletedEpochId = w.oracle.lastCompletedEpochId)
      (hpushes : w'.pushes = w.pushes)
      (hspec : w'.oracle._getBeaconSpec = w.oracle._getBeaconSpec) : Progress w e w'
  | spec {c : OracleCall} {spec : BeaconSpec} {w' : OracleWorld X}
      (hexpected : w'.oracle.expectedEpochId = w.oracle.expectedEpochId)
      (hlast : w'.oracle.lastCompletedEpochId = w.oracle.lastCompletedEpochId)
      (hpushes : w'.pushes = w.pushes) (hframe : 0 < spec.epochsPerFrame)
      (hspec : w'.oracle._getBeaconSpec = spec) : Progress w (.call c (.setBeaconSpec spec)) w'
  | collected {c : OracleCall} {epochId : ℕ} {v : Variant} {w' : OracleWorld X}
      (hE : Reportable w.oracle epochId c.timestamp)
      (hexpected : w'.oracle.expectedEpochId = epochId)
      (hlast : w'.oracle.lastCompletedEpochId = w.oracle.lastCompletedEpochId)
      (hpushes : w'.pushes = w.pushes)
      (hspec : w'.oracle._getBeaconSpec = w.oracle._getBeaconSpec) :
      Progress w (.call c (.reportBeacon epochId v.1 v.2)) w'
  | pushed {c : OracleCall} {m : OracleMessage} {p : Push} {w' : OracleWorld X}
      (hE : Reportable w.oracle p.epochId c.timestamp) (hm : m.Completes w.oracle p.epochId)
      (hexpected : w'.oracle.expectedEpochId =
        (p.epochId + w.oracle._getBeaconSpec.epochsPerFrame.toNat) % wordLimit)
      (hlast : w'.oracle.lastCompletedEpochId = p.epochId)
      (hpushes : w'.pushes = w.pushes ++ [p])
      (hspec : w'.oracle._getBeaconSpec = w.oracle._getBeaconSpec)
      (helapsed : p.timeElapsed =
        (p.epochId + wordLimit - w.oracle.lastCompletedEpochId) % wordLimit *
          w.oracle._getBeaconSpec.slotsPerEpoch.toNat *
          w.oracle._getBeaconSpec.secondsPerSlot.toNat % wordLimit) :
      Progress w (.call c m) w'

theorem Pushed.progress {v : OracleWorld X} {c : OracleCall} {m : OracleMessage}
    {epochId balance validators : ℕ}
    (h : Pushed v epochId balance validators w.oracle._getBeaconSpec w')
    (hE : Reportable w.oracle epochId c.timestamp) (hm : m.Completes w.oracle epochId)
    (hlast : v.oracle.lastCompletedEpochId = w.oracle.lastCompletedEpochId)
    (hspec : v.oracle.beaconSpec = w.oracle.beaconSpec) (hpushes : v.pushes = w.pushes) :
    Progress w (.call c m) w' := by
  obtain ⟨pre, post, elapsed, helapsed, horacle, hp⟩ := h.oracle
  rw [hpushes] at hp
  rw [hlast] at helapsed
  refine .pushed (p := ⟨epochId, balance, validators, elapsed⟩) hE hm ?_ ?_ hp ?_ helapsed
  · rw [horacle]
  · rw [horacle]
  · rw [horacle, _getBeaconSpec, hspec]
    rfl

theorem Change.progress {reports : List MemberReport} (h : Change w reports e w') :
    Progress w e w' := by
  cases h with
  | other | added | quorum | removed => exact .idle rfl rfl rfl rfl
  | spec hframe hword => exact .spec rfl rfl rfl hframe hword
  | @quorumPushed c q x w' hq hlead hle hpush =>
    exact hpush.progress ⟨le_rfl, fun hlt ↦ absurd hlt (lt_irrefl _)⟩ rfl rfl rfl rfl
  | @reported c epochId i v hE hi ha hlt =>
    refine .collected hE (opened_expectedEpochId hE) ?_ rfl ?_
    · rw [marked, opened]
      split <;> rfl
    · rw [marked, opened]
      split <;> rfl
  | @reportPushed c epochId i v w' hE hi ha hle hpush =>
    refine hpush.progress hE rfl ?_ ?_ rfl
    · rw [marked, opened]
      split <;> rfl
    · rw [marked, opened]
      split <;> rfl

theorem progress (h : Reachable (machine S) w) (hstep : (machine S).step w e = .ok w') :
    Progress w e w' := by
  obtain ⟨reports, hreports⟩ : ∃ reports, Reachable (oracleSystem S) (w, reports) :=
    h.exists_history
  have hsane := oracleSane hreports
  exact (step_change hsane.committee hsane.represents hstep).progress

section Decides

variable {c : OracleCall}

theorem reportBeacon_decides {balance : UInt64} {validators : UInt32}
    (h : (machine S).step w (.call c (.reportBeacon w.oracle.expectedEpochId balance validators)) =
      .ok w') (hpushes : w'.pushes ≠ w.pushes) :
    (OracleMessage.reportBeacon w.oracle.expectedEpochId balance validators).Decides w.oracle := by
  have h : w.reportBeacon S c.sender c.timestamp w.oracle.expectedEpochId balance validators =
    .ok w' := h
  simp only [reportBeacon, if_neg (lt_irrefl _), bind_eq_ok, require_eq_ok, exists_const, pure_eq,
    Except.ok.injEq] at h
  obtain ⟨_, _, rfl, _, _, h⟩ := h
  refine ⟨rfl, ?_⟩
  by_contra hdecides
  cases hvariant : w.oracle.currentReportVariants[matchingVariant w.oracle.currentReportVariants
    (encode balance validators)]? with
  | some variant | none =>
    rw [hvariant] at h hdecides
    dsimp only at h
    rw [if_neg hdecides] at h
    cases h
    exact hpushes rfl

theorem setQuorum_decides {quorum : ℕ}
    (h : (machine S).step w (.call c (.setQuorum quorum)) = .ok w')
    (hpushes : w'.pushes ≠ w.pushes) : (OracleMessage.setQuorum quorum).Decides w.oracle := by
  obtain ⟨_, _, h⟩ := bind_eq_ok.mp h
  simp only [setQuorum, bind_eq_ok, require_eq_ok, exists_const] at h
  obtain ⟨_, h⟩ := h
  split at h
  · rename_i hlt
    obtain ⟨⟨isQuorum, report⟩, hreport, h⟩ := bind_eq_ok.mp h
    cases isQuorum with
    | true => exact ⟨hlt, report, hreport⟩
    | false =>
      cases h
      exact absurd rfl hpushes
  · cases h
    exact absurd rfl hpushes

end Decides

end OracleWorld

theorem LidoOracle.initialized {spec : BeaconSpec} {increase decrease : ℕ} {o : LidoOracle}
    (h : blank.initializeOracle spec increase decrease = .ok o) :
    0 < spec.epochsPerFrame ∧ o._getBeaconSpec = spec ∧
      o.expectedEpochId = spec.epochsPerFrame.toNat ∧ o.lastCompletedEpochId = 0 := by
  simp only [initializeOracle, bind_eq_ok, require_eq_ok, exists_const, pure_eq,
    Except.ok.injEq] at h
  obtain ⟨_, o', ho, first, hfirst, rfl⟩ := h
  obtain ⟨hframe, hspec, heq⟩ := _setBeaconSpec_ok ho
  obtain ⟨_, hzero⟩ := _getFrameFirstEpochId_ok hfirst
  rw [Nat.zero_div, Nat.zero_mul] at hzero
  rw [heq] at hspec hfirst ⊢
  refine ⟨hframe, hspec, ?_, rfl⟩
  have hspec' : ({ blank with beaconSpec := o'.beaconSpec } : LidoOracle)._getBeaconSpec = spec :=
    hspec
  rw [hzero, Nat.zero_add]
  have hword := Nat.mod_eq_of_lt (word_lt_wordLimit spec.epochsPerFrame)
  rw [← hspec'] at hword ⊢
  exact hword

end LidoDao
