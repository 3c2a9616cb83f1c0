import LidoDao.LidoOracle

namespace LidoDao

open Evm Library.Outcome LidoOracle

variable {X : Type} {S : OracleSurroundings X} {w v u : OracleWorld X}

def OracleSurroundings.silent (S : OracleSurroundings X) : OracleSurroundings X :=
  { S with processLidoOracleReport := fun _ x _ _ _ ↦ .ok x }

namespace OracleWorld

/-- A call pushes a report, with other votes counted before, or leaves what surrounds the oracle. -/
inductive Ends (S : OracleSurroundings X) (w u : OracleWorld X) : Prop
  | idle (hpushes : u.pushes = w.pushes) (houtside : u.outside = w.outside)
  | pushed {epochId balance validators expectedEpochId quorum : ℕ} {reportsBitmask : BitVec 256}
      {currentReportVariants : List ℕ}
      (h : ({ w with oracle := { w.oracle with
          expectedEpochId, quorum, reportsBitmask, currentReportVariants } } : OracleWorld X)._push S
        epochId balance validators w.oracle._getBeaconSpec = .ok u)

theorem reportBeacon_ends {a : Address} {time : UInt64} {epochId : ℕ} {balance : UInt64}
    {validators : UInt32} (h : w.reportBeacon S a time epochId balance validators = .ok u) :
    Ends S w u := by
  by_cases hlt : w.oracle.expectedEpochId < epochId
  case' pos =>
    simp only [reportBeacon, if_pos hlt, bind_eq_ok, require_eq_ok, exists_const, pure_eq,
      Except.ok.injEq] at h
    obtain ⟨_, _, _, _, _, _, _, rfl, _, _, h⟩ := h
  case' neg =>
    simp only [reportBeacon, if_neg hlt, bind_eq_ok, require_eq_ok, exists_const, pure_eq,
      Except.ok.injEq] at h
    obtain ⟨_, _, rfl, _, _, h⟩ := h
  all_goals
    split at h
    · split at h
      · exact .pushed h
      · cases h
        exact .idle rfl rfl
    · split at h
      · exact .pushed h
      · cases h
        exact .idle rfl rfl

theorem setQuorum_ends {quorum : ℕ} (h : w.setQuorum S quorum = .ok u) : Ends S w u := by
  simp only [setQuorum, bind_eq_ok, require_eq_ok, exists_const] at h
  obtain ⟨_, h⟩ := h
  split at h
  · obtain ⟨⟨isQuorum, report⟩, _, h⟩ := bind_eq_ok.mp h
    dsimp only at h
    split at h
    · exact .pushed h
    · cases h
      exact .idle rfl rfl
  · cases h
    exact .idle rfl rfl

theorem handle_ends {c : OracleCall} {m : OracleMessage} (h : w.handle S c m = .ok u) :
    Ends S w u := by
  have hother {f : LidoOracle → Except Revert LidoOracle} (h : w.onOracle f = .ok u) :
      Ends S w u := by
    obtain ⟨_, _, h⟩ := bind_eq_ok.mp h
    cases h
    exact .idle rfl rfl
  cases m with
  | reportBeacon epochId balance validators => exact reportBeacon_ends h
  | setQuorum quorum =>
    obtain ⟨_, _, h⟩ := bind_eq_ok.mp h
    exact setQuorum_ends h
  | finalizeUpgrade_v3 => exact hother h
  | setBeaconReportReceiver addr =>
    obtain ⟨_, _, h⟩ := bind_eq_ok.mp h
    obtain ⟨_, _, h⟩ := bind_eq_ok.mp h
    exact hother h
  | setAllowedBeaconBalanceAnnualRelativeIncrease | setAllowedBeaconBalanceRelativeDecrease
  | setBeaconSpec | addOracleMember | removeOracleMember =>
    obtain ⟨_, _, h⟩ := bind_eq_ok.mp h
    exact hother h

theorem _push_silent_ok {epochId balance validators : ℕ} {spec : BeaconSpec}
    (h : v._push S.silent epochId balance validators spec = .ok u) :
    ∃ p, u.pushes = v.pushes ++ [p] ∧
      S.handleOracleReport v.outside p.beaconValidators p.beaconBalanceEth1 = .ok u.outside := by
  simp only [_push, bind_eq_ok, pure_eq] at h
  obtain ⟨_, _, outside, houtside, _, _, _, _, _, _, h⟩ := h
  split at h
  · obtain ⟨_, hsame, h⟩ := bind_eq_ok.mp h
    cases hsame
    cases h
    exact ⟨_, rfl, houtside⟩
  · cases h
    exact ⟨_, rfl, houtside⟩

/-- The receiver is told of a report that was completed. -/
def notify (S : OracleSurroundings X) (w u : OracleWorld X) : Except Revert (OracleWorld X) :=
  if u.pushes = w.pushes ∨ u.oracle.beaconReportReceiver = 0 then .ok u
  else do
    let outside ← S.processLidoOracleReport u.oracle.beaconReportReceiver u.outside
      u.oracle.postCompletedTotalPooledEther u.oracle.preCompletedTotalPooledEther
      u.oracle.timeElapsed
    .ok { u with outside }

theorem notify_of_idle (h : u.pushes = w.pushes) : w.notify S u = .ok u := if_pos (.inl h)

theorem _push_notify {epochId balance validators : ℕ} {spec : BeaconSpec}
    (h : v.pushes = w.pushes) : v._push S epochId balance validators spec =
      v._push S.silent epochId balance validators spec >>= w.notify S := by
  simp only [_push, bind_assoc]
  refine bind_congr fun pre ↦ bind_congr fun outside ↦ bind_congr fun post ↦
    bind_congr fun _ ↦ bind_congr fun _ ↦ ?_
  split
  · rename_i hreceiver
    simp only [OracleSurroundings.silent, pure_eq, ok_bind]
    rw [notify, if_neg]
    intro h'
    rcases h' with hsame | hnone
    · rw [← h] at hsame
      exact absurd (List.append_right_eq_self.mp hsame) (List.cons_ne_nil _ _)
    · exact hreceiver hnone
  · rename_i hnone
    exact (if_pos (.inr (not_not.mp hnone))).symm

theorem reportBeacon_notify {a : Address} {time : UInt64} {epochId : ℕ} {balance : UInt64}
    {validators : UInt32} : w.reportBeacon S a time epochId balance validators =
      w.reportBeacon S.silent a time epochId balance validators >>= w.notify S := by
  simp only [reportBeacon, bind_assoc]
  refine bind_congr fun _ ↦ ?_
  split
  case' isTrue =>
    simp only [bind_assoc]
    refine bind_congr fun _ ↦ bind_congr fun _ ↦ bind_congr fun _ ↦ ?_
  case' isFalse => simp only [bind_assoc]
  all_goals
    refine bind_congr fun o ↦ bind_congr fun _ ↦ bind_congr fun _ ↦ ?_
    split
    · split
      · exact _push_notify rfl
      · exact (notify_of_idle rfl).symm
    · split
      · exact _push_notify rfl
      · exact (notify_of_idle rfl).symm

theorem setQuorum_notify {quorum : ℕ} :
    w.setQuorum S quorum = w.setQuorum S.silent quorum >>= w.notify S := by
  simp only [setQuorum, bind_assoc]
  refine bind_congr fun _ ↦ ?_
  split
  · simp only [bind_assoc]
    refine bind_congr fun found ↦ ?_
    split
    · exact _push_notify rfl
    · exact (notify_of_idle rfl).symm
  · exact (notify_of_idle rfl).symm

theorem onOracle_notify {f : LidoOracle → Except Revert LidoOracle} :
    w.onOracle f = w.onOracle f >>= w.notify S := by
  simp only [onOracle, bind_assoc]
  exact bind_congr fun o ↦ (notify_of_idle rfl).symm

theorem handle_notify (c : OracleCall) (m : OracleMessage) :
    w.handle S c m = w.handle S.silent c m >>= w.notify S := by
  cases m with
  | reportBeacon epochId balance validators => exact reportBeacon_notify
  | setQuorum quorum =>
    simp only [handle, bind_assoc]
    exact bind_congr fun _ ↦ setQuorum_notify
  | finalizeUpgrade_v3 => exact onOracle_notify
  | setBeaconReportReceiver addr =>
    simp only [handle, bind_assoc]
    exact bind_congr fun _ ↦ bind_congr fun _ ↦ onOracle_notify
  | setAllowedBeaconBalanceAnnualRelativeIncrease | setAllowedBeaconBalanceRelativeDecrease
  | setBeaconSpec | addOracleMember | removeOracleMember =>
    simp only [handle, bind_assoc]
    exact bind_congr fun _ ↦ onOracle_notify

end OracleWorld

end LidoDao
