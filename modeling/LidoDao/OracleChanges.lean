import LidoDao.OracleSteps
import LidoDao.Library.Positions

namespace LidoDao

open Evm Library.Outcome Library.Ballots Library.Positions Library.Transition ReportUtils

/-- An accepted call of `reportBeacon`. -/
structure MemberReport where
  member : Address
  epochId : ℕ
  variant : Variant
  deriving DecidableEq

def MemberReport.ballot (r : MemberReport) : Address × Variant := (r.member, r.variant)

variable {X : Type} {S : OracleSurroundings X} {w w' : OracleWorld X} {e : OracleEvent X}

/-- The reports since the progress was last cleared, with the one that an event
brings, but before a push clears them. -/
def OracleEvent.collect (w : OracleWorld X) (reports : List MemberReport) :
    OracleEvent X → List MemberReport
  | .call c (.reportBeacon epochId beaconBalance beaconValidators) =>
    (if w.oracle.expectedEpochId < epochId then [] else reports) ++
      [⟨c.sender, epochId, (beaconBalance, beaconValidators)⟩]
  | .call _ (.removeOracleMember _) => []
  | _ => reports

/-- A push clears the progress. -/
def OracleWorld.observe (w : OracleWorld X) (e : OracleEvent X) (w' : OracleWorld X)
    (reports : List MemberReport) : List MemberReport :=
  if w'.pushes.length = w.pushes.length then e.collect w reports else []

/-- The oracle with the reports since its progress was last cleared. -/
def oracleSystem (S : OracleSurroundings X) :
    Machine (OracleWorld X × List MemberReport) (OracleEvent X) Revert :=
  (OracleWorld.machine S).observed [] OracleWorld.observe

namespace LidoOracle

variable {o o' : LidoOracle}

theorem fields_of_word (a b c d : BitVec 64) (word : BitVec 256)
    (h : word = a.setWidth 256 <<< 192 ||| b.setWidth 256 <<< 128 ||| c.setWidth 256 <<< 64 |||
      d.setWidth 256) :
    (word >>> 192).setWidth 64 = a ∧ (word >>> 128).setWidth 64 = b ∧
      (word >>> 64).setWidth 64 = c ∧ word.setWidth 64 = d := by
  have hout (x : BitVec 64) {i : ℕ} (hi : 64 ≤ i) : x.getLsbD i = false := BitVec.getLsbD_of_ge x i hi
  rw [h]
  refine ⟨?_, ?_, ?_, ?_⟩
  all_goals refine BitVec.eq_of_getLsbD_eq fun i hi ↦ ?_
  · have hlt : 192 + i < 256 := by omega
    have hb := hout b (i := 192 + i - 128) (by omega)
    have hc := hout c (i := 192 + i - 64) (by omega)
    have hd := hout d (i := 192 + i) (by omega)
    simp [hb, hc, hd, hi, hlt]
  · have hlt : 128 + i < 256 := by omega
    have hbelow : 128 + i < 192 := by omega
    have hc := hout c (i := 128 + i - 64) (by omega)
    have hd := hout d (i := 128 + i) (by omega)
    simp [hc, hd, hi, hlt, hbelow]
  · have hlt : 64 + i < 256 := by omega
    have hbelow : 64 + i < 128 := by omega
    have hbelow' : 64 + i < 192 := by omega
    simp [hi, hlt, hbelow, hbelow']
  · simp [hi]

theorem _setBeaconSpec_ok {spec : BeaconSpec} (h : o._setBeaconSpec spec = .ok o') :
    0 < spec.epochsPerFrame ∧ o'._getBeaconSpec = spec ∧
      o' = { o with beaconSpec := o'.beaconSpec } := by
  simp only [_setBeaconSpec, bind_eq_ok, require_eq_ok, exists_const, pure_eq,
    Except.ok.injEq] at h
  obtain ⟨hframe, _, _, _, rfl⟩ := h
  obtain ⟨hepochs, hslots, hseconds, hgenesis⟩ := fields_of_word spec.epochsPerFrame.toBitVec
    spec.slotsPerEpoch.toBitVec spec.secondsPerSlot.toBitVec spec.genesisTime.toBitVec _ rfl
  refine ⟨hframe, ?_, rfl⟩
  simp only [_getBeaconSpec, hepochs, hslots, hseconds, hgenesis]

theorem addOracleMember_ok {a : Address} (h : o.addOracleMember a = .ok o') :
    a ≠ 0 ∧ a ∉ o.members ∧ o.members.length < 256 ∧
      o' = { o with members := o.members ++ [a] } := by
  simp only [addOracleMember, bind_eq_ok, require_eq_ok, exists_const, pure_eq,
    Except.ok.injEq] at h
  obtain ⟨hzero, hid, hlt, rfl⟩ := h
  refine ⟨hzero.symm, fun ha ↦ ?_, hlt, rfl⟩
  have hid' := _getMemberId_lt ha
  rw [← hid] at hid'
  exact Nat.lt_asymm (lt_memberNotFound le_rfl) (hid'.trans hlt)

theorem removeOracleMember_ok {a : Address} (hc : Committee o)
    (h : o.removeOracleMember a = .ok o') :
    ∃ i : ℕ, o.members[i]? = some a ∧ o' = { o with
      members := swapRemove o.members i, reportsBitmask := 0, currentReportVariants := [] } := by
  simp only [removeOracleMember, bind_eq_ok, require_eq_ok, exists_const, pure_eq] at h
  obtain ⟨hid, h⟩ := h
  have ha : a ∈ o.members := by
    by_contra ha
    exact hid (_getMemberId_of_notMem ha)
  obtain ⟨i, hi⟩ : ∃ i : ℕ, o.members[i]? = some a := List.mem_iff_getElem?.mp ha
  obtain ⟨hlt, _⟩ := List.getElem?_eq_some_iff.mp hi
  have hlast : o.members[o.members.length - 1]? = o.members.getLast? := List.getLast?_eq_getElem?.symm
  refine ⟨i, hi, ?_⟩
  rw [_getMemberId_eq hc hi] at h
  split at h
  · cases hm : o.members.getLast? with
    | none =>
      rw [List.getLast?_eq_none_iff.mp hm] at hlt
      exact absurd hlt (Nat.not_lt_zero i)
    | some m =>
      rw [hlast, hm] at h
      cases h
      rw [swapRemove, hm]
  · rename_i hne
    rw [not_not] at hne
    cases h
    rw [hne, swapRemove_last]

end LidoOracle

namespace OracleWorld

open LidoOracle

/-- What an accepted event does when the collected reports are these. -/
inductive Change (w : OracleWorld X) (reports : List MemberReport) :
    OracleEvent X → OracleWorld X → Prop
  | other {e : OracleEvent X} {contractVersion allowedIncrease allowedDecrease : ℕ}
      {receiver : Address} {outside : X} (he : e.collect w reports = reports)
      (hspec : ∀ c spec, e ≠ .call c (.setBeaconSpec spec)) :
      Change w reports e { w with
        outside
        oracle := { w.oracle with
          contractVersion
          beaconReportReceiver := receiver
          allowedBeaconBalanceAnnualRelativeIncrease := allowedIncrease
          allowedBeaconBalanceRelativeDecrease := allowedDecrease } }
  | spec {c : OracleCall} {spec : BeaconSpec} {word : BitVec 256}
      (hframe : 0 < spec.epochsPerFrame)
      (hword : ({ w.oracle with beaconSpec := word } : LidoOracle)._getBeaconSpec = spec) :
      Change w reports (.call c (.setBeaconSpec spec))
        { w with oracle := { w.oracle with beaconSpec := word } }
  | added {c : OracleCall} {a : Address} (hzero : a ≠ 0) (ha : a ∉ w.oracle.members)
      (hlt : w.oracle.members.length < 256) :
      Change w reports (.call c (.addOracleMember a))
        { w with oracle := { w.oracle with members := w.oracle.members ++ [a] } }
  | removed {c : OracleCall} {a : Address} {i : ℕ} (hi : w.oracle.members[i]? = some a) :
      Change w reports (.call c (.removeOracleMember a))
        { w with oracle := { w.oracle with
          members := swapRemove w.oracle.members i
          reportsBitmask := 0
          currentReportVariants := [] } }
  | quorum {c : OracleCall} {q : ℕ} (hq : 0 < q)
      (hlead : q < w.oracle.quorum →
        ∀ x, Leads (tally (reports.map MemberReport.variant)) x → x.2 < q) :
      Change w reports (.call c (.setQuorum q)) { w with oracle := { w.oracle with quorum := q } }
  | quorumPushed {c : OracleCall} {q : ℕ} {x : Variant × ℕ} {w' : OracleWorld X} (hq : 0 < q)
      (hlead : Leads (tally (reports.map MemberReport.variant)) x) (hle : q ≤ x.2)
      (hpush : Pushed { w with oracle := { w.oracle with quorum := q } } w.oracle.expectedEpochId
        (denominationOffset * x.1.1.toNat) x.1.2.toNat w.oracle._getBeaconSpec w') :
      Change w reports (.call c (.setQuorum q)) w'
  | reported {c : OracleCall} {epochId i : ℕ} {v : Variant}
      (hE : Reportable w.oracle epochId c.timestamp) (hi : w.oracle.members[i]? = some c.sender)
      (ha : c.sender ∉ (w.oracle.ballotsOf epochId (reports.map MemberReport.ballot)).map Prod.fst)
      (hlt : support v ((w.oracle.ballotsOf epochId (reports.map MemberReport.ballot)).map
        Prod.snd) + 1 < w.oracle.quorum) :
      Change w reports (.call c (.reportBeacon epochId v.1 v.2))
        { w with oracle := { marked w.oracle epochId i with
          currentReportVariants := (tally ((w.oracle.ballotsOf epochId
            (reports.map MemberReport.ballot) ++ [(c.sender, v)]).map Prod.snd)).map pack } }
  | reportPushed {c : OracleCall} {epochId i : ℕ} {v : Variant} {w' : OracleWorld X}
      (hE : Reportable w.oracle epochId c.timestamp) (hi : w.oracle.members[i]? = some c.sender)
      (ha : c.sender ∉ (w.oracle.ballotsOf epochId (reports.map MemberReport.ballot)).map Prod.fst)
      (hle : w.oracle.quorum ≤ support v ((w.oracle.ballotsOf epochId
        (reports.map MemberReport.ballot)).map Prod.snd) + 1)
      (hpush : Pushed { w with oracle := marked w.oracle epochId i } epochId
        (denominationOffset * v.1.toNat) v.2.toNat w.oracle._getBeaconSpec w') :
      Change w reports (.call c (.reportBeacon epochId v.1 v.2)) w'

theorem setQuorum_ok {c : OracleCall} {q : ℕ} {reports : List MemberReport}
    (hc : Committee w.oracle) (h : Represents w.oracle (reports.map MemberReport.ballot))
    (hr : w.setQuorum S q = .ok w') : Change w reports (.call c (.setQuorum q)) w' := by
  have hchoices : (reports.map MemberReport.ballot).map Prod.snd =
      reports.map MemberReport.variant := by
    rw [List.map_map]
    rfl
  have hcountable := h.countable hc
  have hvariants := h.variants
  rw [hchoices] at hcountable hvariants
  simp only [setQuorum, bind_eq_ok, require_eq_ok, exists_const] at hr
  obtain ⟨hq, hr⟩ := hr
  have hq' : 0 < q := Nat.pos_of_ne_zero hq.symm
  split at hr
  · obtain ⟨⟨isQuorum, report⟩, hreport, hr⟩ := bind_eq_ok.mp hr
    rcases _getQuorumReport_ok (o := { w.oracle with quorum := q }) hcountable
      ((nodup_tally _).of_map _) hvariants q with ⟨x, hlead, hle, hok⟩ | ⟨report', hok, hlead⟩
    · cases hreport.symm.trans hok
      have hdecode : decode (pack x) = x.1 := decode_pack (hcountable.lt hlead.1)
      rw [if_pos rfl, hdecode] at hr
      exact .quorumPushed hq' hlead hle (_push_ok hr)
    · cases hreport.symm.trans hok
      cases hr
      exact .quorum hq' fun _ ↦ hlead
  · rename_i hge
    cases hr
    exact .quorum hq' fun hlt ↦ absurd hlt hge

theorem step_change {reports : List MemberReport} (hc : Committee w.oracle)
    (h : Represents w.oracle (reports.map MemberReport.ballot)) (hstep : w.step S e = .ok w') :
    Change w reports e w' := by
  have hon {f : LidoOracle → Except Revert LidoOracle} (h : w.onOracle f = .ok w') :
      ∃ o, f w.oracle = .ok o ∧ w' = { w with oracle := o } := by
    simp only [onOracle, bind_eq_ok, pure_eq, Except.ok.injEq] at h
    obtain ⟨o, ho, rfl⟩ := h
    exact ⟨o, ho, rfl⟩
  cases e with
  | outside x =>
    cases hstep
    exact .other rfl nofun
  | call c m =>
    cases m with
    | setAllowedBeaconBalanceAnnualRelativeIncrease value
    | setAllowedBeaconBalanceRelativeDecrease value =>
      obtain ⟨_, _, hstep⟩ := bind_eq_ok.mp hstep
      cases hstep
      exact .other rfl nofun
    | setBeaconReportReceiver addr =>
      obtain ⟨_, _, hstep⟩ := bind_eq_ok.mp hstep
      obtain ⟨_, _, hstep⟩ := bind_eq_ok.mp hstep
      cases hstep
      exact .other rfl nofun
    | setBeaconSpec spec =>
      obtain ⟨_, _, hstep⟩ := bind_eq_ok.mp hstep
      obtain ⟨o, ho, rfl⟩ := hon hstep
      obtain ⟨hframe, hspec, heq⟩ := _setBeaconSpec_ok ho
      rw [heq] at hspec ⊢
      exact .spec hframe hspec
    | finalizeUpgrade_v3 =>
      obtain ⟨o, ho, rfl⟩ := hon hstep
      simp only [LidoOracle.finalizeUpgrade_v3, bind_eq_ok, require_eq_ok, exists_const, pure_eq,
        Except.ok.injEq] at ho
      obtain ⟨_, rfl⟩ := ho
      exact .other rfl nofun
    | addOracleMember member =>
      obtain ⟨_, _, hstep⟩ := bind_eq_ok.mp hstep
      obtain ⟨o, ho, rfl⟩ := hon hstep
      obtain ⟨hzero, ha, hlt, rfl⟩ := addOracleMember_ok ho
      exact .added hzero ha hlt
    | removeOracleMember member =>
      obtain ⟨_, _, hstep⟩ := bind_eq_ok.mp hstep
      obtain ⟨o, ho, rfl⟩ := hon hstep
      obtain ⟨i, hi, rfl⟩ := removeOracleMember_ok hc ho
      exact .removed hi
    | setQuorum quorum =>
      obtain ⟨_, _, hstep⟩ := bind_eq_ok.mp hstep
      exact setQuorum_ok hc h hstep
    | reportBeacon epochId beaconBalance beaconValidators =>
      have hr : w.reportBeacon S c.sender c.timestamp epochId
        (beaconBalance, beaconValidators).1 (beaconBalance, beaconValidators).2 = .ok w' := hstep
      obtain ⟨hE, i, hi, ha⟩ := reportBeacon_accepted hc h hr
      rw [reportBeacon_eq hc h hE hi ha] at hr
      split at hr
      · rename_i hle
        exact .reportPushed (v := (beaconBalance, beaconValidators)) hE hi ha hle (_push_ok hr)
      · rename_i hlt
        cases hr
        exact .reported (v := (beaconBalance, beaconValidators)) hE hi ha (Nat.lt_of_not_le hlt)

end OracleWorld

end LidoDao
