import LidoDao.OracleChanges

namespace LidoDao

open Evm Library.Outcome Library.Ballots Library.Positions Library.Transition ReportUtils LidoOracle

variable {X : Type} {S : OracleSurroundings X} {w w' : OracleWorld X} {e : OracleEvent X}
  {reports : List MemberReport}

theorem OracleEvent.map_collect (o : LidoOracle) (epochId : ℕ) (r : MemberReport) :
    ((if o.expectedEpochId < epochId then [] else reports) ++ [r]).map MemberReport.ballot =
      o.ballotsOf epochId (reports.map MemberReport.ballot) ++ [r.ballot] := by
  rw [List.map_append, ballotsOf]
  split <;> rfl

/-- What holds of the oracle and the reports since its progress was last cleared. -/
structure OracleSane (w : OracleWorld X) (reports : List MemberReport) : Prop where
  committee : Committee w.oracle
  represents : Represents w.oracle (reports.map MemberReport.ballot)
  epochs : ∀ r ∈ reports, r.epochId = w.oracle.expectedEpochId
  settled : ∀ x, Leads (tally (reports.map MemberReport.variant)) x → x.2 < w.oracle.quorum

namespace OracleSane

theorem cleared (hc : Committee w.oracle) (hmask : w.oracle.reportsBitmask = 0)
    (hvariants : w.oracle.currentReportVariants = []) : OracleSane w [] :=
  ⟨hc, .nil hmask hvariants, by simp, fun x hx ↦ nomatch hx.1⟩

theorem congr (h : OracleSane w reports) (hmembers : w'.oracle.members = w.oracle.members)
    (hmask : w'.oracle.reportsBitmask = w.oracle.reportsBitmask)
    (hvariants : w'.oracle.currentReportVariants = w.oracle.currentReportVariants)
    (hexpected : w'.oracle.expectedEpochId = w.oracle.expectedEpochId)
    (hpos : 0 < w'.oracle.quorum)
    (hsettled : ∀ x, Leads (tally (reports.map MemberReport.variant)) x →
      x.2 < w'.oracle.quorum) : OracleSane w' reports := by
  refine ⟨⟨?_, ?_, ?_, hpos⟩, h.represents.congr hmembers hmask hvariants, ?_, hsettled⟩
  · rw [hmembers]
    exact h.committee.nodup
  · rw [hmembers]
    exact h.committee.nonzero
  · rw [hmembers]
    exact h.committee.length_le
  · rw [hexpected]
    exact h.epochs

theorem pushed {epochId balance validators : ℕ} {spec : BeaconSpec} (hc : Committee w.oracle)
    (hpush : OracleWorld.Pushed w epochId balance validators spec w') : OracleSane w' [] := by
  obtain ⟨pre, post, elapsed, _, horacle, _⟩ := hpush
  refine cleared ?_ (by rw [horacle]) (by rw [horacle])
  rw [horacle]
  exact ⟨hc.nodup, hc.nonzero, hc.length_le, hc.quorum_pos⟩

theorem swapRemove_committee (hc : Committee w.oracle) {i : ℕ} (hi : i < w.oracle.members.length) :
    (swapRemove w.oracle.members i).Nodup ∧ 0 ∉ swapRemove w.oracle.members i ∧
      (swapRemove w.oracle.members i).length ≤ 256 := by
  have hperm := perm_swapRemove hi
  have hnodup := hperm.nodup_iff.mp hc.nodup
  refine ⟨(List.nodup_cons.mp hnodup).2, fun hzero ↦ ?_, ?_⟩
  · exact hc.nonzero (hperm.mem_iff.mpr (List.mem_cons_of_mem _ hzero))
  · have hlength := length_swapRemove hi
    have hle := hc.length_le
    omega

section Collected

variable {epochId i : ℕ} {a : Address} {v : Variant} {time : UInt64}

theorem cast (h : OracleSane w reports) (hi : w.oracle.members[i]? = some a)
    (ha : a ∉ (w.oracle.ballotsOf epochId (reports.map MemberReport.ballot)).map Prod.fst) :
    Represents { marked w.oracle epochId i with
      currentReportVariants := (tally ((w.oracle.ballotsOf epochId
        (reports.map MemberReport.ballot) ++ [(a, v)]).map Prod.snd)).map pack }
      (((if w.oracle.expectedEpochId < epochId then [] else reports) ++
        [MemberReport.mk a epochId v]).map MemberReport.ballot) := by
  have hi' : (w.oracle.opened epochId).members[i]? = some a := by rwa [opened_members]
  rw [OracleEvent.map_collect]
  exact (represents_opened h.represents epochId).cast (committee_opened h.committee epochId) hi' ha
    v rfl

theorem collected_epochId (h : OracleSane w reports) (hE : Reportable w.oracle epochId time)
    {r : MemberReport} (hr : r ∈ (if w.oracle.expectedEpochId < epochId then [] else reports) ++
      [MemberReport.mk a epochId v]) : r.epochId = epochId := by
  rcases List.mem_append.mp hr with hr | hr
  · split at hr
    · cases hr
    · rw [h.epochs r hr]
      exact Nat.le_antisymm hE.1 (Nat.le_of_not_lt ‹_›)
  · rw [List.mem_singleton.mp hr]

theorem collected_support : support v (((if w.oracle.expectedEpochId < epochId then []
      else reports) ++ [MemberReport.mk a epochId v]).map MemberReport.variant) =
    support v ((w.oracle.ballotsOf epochId (reports.map MemberReport.ballot)).map Prod.snd) + 1 := by
  have hvariants : (w.oracle.ballotsOf epochId (reports.map MemberReport.ballot)).map Prod.snd =
      (if w.oracle.expectedEpochId < epochId then [] else reports).map MemberReport.variant := by
    rw [ballotsOf]
    split
    · rfl
    · rw [List.map_map]
      rfl
  rw [List.map_append, List.map_singleton, support_concat, if_pos rfl, hvariants]

theorem reported (h : OracleSane w reports) (hE : Reportable w.oracle epochId time)
    (hi : w.oracle.members[i]? = some a)
    (ha : a ∉ (w.oracle.ballotsOf epochId (reports.map MemberReport.ballot)).map Prod.fst)
    (hlt : support v ((w.oracle.ballotsOf epochId (reports.map MemberReport.ballot)).map
      Prod.snd) + 1 < w.oracle.quorum) :
    OracleSane { w with oracle := { marked w.oracle epochId i with
      currentReportVariants := (tally ((w.oracle.ballotsOf epochId
        (reports.map MemberReport.ballot) ++ [(a, v)]).map Prod.snd)).map pack } }
      ((if w.oracle.expectedEpochId < epochId then [] else reports) ++
        [MemberReport.mk a epochId v]) := by
  have hc := committee_opened h.committee epochId
  refine ⟨⟨hc.nodup, hc.nonzero, hc.length_le, hc.quorum_pos⟩, h.cast hi ha, ?_, ?_⟩
  · intro r hr
    have hexpected : (marked w.oracle epochId i).expectedEpochId = epochId :=
      opened_expectedEpochId hE
    exact (h.collected_epochId hE hr).trans hexpected.symm
  · intro x hx
    have hquorum : (marked w.oracle epochId i).quorum = w.oracle.quorum :=
      opened_quorum w.oracle epochId
    refine Nat.lt_of_lt_of_eq ?_ hquorum.symm
    by_cases hv : x.1 = v
    · have hcount := (mem_tally.mp hx.1).2
      rw [hv, collected_support] at hcount
      rw [← hcount]
      exact hlt
    · rw [List.map_append, List.map_singleton] at hx
      have hlead := leads_concat hx hv
      split at hlead
      · exact nomatch hlead.1
      · exact h.settled x hlead

end Collected

theorem change (h : OracleSane w reports) (hchange : OracleWorld.Change w reports e w') :
    OracleSane w' (w.observe e w' reports) := by
  have hsame (hpushes : w'.pushes = w.pushes) : w.observe e w' reports = e.collect w reports :=
    if_pos (congrArg List.length hpushes)
  have hgone {p : Push} (hpushes : w'.pushes = w.pushes ++ [p]) : w.observe e w' reports = [] := by
    apply if_neg
    rw [hpushes, List.length_append]
    simp
  cases hchange with
  | other he _ =>
    rw [hsame rfl, he]
    exact h.congr rfl rfl rfl rfl h.committee.quorum_pos h.settled
  | spec _ _ =>
    rw [hsame rfl]
    exact h.congr rfl rfl rfl rfl h.committee.quorum_pos h.settled
  | @added c a hzero ha hlt =>
    rw [hsame rfl]
    obtain ⟨hc, hr, hepochs, hsettled⟩ := h
    refine ⟨⟨?_, ?_, ?_, hc.quorum_pos⟩, ⟨hr.voters, ?_, ?_, hr.variants⟩, hepochs, hsettled⟩
    · exact List.nodup_append'.mpr ⟨hc.nodup, List.nodup_singleton a, by simpa using ha⟩
    · intro hmem
      rcases List.mem_append.mp hmem with hmem | hmem
      · exact hc.nonzero hmem
      · exact hzero (List.mem_singleton.mp hmem).symm
    · rw [List.length_append, List.length_singleton]
      exact hlt
    · intro b hb
      exact List.mem_append_left _ (hr.members b hb)
    · intro i
      rw [hr.bitmask]
      refine exists_congr fun m ↦ and_congr_right fun hm ↦ ?_
      obtain ⟨b, hb, rfl⟩ := List.mem_map.mp hm
      have hne : b.1 ≠ a := fun h ↦ ha (h ▸ hr.members b hb)
      rcases Nat.lt_or_ge i w.oracle.members.length with hi | hi
      · rw [List.getElem?_append_left hi]
      · rw [List.getElem?_append_right hi, List.getElem?_eq_none hi]
        refine ⟨nofun, fun h ↦ ?_⟩
        exact absurd (List.mem_singleton.mp (List.mem_of_getElem? h)) hne
  | @removed c a i hi =>
    rw [hsame rfl]
    obtain ⟨hnodup, hzero, hlength⟩ :=
      swapRemove_committee h.committee (List.getElem?_eq_some_iff.mp hi).1
    exact cleared ⟨hnodup, hzero, hlength, h.committee.quorum_pos⟩ rfl rfl
  | @quorum c q hq hlead =>
    rw [hsame rfl]
    refine h.congr rfl rfl rfl rfl hq fun x hx ↦ ?_
    by_cases hlt : q < w.oracle.quorum
    · exact hlead hlt x hx
    · exact (h.settled x hx).trans_le (Nat.le_of_not_lt hlt)
  | @quorumPushed c q x w' hq hlead hle hpush =>
    have hc := h.committee
    obtain ⟨_, _, _, _, _, hpushes⟩ := hpush.oracle
    rw [hgone hpushes]
    exact pushed (w := { w with oracle := { w.oracle with quorum := q } })
      ⟨hc.nodup, hc.nonzero, hc.length_le, hq⟩ hpush
  | reported hE hi ha hlt =>
    rw [hsame rfl]
    exact h.reported hE hi ha hlt
  | @reportPushed c epochId i v w' hE hi ha hle hpush =>
    obtain ⟨_, _, _, _, _, hpushes⟩ := hpush.oracle
    rw [hgone hpushes]
    have hc := committee_opened h.committee epochId
    exact pushed (w := { w with oracle := marked w.oracle epochId i })
      ⟨hc.nodup, hc.nonzero, hc.length_le, hc.quorum_pos⟩ hpush

end OracleSane

theorem OracleSane.initial (h : (OracleWorld.machine S).initial w) : OracleSane w [] := by
  obtain ⟨⟨spec, increase, decrease, ho⟩, _⟩ := h
  simp only [initializeOracle, bind_eq_ok, require_eq_ok, exists_const, pure_eq,
    Except.ok.injEq] at ho
  obtain ⟨_, o, ho, first, _, hw⟩ := ho
  obtain ⟨_, _, heq⟩ := _setBeaconSpec_ok ho
  rw [heq] at hw
  refine .cleared ?_ ?_ ?_
  · rw [← hw]
    exact ⟨.nil, by simp [blank], by simp [blank], Nat.one_pos⟩
  · rw [← hw]
    rfl
  · rw [← hw]
    rfl

theorem oracleSane (h : Reachable (oracleSystem S) (w, reports)) : OracleSane w reports := by
  suffices hsane : ∀ s, Reachable (oracleSystem S) s → OracleSane s.1 s.2 from hsane _ h
  intro s hs
  refine hs.invariant (P := fun s ↦ OracleSane s.1 s.2) ?_ ?_
  · intro s hs
    rw [hs.2]
    exact .initial hs.1
  · intro s e t _ h hstep
    obtain ⟨hstep, hreports⟩ := observed_step.mp hstep
    rw [← hreports]
    exact h.change (OracleWorld.step_change h.committee h.represents hstep)

end LidoDao
