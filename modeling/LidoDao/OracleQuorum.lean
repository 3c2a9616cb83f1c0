import LidoDao.OracleSafety
import LidoDao.OracleAndPool

namespace LidoDao

open Evm Library.Outcome Library.Ballots Library.Transition ReportUtils LidoOracle

variable {X : Type} {S : OracleSurroundings X} {w w' : OracleWorld X} {e : OracleEvent X}
  {reports : List MemberReport}

def reportersOf (v : Variant) (reports : List MemberReport) : List Address :=
  (reports.filter fun r ↦ r.variant = v).map MemberReport.member

theorem length_reportersOf (v : Variant) (reports : List MemberReport) :
    (reportersOf v reports).length = support v (reports.map MemberReport.variant) := by
  rw [reportersOf, List.length_map, support_map]

theorem nodup_reportersOf {v : Variant} (h : (reports.map MemberReport.member).Nodup) :
    (reportersOf v reports).Nodup :=
  h.sublist (List.filter_sublist.map MemberReport.member)

namespace OracleSane

theorem members_nodup (h : OracleSane w reports) : (reports.map MemberReport.member).Nodup := by
  have hvoters := h.represents.voters
  rwa [List.map_map] at hvoters

theorem member_mem (h : OracleSane w reports) {r : MemberReport} (hr : r ∈ reports) :
    r.member ∈ w.oracle.members :=
  h.represents.members r.ballot (List.mem_map_of_mem hr)

theorem variants_eq (h : OracleSane w reports) :
    w.oracle.currentReportVariants = (tally (reports.map MemberReport.variant)).map pack := by
  have hvariants := h.represents.variants
  rwa [List.map_map] at hvariants

theorem countable (h : OracleSane w reports) :
    Countable (tally (reports.map MemberReport.variant)) := by
  have hcountable := h.represents.countable h.committee
  rwa [List.map_map] at hcountable

theorem getCount_eq (h : OracleSane w reports) {variant : ℕ}
    (hv : variant ∈ w.oracle.currentReportVariants) :
    (getCount variant).toNat = (reportersOf (decode variant) reports).length := by
  rw [h.variants_eq] at hv
  obtain ⟨x, hx, rfl⟩ := List.mem_map.mp hv
  have hlt := h.countable.lt hx
  have hdecode : decode (pack x) = x.1 := decode_pack hlt
  rw [hdecode, length_reportersOf, (mem_tally.mp hx).2]
  exact toNat_getCount_pack hlt

end OracleSane

/-- A push has a quorum: so many members made exactly this report since the
progress was last cleared. -/
structure HasQuorum (w : OracleWorld X) (e : OracleEvent X) (reports : List MemberReport)
    (w' : OracleWorld X) (epochId : ℕ) (v : Variant) (reporters : List Address) : Prop where
  nodup : reporters.Nodup
  quorum : w'.oracle.quorum ≤ reporters.length
  members : w'.oracle.members = w.oracle.members
  reported : ∀ a ∈ reporters, a ∈ w.oracle.members ∧ ⟨a, epochId, v⟩ ∈ e.collect w reports

theorem HasQuorum.of_reportersOf {collected : List MemberReport} {epochId : ℕ} {v : Variant}
    (hcollect : e.collect w reports = collected)
    (hnodup : (collected.map MemberReport.member).Nodup)
    (hmembers : ∀ r ∈ collected, r.member ∈ w.oracle.members ∧ r.epochId = epochId)
    (hquorum : w'.oracle.quorum ≤ support v (collected.map MemberReport.variant))
    (hsame : w'.oracle.members = w.oracle.members) :
    HasQuorum w e reports w' epochId v (reportersOf v collected) := by
  refine ⟨nodup_reportersOf hnodup, by rwa [length_reportersOf], hsame, ?_⟩
  intro a ha
  obtain ⟨r, hr, rfl⟩ := List.mem_map.mp ha
  obtain ⟨hmem, hv⟩ := List.mem_filter.mp hr
  obtain ⟨hmember, hepoch⟩ := hmembers r hmem
  have hv' : r.variant = v := of_decide_eq_true hv
  refine ⟨hmember, ?_⟩
  rw [hcollect, ← hepoch, ← hv']
  exact hmem

theorem OracleSane.hasQuorum (h : OracleSane w reports)
    (hchange : OracleWorld.Change w reports e w') :
    w'.pushes = w.pushes ∨ ∃ epochId v elapsed reporters,
      HasQuorum w e reports w' epochId v reporters ∧
      w'.pushes = w.pushes ++ [⟨epochId, denominationOffset * v.1.toNat, v.2.toNat, elapsed⟩] := by
  cases hchange with
  | other _ _ | spec _ _ | added _ _ _ | removed _ | quorum _ _ | reported _ _ _ _ =>
    exact .inl rfl
  | @quorumPushed c q x w' hq hlead hle hpush =>
    obtain ⟨pre, post, elapsed, _, horacle, hpushes⟩ := hpush.oracle
    refine .inr ⟨_, x.1, elapsed, _, .of_reportersOf rfl h.members_nodup ?_ ?_ ?_, hpushes⟩
    · exact fun r hr ↦ ⟨h.member_mem hr, h.epochs r hr⟩
    · have hcount := (mem_tally.mp hlead.1).2
      rw [horacle]
      exact hle.trans hcount.ge
    · rw [horacle]
  | @reportPushed c epochId i v w' hE hi ha hle hpush =>
    obtain ⟨pre, post, elapsed, _, horacle, hpushes⟩ := hpush.oracle
    refine .inr ⟨_, v, elapsed, _, .of_reportersOf rfl ?_ ?_ ?_ ?_, hpushes⟩
    · have hvoters := (h.cast (v := v) hi ha).voters
      rwa [List.map_map] at hvoters
    · intro r hr
      have hmember := (h.cast (v := v) hi ha).members r.ballot (List.mem_map_of_mem hr)
      have hmembers : (marked w.oracle epochId i).members = w.oracle.members :=
        opened_members w.oracle epochId
      exact ⟨hmembers ▸ hmember, h.collected_epochId hE hr⟩
    · have hquorum : (marked w.oracle epochId i).quorum = w.oracle.quorum :=
        opened_quorum w.oracle epochId
      rw [horacle]
      exact (hquorum.le.trans hle).trans collected_support.ge
    · rw [horacle]
      exact opened_members w.oracle epochId

/-- A member's report is counted once, for the expected epoch and in the variant that
it equals, and whatever is pushed has a quorum of such reports. -/
theorem pushed_reports_have_a_quorum (h : Reachable (oracleSystem S) (w, reports)) :
    (reports.map MemberReport.member).Nodup ∧
    (∀ r ∈ reports, r.member ∈ w.oracle.members ∧ r.epochId = w.oracle.expectedEpochId) ∧
    (∀ variant ∈ w.oracle.currentReportVariants,
      (getCount variant).toNat = (reportersOf (decode variant) reports).length) ∧
    ∀ e w', (OracleWorld.machine S).step w e = .ok w' →
      w'.pushes = w.pushes ∨ ∃ epochId v elapsed reporters,
        HasQuorum w e reports w' epochId v reporters ∧
        w'.pushes =
          w.pushes ++ [⟨epochId, denominationOffset * v.1.toNat, v.2.toNat, elapsed⟩] := by
  have hsane := oracleSane h
  refine ⟨hsane.members_nodup, ?_, fun variant ↦ hsane.getCount_eq, ?_⟩
  · exact fun r hr ↦ ⟨hsane.member_mem hr, hsane.epochs r hr⟩
  · intro e w' hstep
    exact hsane.hasQuorum (OracleWorld.step_change hsane.committee hsane.represents hstep)

namespace Sample

def quorumRun : List (OracleEvent (World NodeOperatorsRegistry)) :=
  [oracleCall 1 0 (.addOracleMember 11), oracleCall 1 0 (.addOracleMember 12),
    oracleCall 1 0 (.addOracleMember 13), oracleCall 1 0 (.setQuorum 2),
    oracleReport 11 3840 10 5, oracleReport 12 3850 10 0]

/-- The third member decides. -/
theorem two_of_three_members_push : ∃ w reports w' epochId v reporters,
    Reachable (oracleSystem surroundings) (w, reports) ∧
      HasQuorum w (oracleReport 13 3860 10 0) reports w' epochId v reporters ∧
      w.pushes.length = 0 ∧ w'.pushes.length = 1 := by
  have hrun : reaches (oracleSystem surroundings) (oracleStart, []) quorumRun (fun s ↦
      passes ((OracleWorld.machine surroundings).step s.1 (oracleReport 13 3860 10 0)) fun w' ↦
        decide (s.1.pushes.length = 0 ∧ w'.pushes.length = 1)) = true := by
    decide +kernel
  have hstart : Reachable (oracleSystem surroundings) (oracleStart, []) :=
    .initial ⟨oracleStart_initial, rfl⟩
  obtain ⟨⟨w, reports⟩, h, hp⟩ := hstart.of_reaches hrun
  obtain ⟨w', hstep, hp⟩ := exists_of_passes hp
  obtain ⟨hzero, hone⟩ : w.pushes.length = 0 ∧ w'.pushes.length = 1 := of_decide_eq_true hp
  obtain ⟨_, _, _, hpush⟩ := pushed_reports_have_a_quorum h
  rcases hpush _ _ hstep with heq | ⟨epochId, v, elapsed, reporters, hquorum, _⟩
  · rw [heq, hzero] at hone
    cases hone
  · exact ⟨w, reports, w', epochId, v, reporters, h, hquorum, hzero, hone⟩

end Sample

section Consistency

def setBits (mask : BitVec 256) : ℕ := (List.range 256).countP fun i ↦ mask.getLsbD i

namespace OracleSane

theorem bitmask_iff (h : OracleSane w reports) (i : ℕ) :
    w.oracle.reportsBitmask.getLsbD i = true ↔
      ∃ r ∈ reports, w.oracle.members[i]? = some r.member := by
  rw [h.represents.bitmask]
  constructor
  · intro h
    obtain ⟨m, hm, hi⟩ := h
    rw [List.map_map] at hm
    obtain ⟨r, hr, rfl⟩ := List.mem_map.mp hm
    exact ⟨r, hr, hi⟩
  · intro h
    obtain ⟨r, hr, hi⟩ := h
    refine ⟨r.member, ?_, hi⟩
    rw [List.map_map]
    exact List.mem_map_of_mem hr

theorem lt_length (h : OracleSane w reports) {i : ℕ}
    (hi : w.oracle.reportsBitmask.getLsbD i = true) : i < w.oracle.members.length := by
  obtain ⟨r, _, hr⟩ := (h.bitmask_iff i).mp hi
  exact (List.getElem?_eq_some_iff.mp hr).1

theorem setBits_eq (h : OracleSane w reports) :
    setBits w.oracle.reportsBitmask = reports.length := by
  have hperm : ((reports.map MemberReport.member).map w.oracle.members.idxOf).Perm
      ((List.range 256).filter fun i ↦ w.oracle.reportsBitmask.getLsbD i) := by
    refine (List.perm_ext_iff_of_nodup ?_ (List.nodup_range.filter _)).mpr fun i ↦ ?_
    · refine h.members_nodup.map_on fun a ha b hb hab ↦ ?_
      obtain ⟨r, hr, rfl⟩ := List.mem_map.mp ha
      exact (List.idxOf_inj (h.member_mem hr)).mp hab
    · rw [List.mem_filter, List.mem_range, h.bitmask_iff, List.map_map, List.mem_map]
      constructor
      · intro h'
        obtain ⟨r, hr, rfl⟩ := h'
        have hlt := List.idxOf_lt_length_of_mem (h.member_mem hr)
        refine ⟨hlt.trans_le h.committee.length_le, r, hr, ?_⟩
        exact List.getElem?_idxOf (h.member_mem hr)
      · intro h'
        obtain ⟨_, r, hr, hi⟩ := h'
        obtain ⟨hlt, hget⟩ := List.getElem?_eq_some_iff.mp hi
        refine ⟨r, hr, ?_⟩
        have hidx := h.committee.nodup.idxOf_getElem i hlt
        rwa [hget] at hidx
  have hlength := hperm.length_eq
  rw [List.length_map, List.length_map] at hlength
  rw [setBits, List.countP_eq_length_filter, hlength]

theorem decode_variants (h : OracleSane w reports) :
    w.oracle.currentReportVariants.map decode =
      (tally (reports.map MemberReport.variant)).map Prod.fst := by
  rw [h.variants_eq, List.map_map]
  refine List.map_congr_left fun x hx ↦ ?_
  exact decode_pack (h.countable.lt hx)

theorem getCount_variants (h : OracleSane w reports) :
    (w.oracle.currentReportVariants.map fun variant ↦ (getCount variant).toNat) =
      (tally (reports.map MemberReport.variant)).map Prod.snd := by
  rw [h.variants_eq, List.map_map]
  refine List.map_congr_left fun x hx ↦ ?_
  exact toNat_getCount_pack (h.countable.lt hx)

theorem tied (h : OracleSane w reports) {variant : ℕ}
    (hv : variant ∈ w.oracle.currentReportVariants)
    (hq : w.oracle.quorum ≤ (getCount variant).toNat) :
    ∃ a ∈ w.oracle.currentReportVariants, ∃ b ∈ w.oracle.currentReportVariants,
      decode a ≠ decode b ∧ getCount a = getCount b ∧
      ∀ c ∈ w.oracle.currentReportVariants, getCount c ≤ getCount a := by
  have hcount {x : Variant × ℕ} (hx : x ∈ tally (reports.map MemberReport.variant)) :
      (getCount (pack x)).toNat = x.2 := toNat_getCount_pack (h.countable.lt hx)
  have hdecode {x : Variant × ℕ} (hx : x ∈ tally (reports.map MemberReport.variant)) :
      decode (pack x) = x.1 := decode_pack (h.countable.lt hx)
  rw [h.variants_eq] at hv ⊢
  obtain ⟨x, hx, rfl⟩ := List.mem_map.mp hv
  rw [hcount hx] at hq
  obtain ⟨y, hy, z, hz, hne, heq, hmax⟩ := exists_tied h.settled hx hq
  refine ⟨_, List.mem_map_of_mem hy, _, List.mem_map_of_mem hz, ?_, ?_, ?_⟩
  · rw [hdecode hy, hdecode hz]
    exact fun hyz ↦ hne (Prod.ext hyz heq)
  · rw [← UInt16.toNat_inj, hcount hy, hcount hz, heq]
  · intro c hc
    obtain ⟨u, hu, rfl⟩ := List.mem_map.mp hc
    rw [UInt16.le_iff_toNat_le, hcount hu, hcount hy]
    exact hmax u hu

end OracleSane

/-- The members, the bitmask and the variants agree, and no quorum is missed. -/
theorem oracle_state_is_consistent (h : Reachable (OracleWorld.machine S) w) :
    (w.oracle.members.Nodup ∧ 0 ∉ w.oracle.members ∧ w.oracle.members.length ≤ maxMembers) ∧
    (∀ i, w.oracle.reportsBitmask.getLsbD i = true → i < w.oracle.members.length) ∧
    (w.oracle.currentReportVariants.map decode).Nodup ∧
    (∀ variant ∈ w.oracle.currentReportVariants, 1 ≤ getCount variant) ∧
    (w.oracle.currentReportVariants.map fun variant ↦ (getCount variant).toNat).sum =
      setBits w.oracle.reportsBitmask ∧
    ∀ variant ∈ w.oracle.currentReportVariants, w.oracle.quorum ≤ (getCount variant).toNat →
      ∃ a ∈ w.oracle.currentReportVariants, ∃ b ∈ w.oracle.currentReportVariants,
        decode a ≠ decode b ∧ getCount a = getCount b ∧
        ∀ c ∈ w.oracle.currentReportVariants, getCount c ≤ getCount a := by
  obtain ⟨reports, hreports⟩ : ∃ reports, Reachable (oracleSystem S) (w, reports) :=
    h.exists_history
  have hsane := oracleSane hreports
  refine ⟨⟨hsane.committee.nodup, hsane.committee.nonzero, hsane.committee.length_le⟩,
    fun i ↦ hsane.lt_length, ?_, ?_, ?_, fun variant ↦ hsane.tied⟩
  · rw [hsane.decode_variants]
    exact nodup_tally _
  · intro variant hv
    rw [hsane.variants_eq] at hv
    obtain ⟨x, hx, rfl⟩ := List.mem_map.mp hv
    have hcount : (getCount (pack x)).toNat = x.2 :=
      toNat_getCount_pack (hsane.countable.lt hx)
    rw [UInt16.le_iff_toNat_le, hcount]
    exact (hsane.countable x hx).1
  · rw [hsane.getCount_variants, sum_tally, List.length_map, hsane.setBits_eq]

/-- With a quorum lowered to one, two reports of one member each stay unpushed. -/
theorem two_tied_reports_stay : ∃ w : OracleWorld (World NodeOperatorsRegistry),
    Reachable (OracleWorld.machine Sample.surroundings) w ∧ w.oracle.quorum = 1 ∧
      w.pushes.length = 0 ∧ setBits w.oracle.reportsBitmask = 2 ∧
      ∃ a ∈ w.oracle.currentReportVariants, ∃ b ∈ w.oracle.currentReportVariants,
        decode a ≠ decode b ∧ getCount a = getCount b := by
  have hrun : reaches (OracleWorld.machine Sample.surroundings) Sample.oracleStart
      (Sample.quorumRun ++ [Sample.oracleCall 1 0 (.setQuorum 1)]) (fun w ↦
        decide (w.oracle.quorum = 1 ∧ w.pushes.length = 0 ∧
          setBits w.oracle.reportsBitmask = 2 ∧ w.oracle.currentReportVariants.length = 2)) =
      true := by
    decide +kernel
  obtain ⟨w, h, hp⟩ := (Reachable.initial Sample.oracleStart_initial).of_reaches hrun
  obtain ⟨hquorum, hpushes, hbits, hlength⟩ := of_decide_eq_true hp
  obtain ⟨_, _, _, hpos, _, htied⟩ := oracle_state_is_consistent h
  obtain ⟨variant, hv⟩ : ∃ variant, variant ∈ w.oracle.currentReportVariants :=
    List.exists_mem_of_length_pos (by omega)
  have hone := UInt16.le_iff_toNat_le.mp (hpos variant hv)
  obtain ⟨a, ha, b, hb, hne, heq, _⟩ := htied variant hv (by rwa [hquorum])
  exact ⟨w, h, hquorum, hpushes, hbits, a, ha, b, hb, hne, heq⟩

end Consistency

end LidoDao
