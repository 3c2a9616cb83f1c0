import LidoDao.OracleOrder

/-!
# Faulty members of the oracle

Fewer members than the quorum report what they like, as often as they like.
-/

namespace LidoDao

open Evm Library.Outcome Library.Ballots Library.Transition ReportUtils LidoOracle

variable {X : Type} {S : OracleSurroundings X} {w w' u u' : OracleWorld X}

/-- A call of `reportBeacon` for any epoch. -/
structure Attempt extends Submission where
  epochId : ℕ

def Attempt.toEvent (s : Attempt) : OracleEvent X := s.toSubmission.event s.epochId

namespace LidoOracle

variable {o : LidoOracle} {E epochId : ℕ} {time : UInt64} {ballots : List (Address × Variant)}

theorem Reportable.eq_or_lt (h : Reportable o epochId time)
    (hframe : o._getBeaconSpec.InFrame E time) :
    o.expectedEpochId = epochId ∨ o.expectedEpochId < epochId ∧ epochId = E := by
  rcases h.1.eq_or_lt with heq | hlt
  · exact .inl heq
  · obtain ⟨current, hcurrent, hfirst⟩ := h.2 hlt
    obtain ⟨_, current', hcurrent', hfirst'⟩ := hframe
    cases hcurrent.symm.trans hcurrent'
    exact .inr ⟨hlt, Except.ok.inj (hfirst.symm.trans hfirst')⟩

theorem mem_of_mem_ballotsOf {b : Address × Variant} (h : b ∈ o.ballotsOf epochId ballots) :
    b ∈ ballots := by
  rw [ballotsOf] at h
  split at h
  · cases h
  · exact h

theorem support_ballotsOf_le (o : LidoOracle) (epochId : ℕ) (ballots : List (Address × Variant))
    (v : Variant) : support v ((o.ballotsOf epochId ballots).map Prod.snd) ≤
      support v (ballots.map Prod.snd) := by
  rw [ballotsOf]
  split
  · exact Nat.zero_le _
  · exact le_rfl

end LidoOracle

namespace OracleWorld

/-- A state differs from an earlier one by the votes that are counted, which are these. -/
structure Voted (w : OracleWorld X) (seen : List (Address × Variant)) (u : OracleWorld X) :
    Prop where
  same : ∃ expectedEpochId reportsBitmask currentReportVariants, u = { w with oracle :=
    { w.oracle with expectedEpochId, reportsBitmask, currentReportVariants } }
  represents : Represents u.oracle seen

namespace Voted

variable {seen : List (Address × Variant)} {a : Address} {time : UInt64} {epochId : ℕ}
  {c : Variant}

theorem committee (h : Voted w seen u) (hc : Committee w.oracle) : Committee u.oracle := by
  obtain ⟨_, _, _, rfl⟩ := h.same
  exact ⟨hc.nodup, hc.nonzero, hc.length_le, hc.quorum_pos⟩

theorem members_eq (h : Voted w seen u) : u.oracle.members = w.oracle.members := by
  obtain ⟨_, _, _, rfl⟩ := h.same
  rfl

theorem pushes_eq (h : Voted w seen u) : u.pushes = w.pushes := by
  obtain ⟨_, _, _, rfl⟩ := h.same
  rfl

theorem outside_eq (h : Voted w seen u) : u.outside = w.outside := by
  obtain ⟨_, _, _, rfl⟩ := h.same
  rfl

theorem spec_eq (h : Voted w seen u) : u.oracle._getBeaconSpec = w.oracle._getBeaconSpec := by
  obtain ⟨_, _, _, rfl⟩ := h.same
  rfl

theorem report (h : Voted w seen u) (hc : Committee w.oracle)
    (hE : Reportable u.oracle epochId time) (hmember : a ∈ w.oracle.members)
    (ha : a ∉ (u.oracle.ballotsOf epochId seen).map Prod.fst) :
    if w.oracle.quorum ≤ support c ((u.oracle.ballotsOf epochId seen).map Prod.snd) + 1 then
      u.reportBeacon S a time epochId c.1 c.2 = w.pushVariant S epochId c
    else ∃ u', u.reportBeacon S a time epochId c.1 c.2 = .ok u' ∧
      Voted w (u.oracle.ballotsOf epochId seen ++ [(a, c)]) u' ∧
      u'.oracle.expectedEpochId = epochId := by
  have hc' := h.committee hc
  have hr := h.represents
  obtain ⟨expectedEpochId, mask, variants, rfl⟩ := h.same
  obtain ⟨i, hi⟩ : ∃ i : ℕ, w.oracle.members[i]? = some a := List.mem_iff_getElem?.mp hmember
  have heq := reportBeacon_eq (S := S) (c := c) hc' hr hE hi ha
  split
  · rename_i hq
    rw [if_pos hq] at heq
    rw [heq, marked, opened]
    split <;> rfl
  · rename_i hq
    rw [if_neg hq] at heq
    refine ⟨_, heq, ⟨?_, ?_⟩, opened_expectedEpochId hE⟩
    · rw [marked, opened]
      split
      · exact ⟨_, _, _, rfl⟩
      · exact ⟨_, _, _, rfl⟩
    · have hopened := represents_opened hr epochId
      exact hopened.cast (committee_opened hc' epochId) (by rwa [opened_members]) ha c rfl

end Voted

section Faults

variable {F : Finset Address} {E : ℕ} {v : Variant} {seen : List (Address × Variant)}
  {s : Attempt} {t : OracleWorld X} {l : List Attempt}

/-- The members that are not faulty report this variant of the epoch. -/
def Follows (w : OracleWorld X) (F : Finset Address) (E : ℕ) (v : Variant) (s : Attempt) : Prop :=
  s.call.sender ∈ w.oracle.members → s.call.sender ∉ F → s.epochId = E ∧ s.variant = v

/-- The report of the members that are not faulty has no quorum yet. -/
structure Undecided (w : OracleWorld X) (F : Finset Address) (E : ℕ) (v : Variant)
    (seen : List (Address × Variant)) (u : OracleWorld X) : Prop where
  voted : Voted w seen u
  expected_le : u.oracle.expectedEpochId ≤ E
  loyal : ∀ b ∈ seen, b.1 ∈ F ∨ b.2 = v ∧ u.oracle.expectedEpochId = E
  support_lt : support v (seen.map Prod.snd) < w.oracle.quorum

/-- After the push only faulty members can have voted, for the epoch after the frame. -/
structure Decided (t : OracleWorld X) (F : Finset Address) (E : ℕ)
    (seen : List (Address × Variant)) (u : OracleWorld X) : Prop where
  voted : Voted t seen u
  expected_gt : E < u.oracle.expectedEpochId
  faulty : ∀ b ∈ seen, b.1 ∈ F

theorem Decided.of_push (hc : Committee w.oracle) (hpush : w.pushVariant S E v = .ok t) {time}
    (hframe : w.oracle._getBeaconSpec.InFrame E time) : Decided t F E [] t := by
  have hpushed := _push_ok hpush
  have hsane := OracleSane.pushed hc hpushed
  obtain ⟨pre, post, elapsed, _, horacle, _⟩ := hpushed.oracle
  refine ⟨⟨⟨_, _, _, rfl⟩, hsane.represents⟩, ?_, by simp⟩
  by_contra hle
  rw [horacle] at hle
  exact (advanced_ne hframe (Nat.le_of_not_lt hle)).2 rfl

theorem Decided.attempt (h : Decided t F E seen u) (hc : Committee t.oracle)
    (hF : F.card < t.oracle.quorum) (hs : t.Follows F E v s)
    (hframe : t.oracle._getBeaconSpec.InFrame E s.call.timestamp) :
    ∃ seen', Decided t F E seen' ((machine S).attempt u s.toEvent) := by
  cases hstep : (machine S).step u s.toEvent with
  | error e =>
    rw [Machine.attempt_error (by simp [hstep])]
    exact ⟨seen, h⟩
  | ok u' =>
    rw [Machine.attempt_ok hstep]
    obtain ⟨hE, i, hi, ha⟩ := reportBeacon_accepted (c := s.variant) (h.voted.committee hc)
      h.voted.represents hstep
    have hmember : s.call.sender ∈ t.oracle.members := by
      rw [← h.voted.members_eq]
      exact List.mem_of_getElem? hi
    have hepoch : u.oracle.expectedEpochId = s.epochId := by
      rw [← h.voted.spec_eq] at hframe
      rcases hE.eq_or_lt hframe with heq | ⟨hlt, heq⟩
      · exact heq
      · exact absurd (heq ▸ hlt) (Nat.lt_asymm h.expected_gt)
    have hballots : u.oracle.ballotsOf s.epochId seen = seen := if_neg hepoch.not_lt
    have hfault : s.call.sender ∈ F := by
      by_contra hnot
      have heq := (hs hmember hnot).1
      exact absurd (hepoch.trans heq) h.expected_gt.ne'
    have hreport := h.voted.report (S := S) (c := s.variant) hc hE hmember ha
    rw [hballots] at hreport ha
    have hlt := support_lt_card h.voted.represents.voters ha hfault
      fun b hb (_ : b.2 = s.variant) ↦ h.faulty b hb
    rw [if_neg (by omega)] at hreport
    obtain ⟨u'', hu'', hvoted, hexpected⟩ := hreport
    cases hstep.symm.trans hu''
    refine ⟨_, hvoted, ?_, ?_⟩
    · rw [hexpected, ← hepoch]
      exact h.expected_gt
    · intro b hb
      rcases List.mem_append.mp hb with hb | hb
      · exact h.faulty b hb
      · rw [List.mem_singleton.mp hb]
        exact hfault

theorem Decided.attemptAll (h : Decided t F E seen u) (hc : Committee t.oracle)
    (hF : F.card < t.oracle.quorum) (hfollows : ∀ s ∈ l, t.Follows F E v s)
    (hframe : ∀ s ∈ l, t.oracle._getBeaconSpec.InFrame E s.call.timestamp) :
    ∃ seen', Decided t F E seen' ((machine S).attemptAll u (l.map Attempt.toEvent)) := by
  induction l generalizing seen u with
  | nil => exact ⟨seen, h⟩
  | cons s l ih =>
    rw [List.forall_mem_cons] at hfollows hframe
    obtain ⟨seen', hseen⟩ := h.attempt (S := S) hc hF hfollows.1 hframe.1
    rw [List.map_cons, Machine.attemptAll_cons]
    exact ih hseen hfollows.2 hframe.2

theorem Undecided.mem_of_rejected (h : Undecided w F E v seen u) (hc : Committee w.oracle)
    (hs : w.Follows F E v s) (hframe : w.oracle._getBeaconSpec.InFrame E s.call.timestamp)
    (haccepted : (w.pushVariant S E v).isOk = true)
    (hstep : ∀ u', u.reportBeacon S s.call.sender s.call.timestamp s.epochId s.variant.1
      s.variant.2 ≠ .ok u')
    (hmember : s.call.sender ∈ w.oracle.members) (hnot : s.call.sender ∉ F) :
    (s.call.sender, v) ∈ seen := by
  by_contra hnone
  obtain ⟨hepoch, hvariant⟩ := hs hmember hnot
  have ha : s.call.sender ∉ (u.oracle.ballotsOf s.epochId seen).map Prod.fst := by
    intro ha
    obtain ⟨⟨a, c⟩, hb, rfl⟩ := List.mem_map.mp ha
    have hloyal := (h.loyal _ (mem_of_mem_ballotsOf hb)).resolve_left hnot
    exact hnone (hloyal.1 ▸ mem_of_mem_ballotsOf hb)
  have hE : Reportable u.oracle s.epochId s.call.timestamp := by
    rw [← h.voted.spec_eq] at hframe
    rw [hepoch]
    exact ⟨h.expected_le, fun _ ↦ hframe.2⟩
  have hreport := h.voted.report (S := S) (c := s.variant) hc hE hmember ha
  split at hreport
  · obtain ⟨t, ht⟩ := exists_of_isOk haccepted
    refine hstep t (hreport.trans ?_)
    rw [hepoch, hvariant, ht]
  · obtain ⟨u', hu', _⟩ := hreport
    exact hstep u' hu'

theorem Undecided.accepted (h : Undecided w F E v seen u) (hc : Committee w.oracle)
    (hF : F.card < w.oracle.quorum) (hs : w.Follows F E v s)
    (hframe : w.oracle._getBeaconSpec.InFrame E s.call.timestamp)
    (hstep : u.reportBeacon S s.call.sender s.call.timestamp s.epochId s.variant.1
      s.variant.2 = .ok u') :
    w.pushVariant S E v = .ok u' ∨ ∃ seen', Undecided w F E v seen' u' ∧
      (∀ b ∈ seen, b.1 ∉ F → b ∈ seen') ∧ (s.call.sender, s.variant) ∈ seen' := by
  rw [← h.voted.spec_eq] at hframe
  obtain ⟨hE, i, hi, ha⟩ := reportBeacon_accepted (h.voted.committee hc) h.voted.represents hstep
  have hmember : s.call.sender ∈ w.oracle.members := by
    rw [← h.voted.members_eq]
    exact List.mem_of_getElem? hi
  have hepoch : s.epochId ≤ E ∧ (u.oracle.expectedEpochId = E → s.epochId = E) := by
    have hle := h.expected_le
    rcases hE.eq_or_lt hframe with heq | ⟨_, heq⟩
    · exact ⟨by omega, fun h ↦ heq.symm.trans h⟩
    · exact ⟨heq.le, fun _ ↦ heq⟩
  have hloyal : ∀ b ∈ u.oracle.ballotsOf s.epochId seen, b.1 ∈ F ∨ b.2 = v ∧ s.epochId = E :=
    fun b hb ↦ (h.loyal b (mem_of_mem_ballotsOf hb)).imp_right fun h ↦ ⟨h.1, hepoch.2 h.2⟩
  have hsender : s.call.sender ∈ F ∨ s.variant = v ∧ s.epochId = E :=
    or_iff_not_imp_left.mpr fun hnot ↦ (hs hmember hnot).symm
  have hreport := h.voted.report (S := S) (c := s.variant) hc hE hmember ha
  split at hreport
  · rename_i hq
    have hwins : s.variant = v ∧ s.epochId = E := by
      by_contra hother
      have hlt := support_lt_card (represents_opened h.voted.represents s.epochId).voters ha
        (hsender.resolve_right hother)
        fun b hb (hb' : b.2 = s.variant) ↦ (hloyal b hb).resolve_right (hb' ▸ hother)
      omega
    rw [hwins.1, hwins.2] at hreport hstep
    exact .inl (hreport.symm.trans hstep)
  · rename_i hq
    obtain ⟨u'', hu'', hvoted, hexpected⟩ := hreport
    cases hstep.symm.trans hu''
    refine .inr ⟨_, ⟨hvoted, hexpected.trans_le hepoch.1, ?_, ?_⟩, ?_, ?_⟩
    · intro b hb
      rw [hexpected]
      rcases List.mem_append.mp hb with hb | hb
      · exact hloyal b hb
      · rw [List.mem_singleton.mp hb]
        exact hsender
    · have hle := support_ballotsOf_le u.oracle s.epochId seen v
      have hlt := h.support_lt
      rw [List.map_append, List.map_singleton, support_concat]
      split
      · rename_i hv
        change s.variant = v at hv
        rw [hv] at hq
        omega
      · omega
    · intro b hb hnot
      have heq := ((h.loyal b hb).resolve_left hnot).2
      rw [ballotsOf, heq, hepoch.2 heq, if_neg (Nat.lt_irrefl E)]
      exact List.mem_append_left _ hb
    · exact List.mem_append_right _ (List.mem_singleton_self _)

theorem Undecided.attempt (h : Undecided w F E v seen u) (hc : Committee w.oracle)
    (hF : F.card < w.oracle.quorum) (hs : w.Follows F E v s)
    (hframe : w.oracle._getBeaconSpec.InFrame E s.call.timestamp) :
    w.pushVariant S E v = .ok ((machine S).attempt u s.toEvent) ∨
    ∃ seen', Undecided w F E v seen' ((machine S).attempt u s.toEvent) ∧
      (∀ b ∈ seen, b.1 ∉ F → b ∈ seen') ∧
      ((w.pushVariant S E v).isOk = true → s.call.sender ∈ w.oracle.members →
        s.call.sender ∉ F → (s.call.sender, v) ∈ seen') := by
  by_cases hstep : ∃ u', (machine S).step u s.toEvent = .ok u'
  · obtain ⟨u', hu'⟩ := hstep
    rw [Machine.attempt_ok hu']
    refine (h.accepted hc hF hs hframe hu').imp_right fun ⟨seen', hnext, hkept, hcast⟩ ↦ ?_
    exact ⟨seen', hnext, hkept, fun _ hmember hnot ↦ (hs hmember hnot).2 ▸ hcast⟩
  · rw [not_exists] at hstep
    rw [Machine.attempt_error hstep]
    exact .inr ⟨seen, h, fun b hb _ ↦ hb,
      fun haccepted ↦ h.mem_of_rejected hc hs hframe haccepted hstep⟩

/-- Reports are submitted in an order: the one of the members that are not faulty was pushed,
or nothing was, and then they are all counted if their report can be pushed at all. -/
theorem Undecided.attemptAll (h : Undecided w F E v seen u) (hc : Committee w.oracle)
    (hF : F.card < w.oracle.quorum) (hfollows : ∀ s ∈ l, w.Follows F E v s)
    (hframe : ∀ s ∈ l, w.oracle._getBeaconSpec.InFrame E s.call.timestamp) :
    (∃ t seen', w.pushVariant S E v = .ok t ∧
      Decided t F E seen' ((machine S).attemptAll u (l.map Attempt.toEvent))) ∨
    ∃ seen', Undecided w F E v seen' ((machine S).attemptAll u (l.map Attempt.toEvent)) ∧
      (∀ b ∈ seen, b.1 ∉ F → b ∈ seen') ∧
      ((w.pushVariant S E v).isOk = true → ∀ s ∈ l, s.call.sender ∈ w.oracle.members →
        s.call.sender ∉ F → (s.call.sender, v) ∈ seen') := by
  induction l generalizing seen u with
  | nil => exact .inr ⟨seen, h, fun b hb _ ↦ hb, by simp⟩
  | cons s l ih =>
    rw [List.forall_mem_cons] at hfollows hframe
    rw [List.map_cons, Machine.attemptAll_cons]
    rcases h.attempt (S := S) hc hF hfollows.1 hframe.1 with hpush | ⟨mid, hmid, hkept, hcast⟩
    · have hsane := OracleSane.pushed hc (_push_ok hpush)
      obtain ⟨pre, post, elapsed, _, horacle, _⟩ := (_push_ok hpush).oracle
      have hdecided : Decided _ F E [] _ := .of_push hc hpush hframe.1
      obtain ⟨seen', hseen⟩ := hdecided.attemptAll (S := S) (v := v) (l := l) hsane.committee
        (by rwa [horacle]) (by simpa only [Follows, horacle] using hfollows.2)
        (by rw [horacle]; exact hframe.2)
      exact .inl ⟨_, seen', hpush, hseen⟩
    · refine (ih hmid hfollows.2 hframe.2).imp_right fun ⟨seen', hlast, hkept', hcast'⟩ ↦ ?_
      refine ⟨seen', hlast, fun b hb hnot ↦ hkept' b (hkept b hb hnot) hnot, fun haccepted ↦ ?_⟩
      refine List.forall_mem_cons.mpr ⟨fun hmember hnot ↦ ?_, hcast' haccepted⟩
      exact hkept' _ (hcast haccepted hmember hnot) hnot

theorem Undecided.of_reachable {reports : List MemberReport}
    (h : Reachable (oracleSystem S) (w, reports)) (hF : F.card < w.oracle.quorum)
    (hE : w.oracle.expectedEpochId ≤ E)
    (hreports : ∀ r ∈ reports, r.member ∈ F ∨ r.epochId = E ∧ r.variant = v) :
    Undecided w F E v (reports.map MemberReport.ballot) w := by
  have hsane := oracleSane h
  have hvariants : (reports.map MemberReport.ballot).map Prod.snd =
      reports.map MemberReport.variant := by
    rw [List.map_map]
    rfl
  have hloyal : ∀ b ∈ reports.map MemberReport.ballot,
      b.1 ∈ F ∨ b.2 = v ∧ w.oracle.expectedEpochId = E := by
    intro b hb
    obtain ⟨r, hr, rfl⟩ := List.mem_map.mp hb
    exact (hreports r hr).imp_right fun ⟨hepoch, hv⟩ ↦ ⟨hv, (hsane.epochs r hr).symm.trans hepoch⟩
  have hother (c : Variant) (hc : c ≠ v) : support c (reports.map MemberReport.variant) <
      w.oracle.quorum := by
    rw [← hvariants]
    refine (support_le_card hsane.represents.voters fun b hb hbc ↦ ?_).trans_lt hF
    exact (hloyal b hb).resolve_right fun hv ↦ hc (hbc.symm.trans hv.1)
  refine ⟨⟨⟨_, _, _, rfl⟩, hsane.represents⟩, hE, hloyal, ?_⟩
  rw [hvariants]
  by_contra hq
  -- A variant with the quorum shares the first place, with one of the faulty.
  have hmem : v ∈ reports.map MemberReport.variant :=
    support_pos.mp (hsane.committee.quorum_pos.trans_le (Nat.le_of_not_lt hq))
  obtain ⟨y, hy, z, hz, hne, heq, hmax⟩ := exists_tied hsane.settled
    (mem_tally.mpr ⟨hmem, rfl⟩) (Nat.le_of_not_lt hq)
  have hle := hmax _ (mem_tally.mpr ⟨hmem, rfl⟩)
  have hyv : y.1 = v := by
    by_contra hyv
    have hlt := hother y.1 hyv
    rw [(mem_tally.mp hy).2] at hlt
    omega
  have hzv : z.1 = v := by
    by_contra hzv
    have hlt := hother z.1 hzv
    rw [(mem_tally.mp hz).2] at hlt
    omega
  exact hne (Prod.ext (hyv.trans hzv.symm) heq)

end Faults

end OracleWorld

/-- Fewer faulty members than the quorum, in whatever order all report: nothing is pushed in
a frame but the report that the others agree on, and that once. If the pool takes it, it is
pushed when a quorum of the others has reported. -/
theorem faulty_minority_decides_nothing {F : Finset Address} {E : ℕ} {v : Variant}
    {l : List Attempt} {reports : List MemberReport}
    (h : Reachable (oracleSystem S) (w, reports)) (hF : F.card < w.oracle.quorum)
    (hE : w.oracle.expectedEpochId ≤ E)
    (hreports : ∀ r ∈ reports, r.member ∈ F ∨ r.epochId = E ∧ r.variant = v)
    (hfollows : ∀ s ∈ l, w.Follows F E v s)
    (hframe : ∀ s ∈ l, w.oracle._getBeaconSpec.InFrame E s.call.timestamp) :
    let w' := (OracleWorld.machine S).attemptAll w (l.map Attempt.toEvent)
    (w'.pushes = w.pushes ∧ w'.outside = w.outside ∧
      ((w._push S E (denominationOffset * v.1.toNat) v.2.toNat
          w.oracle._getBeaconSpec).isOk = true →
        ∀ A : Finset Address, (∀ a ∈ A, a ∈ w.oracle.members ∧ a ∉ F ∧
          (a ∈ reports.map MemberReport.member ∨ ∃ s ∈ l, s.call.sender = a)) →
          A.card < w.oracle.quorum)) ∨
    ∃ t elapsed, w._push S E (denominationOffset * v.1.toNat) v.2.toNat
        w.oracle._getBeaconSpec = .ok t ∧ w'.outside = t.outside ∧
      w'.pushes = w.pushes ++ [⟨E, denominationOffset * v.1.toNat, v.2.toNat, elapsed⟩] := by
  intro w'
  have hsane := oracleSane h
  have hstart := OracleWorld.Undecided.of_reachable h hF hE hreports
  rcases hstart.attemptAll hsane.committee hF hfollows hframe with
    ⟨t, seen', hpush, hend⟩ | ⟨seen', hend, hkept, hcast⟩
  · obtain ⟨_, _, elapsed, _, _, hpushes⟩ := (OracleWorld._push_ok hpush).oracle
    exact .inr ⟨t, elapsed, hpush, hend.voted.outside_eq, hend.voted.pushes_eq.trans hpushes⟩
  · refine .inl ⟨hend.voted.pushes_eq, hend.voted.outside_eq, fun haccepted A hA ↦ ?_⟩
    refine (card_le_support fun a ha ↦ ?_).trans_lt hend.support_lt
    obtain ⟨hmember, hnot, hreported | ⟨s, hs, rfl⟩⟩ := hA a ha
    · obtain ⟨r, hr, rfl⟩ := List.mem_map.mp hreported
      have hv := ((hreports r hr).resolve_left hnot).2
      exact hkept _ (hv ▸ List.mem_map_of_mem hr) hnot
    · exact hcast haccepted s hs hmember hnot

namespace Sample

def attempt (sender : Address) (second : UInt64) (epochId : ℕ) (beaconBalance : UInt64) :
    Attempt :=
  { submission sender second beaconBalance with epochId }

def attempts : List Attempt :=
  [attempt 13 3840 10 5, attempt 11 3850 10 0, attempt 13 3860 10 0, attempt 12 3870 10 0,
    attempt 13 3880 20 5]

theorem attempts_inFrame : ∀ s ∈ attempts, beaconSpec.InFrame 10 s.call.timestamp := by
  intro s hs
  simp only [attempts, List.mem_cons, List.not_mem_nil, or_false] at hs
  rcases hs with rfl | rfl | rfl | rfl | rfl
  all_goals exact ⟨by decide, 10, by decide +kernel, by decide +kernel⟩

theorem one_of_three_decides_nothing : ∃ w reports elapsed,
    Reachable (oracleSystem surroundings) (w, reports) ∧ readyFor w ∧
      ((OracleWorld.machine surroundings).attemptAll w (attempts.map Attempt.toEvent)).pushes =
        w.pushes ++ [⟨10, denominationOffset * 0, 0, elapsed⟩] := by
  have hrun : reaches (oracleSystem surroundings) (oracleStart, []) membersRun (fun s ↦
      decide (readyFor s.1 ∧ s.2.length = 0 ∧ (s.1._push surroundings 10
        (denominationOffset * 0) 0 s.1.oracle._getBeaconSpec).isOk = true)) = true := by
    decide +kernel
  have hstart : Reachable (oracleSystem surroundings) (oracleStart, []) :=
    .initial ⟨oracleStart_initial, rfl⟩
  obtain ⟨⟨w, reports⟩, h, hp⟩ := hstart.of_reaches hrun
  obtain ⟨hready, hnone, haccepted⟩ := of_decide_eq_true hp
  obtain ⟨_, _, hmembers, hquorum, hexpected, hspec, _⟩ := id hready
  cases List.eq_nil_of_length_eq_zero hnone
  have hdecided := faulty_minority_decides_nothing (F := {13}) (E := 10) (v := (0, 0))
    (l := attempts) h (by rw [hquorum]; decide) hexpected.le (by simp)
    (fun s hs _ hnot ↦ ?_) (by rw [hspec]; exact attempts_inFrame)
  · rcases hdecided with ⟨_, _, hfew⟩ | ⟨_, elapsed, _, _, hpushes⟩
    · refine absurd (hfew haccepted {11, 12} fun a ha ↦ ?_) (by rw [hquorum]; decide)
      rw [Finset.mem_insert, Finset.mem_singleton] at ha
      rw [hmembers]
      rcases ha with rfl | rfl
      · exact ⟨by decide, by decide, .inr ⟨attempt 11 3850 10 0, by simp [attempts], rfl⟩⟩
      · exact ⟨by decide, by decide, .inr ⟨attempt 12 3870 10 0, by simp [attempts], rfl⟩⟩
    · exact ⟨w, [], elapsed, h, hready, hpushes⟩
  · simp only [attempts, List.mem_cons, List.not_mem_nil, or_false] at hs
    rcases hs with rfl | rfl | rfl | rfl | rfl
    · exact absurd (by decide) hnot
    · exact ⟨rfl, rfl⟩
    · exact absurd (by decide) hnot
    · exact ⟨rfl, rfl⟩
    · exact absurd (by decide) hnot

end Sample

end LidoDao
