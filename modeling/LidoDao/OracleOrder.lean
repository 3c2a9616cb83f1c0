import LidoDao.OracleEpochs
import LidoDao.OracleQuorum

namespace LidoDao

open Evm Library.Outcome Library.Ballots Library.Transition ReportUtils LidoOracle

variable {X : Type} {S : OracleSurroundings X} {w w' u : OracleWorld X}

/-- A call of `reportBeacon` for an epoch that is given. -/
structure Submission where
  call : OracleCall
  variant : Variant

namespace Submission

def event (epochId : ℕ) (s : Submission) : OracleEvent X :=
  .call s.call (.reportBeacon epochId s.variant.1 s.variant.2)

def ballot (s : Submission) : Address × Variant := (s.call.sender, s.variant)

end Submission

namespace OracleWorld

/-- A report of this variant is pushed, from a state without collected reports. -/
def pushVariant (S : OracleSurroundings X) (w : OracleWorld X) (epochId : ℕ) (v : Variant) :
    Except Revert (OracleWorld X) :=
  w._push S epochId (denominationOffset * v.1.toNat) v.2.toNat w.oracle._getBeaconSpec

/-- These reports of an epoch were collected since a state, and none was pushed. -/
structure Collecting (w : OracleWorld X) (epochId : ℕ) (seen : List (Address × Variant))
    (u : OracleWorld X) : Prop where
  same : ∃ expectedEpochId reportsBitmask currentReportVariants, u = { w with oracle :=
    { w.oracle with expectedEpochId, reportsBitmask, currentReportVariants } }
  represents : Represents u.oracle seen
  expected : u.oracle.expectedEpochId = epochId ∨ seen = [] ∧ u = w

namespace Collecting

variable {epochId first : ℕ} {seen : List (Address × Variant)} {a : Address} {time : UInt64}

theorem committee (h : Collecting w epochId seen u) (hc : Committee w.oracle) :
    Committee u.oracle := by
  obtain ⟨_, _, _, rfl⟩ := h.same
  exact ⟨hc.nodup, hc.nonzero, hc.length_le, hc.quorum_pos⟩

theorem pushes_eq (h : Collecting w epochId seen u) : u.pushes = w.pushes := by
  obtain ⟨_, _, _, rfl⟩ := h.same
  rfl

theorem members_eq (h : Collecting w epochId seen u) : u.oracle.members = w.oracle.members := by
  obtain ⟨_, _, _, rfl⟩ := h.same
  rfl

theorem reportable (h : Collecting w epochId seen u) (hE : Reportable w.oracle epochId time) :
    Reportable u.oracle epochId time := by
  rcases h.expected with heq | ⟨_, rfl⟩
  · exact ⟨heq.le, fun hlt ↦ absurd heq hlt.ne⟩
  · exact hE

theorem ballotsOf_eq (h : Collecting w epochId seen u) :
    u.oracle.ballotsOf epochId seen = seen := by
  rw [ballotsOf]
  rcases h.expected with heq | ⟨hnil, _⟩
  · rw [if_neg heq.not_lt]
  · rw [hnil, ite_self]

theorem report (h : Collecting w epochId seen u) (hc : Committee w.oracle)
    (hE : Reportable w.oracle epochId time) (hmember : a ∈ w.oracle.members)
    (ha : a ∉ seen.map Prod.fst) (v : Variant) :
    if w.oracle.quorum ≤ support v (seen.map Prod.snd) + 1 then
      u.reportBeacon S a time epochId v.1 v.2 = w.pushVariant S epochId v
    else ∃ u', u.reportBeacon S a time epochId v.1 v.2 = .ok u' ∧
      Collecting w epochId (seen ++ [(a, v)]) u' := by
  have hballots := h.ballotsOf_eq
  have hE' := h.reportable hE
  have hc' := h.committee hc
  have hr := h.represents
  obtain ⟨expectedEpochId, mask, variants, rfl⟩ := h.same
  obtain ⟨i, hi⟩ : ∃ i : ℕ, w.oracle.members[i]? = some a := List.mem_iff_getElem?.mp hmember
  have heq := reportBeacon_eq (S := S) (c := v) hc' hr hE' hi (by rwa [hballots])
  rw [hballots] at heq
  by_cases hq : w.oracle.quorum ≤ support v (seen.map Prod.snd) + 1
  · rw [if_pos hq] at heq ⊢
    rw [heq, marked, opened]
    split <;> rfl
  · rw [if_neg hq] at heq ⊢
    refine ⟨_, heq, ?_, ?_, ?_⟩
    · rw [marked, opened]
      split
      · exact ⟨_, _, _, rfl⟩
      · exact ⟨_, _, _, rfl⟩
    · have hopened := represents_opened hr epochId
      rw [hballots] at hopened
      exact hopened.cast (committee_opened hc' epochId) (by rwa [opened_members]) ha v rfl
    · exact .inl (opened_expectedEpochId hE')

end Collecting

section Late

variable {epochId first : ℕ} {v : Variant}

theorem rejected_after_push {s : Submission} (hc : Committee w.oracle)
    (hpush : w.pushVariant S epochId v = .ok w')
    (hframe : w.oracle._getBeaconSpec.InFrame first s.call.timestamp) (u : OracleWorld X) :
    (machine S).step w' (s.event epochId) ≠ .ok u := by
  intro hstep
  obtain ⟨pre, post, elapsed, _, horacle, _⟩ := (_push_ok hpush).oracle
  have hc' : Committee w'.oracle := by
    rw [horacle]
    exact ⟨hc.nodup, hc.nonzero, hc.length_le, hc.quorum_pos⟩
  have hnil : Represents w'.oracle [] := .nil (by rw [horacle]) (by rw [horacle])
  have hexpected : w'.oracle.expectedEpochId =
      (epochId + w.oracle._getBeaconSpec.epochsPerFrame.toNat) % wordLimit := by
    rw [horacle]
  have hspec : w'.oracle._getBeaconSpec = w.oracle._getBeaconSpec := by
    rw [horacle]
    rfl
  obtain ⟨⟨hle, hfirst⟩, _⟩ := reportBeacon_accepted (c := s.variant) hc' hnil hstep
  rw [hexpected] at hle hfirst
  obtain ⟨hlt, hne⟩ := advanced_ne hframe hle
  obtain ⟨current, hcurrent, hcurrentFirst⟩ := hfirst hlt
  obtain ⟨_, current', hcurrent', hfirst'⟩ := hframe
  rw [hspec] at hcurrent hcurrentFirst
  cases hcurrent.symm.trans hcurrent'
  cases hcurrentFirst.symm.trans hfirst'
  exact hne rfl

end Late

section Orders

variable {epochId first : ℕ} {seen : List (Address × Variant)} {l l₁ l₂ : List Submission}

/-- Reports of an epoch are submitted in an order: all of them are collected, or the
first that completes a quorum is pushed and the later ones are rejected. -/
theorem Collecting.attemptAll (h : Collecting w epochId seen u) (hc : Committee w.oracle)
    (hE : ∀ s ∈ l, Reportable w.oracle epochId s.call.timestamp)
    (hframe : ∀ s ∈ l, w.oracle._getBeaconSpec.InFrame first s.call.timestamp)
    (hmembers : ∀ s ∈ l, s.call.sender ∈ w.oracle.members)
    (hdistinct : ((seen ++ l.map Submission.ballot).map Prod.fst).Nodup)
    (haccepted : ∀ s ∈ l, (w.pushVariant S epochId s.variant).isOk = true) :
    match winner w.oracle.quorum (seen.map Prod.snd) (l.map Submission.variant) with
    | some v => w.pushVariant S epochId v =
        .ok ((machine S).attemptAll u (l.map (Submission.event epochId)))
    | none => Collecting w epochId (seen ++ l.map Submission.ballot)
        ((machine S).attemptAll u (l.map (Submission.event epochId))) := by
  induction l generalizing seen u with
  | nil => simpa [winner] using h
  | cons s l ih =>
    rw [List.forall_mem_cons] at hE hframe hmembers haccepted
    have hsplit : seen ++ (s :: l).map Submission.ballot =
        (seen ++ [s.ballot]) ++ l.map Submission.ballot := by
      rw [List.map_cons, List.append_assoc, List.singleton_append]
    rw [hsplit] at hdistinct
    have ha : s.call.sender ∉ seen.map Prod.fst := by
      rw [List.map_append, List.nodup_append', List.map_append, List.nodup_append'] at hdistinct
      intro hmem
      exact hdistinct.1.2.2 hmem (List.mem_singleton_self _)
    have hreport := h.report (S := S) hc hE.1 hmembers.1 ha s.variant
    rw [List.map_cons, List.map_cons, winner, Machine.attemptAll_cons]
    by_cases hq : w.oracle.quorum ≤ support s.variant (seen.map Prod.snd) + 1
    · rw [if_pos hq] at hreport ⊢
      obtain ⟨w', hpush⟩ := exists_of_isOk haccepted.1
      have hstep : (machine S).step u (s.event epochId) = .ok w' := hreport.trans hpush
      have hlate : ∀ e ∈ l.map (Submission.event epochId), ∀ t, (machine S).step w' e ≠ .ok t := by
        intro e he
        obtain ⟨s', hs', rfl⟩ := List.mem_map.mp he
        exact rejected_after_push hc hpush (hframe.2 s' hs')
      rw [Machine.attempt_ok hstep, Machine.attemptAll_rejected hlate]
      exact hpush
    · rw [if_neg hq] at hreport ⊢
      obtain ⟨u', hstep, hcollecting⟩ := hreport
      have hstep' : (machine S).step u (s.event epochId) = .ok u' := hstep
      have hih := ih hcollecting hE.2 hframe.2 hmembers.2 hdistinct haccepted.2
      rw [Machine.attempt_ok hstep', hsplit]
      rwa [List.map_append] at hih

theorem bitmask_eq {o o' : LidoOracle} {ballots ballots' : List (Address × Variant)}
    (h : Represents o ballots) (h' : Represents o' ballots') (hmembers : o.members = o'.members)
    (hperm : ballots.Perm ballots') : o.reportsBitmask = o'.reportsBitmask := by
  refine BitVec.eq_of_getLsbD_eq fun i _ ↦ ?_
  rw [Bool.eq_iff_iff, h.bitmask, h'.bitmask, hmembers]
  refine exists_congr fun m ↦ and_congr_left fun _ ↦ ?_
  exact (hperm.map Prod.fst).mem_iff

end Orders

end OracleWorld

section Order

variable {epochId first : ℕ} {l₁ l₂ : List Submission}

/-- Under a majority quorum two orders of the same reports of a frame end alike, if the
pushes of these reports go through. -/
theorem order_of_reports_does_not_matter (h : Reachable (OracleWorld.machine S) w)
    (hmask : w.oracle.reportsBitmask = 0) (hvariants : w.oracle.currentReportVariants = [])
    (hmajority : w.oracle.members.length < 2 * w.oracle.quorum)
    (hE : w.oracle.expectedEpochId = epochId ∨ w.oracle.expectedEpochId < epochId ∧ epochId = first)
    (hframe : ∀ s ∈ l₁ ++ l₂, w.oracle._getBeaconSpec.InFrame first s.call.timestamp)
    (hmembers : ∀ s ∈ l₁, s.call.sender ∈ w.oracle.members)
    (hdistinct : (l₁.map fun s ↦ s.call.sender).Nodup)
    (horder : (l₁.map Submission.ballot).Perm (l₂.map Submission.ballot))
    (haccepted : ∀ s ∈ l₁, (w._push S epochId (denominationOffset * s.variant.1.toNat)
      s.variant.2.toNat w.oracle._getBeaconSpec).isOk = true) :
    let w₁ := (OracleWorld.machine S).attemptAll w (l₁.map (Submission.event epochId))
    let w₂ := (OracleWorld.machine S).attemptAll w (l₂.map (Submission.event epochId))
    (w₁.pushes = w.pushes ∧ w₂.pushes = w.pushes ∧
      w₁.oracle.reportsBitmask = w₂.oracle.reportsBitmask ∧
      w₁.oracle.currentReportVariants.Perm w₂.oracle.currentReportVariants) ∨
    ∃ (v : Variant) (elapsed : ℕ),
      w₁.pushes = w.pushes ++ [⟨epochId, denominationOffset * v.1.toNat, v.2.toNat, elapsed⟩] ∧
      w₂.pushes = w.pushes ++ [⟨epochId, denominationOffset * v.1.toNat, v.2.toNat, elapsed⟩] ∧
      w₁.oracle.expectedEpochId = w₂.oracle.expectedEpochId ∧
      w₁.oracle.reportsBitmask = 0 ∧ w₂.oracle.reportsBitmask = 0 ∧
      w₁.oracle.currentReportVariants = [] ∧ w₂.oracle.currentReportVariants = [] := by
  intro w₁ w₂
  have hcommittee : Committee w.oracle := by
    obtain ⟨reports, hreports⟩ : ∃ reports, Reachable (oracleSystem S) (w, reports) :=
      h.exists_history
    exact (oracleSane hreports).committee
  have hstart : w.Collecting epochId [] w := ⟨⟨_, _, _, rfl⟩, .nil hmask hvariants, .inr ⟨rfl, rfl⟩⟩
  have hreportable {s : Submission} (hs : s ∈ l₁ ++ l₂) :
      Reportable w.oracle epochId s.call.timestamp := by
    rcases hE with heq | ⟨hlt, rfl⟩
    · exact ⟨heq.le, fun hlt ↦ absurd heq hlt.ne⟩
    · exact ⟨hlt.le, fun _ ↦ (hframe s hs).2⟩
  have hsenders (l : List Submission) :
      (l.map Submission.ballot).map Prod.fst = l.map fun s ↦ s.call.sender := by
    rw [List.map_map]
    rfl
  have hchoices (l : List Submission) :
      (l.map Submission.ballot).map Prod.snd = l.map Submission.variant := by
    rw [List.map_map]
    rfl
  have hsame {s : Submission} (hs : s ∈ l₂) : ∃ s' ∈ l₁, s'.ballot = s.ballot :=
    List.mem_map.mp (horder.mem_iff.mpr (List.mem_map_of_mem hs))
  have hmembers₂ : ∀ s ∈ l₂, s.call.sender ∈ w.oracle.members := by
    intro s hs
    obtain ⟨s', hs', heq⟩ := hsame hs
    have hsender : s'.call.sender = s.call.sender := congrArg Prod.fst heq
    exact hsender ▸ hmembers s' hs'
  have haccepted₂ : ∀ s ∈ l₂, (w.pushVariant S epochId s.variant).isOk = true := by
    intro s hs
    obtain ⟨s', hs', heq⟩ := hsame hs
    have hvariant : s'.variant = s.variant := congrArg Prod.snd heq
    exact hvariant ▸ haccepted s' hs'
  have hdistinct₁ : ((l₁.map Submission.ballot).map Prod.fst).Nodup := by rwa [hsenders]
  have hdistinct₂ : ((l₂.map Submission.ballot).map Prod.fst).Nodup :=
    (horder.map Prod.fst).nodup_iff.mp hdistinct₁
  have hrun₁ := hstart.attemptAll (S := S) (l := l₁) hcommittee
    (fun s hs ↦ hreportable (List.mem_append_left _ hs))
    (fun s hs ↦ hframe s (List.mem_append_left _ hs)) hmembers hdistinct₁ haccepted
  have hrun₂ := hstart.attemptAll (S := S) (l := l₂) hcommittee
    (fun s hs ↦ hreportable (List.mem_append_right _ hs))
    (fun s hs ↦ hframe s (List.mem_append_right _ hs)) hmembers₂ hdistinct₂ haccepted₂
  have hlength : (l₁.map Submission.variant).length < 2 * w.oracle.quorum := by
    have hsub : (l₁.map fun s ↦ s.call.sender).Subperm w.oracle.members := by
      refine hdistinct.subperm fun a ha ↦ ?_
      obtain ⟨s, hs, rfl⟩ := List.mem_map.mp ha
      exact hmembers s hs
    have hle := hsub.length_le
    rw [List.length_map] at hle ⊢
    exact hle.trans_lt hmajority
  have hperm := horder.map Prod.snd
  rw [hchoices, hchoices] at hperm
  have hwinner := winner_perm hperm hcommittee.quorum_pos hlength
  rw [List.map_nil] at hrun₁ hrun₂
  rw [← hwinner] at hrun₂
  cases hw : winner w.oracle.quorum [] (l₁.map Submission.variant) with
  | none =>
    rw [hw] at hrun₁ hrun₂
    have hmembers_eq := hrun₁.members_eq.trans hrun₂.members_eq.symm
    refine .inl ⟨hrun₁.pushes_eq, hrun₂.pushes_eq, ?_, ?_⟩
    · exact OracleWorld.bitmask_eq hrun₁.represents hrun₂.represents hmembers_eq horder
    · rw [hrun₁.represents.variants, hrun₂.represents.variants]
      exact (tally_perm (horder.map Prod.snd)).map pack
  | some v =>
    rw [hw] at hrun₁ hrun₂
    have heq : w₁ = w₂ := Except.ok.inj (hrun₁.symm.trans hrun₂)
    obtain ⟨_, _, elapsed, _, horacle, hpushes⟩ := (OracleWorld._push_ok hrun₁).oracle
    rw [← heq]
    refine .inr ⟨v, elapsed, hpushes, hpushes, rfl, ?_⟩
    have hmask₁ : w₁.oracle.reportsBitmask = 0 := by rw [horacle]
    have hvariants₁ : w₁.oracle.currentReportVariants = [] := by rw [horacle]
    exact ⟨hmask₁, hmask₁, hvariants₁, hvariants₁⟩

namespace Sample

def funded : World NodeOperatorsRegistry :=
  match execute (jointSystem deployment layout) start depositRun with
  | .ok w => w
  | .error _ => start

def membersRun : List (OracleEvent (World NodeOperatorsRegistry)) :=
  [.outside funded, oracleCall 1 0 (.addOracleMember 11), oracleCall 1 0 (.addOracleMember 12),
    oracleCall 1 0 (.addOracleMember 13), oracleCall 1 0 (.setQuorum 2)]

def submission (sender : Address) (second : UInt64) (beaconBalance : UInt64) : Submission where
  call := { sender, blockNumber := 10, canPerform := fun _ _ ↦ true
            timestamp := beaconSpec.genesisTime + second }
  variant := (beaconBalance, 0)

def readyFor (w : OracleWorld (World NodeOperatorsRegistry)) : Prop :=
  w.oracle.reportsBitmask = 0 ∧ w.oracle.currentReportVariants = [] ∧
    w.oracle.members = [11, 12, 13] ∧ w.oracle.quorum = 2 ∧ w.oracle.expectedEpochId = 10 ∧
    w.oracle._getBeaconSpec = beaconSpec ∧ w.pushes.length = 0
  deriving Decidable

def submitted (w : OracleWorld (World NodeOperatorsRegistry)) (l : List Submission) :
    OracleWorld (World NodeOperatorsRegistry) :=
  (OracleWorld.machine surroundings).attemptAll w (l.map (Submission.event 10))

/-- Two reports and one that is in conflict with them, in two orders. -/
theorem conflicting_reports_in_two_orders :
    ∃ w, Reachable (OracleWorld.machine surroundings) w ∧ ∃ (v : Variant) (elapsed : ℕ),
      (submitted w [submission 11 3840 0, submission 12 3850 5, submission 13 3860 0]).pushes =
        w.pushes ++ [⟨10, denominationOffset * v.1.toNat, v.2.toNat, elapsed⟩] ∧
      (submitted w [submission 12 3900 5, submission 13 3910 0, submission 11 3920 0]).pushes =
        w.pushes ++ [⟨10, denominationOffset * v.1.toNat, v.2.toNat, elapsed⟩] := by
  have hrun : reaches (OracleWorld.machine surroundings) oracleStart membersRun (fun w ↦
      decide (readyFor w ∧
        (w._push surroundings 10 (denominationOffset * 0) 0 w.oracle._getBeaconSpec).isOk = true ∧
        (w._push surroundings 10 (denominationOffset * 5) 0 w.oracle._getBeaconSpec).isOk = true ∧
        (submitted w [submission 11 3840 0, submission 12 3850 5,
          submission 13 3860 0]).pushes.length = 1)) = true := by
    decide +kernel
  obtain ⟨w, h, hp⟩ := (Reachable.initial oracleStart_initial).of_reaches hrun
  obtain ⟨⟨hmask, hvariants, hmembers, hquorum, hexpected, hspec, hpushes⟩, hzero, hfive, hone⟩ :=
    of_decide_eq_true hp
  have hframe (second : UInt64) (h : second ∈ [3840, 3850, 3860, 3900, 3910, 3920]) :
      beaconSpec.InFrame 10 (beaconSpec.genesisTime + second) := by
    simp only [List.mem_cons, List.not_mem_nil, or_false] at h
    rcases h with rfl | rfl | rfl | rfl | rfl | rfl
    all_goals exact ⟨by decide, 10, by decide +kernel, by decide +kernel⟩
  have hframes : ∀ s ∈ [submission 11 3840 0, submission 12 3850 5, submission 13 3860 0] ++
      [submission 12 3900 5, submission 13 3910 0, submission 11 3920 0],
      w.oracle._getBeaconSpec.InFrame 10 s.call.timestamp := by
    rw [hspec]
    intro s hs
    simp only [List.cons_append, List.nil_append, List.mem_cons, List.not_mem_nil, or_false] at hs
    rcases hs with rfl | rfl | rfl | rfl | rfl | rfl <;> exact hframe _ (by decide)
  have haccepted : ∀ s ∈ [submission 11 3840 0, submission 12 3850 5, submission 13 3860 0],
      (w._push surroundings 10 (denominationOffset * s.variant.1.toNat) s.variant.2.toNat
        w.oracle._getBeaconSpec).isOk = true := by
    intro s hs
    simp only [List.mem_cons, List.not_mem_nil, or_false] at hs
    rcases hs with rfl | rfl | rfl
    · exact hzero
    · exact hfive
    · exact hzero
  have horders := order_of_reports_does_not_matter h hmask hvariants
    (by rw [hmembers, hquorum]; decide) (.inl hexpected) hframes (by rw [hmembers]; decide)
    (by decide) (by decide) haccepted
  rcases horders with ⟨hnone, _⟩ | ⟨v, elapsed, h₁, h₂, _⟩
  · have hlength := congrArg List.length hnone
    rw [hpushes] at hlength
    exact absurd (hone.symm.trans hlength) (by decide)
  · exact ⟨w, h, v, elapsed, h₁, h₂⟩

/-- Two equal reports that the pool accepts but the bound on the increase does not: the
second is rejected, and the bitmask shows who came first. -/
theorem rejected_push_remembers_the_order :
    ∃ w, Reachable (OracleWorld.machine surroundings) w ∧ readyFor w ∧
      (∀ second : UInt64, second ∈ [3840, 3850] →
        w.oracle._getBeaconSpec.InFrame 10 (beaconSpec.genesisTime + second)) ∧
      (surroundings.handleOracleReport w.outside 0 (denominationOffset * 5000000)).isOk = true ∧
      (∀ addr x post pre elapsed,
        (surroundings.processLidoOracleReport addr x post pre elapsed).isOk = true) ∧
      (submitted w [submission 11 3840 5000000, submission 12 3850 5000000]).pushes = [] ∧
      (submitted w [submission 12 3840 5000000, submission 11 3850 5000000]).pushes = [] ∧
      (submitted w [submission 11 3840 5000000, submission 12 3850 5000000]).oracle.reportsBitmask ≠
        (submitted w [submission 12 3840 5000000,
          submission 11 3850 5000000]).oracle.reportsBitmask := by
  have hrun : reaches (OracleWorld.machine surroundings) oracleStart membersRun (fun w ↦
      decide (readyFor w ∧
        (surroundings.handleOracleReport w.outside 0 (denominationOffset * 5000000)).isOk = true ∧
        (submitted w [submission 11 3840 5000000, submission 12 3850 5000000]).pushes = [] ∧
        (submitted w [submission 12 3840 5000000, submission 11 3850 5000000]).pushes = [] ∧
        (submitted w [submission 11 3840 5000000,
            submission 12 3850 5000000]).oracle.reportsBitmask ≠
          (submitted w [submission 12 3840 5000000,
            submission 11 3850 5000000]).oracle.reportsBitmask)) = true := by
    decide +kernel
  obtain ⟨w, h, hp⟩ := (Reachable.initial oracleStart_initial).of_reaches hrun
  obtain ⟨hready, haccepts, hend⟩ := of_decide_eq_true hp
  have hspec : w.oracle._getBeaconSpec = beaconSpec := hready.2.2.2.2.2.1
  refine ⟨w, h, hready, fun second hsecond ↦ ?_, haccepts, fun _ _ _ _ _ ↦ rfl, hend⟩
  rw [hspec]
  simp only [List.mem_cons, List.not_mem_nil, or_false] at hsecond
  rcases hsecond with rfl | rfl
  all_goals exact ⟨by decide, 10, by decide +kernel, by decide +kernel⟩

end Sample

end Order

end LidoDao
