import LidoDao.Library.Maxima
import LidoDao.OracleReports

namespace LidoDao

open Evm Library.Outcome Library.Maxima ReportUtils

namespace LidoOracle

variable {o o' : LidoOracle} {vs : List ℕ} {q : ℕ}

def countOf (variant : ℕ) : ℕ := (getCount variant).toNat

/-- Counts as they are stored: no more than there can be members. -/
def Counted (vs : List ℕ) : Prop := ∀ v ∈ vs, 1 ≤ countOf v ∧ countOf v ≤ 256

theorem mostFrequent_congr {us : List ℕ} (h : us.map getCount = vs.map getCount) (i : ℕ)
    (best : ℕ × ℕ × UInt16) : mostFrequent i us best = mostFrequent i vs best := by
  induction us generalizing vs i best with
  | nil =>
    obtain rfl : vs = [] := List.map_eq_nil_iff.mp h.symm
    rfl
  | cons u us ih =>
    cases vs with
    | nil => cases h
    | cons v vs =>
      obtain ⟨hcount, hrest⟩ := List.cons.inj h
      obtain ⟨maxind, repeated, maxval⟩ := best
      simp only [mostFrequent, hcount, ih hrest]

theorem mostFrequent_of_counted (h : Counted vs) :
    MostFrequent (vs.map fun v ↦ ((0, 0), countOf v)) (mostFrequent 0 vs (0, 0, 0)) := by
  have hcountable : Countable (vs.map fun v ↦ ((0, 0), countOf v)) := by
    intro x hx
    obtain ⟨v, hv, rfl⟩ := List.mem_map.mp hx
    exact h v hv
  have hstart : MostFrequent [] (0, 0, 0) :=
    ⟨fun _ h ↦ (List.not_mem_nil h).elim, fun h ↦ absurd rfl h, fun _ ↦ rfl⟩
  have hsame : ((vs.map fun v ↦ ((0, 0), countOf v)).map pack).map getCount = vs.map getCount := by
    rw [List.map_map, List.map_map]
    refine List.map_congr_left fun v _ ↦ UInt16.toNat_inj.mp ?_
    exact toNat_getCount_pack (getCount v).toNat_lt
  have hloop := mostFrequent_ok hcountable hstart
  rwa [List.nil_append, List.length_nil, mostFrequent_congr hsame] at hloop

theorem mostFrequent_leader (h : Counted vs) (hne : vs ≠ []) {maxind repeated : ℕ}
    {maxval : UInt16} (hbest : mostFrequent 0 vs (0, 0, 0) = (maxind, repeated, maxval)) :
    ∃ report, vs[maxind]? = some report ∧ countOf report = maxval.toNat ∧
      report ∈ maxima countOf vs ∧ (maxima countOf vs).length = repeated + 1 := by
  have hloop := mostFrequent_of_counted h
  rw [hbest] at hloop
  obtain ⟨x, hx, hval, hcount⟩ := hloop.found (by simpa using hne)
  rw [List.getElem?_map] at hx
  obtain ⟨report, hreport, rfl⟩ := Option.map_eq_some_iff.mp hx
  have hval' : countOf report = maxval.toNat := hval
  have hmem := List.mem_of_getElem? hreport
  have hle : ∀ v ∈ vs, countOf v ≤ countOf report := by
    intro v hv
    rw [hval']
    exact hloop.le _ (List.mem_map_of_mem hv)
  have hmaxima := maxima_eq_filter hle hmem rfl
  refine ⟨report, hreport, hval', ?_, ?_⟩
  · rw [hmaxima]
    exact List.mem_filter.mpr ⟨hmem, decide_eq_true rfl⟩
  · rw [hmaxima, ← List.countP_eq_length_filter]
    rw [List.countP_map] at hcount
    exact hcount

theorem mostFrequent_zero_iff (h : Counted vs) (hne : vs ≠ []) {maxind repeated : ℕ}
    {maxval : UInt16} (hbest : mostFrequent 0 vs (0, 0, 0) = (maxind, repeated, maxval))
    {report : ℕ} (hreport : vs[maxind]? = some report) :
    (repeated = 0 ↔ maxima countOf vs = [report]) ∧
      ∀ v, maxima countOf vs = [v] → v = report := by
  obtain ⟨_, hreport', _, hmem, hlength⟩ := mostFrequent_leader h hne hbest
  obtain rfl := Option.some.inj (hreport.symm.trans hreport')
  have honly : ∀ v, maxima countOf vs = [v] → v = report := by
    intro v hv
    rw [hv, List.mem_singleton] at hmem
    exact hmem.symm
  refine ⟨⟨fun hzero ↦ ?_, fun hone ↦ ?_⟩, honly⟩
  · rw [hzero] at hlength
    obtain ⟨v, hv⟩ := List.length_eq_one_iff.mp hlength
    rw [hv, honly v hv]
  · rw [hone] at hlength
    exact (Nat.succ.inj hlength).symm

theorem _getQuorumReport_loop (ho : o.currentReportVariants = vs) (h : Counted vs)
    (hne : vs ≠ []) {maxind repeated : ℕ} {maxval : UInt16}
    (hbest : mostFrequent 0 vs (0, 0, 0) = (maxind, repeated, maxval)) :
    ∃ report, vs[maxind]? = some report ∧
      o._getQuorumReport q = .ok (decide (q ≤ maxval.toNat ∧ repeated = 0), report) := by
  obtain ⟨report, hreport, _⟩ := mostFrequent_leader h hne hbest
  refine ⟨report, hreport, ?_⟩
  rw [_getQuorumReport, ho]
  match vs, hne with
  | [v], _ =>
    have hpos : getCount v ≠ 0 := by
      intro hzero
      have hcount := (h v List.mem_cons_self).1
      rw [countOf, hzero] at hcount
      exact Nat.not_succ_le_zero 0 hcount
    have hle : 0 ≤ getCount v := UInt16.le_iff_toNat_le.mpr (Nat.zero_le _)
    have hsingle : mostFrequent 0 [v] (0, 0, 0) = (0, 0, getCount v) := by
      simp only [mostFrequent, if_neg hpos, if_pos hle]
    rw [hsingle] at hbest
    cases hbest
    obtain rfl : v = report := Option.some.inj hreport
    simp only [and_true]
  | v :: v' :: vs, _ =>
    simp only [hbest, hreport]

/-- There is a quorum if one variant alone has the greatest count and it is large enough. -/
theorem _getQuorumReport_maxima (ho : o.currentReportVariants = vs) (h : Counted vs)
    (q : ℕ) : ∃ b report, o._getQuorumReport q = .ok (b, report) ∧
      (b = true ↔ ∃ v, maxima countOf vs = [v] ∧ q ≤ countOf v) ∧
      ∀ v, maxima countOf vs = [v] → v = report := by
  by_cases hne : vs = []
  · refine ⟨false, 0, ?_, ?_, ?_⟩
    · rw [_getQuorumReport, ho, hne]
    · simp [hne, maxima]
    · simp [hne, maxima]
  · obtain ⟨⟨maxind, repeated, maxval⟩, hbest⟩ : ∃ best, mostFrequent 0 vs (0, 0, 0) = best :=
      ⟨_, rfl⟩
    obtain ⟨report, hreport, hanswer⟩ := _getQuorumReport_loop (q := q) ho h hne hbest
    obtain ⟨hzero, honly⟩ := mostFrequent_zero_iff h hne hbest hreport
    obtain ⟨report', hreport', hval, _⟩ := mostFrequent_leader h hne hbest
    obtain rfl : report = report' := Option.some.inj (hreport.symm.trans hreport')
    refine ⟨_, report, hanswer, ?_, honly⟩
    rw [decide_eq_true_iff, ← hval, hzero]
    constructor
    · intro h
      obtain ⟨hle, hone⟩ := h
      exact ⟨report, hone, hle⟩
    · intro h
      obtain ⟨v, hone, hle⟩ := h
      obtain rfl := honly v hone
      exact ⟨hle, hone⟩

theorem _getQuorumReport_perm (ho : o.currentReportVariants = vs) (h : Counted vs)
    (hperm : o'.currentReportVariants.Perm vs) {isQuorum : Bool} {report : ℕ}
    (hanswer : o._getQuorumReport q = .ok (isQuorum, report)) :
    ∃ report', o'._getQuorumReport q = .ok (isQuorum, report') ∧
      (isQuorum = true → decode report' = decode report) := by
  have h' : Counted o'.currentReportVariants := fun v hv ↦ h v (hperm.mem_iff.mp hv)
  obtain ⟨b, r, hbr, hiff, honly⟩ := _getQuorumReport_maxima ho h q
  obtain ⟨b', report', hanswer', hiff', honly'⟩ := _getQuorumReport_maxima rfl h' q
  have heq := hbr.symm.trans hanswer
  cases heq
  have hsame : ∀ v, maxima countOf o'.currentReportVariants = [v] ↔ maxima countOf vs = [v] := by
    intro v
    rw [← List.perm_singleton, ← List.perm_singleton]
    exact ⟨(maxima_perm hperm.symm).trans, (maxima_perm hperm).trans⟩
  have hb : b' = isQuorum := by
    rw [Bool.eq_iff_iff, hiff, hiff']
    simp only [hsame]
  refine ⟨report', hb ▸ hanswer', fun htrue ↦ ?_⟩
  obtain ⟨v, hone, _⟩ := hiff.mp htrue
  rw [← honly v hone, ← honly' v ((hsame v).mpr hone)]

/-- A quorum is found if and only if one position alone has the greatest count, of at least the
quorum. The variant there is the report, and no order of the variants makes a difference. -/
theorem quorum_report_is_the_leader (ho : o.currentReportVariants = vs) (h : Counted vs)
    (hq : 1 ≤ q) : ∃ isQuorum report, o._getQuorumReport q = .ok (isQuorum, report) ∧
      (isQuorum = true ↔ ∃ i v : ℕ, (∀ j, AttainsMaximum countOf vs j ↔ j = i) ∧
        vs[i]? = some v ∧ q ≤ countOf v) ∧
      (isQuorum = true → ∀ i, AttainsMaximum countOf vs i → vs[i]? = some report) ∧
      (∀ maxind repeated : ℕ, ∀ maxval : UInt16,
        mostFrequent 0 vs (0, 0, 0) = (maxind, repeated, maxval) →
          isQuorum = decide (q ≤ maxval.toNat ∧ repeated = 0) ∧
          (vs ≠ [] → vs[maxind]? = some report)) ∧
      ∀ o' : LidoOracle, o'.currentReportVariants.Perm vs →
        ∃ report', o'._getQuorumReport q = .ok (isQuorum, report') ∧
          (isQuorum = true → decode report' = decode report) := by
  obtain ⟨isQuorum, report, hanswer, hiff, honly⟩ := _getQuorumReport_maxima ho h q
  refine ⟨isQuorum, report, hanswer, ?_, ?_, ?_, ?_⟩
  · rw [hiff]
    constructor
    · intro h'
      obtain ⟨v, hone, hle⟩ := h'
      obtain ⟨i, hi, hunique⟩ := maxima_eq_singleton_iff.mp hone
      exact ⟨i, v, hunique, hi, hle⟩
    · intro h'
      obtain ⟨i, v, hunique, hi, hle⟩ := h'
      exact ⟨v, maxima_eq_singleton_iff.mpr ⟨i, hi, hunique⟩, hle⟩
  · intro htrue i hi
    obtain ⟨v, hone, _⟩ := hiff.mp htrue
    obtain ⟨j, hj, hunique⟩ := maxima_eq_singleton_iff.mp hone
    rw [(hunique i).mp hi, hj, honly v hone]
  · intro maxind repeated maxval hbest
    by_cases hne : vs = []
    · subst hne
      cases hbest
      rw [_getQuorumReport, ho] at hanswer
      cases hanswer
      refine ⟨(decide_eq_false fun hle ↦ ?_).symm, fun hne ↦ absurd rfl hne⟩
      exact Nat.not_succ_le_zero 0 (hq.trans hle.1)
    · obtain ⟨report', hreport', hanswer'⟩ := _getQuorumReport_loop (q := q) ho h hne hbest
      rw [hanswer] at hanswer'
      cases hanswer'
      exact ⟨rfl, fun _ ↦ hreport'⟩
  · exact fun o' hperm ↦ _getQuorumReport_perm ho h hperm hanswer

def sevenReports : LidoOracle :=
  { blank with currentReportVariants := [encode 5 1 + 2, encode 6 1 + 3, encode 5 2 + 2] }

theorem three_of_seven_lead : ∃ report, sevenReports._getQuorumReport 3 = .ok (true, report) ∧
    decode report = (6, 1) ∧
    ∀ o' : LidoOracle, o'.currentReportVariants.Perm sevenReports.currentReportVariants →
      ∃ report', o'._getQuorumReport 3 = .ok (true, report') ∧ decode report' = (6, 1) := by
  have hcounted : Counted sevenReports.currentReportVariants := by
    intro v hv
    simp only [sevenReports, List.mem_cons, List.not_mem_nil, or_false] at hv
    rcases hv with rfl | rfl | rfl
    all_goals decide +kernel
  obtain ⟨isQuorum, report, hanswer, _, _, _, hperm⟩ :=
    quorum_report_is_the_leader (q := 3) rfl hcounted (by decide)
  have hrun : sevenReports._getQuorumReport 3 = .ok (true, encode 6 1 + 3) := by decide +kernel
  have hdecode : decode (encode 6 1 + 3) = (6, 1) := by decide +kernel
  rw [hrun] at hanswer
  cases hanswer
  refine ⟨_, hrun, hdecode, fun o' ho' ↦ ?_⟩
  obtain ⟨report', hanswer', hsame⟩ := hperm o' ho'
  exact ⟨report', hanswer', (hsame rfl).trans hdecode⟩

end LidoOracle

end LidoDao
