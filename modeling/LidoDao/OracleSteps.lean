import LidoDao.OracleReports

namespace LidoDao

open Evm Library.Outcome Library.Ballots ReportUtils

namespace LidoOracle

variable {o o' : LidoOracle} {a : Address} {i j : ℕ}

theorem lt_memberNotFound (h : i ≤ 256) : i < memberNotFound := by
  have hword : 257 < wordLimit := by decide +kernel
  rw [memberNotFound]
  omega

section Bits

variable {mask : BitVec 256}

theorem getLsbD_bit (hi : i < 256) : (1#256 <<< i).getLsbD j = decide (j = i) := by
  rw [BitVec.getLsbD_shiftLeft, BitVec.getLsbD_one]
  by_cases hj : j = i
  · simp [hj, hi]
  · simp only [hj, decide_false]
    simp
    omega

theorem and_bit_eq_zero (hi : i < 256) : mask &&& 1#256 <<< i = 0 ↔ mask.getLsbD i = false := by
  constructor
  · intro h
    have hbit := congrArg (BitVec.getLsbD · i) h
    simpa [BitVec.getLsbD_and, getLsbD_bit hi] using hbit
  · intro h
    refine BitVec.eq_of_getLsbD_eq fun j _ ↦ ?_
    rw [BitVec.getLsbD_and, getLsbD_bit hi]
    by_cases hj : j = i
    · simp [hj, h]
    · simp [hj]

theorem getLsbD_or_bit (hi : i < 256) :
    (mask ||| 1#256 <<< i).getLsbD j = (mask.getLsbD j || decide (j = i)) := by
  rw [BitVec.getLsbD_or, getLsbD_bit hi]

end Bits

/-- What member management keeps true. -/
structure Committee (o : LidoOracle) : Prop where
  nodup : o.members.Nodup
  nonzero : 0 ∉ o.members
  length_le : o.members.length ≤ 256
  quorum_pos : 0 < o.quorum

section Members

theorem _getMemberId_eq (h : Committee o) (hi : o.members[i]? = some a) : o._getMemberId a = i := by
  obtain ⟨hlt, rfl⟩ := List.getElem?_eq_some_iff.mp hi
  have hfirst : o.members.idxOf? o.members[i] = some i := by
    refine List.idxOf?_eq_some_iff.mpr ⟨hlt, rfl, fun j hj heq ↦ ?_⟩
    exact Nat.ne_of_lt hj ((h.nodup.getElem_inj_iff).mp heq)
  rw [_getMemberId, hfirst]
  rfl

theorem _getMemberId_lt (h : a ∈ o.members) : o._getMemberId a < o.members.length := by
  rw [_getMemberId]
  cases hid : o.members.idxOf? a with
  | none => exact absurd h (List.idxOf?_eq_none_iff.mp hid)
  | some i =>
    obtain ⟨hlt, _, _⟩ := List.idxOf?_eq_some_iff.mp hid
    exact hlt

theorem _getMemberId_of_notMem (h : a ∉ o.members) : o._getMemberId a = memberNotFound := by
  rw [_getMemberId, List.idxOf?_eq_none_iff.mpr h]
  rfl

end Members

/-- The reports collected are these ballots: no member cast two, the bitmask shows
who cast one and the variants are their tally. -/
structure Represents (o : LidoOracle) (ballots : List (Address × Variant)) : Prop where
  voters : (ballots.map Prod.fst).Nodup
  members : ∀ b ∈ ballots, b.1 ∈ o.members
  bitmask : ∀ i, o.reportsBitmask.getLsbD i = true ↔
    ∃ m ∈ ballots.map Prod.fst, o.members[i]? = some m
  variants : o.currentReportVariants = (tally (ballots.map Prod.snd)).map pack

namespace Represents

variable {ballots : List (Address × Variant)}

theorem nil (hmask : o.reportsBitmask = 0) (hvariants : o.currentReportVariants = []) :
    Represents o [] := by
  refine ⟨.nil, by simp, ?_, hvariants⟩
  intro i
  rw [hmask]
  simp

theorem congr (h : Represents o ballots) (hmembers : o'.members = o.members)
    (hmask : o'.reportsBitmask = o.reportsBitmask)
    (hvariants : o'.currentReportVariants = o.currentReportVariants) :
    Represents o' ballots := by
  obtain ⟨hvoters, hin, hbits, htally⟩ := h
  rw [← hmembers] at hin hbits
  rw [← hmask] at hbits
  exact ⟨hvoters, hin, hbits, hvariants.trans htally⟩

theorem length_le (h : Represents o ballots) (hc : Committee o) : ballots.length ≤ 256 := by
  rw [← List.length_map (f := Prod.fst)]
  refine (List.Subperm.length_le (h.voters.subperm fun a ha ↦ ?_)).trans hc.length_le
  obtain ⟨b, hb, rfl⟩ := List.mem_map.mp ha
  exact h.members b hb

theorem countable (h : Represents o ballots) (hc : Committee o) :
    Countable (tally (ballots.map Prod.snd)) := by
  intro x hx
  obtain ⟨hpos, hle⟩ := bounds_of_mem_tally hx
  rw [List.length_map] at hle
  exact ⟨hpos, hle.trans (h.length_le hc)⟩

theorem cast (h : Represents o ballots) (hc : Committee o) (hi : o.members[i]? = some a)
    (ha : a ∉ ballots.map Prod.fst) (c : Variant) {variants : List ℕ}
    (hvariants : variants = (tally ((ballots ++ [(a, c)]).map Prod.snd)).map pack) :
    Represents { o with
      reportsBitmask := o.reportsBitmask ||| 1#256 <<< i
      currentReportVariants := variants } (ballots ++ [(a, c)]) := by
  have hlt : i < 256 := (List.getElem?_eq_some_iff.mp hi).1.trans_le hc.length_le
  refine ⟨?_, ?_, ?_, hvariants⟩
  · rw [List.map_append]
    exact List.nodup_append'.mpr ⟨h.voters, List.nodup_singleton a, by simpa using ha⟩
  · intro b hb
    rcases List.mem_append.mp hb with hb | hb
    · exact h.members b hb
    · rw [List.mem_singleton.mp hb]
      exact List.mem_of_getElem? hi
  · intro j
    rw [getLsbD_or_bit hlt, Bool.or_eq_true, h.bitmask, List.map_append]
    simp only [List.map_singleton, List.mem_append, List.mem_singleton]
    constructor
    · intro h
      rcases h with ⟨m, hm, hj⟩ | hj
      · exact ⟨m, .inl hm, hj⟩
      · rw [of_decide_eq_true hj]
        exact ⟨a, .inr rfl, hi⟩
    · intro h
      obtain ⟨m, hm | rfl, hj⟩ := h
      · exact .inl ⟨m, hm, hj⟩
      · have hij := (List.getElem?_inj (List.getElem?_eq_some_iff.mp hj).1 hc.nodup).mp
          (hj.trans hi.symm)
        exact .inr (decide_eq_true hij)

end Represents

section Opened

variable {ballots : List (Address × Variant)} {epochId : ℕ} {time : UInt64}

/-- The oracle once a report of an epoch is accepted: a later epoch starts afresh. -/
def opened (o : LidoOracle) (epochId : ℕ) : LidoOracle :=
  if o.expectedEpochId < epochId then o._clearReportingAndAdvanceTo epochId else o

/-- The ballots of an epoch that is reported. -/
def ballotsOf (o : LidoOracle) (epochId : ℕ) (ballots : List (Address × Variant)) :
    List (Address × Variant) :=
  if o.expectedEpochId < epochId then [] else ballots

theorem represents_opened (h : Represents o ballots) (epochId : ℕ) :
    Represents (opened o epochId) (ballotsOf o epochId ballots) := by
  rw [opened, ballotsOf]
  split
  · exact .nil rfl rfl
  · exact h

/-- An epoch that reports are accepted for: the expected one, or a later one that is
the first of the current frame. -/
def Reportable (o : LidoOracle) (epochId : ℕ) (time : UInt64) : Prop :=
  o.expectedEpochId ≤ epochId ∧ (o.expectedEpochId < epochId →
    ∃ current, _getCurrentEpochId o._getBeaconSpec time = .ok current ∧
      _getFrameFirstEpochId current o._getBeaconSpec = .ok epochId)

def marked (o : LidoOracle) (epochId i : ℕ) : LidoOracle :=
  { opened o epochId with
    reportsBitmask := (opened o epochId).reportsBitmask ||| 1#256 <<< i }

theorem opened_members (o : LidoOracle) (epochId : ℕ) : (opened o epochId).members = o.members := by
  rw [opened]
  split <;> rfl

theorem opened_quorum (o : LidoOracle) (epochId : ℕ) : (opened o epochId).quorum = o.quorum := by
  rw [opened]
  split <;> rfl

theorem committee_opened (h : Committee o) (epochId : ℕ) : Committee (opened o epochId) := by
  rw [opened]
  split
  · exact ⟨h.nodup, h.nonzero, h.length_le, h.quorum_pos⟩
  · exact h

theorem opened_expectedEpochId (hE : Reportable o epochId time) :
    (opened o epochId).expectedEpochId = epochId := by
  rw [opened]
  split
  · rfl
  · exact Nat.le_antisymm hE.1 (Nat.le_of_not_lt ‹_›)

end Opened

end LidoOracle

namespace OracleWorld

open LidoOracle

variable {X : Type} {S : OracleSurroundings X} {w w' : OracleWorld X}

/-- A report of an epoch was pushed to the pool: the collected ones are gone and the
next frame is expected. -/
structure Pushed (w : OracleWorld X) (epochId beaconBalanceEth1 beaconValidators : ℕ)
    (spec : BeaconSpec) (w' : OracleWorld X) : Prop where
  oracle : ∃ pre post elapsed,
    elapsed = (epochId + wordLimit - w.oracle.lastCompletedEpochId) % wordLimit *
      spec.slotsPerEpoch.toNat * spec.secondsPerSlot.toNat % wordLimit ∧
    w'.oracle = { w.oracle with
      reportsBitmask := 0
      currentReportVariants := []
      expectedEpochId := (epochId + spec.epochsPerFrame.toNat) % wordLimit
      preCompletedTotalPooledEther := pre
      postCompletedTotalPooledEther := post
      timeElapsed := elapsed
      lastCompletedEpochId := epochId } ∧
    w'.pushes = w.pushes ++ [⟨epochId, beaconBalanceEth1, beaconValidators, elapsed⟩]

theorem _push_ok {epochId beaconBalanceEth1 beaconValidators : ℕ} {spec : BeaconSpec}
    (h : w._push S epochId beaconBalanceEth1 beaconValidators spec = .ok w') :
    Pushed w epochId beaconBalanceEth1 beaconValidators spec w' := by
  simp only [_push, bind_eq_ok, pure_eq] at h
  obtain ⟨pre, _, outside, _, post, _, _, _, _, _, h⟩ := h
  split at h
  · obtain ⟨outside', _, h⟩ := bind_eq_ok.mp h
    cases h
    exact ⟨pre, post, _, rfl, rfl, rfl⟩
  · cases h
    exact ⟨pre, post, _, rfl, rfl, rfl⟩

section Count

variable {l : List Variant}

theorem pack_lt {x : Variant × ℕ} (hx : x.2 < 2 ^ 16) : pack x + 1 < wordLimit := by
  have hword : 2 ^ 113 < wordLimit := by decide +kernel
  have hb := x.1.1.toNat_lt
  have hv := x.1.2.toNat_lt
  have heq : pack x = 2 ^ 16 * (2 ^ 32 * x.1.1.toNat + x.1.2.toNat) + x.2 := pack_eq x.1 x.2
  omega

theorem count_report (ht : Countable (tally l)) (c : Variant) :
    match ((tally l).map pack)[matchingVariant ((tally l).map pack) (encode c.1 c.2)]? with
    | some variant => (getCount variant + 1).toNat = support c l + 1 ∧
        ((tally l).map pack).set (matchingVariant ((tally l).map pack) (encode c.1 c.2))
          ((variant + 1) % wordLimit) = (tally (l ++ [c])).map pack
    | none => support c l = 0 ∧
        (tally l).map pack ++ [encode c.1 c.2 + 1] = (tally (l ++ [c])).map pack := by
  have hvote := vote_eq c (tally l)
  rw [matchingVariant_pack ht, tally_concat, List.getElem?_map]
  cases hx : (tally l)[(tally l).findIdx fun x ↦ x.1 = c]? with
  | none =>
    rw [hx] at hvote
    refine ⟨?_, ?_⟩
    · by_contra hne
      have hmem : c ∈ l := support_pos.mp (Nat.pos_of_ne_zero hne)
      have hlt : ((tally l).findIdx fun x ↦ x.1 = c) < (tally l).length :=
        List.findIdx_lt_length.mpr ⟨_, mem_tally.mpr ⟨hmem, rfl⟩, by simp⟩
      rw [List.getElem?_eq_getElem hlt] at hx
      cases hx
    · rw [hvote, List.map_append]
      rfl
  | some x =>
    rw [hx] at hvote
    obtain ⟨hlt, hget⟩ := List.getElem?_eq_some_iff.mp hx
    have hfound := List.findIdx_getElem (w := hlt)
    rw [hget] at hfound
    have hc : x.1 = c := of_decide_eq_true hfound
    have hmem : x ∈ tally l := List.mem_of_getElem? hx
    have hcount : support c l = x.2 := hc ▸ (mem_tally.mp hmem).2
    have hval : (getCount (pack x)).toNat = x.2 := toNat_getCount_pack (ht.lt hmem)
    have hle := (ht x hmem).2
    refine ⟨?_, ?_⟩
    · have hone : (1 : UInt16).toNat = 1 := rfl
      rw [hcount, UInt16.toNat_add, hval, hone]
      omega
    · rw [hvote, Nat.mod_eq_of_lt (pack_lt (ht.lt hmem)), List.map_set]
      rfl

end Count

section Report

variable {ballots : List (Address × Variant)} {a : Address} {time : UInt64} {epochId i : ℕ}
  {c : Variant}

theorem reportBeacon_opened (hE : Reportable w.oracle epochId time) (S : OracleSurroundings X)
    (a : Address) (c : Variant) : w.reportBeacon S a time epochId c.1 c.2 =
      ({ w with oracle := opened w.oracle epochId } : OracleWorld X).reportBeacon S a time epochId
        c.1 c.2 := by
  by_cases hlt : w.oracle.expectedEpochId < epochId
  · obtain ⟨current, hcurrent, hfirst⟩ := hE.2 hlt
    have hopened : opened w.oracle epochId = w.oracle._clearReportingAndAdvanceTo epochId :=
      if_pos hlt
    have hexpected : (w.oracle._clearReportingAndAdvanceTo epochId).expectedEpochId = epochId := rfl
    rw [hopened]
    simp only [reportBeacon, require_of hE.1, hexpected, require_of le_rfl, lt_irrefl, if_pos hlt,
      if_false, hcurrent, hfirst, ok_bind, pure_eq, require_of]
    rfl
  · rw [opened, if_neg hlt]

theorem notMarked (hc : Committee w.oracle) (h : Represents w.oracle ballots)
    (hi : w.oracle.members[i]? = some a) :
    w.oracle.reportsBitmask &&& 1#256 <<< i = 0 ↔ a ∉ ballots.map Prod.fst := by
  have hlt : i < 256 := (List.getElem?_eq_some_iff.mp hi).1.trans_le hc.length_le
  rw [and_bit_eq_zero hlt, ← Bool.not_eq_true, h.bitmask]
  refine not_congr ⟨?_, fun ha ↦ ⟨a, ha, hi⟩⟩
  intro h
  obtain ⟨m, hm, hmi⟩ := h
  rwa [Option.some.inj (hi.symm.trans hmi)]

theorem reportBeacon_expected (hc : Committee w.oracle) (h : Represents w.oracle ballots)
    (hE : w.oracle.expectedEpochId = epochId) (hi : w.oracle.members[i]? = some a)
    (ha : a ∉ ballots.map Prod.fst) :
    w.reportBeacon S a time epochId c.1 c.2 =
      if w.oracle.quorum ≤ support c (ballots.map Prod.snd) + 1 then
        ({ w with oracle := { w.oracle with
          reportsBitmask := w.oracle.reportsBitmask ||| 1#256 <<< i } } : OracleWorld X)._push S
            epochId (denominationOffset * c.1.toNat) c.2.toNat w.oracle._getBeaconSpec
      else .ok { w with oracle := { w.oracle with
        reportsBitmask := w.oracle.reportsBitmask ||| 1#256 <<< i
        currentReportVariants := (tally ((ballots ++ [(a, c)]).map Prod.snd)).map pack } } := by
  have hlt : i < 256 := (List.getElem?_eq_some_iff.mp hi).1.trans_le hc.length_le
  have hid : i ≠ memberNotFound := Nat.ne_of_lt (lt_memberNotFound hlt.le)
  have hcount := count_report (h.countable hc) c
  rw [← h.variants] at hcount
  simp only [reportBeacon, hE, require_of le_rfl, lt_irrefl, if_false, ok_bind, pure_eq,
    require_of hid, _getMemberId_eq hc hi, require_of ((notMarked hc h hi).mpr ha)]
  rw [List.map_append, List.map_singleton]
  cases hx : w.oracle.currentReportVariants[matchingVariant w.oracle.currentReportVariants
      (encode c.1 c.2)]? with
  | some variant =>
    simp only [hx] at hcount ⊢
    rw [hcount.1, hcount.2]
  | none =>
    simp only [hx] at hcount ⊢
    have hq : w.oracle.quorum = 1 ↔ w.oracle.quorum ≤ 0 + 1 := by
      have hpos := hc.quorum_pos
      omega
    rw [hcount.1, hcount.2]
    simp only [hq]

theorem reportBeacon_eq (hc : Committee w.oracle) (h : Represents w.oracle ballots)
    (hE : Reportable w.oracle epochId time) (hi : w.oracle.members[i]? = some a)
    (ha : a ∉ (ballotsOf w.oracle epochId ballots).map Prod.fst) :
    w.reportBeacon S a time epochId c.1 c.2 =
      if w.oracle.quorum ≤ support c ((ballotsOf w.oracle epochId ballots).map Prod.snd) + 1 then
        ({ w with oracle := marked w.oracle epochId i } : OracleWorld X)._push S epochId
          (denominationOffset * c.1.toNat) c.2.toNat w.oracle._getBeaconSpec
      else .ok { w with oracle := { marked w.oracle epochId i with
        currentReportVariants :=
          (tally ((ballotsOf w.oracle epochId ballots ++ [(a, c)]).map Prod.snd)).map pack } } := by
  have hspec : (opened w.oracle epochId)._getBeaconSpec = w.oracle._getBeaconSpec := by
    rw [opened]
    split <;> rfl
  rw [reportBeacon_opened hE, ← hspec, ← opened_quorum w.oracle epochId]
  exact reportBeacon_expected (w := { w with oracle := opened w.oracle epochId })
    (committee_opened hc epochId) (represents_opened h epochId) (opened_expectedEpochId hE)
    (by rwa [opened_members]) ha

theorem reportBeacon_accepted (hc : Committee w.oracle) (h : Represents w.oracle ballots)
    (hr : w.reportBeacon S a time epochId c.1 c.2 = .ok w') :
    Reportable w.oracle epochId time ∧ ∃ i : ℕ, w.oracle.members[i]? = some a ∧
      a ∉ (ballotsOf w.oracle epochId ballots).map Prod.fst := by
  have hE : Reportable w.oracle epochId time := by
    have hchecks := hr
    simp only [reportBeacon, bind_eq_ok, require_eq_ok, exists_const] at hchecks
    obtain ⟨hle, hchecks⟩ := hchecks
    refine ⟨hle, fun hlt ↦ ?_⟩
    rw [if_pos hlt] at hchecks
    simp only [bind_eq_ok, require_eq_ok, exists_const] at hchecks
    obtain ⟨current, hcurrent, _, hfirst, rfl, _⟩ := hchecks
    exact ⟨current, hcurrent, hfirst⟩
  rw [reportBeacon_opened hE] at hr
  simp only [reportBeacon, opened_expectedEpochId hE, require_of le_rfl, lt_irrefl, if_false,
    ok_bind, pure_eq, bind_eq_ok, require_eq_ok, exists_const] at hr
  obtain ⟨hid, hmask, _⟩ := hr
  have ha : a ∈ (opened w.oracle epochId).members := by
    by_contra ha
    exact hid (_getMemberId_of_notMem ha)
  obtain ⟨i, hi⟩ : ∃ i : ℕ, (opened w.oracle epochId).members[i]? = some a :=
    List.mem_iff_getElem?.mp ha
  rw [_getMemberId_eq (committee_opened hc epochId) hi] at hmask
  have hnot := (notMarked (w := { w with oracle := opened w.oracle epochId })
    (committee_opened hc epochId) (represents_opened h epochId) hi).mp hmask
  rw [opened_members] at hi
  exact ⟨hE, i, hi, hnot⟩

end Report

end OracleWorld

end LidoDao
