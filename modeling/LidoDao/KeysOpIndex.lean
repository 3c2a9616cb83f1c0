import LidoDao.AssignedKeys

namespace LidoDao

open Evm Library.Outcome Library.ByteWords Library.Transition Library.Positions NodeOperatorsRegistry

namespace NodeOperatorsRegistry

variable {L : SigningKeyLayout} {lido : Address} {r s r' s' : NodeOperatorsRegistry}
  {m : Message} {id n : ℕ}

/-- The operators, positions and keys that the pool can get at once, if it wants enough. -/
def depositable (L : SigningKeyLayout) (lido : Address) (r : NodeOperatorsRegistry) :
    Set (ℕ × ℕ × Bytes × Bytes) :=
  { x | (∃ wanted, Returns L lido r wanted x.1 x.2.1) ∧
    x.2.2 = _loadSigningKey L r x.1 x.2.1 }

/-- A report of so many more stopped validators makes no further key of an active
operator assignable: it has no key left, or its limit covers all of them, or the limit
stays exceeded. -/
def GainsNothing (r : NodeOperatorsRegistry) (id n : ℕ) : Prop :=
  (r.operators id).active = true →
    (r.operators id).totalSigningKeys = (r.operators id).usedSigningKeys ∨
    (r.operators id).totalSigningKeys ≤
      (r.operators id).stakingLimit + (r.operators id).stoppedValidators ∨
    (r.operators id).stakingLimit + (r.operators id).stoppedValidators + n ≤
      (r.operators id).usedSigningKeys

instance : Decidable (GainsNothing r id n) :=
  inferInstanceAs (Decidable (_ → _))

theorem depositable_subset (hs : Sane lido r) (hs' : Sane lido r') (hslots : r'.slots = r.slots)
    (hless : ∀ o, (r'.operators o).active = true → 0 < (r'.operators o).capacity →
      (r.operators o).active = true ∧
      (r'.operators o).usedSigningKeys = (r.operators o).usedSigningKeys ∧
      (r'.operators o).capacity ≤ (r.operators o).capacity) :
    depositable L lido r' ⊆ depositable L lido r := by
  intro entry h
  obtain ⟨o, i, key⟩ := entry
  obtain ⟨hreturns, hkey⟩ := h
  obtain ⟨hactive, hle, hlt⟩ := (exists_returns_iff hs').mp hreturns
  dsimp only at hactive hle hlt hkey
  obtain ⟨hactive, hused, hcapacity⟩ := hless o hactive (by omega)
  rw [hused] at hle hlt
  have hlt' : i < (r.operators o).usedSigningKeys + (r.operators o).capacity := by omega
  refine ⟨(exists_returns_iff hs).mpr ⟨hactive, hle, hlt'⟩, ?_⟩
  exact hkey.trans (_loadSigningKey_of_slots_eq hslots)

theorem depositable_setOperator_subset {id : ℕ} {f : NodeOperator → NodeOperator}
    (hs : Sane lido r) (hs' : Sane lido (r.setOperator id f))
    (hactive : (f (r.operators id)).active = (r.operators id).active)
    (hused : (f (r.operators id)).usedSigningKeys = (r.operators id).usedSigningKeys)
    (hcapacity : (f (r.operators id)).capacity = (r.operators id).capacity) :
    depositable L lido (r.setOperator id f) ⊆ depositable L lido r := by
  apply depositable_subset hs hs' rfl
  intro o hactive' _
  rw [setOperator_field NodeOperator.active hactive] at hactive'
  exact ⟨hactive', setOperator_field NodeOperator.usedSigningKeys hused o,
    (setOperator_field NodeOperator.capacity hcapacity o).le⟩

theorem removeKeys_keysOpIndex {o index amount : ℕ} (h : removeKeys L o index amount r = .ok r') :
    r'.keysOpIndex = r.keysOpIndex + amount := by
  induction amount generalizing r with
  | zero =>
    cases h
    rfl
  | succ amount ih =>
    obtain ⟨r₁, hr₁, h⟩ := bind_eq_ok.mp h
    obtain ⟨_, rfl⟩ := removeSigningKey_record hr₁
    rw [ih h]
    exact (Nat.add_right_comm ..).trans (Nat.add_assoc ..)

theorem Change.keysOpIndex_le (h : Change L r m r') : r.keysOpIndex ≤ r'.keysOpIndex := by
  cases h with
  | operatorAdded hr =>
    obtain ⟨_, _, rfl⟩ := addNodeOperator_ok hr
    exact le_rfl
  | activitySet hr =>
    obtain ⟨_, _, _, _, rfl⟩ := setNodeOperatorActive_ok hr
    exact Nat.le_succ _
  | renamed hr =>
    obtain ⟨_, rfl⟩ := setNodeOperatorName_ok hr
    exact le_rfl
  | addressSet hr =>
    obtain ⟨_, _, rfl⟩ := setNodeOperatorRewardAddress_ok hr
    exact le_rfl
  | limitSet hr =>
    obtain ⟨_, rfl⟩ := setNodeOperatorStakingLimit_ok hr
    exact Nat.le_succ _
  | stopped hr =>
    obtain ⟨_, _, rfl⟩ := reportStoppedValidators_ok hr
    exact le_rfl
  | trimmed => exact le_rfl
  | keysAdded _ hr =>
    obtain ⟨_, _, _, _, slots, rfl, _⟩ := _addSigningKeys_ok hr
    exact Nat.le_succ _
  | keysRemoved _ hr =>
    rw [removeKeys_keysOpIndex hr]
    exact Nat.le_add_right _ _
  | keysAssigned _ _ =>
    rw [handOut]
    dsimp only
    split
    · exact le_rfl
    · exact Nat.le_succ _

theorem capacity_stopped {o : NodeOperator} (hvalid : o.Valid) (hpos : 0 < n)
    (hle : o.stoppedValidators + n ≤ o.usedSigningKeys) :
    ({ o with stoppedValidators := o.stoppedValidators + n } : NodeOperator).capacity ≤ o.capacity ↔
      o.totalSigningKeys = o.usedSigningKeys ∨
      o.totalSigningKeys ≤ o.stakingLimit + o.stoppedValidators ∨
      o.stakingLimit + o.stoppedValidators + n ≤ o.usedSigningKeys := by
  have hused := hvalid.used
  simp only [NodeOperator.capacity]
  omega

/-- A report of stopped validators makes a further key depositable unless it gains nothing. -/
theorem depositable_stopped_iff {n : UInt64} (hs : Sane lido r)
    (hr : r.reportStoppedValidators id n = .ok r') :
    depositable L lido r' ⊆ depositable L lido r ↔ GainsNothing r id n.toNat := by
  have hs' := hs.reportStoppedValidators hr
  have hpos := reportStoppedValidators_pos hr
  obtain ⟨_, hle, rfl⟩ := reportStoppedValidators_ok hr
  have hcapacity := capacity_stopped (hs.valid id) hpos hle
  constructor
  · intro hsubset hactive
    rw [← hcapacity]
    by_contra hmore
    have hin : (id, (r.operators id).usedSigningKeys + (r.operators id).capacity,
        _loadSigningKey L r id ((r.operators id).usedSigningKeys + (r.operators id).capacity)) ∈
        depositable L lido (r.setOperator id fun o ↦
          { o with stoppedValidators := (r.operators id).stoppedValidators + n.toNat }) := by
      refine ⟨(exists_returns_iff hs').mpr ?_, (_loadSigningKey_of_slots_eq rfl).symm⟩
      rw [setOperator_self]
      dsimp only
      exact ⟨hactive, Nat.le_add_right _ _, by omega⟩
    obtain ⟨_, _, hlt⟩ := (exists_returns_iff hs).mp (hsubset hin).1
    exact absurd hlt (lt_irrefl _)
  · intro hgain
    apply depositable_subset hs hs' rfl
    intro o hactive _
    by_cases ho : o = id
    · subst ho
      rw [setOperator_self] at hactive ⊢
      exact ⟨hactive, rfl, hcapacity.mpr (hgain hactive)⟩
    · rw [setOperator_of_ne ho] at hactive ⊢
      exact ⟨hactive, rfl, le_rfl⟩

theorem Change.depositable_subset (h : Change L r m r') (hs : Sane lido r)
    (hindex : r'.keysOpIndex = r.keysOpIndex)
    (hstop : ∀ id n, m = .reportStoppedValidators id n → GainsNothing r id n.toNat) :
    depositable L lido r' ⊆ depositable L lido r := by
  have hs' := h.sane hs
  cases h with
  | operatorAdded hr =>
    obtain ⟨_, _, rfl⟩ := addNodeOperator_ok hr
    apply NodeOperatorsRegistry.depositable_subset hs hs' rfl
    intro o hactive hroom
    by_cases ho : o = r.totalOperatorsCount
    · subst ho
      have hnone := (hs.unused r.totalOperatorsCount le_rfl).2
      rw [setOperator_self] at hroom
      simp only [NodeOperator.capacity, hnone] at hroom
      omega
    · rw [setOperator_of_ne ho] at hactive ⊢
      exact ⟨hactive, rfl, le_rfl⟩
  | activitySet hr =>
    obtain ⟨_, _, _, _, rfl⟩ := setNodeOperatorActive_ok hr
    exact absurd hindex (Nat.succ_ne_self _)
  | renamed hr =>
    obtain ⟨_, rfl⟩ := setNodeOperatorName_ok hr
    exact depositable_setOperator_subset hs hs' rfl rfl rfl
  | addressSet hr =>
    obtain ⟨_, _, rfl⟩ := setNodeOperatorRewardAddress_ok hr
    exact depositable_setOperator_subset hs hs' rfl rfl rfl
  | limitSet hr =>
    obtain ⟨_, rfl⟩ := setNodeOperatorStakingLimit_ok hr
    exact absurd hindex (Nat.succ_ne_self _)
  | stopped hr => exact (depositable_stopped_iff hs hr).mpr (hstop _ _ rfl)
  | trimmed =>
    apply NodeOperatorsRegistry.depositable_subset hs hs' rfl
    intro o hactive hroom
    rcases Nat.lt_or_ge o r.totalOperatorsCount with ho | ho
    · rw [trimAll_operators_of_lt ho, NodeOperator.capacity, NodeOperatorsRegistry.trimmed] at hroom
      dsimp only at hroom
      omega
    · rw [trimAll_operators_of_le ho] at hactive ⊢
      exact ⟨hactive, rfl, le_rfl⟩
  | keysAdded _ hr =>
    obtain ⟨_, _, _, _, slots, rfl, _⟩ := _addSigningKeys_ok hr
    exact absurd hindex (Nat.succ_ne_self _)
  | @keysRemoved _ o index amount _ _ hr =>
    rw [removeKeys_keysOpIndex hr] at hindex
    obtain rfl : amount = 0 := by omega
    cases hr
    exact subset_rfl
  | @keysAssigned wanted n hplan _ =>
    have hnone : min wanted r.capacity = 0 := by
      by_contra hsome
      rw [handOut, if_neg hsome] at hindex
      exact absurd hindex (Nat.succ_ne_self _)
    have hzero (o : ℕ) : n o = 0 := by
      by_cases ho : o ∈ r.activeIds
      · have hsum := hplan.sum_activeIds.trans hnone
        exact List.sum_eq_zero_iff_forall_eq_nat.mp hsum _ (List.mem_map_of_mem ho)
      · exact hplan.inactive o ho
    have hsame : r.handOut wanted n = r := by
      rw [handOut, if_pos hnone, useKeys_zero hzero]
    rw [hsame]

/-- As long as the operation index stays, no further key becomes depositable, provided
the reports of stopped validators gain nothing; and those that gain something do make
a further key depositable. -/
theorem keysOpIndex_pins_keys_iff (h : Reachable (registrySystem L lido) s)
    (hrun : Runs (registrySystem L lido)
      (fun r e ↦ ∀ id n, e.2 = .reportStoppedValidators id n → GainsNothing r id n.toNat) s s') :
    (s'.keysOpIndex = s.keysOpIndex → depositable L lido s' ⊆ depositable L lido s) ∧
    ∀ c id n u, (registrySystem L lido).step s' (c, .reportStoppedValidators id n) = .ok u →
      u.keysOpIndex = s'.keysOpIndex ∧
      (depositable L lido u ⊆ depositable L lido s' ↔ GainsNothing s' id n.toNat) := by
  obtain ⟨hreach, hle, hsubset⟩ : Reachable (registrySystem L lido) s' ∧
      s.keysOpIndex ≤ s'.keysOpIndex ∧
      (s'.keysOpIndex = s.keysOpIndex → depositable L lido s' ⊆ depositable L lido s) := by
    apply hrun.invariant (P := fun t ↦ Reachable (registrySystem L lido) t ∧
      s.keysOpIndex ≤ t.keysOpIndex ∧
      (t.keysOpIndex = s.keysOpIndex → depositable L lido t ⊆ depositable L lido s))
    · intro t e u hstop hstopped hstep
      obtain ⟨hreach, hle, hsubset⟩ := hstopped
      have hchange := change hreach hstep
      have hle' := hchange.keysOpIndex_le
      refine ⟨hreach.step hstep, hle.trans hle', fun hindex ↦ ?_⟩
      have hfirst := hsubset (by omega)
      have hlast := hchange.depositable_subset (sane hreach) (by omega) hstop
      exact hlast.trans hfirst
    · exact ⟨h, le_rfl, fun _ ↦ subset_rfl⟩
  refine ⟨hsubset, fun c id n u hstep ↦ ?_⟩
  cases change hreach hstep with
  | stopped hr =>
    refine ⟨?_, depositable_stopped_iff (sane hreach) hr⟩
    obtain ⟨_, _, rfl⟩ := reportStoppedValidators_ok hr
    rfl
  | keysAdded hm _ | keysRemoved hm _ => cases hm

end NodeOperatorsRegistry

namespace Sample

def exhaustedRun : List (Call Role × Message) := [
  send 5 (.addNodeOperator "first" 11),
  send 5 (.addSigningKeys 0 4 (List.replicate 192 1) (List.replicate 384 2)),
  send 5 (.setNodeOperatorStakingLimit 0 3),
  send 1 (.assignNextSigningKeys 3)]

def reportOne : Call Role × Message := send 5 (.reportStoppedValidators 0 1)

/-- With the index unchanged, a report of a stopped validator makes the fourth key
depositable. -/
theorem report_makes_a_key_depositable : ∃ s s', Reachable (registrySystem layout 1) s ∧
    Runs (registrySystem layout 1) (fun _ _ ↦ True) s s' ∧ s'.keysOpIndex = s.keysOpIndex ∧
    ¬depositable layout 1 s' ⊆ depositable layout 1 s := by
  have hrun : reaches (registrySystem layout 1) (initializeRegistry 1) exhaustedRun (fun s ↦
      passes ((registrySystem layout 1).step s reportOne) fun _ ↦
        decide (¬GainsNothing s 0 1)) = true := by
    decide +kernel
  obtain ⟨s, h, hp⟩ := registry_of_run hrun
  obtain ⟨s', hstep, hp⟩ := exists_of_passes hp
  have hgain := of_decide_eq_true hp
  cases change h hstep with
  | stopped hr =>
    refine ⟨s, _, h, .step (.refl s) trivial hstep, ?_, ?_⟩
    · obtain ⟨_, _, rfl⟩ := reportStoppedValidators_ok hr
      rfl
    · rw [depositable_stopped_iff (sane h) hr]
      exact hgain
  | keysAdded hm _ | keysRemoved hm _ => cases hm

/-- Where the limit covers all keys a stopped validator makes none depositable. -/
theorem covered_keys_stay_pinned : ∃ s s', Reachable (registrySystem layout 1) s ∧
    (registrySystem layout 1).step s reportOne = .ok s' ∧
    depositable layout 1 s' ⊆ depositable layout 1 s := by
  have hrun : reaches (registrySystem layout 1) (initializeRegistry 1)
      (twoOperators ++ [send 1 (.assignNextSigningKeys 2)]) (fun s ↦
        passes ((registrySystem layout 1).step s reportOne) fun s' ↦
          decide (GainsNothing s 0 1 ∧ s'.keysOpIndex = s.keysOpIndex)) = true := by
    decide +kernel
  obtain ⟨s, h, hp⟩ := registry_of_run hrun
  obtain ⟨s', hstep, hp⟩ := exists_of_passes hp
  obtain ⟨hgain, hindex⟩ := of_decide_eq_true hp
  have hstop (id : ℕ) (n : UInt64) (heq : reportOne.2 = .reportStoppedValidators id n) :
      GainsNothing s id n.toNat := by
    cases heq
    exact hgain
  exact ⟨s, s', h, hstep, (keysOpIndex_pins_keys_iff h (.step (.refl s) hstop hstep)).1 hindex⟩

end Sample

end LidoDao
