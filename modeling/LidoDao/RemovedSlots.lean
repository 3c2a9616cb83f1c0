import LidoDao.AssignedKeys

namespace LidoDao

open Evm Library.Outcome Library.ByteWords Library.Transition Library.Positions NodeOperatorsRegistry

namespace NodeOperatorsRegistry

variable {L : SigningKeyLayout} {lido : Address} {r r₀ r₁ r' : NodeOperatorsRegistry}
  {m : Message} {id i : ℕ}

theorem removeSigningKey_limit {o index : ℕ} (h : _removeSigningKey L r o index = .ok r') :
    (r'.operators o).stakingLimit ≤ index ∧
      ∀ j, (r'.operators j).stakingLimit ≤ (r.operators j).stakingLimit := by
  obtain ⟨_, rfl⟩ := removeSigningKey_record h
  have hmod : index % 2 ^ 64 ≤ index := Nat.mod_le _ _
  have hlimit : (withoutKey index (r.operators o)).stakingLimit ≤ index ∧
      (withoutKey index (r.operators o)).stakingLimit ≤ (r.operators o).stakingLimit := by
    simp only [withoutKey]
    split <;> omega
  refine ⟨?_, fun j ↦ ?_⟩
  · rw [setOperator_self]
    exact hlimit.1
  · by_cases hj : j = o
    · subst hj
      rw [setOperator_self]
      exact hlimit.2
    · rw [setOperator_of_ne hj]

theorem Change.limit_le (h : Change L r m r') (hid : id < r.totalOperatorsCount)
    (hm : ∀ n, m ≠ .setNodeOperatorStakingLimit id n) :
    (r'.operators id).stakingLimit ≤ (r.operators id).stakingLimit := by
  cases h with
  | operatorAdded hr =>
    obtain ⟨_, _, rfl⟩ := addNodeOperator_ok hr
    exact (congrArg _ (setOperator_of_ne (Nat.ne_of_lt hid))).le
  | activitySet hr =>
    obtain ⟨_, _, _, _, rfl⟩ := setNodeOperatorActive_ok hr
    exact (setOperator_field NodeOperator.stakingLimit rfl id).le
  | renamed hr =>
    obtain ⟨_, rfl⟩ := setNodeOperatorName_ok hr
    exact (setOperator_field NodeOperator.stakingLimit rfl id).le
  | addressSet hr =>
    obtain ⟨_, _, rfl⟩ := setNodeOperatorRewardAddress_ok hr
    exact (setOperator_field NodeOperator.stakingLimit rfl id).le
  | @limitSet id' n _ hr =>
    obtain ⟨_, rfl⟩ := setNodeOperatorStakingLimit_ok hr
    have hne : id ≠ id' := by
      rintro rfl
      exact hm n rfl
    exact (congrArg _ (setOperator_of_ne hne)).le
  | stopped hr =>
    obtain ⟨_, _, rfl⟩ := reportStoppedValidators_ok hr
    exact (setOperator_field NodeOperator.stakingLimit rfl id).le
  | trimmed =>
    rw [trimAll_operators_of_lt hid]
    exact le_rfl
  | keysAdded _ hr =>
    obtain ⟨_, _, _, _, slots, rfl, _⟩ := _addSigningKeys_ok hr
    exact (setOperator_field NodeOperator.stakingLimit rfl id).le
  | keysRemoved _ hr =>
    apply removeKeys_induction
      (p := fun r' ↦ (r'.operators id).stakingLimit ≤ (r.operators id).stakingLimit) le_rfl ?_ hr
    intro _ _ _ hle hr
    exact ((removeSigningKey_limit hr).2 id).trans hle
  | keysAssigned _ _ => exact le_rfl

theorem Change.used_eq (h : Change L r m r') (hs : Sane lido r)
    (hm : ∀ wanted, m ≠ .assignNextSigningKeys wanted) (o : ℕ) :
    (r'.operators o).usedSigningKeys = (r.operators o).usedSigningKeys := by
  have hhandled := h.handled hs
  cases m with
  | assignNextSigningKeys wanted => exact absurd rfl (hm wanted)
  | trimUnusedKeys =>
    cases h with
    | trimmed => exact used_trimAll o
    | keysAdded hm _ | keysRemoved hm _ => cases hm
  | _ => exact (hhandled rfl).used o

theorem Change.count_le (h : Change L r m r') (hs : Sane lido r) :
    r.totalOperatorsCount ≤ r'.totalOperatorsCount := by
  have hhandled := h.handled hs
  cases m with
  | assignNextSigningKeys wanted =>
    cases h with
    | keysAssigned _ _ => exact le_rfl
    | keysAdded hm _ | keysRemoved hm _ => cases hm
  | trimUnusedKeys =>
    cases h with
    | trimmed => exact le_rfl
    | keysAdded hm _ | keysRemoved hm _ => cases hm
  | _ => exact (hhandled rfl).count

/-- Before a key is assigned the stopped validators of the operator do not lift its limit
above a position. -/
def Frozen (id i : ℕ) (r : NodeOperatorsRegistry) : Prop :=
  (r.operators id).active = true → i < (r.operators id).totalSigningKeys →
    (r.operators id).stakingLimit + (r.operators id).stoppedValidators ≤ i

instance : Decidable (Frozen id i r) :=
  inferInstanceAs (Decidable (_ → _ → _))

/-- The operator's keys are used up to a position at most, and its limit is no higher. -/
structure Capped (id i : ℕ) (r : NodeOperatorsRegistry) : Prop where
  exists_id : id < r.totalOperatorsCount
  limit : (r.operators id).stakingLimit ≤ i
  used : (r.operators id).usedSigningKeys ≤ i

theorem Capped.of_removed (h : _removeSigningKey L r id i = .ok r') : Capped id i r' := by
  obtain ⟨hid, _, hused, _⟩ := _removeSigningKey_ok h
  refine ⟨?_, (removeSigningKey_limit h).1, ?_⟩
  · rw [removeSigningKey_count h]
    exact hid
  · rw [removeSigningKey_used h]
    exact hused

theorem Capped.frozen (h : Capped id i r) (hstopped : (r.operators id).stoppedValidators = 0) :
    Frozen id i r := by
  intro _ _
  rw [hstopped, Nat.add_zero]
  exact h.limit

theorem Capped.step (h : Capped id i r) (hs : Sane lido r) (hchange : Change L r m r')
    (hm : ∀ n, m ≠ .setNodeOperatorStakingLimit id n)
    (hfrozen : ∀ n, m = .assignNextSigningKeys n → Frozen id i r) : Capped id i r' := by
  refine ⟨h.exists_id.trans_le (hchange.count_le hs), (hchange.limit_le h.exists_id hm).trans h.limit,
    ?_⟩
  by_cases hassign : ∃ wanted, m = .assignNextSigningKeys wanted
  · obtain ⟨wanted, rfl⟩ := hassign
    have hfrozen := hfrozen wanted rfl
    cases hchange with
    | @keysAssigned _ n hplan _ =>
      rw [handOut_used]
      by_cases hactive : (r.operators id).active = true
      · have hused := h.used
        have hcapacity := hplan.le_capacity id
        have hle := hfrozen hactive
        have hstopped := (hs.valid id).stopped
        simp only [NodeOperator.capacity] at hcapacity
        omega
      · have hnot : id ∉ r.activeIds := mt (mem_activeIds hs).mp hactive
        rw [hplan.inactive id hnot, Nat.add_zero]
        exact h.used
    | keysAdded hm _ | keysRemoved hm _ => cases hm
  · rw [hchange.used_eq hs fun wanted heq ↦ hassign ⟨wanted, heq⟩]
    exact h.used

theorem Capped.returns_iff (h : Capped id i r) (hs : Sane lido r) :
    (∀ wanted position, Returns L lido r wanted id position → position < i) ↔ Frozen id i r := by
  have hused := h.used
  have hstopped := (hs.valid id).stopped
  constructor
  · intro hreturns hactive hlt
    by_contra hlimit
    have hroom : i < (r.operators id).usedSigningKeys + (r.operators id).capacity := by
      simp only [NodeOperator.capacity]
      omega
    obtain ⟨wanted, hret⟩ := (exists_returns_iff (L := L) hs).mpr ⟨hactive, hused, hroom⟩
    exact absurd (hreturns wanted i hret) (lt_irrefl i)
  · intro hfrozen wanted position hret
    obtain ⟨hactive, _, hlt⟩ := (exists_returns_iff hs).mp ⟨wanted, hret⟩
    have hle := hfrozen hactive
    simp only [NodeOperator.capacity] at hlt
    omega

theorem reachable_removed (h : Reachable (registrySystem L lido) r)
    (hr : _removeSigningKey L r id i = .ok r') : Reachable (registrySystem L lido) r' := by
  apply h.step (i := ({ sender := lido, blockNumber := 0, canPerform := fun _ _ ↦ true },
    .removeSigningKey id i))
  exact hr

/-- After a removal, and as long as the limit is not set again, keys from the removed
position on are not returned exactly as long as the stopped validators of the operator
do not lift its limit above it. Without stopped validators they never do. -/
theorem removed_slots_stay_unused_iff (h : Reachable (registrySystem L lido) r₀)
    (hremove : _removeSigningKey L r₀ id i = .ok r₁)
    (hrun : Runs (registrySystem L lido) (fun r e ↦
      (∀ n, e.2 ≠ .setNodeOperatorStakingLimit id n) ∧
      ∀ wanted, e.2 = .assignNextSigningKeys wanted → Frozen id i r) r₁ r) :
    ((∀ wanted position, Returns L lido r wanted id position → position < i) ↔ Frozen id i r) ∧
      ((r.operators id).stoppedValidators = 0 → Frozen id i r) := by
  have hreach := reachable_removed h hremove
  have hcapped : Reachable (registrySystem L lido) r ∧ Capped id i r := by
    apply hrun.invariant (P := fun r ↦ Reachable (registrySystem L lido) r ∧ Capped id i r)
    · intro t e u he ht hstep
      obtain ⟨hlimit, hfrozen⟩ := he
      obtain ⟨hreach, hcapped⟩ := ht
      exact ⟨hreach.step hstep,
        hcapped.step (sane hreach) (change hreach hstep) hlimit hfrozen⟩
    · exact ⟨hreach, .of_removed hremove⟩
  exact ⟨hcapped.2.returns_iff (sane hcapped.1), hcapped.2.frozen⟩

end NodeOperatorsRegistry

namespace Sample

/-- One of two validators is stopped and the key at position two is removed: the limit
falls to two, and still the key that moved there is returned. -/
theorem removed_slot_is_returned : ∃ r₀ r₁ r, Reachable (registrySystem layout 1) r₀ ∧
    _removeSigningKey layout r₀ 0 2 = .ok r₁ ∧
    Runs (registrySystem layout 1) (fun _ e ↦ ∀ n, e.2 ≠ .setNodeOperatorStakingLimit 0 n) r₁ r ∧
    ∃ wanted position, Returns layout 1 r wanted 0 position ∧ 2 ≤ position := by
  have hrun : reaches (registrySystem layout 1) (initializeRegistry 1) stoppedRun (fun r ↦
      passes (_removeSigningKey layout r 0 2) fun r₁ ↦
        decide ((r₁.operators 0).active = true ∧ (r₁.operators 0).usedSigningKeys ≤ 2 ∧
          2 < (r₁.operators 0).usedSigningKeys + (r₁.operators 0).capacity)) = true := by
    decide +kernel
  obtain ⟨r₀, h, hp⟩ := registry_of_run hrun
  obtain ⟨r₁, hremove, hp⟩ := exists_of_passes hp
  have hs := sane (reachable_removed h hremove)
  obtain ⟨wanted, hret⟩ := (exists_returns_iff (L := layout) hs).mpr (of_decide_eq_true hp)
  exact ⟨r₀, r₁, r₁, h, hremove, .refl r₁, wanted, 2, hret, le_rfl⟩

/-- Without stopped validators the removed key is gone, however many keys are wanted. -/
theorem removed_slot_stays_unused : ∃ r₀ r₁ r, Reachable (registrySystem layout 1) r₀ ∧
    _removeSigningKey layout r₀ 0 1 = .ok r₁ ∧
    (registrySystem layout 1).step r₁ (send 1 (.assignNextSigningKeys 5)) = .ok r ∧
    ∀ wanted position, Returns layout 1 r wanted 0 position → position < 1 := by
  have hrun : reaches (registrySystem layout 1) (initializeRegistry 1) twoOperators (fun r ↦
      passes (_removeSigningKey layout r 0 1) fun r₁ ↦
        passes ((registrySystem layout 1).step r₁ (send 1 (.assignNextSigningKeys 5))) fun r₂ ↦
          decide (Frozen 0 1 r₁ ∧ (r₂.operators 0).stoppedValidators = 0)) = true := by
    decide +kernel
  obtain ⟨r₀, h, hp⟩ := registry_of_run hrun
  obtain ⟨r₁, hremove, hp⟩ := exists_of_passes hp
  obtain ⟨r, hstep, hp⟩ := exists_of_passes hp
  obtain ⟨hfrozen, hstopped⟩ := of_decide_eq_true hp
  have hother (n : UInt64) : (send 1 (.assignNextSigningKeys 5)).2 ≠
      .setNodeOperatorStakingLimit 0 n := by
    intro heq
    cases heq
  obtain ⟨hiff, hnone⟩ := removed_slots_stay_unused_iff h hremove
    (.step (.refl r₁) ⟨hother, fun _ _ ↦ hfrozen⟩ hstep)
  exact ⟨r₀, r₁, r, h, hremove, hstep, hiff.mpr (hnone hstopped)⟩

end Sample

end LidoDao
