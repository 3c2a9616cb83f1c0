import LidoDao.SigningKeys
import LidoDao.Library.Positions

namespace LidoDao

open Evm Library.Outcome Library.Positions SafeMath

structure NodeOperator.Valid (o : NodeOperator) : Prop where
  stopped : o.stoppedValidators ≤ o.usedSigningKeys
  used : o.usedSigningKeys ≤ o.totalSigningKeys
  total : o.totalSigningKeys < 2 ^ 64

namespace NodeOperatorsRegistry

variable {L : SigningKeyLayout} {r r' : NodeOperatorsRegistry} {lido : Address} {id : ℕ}

def ids (r : NodeOperatorsRegistry) : List ℕ := List.range r.totalOperatorsCount

def activeIds (r : NodeOperatorsRegistry) : List ℕ :=
  r.ids.filter fun id ↦ (r.operators id).active

/-- What every registry operation keeps true. -/
structure Sane (lido : Address) (r : NodeOperatorsRegistry) : Prop where
  valid : ∀ id, (r.operators id).Valid
  active : r.activeOperatorsCount = r.activeIds.length
  payable : ∀ id < r.totalOperatorsCount, (r.operators id).rewardAddress ≠ 0
  unused : ∀ id, r.totalOperatorsCount ≤ id →
    (r.operators id).active = false ∧ (r.operators id).totalSigningKeys = 0
  count_le : r.totalOperatorsCount ≤ maxNodeOperatorsCount
  lido_eq : r.lido = lido

theorem Sane.initial : Sane lido (initializeRegistry lido) := by
  refine ⟨?_, rfl, ?_, ?_, Nat.zero_le _, rfl⟩
  · intro id
    exact ⟨le_rfl, le_rfl, by simp [initializeRegistry]⟩
  · intro id hid
    exact absurd hid (Nat.not_lt_zero id)
  · intro id _
    exact ⟨rfl, rfl⟩

section SetOperator

variable {f : NodeOperator → NodeOperator}

@[simp] theorem setOperator_self :
    (r.setOperator id f).operators id = f (r.operators id) := by
  simp [setOperator]

theorem setOperator_of_ne {i : ℕ} (h : i ≠ id) :
    (r.setOperator id f).operators i = r.operators i := by
  simp [setOperator, h]

theorem setOperator_activeIds (h : (f (r.operators id)).active = (r.operators id).active) :
    (r.setOperator id f).activeIds = r.activeIds := by
  refine List.filter_congr fun i _ ↦ ?_
  by_cases hi : i = id
  · subst hi
    rw [setOperator_self, h]
  · rw [setOperator_of_ne hi]

theorem setOperator_forall {p : ℕ → NodeOperator → Prop} (hid : p id (f (r.operators id)))
    (h : ∀ i, i ≠ id → p i (r.operators i)) (i : ℕ) : p i ((r.setOperator id f).operators i) := by
  by_cases hi : i = id
  · subst hi
    rwa [setOperator_self]
  · rw [setOperator_of_ne hi]
    exact h i hi

theorem Sane.setOperator (h : Sane lido r) (hid : id < r.totalOperatorsCount)
    (hvalid : (f (r.operators id)).Valid)
    (hactive : (f (r.operators id)).active = (r.operators id).active)
    (hpayable : (f (r.operators id)).rewardAddress ≠ 0) : Sane lido (r.setOperator id f) := by
  refine ⟨setOperator_forall hvalid fun i _ ↦ h.valid i, ?_, ?_, ?_, h.count_le, h.lido_eq⟩
  · rw [setOperator_activeIds hactive]
    exact h.active
  · exact setOperator_forall (p := fun i o ↦ i < r.totalOperatorsCount → o.rewardAddress ≠ 0)
      (fun _ ↦ hpayable) fun i _ ↦ h.payable i
  · intro i hi
    have hcount : r.totalOperatorsCount ≤ i := hi
    rw [setOperator_of_ne (by omega)]
    exact h.unused i hi

end SetOperator

theorem Sane.congr (h : Sane lido r) (hoperators : r'.operators = r.operators)
    (htotal : r'.totalOperatorsCount = r.totalOperatorsCount)
    (hactive : r'.activeOperatorsCount = r.activeOperatorsCount) (hlido : r'.lido = r.lido) :
    Sane lido r' := by
  obtain ⟨hvalid, hcount, hpayable, hunused, hle, hl⟩ := h
  refine ⟨?_, ?_, ?_, ?_, ?_, ?_⟩
  · rw [hoperators]
    exact hvalid
  · rw [hactive, hcount, activeIds, activeIds, ids, ids, htotal, hoperators]
  · rw [hoperators, htotal]
    exact hpayable
  · rw [hoperators, htotal]
    exact hunused
  · rw [htotal]
    exact hle
  · rw [hlido]
    exact hl

section Operators

theorem addNodeOperator_ok {name : String} {a : Address} (h : r.addNodeOperator name a = .ok r') :
    a ≠ 0 ∧ r.totalOperatorsCount < maxNodeOperatorsCount ∧
      r' = ({ r with
        totalOperatorsCount := r.totalOperatorsCount + 1
        activeOperatorsCount := r.activeOperatorsCount + 1 }).setOperator r.totalOperatorsCount
          fun o ↦ { o with active := true, name, rewardAddress := a, stakingLimit := 0 } := by
  simp only [addNodeOperator, validAddress, bind_eq_ok, require_eq_ok, exists_const, add_eq_ok,
    pure_eq, Except.ok.injEq] at h
  obtain ⟨ha, hlt, _, ⟨_, rfl⟩, _, ⟨_, rfl⟩, rfl⟩ := h
  exact ⟨ha, hlt, rfl⟩

theorem Sane.addNodeOperator (h : Sane lido r) {name : String} {a : Address}
    (hr : r.addNodeOperator name a = .ok r') : Sane lido r' := by
  obtain ⟨ha, hlt, rfl⟩ := addNodeOperator_ok hr
  obtain ⟨hinactive, htotal⟩ := h.unused r.totalOperatorsCount le_rfl
  refine ⟨?_, ?_, ?_, ?_, hlt, h.lido_eq⟩
  · exact setOperator_forall (p := fun _ o ↦ o.Valid)
      ⟨(h.valid _).stopped, (h.valid _).used, (h.valid _).total⟩ fun i _ ↦ h.valid i
  · have hids : ∀ i ∈ r.ids, i ≠ r.totalOperatorsCount := by
      intro i hi
      exact Nat.ne_of_lt (List.mem_range.mp hi)
    have hactive : activeIds (({ r with
        totalOperatorsCount := r.totalOperatorsCount + 1
        activeOperatorsCount := r.activeOperatorsCount + 1 }).setOperator r.totalOperatorsCount
          fun o ↦ { o with active := true, name, rewardAddress := a, stakingLimit := 0 }) =
        r.activeIds ++ [r.totalOperatorsCount] := by
      rw [activeIds, ids]
      simp only [NodeOperatorsRegistry.setOperator, List.range_succ, List.filter_append,
        List.filter_singleton, Function.update_self]
      refine congrArg₂ _ (List.filter_congr fun i hi ↦ ?_) rfl
      rw [Function.update_of_ne (hids i hi)]
    rw [hactive, List.length_append]
    exact congrArg (· + 1) h.active
  · exact setOperator_forall
      (p := fun i o ↦ i < r.totalOperatorsCount + 1 → o.rewardAddress ≠ 0) (fun _ ↦ ha)
      fun i hne hi ↦ h.payable i (by omega)
  · intro i hi
    have hi' : r.totalOperatorsCount + 1 ≤ i := hi
    rw [setOperator_of_ne (by omega)]
    exact h.unused i (by omega)

theorem setNodeOperatorActive_ok {active : Bool} (h : r.setNodeOperatorActive id active = .ok r') :
    id < r.totalOperatorsCount ∧ (r.operators id).active ≠ active ∧ ∃ count,
      (if active then count = r.activeOperatorsCount + 1 else count + 1 = r.activeOperatorsCount) ∧
      r' = ({ r._increaseKeysOpIndex with activeOperatorsCount := count }).setOperator id
        fun o ↦ { o with active } := by
  simp only [setNodeOperatorActive, operatorExists, bind_eq_ok, require_eq_ok,
    exists_const] at h
  obtain ⟨hid, hne, h⟩ := h
  cases active with
  | true =>
    simp only [if_true, bind_eq_ok, add_eq_ok, pure_eq, Except.ok.injEq] at h
    obtain ⟨_, ⟨_, rfl⟩, rfl⟩ := h
    exact ⟨hid, hne, _, rfl, rfl⟩
  | false =>
    simp only [Bool.false_eq_true, if_false, bind_eq_ok, sub_eq_ok, pure_eq,
      Except.ok.injEq] at h
    obtain ⟨_, ⟨hle, rfl⟩, rfl⟩ := h
    exact ⟨hid, hne, _, Nat.sub_add_cancel hle, rfl⟩

theorem length_activeIds :
    r.activeIds.length = (r.ids.map fun i ↦ (r.operators i).active.toNat).sum :=
  length_filter_eq_sum _ _

theorem sum_setOperator {f : NodeOperator → NodeOperator} (hid : id < r.totalOperatorsCount)
    (g : NodeOperator → ℕ) :
    ((r.setOperator id f).ids.map fun i ↦ g ((r.setOperator id f).operators i)).sum +
      g (r.operators id) = (r.ids.map fun i ↦ g (r.operators i)).sum + g (f (r.operators id)) :=
  sum_map_update List.nodup_range (List.mem_range.mpr hid) _ _ _

theorem Sane.setNodeOperatorActive (h : Sane lido r) {active : Bool}
    (hr : r.setNodeOperatorActive id active = .ok r') : Sane lido r' := by
  obtain ⟨hid, hne, count, hcount, rfl⟩ := setNodeOperatorActive_ok hr
  have hsum := sum_setOperator (f := fun o ↦ { o with active }) hid fun o ↦ o.active.toNat
  rw [← length_activeIds, ← length_activeIds, ← h.active] at hsum
  refine ⟨?_, ?_, ?_, ?_, h.count_le, h.lido_eq⟩
  · exact setOperator_forall (p := fun _ o ↦ o.Valid)
      ⟨(h.valid _).stopped, (h.valid _).used, (h.valid _).total⟩ fun i _ ↦ h.valid i
  · have hlength : activeIds (({ r._increaseKeysOpIndex with
        activeOperatorsCount := count }).setOperator id fun o ↦ { o with active }) =
        activeIds (r.setOperator id fun o ↦ { o with active }) := rfl
    rw [hlength]
    change count = _
    cases active with
    | true =>
      have hold : (r.operators id).active = false := by simpa using hne
      simp only [if_true] at hcount
      simp only [hold, Bool.toNat_false, Bool.toNat_true] at hsum
      omega
    | false =>
      have hold : (r.operators id).active = true := by simpa using hne
      simp only [Bool.false_eq_true, if_false] at hcount
      simp only [hold, Bool.toNat_false, Bool.toNat_true] at hsum
      omega
  · exact setOperator_forall (p := fun i o ↦ i < r.totalOperatorsCount → o.rewardAddress ≠ 0)
      (h.payable id) fun i _ ↦ h.payable i
  · intro i hi
    have hi' : r.totalOperatorsCount ≤ i := hi
    rw [setOperator_of_ne (by omega)]
    exact h.unused i hi'

theorem setNodeOperatorName_ok {name : String} (h : r.setNodeOperatorName id name = .ok r') :
    id < r.totalOperatorsCount ∧ r' = r.setOperator id fun o ↦ { o with name } := by
  simp only [setNodeOperatorName, operatorExists, bind_eq_ok, require_eq_ok, exists_const,
    pure_eq, Except.ok.injEq] at h
  exact ⟨h.1, h.2.2.symm⟩

theorem setNodeOperatorRewardAddress_ok {a : Address}
    (h : r.setNodeOperatorRewardAddress id a = .ok r') :
    id < r.totalOperatorsCount ∧ a ≠ 0 ∧
      r' = r.setOperator id fun o ↦ { o with rewardAddress := a } := by
  simp only [setNodeOperatorRewardAddress, operatorExists, validAddress, bind_eq_ok,
    require_eq_ok, exists_const, pure_eq, Except.ok.injEq] at h
  exact ⟨h.1, h.2.1, h.2.2.2.symm⟩

theorem setNodeOperatorStakingLimit_ok {n : UInt64}
    (h : r.setNodeOperatorStakingLimit id n = .ok r') :
    id < r.totalOperatorsCount ∧
      r' = r._increaseKeysOpIndex.setOperator id fun o ↦ { o with stakingLimit := n.toNat } := by
  simp only [setNodeOperatorStakingLimit, operatorExists, bind_eq_ok, require_eq_ok,
    exists_const, pure_eq, Except.ok.injEq] at h
  exact ⟨h.1, h.2.2.symm⟩

theorem reportStoppedValidators_ok {n : UInt64} (h : r.reportStoppedValidators id n = .ok r') :
    id < r.totalOperatorsCount ∧
      (r.operators id).stoppedValidators + n.toNat ≤ (r.operators id).usedSigningKeys ∧
      r' = r.setOperator id fun o ↦
        { o with stoppedValidators := (r.operators id).stoppedValidators + n.toNat } := by
  simp only [reportStoppedValidators, operatorExists, bind_eq_ok, require_eq_ok, exists_const,
    SafeMath64.add_eq_ok, pure_eq, Except.ok.injEq] at h
  obtain ⟨hid, _, _, ⟨_, rfl⟩, hle, rfl⟩ := h
  exact ⟨hid, hle, rfl⟩

theorem reportStoppedValidators_pos {n : UInt64} (h : r.reportStoppedValidators id n = .ok r') :
    0 < n.toNat := by
  simp only [reportStoppedValidators, operatorExists, bind_eq_ok, require_eq_ok,
    exists_const] at h
  exact Nat.pos_of_ne_zero fun hzero ↦ h.2.1 (UInt64.toNat_inj.mp hzero).symm

theorem Sane.increaseKeysOpIndex (h : Sane lido r) : Sane lido r._increaseKeysOpIndex :=
  h.congr rfl rfl rfl rfl

theorem Sane.setNodeOperatorName (h : Sane lido r) {name : String}
    (hr : r.setNodeOperatorName id name = .ok r') : Sane lido r' := by
  obtain ⟨hid, rfl⟩ := setNodeOperatorName_ok hr
  exact h.setOperator hid { h.valid id with } rfl (h.payable id hid)

theorem Sane.setNodeOperatorRewardAddress (h : Sane lido r) {a : Address}
    (hr : r.setNodeOperatorRewardAddress id a = .ok r') : Sane lido r' := by
  obtain ⟨hid, ha, rfl⟩ := setNodeOperatorRewardAddress_ok hr
  exact h.setOperator hid { h.valid id with } rfl ha

theorem Sane.setNodeOperatorStakingLimit (h : Sane lido r) {n : UInt64}
    (hr : r.setNodeOperatorStakingLimit id n = .ok r') : Sane lido r' := by
  obtain ⟨hid, rfl⟩ := setNodeOperatorStakingLimit_ok hr
  exact h.increaseKeysOpIndex.setOperator hid { h.valid id with } rfl (h.payable id hid)

theorem Sane.reportStoppedValidators (h : Sane lido r) {n : UInt64}
    (hr : r.reportStoppedValidators id n = .ok r') : Sane lido r' := by
  obtain ⟨hid, hle, rfl⟩ := reportStoppedValidators_ok hr
  exact h.setOperator hid { h.valid id with stopped := hle } rfl (h.payable id hid)

end Operators

section Trim

def trimmed (o : NodeOperator) : NodeOperator := { o with totalSigningKeys := o.usedSigningKeys }

theorem trimOperator_eq : r.trimOperator id = r.setOperator id trimmed := by
  simp only [trimOperator]
  split
  · rfl
  · rename_i h
    rw [not_not] at h
    have heq : trimmed (r.operators id) = r.operators id := by
      cases ho : r.operators id
      simp_all [trimmed]
    simp only [setOperator, heq, Function.update_eq_self]

theorem foldl_trimOperator (l : List ℕ) :
    l.foldl trimOperator r =
      { r with operators := fun i ↦ if i ∈ l then trimmed (r.operators i) else r.operators i } := by
  induction l generalizing r with
  | nil => simp
  | cons a l ih =>
    rw [List.foldl_cons, ih, trimOperator_eq]
    simp only [setOperator]
    congr 1
    funext i
    by_cases hi : i = a
    · subst hi
      simp only [Function.update_self, List.mem_cons, true_or, if_true]
      split <;> rfl
    · simp [hi]

def trimAll (r : NodeOperatorsRegistry) : NodeOperatorsRegistry :=
  { r with operators := fun i ↦
      if i < r.totalOperatorsCount then trimmed (r.operators i) else r.operators i }

theorem trimAll_operators_of_lt (h : id < r.totalOperatorsCount) :
    r.trimAll.operators id = trimmed (r.operators id) :=
  if_pos h

theorem trimAll_operators_of_le (h : r.totalOperatorsCount ≤ id) :
    r.trimAll.operators id = r.operators id :=
  if_neg (Nat.not_lt.mpr h)

theorem trimUnusedKeys_ok {msgSender : Address} (h : r.trimUnusedKeys msgSender = .ok r') :
    msgSender = r.lido ∧ r' = r.trimAll := by
  simp only [trimUnusedKeys, onlyLido, bind_eq_ok, require_eq_ok, exists_const, pure_eq,
    Except.ok.injEq, foldl_trimOperator, List.mem_range] at h
  exact ⟨h.1, h.2.symm⟩

theorem Sane.trimAll (h : Sane lido r) : Sane lido r.trimAll := by
  refine ⟨?_, ?_, ?_, ?_, h.count_le, h.lido_eq⟩
  · intro i
    have hv := h.valid i
    rcases Nat.lt_or_ge i r.totalOperatorsCount with hi | hi
    · rw [trimAll_operators_of_lt hi]
      exact ⟨hv.stopped, le_rfl, hv.used.trans_lt hv.total⟩
    · rw [trimAll_operators_of_le hi]
      exact hv
  · refine h.active.trans (congrArg List.length (List.filter_congr fun i hi ↦ ?_))
    rw [trimAll_operators_of_lt (List.mem_range.mp hi)]
    rfl
  · intro i hi
    have hi' : i < r.totalOperatorsCount := hi
    rw [trimAll_operators_of_lt hi']
    exact h.payable i hi
  · intro i hi
    have hi' : r.totalOperatorsCount ≤ i := hi
    rw [trimAll_operators_of_le hi']
    exact h.unused i hi

end Trim

end NodeOperatorsRegistry

end LidoDao
