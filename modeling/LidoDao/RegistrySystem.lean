import LidoDao.RegistrySteps
import LidoDao.JointSystem

namespace LidoDao

open Evm Library.Outcome Library.ByteWords Library.Transition NodeOperatorsRegistry

/-- The registry alone, called by anyone, the pool included. -/
def registrySystem (L : SigningKeyLayout) (lido : Address) :
    Machine NodeOperatorsRegistry (Call Role × Message) Revert where
  initial r := r = initializeRegistry lido
  step r e := handle L e.1 r e.2

namespace NodeOperatorsRegistry

variable {L : SigningKeyLayout} {lido : Address} {r r' : NodeOperatorsRegistry} {m : Message}
  {id : ℕ}

theorem sane (h : Reachable (registrySystem L lido) r) : Sane lido r := by
  apply h.invariant
  · rintro _ rfl
    exact .initial
  · intro _ _ _ _ hs hr
    exact (handle_change hs hr).sane hs

theorem change (h : Reachable (registrySystem L lido) r) {e : Call Role × Message}
    (hr : (registrySystem L lido).step r e = .ok r') : Change L r e.2 r' :=
  handle_change (sane h) hr

section Untouched

/-- Numbers that no operator has hold what the storage held at first. -/
def Untouched (r : NodeOperatorsRegistry) : Prop :=
  ∀ id, r.totalOperatorsCount ≤ id → r.operators id = (initializeRegistry 0).operators id

theorem Untouched.setOperator {r₀ : NodeOperatorsRegistry} {f : NodeOperator → NodeOperator}
    (h : Untouched r) (hid : id < r.totalOperatorsCount) (hoperators : r₀.operators = r.operators)
    (hcount : r₀.totalOperatorsCount = r.totalOperatorsCount) :
    Untouched (r₀.setOperator id f) := by
  intro i hi
  have hi' : r.totalOperatorsCount ≤ i := hcount ▸ hi
  rw [setOperator_of_ne (by omega), hoperators]
  exact h i hi'

theorem Untouched.removeSigningKey {index : ℕ} (h : Untouched r)
    (hr : _removeSigningKey L r id index = .ok r') : Untouched r' := by
  obtain ⟨hid, _⟩ := _removeSigningKey_ok hr
  obtain ⟨_, rfl⟩ := removeSigningKey_record hr
  exact h.setOperator hid rfl rfl

theorem Untouched.step (h : Untouched r) (hchange : Change L r m r') : Untouched r' := by
  cases hchange with
  | operatorAdded hr =>
    obtain ⟨_, _, rfl⟩ := addNodeOperator_ok hr
    intro i hi
    have hi' : r.totalOperatorsCount + 1 ≤ i := hi
    rw [setOperator_of_ne (by omega)]
    exact h i (by omega)
  | activitySet hr =>
    obtain ⟨hid, _, _, _, rfl⟩ := setNodeOperatorActive_ok hr
    exact h.setOperator hid rfl rfl
  | renamed hr =>
    obtain ⟨hid, rfl⟩ := setNodeOperatorName_ok hr
    exact h.setOperator hid rfl rfl
  | addressSet hr =>
    obtain ⟨hid, _, rfl⟩ := setNodeOperatorRewardAddress_ok hr
    exact h.setOperator hid rfl rfl
  | limitSet hr =>
    obtain ⟨hid, rfl⟩ := setNodeOperatorStakingLimit_ok hr
    exact h.setOperator hid rfl rfl
  | stopped hr =>
    obtain ⟨hid, _, rfl⟩ := reportStoppedValidators_ok hr
    exact h.setOperator hid rfl rfl
  | trimmed =>
    intro i hi
    have hi' : r.totalOperatorsCount ≤ i := hi
    rw [trimAll_operators_of_le hi']
    exact h i hi'
  | keysAdded _ hr =>
    obtain ⟨hid, _, _, _, slots, rfl, _⟩ := _addSigningKeys_ok hr
    exact h.setOperator hid rfl rfl
  | keysRemoved _ hr =>
    exact removeKeys_induction h (fun _ _ _ h hr ↦ h.removeSigningKey hr) hr
  | @keysAssigned wanted n hplan _ =>
    intro i hi
    have hnone : n i = 0 := by
      apply hplan.inactive
      intro hmem
      exact absurd (List.mem_range.mp (List.mem_filter.mp hmem).1) (Nat.not_lt.mpr hi)
    have hsame : (r.handOut wanted n).operators i = r.operators i := by
      simp only [handOut, useKeys, hnone, Nat.add_zero]
    rw [hsame]
    exact h i hi

theorem untouched (h : Reachable (registrySystem L lido) r) : Untouched r := by
  apply h.invariant
  · rintro _ rfl _ _
    rfl
  · intro _ _ _ hreach hs hr
    exact hs.step (change hreach hr)

end Untouched

/-- In every reachable state the counts of the registry are consistent, and none of its
checks of them can fail. -/
theorem registry_is_consistent (h : Reachable (registrySystem L lido) r) :
    (∀ id, (r.operators id).stoppedValidators ≤ (r.operators id).usedSigningKeys ∧
      (r.operators id).usedSigningKeys ≤ (r.operators id).totalSigningKeys) ∧
    r.activeOperatorsCount =
      ((List.range r.totalOperatorsCount).filter fun id ↦ (r.operators id).active).length ∧
    (∀ id < r.totalOperatorsCount, (r.operators id).rewardAddress ≠ 0) ∧
    (∀ id, r.totalOperatorsCount ≤ id →
      r.operators id = (initializeRegistry lido).operators id ∧
      (r.operators id).active = false ∧ (r.operators id).totalSigningKeys = 0) ∧
    (∃ cache, r._loadOperatorCache = .ok cache) ∧
    (∀ msgSender numKeys e, r.assignNextSigningKeys L msgSender numKeys = .error e →
      msgSender ≠ lido ∧ e = .reason "APP_AUTH_FAILED") ∧
    ∀ totalRewardShares < wordLimit,
      ∃ distribution, r.getRewardsDistribution totalRewardShares = .ok distribution := by
  have hs := sane h
  refine ⟨fun id ↦ ⟨(hs.valid id).stopped, (hs.valid id).used⟩, hs.active, hs.payable,
    fun id hid ↦ ⟨untouched h id hid, hs.unused id hid⟩, ⟨_, _loadOperatorCache_ok hs⟩, ?_,
    fun n hn ↦ ⟨_, getRewardsDistribution_ok hs hn⟩⟩
  intro msgSender numKeys e he
  by_cases hsender : msgSender = lido
  · obtain ⟨n, _, _, hok⟩ := assignNextSigningKeys_ok (L := L) hs numKeys
    rw [hsender, hok] at he
    cases he
  · refine ⟨hsender, ?_⟩
    simp only [assignNextSigningKeys, onlyLido, bind_eq_error, require_eq_error, hs.lido_eq] at he
    rcases he with ⟨_, rfl⟩ | ⟨_, hauth, _⟩
    · rfl
    · exact absurd (require_eq_ok.mp hauth) hsender

end NodeOperatorsRegistry

namespace Sample

/-- A message to the registry from an account that holds every role. -/
def send (sender : Address) (m : Message) : Call Role × Message :=
  ({ sender, blockNumber := 10, canPerform := fun _ _ ↦ true }, m)

def stoppedRun : List (Call Role × Message) := [
  send 5 (.addNodeOperator "first" 11),
  send 5 (.setNodeOperatorStakingLimit 0 3),
  send 11 (.addSigningKeysOperatorBH 0 4 (List.replicate 192 1) (List.replicate 384 2)),
  send 1 (.assignNextSigningKeys 2),
  send 5 (.reportStoppedValidators 0 1)]

theorem registry_of_run {l : List (Call Role × Message)} {p : NodeOperatorsRegistry → Bool}
    (h : reaches (registrySystem layout 1) (initializeRegistry 1) l p = true) :
    ∃ r, Reachable (registrySystem layout 1) r ∧ p r = true := by
  have hstart : Reachable (registrySystem layout 1) (initializeRegistry 1) := .initial rfl
  exact hstart.of_reaches h

theorem one_of_two_is_stopped : ∃ r, Reachable (registrySystem layout 1) r ∧
    ((r.operators 0).stoppedValidators, (r.operators 0).usedSigningKeys,
      (r.operators 0).totalSigningKeys) = (1, 2, 4) ∧
    (∃ cache, r._loadOperatorCache = .ok cache) ∧
    ∃ distribution, r.getRewardsDistribution 7 = .ok distribution := by
  have hrun : reaches (registrySystem layout 1) (initializeRegistry 1) stoppedRun (fun r ↦
      decide (((r.operators 0).stoppedValidators, (r.operators 0).usedSigningKeys,
        (r.operators 0).totalSigningKeys) = (1, 2, 4))) = true := by
    decide +kernel
  obtain ⟨r, h, hp⟩ := registry_of_run hrun
  obtain ⟨_, _, _, _, hcache, _, hrewards⟩ := registry_is_consistent h
  exact ⟨r, h, of_decide_eq_true hp, hcache, hrewards 7 (by decide +kernel)⟩

end Sample

end LidoDao
