import LidoDao.RegistrySystem

namespace LidoDao

open Evm Library.Outcome Library.ByteWords Library.Transition Library.Positions NodeOperatorsRegistry

namespace NodeOperatorsRegistry

variable {L : SigningKeyLayout} {lido : Address} {r : NodeOperatorsRegistry} {n : ℕ → ℕ}
  {wanted id : ℕ}

def assignedTotal (r r' : NodeOperatorsRegistry) : ℕ :=
  (r.ids.map fun id ↦
    (r'.operators id).usedSigningKeys - (r.operators id).usedSigningKeys).sum

def assignedKeys (L : SigningKeyLayout) (r r' : NodeOperatorsRegistry) : List (Bytes × Bytes) :=
  r.ids.flatMap fun id ↦
    (List.range' (r.operators id).usedSigningKeys
      ((r'.operators id).usedSigningKeys - (r.operators id).usedSigningKeys)).map
      (_loadSigningKey L r id)

@[simp] theorem handOut_used (id : ℕ) : ((r.handOut wanted n).operators id).usedSigningKeys =
    (r.operators id).usedSigningKeys + n id := rfl

theorem Plan.assignedTotal (h : Plan r wanted n) :
    assignedTotal r (r.handOut wanted n) = min wanted r.capacity := by
  rw [← h.total]
  simp only [NodeOperatorsRegistry.assignedTotal, handOut_used, Nat.add_sub_cancel_left]

theorem Plan.assignedKeys (h : Plan r wanted n) (hs : Sane lido r) :
    assignedKeys L r (r.handOut wanted n) = handedOut L r n := by
  have hnext (id : ℕ) : (List.range' (r.operators id).usedSigningKeys (n id)).map
      (_loadSigningKey L r id) = nextKeys L r id (n id) :=
    map_load_range' (used_add_le (hs.valid id) (h.le_capacity id))
  simp only [NodeOperatorsRegistry.assignedKeys, handOut_used, Nat.add_sub_cancel_left, hnext]
  rw [handedOut, activeIds]
  apply Eq.symm
  apply flatMap_filter
  intro id hid hinactive
  have hnone : n id = 0 := by
    apply h.inactive
    intro hmem
    rw [(List.mem_filter.mp hmem).2] at hinactive
    cases hinactive
  rw [hnone, nextKeys_zero]

theorem capacity_eq : r.capacity =
    (((List.range r.totalOperatorsCount).filter fun j ↦ (r.operators j).active).map fun j ↦
      min ((r.operators j).totalSigningKeys - (r.operators j).usedSigningKeys)
        ((r.operators j).stakingLimit -
          ((r.operators j).usedSigningKeys - (r.operators j).stoppedValidators))).sum := rfl

theorem mem_activeIds (hs : Sane lido r) :
    id ∈ r.activeIds ↔ (r.operators id).active = true := by
  rw [activeIds, List.mem_filter, ids, List.mem_range]
  refine and_iff_right_of_imp fun hactive ↦ ?_
  by_contra hge
  rw [(hs.unused id (Nat.not_lt.mp hge)).1] at hactive
  cases hactive

theorem Plan.used_le (h : Plan r wanted n) (hs : Sane lido r) (hpos : 0 < n id) :
    (r.operators id).usedSigningKeys + n id ≤ (r.operators id).totalSigningKeys ∧
      (r.operators id).usedSigningKeys + n id - (r.operators id).stoppedValidators ≤
        (r.operators id).stakingLimit := by
  have hle := h.le_capacity id
  have hstopped := (hs.valid id).stopped
  have hused := (hs.valid id).used
  simp only [NodeOperator.capacity] at hle
  omega

theorem Plan.fair (h : Plan r wanted n) (hs : Sane lido r) (hfair : Fair r r.activeIds n) {i j : ℕ}
    (hpos : 0 < n i) (hactive : (r.operators j).active = true)
    (hfree : (r.operators j).usedSigningKeys + n j < (r.operators j).totalSigningKeys)
    (hroom : (r.operators j).usedSigningKeys + n j - (r.operators j).stoppedValidators <
      (r.operators j).stakingLimit) :
    (r.operators i).usedSigningKeys + n i - (r.operators i).stoppedValidators - 1 ≤
        (r.operators j).usedSigningKeys + n j - (r.operators j).stoppedValidators ∧
      (j < i → (r.operators i).usedSigningKeys + n i - (r.operators i).stoppedValidators - 1 <
        (r.operators j).usedSigningKeys + n j - (r.operators j).stoppedValidators) := by
  have hi : i ∈ r.activeIds := by
    by_contra hnot
    rw [h.inactive i hnot] at hpos
    exact lt_irrefl _ hpos
  have hstoppedi := (hs.valid i).stopped
  have hstoppedj := (hs.valid j).stopped
  have hcapacity : n j < (r.operators j).capacity := by
    simp only [NodeOperator.capacity]
    omega
  obtain ⟨hle, hlt⟩ := hfair i hi j ((mem_activeIds hs).mpr hactive) hpos hcapacity
  simp only [activeValidators] at hle hlt
  refine ⟨by omega, fun hij ↦ ?_⟩
  have hlt := hlt hij
  omega

/-- The keys are assigned greedily: as many as are wanted or can be had, never more than
an operator has or its limit allows, and fairly. -/
theorem assignment_is_greedy (h : Reachable (registrySystem L lido) r) (wanted : ℕ) :
    ∃ keys r', r.assignNextSigningKeys L lido wanted = .ok (keys, r') ∧
      assignedTotal r r' = min wanted
        (((List.range r.totalOperatorsCount).filter fun j ↦ (r.operators j).active).map fun j ↦
          min ((r.operators j).totalSigningKeys - (r.operators j).usedSigningKeys)
            ((r.operators j).stakingLimit -
              ((r.operators j).usedSigningKeys - (r.operators j).stoppedValidators))).sum ∧
      r' = { r with operators := r'.operators, keysOpIndex := r'.keysOpIndex } ∧
      (∀ j, r'.operators j =
          { r.operators j with usedSigningKeys := (r'.operators j).usedSigningKeys } ∧
        (r.operators j).usedSigningKeys ≤ (r'.operators j).usedSigningKeys ∧
        ((r.operators j).active = false →
          (r'.operators j).usedSigningKeys = (r.operators j).usedSigningKeys)) ∧
      (∀ j, (r.operators j).usedSigningKeys < (r'.operators j).usedSigningKeys →
        (r'.operators j).usedSigningKeys ≤ (r.operators j).totalSigningKeys ∧
        (r'.operators j).usedSigningKeys - (r.operators j).stoppedValidators ≤
          (r.operators j).stakingLimit) ∧
      ∀ i j, (r.operators i).usedSigningKeys < (r'.operators i).usedSigningKeys →
        (r.operators j).active = true →
        (r'.operators j).usedSigningKeys < (r.operators j).totalSigningKeys →
        (r'.operators j).usedSigningKeys - (r.operators j).stoppedValidators <
          (r.operators j).stakingLimit →
        (r'.operators i).usedSigningKeys - (r.operators i).stoppedValidators - 1 ≤
            (r'.operators j).usedSigningKeys - (r.operators j).stoppedValidators ∧
          (j < i → (r'.operators i).usedSigningKeys - (r.operators i).stoppedValidators - 1 <
            (r'.operators j).usedSigningKeys - (r.operators j).stoppedValidators) := by
  have hs := sane h
  obtain ⟨n, hplan, hfair, hok⟩ := assignNextSigningKeys_ok (L := L) hs wanted
  have hgrown {j : ℕ} (hj : (r.operators j).usedSigningKeys <
      ((r.handOut wanted n).operators j).usedSigningKeys) : 0 < n j := by
    rw [handOut_used] at hj
    omega
  refine ⟨_, _, hok, ?_, rfl, fun j ↦ ⟨rfl, ?_, fun hinactive ↦ ?_⟩, fun j hj ↦ ?_, ?_⟩
  · rw [hplan.assignedTotal, capacity_eq]
  · exact Nat.le_add_right _ _
  · have hnot : j ∉ r.activeIds := by
      rw [mem_activeIds hs, hinactive]
      exact Bool.false_ne_true
    rw [handOut_used, hplan.inactive j hnot, Nat.add_zero]
  · exact hplan.used_le hs (hgrown hj)
  · intro i j hi hactive hfree hroom
    exact hplan.fair hs hfair (hgrown hi) hactive hfree hroom

/-- What is returned are the keys that became used, operator by operator in the order of
their numbers, and for each in the order of the positions. -/
theorem returned_keys_are_the_new_ones (h : Reachable (registrySystem L lido) r) (wanted : ℕ) :
    ∃ pubkeys signatures r',
      r.assignNextSigningKeys L lido wanted = .ok ((pubkeys, signatures), r') ∧
      pubkeys = ((assignedKeys L r r').map Prod.fst).flatten ∧
      signatures = ((assignedKeys L r r').map Prod.snd).flatten ∧
      (∀ k ∈ assignedKeys L r r', k.1.length = 48 ∧ k.2.length = 96) ∧
      pubkeys.length = 48 * assignedTotal r r' ∧ signatures.length = 96 * assignedTotal r r' ∧
      r'.keysOpIndex = r.keysOpIndex + if 0 < assignedTotal r r' then 1 else 0 := by
  have hs := sane h
  obtain ⟨n, hplan, _, hok⟩ := assignNextSigningKeys_ok (L := L) hs wanted
  have hmem : ∀ k ∈ handedOut L r n,
      k.1.length = pubkeyLength ∧ k.2.length = signatureLength :=
    fun k hk ↦ length_of_mem_handedOut hk
  obtain ⟨hpubkeys, hsignatures⟩ := length_flatten_keys hmem
  rw [hplan.length_handedOut, Nat.mul_comm] at hpubkeys hsignatures
  refine ⟨_, _, _, hok, ?_⟩
  rw [hplan.assignedKeys hs, hplan.assignedTotal]
  refine ⟨rfl, rfl, hmem, hpubkeys, hsignatures, ?_⟩
  rw [handOut]
  split
  · rename_i hzero
    rw [hzero, if_neg (lt_irrefl 0), Nat.add_zero]
  · rename_i hpos
    rw [if_pos (Nat.pos_of_ne_zero hpos)]

/-- The key of an operator at a position is among those that the pool gets when it wants
so many. -/
def Returns (L : SigningKeyLayout) (lido : Address) (r : NodeOperatorsRegistry)
    (wanted id position : ℕ) : Prop :=
  ∃ keys r', r.assignNextSigningKeys L lido wanted = .ok (keys, r') ∧
    (r.operators id).usedSigningKeys ≤ position ∧ position < (r'.operators id).usedSigningKeys

theorem exists_returns_iff (hs : Sane lido r) {position : ℕ} :
    (∃ wanted, Returns L lido r wanted id position) ↔ (r.operators id).active = true ∧
      (r.operators id).usedSigningKeys ≤ position ∧
      position < (r.operators id).usedSigningKeys + (r.operators id).capacity := by
  constructor
  · intro h
    obtain ⟨wanted, _, _, hok, hle, hlt⟩ := h
    obtain ⟨n, hplan, _, hok'⟩ := assignNextSigningKeys_ok (L := L) hs wanted
    cases hok.symm.trans hok'
    rw [handOut_used] at hlt
    have hcapacity := hplan.le_capacity id
    refine ⟨?_, hle, by omega⟩
    rw [← mem_activeIds hs]
    by_contra hinactive
    rw [hplan.inactive id hinactive] at hlt
    omega
  · intro h
    obtain ⟨hactive, hle, hlt⟩ := h
    obtain ⟨n, hplan, _, hok⟩ := assignNextSigningKeys_ok (L := L) hs r.capacity
    have hall : n id = (r.operators id).capacity := by
      by_contra hne
      have hmem := (mem_activeIds hs).mpr hactive
      have hless := List.sum_lt_sum (l := r.activeIds) n (fun j ↦ (r.operators j).capacity)
        (fun j _ ↦ hplan.le_capacity j) ⟨id, hmem, Nat.lt_of_le_of_ne (hplan.le_capacity id) hne⟩
      rw [hplan.sum_activeIds, min_self, capacity] at hless
      exact absurd hless (lt_irrefl _)
    refine ⟨r.capacity, _, _, hok, hle, ?_⟩
    rw [handOut_used, hall]
    exact hlt

end NodeOperatorsRegistry

namespace Sample

def twoOperators : List (Call Role × Message) := [
  send 5 (.addNodeOperator "first" 11),
  send 5 (.addNodeOperator "second" 12),
  send 5 (.setNodeOperatorStakingLimit 0 2),
  send 5 (.setNodeOperatorStakingLimit 1 2),
  send 5 (.addSigningKeys 0 2 (List.replicate 96 1) (List.replicate 192 2)),
  send 5 (.addSigningKeys 1 2 (List.replicate 96 3) (List.replicate 192 4))]

theorem two_operators : ∃ r, Reachable (registrySystem layout 1) r ∧ r.capacity = 4 := by
  have hrun : reaches (registrySystem layout 1) (initializeRegistry 1) twoOperators
      (fun r ↦ decide (r.capacity = 4)) = true := by
    decide +kernel
  obtain ⟨r, h, hp⟩ := registry_of_run hrun
  exact ⟨r, h, of_decide_eq_true hp⟩

theorem three_of_four_are_assigned : ∃ r keys r', Reachable (registrySystem layout 1) r ∧
    r.assignNextSigningKeys layout 1 3 = .ok (keys, r') ∧ assignedTotal r r' = 3 := by
  obtain ⟨r, h, hcapacity⟩ := two_operators
  obtain ⟨keys, r', hok, htotal, _⟩ := assignment_is_greedy h 3
  rw [← capacity_eq, hcapacity] at htotal
  exact ⟨r, keys, r', h, hok, htotal⟩

theorem new_keys_are_whole : ∃ r pubkeys signatures r', Reachable (registrySystem layout 1) r ∧
    r.assignNextSigningKeys layout 1 3 = .ok ((pubkeys, signatures), r') ∧
    pubkeys = ((assignedKeys layout r r').map Prod.fst).flatten ∧
    pubkeys.length = 48 * assignedTotal r r' := by
  obtain ⟨r, h, _⟩ := two_operators
  obtain ⟨pubkeys, signatures, r', hok, hpubkeys, _, _, hlength, _⟩ :=
    returned_keys_are_the_new_ones h 3
  exact ⟨r, pubkeys, signatures, r', h, hok, hpubkeys, hlength⟩

end Sample

end LidoDao
