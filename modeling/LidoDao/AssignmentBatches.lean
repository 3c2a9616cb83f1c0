import LidoDao.AssignedKeys
import LidoDao.Library.FairShare

namespace LidoDao

open Evm Library.Outcome Library.ByteWords Library.FairShare Library.Transition
  NodeOperatorsRegistry

/-- A key that was assigned: whose it is, where it is stored, and its bytes. -/
structure AssignedKey where
  operatorId : ℕ
  position : ℕ
  pubkey : Bytes
  signature : Bytes

namespace NodeOperatorsRegistry

variable {L : SigningKeyLayout} {lido : Address} {r : NodeOperatorsRegistry} {n m : ℕ → ℕ}
  {wanted more id : ℕ}

/-- The keys that are used in the second state and were not in the first. -/
def newlyAssigned (L : SigningKeyLayout) (r r' : NodeOperatorsRegistry) : List AssignedKey :=
  r.ids.flatMap fun id ↦
    (List.range' (r.operators id).usedSigningKeys
      ((r'.operators id).usedSigningKeys - (r.operators id).usedSigningKeys)).map fun i ↦
      ⟨id, i, (_loadSigningKey L r id i).1, (_loadSigningKey L r id i).2⟩

def concatenated (ks : List AssignedKey) : Bytes × Bytes :=
  ((ks.map AssignedKey.pubkey).flatten, (ks.map AssignedKey.signature).flatten)

theorem concatenated_newlyAssigned (L : SigningKeyLayout) (r r' : NodeOperatorsRegistry) :
    concatenated (newlyAssigned L r r') =
      (((assignedKeys L r r').map Prod.fst).flatten,
        ((assignedKeys L r r').map Prod.snd).flatten) := by
  simp only [concatenated, newlyAssigned, assignedKeys, List.map_flatMap, List.map_map]
  rfl

section Plans

theorem fair_iff : NodeOperatorsRegistry.Fair r r.activeIds n ↔
    Library.FairShare.Fair r.activeValidators (fun id ↦ (r.operators id).capacity) r.activeIds n :=
  Iff.rfl

theorem Plan.unique (hn : Plan r wanted n) (hfairn : NodeOperatorsRegistry.Fair r r.activeIds n)
    (hm : Plan r wanted m) (hfairm : NodeOperatorsRegistry.Fair r r.activeIds m) : n = m := by
  funext id
  by_cases hid : id ∈ r.activeIds
  · exact (fair_iff.mp hfairn).unique (fair_iff.mp hfairm) (fun i _ ↦ hn.le_capacity i)
      (fun i _ ↦ hm.le_capacity i) (hn.sum_activeIds.trans hm.sum_activeIds.symm) hid
  · rw [hn.inactive id hid, hm.inactive id hid]

theorem activeIds_handOut : (r.handOut wanted n).activeIds = r.activeIds := rfl

theorem activeValidators_handOut (hs : Sane lido r) (id : ℕ) :
    (r.handOut wanted n).activeValidators id = r.activeValidators id + n id := by
  have hstopped := (hs.valid id).stopped
  simp only [activeValidators, handOut, useKeys]
  omega

theorem Plan.capacity_operator (h : Plan r wanted n) (hs : Sane lido r) (id : ℕ) :
    ((r.handOut wanted n).operators id).capacity = (r.operators id).capacity - n id := by
  have hstopped := (hs.valid id).stopped
  have hle := h.le_capacity id
  simp only [NodeOperator.capacity, handOut, useKeys] at hle ⊢
  omega

theorem Plan.capacity_handOut (h : Plan r wanted n) (hs : Sane lido r) :
    (r.handOut wanted n).capacity + min wanted r.capacity = r.capacity := by
  have hsum : (r.activeIds.map fun id ↦ ((r.handOut wanted n).operators id).capacity + n id).sum =
      r.capacity := by
    refine congrArg List.sum (List.map_congr_left fun id _ ↦ ?_)
    rw [h.capacity_operator hs]
    exact Nat.sub_add_cancel (h.le_capacity id)
  rw [List.sum_map_add, h.sum_activeIds] at hsum
  exact hsum

theorem Plan.add (hn : Plan r wanted n) (hs : Sane lido r)
    (hm : Plan (r.handOut wanted n) more m) : Plan r (wanted + more) fun id ↦ n id + m id := by
  have hcapacity := hn.capacity_handOut hs
  have htotal := hm.total
  refine ⟨fun id ↦ ?_, fun id hid ↦ ?_, ?_⟩
  · have hle := hm.le_capacity id
    have hle' := hn.le_capacity id
    rw [hn.capacity_operator hs] at hle
    omega
  · rw [hn.inactive id hid, hm.inactive id hid]
  · have hids : (r.handOut wanted n).ids = r.ids := rfl
    rw [hids] at htotal
    rw [List.sum_map_add, hn.total, htotal]
    omega

theorem Fair.handOut (hn : NodeOperatorsRegistry.Fair r r.activeIds n) (hplan : Plan r wanted n)
    (hs : Sane lido r)
    (hm : NodeOperatorsRegistry.Fair (r.handOut wanted n) (r.handOut wanted n).activeIds m) :
    NodeOperatorsRegistry.Fair r r.activeIds fun id ↦ n id + m id := by
  have hadd := fair_iff.mp hm
  simp only [activeIds_handOut, hplan.capacity_operator hs] at hadd
  rw [funext (activeValidators_handOut hs)] at hadd
  exact (fair_iff.mp hn).add hadd

end Plans

section Batches

theorem newlyAssigned_handOut : newlyAssigned L r (r.handOut wanted n) =
    r.ids.flatMap fun id ↦ (List.range' (r.operators id).usedSigningKeys (n id)).map fun i ↦
      ⟨id, i, (_loadSigningKey L r id i).1, (_loadSigningKey L r id i).2⟩ := by
  simp only [newlyAssigned, handOut_used, Nat.add_sub_cancel_left]

theorem perm_newlyAssigned : (newlyAssigned L r (r.handOut wanted n) ++
    newlyAssigned L (r.handOut wanted n) ((r.handOut wanted n).handOut more m)).Perm
      (newlyAssigned L r (r.handOut (wanted + more) fun id ↦ n id + m id)) := by
  have hids : (r.handOut wanted n).ids = r.ids := rfl
  have hload (id i : ℕ) : _loadSigningKey L (r.handOut wanted n) id i = _loadSigningKey L r id i :=
    congrFun (funext fun i ↦ _loadSigningKey_of_slots_eq rfl) i
  simp only [newlyAssigned_handOut, hids, hload, handOut_used]
  refine (List.flatMap_append_perm _ _ _).trans (List.Perm.of_eq ?_)
  refine List.flatMap_congr fun id _ ↦ ?_
  rw [← List.map_append, List.range'_append_1]

theorem assigned (hs : Sane lido r) (wanted : ℕ) :
    ∃ n, Plan r wanted n ∧ NodeOperatorsRegistry.Fair r r.activeIds n ∧
      r.assignNextSigningKeys L lido wanted =
        .ok (concatenated (newlyAssigned L r (r.handOut wanted n)), r.handOut wanted n) := by
  obtain ⟨n, hplan, hfair, hok⟩ := assignNextSigningKeys_ok (L := L) hs wanted
  refine ⟨n, hplan, hfair, ?_⟩
  rw [concatenated_newlyAssigned, hplan.assignedKeys hs]
  exact hok

theorem reachable_assigned {keys : Bytes × Bytes} {r' : NodeOperatorsRegistry}
    (h : Reachable (registrySystem L lido) r)
    (hok : r.assignNextSigningKeys L lido wanted = .ok (keys, r')) :
    Reachable (registrySystem L lido) r' := by
  refine h.step (i := (⟨lido, 0, fun _ _ ↦ false⟩, .assignNextSigningKeys wanted)) ?_
  exact bind_eq_ok.mpr ⟨_, hok, rfl⟩

theorem assign_twice (h : Reachable (registrySystem L lido) r) (wanted more : ℕ) :
    ∃ r₁ r₂ r', r.assignNextSigningKeys L lido wanted =
        .ok (concatenated (newlyAssigned L r r₁), r₁) ∧
      r₁.assignNextSigningKeys L lido more = .ok (concatenated (newlyAssigned L r₁ r₂), r₂) ∧
      r.assignNextSigningKeys L lido (wanted + more) =
        .ok (concatenated (newlyAssigned L r r'), r') ∧
      (∀ id, (r₂.operators id).usedSigningKeys = (r'.operators id).usedSigningKeys) ∧
      (newlyAssigned L r r₁ ++ newlyAssigned L r₁ r₂).Perm (newlyAssigned L r r') := by
  have hs := sane h
  obtain ⟨n, hplan, hfair, hok⟩ := assigned (L := L) hs wanted
  obtain ⟨m, hplan', hfair', hok'⟩ := assigned (L := L) (sane (reachable_assigned h hok)) more
  obtain ⟨k, hboth, hfairBoth, hokBoth⟩ := assigned (L := L) hs (wanted + more)
  obtain rfl : k = fun id ↦ n id + m id :=
    hboth.unique hfairBoth (hplan.add hs hplan') (hfair.handOut hplan hs hfair')
  refine ⟨_, _, _, hok, hok', hokBoth, fun id ↦ ?_, perm_newlyAssigned⟩
  simp only [handOut_used, Nat.add_assoc]

/-- The keys that a list of calls newly assigns, one call after the other. -/
def assignBatches (L : SigningKeyLayout) (lido : Address) :
    List ℕ → NodeOperatorsRegistry → Except Revert (List AssignedKey × NodeOperatorsRegistry)
  | [], r => .ok ([], r)
  | wanted :: batches, r => do
    let (_, r') ← r.assignNextSigningKeys L lido wanted
    let (ks, r'') ← assignBatches L lido batches r'
    pure (newlyAssigned L r r' ++ ks, r'')

theorem assign_batches (h : Reachable (registrySystem L lido) r) (batches : List ℕ) :
    ∃ ks r₁ r', assignBatches L lido batches r = .ok (ks, r₁) ∧
      r.assignNextSigningKeys L lido batches.sum =
        .ok (concatenated (newlyAssigned L r r'), r') ∧
      (∀ id, (r₁.operators id).usedSigningKeys = (r'.operators id).usedSigningKeys) ∧
      ks.Perm (newlyAssigned L r r') := by
  induction batches generalizing r with
  | nil =>
    obtain ⟨n, hplan, _, hok⟩ := assigned (L := L) (sane h) 0
    have hzero (id : ℕ) : n id = 0 := by
      have htotal := hplan.sum_activeIds
      rw [Nat.zero_min] at htotal
      by_cases hid : id ∈ r.activeIds
      · exact List.sum_eq_zero_iff_forall_eq_nat.mp htotal _ (List.mem_map_of_mem hid)
      · exact hplan.inactive id hid
    refine ⟨[], r, _, rfl, hok, fun id ↦ ?_, ?_⟩
    · rw [handOut_used, hzero, Nat.add_zero]
    · simp [newlyAssigned_handOut, hzero]
  | cons wanted batches ih =>
    obtain ⟨r₁, r₂, r', hok, hrest, hboth, hused, hperm⟩ := assign_twice h wanted batches.sum
    obtain ⟨ks, r₃, r₂', hbatches, hrest', hused', hperm'⟩ := ih (reachable_assigned h hok)
    obtain rfl : r₂' = r₂ := (Prod.mk.inj (Except.ok.inj (hrest'.symm.trans hrest))).2
    refine ⟨newlyAssigned L r r₁ ++ ks, r₃, r', ?_, hboth, fun id ↦ (hused' id).trans (hused id), ?_⟩
    · rw [assignBatches, hok, ok_bind]
      dsimp only
      rw [hbatches, ok_bind]
      rfl
    · exact (hperm'.append_left _).trans hperm

end Batches

/-- However the wanted keys are split into calls, the same ones are assigned: two calls
return the keys of one call for both, and any number of calls those of one for all. -/
theorem batches_assign_the_same_keys (h : Reachable (registrySystem L lido) r) :
    (∀ wanted more, ∃ r₁ r₂ r', r.assignNextSigningKeys L lido wanted =
        .ok (concatenated (newlyAssigned L r r₁), r₁) ∧
      r₁.assignNextSigningKeys L lido more = .ok (concatenated (newlyAssigned L r₁ r₂), r₂) ∧
      r.assignNextSigningKeys L lido (wanted + more) =
        .ok (concatenated (newlyAssigned L r r'), r') ∧
      (∀ id, (r₂.operators id).usedSigningKeys = (r'.operators id).usedSigningKeys) ∧
      (newlyAssigned L r r₁ ++ newlyAssigned L r₁ r₂).Perm (newlyAssigned L r r')) ∧
    ∀ batches, ∃ ks r₁ r', assignBatches L lido batches r = .ok (ks, r₁) ∧
      r.assignNextSigningKeys L lido batches.sum =
        .ok (concatenated (newlyAssigned L r r'), r') ∧
      (∀ id, (r₁.operators id).usedSigningKeys = (r'.operators id).usedSigningKeys) ∧
      ks.Perm (newlyAssigned L r r') :=
  ⟨assign_twice h, assign_batches h⟩

end NodeOperatorsRegistry

namespace Sample

theorem three_keys_in_batches : ∃ r ks r₁ keys r', Reachable (registrySystem layout 1) r ∧
    assignBatches layout 1 [1, 2] r = .ok (ks, r₁) ∧
    r.assignNextSigningKeys layout 1 3 = .ok (keys, r') ∧
    (r₁.operators 1).usedSigningKeys = (r'.operators 1).usedSigningKeys := by
  obtain ⟨r, h, _⟩ := two_operators
  obtain ⟨ks, r₁, r', hbatches, hok, hused, _⟩ := (batches_assign_the_same_keys h).2 [1, 2]
  exact ⟨r, ks, r₁, _, r', h, hbatches, hok, hused 1⟩

end Sample

end LidoDao
