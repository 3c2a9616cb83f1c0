import LidoDao.AssignmentBatches
import LidoDao.Library.ConvexCost

namespace LidoDao

open Evm Library.Outcome Library.FairShare Library.Transition NodeOperatorsRegistry

namespace NodeOperatorsRegistry

variable {L : SigningKeyLayout} {lido : Address} {r : NodeOperatorsRegistry} {n : ℕ → ℕ}
  {wanted : ℕ}

theorem length_newlyAssigned :
    (newlyAssigned L r (r.handOut wanted n)).length = (r.ids.map n).sum := by
  simp only [newlyAssigned_handOut, List.length_flatMap, List.length_map, List.length_range']

theorem Plan.zero (r : NodeOperatorsRegistry) : Plan r 0 fun _ ↦ 0 := by
  refine ⟨fun _ ↦ Nat.zero_le _, fun _ _ ↦ rfl, ?_⟩
  rw [Nat.zero_min, List.map_const', List.sum_replicate, smul_zero]

theorem fair_zero (r : NodeOperatorsRegistry) (ids : List ℕ) :
    NodeOperatorsRegistry.Fair r ids fun _ ↦ 0 := by
  intro i _ j _ hpos
  exact absurd hpos (lt_irrefl 0)

theorem assignBatches_plan (h : Reachable (registrySystem L lido) r) (batches : List ℕ) :
    ∃ n ks r', assignBatches L lido batches r = .ok (ks, r') ∧ Plan r batches.sum n ∧
      NodeOperatorsRegistry.Fair r r.activeIds n ∧ ks.length = (r.ids.map n).sum ∧
      ∀ id, r'.activeValidators id = r.activeValidators id + n id := by
  induction batches generalizing r with
  | nil =>
    refine ⟨fun _ ↦ 0, [], r, rfl, .zero r, fair_zero r _, ?_, fun _ ↦ rfl⟩
    rw [List.length_nil, List.map_const', List.sum_replicate, smul_zero]
  | cons wanted batches ih =>
    have hs := sane h
    obtain ⟨n, hplan, hfair, hok⟩ := assigned (L := L) hs wanted
    obtain ⟨m, ks, r', hrest, hplan', hfair', hlength, hvalidators⟩ :=
      ih (reachable_assigned h hok)
    have hids : (r.handOut wanted n).ids = r.ids := rfl
    refine ⟨fun id ↦ n id + m id, newlyAssigned L r (r.handOut wanted n) ++ ks, r', ?_, ?_,
      hfair.handOut hplan hs hfair', ?_, ?_⟩
    · rw [assignBatches, hok, ok_bind]
      dsimp only
      rw [hrest, ok_bind]
      rfl
    · rw [List.sum_cons]
      exact hplan.add hs hplan'
    · rw [List.length_append, length_newlyAssigned, hlength, hids, List.sum_map_add]
    · intro id
      rw [hvalidators, activeValidators_handOut hs, Nat.add_assoc]

variable {α : Type} [AddCommGroup α] [LinearOrder α] [IsOrderedAddMonoid α] {f : ℕ → α}

/-- Keys are assigned as evenly as can be: however the validators of an operator are priced, if
each one more costs at least as much as the one before, no other way to use as many keys within the
operators' capacities costs less. -/
theorem assignment_is_most_even (h : Reachable (registrySystem L lido) r) (hf : Convex f)
    (batches : List ℕ) :
    ∃ ks r', assignBatches L lido batches r = .ok (ks, r') ∧
      ∀ m : ℕ → ℕ, (∀ id ∈ r.activeIds, m id ≤ (r.operators id).capacity) →
        (r.activeIds.map m).sum = ks.length →
        (r.activeIds.map fun id ↦ f (r'.activeValidators id)).sum ≤
          (r.activeIds.map fun id ↦ f (r.activeValidators id + m id)).sum := by
  obtain ⟨n, ks, r', hok, hplan, hfair, hlength, hvalidators⟩ :=
    assignBatches_plan h batches
  refine ⟨ks, r', hok, ?_⟩
  intro m hm hsum
  have hsame : (r.activeIds.map n).sum = (r.activeIds.map m).sum := by
    rw [hsum, hlength, hplan.sum_activeIds, hplan.total]
  simp only [hvalidators]
  exact (fair_iff.mp hfair).cost_le hf hm hsame

end NodeOperatorsRegistry

namespace Sample

theorem convex_square : Convex fun x : ℕ ↦ (x : ℤ) ^ 2 := by
  intro x y h
  have hodd (z : ℕ) : marginal (fun x : ℕ ↦ (x : ℤ) ^ 2) z = 2 * z + 1 := by
    simp only [marginal]
    push_cast
    ring
  have hle : (x : ℤ) ≤ y := Nat.cast_le.mpr h
  rw [hodd, hodd]
  linarith

/-- Of two operators with room for two keys each one gets two of three keys and the other one. -/
theorem three_keys_are_spread : ∃ r ks r', Reachable (registrySystem layout 1) r ∧
    assignBatches layout 1 [1, 2] r = .ok (ks, r') ∧
    (r'.activeValidators 0 : ℤ) ^ 2 + (r'.activeValidators 1 : ℤ) ^ 2 ≤ 5 := by
  have hrun : reaches (registrySystem layout 1) (initializeRegistry 1) twoOperators (fun r ↦ decide
      (r.activeIds = [0, 1] ∧ r.capacity = 4 ∧ (r.operators 0).capacity = 2 ∧
        (r.operators 1).capacity = 2 ∧ r.activeValidators 0 = 0 ∧
        r.activeValidators 1 = 0)) = true := by
    decide +kernel
  obtain ⟨r, h, hp⟩ := registry_of_run hrun
  obtain ⟨hactive, htotal, hcapacity, hcapacity', hidle, hidle'⟩ := of_decide_eq_true hp
  obtain ⟨ks, r', hok, hleast⟩ := assignment_is_most_even h convex_square [1, 2]
  obtain ⟨n, _, _, hok', hplan, _, hlength, _⟩ := assignBatches_plan h [1, 2]
  obtain ⟨rfl, rfl⟩ := Prod.mk.inj (Except.ok.inj (hok.symm.trans hok'))
  have hthree : ks.length = 3 := by
    rw [hlength, hplan.total, htotal]
    rfl
  refine ⟨r, ks, r', h, hok, ?_⟩
  have hcost := hleast (fun id ↦ if id = 0 then 2 else 1) ?_ ?_
  · rw [hactive] at hcost
    simpa [hidle, hidle'] using hcost
  · rw [hactive]
    simp [hcapacity, hcapacity']
  · rw [hactive, hthree]
    rfl

end Sample

end LidoDao
