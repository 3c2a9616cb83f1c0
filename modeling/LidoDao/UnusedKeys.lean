import LidoDao.AttestationReplay

namespace LidoDao

open Evm Library.Outcome Library.ByteWords Library.Transition Library.Positions NodeOperatorsRegistry

namespace NodeOperatorsRegistry

variable {L : SigningKeyLayout} {lido : Address} {r r' : NodeOperatorsRegistry} {m : Message}
  {n : ℕ → ℕ} {wanted : ℕ}

/-- The keys behind the used ones of any operator, assignable or not. -/
def unusedKeys (L : SigningKeyLayout) (r : NodeOperatorsRegistry) : Set (Bytes × Bytes) :=
  { key | ∃ o, key ∈ (keys L r o).drop (r.operators o).usedSigningKeys }

theorem unusedKeys_subset (hkeys : ∀ o, keys L r' o = keys L r o)
    (hused : ∀ o, (r.operators o).usedSigningKeys ≤ (r'.operators o).usedSigningKeys) :
    unusedKeys L r' ⊆ unusedKeys L r := by
  intro key h
  obtain ⟨o, hkey⟩ := h
  rw [hkeys] at hkey
  exact ⟨o, (List.drop_sublist_drop_left _ (hused o)).subset hkey⟩

theorem unusedKeys_trimAll (hs : Sane lido r) : unusedKeys L r.trimAll = ∅ := by
  refine Set.eq_empty_of_forall_notMem ?_
  intro key h
  obtain ⟨o, hkey⟩ := h
  rw [keys_trimAll hs, used_trimAll, List.drop_of_length_le] at hkey
  · exact absurd hkey List.not_mem_nil
  · exact List.length_take_le _ _

theorem unusedKeys_useKeys (keysOpIndex : ℕ) :
    unusedKeys L { r.useKeys n with keysOpIndex } ⊆ unusedKeys L r := by
  refine unusedKeys_subset (fun o ↦ ?_) fun o ↦ Nat.le_add_right _ _
  exact keys_useKeys (r := r) o

theorem mem_unusedKeys_of_handedOut {key : Bytes × Bytes} (h : key ∈ handedOut L r n) :
    key ∈ unusedKeys L r := by
  obtain ⟨o, _, hkey⟩ := List.mem_flatMap.mp h
  exact ⟨o, List.mem_of_mem_take hkey⟩

theorem Change.keys_eq (h : Change L r m r') (hs : Sane lido r) (hm : m.onlyLido = false)
    (hindex : r'.keysOpIndex = r.keysOpIndex) (o : ℕ) : keys L r' o = keys L r o := by
  have hhandled := (h.handled hs hm).keys o
  cases h with
  | operatorAdded hr | activitySet hr | renamed hr | addressSet hr | limitSet hr | stopped hr =>
    exact hhandled
  | trimmed | keysAssigned _ _ => cases hm
  | keysAdded _ hr =>
    obtain ⟨_, _, _, _, slots, rfl, _⟩ := _addSigningKeys_ok hr
    exact absurd hindex (Nat.succ_ne_self _)
  | @keysRemoved _ o index amount _ _ hr =>
    rw [removeKeys_keysOpIndex hr] at hindex
    obtain rfl : amount = 0 := by omega
    cases hr
    rfl

end NodeOperatorsRegistry

variable {D : Deployment} {L : SigningKeyLayout} {G : Guarding}

section Pool

variable {w w' : World NodeOperatorsRegistry} {e : Event D (RegistryCall D)}

theorem deposit_unusedKeys (hs : JointSane D w) {c : LidoCall D} {n : ℕ}
    (h : Lido._depositBufferedEther D (registryContract D L) c n w = .ok w') :
    unusedKeys L w'.registry ⊆ unusedKeys L w.registry ∧
    ∃ calls, w'.deposits = w.deposits ++ calls ∧ ∀ d ∈ calls, d.key ∈ unusedKeys L w.registry ∧
      d.withdrawalCredentials = toBytes 32 w.lido.withdrawalCredentials := by
  rcases Lido._depositBufferedEther_ok h with ⟨_, rfl⟩ |
    ⟨_, count, amount, keys, registry, calls, hbatch, _, _, rfl⟩
  · exact ⟨subset_rfl, [], by simp, by simp⟩
  · obtain ⟨⟨n, hkeys⟩, _⟩ := hbatch.keysDeposited hs.registry
    obtain ⟨keysOpIndex, rfl⟩ := hkeys.registry
    refine ⟨unusedKeys_useKeys keysOpIndex, calls, rfl, fun d hd ↦ ⟨?_, hkeys.credentials d hd⟩⟩
    apply mem_unusedKeys_of_handedOut (n := n)
    rw [← hkeys.keys]
    exact List.mem_map_of_mem hd

theorem unusedKeys_step (hs : JointSane D w) (hstep : (jointSystem D L).step w e = .ok w')
    (hindex : w'.registry.keysOpIndex = w.registry.keysOpIndex) :
    unusedKeys L w'.registry ⊆ unusedKeys L w.registry := by
  cases World.step_change hstep with
  | token | control | settings | paidIn | rewardsIn | recovered | forceEther | vaults =>
    exact subset_rfl
  | credentials h =>
    obtain ⟨_, rfl⟩ := trimUnusedKeys_ok h
    exact (unusedKeys_trimAll hs.registry).trans_subset (Set.empty_subset _)
  | deposited _ _ h => exact (deposit_unusedKeys hs h).1
  | reported v b h =>
    rw [(Lido.handleOracleReport_frame h).registry]
  | @registry c registry h =>
    have hchange := handle_change hs.registry h
    have hhandled := handle_ok (m := c.message) hs.registry c.sender_ne_lido h
    have hm : c.message.onlyLido = false := by
      cases hm : c.message.onlyLido with
      | false => rfl
      | true => exact absurd (sender_eq_lido hs.registry h hm) c.sender_ne_lido
    exact unusedKeys_subset (hchange.keys_eq hs.registry hm hindex) fun o ↦ (hhandled.used o).ge

end Pool

end LidoDao
