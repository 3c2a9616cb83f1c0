import LidoDao.KeyInvariant

namespace LidoDao

open Evm Library.Outcome Library.ByteWords Library.Transition NodeOperatorsRegistry

variable {D : Deployment} {L : SigningKeyLayout} {w : World NodeOperatorsRegistry} {v : KeyHistory}

/-- The deposits are made of supplied entries, each of them used once and never after
it was removed or discarded. Every supplied entry either is at one of its operator's
positions or was taken out, and the registry holds the bytes of those at positions. -/
theorem deposited_keys_are_genuine (h : Reachable (keySystem D L) (w, v)) :
    v.deposited.map EntryDeposit.deposit = w.deposits ∧
    (∀ d ∈ v.deposited, ∃ s ∈ v.supplies, ∃ k < s.quantity, d.entry = ⟨s, k⟩ ∧
      s.pubkeys.length = 48 * s.quantity ∧ s.signatures.length = 96 * s.quantity ∧
      d.deposit.pubkey = slice s.pubkeys (48 * k) 48 ∧
      d.deposit.signature = slice s.signatures (96 * k) 96) ∧
    (v.deposited.map EntryDeposit.entry).Nodup ∧
    (∀ d ∈ v.deposited, ∀ o, d.entry ∉ v.removed o) ∧
    (∀ o, (v.held o).map KeyEntry.pair = keys L w.registry o) ∧
    ∀ s ∈ v.supplies, ∀ k < s.quantity,
      (⟨s, k⟩ ∈ v.held s.operatorId ∧ ⟨s, k⟩ ∉ v.removed s.operatorId) ∨
      (⟨s, k⟩ ∉ v.held s.operatorId ∧ ⟨s, k⟩ ∈ v.removed s.operatorId) := by
  have hs := keyHistory_sane h
  have hheld : ∀ d ∈ v.deposited, d.entry ∈ v.held d.entry.supply.operatorId := by
    intro d hd
    obtain ⟨o, ho⟩ := hs.used d hd
    have hmem := List.mem_of_mem_take ho
    rwa [hs.operator o _ (.inl hmem)]
  have hdisjoint : ∀ o x, x ∈ v.held o → x ∉ v.removed o := fun o x hx hx' ↦
    (List.nodup_append'.mp (hs.nodup o)).2.2 hx hx'
  refine ⟨hs.deposits, ?_, hs.once, ?_, hs.keys, ?_⟩
  · intro d hd
    obtain ⟨hcall, hposition⟩ := hs.supplied _ _ (.inl (hheld d hd))
    have hsupply := List.mem_of_getElem? hcall
    obtain ⟨hpubkeys, hsignatures⟩ := hs.full _ hsupply
    obtain ⟨hpubkey, hsignature⟩ := Prod.mk.inj (hs.pair d hd)
    refine ⟨d.entry.supply, hsupply, d.entry.position, hposition, rfl, ?_, ?_, ?_, ?_⟩
    · rw [hpubkeys, Nat.mul_comm, pubkeyLength]
    · rw [hsignatures, Nat.mul_comm, signatureLength]
    · rw [hpubkey, Nat.mul_comm]
      rfl
    · rw [hsignature, Nat.mul_comm]
      rfl
  · intro d hd o hremoved
    have ho := hs.operator o _ (.inr hremoved)
    rw [← ho] at hremoved
    exact hdisjoint _ _ (hheld d hd) hremoved
  · intro s hsupply k hk
    rcases hs.complete s hsupply ⟨s, k⟩ (Supply.mem_entries.mpr ⟨rfl, hk⟩) with hmem | hmem
    · exact .inl ⟨hmem, hdisjoint _ _ hmem⟩
    · exact .inr ⟨fun hmem' ↦ hdisjoint _ _ hmem' hmem, hmem⟩

/-- The key of every deposit was supplied under the withdrawal credentials of that
deposit, and these were not set again in between. -/
theorem deposited_keys_are_current (h : Reachable (keySystem D L) (w, v)) :
    v.deposited.map EntryDeposit.deposit = w.deposits ∧
    ∀ d ∈ v.deposited, d.entry.supply ∈ v.supplies ∧
      (d.deposit.pubkey, d.deposit.signature) = d.entry.pair ∧
      d.entry.supply.epoch = d.epoch ∧
      d.deposit.withdrawalCredentials = toBytes 32 d.entry.supply.credentials := by
  have hs := keyHistory_sane h
  refine ⟨hs.deposits, fun d hd ↦ ?_⟩
  obtain ⟨o, ho⟩ := hs.used d hd
  have hsupplied := hs.supplied o _ (.inl (List.mem_of_mem_take ho))
  exact ⟨List.mem_of_getElem? hsupplied.1, hs.pair d hd, hs.dated d hd⟩

namespace Sample

def keyRun : List (Event deployment (RegistryCall deployment)) := depositRun ++ [
  admin .depositBufferedEther,
  registry (.addSigningKeys 0 2 (List.replicate 96 3) (List.replicate 192 4)),
  registry (.removeSigningKey 0 3),
  admin (.setWithdrawalCredentials 8),
  registry (.setNodeOperatorStakingLimit 0 9),
  registry (.addSigningKeys 0 1 (List.replicate 48 5) (List.replicate 96 6)),
  admin (.submit 0 (70 * 10 ^ 18)),
  admin .depositBufferedEther]

theorem exists_history {p : World NodeOperatorsRegistry × KeyHistory → Bool}
    (h : reaches (keySystem deployment layout) (start, .start) keyRun p = true) :
    ∃ s, Reachable (keySystem deployment layout) s ∧ p s = true := by
  have hstart : Reachable (keySystem deployment layout) (start, .start) :=
    .initial ⟨⟨⟨0, 2, 3, 4, rfl⟩, rfl, rfl, rfl⟩, rfl⟩
  exact hstart.of_reaches h

end Sample

theorem three_of_five_supplied_keys_are_deposited :
    ∃ w v, Reachable (keySystem Sample.deployment Sample.layout) (w, v) ∧
      w.deposits.length = 3 ∧ (v.removed 0).length = 2 ∧
      (v.deposited.map EntryDeposit.entry).Nodup ∧
      ∀ d ∈ v.deposited, ∀ o, d.entry ∉ v.removed o := by
  let p : World NodeOperatorsRegistry × KeyHistory → Bool := fun s ↦
    s.1.deposits.length = 3 ∧ (s.2.removed 0).length = 2
  obtain ⟨⟨w, v⟩, h, hp⟩ := Sample.exists_history (p := p) (by decide +kernel)
  obtain ⟨hdeposits, hremoved⟩ := of_decide_eq_true hp
  obtain ⟨_, _, honce, hnever, _⟩ := deposited_keys_are_genuine h
  exact ⟨w, v, h, hdeposits, hremoved, honce, hnever⟩

theorem deposits_under_two_credentials :
    ∃ w v, Reachable (keySystem Sample.deployment Sample.layout) (w, v) ∧
      v.deposited.map EntryDeposit.epoch = [1, 1, 2] ∧
      v.deposited.map (fun d ↦ d.entry.supply.epoch) = [1, 1, 2] := by
  let p : World NodeOperatorsRegistry × KeyHistory → Bool := fun s ↦
    s.2.deposited.map EntryDeposit.epoch = [1, 1, 2]
  obtain ⟨⟨w, v⟩, h, hp⟩ := Sample.exists_history (p := p) (by decide +kernel)
  have hepochs := of_decide_eq_true hp
  refine ⟨w, v, h, hepochs, ?_⟩
  rw [← hepochs]
  exact List.map_congr_left fun d hd ↦ ((deposited_keys_are_current h).2 d hd).2.2.1

end LidoDao
