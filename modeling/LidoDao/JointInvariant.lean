import LidoDao.JointSystem
import LidoDao.Asserts
import LidoDao.RegistrySteps
import LidoDao.RewardsDistribution

namespace LidoDao

open Evm Library.Outcome Library.ByteWords Library.Transition NodeOperatorsRegistry EtherBooks

variable {D : Deployment} {L : SigningKeyLayout} {w w' : World NodeOperatorsRegistry}
  {e : Event D (RegistryCall D)}

section Deposits

def DepositCall.key (d : DepositCall) : Bytes × Bytes := (d.pubkey, d.signature)

theorem Lido.DepositOf.map_key {s : Lido} {ks : List (Bytes × Bytes)} {calls : List DepositCall}
    (hks : ∀ k ∈ ks, k.1.length = Lido.pubkeyLength ∧ k.2.length = Lido.signatureLength)
    (h : List.Forall₂ (DepositOf s (ks.map Prod.fst).flatten (ks.map Prod.snd).flatten)
      (List.range ks.length) calls) : calls.map DepositCall.key = ks := by
  have hlength : calls.length = ks.length := by
    rw [← h.length_eq, List.length_range]
  refine List.ext_getElem (by rw [List.length_map, hlength]) fun i hi hi' ↦ ?_
  have hcall : i < calls.length := by rwa [hlength]
  have hd := (List.forall₂_iff_get.mp h).2 i (by rwa [List.length_range]) hcall
  simp only [List.get_eq_getElem, List.getElem_range] at hd
  have hpub : ∀ c ∈ ks.map Prod.fst, c.length = Lido.pubkeyLength := by
    intro c hc
    obtain ⟨k, hk, rfl⟩ := List.mem_map.mp hc
    exact (hks k hk).1
  have hsig : ∀ c ∈ ks.map Prod.snd, c.length = Lido.signatureLength := by
    intro c hc
    obtain ⟨k, hk, rfl⟩ := List.mem_map.mp hc
    exact (hks k hk).2
  have hpub' := hd.pubkey
  have hsig' := hd.signature
  rw [slice_flatten hpub (by rwa [List.length_map]), List.getElem_map] at hpub'
  rw [slice_flatten hsig (by rwa [List.length_map]), List.getElem_map] at hsig'
  rw [List.getElem_map, DepositCall.key, hpub', hsig']

theorem forall_mem_of_forall₂ {α β : Type} {R : α → β → Prop} {p : β → Prop} {as : List α}
    {bs : List β} (h : List.Forall₂ R as bs) (hp : ∀ a b, R a b → p b) : ∀ b ∈ bs, p b := by
  induction h with
  | nil => simp
  | cons hab _ ih => exact List.forall_mem_cons.mpr ⟨hp _ _ hab, ih⟩

/-- What a deposit call does when the registry is the repository's: it deposits
the keys of a plan for as many as are wanted. -/
structure KeysDeposited (L : SigningKeyLayout) (w : World NodeOperatorsRegistry) (wanted : ℕ)
    (n : ℕ → ℕ) (registry : NodeOperatorsRegistry) (calls : List DepositCall) : Prop where
  plan : Plan w.registry wanted n
  registry : ∃ keysOpIndex, registry = { w.registry.useKeys n with keysOpIndex }
  length : calls.length = min wanted w.registry.capacity
  keys : calls.map DepositCall.key = handedOut L w.registry n
  value : ∀ d ∈ calls, d.value = Lido.depositSize
  credentials : ∀ d ∈ calls, d.withdrawalCredentials = toBytes 32 w.lido.withdrawalCredentials

theorem Lido.KeyBatch.keysDeposited {wanted count : ℕ} {keys : Bytes × Bytes}
    {registry : NodeOperatorsRegistry} {calls : List DepositCall}
    (h : KeyBatch (registryContract D L) w wanted count keys registry calls)
    (hs : w.registry.Sane D.lido) :
    (∃ n, KeysDeposited L w wanted n registry calls) ∧
      count = min wanted w.registry.capacity := by
  obtain ⟨hassigned, hpubkeys, _, hcalls, _⟩ := h
  obtain ⟨n, hplan, _, hok⟩ := assignNextSigningKeys_ok (L := L) hs wanted
  have heq := hassigned.symm.trans hok
  simp only [Except.ok.injEq, Prod.mk.injEq] at heq
  obtain ⟨rfl, rfl⟩ := heq
  have hmem : ∀ k ∈ handedOut L w.registry n,
      k.1.length = Lido.pubkeyLength ∧ k.2.length = Lido.signatureLength :=
    fun k hk ↦ length_of_mem_handedOut hk
  have hlength : ((handedOut L w.registry n).map Prod.fst).flatten.length =
      (handedOut L w.registry n).length * Lido.pubkeyLength := (length_flatten_keys hmem).1
  have hcount : count = (handedOut L w.registry n).length := by
    rw [hlength] at hpubkeys
    exact (Nat.eq_of_mul_eq_mul_right (by decide) hpubkeys).symm
  have hkeys := hcalls
  rw [hcount] at hkeys
  have hcallsLength : calls.length = count := by
    rw [← hcalls.length_eq, List.length_range]
  refine ⟨⟨n, hplan, ⟨_, rfl⟩, ?_, Lido.DepositOf.map_key hmem hkeys, ?_, ?_⟩, ?_⟩
  · rw [hcallsLength, hcount, hplan.length_handedOut]
  · exact forall_mem_of_forall₂ hcalls fun _ _ hd ↦ hd.value
  · exact forall_mem_of_forall₂ hcalls fun _ _ hd ↦ hd.credentials
  · rw [hcount, hplan.length_handedOut]

end Deposits

/-- What holds of the pool and its registry together. -/
structure JointSane (D : Deployment) (w : World NodeOperatorsRegistry) : Prop where
  pool : w.lido.Sane
  registry : w.registry.Sane D.lido
  used : w.lido.depositedValidators = w.registry.usedTotal
  deposits : w.deposits.length = w.lido.depositedValidators

theorem JointSane.initial (h : (jointSystem D L).initial w) : JointSane D w := by
  obtain ⟨⟨_, _, _, _, hlido⟩, hregistry, _, hdeposits⟩ := h
  have hs := Lido.Sane.initial hlido
  obtain ⟨_, hlido⟩ := Lido._setProtocolContracts_ok hlido
  have hregistry' : w.registry = initializeRegistry D.lido := hregistry
  refine ⟨hs, ?_, ?_, ?_⟩
  · rw [hregistry']
    exact .initial
  · rw [hlido, hregistry']
    rfl
  · rw [hlido, hdeposits]
    rfl

theorem JointSane.deposit (h : JointSane D w) {maxDeposits : ℕ} {c : LidoCall D}
    (hdeposit : Lido._depositBufferedEther D (registryContract D L) c maxDeposits w = .ok w') :
    w'.registry.Sane D.lido ∧ w'.lido.depositedValidators = w'.registry.usedTotal ∧
      w'.deposits.length = w'.lido.depositedValidators := by
  rcases Lido._depositBufferedEther_ok hdeposit with ⟨_, rfl⟩ |
    ⟨_, count, amount, keys, registry, calls, hbatch, _, _, rfl⟩
  · exact ⟨h.registry, h.used, h.deposits⟩
  · obtain ⟨⟨n, hkeys⟩, hcount⟩ := hbatch.keysDeposited h.registry
    obtain ⟨keysOpIndex, rfl⟩ := hkeys.registry
    refine ⟨(h.registry.useKeys hkeys.plan.le_capacity).congr rfl rfl rfl rfl, ?_, ?_⟩
    · have hused := h.used
      have htotal : usedTotal { w.registry.useKeys n with keysOpIndex } =
          w.registry.usedTotal + (w.registry.ids.map n).sum := usedTotal_useKeys
      rw [htotal, hkeys.plan.total, ← hcount, ← hused]
      rfl
    · have hdeposits := h.deposits
      have hlength := hkeys.length
      rw [List.length_append, hdeposits, hlength, ← hcount]
      rfl

theorem JointSane.step (h : JointSane D w)
    (hstep : World.step D (registryContract D L) w e = .ok w') : JointSane D w' := by
  have hchange := World.step_change hstep
  have hpool := hchange.sane h.pool
  obtain ⟨hs, hregistry, hused, hdeposits⟩ := h
  cases hchange with
  | token _ _ | control _ | settings _ _ _ | recovered _ | forceEther _ | vaults _ =>
    exact ⟨hpool, hregistry, hused, hdeposits⟩
  | paidIn _ h =>
    obtain ⟨_, _, _, _, _, rfl⟩ := Lido._submit_ok h
    exact ⟨hpool, hregistry, hused, hdeposits⟩
  | rewardsIn h =>
    obtain ⟨_, _, rfl⟩ := Lido.receiveELRewards_eq_ok.mp h
    exact ⟨hpool, hregistry, hused, hdeposits⟩
  | credentials h =>
    obtain ⟨_, rfl⟩ := trimUnusedKeys_ok h
    exact ⟨hpool, hregistry.trimAll, hused.trans usedTotal_trimAll.symm, hdeposits⟩
  | deposited _ _ h =>
    obtain ⟨hregistry', hused', hdeposits'⟩ := JointSane.deposit ⟨hs, hregistry, hused, hdeposits⟩ h
    exact ⟨hpool, hregistry', hused', hdeposits'⟩
  | reported v b h =>
    have hframe := Lido.handleOracleReport_frame h
    refine ⟨hpool, ?_, ?_, ?_⟩
    · rw [hframe.registry]
      exact hregistry
    · rw [hframe.registry, hframe.depositedValidators]
      exact hused
    · rw [hframe.deposits, hframe.depositedValidators]
      exact hdeposits
  | @registry c registry h =>
    have hhandled := handle_ok (m := c.message) hregistry c.sender_ne_lido h
    refine ⟨hpool, hhandled.sane, ?_, hdeposits⟩
    exact hused.trans (usedTotal_eq hregistry hhandled.used hhandled.count).symm

theorem jointSane (h : Reachable (jointSystem D L) w) : JointSane D w :=
  h.invariant (fun _ hw ↦ .initial hw) fun _ _ _ _ hs hstep ↦ hs.step hstep

end LidoDao
