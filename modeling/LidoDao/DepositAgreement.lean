import LidoDao.RegistryAsserts

namespace LidoDao

open Evm Library.Outcome Library.Transition NodeOperatorsRegistry EtherBooks

variable {D : Deployment} {L : SigningKeyLayout} {w w' : World NodeOperatorsRegistry}
  {e : Event D (RegistryCall D)}

theorem World.step_deposit {R ρ : Type} {I : INodeOperatorsRegistry R ρ} {w w' : World R}
    {e : Event D ρ} {maxDeposits : ℕ} (he : e.maxDeposits = some maxDeposits)
    (hstep : World.step D I w e = .ok w') :
    ∃ c, Lido._depositBufferedEther D I c maxDeposits w = .ok w' := by
  cases World.step_effect hstep with
  | depositBufferedEther _ h | depositBufferedEtherUpTo _ h =>
    cases he
    exact ⟨_, h⟩
  | _ => cases he

/-- `k` deposits were made out of the buffer, each of a key the registry counts as
used from then on. -/
structure DepositsMade (w : World NodeOperatorsRegistry) (k : ℕ) (w' : World NodeOperatorsRegistry) :
    Prop where
  deposits : ∃ calls, w'.deposits = w.deposits ++ calls ∧ calls.length = k ∧
    ∀ d ∈ calls, d.value = Lido.depositSize
  bufferedEther : w'.lido.bufferedEther + k * Lido.depositSize = w.lido.bufferedEther
  balance : w'.lido.balance + k * Lido.depositSize = w.lido.balance
  depositedValidators : w'.lido.depositedValidators = w.lido.depositedValidators + k
  usedTotal : w'.registry.usedTotal = w.registry.usedTotal + k

theorem depositsMade (h : JointSane D w) {c : LidoCall D} {maxDeposits : ℕ}
    (hdeposit : Lido._depositBufferedEther D (registryContract D L) c maxDeposits w = .ok w')
    (hbuffer : Lido.depositSize ≤ w.lido.bufferedEther) :
    DepositsMade w (min (min (w.lido.bufferedEther / Lido.depositSize) maxDeposits)
      w.registry.capacity) w' := by
  rcases Lido._depositBufferedEther_ok hdeposit with ⟨hlt, _⟩ |
    ⟨_, count, amount, keys, registry, calls, hbatch, hamount, hle, rfl⟩
  · omega
  · obtain ⟨⟨n, hkeys⟩, hcount⟩ := hbatch.keysDeposited h.registry
    obtain ⟨keysOpIndex, rfl⟩ := hkeys.registry
    have hbacked : w.lido.bufferedEther ≤ w.lido.balance := h.pool.sound.backed
    rw [← hcount]
    refine ⟨⟨calls, rfl, ?_, hkeys.value⟩, ?_, ?_, rfl, ?_⟩
    · rw [hkeys.length, hcount]
    · rw [← hamount]
      exact Nat.sub_add_cancel hle
    · rw [← hamount]
      exact Nat.sub_add_cancel (hle.trans hbacked)
    · have htotal : usedTotal { w.registry.useKeys n with keysOpIndex } =
          w.registry.usedTotal + (w.registry.ids.map n).sum := usedTotal_useKeys
      rw [htotal, hkeys.plan.total, ← hcount]

/-- The pool's counter, the keys that the registry counts as used and the deposits
made agree, and a deposit call makes as many deposits as the buffer, the caller's limit and
the registry allow. -/
theorem pool_and_registry_agree (h : Reachable (jointSystem D L) w) :
    w.lido.depositedValidators = w.registry.usedTotal ∧
    w.deposits.length = w.lido.depositedValidators ∧
    ∀ (e : Event D (RegistryCall D)) (maxDeposits : ℕ), e.maxDeposits = some maxDeposits →
      (∀ w', World.step D (registryContract D L) w e = .ok w' →
        (Lido.depositSize ≤ w.lido.bufferedEther →
          DepositsMade w (min (min (w.lido.bufferedEther / Lido.depositSize) maxDeposits)
            w.registry.capacity) w') ∧
        (w.lido.bufferedEther < Lido.depositSize → w' = w)) ∧
      ∀ text ∈ ["REGISTRY_INCONSISTENT_PUBKEYS_LEN", "REGISTRY_INCONSISTENT_SIG_LEN",
        "REGISTRY_INCONSISTENT_SIG_COUNT"],
        World.step D (registryContract D L) w e ≠ .error (.reason text) := by
  have hs := jointSane h
  refine ⟨hs.used, hs.deposits, ?_⟩
  intro e maxDeposits he
  refine ⟨?_, ?_⟩
  · intro w' hstep
    obtain ⟨c, hdeposit⟩ := World.step_deposit he hstep
    refine ⟨depositsMade hs hdeposit, ?_⟩
    intro hbuffer
    rcases Lido._depositBufferedEther_ok hdeposit with ⟨_, rfl⟩ | ⟨hge, _⟩
    · rfl
    · omega
  · intro text htext hfail
    have hunreachable : Revert.reason text ∈ unreachable := by
      simp only [List.mem_cons, List.not_mem_nil, or_false] at htext
      rcases htext with rfl | rfl | rfl <;> decide
    have hbad : ∀ r, r = Revert.reason text → r ∈ unreachable := by
      intro r hr
      rwa [hr]
    exact jointSystem_avoids hbad h e _ hfail rfl

/-- Seventy ether pay for the two keys there are. -/
theorem two_deposits_out_of_seventy_ether :
    ∃ w w', Reachable (jointSystem Sample.deployment Sample.layout) w ∧
      World.step Sample.deployment (registryContract Sample.deployment Sample.layout) w
        (Sample.admin .depositBufferedEther) = .ok w' ∧ DepositsMade w 2 w' := by
  let step := World.step Sample.deployment (registryContract Sample.deployment Sample.layout)
  let p : World NodeOperatorsRegistry → Bool := fun w ↦
    (step w (Sample.admin .depositBufferedEther)).isOk ∧
      Lido.depositSize ≤ w.lido.bufferedEther ∧
      min (min (w.lido.bufferedEther / Lido.depositSize) Lido.defaultMaxDepositsPerCall)
        w.registry.capacity = 2
  obtain ⟨w, hw, hp⟩ := Sample.reachable_of_run (p := p) (l := Sample.depositRun)
    (by decide +kernel)
  obtain ⟨hok, hbuffered, htwo⟩ := of_decide_eq_true hp
  obtain ⟨w', h⟩ := exists_of_isOk hok
  have hmade := (((pool_and_registry_agree hw).2.2 _ _ rfl).1 w' h).1 hbuffered
  rw [htwo] at hmade
  exact ⟨w, w', hw, h, hmade⟩

end LidoDao
