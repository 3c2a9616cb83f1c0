import LidoDao.RegistryAsserts

namespace LidoDao

open Evm Library.Outcome Library.Transition EtherBooks

variable {D : Deployment} {L : SigningKeyLayout}

section Unaccounted

variable {R ρ : Type} {I : INodeOperatorsRegistry R ρ} {w w' : World R} {e : Event D ρ}

/-- How each operation changes the ether that is on the balance but not in the
buffer. -/
def World.UnaccountedAsDocumented (w : World R) (e : Event D ρ) (w' : World R) : Prop :=
  match e with
  | .lido _ (.transferToVault token) =>
    w'.lido.bufferedEther = w.lido.bufferedEther ∧
      w'.lido.books.unaccounted = if token = 0 then 0 else w.lido.books.unaccounted
  | .lido _ (.receiveELRewards value) | .forceEther value =>
    w'.lido.books.unaccounted = w.lido.books.unaccounted + value
  | _ => w'.lido.books.unaccounted = w.lido.books.unaccounted

theorem World.step_unaccounted (hs : Sound w.lido.books)
    (h : World.step D I w e = .ok w') : w.UnaccountedAsDocumented e w' := by
  obtain ⟨n, x, hposts⟩ := (World.step_change h).posts
  have hchange := hposts.unaccounted hs
  cases e with
  | registry _ | forceEther _ | fundVault _ _ | deployVault _ _ _ _ => exact hchange
  | lido c m =>
    cases m with
    | transferToVault token =>
      by_cases htoken : token = 0
      · simp only [Event.entry, if_pos htoken] at hchange hposts
        rw [UnaccountedAsDocumented, if_pos htoken]
        refine ⟨?_, hchange⟩
        generalize hbooks : w'.lido.books = b' at hposts
        cases hposts
        exact congrArg Books.buffered hbooks
      · simp only [Event.entry, if_neg htoken] at hchange hposts
        rw [UnaccountedAsDocumented, if_neg htoken]
        refine ⟨?_, hchange⟩
        generalize hbooks : w'.lido.books = b' at hposts
        cases hposts
        exact congrArg Books.buffered hbooks
    | _ => exact hchange

end Unaccounted

section Joint

variable {w : World NodeOperatorsRegistry}

theorem markAsUnbuffered_ok (h : Reachable (jointSystem D L) w) {c : LidoCall D} {wanted : ℕ}
    (hwanted : wanted ≤ w.lido.bufferedEther / Lido.depositSize) {amount : ℕ}
    {w' : World NodeOperatorsRegistry}
    (hdeposit : Lido._ETH2Deposit D (registryContract D L) c wanted w = .ok (amount, w')) :
    ∃ s, w'.lido._markAsUnbuffered amount = .ok s := by
  obtain ⟨count, keys, registry, calls, hbatch, hamount, rfl⟩ := Lido._ETH2Deposit_ok hdeposit
  obtain ⟨_, hcount⟩ := hbatch.keysDeposited (jointSane h).registry
  have hle : count ≤ w.lido.bufferedEther / Lido.depositSize := by omega
  have hafford : amount ≤ w.lido.bufferedEther := by
    rw [hamount]
    exact (Nat.mul_le_mul_right _ hle).trans (Nat.div_mul_le_self _ _)
  exact ⟨_, Lido._markAsUnbuffered_eq_ok.mpr ⟨hafford, rfl⟩⟩

/-- The buffer is always backed by ether on the balance, the rest of the balance
only changes as documented, and no check of that can fail. -/
theorem buffered_ether_is_backed (h : Reachable (jointSystem D L) w) :
    w.lido.bufferedEther ≤ w.lido.balance ∧
    w.lido._getUnaccountedEther = .ok w.lido.books.unaccounted ∧
    (∀ e w', World.step D (registryContract D L) w e = .ok w' → w.UnaccountedAsDocumented e w') ∧
    (∀ e, World.step D (registryContract D L) w e ≠ .error (.assertion "_getBufferedEther") ∧
      World.step D (registryContract D L) w e ≠ .error (.assertion "_depositBufferedEther")) ∧
    ∀ c maxDeposits amount w', Lido._ETH2Deposit D (registryContract D L) c
      (if w.lido.bufferedEther / Lido.depositSize < maxDeposits then
        w.lido.bufferedEther / Lido.depositSize else maxDeposits) w = .ok (amount, w') →
      ∃ s, w'.lido._markAsUnbuffered amount = .ok s := by
  have hs := (jointSane h).pool.sound
  refine ⟨hs.backed, Lido._getUnaccountedEther_eq_ok.mpr ⟨hs.backed, rfl⟩, ?_, ?_, ?_⟩
  · intro e w' hstep
    exact World.step_unaccounted hs hstep
  · intro e
    have hsilent {site : String} (hsite : Revert.assertion site ∈ unreachable) :
        World.step D (registryContract D L) w e ≠ .error (.assertion site) := by
      intro hfail
      have hbad : ∀ r, r = Revert.assertion site → r ∈ unreachable := by
        intro r hr
        rwa [hr]
      exact jointSystem_avoids hbad h e _ hfail rfl
    exact ⟨hsilent (by decide), hsilent (by decide)⟩
  · intro c maxDeposits amount w' hdeposit
    refine markAsUnbuffered_ok h ?_ hdeposit
    split <;> omega

/-- Seven wei are forced onto the pool and recovered, five hundred stay buffered. -/
theorem recovery_of_seven_wei :
    ∃ w w', Reachable (jointSystem Sample.deployment Sample.layout) w ∧
      World.step Sample.deployment (registryContract Sample.deployment Sample.layout) w
        (Sample.admin (.transferToVault 0)) = .ok w' ∧
      w.lido._getUnaccountedEther = .ok 7 ∧ w'.lido.books.unaccounted = 0 ∧
      w'.lido.bufferedEther = 500 := by
  let step := World.step Sample.deployment (registryContract Sample.deployment Sample.layout)
  let p : World NodeOperatorsRegistry → Bool := fun w ↦
    (step w (Sample.admin (.transferToVault 0))).isOk ∧ w.lido.bufferedEther = 500 ∧
      w.lido.balance = 507
  obtain ⟨w, hw, hp⟩ := Sample.reachable_of_run (p := p) (l := [
    Sample.admin .resume,
    Sample.admin (.submit 0 500),
    .forceEther 7]) (by decide +kernel)
  obtain ⟨hok, hbuffered, hbalance⟩ := of_decide_eq_true hp
  obtain ⟨_, hunaccounted, hchange, _⟩ := buffered_ether_is_backed hw
  have hseven : w.lido.books.unaccounted = 7 := by
    change w.lido.balance - w.lido.bufferedEther = 7
    omega
  obtain ⟨w', h⟩ := exists_of_isOk hok
  obtain ⟨hkept, hnone⟩ := hchange _ w' h
  rw [hseven] at hunaccounted
  exact ⟨w, w', hw, h, hunaccounted, hnone, hkept.trans hbuffered⟩

end Joint

end LidoDao
