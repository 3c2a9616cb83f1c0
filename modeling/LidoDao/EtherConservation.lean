import LidoDao.JointSystem
import LidoDao.PoolInvariants

namespace LidoDao

open Evm Library.Outcome Library.ByteWords Library.Ledger Library.Transition EtherBooks
open scoped BigOperators

namespace EtherBooks

/-- What an entry makes of the balance. -/
def Entry.balanceAfter (unit : ℕ) (b : Books) : Entry → ℕ
  | .idle => b.balance
  | .paidIn value | .credited value | .rewardsIn value | .reported _ _ value => b.balance + value
  | .deposited count => b.balance - count * unit
  | .recovered => b.buffered

theorem Posts.balance {unit : ℕ} {b b' : Books} {e : Entry} (h : Posts unit b e b') :
    b'.balance = e.balanceAfter unit b := by
  cases h with
  | idle | paidIn | credited | rewardsIn | deposited | reported | recovered => rfl

end EtherBooks

variable {R ρ : Type} {D : Deployment} {I : INodeOperatorsRegistry R ρ} {w w' : World R}
  {c : LidoCall D}

section Vaults

variable {vaults : Address → Option ELRewardsVault} {vault : Address} {amount : ℕ}

/-- The ether of all vaults; irreducible, as nothing should add up over all addresses. -/
@[irreducible] def vaultsEther (vaults : Address → Option ELRewardsVault) : ℕ :=
  ∑ a, (vaults a).elim 0 ELRewardsVault.balance

/-- What reaches a vault that is sent ether; nothing, where there is no vault. -/
def reaching (vaults : Address → Option ELRewardsVault) (vault : Address) (amount : ℕ) : ℕ :=
  if (vaults vault).isSome then amount else 0

theorem reaching_le (vaults : Address → Option ELRewardsVault) (vault : Address) (amount : ℕ) :
    reaching vaults vault amount ≤ amount := by
  unfold reaching
  split <;> omega

theorem vaultsEther_update (vaults : Address → Option ELRewardsVault) (vault : Address)
    (v : ELRewardsVault) : vaultsEther (Function.update vaults vault (some v)) +
      (vaults vault).elim 0 ELRewardsVault.balance = vaultsEther vaults + v.balance := by
  have hcomp : (fun a ↦ (Function.update vaults vault (some v) a).elim 0 ELRewardsVault.balance) =
      Function.update (fun a ↦ (vaults a).elim 0 ELRewardsVault.balance) vault v.balance :=
    Function.comp_update (fun o : Option ELRewardsVault ↦ o.elim 0 ELRewardsVault.balance)
      vaults vault (some v)
  have hsum := sum_update_add (fun a ↦ (vaults a).elim 0 ELRewardsVault.balance) vault v.balance
  rw [← hcomp] at hsum
  unfold vaultsEther
  exact hsum

theorem vaultsEther_receive : vaultsEther (fun a ↦
    if a = vault then (vaults a).map (·.receive amount) else vaults a) =
      vaultsEther vaults + reaching vaults vault amount := by
  cases hvault : vaults vault with
  | none =>
    have hnone : reaching vaults vault amount = 0 := by
      rw [reaching, hvault]
      rfl
    rw [hnone, Nat.add_zero]
    refine congrArg vaultsEther (funext fun a ↦ ?_)
    by_cases ha : a = vault
    · rw [if_pos ha, ha, hvault]
      rfl
    · rw [if_neg ha]
  | some v =>
    have hupdate : (fun a ↦ if a = vault then (vaults a).map (·.receive amount) else vaults a) =
        Function.update vaults vault (some (v.receive amount)) := by
      funext a
      by_cases ha : a = vault
      · rw [if_pos ha, ha, hvault, Function.update_self]
        rfl
      · rw [if_neg ha, Function.update_of_ne ha]
    have hsome : reaching vaults vault amount = amount := by
      rw [reaching, hvault]
      rfl
    have hbalance : (v.receive amount).balance = v.balance + amount := rfl
    have hsum := vaultsEther_update vaults vault (v.receive amount)
    rw [hvault, Option.elim_some, hbalance] at hsum
    rw [hupdate, hsome]
    omega

end Vaults

/-- The ether of the pool, of its deposits and of the vaults. -/
@[irreducible] def World.ether (w : World R) : ℕ :=
  w.lido.balance + (w.deposits.map DepositCall.value).sum + vaultsEther w.vaults

/-- The ether that comes from elsewhere with an event. -/
def Event.enters (w : World R) : Event D ρ → ℕ
  | .lido _ (.submit _ msgValue) | .lido _ (.fallback _ msgValue)
  | .lido _ (.receiveELRewards msgValue) => msgValue
  | .forceEther amount => amount
  | .fundVault vault amount => reaching w.vaults vault amount
  | .deployVault _ _ _ balance => balance
  | _ => 0

/-- The ether that goes elsewhere: what is recovered to an account that is no vault. -/
def Event.leaves (w : World R) : Event D ρ → ℕ
  | .lido c (.transferToVault token) =>
    if token = 0 then w.lido.books.unaccounted -
      reaching w.vaults c.recoveryVault w.lido.books.unaccounted
    else 0
  | _ => 0

section Steps

theorem pool_ether {e : Event D ρ} {s : Lido} {amount : ℕ}
    (h : World.step D I w e = .ok { w with lido := s })
    (hentry : ∀ n x, (e.entry n x).balanceAfter Lido.depositSize w.lido.books =
      w.lido.balance + amount) : World.ether { w with lido := s } = w.ether + amount := by
  obtain ⟨n, x, hposts⟩ := (World.step_change h).posts
  have hbalance : s.balance = w.lido.balance + amount := hposts.balance.trans (hentry n x)
  rw [World.ether, World.ether]
  dsimp only
  omega

theorem sum_values {s : Lido} {pubkeys signatures : Bytes} {is : List ℕ} {calls : List DepositCall}
    (h : List.Forall₂ (Lido.DepositOf s pubkeys signatures) is calls) :
    (calls.map DepositCall.value).sum = is.length * Lido.depositSize := by
  induction h with
  | nil => rw [List.length_nil, Nat.zero_mul, List.map_nil, List.sum_nil]
  | cons hd _ ih =>
    rw [List.map_cons, List.sum_cons, hd.value, ih, List.length_cons, add_one_mul, Nat.add_comm]

theorem deposit_ether {maxDeposits : ℕ}
    (h : Lido._depositBufferedEther D I c maxDeposits w = .ok w') : w'.ether = w.ether := by
  rcases Lido._depositBufferedEther_ok h with ⟨_, rfl⟩ |
    ⟨_, count, amount, keys, registry, calls, hbatch, hamount, _, rfl⟩
  · rfl
  · have hvalues := sum_values hbatch.calls
    rw [List.length_range, ← hamount] at hvalues
    have hpaid : amount ≤ w.lido.balance := hamount ▸ hbatch.affordable
    have hbalance : (w.lido.launch count amount).balance = w.lido.balance - amount := rfl
    rw [World.ether, World.ether]
    dsimp only
    rw [hbalance, List.map_append, List.sum_append, hvalues]
    omega

theorem withdrawn_ether {x : ℕ} {vaults : Address → Option ELRewardsVault}
    (h : Lido.Withdrawn D w x vaults) : vaultsEther vaults + x = vaultsEther w.vaults := by
  cases h with
  | noVault => exact Nat.add_zero _
  | @vault v hne hvault hlido =>
    have hsum := vaultsEther_update w.vaults w.lido.elRewardsVault
      { v with balance := v.balance - min v.balance w.lido.withdrawalCap }
    have hle := Nat.min_le_left v.balance w.lido.withdrawalCap
    rw [hvault, Option.elim_some] at hsum
    dsimp only at hsum
    omega

theorem report_ether {v b : ℕ} (h : Lido.handleOracleReport D I c.sender v b w = .ok w') :
    w'.ether = w.ether := by
  obtain ⟨_, _, x, vaults, s, hwithdrawn, rfl, hbooks⟩ := Lido.handleOracleReport_books h
  have hbalance : s.balance = w.lido.balance + x := congrArg Books.balance hbooks
  have hvaults : vaultsEther vaults + x = vaultsEther w.vaults :=
    withdrawn_ether (w := { w with lido := w.lido.report v b }) hwithdrawn
  rw [World.ether, World.ether]
  dsimp only
  omega

theorem recover_ether (h : w.lido.bufferedEther ≤ w.lido.balance) :
    World.ether { w with
      lido := { w.lido with balance := w.lido.bufferedEther }
      vaults := fun a ↦ if a = c.recoveryVault then
        (w.vaults a).map (·.receive (w.lido.balance - w.lido.bufferedEther)) else w.vaults a } +
      (Event.lido c (.transferToVault 0) : Event D ρ).leaves w = w.ether := by
  have hunaccounted : w.lido.books.unaccounted = w.lido.balance - w.lido.bufferedEther := rfl
  have hreaching := reaching_le w.vaults c.recoveryVault (w.lido.balance - w.lido.bufferedEther)
  rw [Event.leaves, if_pos rfl, World.ether, World.ether]
  dsimp only
  rw [vaultsEther_receive, hunaccounted]
  omega

variable {e : Event D ρ}

theorem flow_of_brought {amount : ℕ} (h : w'.ether = w.ether + amount) (hleaves : e.leaves w = 0)
    (henters : e.enters w = amount) : w'.ether + e.leaves w = w.ether + e.enters w := by
  rw [hleaves, henters, h, Nat.add_zero]

theorem flow_of_same (h : w'.ether = w.ether) (hleaves : e.leaves w = 0)
    (henters : e.enters w = 0) : w'.ether + e.leaves w = w.ether + e.enters w := by
  rw [hleaves, henters, h]

theorem force_ether {amount : ℕ} :
    World.ether { w with lido := w.lido.receive amount } = w.ether + amount := by
  have hbalance : (w.lido.receive amount).balance = w.lido.balance + amount := rfl
  rw [World.ether, World.ether]
  dsimp only
  omega

theorem fund_ether {vault : Address} {amount : ℕ} :
    World.ether { w with vaults := fun a ↦
      if a = vault then (w.vaults a).map (·.receive amount) else w.vaults a } =
        w.ether + reaching w.vaults vault amount := by
  rw [World.ether, World.ether]
  dsimp only
  rw [vaultsEther_receive]
  omega

theorem deploy_ether {vault : Address} {v : ELRewardsVault} (hnone : w.vaults vault = none) :
    World.ether { w with vaults := Function.update w.vaults vault (some v) } =
      w.ether + v.balance := by
  have hsum := vaultsEther_update w.vaults vault v
  rw [hnone, Option.elim_none] at hsum
  rw [World.ether, World.ether]
  dsimp only
  omega

/-- Every wei that is there after a step was there before or came in with it. -/
theorem step_ether (hstep : World.step D I w e = .ok w') :
    w'.ether + e.leaves w = w.ether + e.enters w := by
  cases World.step_effect hstep with
  | registry | setWithdrawalCredentials =>
    refine flow_of_same ?_ rfl rfl
    rw [World.ether, World.ether]
  | forceEther amount => exact flow_of_brought force_ether rfl rfl
  | fundVault vault amount => exact flow_of_brought fund_ether rfl rfl
  | deployVault hvault h =>
    simp only [ELRewardsVault.constructor, bind_eq_ok, require_eq_ok, exists_const, pure_eq,
      Except.ok.injEq] at h
    obtain ⟨_, _, rfl⟩ := h
    exact flow_of_brought (deploy_ether hvault.2) rfl rfl
  | handleOracleReport h => exact flow_of_same (report_ether h) rfl rfl
  | depositBufferedEther _ h | depositBufferedEtherUpTo _ h =>
    exact flow_of_same (deposit_ether h) rfl rfl
  | etherRecovered h => exact (recover_ether h).trans (Nat.add_zero _).symm
  | sharesRecovered htoken =>
    refine flow_of_same ?_ (if_neg htoken) rfl
    rw [World.ether, World.ether]
  | tokenRecovered htoken => exact flow_of_same rfl (if_neg htoken) rfl
  | _ => exact flow_of_brought (pool_ether hstep fun _ _ ↦ rfl) rfl rfl

end Steps

def etherLedger (D : Deployment) (I : INodeOperatorsRegistry R ρ) :
    Machine (World R × ℕ × ℕ) (Event D ρ) Revert :=
  (World.machine D I).observed (0, 0) fun w e _ flows ↦
    (flows.1 + e.enters w, flows.2 + e.leaves w)

/-- Ether is conserved: over any run, what the pool, its deposits and the vaults hold is what they
held before and what came in, less what was recovered to other accounts. -/
theorem ether_is_conserved {w₀ : World R} {came left : ℕ}
    (h : Runs (etherLedger D I) (fun _ _ ↦ True) (w₀, 0, 0) (w, came, left)) :
    w.ether + left = w₀.ether + came := by
  suffices hall : ∀ s, Runs (etherLedger D I) (fun _ _ ↦ True) (w₀, 0, 0) s →
      s.1.ether + s.2.2 = w₀.ether + s.2.1 from hall _ h
  intro s hrun
  induction hrun with
  | refl => rfl
  | @step s s' e _ _ hstep ih =>
    obtain ⟨hw, hflows⟩ := observed_step.mp hstep
    have hether := step_ether hw
    rw [← hflows]
    dsimp only
    omega

namespace Sample

def rewardedRun : List (Event deployment (RegistryCall deployment)) := depositRun ++ [
  admin .depositBufferedEther,
  .deployVault 8 1 3 40,
  .fundVault 8 60,
  admin (.setELRewardsVault 8),
  admin (.setELRewardsWithdrawalLimit 10000),
  report 2 (64 * 10 ^ 18),
  .forceEther 5,
  admin (.transferToVault 0)]

theorem five_wei_leave : ∃ w, Runs (etherLedger deployment (registryContract deployment layout))
    (fun _ _ ↦ True) (start, 0, 0) (w, 70 * 10 ^ 18 + 105, 5) ∧
    w.ether + 5 = start.ether + (70 * 10 ^ 18 + 105) := by
  have hrun : reaches (etherLedger deployment (registryContract deployment layout)) (start, 0, 0)
      rewardedRun (fun s ↦ decide (s.2 = (70 * 10 ^ 18 + 105, 5))) = true := by
    decide +kernel
  obtain ⟨⟨w, flows⟩, hruns, hflows⟩ :=
    Runs.of_reaches (p := fun _ _ ↦ True) hrun fun _ _ _ ↦ trivial
  obtain rfl : flows = (70 * 10 ^ 18 + 105, 5) := of_decide_eq_true hflows
  exact ⟨w, hruns, ether_is_conserved hruns⟩

end Sample

end LidoDao
