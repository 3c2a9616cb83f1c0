import LidoDao.TokenMoves
import LidoDao.JointSystem

namespace LidoDao

open Evm Library.Outcome Library.Ledger Library.Transition SafeMath EtherBooks

variable {R ρ : Type} {D : Deployment} {I : INodeOperatorsRegistry R ρ} {w w' : World R}
  {e : Event D ρ}

section Stopped

/-- What an emergency stop preserves. -/
structure Frozen (s s' : Lido) : Prop where
  activeFlag : s'.activeFlag = false
  shares : s'.shares = s.shares
  totalShares : s'.totalShares = s.totalShares
  allowances : s'.allowances = s.allowances
  bufferedEther : s'.bufferedEther = s.bufferedEther
  depositedValidators : s'.depositedValidators = s.depositedValidators
  beaconValidators : s'.beaconValidators = s.beaconValidators
  beaconBalance : s'.beaconBalance = s.beaconBalance

namespace Frozen

variable {s s' s'' : Lido}

theorem refl (h : s.activeFlag = false) : Frozen s s := ⟨h, rfl, rfl, rfl, rfl, rfl, rfl, rfl⟩

theorem trans (h : Frozen s s') (h' : Frozen s' s'') : Frozen s s'' :=
  ⟨h'.activeFlag, h'.shares.trans h.shares, h'.totalShares.trans h.totalShares,
    h'.allowances.trans h.allowances, h'.bufferedEther.trans h.bufferedEther,
    h'.depositedValidators.trans h.depositedValidators,
    h'.beaconValidators.trans h.beaconValidators, h'.beaconBalance.trans h.beaconBalance⟩

theorem pooled_eq (h : Frozen s s') (hs : Sound s.books) (hs' : Sound s'.books) :
    s'._getTotalPooledEther = s._getTotalPooledEther := by
  have hbuffered : s._getBufferedEther = .ok s.bufferedEther :=
    Lido._getBufferedEther_eq_ok.mpr ⟨hs.1, rfl⟩
  have hbuffered' : s'._getBufferedEther = .ok s.bufferedEther :=
    Lido._getBufferedEther_eq_ok.mpr ⟨hs'.1, h.bufferedEther.symm⟩
  simp only [Lido._getTotalPooledEther, Lido._getTransientBalance, hbuffered, hbuffered',
    h.beaconBalance, h.beaconValidators, h.depositedValidators]

theorem balanceOf_eq (h : Frozen s s') (hs : Sound s.books) (hs' : Sound s'.books) (a : Address) :
    s'.balanceOf a = s.balanceOf a := by
  rw [Lido.balanceOf, Lido.balanceOf, StETH.balanceOf, StETH.balanceOf, h.pooled_eq hs hs',
    h.shares, StETH.getPooledEthByShares, StETH.getPooledEthByShares, h.totalShares]

end Frozen

theorem Lido._depositBufferedEther_active {c : LidoCall D} {n : ℕ}
    (h : Lido._depositBufferedEther D I c n w = .ok w') : w.lido.activeFlag = true := by
  obtain ⟨_, hactive, _⟩ := bind_eq_ok.mp h
  exact StETH.whenNotStopped_eq_ok.mp hactive

theorem TokenChange.frozen {t : StETH} (h : TokenChange w e t)
    (hstopped : w.lido.activeFlag = false) (hresume : ∀ c, e ≠ .lido c .resume) :
    t.activeFlag = false ∧ t.shares = w.lido.shares ∧ t.totalShares = w.lido.totalShares ∧
      t.allowances = w.lido.allowances := by
  have hcontra {p : Prop} (hactive : w.lido.activeFlag = true) : p := by
    rw [hstopped] at hactive
    cases hactive
  cases h with
  | idle _ hshares hallowances htotal hactive =>
    refine ⟨?_, hshares, htotal, hallowances⟩
    rw [← Bool.not_eq_true]
    intro hon
    rcases hactive hon with hactive | ⟨c, he⟩
    · exact hcontra hactive
    · exact hresume c he
  | minted _ hactive | transferred _ hactive _ _ | spent hactive _ _ _ | approved hactive _ _
  | burnt hactive _ _ | distributed _ hactive _ _ => exact hcontra hactive

theorem Change.frozen (h : Change I w e w') (hstopped : w.lido.activeFlag = false) :
    w'.lido.bufferedEther = w.lido.bufferedEther ∧
      w'.lido.depositedValidators = w.lido.depositedValidators ∧
      w'.lido.beaconValidators = w.lido.beaconValidators ∧
      w'.lido.beaconBalance = w.lido.beaconBalance := by
  have hcontra {p : Prop} (hactive : w.lido.activeFlag = true) : p := by
    rw [hstopped] at hactive
    cases hactive
  cases h with
  | token _ _ | control _ | settings _ _ _ | vaults _ | credentials _ | registry _ | recovered _
  | forceEther _ => exact ⟨rfl, rfl, rfl, rfl⟩
  | paidIn _ h =>
    obtain ⟨_, _, t, _, ht, _⟩ := Lido._submit_ok h
    exact hcontra (StETH._mintShares_eq_ok.mp ht).1
  | rewardsIn h =>
    obtain ⟨_, _, rfl⟩ := Lido.receiveELRewards_eq_ok.mp h
    exact ⟨rfl, rfl, rfl, rfl⟩
  | deposited _ _ h => exact hcontra (Lido._depositBufferedEther_active h)
  | reported _ _ h => exact hcontra (Lido.handleOracleReport_sender h).1

theorem World.frozen (h : step D I w e = .ok w') (hstopped : w.lido.activeFlag = false)
    (hresume : ∀ c, e ≠ .lido c .resume) : Frozen w.lido w'.lido := by
  obtain ⟨hflag, hshares, htotal, hallowances⟩ := (token_change h).frozen hstopped hresume
  obtain ⟨hbuffered, hdeposited, hvalidators, hbalance⟩ := (step_change h).frozen hstopped
  exact ⟨hflag, hshares, htotal, hallowances, hbuffered, hdeposited, hvalidators, hbalance⟩

/-- While the pool is stopped nothing but a resume touches what anybody holds. -/
theorem stopped_pool_is_frozen (h : Reachable (World.machine D I) w)
    (hstopped : w.lido.activeFlag = false)
    (hrun : Runs (World.machine D I) (fun _ e ↦ ∀ c, e ≠ .lido c .resume) w w') :
    w'.lido.shares = w.lido.shares ∧ w'.lido.totalShares = w.lido.totalShares ∧
    w'.lido.allowances = w.lido.allowances ∧ w'.lido.bufferedEther = w.lido.bufferedEther ∧
    w'.lido.depositedValidators = w.lido.depositedValidators ∧
    w'.lido.beaconValidators = w.lido.beaconValidators ∧
    w'.lido.beaconBalance = w.lido.beaconBalance ∧
    ∀ a, w'.lido.balanceOf a = w.lido.balanceOf a := by
  have hfrozen : Frozen w.lido w'.lido := by
    refine hrun.invariant (P := fun u ↦ Frozen w.lido u.lido) ?_ (.refl hstopped)
    intro u e u' hresume hu hstep
    exact hu.trans (World.frozen hstep hu.activeFlag hresume)
  have hsound := (World.sane h).sound
  have hsound' := (World.sane (hrun.reachable h)).sound
  exact ⟨hfrozen.shares, hfrozen.totalShares, hfrozen.allowances, hfrozen.bufferedEther,
    hfrozen.depositedValidators, hfrozen.beaconValidators, hfrozen.beaconBalance,
    hfrozen.balanceOf_eq hsound hsound'⟩

/-- A submit is rejected while the pool is stopped; only ether can be forced onto it. -/
theorem Sample.balance_of_a_stopped_pool : ∃ w w' : World NodeOperatorsRegistry,
    Reachable (jointSystem Sample.deployment Sample.layout) w ∧ w.lido.activeFlag = false ∧
    w.lido.shares 5 = 100 ∧
    w'.lido.balance = w.lido.balance + 3 ∧ w'.lido.balanceOf 5 = w.lido.balanceOf 5 := by
  obtain ⟨w, h, hp⟩ := Sample.reachable_of_run (l := [Sample.admin .resume,
      Sample.admin (.submit 0 100), Sample.admin .stop])
    (p := fun w ↦ decide (w.lido.activeFlag = false ∧ w.lido.shares 5 = 100)) (by decide +kernel)
  obtain ⟨hstopped, hshares⟩ := of_decide_eq_true hp
  have hrun : Runs (jointSystem Sample.deployment Sample.layout)
      (fun _ e ↦ ∀ c, e ≠ .lido c .resume) w { w with lido := w.lido.receive 3 } :=
    (Runs.refl w).step (i := .forceEther 3) nofun rfl
  obtain ⟨_, _, _, _, _, _, _, hbalance⟩ := stopped_pool_is_frozen h hstopped hrun
  exact ⟨w, _, h, hstopped, hshares, rfl, hbalance 5⟩

end Stopped

section Consent

/-- What an owner granted a spender, net of what was taken back, and what the spender
spent of it. -/
structure AllowanceBook where
  granted : Address → Address → ℤ
  spent : Address → Address → ℕ

def AllowanceBook.empty : AllowanceBook where
  granted _ _ := 0
  spent _ _ := 0

namespace AllowanceBook

def grant (b : AllowanceBook) (owner spender : Address) (amount : ℤ) : AllowanceBook :=
  { b with
    granted := Function.update b.granted owner
      (Function.update (b.granted owner) spender (b.granted owner spender + amount)) }

def spend (b : AllowanceBook) (owner spender : Address) (amount : ℕ) : AllowanceBook :=
  { b with
    spent := Function.update b.spent owner
      (Function.update (b.spent owner) spender (b.spent owner spender + amount)) }

/-- The entry of an accepted event. -/
def record (w : World R) (e : Event D ρ) (b : AllowanceBook) : AllowanceBook :=
  match e with
  | .lido c (.transferFrom sender _ amount) => b.spend sender c.sender amount
  | .lido c m =>
    match m.approves (w.lido.allowances c.sender) with
    | some (spender, amount) =>
      b.grant c.sender spender (amount - w.lido.allowances c.sender spender)
    | none => b
  | _ => b

end AllowanceBook

/-- The pool with the allowances granted and spent so far. -/
def allowanceSystem (D : Deployment) (I : INodeOperatorsRegistry R ρ) :
    Machine (World R × AllowanceBook) (Event D ρ) Revert :=
  (World.machine D I).observed .empty fun w e _ b ↦ b.record w e

theorem TokenChange.shares_lt {t : StETH} {a : Address} (h : TokenChange w e t)
    (ha : a ≠ D.lido) (hlt : t.shares a < w.lido.shares a) :
    ∃ c m, e = .lido c m ∧ (a = c.sender ∨
      (m = .burnShares a (w.lido.shares a - t.shares a) ∧
        c.canPerform .burnRole [a.id, w.lido.shares a - t.shares a] = true) ∨
      ∃ recipient amount, m = .transferFrom a recipient amount ∧
        amount ≤ w.lido.allowances a c.sender ∧
        t.allowances a c.sender + amount = w.lido.allowances a c.sender ∧
        (w.lido.shares a - t.shares a) * w.lido.pooled / w.lido.totalShares ≤ amount) := by
  cases h with
  | idle _ h _ _ _ =>
    rw [h] at hlt
    exact absurd hlt (lt_irrefl _)
  | @minted c m amount _ _ =>
    refine ⟨c, m, rfl, .inl ?_⟩
    by_contra hne
    dsimp only at hlt
    rw [Function.update_of_ne hne] at hlt
    exact absurd hlt (lt_irrefl _)
  | @transferred c m sender recipient amount _ _ hsender hle =>
    refine ⟨c, m, rfl, .inl ?_⟩
    have hsource : a = sender := by
      by_contra hne
      exact absurd hlt (le_moved_of_ne hle hne).not_gt
    rcases hsender with h | h
    · exact hsource.trans h
    · exact absurd (hsource.trans h) ha
  | @spent c sender recipient amount n _ hallowance hn hle =>
    have hsource : a = sender := by
      by_contra hne
      exact absurd hlt (le_moved_of_ne hle hne).not_gt
    subst hsource
    have htarget : a ≠ recipient := by
      rintro rfl
      have hmoved := moved_apply hle a a
      exact absurd hlt (Nat.add_right_cancel hmoved).not_lt
    have hmoved := moved_source hle htarget
    have hdrop : w.lido.shares a - moved w.lido.shares a recipient n a = n := by omega
    refine ⟨c, _, rfl, .inr (.inr ⟨recipient, amount, rfl, hallowance, ?_, ?_⟩)⟩
    · rw [allowances_withAllowance, if_pos ⟨rfl, rfl⟩]
      omega
    · change (w.lido.shares a - moved w.lido.shares a recipient n a) * w.lido.pooled /
        w.lido.totalShares ≤ amount
      rw [hdrop]
      obtain ⟨total, hpooled, hcases⟩ := StETH.getSharesByPooledEth_eq_ok.mp hn
      obtain ⟨_, _, rfl⟩ := Lido._getTotalPooledEther_eq_ok.mp hpooled
      rcases hcases with ⟨_, rfl⟩ | ⟨_, _, rfl⟩
      · rw [Nat.zero_mul, Nat.zero_div]
        exact Nat.zero_le _
      · refine Nat.div_le_of_le_mul ((Nat.div_mul_le_self _ _).trans_eq ?_)
        exact Nat.mul_comm _ _
  | @approved c m spender amount _ _ _ => exact absurd hlt (lt_irrefl _)
  | @burnt c account amount _ hauth hle =>
    dsimp only at hlt ⊢
    have hsource : a = account := by
      by_contra hne
      rw [Function.update_of_ne hne] at hlt
      exact absurd hlt (lt_irrefl _)
    subst hsource
    rw [Function.update_self, Nat.sub_sub_self hle]
    exact ⟨c, _, rfl, .inr (.inl ⟨rfl, hauth⟩)⟩
  | distributed _ _ _ hge => exact absurd (hge a ha) hlt.not_ge

theorem TokenChange.allowance_ne {t : StETH} {a b : Address} (h : TokenChange w e t)
    (hne : t.allowances a b ≠ w.lido.allowances a b) : ∃ c m, e = .lido c m ∧
      ((c.sender = a ∧ m.approves (w.lido.allowances a) = some (b, t.allowances a b)) ∨
      (c.sender = b ∧ ∃ recipient amount, m = .transferFrom a recipient amount ∧
        t.allowances a b + amount = w.lido.allowances a b)) := by
  cases h with
  | idle _ _ h _ _ | distributed _ _ h _ =>
    rw [h] at hne
    exact absurd rfl hne
  | minted _ _ | transferred _ _ _ _ | burnt _ _ _ => exact absurd rfl hne
  | @spent c sender recipient amount n _ hallowance hn hle =>
    rw [allowances_withAllowance] at hne ⊢
    by_cases hab : a = sender ∧ b = c.sender
    · obtain ⟨rfl, rfl⟩ := hab
      refine ⟨c, _, rfl, .inr ⟨rfl, recipient, amount, rfl, ?_⟩⟩
      rw [if_pos ⟨rfl, rfl⟩]
      omega
    · rw [if_neg hab] at hne
      exact absurd rfl hne
  | @approved c m spender amount _ hm _ =>
    rw [allowances_withAllowance] at hne ⊢
    by_cases hab : a = c.sender ∧ b = spender
    · obtain ⟨rfl, rfl⟩ := hab
      refine ⟨c, m, rfl, .inl ⟨rfl, ?_⟩⟩
      rwa [if_pos ⟨rfl, rfl⟩]
    · rw [if_neg hab] at hne
      exact absurd rfl hne

/-- The allowances are what was granted and not spent yet. -/
def AllowanceBook.Matches (b : AllowanceBook) (allowances : Address → Address → ℕ) : Prop :=
  ∀ owner spender, (b.spent owner spender : ℤ) + allowances owner spender = b.granted owner spender

namespace AllowanceBook

variable {b : AllowanceBook}

theorem spent_spend (owner spender a c : Address) (amount : ℕ) :
    (b.spend owner spender amount).spent a c =
      b.spent a c + if a = owner ∧ c = spender then amount else 0 := by
  refine (update_update_apply b.spent owner a spender c _).trans ?_
  split
  · rename_i h
    rw [h.1, h.2]
  · rfl

theorem granted_grant (owner spender a c : Address) (amount : ℤ) :
    (b.grant owner spender amount).granted a c =
      b.granted a c + if a = owner ∧ c = spender then amount else 0 := by
  refine (update_update_apply b.granted owner a spender c _).trans ?_
  split
  · rename_i h
    rw [h.1, h.2]
  · rw [add_zero]

theorem record_eq (hother : e.touchesAllowances = false) : b.record w e = b := by
  cases e with
  | lido c m =>
    cases m with
    | transferFrom _ _ _ | approve _ _ | increaseAllowance _ _ | decreaseAllowance _ _ =>
      cases hother
    | _ => rfl
  | _ => rfl

theorem record_approves {c : LidoCall D} {m : LidoMessage} {spender : Address} {amount : ℕ}
    (hm : m.approves (w.lido.allowances c.sender) = some (spender, amount)) :
    b.record w (.lido c m : Event D ρ) =
      b.grant c.sender spender (amount - w.lido.allowances c.sender spender) := by
  cases m with
  | approve _ _ | increaseAllowance _ _ | decreaseAllowance _ _ =>
    cases hm
    rfl
  | _ => cases hm

theorem Matches.record {t : StETH} (h : b.Matches w.lido.allowances) (hchange : TokenChange w e t) :
    (b.record w e).Matches t.allowances := by
  cases hchange with
  | idle hother _ hallowances _ _ | distributed hother _ hallowances _ =>
    rw [record_eq hother, hallowances]
    exact h
  | minted hother _ | transferred hother _ _ _ =>
    rw [record_eq hother]
    exact h
  | burnt _ _ _ =>
    rw [record_eq rfl]
    exact h
  | @spent c sender recipient amount n _ hallowance _ _ =>
    intro owner spender
    have hbook := h owner spender
    have hrecord : b.record w (.lido c (.transferFrom sender recipient amount) : Event D ρ) =
        b.spend sender c.sender amount := rfl
    rw [hrecord, spent_spend, allowances_withAllowance]
    by_cases hpair : owner = sender ∧ spender = c.sender
    · obtain ⟨rfl, rfl⟩ := hpair
      rw [if_pos ⟨rfl, rfl⟩, if_pos ⟨rfl, rfl⟩, Nat.cast_add, Nat.cast_sub hallowance]
      have hgranted : (b.spend owner c.sender amount).granted = b.granted := rfl
      rw [hgranted]
      omega
    · rw [if_neg hpair, if_neg hpair]
      exact hbook
  | @approved c m spender' amount _ hm _ =>
    intro owner spender
    have hbook := h owner spender
    rw [record_approves hm, granted_grant, allowances_withAllowance]
    have hspent (x : ℤ) : (b.grant c.sender spender' x).spent = b.spent := rfl
    rw [hspent]
    by_cases hpair : owner = c.sender ∧ spender = spender'
    · obtain ⟨rfl, rfl⟩ := hpair
      rw [if_pos ⟨rfl, rfl⟩, if_pos ⟨rfl, rfl⟩]
      omega
    · rw [if_neg hpair, if_neg hpair, add_zero]
      exact hbook

end AllowanceBook

theorem allowances_match {b : AllowanceBook} (h : Reachable (allowanceSystem D I) (w, b)) :
    b.Matches w.lido.allowances := by
  suffices hall : ∀ s, Reachable (allowanceSystem D I) s → s.2.Matches s.1.lido.allowances from
    hall _ h
  intro s hs
  refine hs.invariant (P := fun s ↦ s.2.Matches s.1.lido.allowances) ?_ ?_
  · intro s h owner spender
    obtain ⟨⟨⟨_, _, _, _, hinit⟩, _⟩, hbook⟩ := h
    obtain ⟨_, hlido⟩ := Lido._setProtocolContracts_ok hinit
    rw [hbook, hlido]
    rfl
  · intro s e t _ hmatches hstep
    obtain ⟨hstep, hbook⟩ := observed_step.mp hstep
    rw [← hbook]
    exact hmatches.record (World.token_change hstep)

/-- The shares of an account fall by its own calls, a burn or a spend that is covered by
an allowance, and nobody spends more than was granted. -/
theorem shares_move_by_consent {b : AllowanceBook}
    (h : Reachable (allowanceSystem D I) (w, b)) :
    (∀ owner spender,
      (b.spent owner spender : ℤ) + w.lido.allowances owner spender = b.granted owner spender) ∧
    ∀ e w', (World.machine D I).step w e = .ok w' →
      (∀ a, a ≠ D.lido → w'.lido.shares a < w.lido.shares a → ∃ c m, e = .lido c m ∧
        (a = c.sender ∨
        (m = .burnShares a (w.lido.shares a - w'.lido.shares a) ∧
          c.canPerform .burnRole [a.id, w.lido.shares a - w'.lido.shares a] = true) ∨
        ∃ recipient amount, m = .transferFrom a recipient amount ∧
          amount ≤ w.lido.allowances a c.sender ∧
          w'.lido.allowances a c.sender + amount = w.lido.allowances a c.sender ∧
          (w.lido.shares a - w'.lido.shares a) * w.lido.pooled / w.lido.totalShares ≤ amount)) ∧
      ∀ a s, w'.lido.allowances a s ≠ w.lido.allowances a s → ∃ c m, e = .lido c m ∧
        ((c.sender = a ∧ m.approves (w.lido.allowances a) = some (s, w'.lido.allowances a s)) ∨
        (c.sender = s ∧ ∃ recipient amount, m = .transferFrom a recipient amount ∧
          w'.lido.allowances a s + amount = w.lido.allowances a s)) := by
  refine ⟨allowances_match h, fun e w' hstep ↦ ⟨fun a ha hlt ↦ ?_, fun a s hne ↦ ?_⟩⟩
  · exact (World.token_change hstep).shares_lt ha hlt
  · exact (World.token_change hstep).allowance_ne hne

end Consent

namespace Sample

def spendRun : List (Event deployment (RegistryCall deployment)) := [
  admin .resume,
  admin (.submit 0 100),
  admin (.approve 6 7)]

def spendFive : Event deployment (RegistryCall deployment) :=
  call 6 six_ne_lido (.transferFrom 5 8 5)

theorem five_are_spent : ∃ w w' b, Reachable (allowanceSystem deployment
      (registryContract deployment layout)) (w, b) ∧
    (jointSystem deployment layout).step w spendFive = .ok w' ∧
    w.lido.allowances 5 6 = 7 ∧ w'.lido.allowances 5 6 = 2 ∧
    (b.spent 5 6 : ℤ) + w.lido.allowances 5 6 = b.granted 5 6 ∧
    ∃ c m, spendFive = .lido c m ∧ ∃ recipient amount, m = .transferFrom 5 recipient amount ∧
      amount ≤ w.lido.allowances 5 c.sender := by
  have hrun : reaches (allowanceSystem deployment (registryContract deployment layout))
      (start, .empty) spendRun (fun s ↦
        passes ((jointSystem deployment layout).step s.1 spendFive) fun w' ↦
          decide (s.1.lido.allowances 5 6 = 7 ∧ w'.lido.allowances 5 6 = 2 ∧
            w'.lido.shares 5 < s.1.lido.shares 5)) = true := by
    decide +kernel
  have hstart : Reachable (allowanceSystem deployment (registryContract deployment layout))
      (start, .empty) :=
    .initial ⟨⟨⟨0, 2, 3, 4, rfl⟩, rfl, rfl, rfl⟩, rfl⟩
  obtain ⟨⟨w, b⟩, h, hp⟩ := hstart.of_reaches hrun
  obtain ⟨w', hstep, hp⟩ := exists_of_passes hp
  obtain ⟨hbefore, hafter, hlt⟩ : w.lido.allowances 5 6 = 7 ∧ w'.lido.allowances 5 6 = 2 ∧
      w'.lido.shares 5 < w.lido.shares 5 := of_decide_eq_true hp
  obtain ⟨hbook, hsteps⟩ := shares_move_by_consent h
  obtain ⟨c, m, heq, hcases⟩ := (hsteps _ _ hstep).1 5 (by decide) hlt
  refine ⟨w, w', b, h, hstep, hbefore, hafter, hbook 5 6, c, m, heq, ?_⟩
  have hm : m = .transferFrom 5 8 5 ∧ c.sender = 6 := by
    cases heq
    exact ⟨rfl, rfl⟩
  rcases hcases with hself | ⟨hburn, _⟩ | ⟨recipient, amount, hspend, hle, _⟩
  · rw [hm.2] at hself
    exact absurd hself (by decide)
  · rw [hm.1] at hburn
    cases hburn
  · exact ⟨recipient, amount, hspend, hle⟩

end Sample

end LidoDao
