import LidoDao.PoolInvariants

namespace LidoDao

open Evm Library.Outcome Library.Ledger Library.Transition SafeMath EtherBooks

variable {R ρ : Type} {D : Deployment} {I : INodeOperatorsRegistry R ρ}

namespace StETH

variable {s t : StETH} {pooled : Except Revert ℕ}

def withAllowance (s : StETH) (owner spender : Address) (amount : ℕ) : StETH :=
  { s with allowances :=
    Function.update s.allowances owner (Function.update (s.allowances owner) spender amount) }

theorem _approve_eq_ok {owner spender : Address} {amount : ℕ} :
    s._approve owner spender amount = .ok t ↔ s.activeFlag = true ∧ owner ≠ 0 ∧ spender ≠ 0 ∧
      t = s.withAllowance owner spender amount := by
  simp only [_approve, bind_eq_ok, require_eq_ok, whenNotStopped_eq_ok, exists_const, pure_eq,
    Except.ok.injEq]
  refine and_congr_right fun _ ↦ and_congr_right fun _ ↦ and_congr_right fun _ ↦ eq_comm

theorem transferFrom_eq_ok {msgSender sender recipient : Address} {amount : ℕ} :
    s.transferFrom pooled msgSender sender recipient amount = .ok t ↔
      s.activeFlag = true ∧ sender ≠ 0 ∧ recipient ≠ 0 ∧ msgSender ≠ 0 ∧
      amount ≤ s.allowances sender msgSender ∧ ∃ sharesAmount,
        s.getSharesByPooledEth pooled amount = .ok sharesAmount ∧ sharesAmount ≤ s.shares sender ∧
        moved s.shares sender recipient sharesAmount recipient < wordLimit ∧
        t = ({ s with shares := moved s.shares sender recipient sharesAmount } :
          StETH).withAllowance sender msgSender (s.allowances sender msgSender - amount) := by
  simp only [transferFrom, _transfer, bind_eq_ok, require_eq_ok, exists_const, sub_eq_ok,
    _transferShares_eq_ok, _approve_eq_ok]
  constructor
  · intro h
    obtain ⟨hle, _, ⟨n, hn, hactive, hs, hr, hshares, hlt, rfl⟩, _, ⟨_, rfl⟩, _, _, hm, rfl⟩ := h
    exact ⟨hactive, hs, hr, hm, hle, n, hn, hshares, hlt, rfl⟩
  · intro h
    obtain ⟨hactive, hs, hr, hm, hle, n, hn, hshares, hlt, rfl⟩ := h
    exact ⟨hle, _, ⟨n, hn, hactive, hs, hr, hshares, hlt, rfl⟩, _, ⟨hle, rfl⟩, hactive, hs, hm,
      rfl⟩

end StETH

/-- The spender and the amount that a call of `approve` or its relatives sets the
allowance to. -/
def LidoMessage.approves (current : Address → ℕ) : LidoMessage → Option (Address × ℕ)
  | .approve spender amount => some (spender, amount)
  | .increaseAllowance spender addedValue => some (spender, current spender + addedValue)
  | .decreaseAllowance spender subtractedValue => some (spender, current spender - subtractedValue)
  | _ => none

/-- An event that sets or uses an allowance. -/
def Event.touchesAllowances : Event D ρ → Bool
  | .lido _ (.approve ..) | .lido _ (.increaseAllowance ..) | .lido _ (.decreaseAllowance ..)
  | .lido _ (.transferFrom ..) => true
  | _ => false

/-- What an accepted event does to the shares and the allowances. -/
inductive TokenChange (w : World R) : Event D ρ → StETH → Prop
  | idle {e : Event D ρ} {t : StETH} (hother : e.touchesAllowances = false)
      (hshares : t.shares = w.lido.shares)
      (hallowances : t.allowances = w.lido.allowances)
      (htotal : t.totalShares = w.lido.totalShares)
      (hflag : t.activeFlag = true → w.lido.activeFlag = true ∨ ∃ c, e = .lido c .resume) :
      TokenChange w e t
  | minted {c : LidoCall D} {m : LidoMessage} {amount : ℕ}
      (hother : (Event.lido c m : Event D ρ).touchesAllowances = false)
      (hactive : w.lido.activeFlag = true) :
      TokenChange w (.lido c m) { w.lido.toStETH with
        totalShares := w.lido.totalShares + amount
        shares := Function.update w.lido.shares c.sender (w.lido.shares c.sender + amount) }
  | transferred {c : LidoCall D} {m : LidoMessage} {sender recipient : Address} {amount : ℕ}
      (hother : (Event.lido c m : Event D ρ).touchesAllowances = false)
      (hactive : w.lido.activeFlag = true) (hsender : sender = c.sender ∨ sender = D.lido)
      (hle : amount ≤ w.lido.shares sender) :
      TokenChange w (.lido c m)
        { w.lido.toStETH with shares := moved w.lido.shares sender recipient amount }
  | spent {c : LidoCall D} {sender recipient : Address} {amount sharesAmount : ℕ}
      (hactive : w.lido.activeFlag = true) (hallowance : amount ≤ w.lido.allowances sender c.sender)
      (hshares : w.lido.getSharesByPooledEth amount = .ok sharesAmount)
      (hle : sharesAmount ≤ w.lido.shares sender) :
      TokenChange w (.lido c (.transferFrom sender recipient amount))
        (({ w.lido.toStETH with shares := moved w.lido.shares sender recipient sharesAmount } :
          StETH).withAllowance sender c.sender (w.lido.allowances sender c.sender - amount))
  | approved {c : LidoCall D} {m : LidoMessage} {spender : Address} {amount : ℕ}
      (hactive : w.lido.activeFlag = true)
      (hm : m.approves (w.lido.allowances c.sender) = some (spender, amount))
      (hdecrease : ∀ sp n, m = .decreaseAllowance sp n → n ≤ w.lido.allowances c.sender sp) :
      TokenChange w (.lido c m) (w.lido.toStETH.withAllowance c.sender spender amount)
  | burnt {c : LidoCall D} {account : Address} {amount : ℕ} (hactive : w.lido.activeFlag = true)
      (hauth : c.canPerform .burnRole [account.id, amount] = true)
      (hle : amount ≤ w.lido.shares account) :
      TokenChange w (.lido c (.burnShares account amount)) { w.lido.toStETH with
        totalShares := w.lido.totalShares - amount
        shares := Function.update w.lido.shares account (w.lido.shares account - amount) }
  | distributed {c : LidoCall D} {m : LidoMessage} {t : StETH}
      (hother : (Event.lido c m : Event D ρ).touchesAllowances = false)
      (hactive : w.lido.activeFlag = true)
      (hallowances : t.allowances = w.lido.allowances)
      (hge : ∀ a, a ≠ D.lido → w.lido.shares a ≤ t.shares a) : TokenChange w (.lido c m) t

theorem allowances_withAllowance (t : StETH) (owner spender a b : Address) (amount : ℕ) :
    (t.withAllowance owner spender amount).allowances a b =
      if a = owner ∧ b = spender then amount else t.allowances a b :=
  update_update_apply t.allowances owner a spender b amount

namespace TokenChange

variable {w w' : World R} {e : Event D ρ} {c : LidoCall D} {m : LidoMessage}

theorem of_toStETH (hother : e.touchesAllowances = false)
    (h : w'.lido.toStETH = w.lido.toStETH) : TokenChange w e w'.lido.toStETH :=
  .idle hother (congrArg StETH.shares h) (congrArg StETH.allowances h) (congrArg StETH.totalShares h)
    fun hactive ↦ .inl (h ▸ hactive)

theorem paid {v n : ℕ} {s : Lido}
    (hother : (Event.lido c m : Event D ρ).touchesAllowances = false)
    (h : (w.lido.receive v)._submit c.sender v c.blockNumber = .ok (n, s)) :
    TokenChange w (.lido c m : Event D ρ) s.toStETH := by
  obtain ⟨_, _, t, _, ht, rfl⟩ := Lido._submit_ok h
  obtain ⟨hactive, _, _, _, rfl⟩ := StETH._mintShares_eq_ok.mp ht
  exact .minted hother hactive

theorem transferShares {sender recipient : Address} {amount : ℕ} {t : StETH}
    (hother : (Event.lido c m : Event D ρ).touchesAllowances = false)
    (h : w.lido.toStETH._transferShares sender recipient amount = .ok t)
    (hsender : sender = c.sender ∨ sender = D.lido) :
    TokenChange w (.lido c m : Event D ρ) t := by
  obtain ⟨hactive, _, _, hle, _, rfl⟩ := StETH._transferShares_eq_ok.mp h
  exact .transferred hother hactive hsender hle

theorem approve {spender : Address} {amount : ℕ} {t : StETH}
    (h : w.lido.toStETH._approve c.sender spender amount = .ok t)
    (hm : m.approves (w.lido.allowances c.sender) = some (spender, amount))
    (hdecrease : ∀ sp n, m = .decreaseAllowance sp n → n ≤ w.lido.allowances c.sender sp) :
    TokenChange w (.lido c m : Event D ρ) t := by
  obtain ⟨hactive, _, _, rfl⟩ := StETH._approve_eq_ok.mp h
  exact .approved hactive hm hdecrease

/-- Fees are minted to the pool itself and paid out of what was minted. -/
theorem report {v b : ℕ} (hother : (Event.lido c m : Event D ρ).touchesAllowances = false)
    (h : Lido.handleOracleReport D I c.sender v b w = .ok w') :
    TokenChange w (.lido c m : Event D ρ) w'.lido.toStETH := by
  have hactive := (Lido.handleOracleReport_sender h).1
  obtain ⟨_, _, x, _, _, ⟨_, rfl⟩ | ⟨_, s', hfee, rfl⟩⟩ := Lido.handleOracleReport_ok h
  · exact .idle hother rfl rfl rfl .inl
  · obtain ⟨n, operators, _, hsplit, rfl⟩ := Lido.distributeFee_ok hfee
    refine .distributed hother hactive rfl fun a ha ↦ ?_
    have htotal : total (((w.lido.report v b).collect x).feePayments n operators) ≤
        (((w.lido.report v b).collect x).mint D.lido n).shares D.lido := by
      rw [hsplit.total_payments]
      simp [Lido.mint]
    have hpaid := payOut_apply htotal a
    rw [if_neg ha, Nat.add_zero] at hpaid
    have hminted : (((w.lido.report v b).collect x).mint D.lido n).shares a = w.lido.shares a :=
      Function.update_of_ne ha _ _
    rw [hminted] at hpaid
    exact (Nat.le_add_right _ _).trans_eq hpaid.symm

end TokenChange

namespace World

variable {w w' : World R} {e : Event D ρ}

theorem token_change (hstep : step D I w e = .ok w') : TokenChange w e w'.lido.toStETH := by
  cases step_effect hstep with
  | fallback h | submit h => exact .paid rfl h
  | receiveELRewards h =>
    obtain ⟨_, _, rfl⟩ := Lido.receiveELRewards_eq_ok.mp h
    exact .of_toStETH rfl rfl
  | depositBufferedEther _ h | depositBufferedEtherUpTo _ h =>
    exact .of_toStETH rfl (Lido._depositBufferedEther_frame h).toStETH
  | handleOracleReport h => exact .report rfl h
  | stop => exact .idle rfl rfl rfl rfl fun hactive ↦ by cases hactive
  | resume => exact .idle rfl rfl rfl rfl fun _ ↦ .inr ⟨_, rfl⟩
  | pauseStaking | resumeStaking | setStakingLimit | removeStakingLimit | setFee
  | setFeeDistribution | setProtocolContracts | setWithdrawalCredentials | setELRewardsVault
  | setELRewardsWithdrawalLimit | etherRecovered | tokenRecovered | registry | forceEther
  | fundVault | deployVault =>
    exact .of_toStETH rfl rfl
  | sharesRecovered _ h => exact .transferShares rfl h (.inr rfl)
  | transfer h =>
    obtain ⟨_, _, h⟩ := StETH._transfer_ok h
    exact .transferShares rfl h (.inl rfl)
  | transferFrom h =>
    obtain ⟨hactive, _, _, _, hallowance, n, hn, hle, _, rfl⟩ := StETH.transferFrom_eq_ok.mp h
    exact .spent hactive hallowance hn hle
  | transferShares h => exact .transferShares rfl h (.inl rfl)
  | approve h => exact .approve h rfl fun _ _ hm ↦ by cases hm
  | increaseAllowance h =>
    exact .approve (StETH.increaseAllowance_ok h) rfl fun _ _ hm ↦ by cases hm
  | decreaseAllowance h =>
    obtain ⟨hle, h⟩ := StETH.decreaseAllowance_ok h
    refine .approve h rfl ?_
    rintro _ _ ⟨⟩
    exact hle
  | burnShares hauth h =>
    obtain ⟨hactive, hle, _, rfl⟩ := StETH._burnShares_ok h
    exact .burnt hactive hauth hle

end World

end LidoDao
