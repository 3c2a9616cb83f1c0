import LidoDao.PoolEffects
import LidoDao.Library.SharePool

namespace LidoDao

open Evm Library.Outcome Library.Ledger Library.SharePool SafeMath EtherBooks

variable {R ρ : Type} {D : Deployment} {I : INodeOperatorsRegistry R ρ}

namespace Lido

variable {s s' : Lido}

section Fee

/-- The pool after payments out of its own shares. -/
def payAll (s : Lido) (source : Address) (payments : List (Address × ℕ)) : Lido :=
  { s with shares := payOut s.shares source payments }

theorem payAll_payAll (source : Address) (ps qs : List (Address × ℕ)) :
    (s.payAll source ps).payAll source qs = s.payAll source (ps ++ qs) := by
  simp only [payAll, payOut_append]

def mint (s : Lido) (recipient : Address) (amount : ℕ) : Lido :=
  { s with
    totalShares := s.totalShares + amount
    shares := Function.update s.shares recipient (s.shares recipient + amount) }

theorem payShares_ok {recipient : Address} {n : ℕ} (h : payShares D recipient n s = .ok s') :
    n ≤ s.shares D.lido ∧ s' = s.payAll D.lido [(recipient, n)] := by
  simp only [payShares, _transferShares, bind_eq_ok, onToken_eq_ok, StETH._transferShares_eq_ok,
    pure_eq, Except.ok.injEq] at h
  obtain ⟨_, ⟨_, ⟨_, _, _, hle, _, rfl⟩, rfl⟩, _, _, rfl⟩ := h
  exact ⟨hle, rfl⟩

theorem payOperators_ok {recipients : List Address} {amounts : List ℕ} {distributed : ℕ}
    {p : ℕ × Lido} (hlen : recipients.length = amounts.length)
    (h : payOperators D recipients amounts distributed s = .ok p) :
    p.1 = distributed + total (recipients.zip amounts) ∧
      p.2 = s.payAll D.lido (recipients.zip amounts) := by
  induction recipients generalizing amounts distributed s with
  | nil =>
    cases h
    exact ⟨rfl, rfl⟩
  | cons recipient recipients ih =>
    cases amounts with
    | nil => simp at hlen
    | cons amount amounts =>
      simp only [payOperators, bind_eq_ok, add_eq_ok] at h
      obtain ⟨s₁, hpay, _, ⟨_, rfl⟩, h⟩ := h
      obtain ⟨_, rfl⟩ := payShares_ok hpay
      obtain ⟨htotal, hpaid⟩ := ih (by simpa using hlen) h
      refine ⟨?_, ?_⟩
      · rw [htotal, List.zip_cons_cons, total_cons, Nat.add_assoc]
      · rw [hpaid, payAll_payAll]
        rfl

theorem sharesToMint_eq_ok {totalRewards m : ℕ} :
    sharesToMint totalRewards s = .ok m ↔
      (Sound s.books ∧ s.pooled < wordLimit) ∧
      totalRewards * s.getFee * s.totalShares < wordLimit ∧ totalRewards * s.getFee < wordLimit ∧
      s.pooled * totalBasisPoints < wordLimit ∧
      s.getFee * totalRewards < s.pooled * totalBasisPoints ∧
      m = feeShares s.getFee totalBasisPoints totalRewards s.pooled s.totalShares := by
  simp only [sharesToMint, bind_eq_ok, mul_eq_ok, sub_eq_ok, div_eq_ok,
    _getTotalPooledEther_eq_ok]
  constructor
  · intro h
    obtain ⟨_, ⟨hpart, rfl⟩, _, ⟨hdividend, rfl⟩, _, ⟨hs, hlt, rfl⟩, _, ⟨hscaled, rfl⟩, _,
      ⟨_, rfl⟩, _, ⟨_, rfl⟩, hpos, rfl⟩ := h
    exact ⟨⟨hs, hlt⟩, hdividend, hpart, hscaled, by omega, rfl⟩
  · intro h
    obtain ⟨⟨hs, hlt⟩, hdividend, hpart, hscaled, hpos, rfl⟩ := h
    have htaken : s.getFee * totalRewards < wordLimit := by
      rw [Nat.mul_comm]
      exact hpart
    exact ⟨_, ⟨hpart, rfl⟩, _, ⟨hdividend, rfl⟩, _, ⟨hs, hlt, rfl⟩, _, ⟨hscaled, rfl⟩, _,
      ⟨htaken, rfl⟩, _, ⟨hpos.le, rfl⟩, by omega, rfl⟩

def feePayments (s : Lido) (m : ℕ) (operators : List (Address × ℕ)) : List (Address × ℕ) :=
  let toInsuranceFund := m * s.getInsuranceFee / totalBasisPoints
  (s.insuranceFund, toInsuranceFund) :: operators ++
    [(s.treasury, m - toInsuranceFund - total operators)]

/-- A distributed fee: `m` fresh shares, the operators' part split by the registry. -/
structure FeeSplit (I : INodeOperatorsRegistry R ρ) (registry : R) (s : Lido)
    (m : ℕ) (operators : List (Address × ℕ)) : Prop where
  split : ∃ recipients amounts, I.getRewardsDistribution registry
    (m * s.getNodeOperatorsFee / totalBasisPoints) = .ok (recipients, amounts) ∧
    recipients.length = amounts.length ∧ operators = recipients.zip amounts
  covered : m * s.getInsuranceFee / totalBasisPoints + total operators ≤ m
  bounded : s.totalShares + m < wordLimit

theorem FeeSplit.total_payments {registry : R} {m : ℕ} {operators : List (Address × ℕ)}
    (h : FeeSplit I registry s m operators) : total (s.feePayments m operators) = m := by
  have hc := h.covered
  simp only [feePayments, List.cons_append, total_cons, total_append, total_nil]
  omega

theorem distributeFee_ok {registry : R} {totalRewards : ℕ}
    (h : distributeFee D I registry totalRewards s = .ok s') :
    ∃ m operators, sharesToMint totalRewards s = .ok m ∧ FeeSplit I registry s m operators ∧
      s' = (s.mint D.lido m).payAll D.lido (s.feePayments m operators) := by
  simp only [distributeFee, _distributeNodeOperatorsReward, _mintShares, bind_eq_ok,
    onToken_eq_ok, StETH._mintShares_eq_ok, mul_eq_ok, div_eq_ok, sub_eq_ok, require_eq_ok,
    exists_const] at h
  obtain ⟨m, hm, _, ⟨_, ⟨_, _, hbound, _, rfl⟩, rfl⟩, _, ⟨_, rfl⟩, _, ⟨_, rfl⟩, s₁, hins, _,
    ⟨_, rfl⟩, _, ⟨_, rfl⟩, p, ⟨⟨recipients, amounts⟩, hdist, hlen, hops⟩, _, ⟨hle, rfl⟩, _,
    ⟨hle', rfl⟩, htreasury⟩ := h
  obtain ⟨_, rfl⟩ := payShares_ok hins
  obtain ⟨htotal, hpaid⟩ := payOperators_ok hlen hops
  rw [Nat.zero_add] at htotal
  rw [htotal] at hle' htreasury
  rw [hpaid] at htreasury
  obtain ⟨_, hfinal⟩ := payShares_ok htreasury
  refine ⟨m, recipients.zip amounts, hm, ⟨⟨recipients, amounts, hdist, hlen, rfl⟩, ?_, hbound⟩,
    ?_⟩
  · have hle'' : m * s.getInsuranceFee / totalBasisPoints ≤ m := hle
    have hle''' : total (recipients.zip amounts) ≤
        m - m * s.getInsuranceFee / totalBasisPoints := hle'
    omega
  · rw [hfinal, payAll_payAll, payAll_payAll]
    rfl

end Fee

section Report

variable {w w' : World R}

def collect (s : Lido) (amount : ℕ) : Lido :=
  { s with
    balance := s.balance + amount
    bufferedEther := s.bufferedEther + amount
    totalELRewardsCollected := s.totalELRewardsCollected + amount }

def capProduct (s : Lido) : ℕ := s.pooled * s.elRewardsWithdrawalLimit

/-- The cap that `handleOracleReport` puts on the withdrawal. -/
def withdrawalCap (s : Lido) : ℕ := s.capProduct % wordLimit / totalBasisPoints

/-- The rewards `x` that leave the vault, and the vaults after that. -/
inductive Withdrawn (D : Deployment) (w : World R) :
    ℕ → (Address → Option ELRewardsVault) → Prop
  | noVault (h : w.lido.elRewardsVault = 0) : Withdrawn D w 0 w.vaults
  | vault {vault : ELRewardsVault} (h : w.lido.elRewardsVault ≠ 0)
      (hvault : w.vaults w.lido.elRewardsVault = some vault) (hlido : D.lido = vault.lido) :
      Withdrawn D w (min vault.balance w.lido.withdrawalCap)
        (Function.update w.vaults w.lido.elRewardsVault
          (some { vault with balance := vault.balance - min vault.balance w.lido.withdrawalCap }))

theorem withdrawRewards_ok {vault vault' : ELRewardsVault} {vaultAddress : Address}
    {maxAmount x : ℕ}
    (h : vault.withdrawRewards (fun l value ↦ l.receiveELRewards vaultAddress value) D.lido
      maxAmount s = .ok (x, vault', s')) :
    D.lido = vault.lido ∧ x = min vault.balance maxAmount ∧
      vault' = { vault with balance := vault.balance - x } ∧
      s' = { s with
        balance := s.balance + x
        totalELRewardsCollected := s.totalELRewardsCollected + x } := by
  simp only [ELRewardsVault.withdrawRewards, bind_eq_ok, require_eq_ok, exists_const] at h
  obtain ⟨hlido, h⟩ := h
  rw [← min_def_lt, Nat.min_comm] at h
  split at h
  · simp only [bind_eq_ok, receiveELRewards_eq_ok, pure_eq, Except.ok.injEq,
      Prod.mk.injEq] at h
    obtain ⟨_, ⟨_, _, rfl⟩, rfl, rfl, rfl⟩ := h
    exact ⟨hlido, rfl, rfl, rfl⟩
  · rename_i hpos
    have hzero : min vault.balance maxAmount = 0 := by omega
    rw [hzero] at h
    cases h
    exact ⟨hlido, hzero.symm, rfl, rfl⟩

theorem callWithdrawRewards_ok {vaultAddress : Address} {maxAmount x : ℕ}
    (h : callWithdrawRewards D vaultAddress maxAmount w = .ok (x, w')) :
    ∃ vault, w.vaults vaultAddress = some vault ∧ D.lido = vault.lido ∧
      x = min vault.balance maxAmount ∧
      w' = { w with
        lido := { w.lido with
          balance := w.lido.balance + x
          totalELRewardsCollected := w.lido.totalELRewardsCollected + x }
        vaults := Function.update w.vaults vaultAddress
          (some { vault with balance := vault.balance - x }) } := by
  unfold callWithdrawRewards at h
  cases hv : w.vaults vaultAddress with
  | none => simp [hv] at h
  | some vault =>
    simp only [hv, bind_eq_ok, pure_eq, Except.ok.injEq, Prod.mk.injEq] at h
    obtain ⟨⟨_, vault', lido⟩, hw, rfl, rfl⟩ := h
    obtain ⟨hlido, hx, rfl, rfl⟩ := withdrawRewards_ok hw
    exact ⟨vault, rfl, hlido, hx, rfl⟩

theorem withdrawELRewards_ok {x : ℕ} (h : withdrawELRewards D w = .ok (x, w')) :
    ∃ vaults, Withdrawn D w x vaults ∧ w' = { w with lido := w.lido.collect x, vaults } := by
  unfold withdrawELRewards at h
  by_cases hvault : w.lido.elRewardsVault = 0
  · rw [if_neg (by simpa using hvault)] at h
    cases h
    exact ⟨w.vaults, .noVault hvault, rfl⟩
  · rw [if_pos hvault] at h
    simp only [bind_eq_ok, _getTotalPooledEther_eq_ok] at h
    obtain ⟨_, ⟨_, _, rfl⟩, ⟨y, w₁⟩, hcall, h⟩ := h
    obtain ⟨vault, hv, hlido, hx, rfl⟩ := callWithdrawRewards_ok hcall
    have hwithdrawn := Withdrawn.vault hvault hv hlido
    split at h
    · simp only [bind_eq_ok, _getBufferedEther_eq_ok, add_eq_ok, pure_eq,
        Except.ok.injEq, Prod.mk.injEq] at h
      obtain ⟨_, ⟨_, rfl⟩, _, ⟨_, rfl⟩, rfl, rfl⟩ := h
      refine ⟨_, ?_, rfl⟩
      rw [hx]
      exact hwithdrawn
    · rename_i hzero
      cases h
      rw [not_not] at hzero
      subst hzero
      refine ⟨_, ?_, rfl⟩
      rw [hx]
      exact hwithdrawn

def report (s : Lido) (beaconValidators beaconBalance : ℕ) : Lido :=
  { s with beaconBalance, beaconValidators }

theorem handleOracleReport_ok {msgSender : Address} {v b : ℕ}
    (h : handleOracleReport D I msgSender v b w = .ok w') :
    v ≤ w.lido.depositedValidators ∧ w.lido.beaconValidators ≤ v ∧
    ∃ x vaults, Withdrawn D { w with lido := w.lido.report v b } x vaults ∧
      let s := (w.lido.report v b).collect x
      let rewardBase := w.lido.books.rewardBase depositSize v
      (b ≤ rewardBase ∧ w' = { w with lido := s, vaults }) ∨
      (rewardBase < b ∧ ∃ s', distributeFee D I w.registry (b - rewardBase + x) s = .ok s' ∧
        w' = { w with lido := s', vaults }) := by
  simp only [handleOracleReport, bind_eq_ok, require_eq_ok, exists_const, sub_eq_ok, mul_eq_ok,
    add_eq_ok] at h
  obtain ⟨_, _, _, hmore, hless, _, ⟨_, rfl⟩, _, ⟨_, rfl⟩, _, ⟨_, rfl⟩, ⟨x, w₁⟩, hw, h⟩ := h
  obtain ⟨vaults, hwithdrawn, rfl⟩ := withdrawELRewards_ok hw
  refine ⟨hmore, hless, x, vaults, hwithdrawn, ?_⟩
  have hbase : (v - w.lido.beaconValidators) * depositSize + w.lido.beaconBalance =
      w.lido.books.rewardBase depositSize v := rfl
  rw [hbase] at h
  dsimp only at h ⊢
  split at h
  · rename_i hgain
    simp only [bind_eq_ok, sub_eq_ok, add_eq_ok, pure_eq, Except.ok.injEq] at h
    obtain ⟨_, ⟨_, rfl⟩, _, ⟨_, rfl⟩, s', hfee, rfl⟩ := h
    exact .inr ⟨hgain, s', hfee, rfl⟩
  · rename_i hloss
    cases h
    exact .inl ⟨by omega, rfl⟩

/-- What a report leaves alone. -/
structure ReportFrame (w w' : World R) : Prop where
  registry : w'.registry = w.registry
  deposits : w'.deposits = w.deposits
  settings : w'.lido.toSettings = w.lido.toSettings
  activeFlag : w'.lido.activeFlag = w.lido.activeFlag
  stakingState : w'.lido.stakingState = w.lido.stakingState
  depositedValidators : w'.lido.depositedValidators = w.lido.depositedValidators

theorem handleOracleReport_frame {msgSender : Address} {v b : ℕ}
    (h : handleOracleReport D I msgSender v b w = .ok w') : ReportFrame w w' := by
  obtain ⟨_, _, _, _, _, ⟨_, rfl⟩ | ⟨_, s', hfee, rfl⟩⟩ := handleOracleReport_ok h
  · exact ⟨rfl, rfl, rfl, rfl, rfl, rfl⟩
  · obtain ⟨_, _, _, _, rfl⟩ := distributeFee_ok hfee
    exact ⟨rfl, rfl, rfl, rfl, rfl, rfl⟩

/-- The fee does not touch the books. -/
theorem handleOracleReport_books {msgSender : Address} {v b : ℕ}
    (h : handleOracleReport D I msgSender v b w = .ok w') :
    v ≤ w.lido.depositedValidators ∧ w.lido.beaconValidators ≤ v ∧
    ∃ x vaults s, Withdrawn D { w with lido := w.lido.report v b } x vaults ∧
      w' = { w with lido := s, vaults } ∧ s.books = ((w.lido.report v b).collect x).books := by
  obtain ⟨hmore, hless, x, vaults, hwithdrawn, ⟨_, rfl⟩ | ⟨_, s', hfee, rfl⟩⟩ :=
    handleOracleReport_ok h
  · exact ⟨hmore, hless, x, vaults, _, hwithdrawn, rfl, rfl⟩
  · obtain ⟨_, _, _, _, rfl⟩ := distributeFee_ok hfee
    exact ⟨hmore, hless, x, vaults, _, hwithdrawn, rfl, rfl⟩

theorem handleOracleReport_sender {msgSender : Address} {v b : ℕ}
    (h : handleOracleReport D I msgSender v b w = .ok w') :
    w.lido.activeFlag = true ∧ msgSender = w.lido.oracle := by
  simp only [handleOracleReport, bind_eq_ok, require_eq_ok, exists_const,
    StETH.whenNotStopped_eq_ok] at h
  obtain ⟨hactive, hsender, _⟩ := h
  exact ⟨hactive, hsender⟩

theorem transferToVault_ok {c : LidoCall D} {token : Address}
    (h : transferToVault D c token w = .ok w') :
    (token = 0 ∧ w.lido.bufferedEther ≤ w.lido.balance ∧ w' = { w with
      lido := { w.lido with balance := w.lido.bufferedEther }
      vaults := fun a ↦ if a = c.recoveryVault then
        (w.vaults a).map (·.receive (w.lido.balance - w.lido.bufferedEther)) else w.vaults a }) ∨
    (token ≠ 0 ∧ (w' = w ∨ ∃ amount t, token = D.lido ∧
      w.lido.toStETH._transferShares D.lido c.recoveryVault amount = .ok t ∧
      w' = { w with lido := { w.lido with toStETH := t } })) := by
  have hasRevert {α : Type} {text : String} {x : Except Revert α} {a : α} :
      asRevert text x = .ok a ↔ x = .ok a := by
    cases x <;> simp [asRevert]
  simp only [transferToVault, bind_eq_ok, require_eq_ok, exists_const] at h
  obtain ⟨_, _, h⟩ := h
  split at h
  · rename_i htoken
    simp only [bind_eq_ok, _getUnaccountedEther_eq_ok, require_eq_ok, exists_const, pure_eq,
      Except.ok.injEq] at h
    obtain ⟨_, ⟨hbacked, rfl⟩, _, rfl⟩ := h
    refine .inl ⟨htoken, hbacked, ?_⟩
    rw [Nat.sub_sub_self hbacked]
  · rename_i htoken
    refine .inr ⟨htoken, ?_⟩
    split at h
    · rename_i hown
      simp only [bind_eq_ok, hasRevert, onToken_eq_ok, StETH.transfer, pure_eq,
        Except.ok.injEq] at h
      obtain ⟨_, _, _, ⟨t, ht, rfl⟩, rfl⟩ := h
      obtain ⟨amount, _, ht⟩ := StETH._transfer_ok ht
      exact .inr ⟨amount, t, hown, ht, rfl⟩
    · simp only [bind_eq_ok, require_eq_ok, exists_const, pure_eq, Except.ok.injEq] at h
      exact .inl h.2.symm

end Report

end Lido

end LidoDao
