import LidoDao.JointSystem
import LidoDao.LogErasure
import LidoDao.ReportEffects
import LidoDao.TokenMoves

/-!
# The log of the pool replayed

Who reads the log knows the token, the settings and some counters of the pool.
-/

namespace LidoDao

open Evm Library.Outcome Library.Emission Library.Ledger Library.Transition SafeMath StakeLimit

/-- What the log says about the pool. -/
structure Published extends StETH, Settings where
  collected : ℕ
  unbuffered : ℕ

namespace Published

/-- A transfer from the zero address is a mint. -/
def apply (v : Published) : LidoLog → Published
  | .approval owner spender value => { v with toStETH := v.withAllowance owner spender value }
  | .transferShares sender recipient sharesValue =>
    if sender = 0 then
      { v with
        totalShares := v.totalShares + sharesValue
        shares := Function.update v.shares recipient (v.shares recipient + sharesValue) }
    else { v with shares := moved v.shares sender recipient sharesValue }
  | .sharesBurnt account _ _ sharesAmount =>
    { v with
      totalShares := v.totalShares - sharesAmount
      shares := Function.update v.shares account (v.shares account - sharesAmount) }
  | .stopped => { v with activeFlag := false }
  | .resumed => { v with activeFlag := true }
  | .protocolContactsSet oracle treasury insuranceFund => { v with oracle, treasury, insuranceFund }
  | .feeSet fee => { v with fee }
  | .feeDistributionSet treasuryFee insuranceFee nodeOperatorsFee =>
    { v with treasuryFee, insuranceFee, nodeOperatorsFee }
  | .elRewardsReceived amount => { v with collected := v.collected + amount }
  | .elRewardsWithdrawalLimitSet elRewardsWithdrawalLimit => { v with elRewardsWithdrawalLimit }
  | .withdrawalCredentialsSet withdrawalCredentials => { v with withdrawalCredentials }
  | .elRewardsVaultSet elRewardsVault => { v with elRewardsVault }
  | .unbuffered amount => { v with unbuffered := v.unbuffered + amount }
  | .transfer .. | .stakingPaused | .stakingResumed | .stakingLimitSet .. | .stakingLimitRemoved
  | .submitted .. | .recoverToVault .. => v

def credit (v : Published) (payments : List (Address × ℕ)) : Published :=
  { v with
    totalShares := v.totalShares + total payments
    shares := fun a ↦ v.shares a + credits payments a }

end Published

namespace Lido

/-- The part of the pool that its log determines: not the beacon's numbers, the ether it
holds and the staking limits. -/
def published (s : Lido) : Published where
  toStETH := s.toStETH
  toSettings := s.toSettings
  collected := s.totalELRewardsCollected
  unbuffered := s.depositedValidators * depositSize

end Lido

namespace Published

variable {v : Published}

theorem apply_mint (recipient : Address) (n : ℕ) :
    v.apply (.transferShares 0 recipient n) = v.credit [(recipient, n)] := by
  rw [apply, if_pos rfl, credit, total_cons, total_nil]
  congr 2
  funext a
  simp only [credits, Function.update_apply]
  split
  · rename_i h
    rw [h]
    rfl
  · rfl

theorem credit_credit (ps qs : List (Address × ℕ)) :
    (v.credit ps).credit qs = v.credit (ps ++ qs) := by
  simp only [credit, total_append, credits_append, Nat.add_assoc]

theorem credit_payments (s : Lido) (source : Address) (ps : List (Address × ℕ)) :
    ((s.mint source (total ps)).payAll source ps).published = s.published.credit ps := by
  have hle : total ps ≤ (s.mint source (total ps)).shares source := by
    simp [Lido.mint]
  have hshares : payOut (s.mint source (total ps)).shares source ps =
      fun a ↦ s.shares a + credits ps a := by
    funext a
    have hpaid := payOut_apply hle a
    by_cases ha : a = source
    · subst ha
      simp only [Lido.mint, Function.update_self, if_true] at hpaid ⊢
      omega
    · simp only [Lido.mint, Function.update_of_ne ha, if_neg ha] at hpaid ⊢
      exact hpaid
  rw [Lido.payAll, hshares]
  rfl

end Published

namespace Logged

section Token

variable {s : StETH} {pooled : Except Revert ℕ} (v : Published)

abbrev TracksToken (v : Published) (s : StETH) (x : Emits StETH) : Prop :=
  Tracks Published.apply { v with toStETH := s } x fun t ↦ { v with toStETH := t }

theorem _stop_tracks : TracksToken v s (_stop s) := by
  apply Tracks.lift_emit
  intro t ht
  rw [StETH._stop_ok ht]
  rfl

theorem _resume_tracks : TracksToken v s (_resume s) := by
  apply Tracks.lift_emit
  intro t ht
  rw [StETH._resume_ok ht]
  rfl

theorem _approve_tracks (owner spender : Address) (amount : ℕ) :
    TracksToken v s (_approve s owner spender amount) := by
  apply Tracks.lift_emit
  intro t ht
  obtain ⟨_, _, _, rfl⟩ := StETH._approve_eq_ok.mp ht
  rfl

theorem apply_moved {sender recipient : Address} {n : ℕ} {t : StETH}
    (h : s._transferShares sender recipient n = .ok t) :
    ({ v with toStETH := s } : Published).apply (.transferShares sender recipient n) =
      { v with toStETH := t } := by
  obtain ⟨_, hsender, _, _, _, rfl⟩ := StETH._transferShares_eq_ok.mp h
  rw [Published.apply, if_neg hsender]

theorem _transfer_tracks (sender recipient : Address) (amount : ℕ) :
    TracksToken v s (_transfer s pooled sender recipient amount) := by
  apply Tracks.lift_bind
  intro n _
  apply Tracks.lift_bind
  intro t ht
  apply Tracks.emit_bind
  apply Tracks.emit_bind
  apply Tracks.pure
  exact apply_moved v ht

theorem transferFrom_tracks (msgSender sender recipient : Address) (amount : ℕ) :
    TracksToken v s (transferFrom s pooled msgSender sender recipient amount) := by
  apply Tracks.lift_bind
  intro _ _
  apply (_transfer_tracks v sender recipient amount).bind
  intro t _
  apply Tracks.lift_bind
  intro rest _
  exact _approve_tracks v sender msgSender rest

theorem increaseAllowance_tracks (msgSender spender : Address) (addedValue : ℕ) :
    TracksToken v s (increaseAllowance s msgSender spender addedValue) := by
  apply Tracks.lift_bind
  intro amount _
  exact _approve_tracks v msgSender spender amount

theorem decreaseAllowance_tracks (msgSender spender : Address) (subtractedValue : ℕ) :
    TracksToken v s (decreaseAllowance s msgSender spender subtractedValue) := by
  apply Tracks.lift_bind
  intro _ _
  apply Tracks.lift_bind
  intro amount _
  exact _approve_tracks v msgSender spender amount

theorem transferShares_tracks (msgSender recipient : Address) (sharesAmount : ℕ) :
    Tracks Published.apply { v with toStETH := s }
      (transferShares s pooled msgSender recipient sharesAmount)
      fun p ↦ { v with toStETH := p.2 } := by
  apply Tracks.lift_bind
  intro t ht
  apply Tracks.emit_bind
  apply Tracks.lift_bind
  intro tokensAmount _
  apply Tracks.emit_bind
  apply Tracks.pure
  exact apply_moved v ht

theorem _burnShares_tracks (account : Address) (sharesAmount : ℕ) :
    TracksToken v s (_burnShares s pooled account sharesAmount) := by
  apply Tracks.lift_bind
  intro _ _
  apply Tracks.lift_bind
  intro _ _
  apply Tracks.lift_bind
  intro _ _
  apply Tracks.lift_bind
  intro preRebaseTokenAmount _
  apply Tracks.lift_bind
  intro newTotalShares htotal
  apply Tracks.lift_bind
  intro debited hdebited
  apply Tracks.lift_bind
  intro postRebaseTokenAmount _
  apply Tracks.emit_bind
  apply Tracks.pure
  rw [(sub_eq_ok.mp htotal).2, (sub_eq_ok.mp hdebited).2]
  rfl

end Token

section Pool

variable {s : Lido}

abbrev TracksPool (s : Lido) (x : Emits Lido) : Prop :=
  Tracks Published.apply s.published x Lido.published

theorem onToken_tracks {f : StETH → Emits StETH}
    (h : TracksToken s.published s.toStETH (f s.toStETH)) : TracksPool s (onToken s f) := by
  apply h.bind
  intro t _
  apply Tracks.pure
  rfl

theorem _setProtocolContracts_tracks (oracle treasury insuranceFund : Address) :
    TracksPool s (_setProtocolContracts s oracle treasury insuranceFund) := by
  apply Tracks.lift_emit
  intro t ht
  simp only [Lido._setProtocolContracts, bind_eq_ok, pure_eq, Except.ok.injEq] at ht
  obtain ⟨_, _, _, _, _, _, rfl⟩ := ht
  rfl

theorem _emitTransferAfterMintingShares_tracks (recipient : Address) (n : ℕ) (v : Published) :
    Tracks Published.apply v (_emitTransferAfterMintingShares s recipient n)
      fun _ ↦ v.credit [(recipient, n)] := by
  apply Tracks.lift_bind
  intro amount _
  apply Tracks.emit_bind
  intro _ log hrun
  rw [run_emit_eq_ok.mp hrun]
  exact Published.apply_mint recipient n

theorem _pauseStaking_tracks (blockNumber : ℕ) : TracksPool s (_pauseStaking s blockNumber) :=
  Tracks.emit_bind (Tracks.pure rfl)

theorem _resumeStaking_tracks (blockNumber : ℕ) : TracksPool s (_resumeStaking s blockNumber) :=
  Tracks.emit_bind (Tracks.pure rfl)

theorem setStakingLimit_tracks (maxStakeLimit stakeLimitIncreasePerBlock blockNumber : ℕ) :
    TracksPool s (setStakingLimit s maxStakeLimit stakeLimitIncreasePerBlock blockNumber) := by
  apply Tracks.lift_emit
  intro t ht
  simp only [Lido.setStakingLimit, bind_eq_ok, pure_eq, Except.ok.injEq] at ht
  obtain ⟨_, _, rfl⟩ := ht
  rfl

theorem _submit_tracks (referral msgSender : Address) (msgValue blockNumber : ℕ) :
    Tracks Published.apply s.published (_submit s referral msgSender msgValue blockNumber)
      fun p ↦ p.2.published := by
  apply Tracks.lift_bind
  intro _ _
  apply Tracks.lift_bind
  intro _ _
  apply Tracks.lift_bind
  intro s₁ hs₁
  obtain ⟨slot, rfl⟩ := Lido.consumeStakeLimit_ok hs₁
  apply Tracks.lift_bind
  intro sharesAmount _
  apply Tracks.lift_bind
  intro s₂ hs₂
  apply Tracks.lift_bind
  intro buffered _
  apply Tracks.lift_bind
  intro bufferedEther _
  apply Tracks.emit_bind
  apply (_emitTransferAfterMintingShares_tracks _ _ _).bind
  intro _ _
  apply Tracks.pure
  obtain ⟨t, ht, rfl⟩ := Lido.onToken_eq_ok.mp hs₂
  obtain ⟨_, _, _, _, rfl⟩ := StETH._mintShares_eq_ok.mp ht
  rw [← Published.apply_mint, Published.apply, if_pos rfl]
  rfl

theorem fallback_tracks (msgSender : Address) (msgDataLength msgValue blockNumber : ℕ) :
    Tracks Published.apply s.published (fallback s msgSender msgDataLength msgValue blockNumber)
      fun p ↦ p.2.published := by
  apply Tracks.lift_bind
  intro _ _
  exact _submit_tracks (s := s.receive msgValue) _ _ _ _

theorem receiveELRewards_tracks (msgSender : Address) (msgValue : ℕ) :
    TracksPool s (receiveELRewards s msgSender msgValue) := by
  apply Tracks.lift_emit
  intro t ht
  obtain ⟨_, _, rfl⟩ := Lido.receiveELRewards_eq_ok.mp ht
  rfl

theorem stop_tracks (blockNumber : ℕ) : TracksPool s (stop s blockNumber) :=
  (onToken_tracks (_stop_tracks _)).bind fun _ _ ↦ _pauseStaking_tracks blockNumber

theorem resume_tracks (blockNumber : ℕ) : TracksPool s (resume s blockNumber) :=
  (onToken_tracks (_resume_tracks _)).bind fun _ _ ↦ _resumeStaking_tracks blockNumber

theorem setFee_tracks (feeBasisPoints : ℕ) : TracksPool s (setFee s feeBasisPoints) := by
  apply Tracks.lift_emit
  intro t ht
  simp only [Lido.setFee, bind_eq_ok, pure_eq, Except.ok.injEq] at ht
  obtain ⟨_, _, rfl⟩ := ht
  rfl

theorem setFeeDistribution_tracks (treasuryFee insuranceFee operatorsFee : ℕ) :
    TracksPool s (setFeeDistribution s treasuryFee insuranceFee operatorsFee) := by
  apply Tracks.lift_emit
  intro t ht
  simp only [Lido.setFeeDistribution, bind_eq_ok, pure_eq, Except.ok.injEq] at ht
  obtain ⟨_, _, _, _, _, _, _, _, _, _, _, _, rfl⟩ := ht
  rfl

theorem setELRewardsWithdrawalLimit_tracks (limitPoints : ℕ) :
    TracksPool s (setELRewardsWithdrawalLimit s limitPoints) := by
  apply Tracks.lift_emit
  intro t ht
  simp only [Lido.setELRewardsWithdrawalLimit, bind_eq_ok, pure_eq, Except.ok.injEq] at ht
  obtain ⟨_, _, rfl⟩ := ht
  rfl

end Pool

variable {R ρ : Type} {D : Deployment} {I : INodeOperatorsRegistry R ρ} {c : LidoCall D}
  {s : Lido} {w : World R} {v : Published}

section Report

theorem payShares_tracks (recipient : Address) (n : ℕ) :
    Tracks Published.apply v (payShares D recipient n s) fun _ ↦ v.credit [(recipient, n)] := by
  apply Tracks.lift_bind
  intro s₁ _
  apply (_emitTransferAfterMintingShares_tracks recipient n v).bind
  intro _ _
  exact Tracks.pure rfl

theorem payOperators_tracks {recipients : List Address} {amounts : List ℕ} (distributed : ℕ)
    (hlen : recipients.length = amounts.length) :
    Tracks Published.apply v (payOperators D recipients amounts distributed s)
      fun _ ↦ v.credit (recipients.zip amounts) := by
  induction recipients generalizing amounts distributed s v with
  | nil => exact Tracks.pure rfl
  | cons recipient recipients ih =>
    cases amounts with
    | nil => simp at hlen
    | cons amount amounts =>
      apply (payShares_tracks recipient amount).bind
      intro s₁ _
      apply Tracks.lift_bind
      intro distributed' _
      have hrest := ih (s := s₁) (v := v.credit [(recipient, amount)]) distributed'
        (by simpa using hlen)
      rw [Published.credit_credit] at hrest
      exact hrest

theorem _distributeNodeOperatorsReward_tracks {registry : R} {n : ℕ} {recipients : List Address}
    {amounts : List ℕ} (hdist : I.getRewardsDistribution registry n = .ok (recipients, amounts))
    (hlen : recipients.length = amounts.length) :
    Tracks Published.apply v (_distributeNodeOperatorsReward D I registry n s)
      fun _ ↦ v.credit (recipients.zip amounts) := by
  apply Tracks.lift_bind
  intro p hp
  cases hdist.symm.trans hp
  apply Tracks.lift_bind
  intro _ _
  exact payOperators_tracks 0 hlen

/-- The fee is minted to the pool without an event and logged as minted to those paid. -/
theorem distributeFee_credits {registry : R} {totalRewards m : ℕ} {recipients : List Address}
    {amounts : List ℕ} (hm : Lido.sharesToMint totalRewards s = .ok m)
    (hdist : I.getRewardsDistribution registry
      (m * s.getNodeOperatorsFee / Lido.totalBasisPoints) = .ok (recipients, amounts))
    (hlen : recipients.length = amounts.length) :
    Tracks Published.apply v (distributeFee D I registry totalRewards s)
      fun _ ↦ v.credit (s.feePayments m (recipients.zip amounts)) := by
  apply Tracks.lift_bind
  intro m' hm'
  cases hm.symm.trans hm'
  apply Tracks.lift_bind
  intro s₁ hs₁
  obtain ⟨t, ht, rfl⟩ := Lido.onToken_eq_ok.mp hs₁
  apply Tracks.lift_bind
  intro insurancePart hpart
  obtain ⟨_, rfl⟩ := mul_eq_ok.mp hpart
  apply Tracks.lift_bind
  intro toInsuranceFund hinsurance
  obtain ⟨_, rfl⟩ := div_eq_ok.mp hinsurance
  apply (payShares_tracks _ _).bind
  intro s₂ hs₂
  rw [payShares_outcome] at hs₂
  obtain ⟨_, rfl⟩ := Lido.payShares_ok hs₂
  apply Tracks.lift_bind
  intro operatorsPart hpart'
  obtain ⟨_, rfl⟩ := mul_eq_ok.mp hpart'
  apply Tracks.lift_bind
  intro toOperators htoOperators
  obtain ⟨_, rfl⟩ := div_eq_ok.mp htoOperators
  apply (_distributeNodeOperatorsReward_tracks hdist hlen).bind
  intro p hp
  rw [_distributeNodeOperatorsReward_outcome] at hp
  simp only [Lido._distributeNodeOperatorsReward, bind_eq_ok, require_eq_ok, exists_const] at hp
  obtain ⟨q, hq, _, hops⟩ := hp
  cases hdist.symm.trans hq
  obtain ⟨htotal, hpaid⟩ := Lido.payOperators_ok hlen hops
  obtain ⟨distributed, s₃⟩ := p
  dsimp only at htotal hpaid
  subst htotal hpaid
  apply Tracks.lift_bind
  intro rest hrest
  obtain ⟨_, rfl⟩ := sub_eq_ok.mp hrest
  apply Tracks.lift_bind
  intro toTreasury htreasury
  obtain ⟨_, rfl⟩ := sub_eq_ok.mp htreasury
  rw [Nat.zero_add, Published.credit_credit]
  intro s' log hrun
  rw [payShares_tracks _ _ s' log hrun, Published.credit_credit]
  rfl

theorem distributeFee_tracks (registry : R) (totalRewards : ℕ) :
    TracksPool s (distributeFee D I registry totalRewards s) := by
  intro s' log hrun
  have hok := outcome_eq_ok.mpr ⟨log, hrun⟩
  rw [distributeFee_outcome] at hok
  obtain ⟨m, operators, hm, hsplit, rfl⟩ := Lido.distributeFee_ok hok
  obtain ⟨recipients, amounts, hdist, hlen, rfl⟩ := hsplit.split
  rw [distributeFee_credits hm hdist hlen _ log hrun, ← Published.credit_payments s D.lido,
    hsplit.total_payments]

theorem withdrawRewards_tracks (vault : ELRewardsVault) (vaultAddress msgSender : Address)
    (maxAmount : ℕ) : Tracks Published.apply s.published
      (withdrawRewards vault vaultAddress msgSender maxAmount s) fun p ↦ p.2.2.published := by
  apply Tracks.lift_bind
  intro _ _
  apply Tracks.ite
  · intro _
    apply (receiveELRewards_tracks _ _).bind
    intro s₁ _
    exact Tracks.pure rfl
  · intro _
    exact Tracks.pure rfl

theorem callWithdrawRewards_tracks (vaultAddress : Address) (maxAmount : ℕ) :
    Tracks Published.apply w.lido.published (callWithdrawRewards D vaultAddress maxAmount w)
      fun p ↦ p.2.lido.published := by
  unfold callWithdrawRewards
  cases w.vaults vaultAddress with
  | none => exact Tracks.lift fun _ h ↦ nomatch h
  | some vault =>
    apply (withdrawRewards_tracks vault vaultAddress D.lido maxAmount).bind
    intro p _
    exact Tracks.pure rfl

theorem withdrawELRewards_tracks :
    Tracks Published.apply w.lido.published (withdrawELRewards D w)
      fun p ↦ p.2.lido.published := by
  apply Tracks.ite
  · intro _
    apply Tracks.lift_bind
    intro totalPooledEther _
    apply (callWithdrawRewards_tracks _ _).bind
    intro p _
    apply Tracks.ite
    · intro _
      apply Tracks.lift_bind
      intro buffered _
      apply Tracks.lift_bind
      intro bufferedEther _
      exact Tracks.pure rfl
    · intro _
      exact Tracks.pure rfl
  · intro _
    exact Tracks.pure rfl

theorem handleOracleReport_tracks (msgSender : Address) (v b : ℕ) :
    Tracks Published.apply w.lido.published (handleOracleReport D I msgSender v b w)
      fun w' ↦ w'.lido.published := by
  apply Tracks.lift_bind
  intro _ _
  apply Tracks.lift_bind
  intro _ _
  apply Tracks.lift_bind
  intro _ _
  apply Tracks.lift_bind
  intro _ _
  apply Tracks.lift_bind
  intro appearedValidators _
  apply Tracks.lift_bind
  intro appearedBalance _
  apply Tracks.lift_bind
  intro rewardBase _
  have hwithdraw := withdrawELRewards_tracks (D := D)
    (w := { w with lido := { w.lido with beaconBalance := b, beaconValidators := v } })
  apply hwithdraw.bind
  intro p _
  apply Tracks.ite
  · intro _
    apply Tracks.lift_bind
    intro rewards _
    apply Tracks.lift_bind
    intro totalRewards _
    apply (distributeFee_tracks _ _).bind
    intro lido _
    exact Tracks.pure rfl
  · intro _
    exact Tracks.pure rfl

end Report

section World

theorem apply_unbuffered (s : Lido) (balance bufferedEther count : ℕ) :
    s.published.apply (.unbuffered (count * Lido.depositSize)) = Lido.published
      { s with
        balance
        bufferedEther
        depositedValidators := s.depositedValidators + count } := by
  simp only [Published.apply, Lido.published, Nat.add_mul]

theorem _depositBufferedEther_tracks (maxDeposits : ℕ) :
    Tracks Published.apply w.lido.published (_depositBufferedEther D I c maxDeposits w)
      fun w' ↦ w'.lido.published := by
  apply Tracks.lift_bind
  intro _ _
  apply Tracks.lift_bind
  intro buffered _
  apply Tracks.ite
  · intro _
    apply Tracks.lift_bind
    intro unaccounted _
    apply Tracks.lift_bind
    intro numDeposits _
    apply Tracks.lift_bind
    intro p hp
    obtain ⟨amount, w'⟩ := p
    obtain ⟨count, keys, registry, calls, _, hamount, rfl⟩ := Lido._ETH2Deposit_ok hp
    have hmarked : Tracks Published.apply w.lido.published
        (_markAsUnbuffered { w.lido.spend amount with
          depositedValidators := w.lido.depositedValidators + count } amount) Lido.published := by
      apply Tracks.lift_emit
      intro s' hs'
      obtain ⟨_, rfl⟩ := Lido._markAsUnbuffered_eq_ok.mp hs'
      have happly := apply_unbuffered w.lido (w.lido.balance - amount)
        (w.lido.bufferedEther - amount) count
      rw [← hamount] at happly
      exact happly
    apply hmarked.bind
    intro lido _
    apply Tracks.lift_bind
    intro unaccountedAfter _
    apply Tracks.lift_bind
    intro _ _
    exact Tracks.pure rfl
  · intro _
    exact Tracks.pure rfl

theorem setWithdrawalCredentials_tracks (withdrawalCredentials : ℕ) :
    Tracks Published.apply w.lido.published
      (setWithdrawalCredentials I withdrawalCredentials w) fun w' ↦ w'.lido.published := by
  apply Tracks.lift_emit
  intro w' hw'
  simp only [Lido.setWithdrawalCredentials, bind_eq_ok, pure_eq, Except.ok.injEq] at hw'
  obtain ⟨registry, _, rfl⟩ := hw'
  rfl

theorem asRevert_tracks {α : Type} {text : String} {x : Emits α} {view : α → Published}
    (h : Tracks Published.apply v x view) : Tracks Published.apply v (asRevert text x) view := by
  intro a log hrun
  apply h a log
  unfold asRevert at hrun
  rw [WriterT.run_mk] at hrun
  cases hx : x.run with
  | error e =>
    rw [hx] at hrun
    cases hrun
  | ok p =>
    rw [hx] at hrun
    exact hrun

theorem recover_tracks (token : Address) :
    Tracks Published.apply w.lido.published (recover D c token w)
      fun w' ↦ w'.lido.published := by
  apply Tracks.ite
  · intro _
    apply Tracks.lift_bind
    intro balance _
    apply Tracks.lift_bind
    intro _ _
    exact Tracks.pure rfl
  · intro _
    apply Tracks.ite
    · intro _
      apply Tracks.lift_bind
      intro balance _
      have hown : TracksPool w.lido (onToken w.lido fun t ↦
          transfer t w.lido._getTotalPooledEther D.lido c.recoveryVault balance) :=
        onToken_tracks (_transfer_tracks _ _ _ _)
      apply (asRevert_tracks hown).bind
      intro lido _
      exact Tracks.pure rfl
    · intro _
      apply Tracks.lift_bind
      intro _ _
      exact Tracks.pure rfl

theorem transferToVault_tracks (token : Address) :
    Tracks Published.apply w.lido.published (transferToVault D c token w)
      fun w' ↦ w'.lido.published := by
  apply Tracks.lift_bind
  intro _ _
  apply Tracks.lift_bind
  intro _ _
  apply (recover_tracks token).bind
  intro w' _
  exact Tracks.emit_bind (Tracks.pure rfl)

theorem onLido_tracks {f : Lido → Emits Lido} (h : TracksPool w.lido (f w.lido)) :
    Tracks Published.apply w.lido.published (onLido f w) fun w' ↦ w'.lido.published := by
  apply h.bind
  intro lido _
  exact Tracks.pure rfl

theorem authorized_tracks {f : Lido → Emits Lido} {role : Lido.Role} {params : List ℕ}
    (h : TracksPool w.lido (f w.lido)) :
    Tracks Published.apply w.lido.published
      (onLido (fun s ↦ liftM (c.auth role params) >>= fun _ ↦ f s) w) fun w' ↦ w'.lido.published :=
  onLido_tracks (Tracks.lift_bind fun _ _ ↦ h)

theorem called_tracks {f : Lido → StETH → Emits StETH}
    (h : TracksToken w.lido.published w.lido.toStETH (f w.lido w.lido.toStETH)) :
    Tracks Published.apply w.lido.published (onLido (fun s ↦ onToken s (f s)) w)
      fun w' ↦ w'.lido.published :=
  onLido_tracks (onToken_tracks h)

theorem handle_tracks (m : LidoMessage) :
    Tracks Published.apply w.lido.published (handle D I c m w) fun w' ↦ w'.lido.published := by
  cases m with rw [handle]
  | fallback msgDataLength msgValue =>
    exact onLido_tracks ((fallback_tracks _ _ _ _).bind fun _ _ ↦ Tracks.pure rfl)
  | submit referral msgValue =>
    have hsubmit := _submit_tracks (s := w.lido.receive msgValue) referral c.sender msgValue
      c.blockNumber
    exact onLido_tracks (hsubmit.bind fun _ _ ↦ Tracks.pure rfl)
  | receiveELRewards msgValue => exact onLido_tracks (receiveELRewards_tracks _ _)
  | depositBufferedEther | depositBufferedEtherUpTo maxDeposits =>
    exact Tracks.lift_bind fun _ _ ↦ _depositBufferedEther_tracks _
  | setWithdrawalCredentials withdrawalCredentials =>
    exact Tracks.lift_bind fun _ _ ↦ setWithdrawalCredentials_tracks _
  | handleOracleReport beaconValidators beaconBalance => exact handleOracleReport_tracks _ _ _
  | transferToVault token => exact transferToVault_tracks token
  | stop => exact authorized_tracks (stop_tracks _)
  | resume => exact authorized_tracks (resume_tracks _)
  | pauseStaking => exact authorized_tracks (_pauseStaking_tracks _)
  | resumeStaking => exact authorized_tracks (_resumeStaking_tracks _)
  | setStakingLimit maxStakeLimit stakeLimitIncreasePerBlock =>
    exact authorized_tracks (setStakingLimit_tracks _ _ _)
  | setFee feeBasisPoints => exact authorized_tracks (setFee_tracks _)
  | setFeeDistribution treasuryFee insuranceFee operatorsFee =>
    exact authorized_tracks (setFeeDistribution_tracks _ _ _)
  | setProtocolContracts oracle treasury insuranceFund =>
    exact authorized_tracks (_setProtocolContracts_tracks _ _ _)
  | setELRewardsWithdrawalLimit limitPoints =>
    exact authorized_tracks (setELRewardsWithdrawalLimit_tracks _)
  | removeStakingLimit | setELRewardsVault executionLayerRewardsVault =>
    exact authorized_tracks (Tracks.emit_bind (Tracks.pure rfl))
  | burnShares account sharesAmount =>
    exact authorized_tracks (onToken_tracks (_burnShares_tracks _ _ _))
  | transfer recipient amount => exact called_tracks (_transfer_tracks _ _ _ _)
  | approve spender amount => exact called_tracks (_approve_tracks _ _ _ _)
  | transferFrom sender recipient amount => exact called_tracks (transferFrom_tracks _ _ _ _ _)
  | increaseAllowance spender addedValue => exact called_tracks (increaseAllowance_tracks _ _ _ _)
  | decreaseAllowance spender subtractedValue =>
    exact called_tracks (decreaseAllowance_tracks _ _ _ _)
  | transferShares recipient sharesAmount =>
    exact called_tracks ((transferShares_tracks _ _ _ _).bind fun _ _ ↦ Tracks.pure rfl)

theorem step_tracks (w : World R) (e : Event D ρ) :
    Tracks Published.apply w.lido.published (step D I w e) fun w' ↦ w'.lido.published := by
  cases e with
  | lido c m => exact handle_tracks m
  | registry r =>
    apply Tracks.lift
    intro w' hw'
    obtain ⟨registry, _, h⟩ := bind_eq_ok.mp hw'
    cases h
    rfl
  | forceEther amount =>
    apply Tracks.lift
    intro w' hw'
    cases hw'
    rfl
  | fundVault vault amount =>
    apply Tracks.lift
    intro w' hw'
    cases hw'
    rfl
  | deployVault vault lido treasury balance =>
    apply Tracks.lift
    intro w' hw'
    simp only [World.step, bind_eq_ok, pure_eq, Except.ok.injEq] at hw'
    obtain ⟨_, _, deployed, _, rfl⟩ := hw'
    rfl

end World

theorem start_iff : World.Initial D I w ↔ ∃ log, Start D I w log := by
  have houtcome (balance : ℕ) (oracle treasury insuranceFund : Address) :
      (Lido.blank balance).initializeLido oracle treasury insuranceFund = .ok w.lido ↔
        ∃ log, (initializeLido (Lido.blank balance) oracle treasury insuranceFund).run =
          .ok (w.lido, log) := by
    rw [← outcome_eq_ok, initializeLido, _setProtocolContracts_outcome]
    rfl
  simp only [World.Initial, Start, houtcome]
  constructor
  · intro h
    obtain ⟨⟨balance, oracle, treasury, insuranceFund, log, hlog⟩, hrest⟩ := h
    exact ⟨log, ⟨balance, oracle, treasury, insuranceFund, hlog⟩, hrest⟩
  · intro h
    obtain ⟨log, ⟨balance, oracle, treasury, insuranceFund, hlog⟩, hrest⟩ := h
    exact ⟨⟨balance, oracle, treasury, insuranceFund, log, hlog⟩, hrest⟩

end Logged

/-- The pool emits events in each of its runs, and who replays them from nothing has the
shares, the allowances, the settings and the counters of the pool. -/
theorem log_determines_pool {R ρ : Type} {D : Deployment} {I : INodeOperatorsRegistry R ρ}
    {w : World R} :
    (Reachable (World.machine D I) w ↔ ∃ log, Reachable (loggedSystem D I) (w, log)) ∧
    ∀ log, Reachable (loggedSystem D I) (w, log) →
      log.foldl Published.apply (Lido.blank 0).published = w.lido.published := by
  refine ⟨reachable_iff_logging (fun _ ↦ Logged.start_iff) (Logged.step_outcome D I), ?_⟩
  intro log h
  apply replay_of_reachable (fun w : World R ↦ w.lido.published) ?_ Logged.step_tracks h
  intro w' log' hstart
  obtain ⟨⟨balance, oracle, treasury, insuranceFund, hrun⟩, _⟩ := hstart
  exact Logged._setProtocolContracts_tracks (s := Lido.blank balance) oracle treasury insuranceFund
    w'.lido log' hrun

namespace Sample

def feeRun : List (Event deployment (RegistryCall deployment)) :=
  depositRun ++ [admin .depositBufferedEther, report 2 (74 * 10 ^ 18)]

theorem fee_is_in_the_log : ∃ w log,
    Reachable (loggedSystem deployment (registryContract deployment layout)) (w, log) ∧
      0 < w.lido.shares 4 ∧ log.foldl Published.apply (Lido.blank 0).published =
        w.lido.published := by
  have hrun : reaches (loggedSystem deployment (registryContract deployment layout))
      (start, [.protocolContactsSet 2 3 4]) feeRun
      (fun s ↦ decide (0 < s.1.lido.shares 4)) = true := by
    decide +kernel
  have hstart : Reachable (loggedSystem deployment (registryContract deployment layout))
      (start, [.protocolContactsSet 2 3 4]) :=
    .initial ⟨⟨0, 2, 3, 4, rfl⟩, rfl, rfl, rfl⟩
  obtain ⟨⟨w, log⟩, h, hp⟩ := hstart.of_reaches hrun
  exact ⟨w, log, h, of_decide_eq_true hp, log_determines_pool.2 log h⟩

end Sample

end LidoDao
