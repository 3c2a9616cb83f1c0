import LidoDao.FeeDistribution
import LidoDao.PooledEther

namespace LidoDao

open Evm Library.Outcome Library.Ledger Library.SharePool Library.Transition SafeMath EtherBooks

variable {R ρ : Type} {D : Deployment} {I : INodeOperatorsRegistry R ρ}

namespace Lido

variable {s : Lido}

/-- A pool that can pay out any of its shares. -/
structure Payable (s : Lido) : Prop where
  active : s.activeFlag = true
  sound : Sound s.books
  pooled : s.pooled < wordLimit
  balanced : s.Balanced
  totalShares : s.totalShares < wordLimit
  tokens : s.totalShares * s.pooled < wordLimit

namespace Payable

theorem emit (h : s.Payable) {n : ℕ} (hn : n ≤ s.totalShares) :
    s._emitTransferAfterMintingShares n = .ok () := by
  have hpooled : s._getTotalPooledEther = .ok s.pooled :=
    _getTotalPooledEther_eq_ok.mpr ⟨h.sound, h.pooled, rfl⟩
  have hmul : n * s.pooled < wordLimit := (Nat.mul_le_mul_right _ hn).trans_lt h.tokens
  obtain ⟨k, hk⟩ := s.toStETH.getPooledEthByShares_isOk hpooled hmul
  simp only [_emitTransferAfterMintingShares, StETH._emitTransferAfterMintingShares, hk, ok_bind,
    pure_eq]

theorem payAll (h : s.Payable) {source : Address} {ps : List (Address × ℕ)}
    (hle : total ps ≤ s.shares source) : (s.payAll source ps).Payable :=
  ⟨h.active, h.sound, h.pooled, h.balanced.payAll hle, h.totalShares, h.tokens⟩

theorem payShares (h : s.Payable) {recipient : Address} (hrecipient : recipient ≠ 0) {n : ℕ}
    (hn : n ≤ s.shares D.lido) :
    payShares D recipient n s = .ok (s.payAll D.lido [(recipient, n)]) := by
  have hle : n ≤ s.totalShares := hn.trans (by rw [← h.balanced]; exact le_sum _ _)
  have hpaid : (s.payAll D.lido [(recipient, n)]).Payable := h.payAll (by simpa using hn)
  have hmoved : moved s.shares D.lido recipient n recipient < wordLimit := by
    have hsum := hpaid.balanced
    have hle' := le_sum (s.payAll D.lido [(recipient, n)]).shares recipient
    have htotal := hpaid.totalShares
    rw [hsum] at hle'
    exact hle'.trans_lt htotal
  have htransfer : s._transferShares D.lido recipient n =
      .ok (s.payAll D.lido [(recipient, n)]) :=
    onToken_eq_ok.mpr ⟨_, StETH._transferShares_eq_ok.mpr
      ⟨h.active, D.lido_ne_zero, hrecipient, hn, hmoved, rfl⟩, rfl⟩
  have hemit := hpaid.emit (n := n) hle
  simp only [Lido.payShares, htransfer, ok_bind, hemit, pure_eq]

theorem payOperators {recipients : List Address} {amounts : List ℕ} {distributed : ℕ}
    (h : s.Payable) (hrecipients : ∀ a ∈ recipients, a ≠ 0)
    (hle : total (recipients.zip amounts) ≤ s.shares D.lido)
    (hlt : distributed + total (recipients.zip amounts) < wordLimit) :
    ∃ p, payOperators D recipients amounts distributed s = .ok p := by
  induction recipients generalizing amounts distributed s with
  | nil => exact ⟨_, rfl⟩
  | cons recipient recipients ih =>
    cases amounts with
    | nil => exact ⟨_, rfl⟩
    | cons amount amounts =>
      rw [List.zip_cons_cons, total_cons] at hle hlt
      dsimp only at hle hlt
      have hfirst : amount ≤ s.shares D.lido := by omega
      have hpay := h.payShares (D := D) (hrecipients recipient (by simp)) hfirst
      have hpaid : (s.payAll D.lido [(recipient, amount)]).Payable :=
        h.payAll (by simpa using hfirst)
      have hadd : distributed + amount < wordLimit := by omega
      have hrest : distributed + amount + total (recipients.zip amounts) < wordLimit := by omega
      obtain ⟨p, hp⟩ := ih hpaid (fun a ha ↦ hrecipients a (by simp [ha]))
        (le_moved hle recipient) hrest
      refine ⟨p, ?_⟩
      simp only [Lido.payOperators, hpay, ok_bind, add, if_pos hadd]
      exact hp

end Payable

theorem Payable.mint {m : ℕ} {recipient : Address} (hs : s.Sane) (hactive : s.activeFlag = true)
    (hpooled : s.pooled < wordLimit) (hm : s.totalShares + m < wordLimit)
    (htokens : (s.totalShares + m) * s.pooled < wordLimit) : (s.mint recipient m).Payable :=
  ⟨hactive, hs.sound, hpooled, hs.balanced.mint recipient m, hm, htokens⟩

theorem exists_distributeFee {registry : R} {totalRewards m : ℕ} {recipients : List Address}
    {amounts : List ℕ} (hs : s.Sane) (hactive : s.activeFlag = true)
    (hmint : sharesToMint totalRewards s = .ok m)
    (hshares : (s.totalShares + m) * totalBasisPoints < wordLimit)
    (htokens : (s.totalShares + m) * s.pooled < wordLimit)
    (hdist : I.getRewardsDistribution registry (m * s.getNodeOperatorsFee / totalBasisPoints) =
      .ok (recipients, amounts))
    (hlength : recipients.length = amounts.length) (hrecipients : ∀ a ∈ recipients, a ≠ 0)
    (hcovered : m * s.getInsuranceFee / totalBasisPoints + total (recipients.zip amounts) ≤ m) :
    ∃ s', distributeFee D I registry totalRewards s = .ok s' := by
  obtain ⟨⟨_, hpooled⟩, _⟩ := sharesToMint_eq_ok.mp hmint
  have hle : s.totalShares + m ≤ (s.totalShares + m) * totalBasisPoints :=
    Nat.le_mul_of_pos_right _ (by decide)
  have hbound : s.totalShares + m < wordLimit := hle.trans_lt hshares
  have hpart {p : ℕ} (hp : p ≤ totalBasisPoints) : m * p < wordLimit :=
    (Nat.mul_le_mul (Nat.le_add_left m s.totalShares) hp).trans_lt hshares
  have hins : m * s.getInsuranceFee < wordLimit := by
    have hparts := hs.valid.parts_le
    rw [getInsuranceFee_eq hs.valid]
    exact hpart (by omega)
  have hops : m * s.getNodeOperatorsFee < wordLimit := by
    have hparts := hs.valid.parts_le
    rw [getNodeOperatorsFee_eq hs.valid]
    exact hpart (by omega)
  have hown : s.shares D.lido + m < wordLimit := by
    have hle' := le_sum s.shares D.lido
    rw [hs.balanced] at hle'
    omega
  have hminted : s._mintShares D.lido m = .ok (s.mint D.lido m) :=
    onToken_eq_ok.mpr ⟨_, StETH._mintShares_eq_ok.mpr
      ⟨hactive, D.lido_ne_zero, hbound, hown, rfl⟩, rfl⟩
  have hpayable : (s.mint D.lido m).Payable := .mint hs hactive hpooled hbound htokens
  generalize hs₁ : s.mint D.lido m = s₁ at hminted hpayable
  have hm : m ≤ s₁.shares D.lido := by
    rw [← hs₁]
    simp [mint]
  have hsettings : s₁.toSettings = s.toSettings := by rw [← hs₁]; rfl
  have hins₁ : s₁.getInsuranceFee = s.getInsuranceFee := by rw [← hs₁]; rfl
  generalize hi : m * s.getInsuranceFee / totalBasisPoints = i at hcovered
  have hpos : (0 : ℕ) < totalBasisPoints := by decide
  have hfund : s₁.insuranceFund ≠ 0 := by
    rw [hsettings]
    exact hs.valid.insuranceFund
  have hpay₁ := hpayable.payShares (D := D) hfund (n := i) (by omega)
  have hpayable₂ : (s₁.payAll D.lido [(s₁.insuranceFund, i)]).Payable :=
    hpayable.payAll (by simp; omega)
  have hleft : total (recipients.zip amounts) + (m - i - total (recipients.zip amounts)) ≤
      (s₁.payAll D.lido [(s₁.insuranceFund, i)]).shares D.lido := by
    apply le_moved
    omega
  generalize hs₂ : s₁.payAll D.lido [(s₁.insuranceFund, i)] = s₂ at hpay₁ hpayable₂ hleft
  have hops₂ : s₂.getNodeOperatorsFee = s.getNodeOperatorsFee := by rw [← hs₂, ← hs₁]; rfl
  have hoperators : ∃ p, payOperators D recipients amounts 0 s₂ = .ok p :=
    hpayable₂.payOperators hrecipients (by omega) (by omega)
  obtain ⟨⟨distributed, s₃⟩, hpaid⟩ := hoperators
  obtain ⟨htotal, hs₃⟩ := payOperators_ok hlength hpaid
  dsimp only at htotal hs₃
  rw [Nat.zero_add] at htotal
  have hpayable₃ : s₃.Payable := by
    rw [hs₃]
    exact hpayable₂.payAll (by omega)
  have hrest : m - i - distributed ≤ s₃.shares D.lido := by
    have happly := payOut_apply
      (show total (recipients.zip amounts) ≤ s₂.shares D.lido by omega) D.lido
    rw [if_pos rfl] at happly
    rw [hs₃, htotal]
    simp only [payAll]
    omega
  have htreasury : s₃.treasury ≠ 0 := by
    have hsame : s₃.toSettings = s.toSettings := by rw [hs₃, ← hs₂, ← hs₁]; rfl
    rw [hsame]
    exact hs.valid.treasury
  have hpay₃ := hpayable₃.payShares (D := D) htreasury hrest
  refine ⟨s₃.payAll D.lido [(s₃.treasury, m - i - distributed)], ?_⟩
  simp only [distributeFee, hmint, ok_bind, hminted, hins₁, mul, if_pos hins, div, if_pos hpos, hi,
    hpay₁, hops₂, if_pos hops, _distributeNodeOperatorsReward, hdist, require_of hlength, hpaid,
    sub, if_pos (show i ≤ m by omega), if_pos (show distributed ≤ m - i by omega), hpay₃]

variable {w : World R}

/-- The rewards that a report withdraws from the vault in use. -/
def rewardsWithdrawn (w : World R) (v b : ℕ) : ℕ :=
  if w.lido.elRewardsVault = 0 then 0
  else min w.vaultBalance (w.lido.report v b).withdrawalCap

/-- The vault in use, if there is one, is one for this pool. -/
def VaultFits (D : Deployment) (w : World R) : Prop :=
  w.lido.elRewardsVault = 0 ∨
    ∃ vault, w.vaults w.lido.elRewardsVault = some vault ∧ vault.lido = D.lido

theorem exists_withdrawELRewards {v b : ℕ} (hvault : VaultFits D w)
    (hsound : Sound (w.lido.report v b).books)
    (hpooled : ((w.lido.report v b).collect (rewardsWithdrawn w v b)).pooled < wordLimit)
    (hcollected : w.lido.totalELRewardsCollected + rewardsWithdrawn w v b < wordLimit) :
    ∃ w', withdrawELRewards D { w with lido := w.lido.report v b } =
      .ok (rewardsWithdrawn w v b, w') := by
  by_cases hnone : w.lido.elRewardsVault = 0
  · have hzero : rewardsWithdrawn w v b = 0 := if_pos hnone
    have hskip : ¬(w.lido.report v b).elRewardsVault ≠ 0 := not_not.mpr hnone
    rw [hzero, withdrawELRewards, if_neg hskip]
    exact ⟨_, rfl⟩
  · obtain ⟨vault, hvault, hlido⟩ := hvault.resolve_left hnone
    have hbalance : w.vaultBalance = vault.balance := by
      rw [World.vaultBalance, hvault]
    have hx : rewardsWithdrawn w v b =
        min vault.balance (w.lido.report v b).withdrawalCap := by
      rw [rewardsWithdrawn, if_neg hnone, hbalance]
    have hsome : (w.lido.report v b).elRewardsVault ≠ 0 := hnone
    have hsplit : ((w.lido.report v b).collect (rewardsWithdrawn w v b)).pooled =
        (w.lido.report v b).pooled + rewardsWithdrawn w v b := by
      simp only [collect, pooled, books, Books.pooled, Books.inTransit]
      omega
    have hbuffered : w.lido.bufferedEther + rewardsWithdrawn w v b ≤
        ((w.lido.report v b).collect (rewardsWithdrawn w v b)).pooled := by
      simp only [collect, report, pooled, books, Books.pooled]
      omega
    have htotal : (w.lido.report v b)._getTotalPooledEther = .ok (w.lido.report v b).pooled :=
      _getTotalPooledEther_eq_ok.mpr ⟨hsound, by omega, rfl⟩
    generalize hcap : (w.lido.report v b).withdrawalCap = cap at hx
    have hmin : (if cap < vault.balance then cap else vault.balance) = min vault.balance cap := by
      split <;> omega
    generalize rewardsWithdrawn w v b = x at hx hpooled hcollected hsplit hbuffered ⊢
    have hreceive : (w.lido.report v b).receiveELRewards (w.lido.report v b).elRewardsVault x =
        .ok { w.lido.report v b with
          balance := (w.lido.report v b).balance + x
          totalELRewardsCollected := (w.lido.report v b).totalELRewardsCollected + x } :=
      receiveELRewards_eq_ok.mpr ⟨rfl, hcollected, rfl⟩
    have hcall : ∃ w', callWithdrawRewards D (w.lido.report v b).elRewardsVault cap
        { w with lido := w.lido.report v b } = .ok (x, w') := by
      have hvault' : w.vaults (w.lido.report v b).elRewardsVault = some vault := hvault
      simp only [callWithdrawRewards, hvault', ELRewardsVault.withdrawRewards,
        require_of hlido.symm, ok_bind, hmin, ← hx]
      split
      · simp only [hreceive, ok_bind, pure_eq]
        exact ⟨_, rfl⟩
      · exact ⟨_, rfl⟩
    obtain ⟨w', hcall⟩ := hcall
    have hcap' : (w.lido.report v b).pooled * (w.lido.report v b).elRewardsWithdrawalLimit %
        wordLimit / totalBasisPoints = cap := hcap
    rw [withdrawELRewards, if_pos hsome, htotal]
    simp only [ok_bind, hcap', hcall]
    split
    · obtain ⟨_, _, _, _, rfl⟩ := callWithdrawRewards_ok hcall
      have hbacked : w.lido.bufferedEther ≤ w.lido.balance + x :=
        hsound.backed.trans (Nat.le_add_right _ _)
      have hadd : w.lido.bufferedEther + x < wordLimit := by omega
      have hbuffer : Lido._getBufferedEther { w.lido.report v b with
          balance := (w.lido.report v b).balance + x
          totalELRewardsCollected := (w.lido.report v b).totalELRewardsCollected + x } =
            .ok w.lido.bufferedEther := _getBufferedEther_eq_ok.mpr ⟨hbacked, rfl⟩
      simp only [hbuffer, ok_bind, add, if_pos hadd, pure_eq]
      exact ⟨_, rfl⟩
    · exact ⟨_, rfl⟩

/-- The pool when a report is stored and its rewards are withdrawn. -/
def afterReport (w : World R) (v b : ℕ) : Lido :=
  (w.lido.report v b).collect (rewardsWithdrawn w v b)

def reportedRewards (w : World R) (v b : ℕ) : ℕ := beaconGain w v b + rewardsWithdrawn w v b

def reportedFeeShares (w : World R) (v b : ℕ) : ℕ :=
  feeShares w.lido.fee totalBasisPoints (reportedRewards w v b) (afterReport w v b).pooled
    w.lido.totalShares

/-- The sums and products that a report computes fit into a word. -/
structure NoOverflow (w : World R) (v b : ℕ) : Prop where
  rewardBase : w.lido.books.rewardBase depositSize v < wordLimit
  collected : w.lido.totalELRewardsCollected + rewardsWithdrawn w v b < wordLimit
  pooled : (afterReport w v b).pooled * totalBasisPoints < wordLimit
  dividend : w.lido.books.rewardBase depositSize v < b →
    reportedRewards w v b * w.lido.fee * w.lido.totalShares < wordLimit
  shares : w.lido.books.rewardBase depositSize v < b →
    (w.lido.totalShares + reportedFeeShares w v b) * totalBasisPoints < wordLimit
  tokens : w.lido.books.rewardBase depositSize v < b →
    (w.lido.totalShares + reportedFeeShares w v b) * (afterReport w v b).pooled < wordLimit

theorem NoOverflow.pooled_lt {v b : ℕ} (h : NoOverflow w v b) :
    (afterReport w v b).pooled < wordLimit :=
  (Nat.le_mul_of_pos_right _ (by decide)).trans_lt h.pooled

theorem Sane.afterReport {v b : ℕ} (h : w.lido.Sane) (hmore : v ≤ w.lido.depositedValidators) :
    (afterReport w v b).Sane :=
  ⟨⟨Nat.add_le_add_right h.sound.backed _, hmore⟩, h.balanced, h.totalShares, h.valid⟩

theorem sharesToMint_afterReport {v b : ℕ} (hs : w.lido.Sane)
    (hmore : v ≤ w.lido.depositedValidators) (hless : w.lido.beaconValidators ≤ v)
    (hgain : w.lido.books.rewardBase depositSize v < b) (hfits : NoOverflow w v b)
    (hfee : ¬(w.lido.fee = totalBasisPoints ∧ w.lido.pooled = 0)) :
    sharesToMint (reportedRewards w v b) (afterReport w v b) = .ok (reportedFeeShares w v b) := by
  have hpooled : (afterReport w v b).pooled = w.lido.pooled + reportedRewards w v b :=
    World.report_pooled hs.sound hmore hless _ hgain.le
  have hgetFee : (afterReport w v b).getFee = w.lido.fee := World.getFee_eq hs.valid
  have hpos : 0 < reportedRewards w v b := by
    unfold reportedRewards beaconGain
    omega
  have hscaled := Nat.mul_le_mul_right (reportedRewards w v b) hs.valid.fee
  have hexpand : (afterReport w v b).pooled * totalBasisPoints =
      w.lido.pooled * totalBasisPoints + totalBasisPoints * reportedRewards w v b := by
    rw [hpooled, Nat.add_mul, Nat.mul_comm (reportedRewards w v b)]
  have hpart : w.lido.fee * reportedRewards w v b < wordLimit := by
    have hlt := hfits.pooled
    omega
  -- The divisor is only zero where everything is taken of a pool that held nothing.
  have hdivisor : w.lido.fee * reportedRewards w v b <
      (afterReport w v b).pooled * totalBasisPoints := by
    rw [hexpand]
    rcases Nat.lt_or_ge w.lido.fee totalBasisPoints with hlt | hge
    · have hlt' := Nat.mul_lt_mul_of_pos_right hlt hpos
      omega
    · have hfull : w.lido.fee = totalBasisPoints := le_antisymm hs.valid.fee hge
      have hheld : 0 < w.lido.pooled :=
        Nat.pos_of_ne_zero fun hzero ↦ hfee ⟨hfull, hzero⟩
      have hbase : 0 < w.lido.pooled * totalBasisPoints := Nat.mul_pos hheld (by decide)
      omega
  refine sharesToMint_eq_ok.mpr ⟨⟨(hs.afterReport hmore).sound, hfits.pooled_lt⟩, ?_⟩
  rw [hgetFee]
  refine ⟨hfits.dividend hgain, ?_, hfits.pooled, hdivisor, rfl⟩
  rw [Nat.mul_comm]
  exact hpart

end Lido

section Joint

open NodeOperatorsRegistry Lido

variable {L : SigningKeyLayout} {w : World NodeOperatorsRegistry} {v b : ℕ}

theorem exists_distributeFee_afterReport (hs : JointSane D w) (hactive : w.lido.activeFlag = true)
    (hmore : v ≤ w.lido.depositedValidators) (hless : w.lido.beaconValidators ≤ v)
    (hgain : w.lido.books.rewardBase depositSize v < b) (hfits : NoOverflow w v b)
    (hfee : ¬(w.lido.fee = totalBasisPoints ∧ w.lido.pooled = 0)) :
    ∃ s', distributeFee D (registryContract D L) w.registry (reportedRewards w v b)
      (afterReport w v b) = .ok s' := by
  have hmint := sharesToMint_afterReport hs.pool hmore hless hgain hfits hfee
  have hsane : (afterReport w v b).Sane := hs.pool.afterReport hmore
  have hvalid := hs.pool.valid
  have hparts := hvalid.parts_le
  generalize hm : reportedFeeShares w v b = m at hmint
  have hshares := hfits.shares hgain
  have htokens := hfits.tokens hgain
  rw [hm] at hshares htokens
  have hpart : m * w.lido.nodeOperatorsFee / totalBasisPoints < wordLimit := by
    have hle : m * w.lido.nodeOperatorsFee ≤ (w.lido.totalShares + m) * totalBasisPoints :=
      Nat.mul_le_mul (Nat.le_add_left _ _) (by omega)
    exact ((Nat.div_le_self _ _).trans hle).trans_lt hshares
  have hdist := getRewardsDistribution_ok hs.registry hpart
  have hgetOperators : (afterReport w v b).getNodeOperatorsFee = w.lido.nodeOperatorsFee :=
    getNodeOperatorsFee_eq hvalid
  have hgetInsurance : (afterReport w v b).getInsuranceFee = w.lido.insuranceFee :=
    getInsuranceFee_eq hvalid
  rw [← hgetOperators] at hdist
  refine exists_distributeFee hsane hactive hmint hshares htokens hdist (by simp) ?_ ?_
  · intro a ha
    obtain ⟨id, hid, rfl⟩ := List.mem_map.mp ha
    exact hs.registry.payable id (List.mem_range.mp (List.mem_of_mem_filter hid))
  · rw [List.zip_map', hgetInsurance, hgetOperators]
    exact insurance_add_operators_le hvalid m

theorem handleOracleReport_of {R ρ : Type} {I : INodeOperatorsRegistry R ρ} {w w₁ : World R}
    {msgSender : Address} {x rewardBase appeared : ℕ} (hactive : w.lido.activeFlag = true)
    (hsender : msgSender = w.lido.oracle) (hmore : v ≤ w.lido.depositedValidators)
    (hless : w.lido.beaconValidators ≤ v)
    (happeared : mul (v - w.lido.beaconValidators) depositSize = .ok appeared)
    (hbase : add appeared w.lido.beaconBalance = .ok rewardBase)
    (hwithdraw : withdrawELRewards D { w with lido := w.lido.report v b } = .ok (x, w₁))
    (hfee : rewardBase < b → b - rewardBase + x < wordLimit ∧
      ∃ s, distributeFee D I w₁.registry (b - rewardBase + x) w₁.lido = .ok s) :
    ∃ w', handleOracleReport D I msgSender v b w = .ok w' := by
  simp only [handleOracleReport, bind_eq_ok, StETH.whenNotStopped_eq_ok, require_eq_ok,
    exists_const, sub_eq_ok]
  have hlast : ∃ w', (if rewardBase < b then
        sub b rewardBase >>= fun rewards ↦ add rewards x >>= fun totalRewards ↦
          distributeFee D I w₁.registry totalRewards w₁.lido >>= fun lido ↦
            (pure { w₁ with lido } : Except Revert (World R))
      else pure w₁) = .ok w' := by
    by_cases hgain : rewardBase < b
    · obtain ⟨hlt, s, hs⟩ := hfee hgain
      simp only [if_pos hgain, bind_eq_ok, sub_eq_ok, add_eq_ok]
      exact ⟨_, _, ⟨hgain.le, rfl⟩, _, ⟨hlt, rfl⟩, s, hs, rfl⟩
    · exact ⟨w₁, if_neg hgain⟩
  obtain ⟨w', hw'⟩ := hlast
  exact ⟨w', hactive, hsender, hmore, hless, _, ⟨hless, rfl⟩,
    appeared, happeared, rewardBase, hbase, (x, w₁), hwithdraw, hw'⟩

/-- In a running pool the oracle's report is accepted exactly when the number of
validators is in range, except where a fee of everything is due in a pool that
held nothing. -/
theorem report_accepted_iff {c : LidoCall D} (h : Reachable (jointSystem D L) w)
    (hactive : w.lido.activeFlag = true) (hsender : c.sender = w.lido.oracle)
    (hvault : VaultFits D w) (hfits : NoOverflow w v b) :
    (∃ w', World.step D (registryContract D L) w (.lido c (.handleOracleReport v b)) = .ok w') ↔
      (w.lido.beaconValidators ≤ v ∧ v ≤ w.lido.depositedValidators) ∧
      ¬(w.lido.fee = totalBasisPoints ∧ w.lido.pooled = 0 ∧
        w.lido.books.rewardBase depositSize v < b) := by
  have hs := jointSane h
  constructor
  · intro h
    obtain ⟨w', hstep⟩ := h
    obtain ⟨hmore, hless, _⟩ := handleOracleReport_ok hstep
    refine ⟨⟨hless, hmore⟩, ?_⟩
    intro h
    obtain ⟨hfull, hempty, hgain⟩ := h
    obtain ⟨m, payments, hfee⟩ := World.step_feeMinted hs.pool hstep hgain
    have hafford := hfee.affordable
    rw [hfee.pooled, hfull, hempty, Nat.zero_add, Nat.mul_comm] at hafford
    exact lt_irrefl _ hafford
  · intro h
    obtain ⟨⟨hless, hmore⟩, hfee⟩ := h
    have hbase := hfits.rewardBase
    have hbaseEq : w.lido.books.rewardBase depositSize v =
        (v - w.lido.beaconValidators) * depositSize + w.lido.beaconBalance := rfl
    have happeared : (v - w.lido.beaconValidators) * depositSize < wordLimit := by
      omega
    obtain ⟨w₁, hwithdraw⟩ := exists_withdrawELRewards (v := v) (b := b) hvault
      ⟨hs.pool.sound.backed, hmore⟩ hfits.pooled_lt hfits.collected
    obtain ⟨vaults, _, rfl⟩ := withdrawELRewards_ok hwithdraw
    refine handleOracleReport_of hactive hsender hmore hless
      (mul_eq_ok.mpr ⟨happeared, rfl⟩) (add_eq_ok.mpr ⟨hbaseEq ▸ hbase, hbaseEq⟩) hwithdraw ?_
    intro hgain
    have hrewards : b - w.lido.books.rewardBase depositSize v + rewardsWithdrawn w v b =
        reportedRewards w v b := rfl
    rw [hrewards]
    have hpooled : (afterReport w v b).pooled = w.lido.pooled + reportedRewards w v b :=
      World.report_pooled hs.pool.sound hmore hless _ hgain.le
    have hlt := hfits.pooled_lt
    exact ⟨by omega, exists_distributeFee_afterReport hs hactive hmore hless hgain hfits
      fun hboth ↦ hfee ⟨hboth.1, hboth.2, hgain⟩⟩

/-- A report with a gain and a full vault is accepted. -/
theorem report_with_vault_is_accepted :
    ∃ w w', Reachable (jointSystem Sample.deployment Sample.layout) w ∧
      w.lido.elRewardsVault = 50 ∧
      World.step Sample.deployment (registryContract Sample.deployment Sample.layout) w
        (Sample.report 0 700) = .ok w' := by
  let c : LidoCall Sample.deployment :=
    { sender := 2, sender_ne_lido := by decide, blockNumber := 10, canPerform := fun _ _ ↦ true
      depositAccepts := fun _ _ ↦ true, recoveryVault := 9
      recoveryVault_ne_lido := by decide, recoveryAccepts := true, tokenTransfers := true }
  let p : World NodeOperatorsRegistry → Bool := fun w ↦
    (w.lido.activeFlag ∧ w.lido.oracle = 2 ∧ w.lido.elRewardsVault = 50 ∧
      (w.vaults 50).map ELRewardsVault.lido = some 1) ∧
    (w.lido.books.rewardBase depositSize 0 < wordLimit ∧
      w.lido.totalELRewardsCollected + rewardsWithdrawn w 0 700 < wordLimit ∧
      (afterReport w 0 700).pooled * totalBasisPoints < wordLimit ∧
      reportedRewards w 0 700 * w.lido.fee * w.lido.totalShares < wordLimit ∧
      (w.lido.totalShares + reportedFeeShares w 0 700) * totalBasisPoints < wordLimit ∧
      (w.lido.totalShares + reportedFeeShares w 0 700) * (afterReport w 0 700).pooled <
        wordLimit) ∧
    w.lido.beaconValidators = 0 ∧ w.lido.fee = 1000
  obtain ⟨w, hw, hp⟩ := Sample.reachable_of_run (p := p) (l := [
    Sample.admin .resume,
    Sample.admin (.setFee 1000),
    Sample.admin (.setELRewardsWithdrawalLimit 200),
    .deployVault 50 1 3 100,
    Sample.admin (.setELRewardsVault 50),
    Sample.admin (.submit 0 500)]) (by decide +kernel)
  obtain ⟨⟨hactive, horacle, hvault, hlido⟩, ⟨hbase, hcollected, hpooled, hdividend, hshares,
    htokens⟩, hnone, hfee⟩ := of_decide_eq_true hp
  have hfits : NoOverflow w 0 700 := ⟨hbase, hcollected, hpooled, fun _ ↦ hdividend,
    fun _ ↦ hshares, fun _ ↦ htokens⟩
  have hvault' : VaultFits Sample.deployment w := by
    rw [← hvault] at hlido
    obtain ⟨vault, hsome, hlido⟩ := Option.map_eq_some_iff.mp hlido
    exact .inr ⟨vault, hsome, hlido⟩
  obtain ⟨w', h⟩ := (report_accepted_iff (c := c) hw hactive horacle.symm hvault' hfits).mpr
    ⟨⟨by omega, Nat.zero_le _⟩, fun hall ↦ absurd (hfee.symm.trans hall.1) (by decide)⟩
  exact ⟨w, w', hw, hvault, h⟩

end Joint

end LidoDao
