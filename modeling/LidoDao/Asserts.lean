import LidoDao.CheckedMath
import LidoDao.PoolInvariants

namespace LidoDao

open Evm Library.Outcome Library.Transition SafeMath EtherBooks StakeLimit

variable {R ρ : Type} {D : Deployment} {I : INodeOperatorsRegistry R ρ}

/-- The checks of the pool that guard against its own bookkeeping being wrong. -/
def unreachable : List Revert :=
  [.assertion "_getBufferedEther", .assertion "_getTransientBalance",
    .assertion "_depositBufferedEther", .reason "REGISTRY_INCONSISTENT_PUBKEYS_LEN",
    .reason "REGISTRY_INCONSISTENT_SIG_LEN", .reason "REGISTRY_INCONSISTENT_SIG_COUNT"]

variable {bad : Revert → Prop} (hb : ∀ r, bad r → r ∈ unreachable)

include hb

theorem not_bad {r : Revert} (h : r ∉ unreachable) : ¬bad r := by
  intro hr
  exact h (hb r hr)

theorem avoids_require_of {p : Prop} [Decidable p] {r : Revert} (h : r ∉ unreachable) :
    Avoids bad (require p r) := by
  rw [avoids_require]
  intro _
  exact not_bad hb h

theorem arithmetic : ∀ r ∈ arithmeticErrors, ¬bad r := by
  intro r hr hbad
  have hdisjoint : ∀ r ∈ arithmeticErrors, r ∉ unreachable := by decide
  exact hdisjoint r hr (hb r hbad)

theorem bytesSlice_avoids {bs : Library.ByteWords.Bytes} {start len : ℕ} :
    Avoids bad (bytesSlice bs start len) := by
  simp (disch := decide) [bytesSlice, avoids_bind, not_bad hb]

theorem auth_avoids {Role : Type} (c : Call Role) (role : Role) (params : List ℕ) :
    Avoids bad (c.auth role params) :=
  avoids_require_of hb (by decide)

namespace StETH

variable {s : StETH} {pooled : Except Revert ℕ} (hp : Avoids bad pooled)

theorem whenNotStopped_avoids : Avoids bad s.whenNotStopped :=
  avoids_require_of hb (by decide)

theorem _approve_avoids {owner spender : Address} {amount : ℕ} :
    Avoids bad (s._approve owner spender amount) := by
  simp (disch := decide) [_approve, avoids_bind, whenNotStopped_avoids hb, not_bad hb]

theorem _transferShares_avoids {sender recipient : Address} {amount : ℕ} :
    Avoids bad (s._transferShares sender recipient amount) := by
  have ha := arithmetic hb
  simp (disch := decide) [_transferShares, avoids_bind, whenNotStopped_avoids hb, not_bad hb,
    sub_avoids ha, add_avoids ha]

theorem _mintShares_avoids {recipient : Address} {amount : ℕ} :
    Avoids bad (s._mintShares recipient amount) := by
  simp (disch := decide) [_mintShares, avoids_bind, whenNotStopped_avoids hb, not_bad hb,
    add_avoids (arithmetic hb)]

include hp

omit hb in
theorem getSharesByPooledEth_avoids (ha : ∀ r ∈ arithmeticErrors, ¬bad r) {n : ℕ} :
    Avoids bad (s.getSharesByPooledEth pooled n) := by
  simp [getSharesByPooledEth, avoids_bind, avoids_ite, hp, mul_avoids ha, div_avoids ha]

omit hb in
theorem getPooledEthByShares_avoids (ha : ∀ r ∈ arithmeticErrors, ¬bad r) {n : ℕ} :
    Avoids bad (s.getPooledEthByShares pooled n) := by
  simp [getPooledEthByShares, avoids_bind, avoids_ite, hp, mul_avoids ha, div_avoids ha]

theorem _burnShares_avoids {account : Address} {amount : ℕ} :
    Avoids bad (s._burnShares pooled account amount) := by
  simp (disch := decide) [_burnShares, avoids_bind, whenNotStopped_avoids hb, not_bad hb,
    sub_avoids (arithmetic hb), getPooledEthByShares_avoids hp (arithmetic hb)]

theorem _transfer_avoids {sender recipient : Address} {amount : ℕ} :
    Avoids bad (s._transfer pooled sender recipient amount) := by
  simp [_transfer, avoids_bind, getSharesByPooledEth_avoids hp (arithmetic hb),
    _transferShares_avoids hb]

theorem transferFrom_avoids {msgSender sender recipient : Address} {amount : ℕ} :
    Avoids bad (s.transferFrom pooled msgSender sender recipient amount) := by
  simp (disch := decide) [transferFrom, avoids_bind, not_bad hb, _transfer_avoids hb hp,
    sub_avoids (arithmetic hb), _approve_avoids hb]

theorem transferShares_avoids {msgSender recipient : Address} {amount : ℕ} :
    Avoids bad (s.transferShares pooled msgSender recipient amount) := by
  simp [transferShares, avoids_bind, _transferShares_avoids hb,
    getPooledEthByShares_avoids hp (arithmetic hb)]

end StETH

namespace Lido

variable {s : Lido} {w : World R} {c : LidoCall D}

omit hb in
theorem _getBufferedEther_avoids (h : Sound s.books) : Avoids bad s._getBufferedEther := by
  have hbacked : s.bufferedEther ≤ s.balance := h.backed
  simp [_getBufferedEther, avoids_bind, hbacked]

theorem _getUnaccountedEther_avoids (h : Sound s.books) : Avoids bad s._getUnaccountedEther := by
  simp [_getUnaccountedEther, avoids_bind, _getBufferedEther_avoids h, sub_avoids (arithmetic hb)]

theorem _getTotalPooledEther_avoids (h : Sound s.books) : Avoids bad s._getTotalPooledEther := by
  have ha := arithmetic hb
  have hseen : s.beaconValidators ≤ s.depositedValidators := h.seen
  simp [_getTotalPooledEther, _getTransientBalance, avoids_bind, hseen,
    _getBufferedEther_avoids h, add_avoids ha, sub_avoids ha, mul_avoids ha]

omit hb in
theorem onToken_avoids {f : StETH → Except Revert StETH} (h : Avoids bad (f s.toStETH)) :
    Avoids bad (s.onToken f) := by
  simp [onToken, avoids_bind, h]

theorem _emitTransferAfterMintingShares_avoids (h : Sound s.books) {n : ℕ} :
    Avoids bad (s._emitTransferAfterMintingShares n) := by
  simp [_emitTransferAfterMintingShares, StETH._emitTransferAfterMintingShares, avoids_bind,
    StETH.getPooledEthByShares_avoids (_getTotalPooledEther_avoids hb h) (arithmetic hb)]

theorem consumeStakeLimit_avoids {v blockNumber : ℕ} :
    Avoids bad (s.consumeStakeLimit v blockNumber) := by
  simp (disch := decide) [consumeStakeLimit, Data.updatePrevStakeLimit, avoids_bind, avoids_ite,
    not_bad hb]

theorem setStakingLimit_avoids {m n blockNumber : ℕ} :
    Avoids bad (s.setStakingLimit m n blockNumber) := by
  simp (disch := decide) [setStakingLimit, Data.setStakingLimit, avoids_bind, not_bad hb]

theorem _submit_avoids {msgSender : Address} {v blockNumber : ℕ} (h : Sound s.books)
    (hv : s.bufferedEther + v ≤ s.balance) : Avoids bad (s._submit msgSender v blockNumber) := by
  simp only [_submit, avoids_bind]
  refine ⟨avoids_require_of hb (by decide), ?_⟩
  intro _ _
  refine ⟨avoids_require_of hb (by decide), ?_⟩
  intro _ _
  refine ⟨consumeStakeLimit_avoids hb, ?_⟩
  intro s₁ hs₁
  obtain ⟨slot, rfl⟩ := consumeStakeLimit_ok hs₁
  refine ⟨StETH.getSharesByPooledEth_avoids (_getTotalPooledEther_avoids hb h) (arithmetic hb), ?_⟩
  intro n _
  refine ⟨onToken_avoids (StETH._mintShares_avoids hb), ?_⟩
  intro s₂ hs₂
  obtain ⟨t, _, rfl⟩ := onToken_eq_ok.mp hs₂
  refine ⟨_getBufferedEther_avoids h, ?_⟩
  intro buffered hbuffered
  obtain ⟨_, rfl⟩ := _getBufferedEther_eq_ok.mp hbuffered
  refine ⟨add_avoids (arithmetic hb), ?_⟩
  intro total htotal
  obtain ⟨_, rfl⟩ := add_eq_ok.mp htotal
  let s₃ : Lido :=
    { s with toStETH := t, stakingState := slot, bufferedEther := s.bufferedEther + v }
  have hsound : Sound s₃.books := ⟨hv, h.seen⟩
  exact ⟨_emitTransferAfterMintingShares_avoids hb hsound, fun _ _ ↦ avoids_ok _⟩

theorem receiveELRewards_avoids {msgSender : Address} {v : ℕ} :
    Avoids bad (s.receiveELRewards msgSender v) := by
  simp (disch := decide) [receiveELRewards, avoids_bind, not_bad hb, add_avoids (arithmetic hb)]

theorem _markAsUnbuffered_avoids {n : ℕ} : Avoids bad (s._markAsUnbuffered n) := by
  simp [_markAsUnbuffered, avoids_bind, sub_avoids (arithmetic hb)]

section Deposits

theorem _pad64_avoids {b : Library.ByteWords.Bytes} : Avoids bad (_pad64 b) := by
  simp (disch := decide) [_pad64, avoids_bind, avoids_ite, not_bad hb, bytesSlice_avoids hb]

theorem depositDataRoot_avoids {pubkey signature : Library.ByteWords.Bytes} {n m : ℕ} :
    Avoids bad (depositDataRoot D pubkey signature n m) := by
  simp (disch := decide) [depositDataRoot, _toLittleEndian64, avoids_bind, not_bad hb,
    bytesSlice_avoids hb, _pad64_avoids hb]

theorem _stake_avoids {pubkey signature : Library.ByteWords.Bytes} {deposits : List DepositCall} :
    Avoids bad (_stake D c pubkey signature s deposits) := by
  have ha := arithmetic hb
  simp (disch := decide) [_stake, avoids_bind, not_bad hb, div_avoids ha, mul_avoids ha,
    sub_avoids ha, depositDataRoot_avoids hb]

theorem stakeKeys_avoids {pubkeys signatures : Library.ByteWords.Bytes} {is : List ℕ}
    {deposits : List DepositCall} :
    Avoids bad (stakeKeys D c pubkeys signatures is s deposits) := by
  induction is generalizing s deposits with
  | nil => exact avoids_ok _
  | cons i is ih =>
    simp only [stakeKeys, avoids_bind]
    exact ⟨bytesSlice_avoids hb, fun _ _ ↦ ⟨bytesSlice_avoids hb, fun _ _ ↦
      ⟨_stake_avoids hb, fun _ _ ↦ ih⟩⟩⟩

/-- Keys come in whole numbers, with as many signatures. -/
def Consistent (keys : Library.ByteWords.Bytes × Library.ByteWords.Bytes) : Prop :=
  keys.1.length % pubkeyLength = 0 ∧ keys.2.length % signatureLength = 0 ∧
    keys.1.length / pubkeyLength = keys.2.length / signatureLength

/-- The registry's answers are consistent, or their being so is not at issue. -/
def AnswersConsistently (I : INodeOperatorsRegistry R ρ) (bad : Revert → Prop) (r : R) : Prop :=
  ∀ n keys r', I.assignNextSigningKeys r n = .ok (keys, r') →
    Consistent keys ∨ ∀ text, ¬bad (.reason text)

theorem _ETH2Deposit_avoids {n : ℕ} (hassign : Avoids bad (I.assignNextSigningKeys w.registry n))
    (hkeys : AnswersConsistently I bad w.registry) : Avoids bad (_ETH2Deposit D I c n w) := by
  have ha := arithmetic hb
  simp only [_ETH2Deposit, avoids_bind]
  refine ⟨hassign, ?_⟩
  intro p hp
  have hk := hkeys n p.1 p.2 hp
  have hcheck {q : Prop} [Decidable q] (text : String) (hq : Consistent p.1 → q) :
      Avoids bad (require q (.reason text)) := by
    rw [avoids_require]
    intro hnot
    rcases hk with hc | hreason
    · exact absurd (hq hc) hnot
    · exact hreason text
  simp only [avoids_ite, avoids_bind]
  refine ⟨fun _ ↦ avoids_ok _, fun _ ↦ ⟨mod_avoids ha, ?_⟩⟩
  intro x hx
  obtain ⟨_, rfl⟩ := mod_eq_ok.mp hx
  refine ⟨hcheck _ fun h ↦ h.1, fun _ _ ↦ ⟨mod_avoids ha, ?_⟩⟩
  intro y hy
  obtain ⟨_, rfl⟩ := mod_eq_ok.mp hy
  refine ⟨hcheck _ fun h ↦ h.2.1, fun _ _ ↦ ⟨div_avoids ha, ?_⟩⟩
  intro k hk'
  obtain ⟨_, rfl⟩ := div_eq_ok.mp hk'
  refine ⟨div_avoids ha, ?_⟩
  intro l hl
  obtain ⟨_, rfl⟩ := div_eq_ok.mp hl
  exact ⟨hcheck _ fun h ↦ h.2.2, fun _ _ ↦ ⟨stakeKeys_avoids hb, fun _ _ ↦ ⟨add_avoids ha,
    fun _ _ ↦ ⟨mul_avoids ha, fun _ _ ↦ avoids_ok _⟩⟩⟩⟩

theorem _depositBufferedEther_avoids {maxDeposits : ℕ} (h : Sound w.lido.books)
    (hassign : ∀ n, Avoids bad (I.assignNextSigningKeys w.registry n))
    (hkeys : AnswersConsistently I bad w.registry) :
    Avoids bad (_depositBufferedEther D I c maxDeposits w) := by
  simp only [_depositBufferedEther, avoids_bind, avoids_ite]
  refine ⟨StETH.whenNotStopped_avoids hb, fun _ _ ↦ ⟨_getBufferedEther_avoids h, ?_⟩⟩
  intro _ _
  refine ⟨?_, fun _ ↦ avoids_ok _⟩
  intro _
  refine ⟨_getUnaccountedEther_avoids hb h, ?_⟩
  intro unaccounted hunaccounted
  obtain ⟨hbacked, rfl⟩ := _getUnaccountedEther_eq_ok.mp hunaccounted
  refine ⟨div_avoids (arithmetic hb), fun _ _ ↦ ⟨_ETH2Deposit_avoids hb (hassign _) hkeys, ?_⟩⟩
  intro ⟨amount, w₁⟩ hdeposit
  obtain ⟨count, _, registry, calls, _, _, rfl⟩ := _ETH2Deposit_ok hdeposit
  refine ⟨_markAsUnbuffered_avoids hb, ?_⟩
  intro s₂ hs₂
  obtain ⟨hle, rfl⟩ := _markAsUnbuffered_eq_ok.mp hs₂
  have hle' : amount ≤ w.lido.bufferedEther := hle
  have hlaunch : Sound (w.lido.launch count amount).books := by
    refine ⟨?_, ?_⟩
    · exact Nat.sub_le_sub_right h.backed amount
    · exact h.seen.trans (Nat.le_add_right _ _)
  refine ⟨_getUnaccountedEther_avoids hb hlaunch, ?_⟩
  intro after hafter
  obtain ⟨_, rfl⟩ := _getUnaccountedEther_eq_ok.mp hafter
  have hequal : w.lido.balance - amount - (w.lido.bufferedEther - amount) =
      w.lido.balance - w.lido.bufferedEther := by
    omega
  exact ⟨avoids_require.mpr fun hne ↦ absurd hequal hne, fun _ _ ↦ avoids_ok _⟩

omit hb in
theorem setWithdrawalCredentials_avoids {n : ℕ} (htrim : Avoids bad (I.trimUnusedKeys w.registry)) :
    Avoids bad (setWithdrawalCredentials I n w) := by
  simp [setWithdrawalCredentials, avoids_bind, htrim]

end Deposits

section Report

theorem payShares_avoids {recipient : Address} {n : ℕ} (h : Sound s.books) :
    Avoids bad (payShares D recipient n s) := by
  simp only [payShares, _transferShares, avoids_bind]
  refine ⟨onToken_avoids (StETH._transferShares_avoids hb), ?_⟩
  intro s₁ hs₁
  obtain ⟨t, _, rfl⟩ := onToken_eq_ok.mp hs₁
  have h₁ : Sound ({ s with toStETH := t } : Lido).books := h
  exact ⟨_emitTransferAfterMintingShares_avoids hb h₁, fun _ _ ↦ avoids_ok _⟩

theorem payOperators_avoids {recipients : List Address} {amounts : List ℕ} {n : ℕ}
    (h : Sound s.books) : Avoids bad (payOperators D recipients amounts n s) := by
  induction recipients generalizing amounts n s with
  | nil => exact avoids_ok _
  | cons recipient recipients ih =>
    cases amounts with
    | nil => exact avoids_ok _
    | cons amount amounts =>
      simp only [payOperators, avoids_bind]
      refine ⟨payShares_avoids hb h, ?_⟩
      intro s₁ hs₁
      obtain ⟨_, rfl⟩ := payShares_ok hs₁
      exact ⟨add_avoids (arithmetic hb), fun _ _ ↦ ih h⟩

theorem distributeFee_avoids {registry : R} {n : ℕ} (h : Sound s.books)
    (hdist : ∀ n, Avoids bad (I.getRewardsDistribution registry n)) :
    Avoids bad (distributeFee D I registry n s) := by
  have ha := arithmetic hb
  simp only [distributeFee, sharesToMint, _distributeNodeOperatorsReward, avoids_bind]
  refine ⟨⟨mul_avoids ha, fun _ _ ↦ ⟨mul_avoids ha, fun _ _ ↦
    ⟨_getTotalPooledEther_avoids hb h, fun _ _ ↦ ⟨mul_avoids ha, fun _ _ ↦ ⟨mul_avoids ha,
    fun _ _ ↦ ⟨sub_avoids ha, fun _ _ ↦ div_avoids ha⟩⟩⟩⟩⟩⟩, ?_⟩
  intro m _
  refine ⟨onToken_avoids (StETH._mintShares_avoids hb), ?_⟩
  intro s₁ hs₁
  obtain ⟨t, _, rfl⟩ := onToken_eq_ok.mp hs₁
  refine ⟨mul_avoids ha, fun _ _ ↦ ⟨div_avoids ha, fun _ _ ↦ ⟨payShares_avoids hb h, ?_⟩⟩⟩
  intro s₂ hs₂
  obtain ⟨_, rfl⟩ := payShares_ok hs₂
  refine ⟨mul_avoids ha, fun _ _ ↦ ⟨div_avoids ha, fun _ _ ↦ ⟨⟨hdist _, ?_⟩, ?_⟩⟩⟩
  · intro p _
    exact ⟨avoids_require_of hb (by decide), fun _ _ ↦ payOperators_avoids hb h⟩
  · intro p hs₃
    obtain ⟨distributed, s₃⟩ := p
    obtain ⟨p, _, hs₃⟩ := bind_eq_ok.mp hs₃
    simp only [bind_eq_ok, require_eq_ok, exists_const] at hs₃
    obtain ⟨_, hpaid⟩ := payOperators_ok hs₃.1 hs₃.2
    dsimp only at hpaid
    have h₃ : Sound s₃.books := by
      rw [hpaid]
      exact h
    exact ⟨sub_avoids ha, fun _ _ ↦ ⟨sub_avoids ha, fun _ _ ↦ payShares_avoids hb h₃⟩⟩

theorem withdrawELRewards_avoids (h : Sound w.lido.books) :
    Avoids bad (withdrawELRewards D w) := by
  have ha := arithmetic hb
  simp only [withdrawELRewards, avoids_ite, avoids_bind]
  refine ⟨fun _ ↦ ⟨_getTotalPooledEther_avoids hb h, ?_⟩, fun _ ↦ avoids_ok _⟩
  intro _ _
  refine ⟨?_, ?_⟩
  · unfold callWithdrawRewards
    cases w.vaults w.lido.elRewardsVault with
    | none => exact avoids_error.mpr (not_bad hb (by decide))
    | some vault =>
      simp only [ELRewardsVault.withdrawRewards, avoids_bind, avoids_ite]
      exact ⟨⟨avoids_require_of hb (by decide), fun _ _ ↦ ⟨fun _ ↦
        ⟨receiveELRewards_avoids hb, fun _ _ ↦ avoids_ok _⟩, fun _ ↦ avoids_ok _⟩⟩,
        fun _ _ ↦ avoids_ok _⟩
  · intro p hcall
    obtain ⟨x, w₁⟩ := p
    refine ⟨fun _ ↦ ?_, fun _ ↦ avoids_ok _⟩
    obtain ⟨_, _, _, _, rfl⟩ := callWithdrawRewards_ok hcall
    have h₁ : Sound ({ w.lido with
        balance := w.lido.balance + x
        totalELRewardsCollected := w.lido.totalELRewardsCollected + x } : Lido).books :=
      ⟨h.backed.trans (Nat.le_add_right _ _), h.seen⟩
    exact ⟨_getBufferedEther_avoids h₁, fun _ _ ↦ ⟨add_avoids ha, fun _ _ ↦ avoids_ok _⟩⟩

theorem handleOracleReport_avoids {msgSender : Address} {v b : ℕ} (h : Sound w.lido.books)
    (hdist : ∀ n, Avoids bad (I.getRewardsDistribution w.registry n)) :
    Avoids bad (handleOracleReport D I msgSender v b w) := by
  have ha := arithmetic hb
  simp only [handleOracleReport, avoids_bind]
  refine ⟨StETH.whenNotStopped_avoids hb, fun _ _ ↦ ⟨avoids_require_of hb (by decide), ?_⟩⟩
  intro _ _
  refine ⟨avoids_require_of hb (by decide), ?_⟩
  intro _ hmore
  refine ⟨avoids_require_of hb (by decide), fun _ _ ↦ ⟨sub_avoids ha, fun _ _ ↦
    ⟨mul_avoids ha, fun _ _ ↦ ⟨add_avoids ha, ?_⟩⟩⟩⟩
  intro base _
  have hreport : Sound (w.lido.report v b).books := ⟨h.backed, require_eq_ok.mp hmore⟩
  refine ⟨withdrawELRewards_avoids hb hreport, ?_⟩
  intro p hw₁
  obtain ⟨x, w₁⟩ := p
  obtain ⟨vaults, _, rfl⟩ := withdrawELRewards_ok hw₁
  have hcollect : Sound ((w.lido.report v b).collect x).books :=
    ⟨Nat.add_le_add_right h.backed x, hreport.seen⟩
  rw [avoids_ite]
  simp only [avoids_bind]
  exact ⟨fun _ ↦ ⟨sub_avoids ha, fun _ _ ↦ ⟨add_avoids ha, fun _ _ ↦
    ⟨distributeFee_avoids hb hcollect hdist, fun _ _ ↦ avoids_ok _⟩⟩⟩, fun _ ↦ avoids_ok _⟩

theorem transferToVault_avoids {token : Address} (h : Sound w.lido.books) :
    Avoids bad (transferToVault D c token w) := by
  have hasRevert {α : Type} {text : String} {x : Except Revert α}
      (ht : Revert.reason text ∉ unreachable) : Avoids bad (asRevert text x) := by
    cases x with
    | ok a => exact avoids_ok a
    | error e => exact avoids_error.mpr (not_bad hb ht)
  simp only [transferToVault, avoids_bind, avoids_ite]
  refine ⟨avoids_require_of hb (by decide), fun _ _ ↦ ⟨avoids_require_of hb (by decide), ?_⟩⟩
  intro _ _
  refine ⟨fun _ ↦ ⟨_getUnaccountedEther_avoids hb h, fun _ _ ↦
    ⟨avoids_require_of hb (by decide), fun _ _ ↦ avoids_ok _⟩⟩, fun _ ↦ ⟨fun _ ↦ ?_, fun _ ↦ ?_⟩⟩
  · exact ⟨hasRevert (by decide), fun _ _ ↦ ⟨hasRevert (by decide), fun _ _ ↦ avoids_ok _⟩⟩
  · exact ⟨avoids_require_of hb (by decide), fun _ _ ↦ avoids_ok _⟩

end Report

end Lido

structure INodeOperatorsRegistry.Spares (I : INodeOperatorsRegistry R ρ) (bad : Revert → Prop)
    (r : R) : Prop where
  assign : ∀ n, Avoids bad (I.assignNextSigningKeys r n)
  distribution : ∀ n, Avoids bad (I.getRewardsDistribution r n)
  trim : Avoids bad (I.trimUnusedKeys r)
  call : ∀ m, Avoids bad (I.call r m)

namespace World

variable {w : World R}

omit hb in
theorem avoids_onLido {f : Lido → Except Revert Lido} :
    Avoids bad (onLido f w) ↔ Avoids bad (f w.lido) := by
  simp [onLido, avoids_bind]

/-- No event fails at one of the pool's own checks. -/
theorem step_avoids (h : Sound w.lido.books) (hI : I.Spares bad w.registry)
    (hkeys : Lido.AnswersConsistently I bad w.registry) (e : Event D ρ) :
    Avoids bad (step D I w e) := by
  have ha := arithmetic hb
  have hpooled := Lido._getTotalPooledEther_avoids hb h
  have hreceive (v : ℕ) : Sound (w.lido.receive v).books :=
    ⟨h.backed.trans (Nat.le_add_right _ _), h.seen⟩
  have hsubmit (a : Address) (v n : ℕ) : Avoids bad ((w.lido.receive v)._submit a v n) :=
    Lido._submit_avoids hb (hreceive v) (Nat.add_le_add_right h.backed v)
  cases e with
  | registry r => simp [step, avoids_bind, hI.call]
  | forceEther amount => exact avoids_ok _
  | fundVault vault amount => exact avoids_ok _
  | deployVault vault lido treasury balance =>
    simp (disch := decide) [step, ELRewardsVault.constructor, avoids_bind, not_bad hb]
  | lido c m =>
    cases m with
    | fallback msgDataLength msgValue =>
      simp only [step, handle, avoids_onLido]
      simp (disch := decide) [Lido.fallback, avoids_bind, not_bad hb, hsubmit]
    | submit referral msgValue =>
      simp only [step, handle, avoids_onLido]
      simp [Lido.submit, avoids_bind, hsubmit]
    | receiveELRewards msgValue =>
      simp only [step, handle, avoids_onLido]
      exact Lido.receiveELRewards_avoids hb
    | depositBufferedEther | depositBufferedEtherUpTo maxDeposits =>
      simp only [step, handle, avoids_bind]
      exact ⟨auth_avoids hb _ _ _, fun _ _ ↦
        Lido._depositBufferedEther_avoids hb h hI.assign hkeys⟩
    | burnShares account sharesAmount =>
      simp only [step, handle, avoids_onLido]
      simp only [avoids_bind]
      exact ⟨auth_avoids hb _ _ _, fun _ _ ↦
        Lido.onToken_avoids (StETH._burnShares_avoids hb hpooled)⟩
    | stop | resume =>
      simp only [step, handle, avoids_onLido]
      simp (disch := decide) [Lido.stop, Lido.resume, Lido.onToken, StETH._stop, StETH._resume,
        StETH.whenNotStopped, StETH.whenStopped, avoids_bind, auth_avoids hb, not_bad hb]
    | pauseStaking | resumeStaking | removeStakingLimit | setELRewardsVault v =>
      simp only [step, handle, avoids_onLido]
      simp [avoids_bind, auth_avoids hb]
    | setStakingLimit m n =>
      simp only [step, handle, avoids_onLido]
      simp [avoids_bind, auth_avoids hb, Lido.setStakingLimit_avoids hb]
    | setFee fee | setELRewardsWithdrawalLimit limit =>
      simp only [step, handle, avoids_onLido]
      simp (disch := decide) [Lido.setFee, Lido.setELRewardsWithdrawalLimit, Lido.checkBPValue,
        avoids_bind, auth_avoids hb, not_bad hb]
    | setFeeDistribution treasuryFee insuranceFee operatorsFee =>
      simp only [step, handle, avoids_onLido]
      simp (disch := decide) [Lido.setFeeDistribution, Lido.checkBPValue, avoids_bind,
        auth_avoids hb, not_bad hb, add_avoids ha]
    | setProtocolContracts oracle treasury insuranceFund =>
      simp only [step, handle, avoids_onLido]
      simp (disch := decide) [Lido._setProtocolContracts, avoids_bind, auth_avoids hb, not_bad hb]
    | setWithdrawalCredentials n =>
      simp only [step, handle, avoids_bind]
      exact ⟨auth_avoids hb _ _ _, fun _ _ ↦ Lido.setWithdrawalCredentials_avoids hI.trim⟩
    | handleOracleReport v b => exact Lido.handleOracleReport_avoids hb h hI.distribution
    | transferToVault token => exact Lido.transferToVault_avoids hb h
    | transfer recipient amount =>
      simp only [step, handle, avoids_onLido]
      exact Lido.onToken_avoids (StETH._transfer_avoids hb hpooled)
    | approve spender amount =>
      simp only [step, handle, avoids_onLido]
      exact Lido.onToken_avoids (StETH._approve_avoids hb)
    | transferFrom sender recipient amount =>
      simp only [step, handle, avoids_onLido]
      exact Lido.onToken_avoids (StETH.transferFrom_avoids hb hpooled)
    | increaseAllowance spender addedValue =>
      simp only [step, handle, avoids_onLido]
      apply Lido.onToken_avoids
      simp [StETH.increaseAllowance, avoids_bind, add_avoids ha, StETH._approve_avoids hb]
    | decreaseAllowance spender subtractedValue =>
      simp only [step, handle, avoids_onLido]
      apply Lido.onToken_avoids
      simp (disch := decide) [StETH.decreaseAllowance, avoids_bind, not_bad hb, sub_avoids ha,
        StETH._approve_avoids hb]
    | transferShares recipient sharesAmount =>
      simp only [step, handle, avoids_onLido]
      apply Lido.onToken_avoids
      simp [avoids_bind, StETH.transferShares_avoids hb hpooled]

end World

end LidoDao
