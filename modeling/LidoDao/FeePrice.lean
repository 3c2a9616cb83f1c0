import LidoDao.Solvency

namespace LidoDao

open Evm Library.Outcome Library.Ledger Library.SharePool Library.Transition EtherBooks

variable {R ρ : Type} {D : Deployment} {I : INodeOperatorsRegistry R ρ}

def beaconGain (w : World R) (v b : ℕ) : ℕ := b - w.lido.books.rewardBase Lido.depositSize v

def totalRewards (w w' : World R) (v b : ℕ) : ℕ :=
  beaconGain w v b + (w'.lido.bufferedEther - w.lido.bufferedEther)

/-- The economics of a fee of `f` basis points on rewards of `r` wei, in a pool of
`T` wei with them and `before` without, when `m` shares are minted on top of `S`. -/
structure FairFee (f r before T S m : ℕ) : Prop where
  rewards_le : r ≤ T
  fee_le : f * r ≤ Lido.totalBasisPoints * T
  fee_eq : f * r = Lido.totalBasisPoints * T → f = Lido.totalBasisPoints ∧ before = 0
  worth_le : f * r < Lido.totalBasisPoints * T →
    Lido.totalBasisPoints * m * T ≤ f * r * (S + m)
  lt_worth : f * r < Lido.totalBasisPoints * T →
    f * r * (S + m) < Lido.totalBasisPoints * (m + 1) * T

theorem FairFee.of_feeShares {f r before T S : ℕ} (hf : f ≤ Lido.totalBasisPoints) (hr : 0 < r)
    (hT : T = before + r) :
    FairFee f r before T S (feeShares f Lido.totalBasisPoints r T S) := by
  subst hT
  have hscale : f * r ≤ Lido.totalBasisPoints * r := Nat.mul_le_mul_right r hf
  have hsplit : Lido.totalBasisPoints * (before + r) =
      Lido.totalBasisPoints * before + Lido.totalBasisPoints * r := Nat.mul_add _ _ _
  refine ⟨by omega, by omega, ?_, ?_, ?_⟩
  · intro heq
    have hbefore : Lido.totalBasisPoints * before = 0 := by omega
    have hfr : f * r = Lido.totalBasisPoints * r := by omega
    refine ⟨Nat.eq_of_mul_eq_mul_right hr hfr, ?_⟩
    exact (Nat.mul_eq_zero.mp hbefore).resolve_left (by decide)
  · intro hlt
    rw [Nat.mul_comm Lido.totalBasisPoints (before + r)] at hlt
    exact feeShares_mul_le hlt
  · intro hlt
    rw [Nat.mul_comm Lido.totalBasisPoints (before + r)] at hlt
    exact lt_feeShares_succ_mul hlt

namespace Lido

variable {s : Lido}

theorem FeeSplit.shares {registry : R} {m : ℕ} {operators : List (Address × ℕ)}
    (h : FeeSplit I registry s m operators) (a : Address) :
    ((s.mint D.lido m).payAll D.lido (s.feePayments m operators)).shares a =
      s.shares a + credits (s.feePayments m operators) a := by
  have hcovered : total (s.feePayments m operators) ≤ (s.mint D.lido m).shares D.lido := by
    rw [h.total_payments]
    simp [mint]
  have hpaid := payOut_apply hcovered a
  rw [h.total_payments] at hpaid
  by_cases ha : a = D.lido
  · subst ha
    simp only [mint, Function.update_self, if_true] at hpaid
    simp only [payAll, mint]
    omega
  · simp only [mint, Function.update_of_ne ha, if_neg ha, Nat.add_zero] at hpaid
    exact hpaid

end Lido

/-- An accepted report with a gain mints the shares of the fee formula and pays all
of them out. -/
structure FeeMinted (D : Deployment) (I : INodeOperatorsRegistry R ρ) (w w' : World R)
    (v b m : ℕ) (payments : List (Address × ℕ)) : Prop where
  formula : m = feeShares w.lido.fee Lido.totalBasisPoints (totalRewards w w' v b)
    w'.lido.pooled w.lido.totalShares
  affordable : w.lido.fee * totalRewards w w' v b < w'.lido.pooled * Lido.totalBasisPoints
  pooled : w'.lido.pooled = w.lido.pooled + totalRewards w w' v b
  totalSupply : w'.lido.totalSupply = .ok w'.lido.pooled
  totalShares : w'.lido.totalShares = w.lido.totalShares + m
  shares : ∀ a, w'.lido.shares a = w.lido.shares a + credits payments a
  payments : ∃ operators, payments = w.lido.feePayments m operators ∧
    Lido.FeeSplit I w.registry w.lido m operators

namespace World

variable {w w' : World R} {c : LidoCall D} {v b : ℕ}

theorem getFee_eq {s : Lido} (h : s.toSettings.Valid) : s.getFee = s.fee := by
  have hfee : s.fee ≤ 10000 := h.fee
  exact Nat.mod_eq_of_lt (by omega)

theorem report_pooled (hs : Sound w.lido.books) (hmore : v ≤ w.lido.depositedValidators)
    (hless : w.lido.beaconValidators ≤ v) (x : ℕ)
    (hgain : w.lido.books.rewardBase Lido.depositSize v ≤ b) :
    ((w.lido.report v b).collect x).pooled = w.lido.pooled + (beaconGain w v b + x) := by
  have hposts := (Lido.report_posts hmore hless (b := b) x).pooled_reported hs
  unfold beaconGain
  unfold Lido.pooled
  omega

theorem step_feeMinted (hs : w.lido.Sane)
    (h : Lido.handleOracleReport D I c.sender v b w = .ok w')
    (hgain : w.lido.books.rewardBase Lido.depositSize v < b) :
    ∃ m payments, FeeMinted D I w w' v b m payments := by
  obtain ⟨hmore, hless, x, vaults, _, ⟨hle, _⟩ | ⟨_, s', hfee, rfl⟩⟩ :=
    Lido.handleOracleReport_ok h
  · omega
  · obtain ⟨m, operators, hm, hsplit, rfl⟩ := Lido.distributeFee_ok hfee
    obtain ⟨⟨hsound, hlt⟩, _, _, _, hafford, hformula⟩ := Lido.sharesToMint_eq_ok.mp hm
    have hpooled := report_pooled hs.sound hmore hless x hgain.le
    have hrewards : totalRewards w { w with
        lido := (((w.lido.report v b).collect x).mint D.lido m).payAll D.lido
          (((w.lido.report v b).collect x).feePayments m operators)
        vaults } v b = beaconGain w v b + x := by
      simp only [totalRewards, Lido.payAll, Lido.mint, Lido.collect, Lido.report]
      omega
    have hgetFee : ((w.lido.report v b).collect x).getFee = w.lido.fee := getFee_eq hs.valid
    rw [hgetFee] at hafford hformula
    refine ⟨m, _, ⟨?_, ?_, ?_, ?_, rfl, hsplit.shares, operators, rfl, hsplit.split, hsplit.covered,
      hsplit.bounded⟩⟩
    · rw [hrewards]
      exact hformula
    · rw [hrewards]
      exact hafford
    · rw [hrewards]
      exact hpooled
    · exact Lido.totalSupply_eq_ok.mpr ⟨hsound, hlt, rfl⟩

end World

/-- The fee of a profitable report is what it should be, to less than one share, and
no balance falls by it; a report without a profit mints nothing. -/
theorem protocol_fee_is_fair {w w' : World R} {c : LidoCall D} {v b : ℕ}
    (h : Reachable (World.machine D I) w)
    (hstep : World.step D I w (.lido c (.handleOracleReport v b)) = .ok w') :
    (b ≤ w.lido.books.rewardBase Lido.depositSize v → w'.lido.toStETH = w.lido.toStETH) ∧
    (w.lido.books.rewardBase Lido.depositSize v < b → ∃ T m,
      w'.lido.totalSupply = .ok T ∧ w'.lido.totalShares = w.lido.totalShares + m ∧
      FairFee w.lido.fee (totalRewards w w' v b) w.lido.pooled T w.lido.totalShares m ∧
      ∀ a n n', w.lido.balanceOf a = .ok n → w'.lido.balanceOf a = .ok n' → n ≤ n') := by
  have hs := World.sane h
  refine ⟨?_, ?_⟩
  · intro hloss
    obtain ⟨_, _, _, _, _, ⟨_, rfl⟩ | ⟨hgain, _⟩⟩ := Lido.handleOracleReport_ok hstep
    · rfl
    · omega
  · intro hgain
    obtain ⟨m, payments, hfee⟩ := World.step_feeMinted hs hstep hgain
    have hrewards : 0 < totalRewards w w' v b := by
      unfold totalRewards beaconGain
      omega
    refine ⟨_, m, hfee.totalSupply, hfee.totalShares, ?_, ?_⟩
    · rw [hfee.formula]
      exact .of_feeShares hs.valid.fee hrewards hfee.pooled
    · intro a n n' hn hn'
      have hprice : w.lido.pooled * w'.lido.totalShares ≤ w'.lido.pooled * w.lido.totalShares := by
        rw [hfee.totalShares, hfee.formula]
        exact feeShares_price hfee.affordable hfee.pooled hs.valid.fee
      refine Lido.balanceOf_le_balanceOf hprice ?_ ?_ hn hn'
      · rw [hfee.shares a]
        exact Nat.le_add_right _ _
      · rw [hfee.totalShares]
        exact Nat.le_add_right _ _

/-- A fee of a tenth on 200 wei of rewards, in a pool of 1000 wei and as many shares,
mints 16 shares: 17 would be worth more than 20 wei. -/
theorem protocol_fee_of_a_tenth :
    ∃ w w', Reachable (jointSystem Sample.deployment Sample.layout) w ∧
      World.step Sample.deployment (registryContract Sample.deployment Sample.layout) w
        (Sample.report 0 200) = .ok w' ∧
      w'.lido.totalShares = 1016 ∧ ∃ T m, w'.lido.totalSupply = .ok T ∧
        w'.lido.totalShares = 1000 + m ∧
        FairFee 1000 (totalRewards w w' 0 200) w.lido.pooled T 1000 m := by
  let step := World.step Sample.deployment (registryContract Sample.deployment Sample.layout)
  let p : World NodeOperatorsRegistry → Bool := fun w ↦
    passes (step w (Sample.report 0 200)) fun w' ↦
      decide (w.lido.totalShares = 1000 ∧ w.lido.fee = 1000 ∧
        w.lido.books.rewardBase Lido.depositSize 0 < 200 ∧ w'.lido.totalShares = 1016)
  obtain ⟨w, hw, hp⟩ := Sample.reachable_of_run (p := p) (l := [
    Sample.admin .resume,
    Sample.admin (.setFee 1000),
    Sample.admin (.submit 0 1000)]) (by decide +kernel)
  obtain ⟨w', h, hp⟩ := exists_of_passes hp
  obtain ⟨hS, hf, hgain, hS'⟩ := of_decide_eq_true hp
  obtain ⟨T, m, hT, hm, hfair, _⟩ := (protocol_fee_is_fair hw h).2 hgain
  rw [hS] at hm hfair
  rw [hf] at hfair
  exact ⟨w, w', hw, h, hS', T, m, hT, hm, hfair⟩

end LidoDao
