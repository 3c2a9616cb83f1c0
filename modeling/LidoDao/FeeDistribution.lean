import LidoDao.FeePrice
import LidoDao.JointInvariant

namespace LidoDao

open Evm Library.Outcome Library.Ledger Library.Transition NodeOperatorsRegistry

variable {D : Deployment} {L : SigningKeyLayout} {w w' : World NodeOperatorsRegistry}

def operatorPayments (w : World NodeOperatorsRegistry) (m : ℕ) : List (Address × ℕ) :=
  w.registry.activeIds.map fun id ↦ ((w.registry.operators id).rewardAddress,
    w.registry.reward (m * w.lido.nodeOperatorsFee / Lido.totalBasisPoints) id)

/-- What the insurance fund, the active operators and the treasury get of `m` fee
shares, the treasury whatever the others leave. -/
def feeDistribution (w : World NodeOperatorsRegistry) (m : ℕ) : List (Address × ℕ) :=
  let toInsuranceFund := m * w.lido.insuranceFee / Lido.totalBasisPoints
  (w.lido.insuranceFund, toInsuranceFund) :: operatorPayments w m ++
    [(w.lido.treasury, m - toInsuranceFund - total (operatorPayments w m))]

theorem Settings.Valid.parts_le {s : Settings} (h : s.Valid) :
    s.insuranceFee + s.nodeOperatorsFee ≤ Lido.totalBasisPoints := by
  rcases h.distribution with ⟨_, hi, ho⟩ | hsum
  · rw [hi, ho]
    exact Nat.zero_le _
  · omega

theorem getInsuranceFee_eq {s : Lido} (h : s.toSettings.Valid) :
    s.getInsuranceFee = s.insuranceFee := by
  have hle : s.insuranceFee + s.nodeOperatorsFee ≤ 10000 := h.parts_le
  exact Nat.mod_eq_of_lt (by omega)

theorem getNodeOperatorsFee_eq {s : Lido} (h : s.toSettings.Valid) :
    s.getNodeOperatorsFee = s.nodeOperatorsFee := by
  have hle : s.insuranceFee + s.nodeOperatorsFee ≤ 10000 := h.parts_le
  exact Nat.mod_eq_of_lt (by omega)

theorem total_operatorPayments_le (m : ℕ) : total (operatorPayments w m) ≤
    m * w.lido.nodeOperatorsFee / Lido.totalBasisPoints := by
  have hmap : (operatorPayments w m).map Prod.snd = w.registry.activeIds.map
      (w.registry.reward (m * w.lido.nodeOperatorsFee / Lido.totalBasisPoints)) := by
    rw [operatorPayments, List.map_map]
    rfl
  rw [total, hmap]
  exact sum_reward_le _

theorem insurance_add_operators_le (h : w.lido.toSettings.Valid) (m : ℕ) :
    m * w.lido.insuranceFee / Lido.totalBasisPoints + total (operatorPayments w m) ≤ m := by
  have hoperators := total_operatorPayments_le (w := w) m
  have hparts := h.parts_le
  have hbase : 0 < Lido.totalBasisPoints := by decide
  calc m * w.lido.insuranceFee / Lido.totalBasisPoints + total (operatorPayments w m)
      ≤ m * w.lido.insuranceFee / Lido.totalBasisPoints +
        m * w.lido.nodeOperatorsFee / Lido.totalBasisPoints := Nat.add_le_add_left hoperators _
    _ ≤ (m * w.lido.insuranceFee + m * w.lido.nodeOperatorsFee) / Lido.totalBasisPoints :=
      Nat.div_add_div_le_add_div
    _ ≤ m * Lido.totalBasisPoints / Lido.totalBasisPoints := by
      rw [← Nat.mul_add]
      exact Nat.div_le_div_right (Nat.mul_le_mul_left m hparts)
    _ = m := Nat.mul_div_cancel _ hbase

theorem total_feeDistribution (h : w.lido.toSettings.Valid) (m : ℕ) :
    total (feeDistribution w m) = m := by
  have hle := insurance_add_operators_le h m
  simp only [feeDistribution, List.cons_append, total_cons, total_append, total_nil]
  omega

theorem Lido.FeeSplit.payments_eq (hs : JointSane D w) {m : ℕ} {operators : List (Address × ℕ)}
    (h : FeeSplit (registryContract D L) w.registry w.lido m operators) :
    w.lido.feePayments m operators = feeDistribution w m := by
  have hvalid := hs.pool.valid
  obtain ⟨recipients, amounts, hdist, _, rfl⟩ := h.split
  rw [getNodeOperatorsFee_eq hvalid] at hdist
  have hle : m * w.lido.nodeOperatorsFee / Lido.totalBasisPoints ≤ m := by
    have hparts := hvalid.parts_le
    apply Nat.div_le_of_le_mul
    rw [Nat.mul_comm]
    exact Nat.mul_le_mul_right m (by omega)
  have hbound := h.bounded
  have hok := getRewardsDistribution_ok hs.registry
    (n := m * w.lido.nodeOperatorsFee / Lido.totalBasisPoints) (by omega)
  have heq := hdist.symm.trans hok
  simp only [Except.ok.injEq, Prod.mk.injEq] at heq
  obtain ⟨rfl, rfl⟩ := heq
  rw [List.zip_map', feePayments, getInsuranceFee_eq hvalid]
  rfl

/-- Of the `m` shares that a profitable report mints nothing is lost and nothing is
added. -/
theorem fee_shares_are_all_distributed {c : LidoCall D} {v b : ℕ}
    (h : Reachable (jointSystem D L) w)
    (hstep : World.step D (registryContract D L) w (.lido c (.handleOracleReport v b)) = .ok w')
    (hgain : w.lido.books.rewardBase Lido.depositSize v < b) :
    (∀ k, k * w.lido.insuranceFee / Lido.totalBasisPoints + total (operatorPayments w k) ≤ k) ∧
    ∃ m, w'.lido.totalShares = w.lido.totalShares + m ∧ total (feeDistribution w m) = m ∧
      (∀ a, w'.lido.shares a = w.lido.shares a + credits (feeDistribution w m) a) ∧
      ∀ a, (∀ p ∈ feeDistribution w m, p.1 ≠ a) → w'.lido.shares a = w.lido.shares a := by
  have hs := jointSane h
  refine ⟨insurance_add_operators_le hs.pool.valid, ?_⟩
  obtain ⟨m, payments, hfee⟩ := World.step_feeMinted hs.pool hstep hgain
  obtain ⟨operators, rfl, hsplit⟩ := hfee.payments
  have hshares := hfee.shares
  rw [hsplit.payments_eq hs] at hshares
  refine ⟨m, hfee.totalShares, total_feeDistribution hs.pool.valid m, hshares, ?_⟩
  intro a ha
  rw [hshares a, credits_eq_zero ha, Nat.add_zero]

/-- Two validators run and ten ether are gained: the shares minted go to the fund 4,
the operator 11 and the treasury 3. -/
theorem fee_shares_of_ten_ether :
    ∃ w w', Reachable (jointSystem Sample.deployment Sample.layout) w ∧
      World.step Sample.deployment (registryContract Sample.deployment Sample.layout) w
        (Sample.report 2 (74 * 10 ^ 18)) = .ok w' ∧
      (operatorPayments w 100 = [(11, 30)]) ∧
      ∃ m, w'.lido.totalShares = w.lido.totalShares + m ∧
        w'.lido.shares 4 = w.lido.shares 4 + credits (feeDistribution w m) 4 := by
  let step := World.step Sample.deployment (registryContract Sample.deployment Sample.layout)
  let p : World NodeOperatorsRegistry → Bool := fun w ↦
    (step w (Sample.report 2 (74 * 10 ^ 18))).isOk ∧
      w.lido.books.rewardBase Lido.depositSize 2 < 74 * 10 ^ 18 ∧
      operatorPayments w 100 = [(11, 30)]
  obtain ⟨w, hw, hp⟩ := Sample.reachable_of_run (p := p)
    (l := Sample.depositRun ++ [Sample.admin .depositBufferedEther]) (by decide +kernel)
  obtain ⟨hok, hgain, hpayments⟩ := of_decide_eq_true hp
  obtain ⟨w', h⟩ := exists_of_isOk hok
  obtain ⟨_, m, hm, _, hshares, _⟩ := fee_shares_are_all_distributed hw h hgain
  exact ⟨w, w', hw, h, hpayments, m, hm, hshares 4⟩

end LidoDao
