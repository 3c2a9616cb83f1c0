import LidoDao.PoolEffects

namespace LidoDao

open Evm Library.Outcome Library.ByteWords SafeMath EtherBooks

variable {R ρ : Type} {D : Deployment} {I : INodeOperatorsRegistry R ρ} {c : LidoCall D}

namespace Lido

/-- The deposit made for the key at a position of the two byte strings. -/
structure DepositOf (s : Lido) (pubkeys signatures : Bytes) (i : ℕ) (d : DepositCall) : Prop where
  value : d.value = depositSize
  pubkey_fits : i * pubkeyLength + pubkeyLength ≤ pubkeys.length
  signature_fits : i * signatureLength + signatureLength ≤ signatures.length
  pubkey : d.pubkey = slice pubkeys (i * pubkeyLength) pubkeyLength
  signature : d.signature = slice signatures (i * signatureLength) signatureLength
  credentials : d.withdrawalCredentials = toBytes 32 s.withdrawalCredentials

variable {s : Lido}

def spend (s : Lido) (amount : ℕ) : Lido := { s with balance := s.balance - amount }

@[simp] theorem spend_balance (amount : ℕ) : (s.spend amount).balance = s.balance - amount := rfl

theorem spend_zero : s.spend 0 = s := rfl

theorem spend_spend (a b : ℕ) : (s.spend a).spend b = s.spend (a + b) := by
  simp only [spend, Nat.sub_sub]

theorem DepositOf.of_spend {pubkeys signatures : Bytes} {i amount : ℕ} {d : DepositCall}
    (h : DepositOf (s.spend amount) pubkeys signatures i d) : DepositOf s pubkeys signatures i d :=
  ⟨h.value, h.pubkey_fits, h.signature_fits, h.pubkey, h.signature, h.credentials⟩

def launch (s : Lido) (count amount : ℕ) : Lido :=
  { s with
    balance := s.balance - amount
    bufferedEther := s.bufferedEther - amount
    depositedValidators := s.depositedValidators + count }

theorem _stake_ok {pubkey signature : Bytes} {deposits : List DepositCall}
    {p : Lido × List DepositCall} (h : _stake D c pubkey signature s deposits = .ok p) :
    depositSize ≤ s.balance ∧ p.1 = s.spend depositSize ∧
    ∃ root, p.2 = deposits ++ [{
      value := depositSize, pubkey, signature
      withdrawalCredentials := toBytes 32 s.withdrawalCredentials
      depositDataRoot := root }] := by
  simp only [_stake, bind_eq_ok, require_eq_ok, exists_const, sub_eq_ok, pure_eq,
    Except.ok.injEq] at h
  obtain ⟨_, _, _, _, _, _, root, _, _, ⟨hle, _⟩, _, _, rfl⟩ := h
  exact ⟨hle, rfl, root, rfl⟩

theorem stakeKeys_ok {pubkeys signatures : Bytes} {is : List ℕ} {deposits : List DepositCall}
    {p : Lido × List DepositCall}
    (h : stakeKeys D c pubkeys signatures is s deposits = .ok p) :
    is.length * depositSize ≤ s.balance ∧
    p.1 = s.spend (is.length * depositSize) ∧
    ∃ calls, p.2 = deposits ++ calls ∧
      List.Forall₂ (DepositOf s pubkeys signatures) is calls := by
  induction is generalizing s deposits with
  | nil =>
    cases h
    refine ⟨?_, ?_, [], ?_, .nil⟩
    · simp
    · simp [spend_zero]
    · simp
  | cons i is ih =>
    simp only [stakeKeys, bind_eq_ok, bytesSlice_eq_ok] at h
    obtain ⟨_, ⟨hpub, rfl⟩, _, ⟨hsig, rfl⟩, q, hq, h⟩ := h
    obtain ⟨hle, hlido, root, hcalls⟩ := _stake_ok hq
    obtain ⟨hle', hlido', calls, hcalls', hd⟩ := ih h
    rw [hlido] at hle' hlido' hd
    rw [spend_balance] at hle'
    have hlen : (i :: is).length * depositSize = is.length * depositSize + depositSize := by
      rw [List.length_cons, Nat.succ_mul]
    let d : DepositCall :=
      { value := depositSize
        pubkey := slice pubkeys (i * pubkeyLength) pubkeyLength
        withdrawalCredentials := toBytes 32 s.withdrawalCredentials
        signature := slice signatures (i * signatureLength) signatureLength
        depositDataRoot := root }
    have hfirst : DepositOf s pubkeys signatures i d := ⟨rfl, hpub, hsig, rfl, rfl, rfl⟩
    refine ⟨?_, ?_, d :: calls, ?_, .cons hfirst ?_⟩
    · omega
    · rw [hlido', spend_spend, hlen, Nat.add_comm]
    · rw [hcalls', hcalls, List.append_assoc]
      rfl
    · exact hd.imp fun _ _ h ↦ h.of_spend

/-- The keys that the registry hands out when asked for `wanted`, and the deposits
made of them. -/
structure KeyBatch (I : INodeOperatorsRegistry R ρ) (w : World R) (wanted count : ℕ)
    (keys : Bytes × Bytes) (registry : R) (calls : List DepositCall) : Prop where
  assigned : I.assignNextSigningKeys w.registry wanted = .ok (keys, registry)
  pubkeys_length : keys.1.length = count * pubkeyLength
  signatures_length : 0 < count → keys.2.length = count * signatureLength
  calls : List.Forall₂ (DepositOf w.lido keys.1 keys.2) (List.range count) calls
  affordable : count * depositSize ≤ w.lido.balance

variable {w w' : World R}

theorem _ETH2Deposit_ok {wanted amount : ℕ}
    (h : _ETH2Deposit D I c wanted w = .ok (amount, w')) :
    ∃ count keys registry calls, KeyBatch I w wanted count keys registry calls ∧
      amount = count * depositSize ∧
      w' = { w with
        lido := { w.lido.spend amount with
          depositedValidators := w.lido.depositedValidators + count }
        registry
        deposits := w.deposits ++ calls } := by
  simp only [_ETH2Deposit, bind_eq_ok] at h
  obtain ⟨⟨⟨pubkeys, signatures⟩, registry⟩, hkeys, h⟩ := h
  dsimp only at h
  by_cases hnone : pubkeys.length = 0
  · rw [if_pos hnone] at h
    cases h
    refine ⟨0, _, _, [], ⟨hkeys, ?_, ?_, .nil, ?_⟩, ?_, ?_⟩
    · rw [hnone, Nat.zero_mul]
    · intro h
      exact absurd h (lt_irrefl 0)
    · simp
    · simp
    · simp [spend_zero]
  · rw [if_neg hnone] at h
    simp only [bind_eq_ok, mod_eq_ok, div_eq_ok, add_eq_ok, mul_eq_ok, require_eq_ok,
      exists_const, pure_eq, Except.ok.injEq, Prod.mk.injEq] at h
    obtain ⟨_, ⟨_, rfl⟩, hp, _, ⟨_, rfl⟩, hs, _, ⟨_, rfl⟩, _, ⟨_, rfl⟩, hcount, p, hstake, _,
      ⟨_, rfl⟩, _, ⟨_, hamount⟩, rfl, rfl⟩ := h
    obtain ⟨hle, hlido, calls, hdeposits, hcalls⟩ := stakeKeys_ok hstake
    rw [List.length_range] at hle hlido
    rw [← hamount] at hlido
    refine ⟨_, _, _, calls, ⟨hkeys, ?_, ?_, hcalls, hle⟩, hamount, ?_⟩
    · exact (Nat.div_mul_cancel (Nat.dvd_of_mod_eq_zero hp)).symm
    · intro _
      rw [hcount]
      exact (Nat.div_mul_cancel (Nat.dvd_of_mod_eq_zero hs)).symm
    · rw [hlido, hdeposits]
      rfl

theorem _depositBufferedEther_ok {maxDeposits : ℕ}
    (h : _depositBufferedEther D I c maxDeposits w = .ok w') :
    (w.lido.bufferedEther < depositSize ∧ w' = w) ∨
    (depositSize ≤ w.lido.bufferedEther ∧ ∃ count amount keys registry calls,
      KeyBatch I w (min (w.lido.bufferedEther / depositSize) maxDeposits) count keys registry
        calls ∧
      amount = count * depositSize ∧ amount ≤ w.lido.bufferedEther ∧
      w' = { w with
        lido := w.lido.launch count amount
        registry
        deposits := w.deposits ++ calls }) := by
  simp only [_depositBufferedEther, bind_eq_ok, _getBufferedEther_eq_ok] at h
  obtain ⟨_, _, _, ⟨_, rfl⟩, h⟩ := h
  by_cases hlt : depositSize ≤ w.lido.bufferedEther
  · rw [if_pos hlt] at h
    simp only [bind_eq_ok, _getUnaccountedEther_eq_ok, div_eq_ok, _markAsUnbuffered_eq_ok,
      pure_eq, Except.ok.injEq] at h
    obtain ⟨_, _, _, ⟨_, rfl⟩, ⟨amount, _⟩, hdeposit, _, ⟨hbuffered, rfl⟩, _, _, _, _, rfl⟩ := h
    obtain ⟨count, keys, registry, calls, hbatch, hamount, rfl⟩ := _ETH2Deposit_ok hdeposit
    rw [← min_def_lt] at hbatch
    exact .inr ⟨hlt, count, amount, keys, registry, calls, hbatch, hamount, hbuffered, rfl⟩
  · rw [if_neg hlt] at h
    cases h
    exact .inl ⟨by omega, rfl⟩

/-- What a deposit leaves alone in the pool. -/
structure DepositFrame (s s' : Lido) : Prop where
  toStETH : s'.toStETH = s.toStETH
  settings : s'.toSettings = s.toSettings
  stakingState : s'.stakingState = s.stakingState

theorem _depositBufferedEther_frame {maxDeposits : ℕ}
    (h : _depositBufferedEther D I c maxDeposits w = .ok w') : DepositFrame w.lido w'.lido := by
  rcases _depositBufferedEther_ok h with ⟨_, rfl⟩ | ⟨_, _, _, _, _, _, _, _, _, rfl⟩
  · exact ⟨rfl, rfl, rfl⟩
  · exact ⟨rfl, rfl, rfl⟩

theorem setWithdrawalCredentials_ok {withdrawalCredentials : ℕ}
    (h : setWithdrawalCredentials I withdrawalCredentials w = .ok w') :
    ∃ registry, I.trimUnusedKeys w.registry = .ok registry ∧
      w' = { w with lido := { w.lido with withdrawalCredentials }, registry } := by
  simp only [setWithdrawalCredentials, bind_eq_ok, pure_eq, Except.ok.injEq] at h
  obtain ⟨registry, htrim, rfl⟩ := h
  exact ⟨registry, htrim, rfl⟩

end Lido

end LidoDao
