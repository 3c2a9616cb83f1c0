import LidoDao.DepositAgreement
import LidoDao.DepositChain

namespace LidoDao

open Evm Library.Outcome Library.ByteWords Library.Transition NodeOperatorsRegistry
open DepositContract OfficialDepositContract

variable {D : Deployment} {L : SigningKeyLayout} {G : Guarding} {R ρ : Type}

namespace OfficialDepositContract

variable {sha256 : Bytes → ℕ} {k k' : OfficialDepositContract} {calls : List DepositCall}

theorem deposit_count {d : DepositCall} (h : k.deposit sha256 d = .ok k') :
    k'.depositCount = k.depositCount + 1 ∧ k.depositCount < maxDepositCount := by
  obtain ⟨stored, hstored, heq⟩ := bind_eq_ok.mp h
  cases heq
  obtain ⟨_, _, hroom, hcount, _⟩ := deposit_eq_ok hstored
  exact ⟨hcount, hroom⟩

theorem execute_count (h : execute (machine sha256) k calls = .ok k') :
    k'.depositCount = k.depositCount + calls.length ∧
      (calls = [] ∨ k.depositCount + calls.length ≤ maxDepositCount) := by
  induction calls generalizing k with
  | nil =>
    cases h
    exact ⟨rfl, .inl rfl⟩
  | cons d calls ih =>
    obtain ⟨k₁, hk₁, h⟩ := bind_eq_ok.mp h
    obtain ⟨hcount, hroom⟩ := deposit_count hk₁
    obtain ⟨hcount', hfull⟩ := ih h
    rw [hcount] at hcount' hfull
    rw [List.length_cons]
    refine ⟨by omega, .inr ?_⟩
    rcases hfull with rfl | hfull
    · exact hroom
    · omega

theorem deposit_isOk (k : OfficialDepositContract) (d : DepositCall) :
    (k.deposit sha256 d).isOk = (k.toDepositContract.deposit sha256 d).isOk := by
  rw [OfficialDepositContract.deposit]
  cases k.toDepositContract.deposit sha256 d with
  | error e => rfl
  | ok stored => rfl

end OfficialDepositContract

namespace Lido

variable {c : LidoCall D} {k : OfficialDepositContract} {n : ℕ}

/-- The contract answers as its storage decides after the deposits that follow the first `n`. -/
def Answers (D : Deployment) (c : LidoCall D) (k : OfficialDepositContract) (n : ℕ) : Prop :=
  ∀ ds d, c.depositAccepts ds d = (execute (machine D.sha256) k (ds.drop n ++ [d])).isOk

theorem Answers.now (hc : Answers D c k n) {k' : OfficialDepositContract} {ds : List DepositCall}
    (hk' : execute (machine D.sha256) k (ds.drop n) = .ok k') (d : DepositCall) :
    c.depositAccepts ds d = (k'.toDepositContract.deposit D.sha256 d).isOk := by
  rw [hc, execute_append, hk', ok_bind, ← deposit_isOk]
  exact congrArg Except.isOk (bind_pure _)

theorem spend_withdrawalCredentials (s : Lido) (amount : ℕ) :
    (s.spend amount).withdrawalCredentials = s.withdrawalCredentials := rfl

theorem spend_depositedValidators (s : Lido) (amount : ℕ) :
    (s.spend amount).depositedValidators = s.depositedValidators := rfl

theorem stakeKeys_isOk {pubkeys signatures : Bytes} {is : List ℕ} {s : Lido}
    {deposits : List DepositCall} {k' : OfficialDepositContract} (hc : Answers D c k n)
    (hn : n ≤ deposits.length) (hk' : execute (machine D.sha256) k (deposits.drop n) = .ok k')
    (hkeys : ∀ i ∈ is, i * pubkeyLength + pubkeyLength ≤ pubkeys.length ∧
      i * signatureLength + signatureLength ≤ signatures.length)
    (hcredentials : s.withdrawalCredentials ≠ 0) (hbalance : is.length * depositSize ≤ s.balance)
    (hroom : k'.depositCount + is.length ≤ maxDepositCount) :
    ∃ p, stakeKeys D c pubkeys signatures is s deposits = .ok p := by
  induction is generalizing s deposits k' with
  | nil => exact ⟨_, rfl⟩
  | cons i is ih =>
    obtain ⟨⟨hpubkey, hsignature⟩, hkeys⟩ := List.forall_mem_cons.mp hkeys
    rw [List.length_cons, add_one_mul] at hbalance
    rw [List.length_cons] at hroom
    obtain ⟨p, hstake⟩ := (stake_isOk_iff (hc.now hk') (length_slice hpubkey)
      (length_slice hsignature) hcredentials ((Nat.le_add_left _ _).trans hbalance)).mpr (by omega)
    obtain ⟨_, hlido, root, hdeposits⟩ := _stake_ok hstake
    have haccepted : (execute (machine D.sha256) k (p.2.drop n)).isOk = true := by
      simp only [_stake, bind_eq_ok, require_eq_ok, exists_const, pure_eq, Except.ok.injEq] at hstake
      obtain ⟨_, _, _, _, _, _, _, _, _, _, haccepts, _, rfl⟩ := hstake
      rw [hc] at haccepts
      rw [List.drop_append_of_le_length hn]
      exact haccepts
    obtain ⟨k₁, hk₁⟩ := exists_of_isOk haccepted
    have hcount : k₁.depositCount = k'.depositCount + 1 := by
      have htotal := (execute_count hk₁).1
      have hbefore := (execute_count hk').1
      rw [hdeposits, List.drop_append_of_le_length hn, List.length_append,
        List.length_singleton] at htotal
      omega
    have hn' : n ≤ p.2.length := by
      rw [hdeposits, List.length_append]
      omega
    have hcredentials' : p.1.withdrawalCredentials ≠ 0 := by
      rw [hlido, spend_withdrawalCredentials]
      exact hcredentials
    have hbalance' : is.length * depositSize ≤ p.1.balance := by
      rw [hlido, spend_balance]
      exact Nat.le_sub_of_add_le hbalance
    obtain ⟨p', hp'⟩ := ih hn' hk₁ hkeys hcredentials' hbalance' (by omega)
    refine ⟨p', ?_⟩
    simp only [stakeKeys, bind_eq_ok]
    exact ⟨_, bytesSlice_eq_ok.mpr ⟨hpubkey, rfl⟩, _, bytesSlice_eq_ok.mpr ⟨hsignature, rfl⟩,
      p, hstake, hp'⟩

theorem stakeKeys_credentials {pubkeys signatures : Bytes} {is : List ℕ} {s : Lido}
    {deposits : List DepositCall} {p : Lido × List DepositCall}
    (h : stakeKeys D c pubkeys signatures is s deposits = .ok p) :
    p.2 = deposits ∨ s.withdrawalCredentials ≠ 0 := by
  cases is with
  | nil =>
    cases h
    exact .inl rfl
  | cons i is =>
    simp only [stakeKeys, _stake, bind_eq_ok, require_eq_ok, exists_const] at h
    obtain ⟨_, _, _, _, _, ⟨hcredentials, _⟩, _⟩ := h
    exact .inr hcredentials

theorem _ETH2Deposit_of_keys {I : INodeOperatorsRegistry R ρ} {w : World R} {pubkeys signatures : Bytes}
    {registry : R} {wanted count : ℕ}
    (hassign : I.assignNextSigningKeys w.registry wanted = .ok ((pubkeys, signatures), registry))
    (hpubkeys : pubkeys.length = count * pubkeyLength)
    (hsignatures : signatures.length = count * signatureLength)
    (hcount : count = 0 ∨
      (∃ p, stakeKeys D c pubkeys signatures (List.range count) w.lido w.deposits = .ok p) ∧
      w.lido.depositedValidators + count < wordLimit ∧ count * depositSize < wordLimit) :
    ∃ p, _ETH2Deposit D I c wanted w = .ok p := by
  rw [_ETH2Deposit, hassign, ok_bind]
  dsimp only
  split
  · exact ⟨_, rfl⟩
  · rename_i hsome
    have hcount' : count ≠ 0 := by
      intro hnone
      rw [hpubkeys, hnone, Nat.zero_mul] at hsome
      exact hsome rfl
    obtain ⟨⟨p, hp⟩, hused, hamount⟩ := hcount.resolve_left hcount'
    have hpubkeyLength : 0 < pubkeyLength := by decide
    have hsignatureLength : 0 < signatureLength := by decide
    have hnumKeys : pubkeys.length / pubkeyLength = count := by
      rw [hpubkeys, Nat.mul_div_cancel _ hpubkeyLength]
    have hnumSignatures : signatures.length / signatureLength = count := by
      rw [hsignatures, Nat.mul_div_cancel _ hsignatureLength]
    have hlido : p.1.depositedValidators = w.lido.depositedValidators := by
      rw [(stakeKeys_ok hp).2.1, spend_depositedValidators]
    simp only [bind_eq_ok, require_eq_ok, exists_const, SafeMath.mod_eq_ok, SafeMath.div_eq_ok,
      SafeMath.add_eq_ok, SafeMath.mul_eq_ok]
    refine ⟨_, _, ⟨hpubkeyLength, rfl⟩, ?_, _, ⟨hsignatureLength, rfl⟩, ?_, _, ⟨hpubkeyLength, rfl⟩, _,
      ⟨hsignatureLength, rfl⟩, ?_, p, ?_, _, ⟨?_, rfl⟩, _, ⟨?_, rfl⟩, rfl⟩
    · rw [hpubkeys, Nat.mul_mod_left]
    · rw [hsignatures, Nat.mul_mod_left]
    · rw [hnumKeys, hnumSignatures]
    · rw [hnumKeys]
      exact hp
    · rw [hnumKeys, hlido]
      exact hused
    · rw [hnumKeys]
      exact hamount

end Lido

section Pool

variable {w w' : World NodeOperatorsRegistry} {c : LidoCall D} {k : OfficialDepositContract}
  {maxDeposits : ℕ}

/-- As many deposits as the buffer, the caller's limit and the registry allow. -/
def possibleDeposits (w : World NodeOperatorsRegistry) (maxDeposits : ℕ) : ℕ :=
  min (min (w.lido.bufferedEther / Lido.depositSize) maxDeposits) w.registry.capacity

/-- Nothing is to be deposited, or there is a place to withdraw to and room in the tree. -/
def CanDeposit (w : World NodeOperatorsRegistry) (maxDeposits depositCount : ℕ) : Prop :=
  possibleDeposits w maxDeposits = 0 ∨ w.lido.withdrawalCredentials ≠ 0 ∧
    depositCount + possibleDeposits w maxDeposits ≤ maxDepositCount

theorem _ETH2Deposit_isOk (hs : JointSane D w) {wanted : ℕ}
    (hc : Lido.Answers D c k w.deposits.length)
    (hroom : min wanted w.registry.capacity = 0 ∨ w.lido.withdrawalCredentials ≠ 0 ∧
      k.depositCount + min wanted w.registry.capacity ≤ maxDepositCount)
    (hbalance : min wanted w.registry.capacity * Lido.depositSize ≤ w.lido.balance)
    (hused : w.lido.depositedValidators ≤ maxDepositCount) :
    ∃ p, Lido._ETH2Deposit D (registryContract D L) c wanted w = .ok p := by
  obtain ⟨n, hplan, _, hassign⟩ := assignNextSigningKeys_ok (L := L) hs.registry wanted
  obtain ⟨hpubkeys, hsignatures⟩ := length_flatten_keys fun _ hk ↦
    length_of_mem_handedOut (L := L) (r := w.registry) (n := n) hk
  rw [hplan.length_handedOut] at hpubkeys hsignatures
  refine Lido._ETH2Deposit_of_keys hassign hpubkeys hsignatures ?_
  rcases hroom with hnone | ⟨hcredentials, hroom⟩
  · exact .inl hnone
  · have hword : maxDepositCount + maxDepositCount < wordLimit := by
      norm_num [maxDepositCount, depositContractTreeDepth, wordLimit]
    have hamount : maxDepositCount * Lido.depositSize < wordLimit := by
      norm_num [maxDepositCount, depositContractTreeDepth, wordLimit, Lido.depositSize]
    have hstart : execute (machine D.sha256) k (w.deposits.drop w.deposits.length) = .ok k := by
      rw [List.drop_length]
      rfl
    refine .inr ⟨?_, ?_, ?_⟩
    · refine Lido.stakeKeys_isOk hc le_rfl hstart (fun i hi ↦ ?_) hcredentials ?_ ?_
      · have hlt := List.mem_range.mp hi
        rw [hpubkeys, hsignatures]
        rw [← add_one_mul, ← add_one_mul]
        exact ⟨Nat.mul_le_mul_right _ hlt, Nat.mul_le_mul_right _ hlt⟩
      · rwa [List.length_range]
      · rwa [List.length_range]
    · omega
    · exact (Nat.mul_le_mul_right _ (by omega)).trans_lt hamount

theorem deposits_length_eq (hs : JointSane D w)
    (hdeposit : Lido._depositBufferedEther D (registryContract D L) c maxDeposits w = .ok w') :
    w'.deposits.length = w.deposits.length + possibleDeposits w maxDeposits := by
  by_cases hbuffer : Lido.depositSize ≤ w.lido.bufferedEther
  · obtain ⟨calls, hcalls, hlength, _⟩ := (depositsMade hs hdeposit hbuffer).deposits
    rw [hcalls, List.length_append, hlength]
    rfl
  · have hnone : possibleDeposits w maxDeposits = 0 := by
      rw [possibleDeposits, Nat.div_eq_of_lt (Nat.lt_of_not_le hbuffer)]
      simp
    rcases Lido._depositBufferedEther_ok hdeposit with ⟨_, rfl⟩ | ⟨hle, _⟩
    · rw [hnone, Nat.add_zero]
    · exact absurd hle hbuffer

theorem depositBufferedEther_isOk_iff (hs : JointSane D w)
    (hc : Lido.Answers D c k w.deposits.length) (hused : w.deposits.length ≤ maxDepositCount) :
    (∃ w', Lido._depositBufferedEther D (registryContract D L) c maxDeposits w = .ok w') ↔
      w.lido.activeFlag = true ∧ CanDeposit w maxDeposits k.depositCount := by
  have hbacked : w.lido.bufferedEther ≤ w.lido.balance := hs.pool.sound.backed
  constructor
  · intro h
    obtain ⟨w', hdeposit⟩ := h
    have hactive : w.lido.activeFlag = true := by
      obtain ⟨_, hactive, _⟩ := bind_eq_ok.mp hdeposit
      exact require_eq_ok.mp hactive
    refine ⟨hactive, or_iff_not_imp_left.mpr fun hsome ↦ ?_⟩
    have hlength := deposits_length_eq hs hdeposit
    obtain ⟨k', hk'⟩ := Lido._depositBufferedEther_taken hc hdeposit
    constructor
    · rcases Lido._depositBufferedEther_stakes hdeposit with heq | ⟨_, _, _, _, hstake, heq⟩
      · rw [heq] at hlength
        omega
      · refine (Lido.stakeKeys_credentials hstake).resolve_left fun hsame ↦ ?_
        rw [heq, hsame] at hlength
        omega
    · rcases (execute_count hk').2 with hnone | hroom
      · have hzero := congrArg List.length hnone
        rw [List.length_drop, List.length_nil] at hzero
        omega
      · rw [List.length_drop, hlength, Nat.add_sub_cancel_left] at hroom
        exact hroom
  · intro h
    obtain ⟨hactive, hcan⟩ := h
    have hbuffered := Lido._getBufferedEther_eq_ok.mpr ⟨hbacked, rfl⟩
    have hstopped : w.lido.toStETH.whenNotStopped = .ok () := require_of hactive
    rw [Lido._depositBufferedEther, hstopped, ok_bind, hbuffered, ok_bind]
    split
    · have hsize : 0 < Lido.depositSize := by norm_num [Lido.depositSize]
      have hunaccounted := Lido._getUnaccountedEther_eq_ok.mpr ⟨hbacked, rfl⟩
      have hwanted := SafeMath.div_eq_ok.mpr
        (⟨hsize, rfl⟩ : 0 < Lido.depositSize ∧ _ = w.lido.bufferedEther / Lido.depositSize)
      rw [hunaccounted, ok_bind, hwanted, ok_bind, ← min_def_lt]
      have hpaid : possibleDeposits w maxDeposits * Lido.depositSize ≤ w.lido.bufferedEther := by
        refine le_trans (Nat.mul_le_mul_right _ ?_) (Nat.div_mul_le_self _ Lido.depositSize)
        exact (Nat.min_le_left _ _).trans (Nat.min_le_left _ _)
      obtain ⟨⟨amount, w₁⟩, hw₁⟩ := _ETH2Deposit_isOk (L := L) hs hc hcan (hpaid.trans hbacked)
        (hs.deposits ▸ hused)
      obtain ⟨count, _, _, _, hbatch, hamount, rfl⟩ := Lido._ETH2Deposit_ok hw₁
      rw [(hbatch.keysDeposited hs.registry).2] at hamount
      have hpaid' : amount ≤ w.lido.bufferedEther := hamount ▸ hpaid
      rw [hw₁, ok_bind]
      simp only [bind_eq_ok, require_eq_ok, exists_const]
      refine ⟨_, _, Lido._markAsUnbuffered_eq_ok.mpr ⟨hpaid', rfl⟩, _,
        Lido._getUnaccountedEther_eq_ok.mpr ⟨?_, rfl⟩, ?_, rfl⟩
      · exact Nat.sub_le_sub_right hbacked amount
      · exact Nat.sub_sub_sub_cancel_right hpaid'
    · exact ⟨_, rfl⟩

end Pool

namespace DepositSecurityModule

variable {m : DepositSecurityModule} {blockNumber : ℕ}

theorem canDeposit_eq_true : m.canDeposit blockNumber = .ok true ↔
    m.paused = false ∧ 0 < m.quorum ∧ m.lastDepositBlock ≤ blockNumber ∧
      m.minDepositBlockDistance ≤ blockNumber - m.lastDepositBlock := by
  rw [canDeposit]
  split
  · rename_i h
    rw [Bool.not_eq_true'] at h
    simp only [bind_eq_ok, Checked.sub_eq_ok, pure_eq, Except.ok.injEq, decide_eq_true_eq]
    constructor
    · intro h'
      obtain ⟨_, ⟨hlast, rfl⟩, hdistance⟩ := h'
      exact ⟨h.1, h.2, hlast, hdistance⟩
    · intro h'
      obtain ⟨_, _, hlast, hdistance⟩ := h'
      exact ⟨_, ⟨hlast, rfl⟩, hdistance⟩
  · rename_i h
    rw [Bool.not_eq_true'] at h
    constructor
    · intro hfalse
      cases hfalse
    · intro h'
      obtain ⟨hpaused, hquorum, _⟩ := h'
      exact absurd ⟨hpaused, hquorum⟩ h

end DepositSecurityModule

namespace ChainWorld

variable {s s' : ChainWorld} {c : GuardedCall D G} {a : DepositSecurityModule.Attestation}

/-- Enough guardians signed this, and it is what the contract, the registry and the chain
answer now. -/
structure Attested (s : ChainWorld) (c : GuardedCall D G) (a : DepositSecurityModule.Attestation) :
    Prop where
  depositRoot : a.depositRoot = s.depositRoot D
  keysOpIndex : s.guarded.getKeysOpIndex D G c s.guarded.dsm.nodeOperatorsRegistry = .ok a.keysOpIndex
  blockHash : a.blockHash ≠ 0 ∧ c.blockhash a.blockNumber = a.blockHash
  enough : s.guarded.dsm.quorum ≤ a.sortedGuardianSignatures.length
  signatures : s.guarded.dsm._verifySignatures G.precompiles a.depositRoot a.keysOpIndex
    a.blockNumber a.blockHash a.sortedGuardianSignatures = .ok ()

theorem step_isOk_iff {c : GuardedCall D G} {g : GuardedWorld} :
    (∃ g', (guardedSystem D L G).step g (.deposit c a) = .ok g') ↔
      a.depositRoot = c.depositRoot ∧ g.dsm.paused = false ∧
      (0 < g.dsm.quorum ∧ g.dsm.quorum ≤ a.sortedGuardianSignatures.length) ∧
      g.dsm.lastDepositBlock ≤ c.blockNumber ∧
      g.dsm.minDepositBlockDistance ≤ c.blockNumber - g.dsm.lastDepositBlock ∧
      (a.blockHash ≠ 0 ∧ c.blockhash a.blockNumber = a.blockHash) ∧
      g.getKeysOpIndex D G c g.dsm.nodeOperatorsRegistry = .ok a.keysOpIndex ∧
      g.dsm._verifySignatures G.precompiles a.depositRoot a.keysOpIndex a.blockNumber a.blockHash
        a.sortedGuardianSignatures = .ok () ∧
      ∃ w, (jointSystem D L).step g.world
        (.lido c.pool (.depositBufferedEtherUpTo g.dsm.maxDepositsPerBlock)) = .ok w := by
  constructor
  · intro h
    obtain ⟨g', h⟩ := h
    obtain ⟨⟨dsm, w⟩, hdeposit, _⟩ := bind_eq_ok.mp h
    obtain ⟨hroot, hpaused, hquorum, hlast, hdistance, hhash, hindex, hverify, hw, _⟩ :=
      DepositSecurityModule.depositBufferedEther_eq_ok.mp hdeposit
    exact ⟨hroot, hpaused, hquorum, hlast, hdistance, hhash, hindex, hverify, w, hw⟩
  · intro h
    obtain ⟨hroot, hpaused, hquorum, hlast, hdistance, hhash, hindex, hverify, w, hw⟩ := h
    exact ⟨_, bind_eq_ok.mpr ⟨_, DepositSecurityModule.depositBufferedEther_eq_ok.mpr
      ⟨hroot, hpaused, hquorum, hlast, hdistance, hhash, hindex, hverify, hw, rfl⟩, rfl⟩⟩

/-- A deposit through the module goes through exactly when `canDeposit` answers so, the
attestation is good, the pool may deposit and the contract has room; it then makes all the
deposits that are possible. -/
theorem guarded_deposit_isOk_iff (h : Reachable (chainSystem D L G) s) (c : GuardedCall D G)
    (a : DepositSecurityModule.Attestation) :
    ((∃ s', (chainSystem D L G).step s (.guarded (.deposit c a)) = .ok s') ↔
      s.guarded.dsm.canDeposit c.blockNumber = .ok true ∧ s.Attested c a ∧
      c.pool.canPerform .depositRole [] = true ∧ s.guarded.world.lido.activeFlag = true ∧
      CanDeposit s.guarded.world s.guarded.dsm.maxDepositsPerBlock s.log.length) ∧
    ∀ s', (chainSystem D L G).step s (.guarded (.deposit c a)) = .ok s' →
      s'.log.length =
        s.log.length + possibleDeposits s.guarded.world s.guarded.dsm.maxDepositsPerBlock ∧
      s'.guarded.world.lido.depositedValidators = s.guarded.world.lido.depositedValidators +
        possibleDeposits s.guarded.world s.guarded.dsm.maxDepositsPerBlock := by
  have hs := jointSane (GuardedWorld.reachable_world (reachable_guarded h))
  have hk := Represents.of_reachable (reachable_contract h)
  have hanswers : Lido.Answers D (c.answered (s.accepts D) (s.depositRoot D)).pool s.contract
      s.guarded.world.deposits.length := fun _ _ ↦ rfl
  have hused := (sublist_log h).length_le.trans hk.length_le
  constructor
  · rw [guarded_isOk_iff, GuardedEvent.answered, step_isOk_iff,
      DepositSecurityModule.canDeposit_eq_true, ← hk.depositCount,
      ← depositBufferedEther_isOk_iff (L := L) hs hanswers hused]
    constructor
    · intro h'
      obtain ⟨hroot, hpaused, ⟨hquorum, henough⟩, hlast, hdistance, hhash, hindex, hverify, w,
        hw⟩ := h'
      obtain ⟨_, hauth, hdeposit⟩ := bind_eq_ok.mp hw
      exact ⟨⟨hpaused, hquorum, hlast, hdistance⟩, ⟨hroot, hindex, hhash, henough, hverify⟩,
        require_eq_ok.mp hauth, w, hdeposit⟩
    · intro h'
      obtain ⟨⟨hpaused, hquorum, hlast, hdistance⟩, ⟨hroot, hindex, hhash, henough, hverify⟩,
        hauth, w, hdeposit⟩ := h'
      exact ⟨hroot, hpaused, ⟨hquorum, henough⟩, hlast, hdistance, hhash, hindex, hverify, w,
        bind_eq_ok.mpr ⟨(), require_of hauth, hdeposit⟩⟩
  · intro s' hstep
    obtain ⟨hg, _, hlog⟩ := step_guarded.mp hstep
    have hs' := jointSane (GuardedWorld.reachable_world (reachable_guarded (h.step hstep)))
    obtain ⟨_, _, hdeposit⟩ := bind_eq_ok.mp (GuardedWorld.step_deposit hg).1
    have hlength := deposits_length_eq (L := L) hs hdeposit
    constructor
    · have hmade := congrArg List.length (deposits_eq hg)
      rw [List.length_append, hlength] at hmade
      rw [hlog, List.length_append, Nat.add_left_cancel hmade]
    · rw [← hs'.deposits, ← hs.deposits, hlength]

end ChainWorld

namespace Sample

/-- One deposit is possible, and the module makes it. -/
theorem one_deposit_goes_through : ∃ s s', Reachable (chainSystem deployment layout guarding) s ∧
    (chainSystem deployment layout guarding).step s
      (.guarded (.deposit (guardedCall 20) (chainAttestation 2))) = .ok s' ∧
    possibleDeposits s.guarded.world s.guarded.dsm.maxDepositsPerBlock = 1 ∧
    s.guarded.dsm.canDeposit 20 = .ok true ∧ s'.log.length = s.log.length + 1 := by
  have hrun : reaches (jointSystem deployment layout) start depositRun (fun w ↦
      decide (w.deposits = []) &&
      reaches (chainSystem deployment layout guarding)
        ⟨⟨deployedModule, w⟩, constructor deployment.sha256, []⟩
        (setupModule.map .guarded) fun s ↦
          decide (possibleDeposits s.guarded.world s.guarded.dsm.maxDepositsPerBlock = 1) &&
          reaches (chainSystem deployment layout guarding) s
            [.guarded (.deposit (guardedCall 20) (chainAttestation 2))] fun _ ↦ true) = true := by
    decide +kernel
  obtain ⟨s, hs, hq⟩ := chain_of_run hrun
  rw [Bool.and_eq_true, decide_eq_true_eq] at hq
  obtain ⟨hone, hq⟩ := hq
  obtain ⟨s', hstep, _⟩ := step_of_reaches hq
  obtain ⟨hiff, hlength⟩ :=
    ChainWorld.guarded_deposit_isOk_iff hs (guardedCall 20) (chainAttestation 2)
  refine ⟨s, s', hs, hstep, hone, (hiff.mp ⟨s', hstep⟩).1, ?_⟩
  rw [(hlength s' hstep).1, hone]

end Sample

end LidoDao
