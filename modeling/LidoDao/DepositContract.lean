import LidoDao.DepositEffects
import LidoDao.JointSystem

namespace LidoDao

open Evm Library.Outcome Library.ByteWords

def DepositContract.depositContractTreeDepth : ℕ := 32

/-- The storage of the official deposit contract that a deposit reads and writes. -/
structure DepositContract where
  branch : Fin DepositContract.depositContractTreeDepth → ℕ
  depositCount : ℕ

namespace DepositContract

def maxDepositCount : ℕ := 2 ^ depositContractTreeDepth - 1

/-- Byteswapping during copying to bytes. -/
def toLittleEndian64 (value : ℕ) : Bytes :=
  let bytesValue := toBytes 8 value
  [bytesValue.getD 7 0, bytesValue.getD 6 0, bytesValue.getD 5 0, bytesValue.getD 4 0,
    bytesValue.getD 3 0, bytesValue.getD 2 0, bytesValue.getD 1 0, bytesValue.getD 0 0]

variable (sha256 : Bytes → ℕ)

/-- The hash tree root of the deposit data. -/
def depositDataNode (pubkey withdrawalCredentials signature amount : Bytes) : ℕ :=
  let pubkeyRoot := sha256 (pubkey ++ List.replicate 16 0)
  let signatureRoot := sha256 (toBytes 32 (sha256 (signature.take 64)) ++
    toBytes 32 (sha256 (signature.drop 64 ++ List.replicate 32 0)))
  sha256 (
    toBytes 32 (sha256 (toBytes 32 pubkeyRoot ++ withdrawalCredentials)) ++
    toBytes 32 (sha256 (amount ++ List.replicate 24 0 ++ toBytes 32 signatureRoot)))

/-- The loop of `deposit` over the remaining heights of the tree. -/
def updateBranch : List (Fin depositContractTreeDepth) → ℕ → ℕ →
    (Fin depositContractTreeDepth → ℕ) → Except Revert (Fin depositContractTreeDepth → ℕ)
  | [], _, _, _ => .error (.assertion "deposit")
  | height :: heights, size, node, branch =>
    if size &&& 1 = 1 then .ok (Function.update branch height node)
    else
      let node := sha256 (toBytes 32 (branch height) ++ toBytes 32 node)
      updateBranch heights (size / 2) node branch

def deposit (k : DepositContract) (d : DepositCall) : Except Revert DepositContract := do
  require (d.pubkey.length = 48) (.reason "DepositContract: invalid pubkey length")
  require (d.withdrawalCredentials.length = 32)
    (.reason "DepositContract: invalid withdrawal_credentials length")
  require (d.signature.length = 96) (.reason "DepositContract: invalid signature length")
  require (10 ^ 18 ≤ d.value) (.reason "DepositContract: deposit value too low")
  require (d.value % 10 ^ 9 = 0) (.reason "DepositContract: deposit value not multiple of gwei")
  let depositAmount := d.value / 10 ^ 9
  require (depositAmount ≤ 2 ^ 64 - 1) (.reason "DepositContract: deposit value too high")
  let amount := toLittleEndian64 (depositAmount % 2 ^ 64)
  let node := depositDataNode sha256 d.pubkey d.withdrawalCredentials d.signature amount
  require (node = d.depositDataRoot) (.reason "DepositContract: reconstructed DepositData does not match supplied deposit_data_root")
  require (k.depositCount < maxDepositCount) (.reason "DepositContract: merkle tree full")
  let depositCount := k.depositCount + 1
  let branch ← updateBranch sha256 (List.finRange depositContractTreeDepth) depositCount node k.branch
  pure { branch, depositCount }

variable {sha256 : Bytes → ℕ} {k k' : DepositContract} {d : DepositCall}

theorem toLittleEndian64_eq (value : ℕ) : toLittleEndian64 value = (toBytes 8 value).reverse := by
  simp [toLittleEndian64, toBytes]

/-- A number of so many digits has a digit that is one. -/
theorem updateBranch_isOk (sha256 : Bytes → ℕ) {heights : List (Fin depositContractTreeDepth)}
    {size : ℕ} (node : ℕ) (branch : Fin depositContractTreeDepth → ℕ) (hpos : 0 < size)
    (hlt : size < 2 ^ heights.length) :
    ∃ b, updateBranch sha256 heights size node branch = .ok b := by
  induction heights generalizing size node with
  | nil =>
    rw [List.length_nil, pow_zero] at hlt
    omega
  | cons height heights ih =>
    rw [updateBranch]
    by_cases hodd : size &&& 1 = 1
    · exact ⟨_, if_pos hodd⟩
    · rw [if_neg hodd]
      rw [Nat.and_one_is_mod] at hodd
      rw [List.length_cons, pow_succ] at hlt
      exact ih _ (by omega) (by omega)

/-- What the contract asks of a deposit, its root apart. -/
structure WellFormed (d : DepositCall) : Prop where
  pubkey : d.pubkey.length = 48
  withdrawalCredentials : d.withdrawalCredentials.length = 32
  signature : d.signature.length = 96
  low : 10 ^ 18 ≤ d.value
  gwei : d.value % 10 ^ 9 = 0
  high : d.value / 10 ^ 9 < 2 ^ 64

def computedRoot (sha256 : Bytes → ℕ) (d : DepositCall) : ℕ :=
  depositDataNode sha256 d.pubkey d.withdrawalCredentials d.signature
    (toLittleEndian64 (d.value / 10 ^ 9 % 2 ^ 64))

theorem deposit_isOk_iff : (∃ k', k.deposit sha256 d = .ok k') ↔
    WellFormed d ∧ computedRoot sha256 d = d.depositDataRoot ∧ k.depositCount < maxDepositCount := by
  simp only [deposit, bind_eq_ok, require_eq_ok, exists_const]
  constructor
  · intro h'
    obtain ⟨_, hpubkey, hcredentials, hsignature, hlow, hgwei, hhigh, hroot, hroom, _⟩ := h'
    exact ⟨⟨hpubkey, hcredentials, hsignature, hlow, hgwei, by omega⟩, hroot, hroom⟩
  · intro h
    obtain ⟨h, hroot, hroom⟩ := h
    have hsize : k.depositCount + 1 < 2 ^ (List.finRange depositContractTreeDepth).length := by
      rw [List.length_finRange]
      rw [maxDepositCount] at hroom
      omega
    obtain ⟨b, hb⟩ := updateBranch_isOk sha256 (computedRoot sha256 d) k.branch
      (Nat.succ_pos k.depositCount) hsize
    exact ⟨_, h.pubkey, h.withdrawalCredentials, h.signature, h.low, h.gwei,
      Nat.le_sub_one_of_lt h.high, hroot, hroom, b, hb, rfl⟩

end DepositContract

namespace Lido

open DepositContract

variable {R ρ : Type} {D : Deployment} {c : LidoCall D} {s : Lido}
  {pubkey signature credentials : Bytes} {amount : ℕ}

theorem _toLittleEndian64_eq (h : amount < 2 ^ 64) :
    _toLittleEndian64 amount = .ok (fromBytes (toBytes 8 amount).reverse * 256 ^ 24) := by
  have hmoved : moveByte^[8] (0, amount) = (fromBytes (toBytes 8 amount).reverse, 0) := by
    rw [moveByte_iterate, Nat.div_eq_of_lt (h.trans_eq (by norm_num))]
  change (do
    require (0 = (moveByte^[8] (0, amount)).2) (Revert.assertion "_toLittleEndian64")
    pure ((moveByte^[8] (0, amount)).1 <<< (24 * 8))) = _
  rw [hmoved, require_of rfl, ok_bind, Nat.shiftLeft_eq, pure_eq]
  norm_num

theorem toBytes_littleEndian (amount : ℕ) :
    toBytes 32 (fromBytes (toBytes 8 amount).reverse * 256 ^ 24) =
      toLittleEndian64 amount ++ List.replicate 24 0 := by
  have hlength : (toBytes 8 amount).reverse.length = 8 := by simp
  rw [toLittleEndian64_eq, ← toBytes_zero]
  exact toBytes_fromBytes_mul 24 hlength

theorem _pad64_eq {b : Bytes} (h : 32 ≤ b.length) (h' : b.length ≤ 64) :
    _pad64 b = .ok (b ++ List.replicate (64 - b.length) 0) := by
  rw [_pad64, require_of ⟨h, h'⟩, ok_bind]
  by_cases hfull : 64 = b.length
  · rw [if_pos hfull, ← hfull, Nat.sub_self, List.replicate_zero, List.append_nil, pure_eq]
  rw [if_neg hfull]
  by_cases hhalf : 32 = b.length
  · rw [if_pos hhalf, ← hhalf, pure_eq]
  · have hpadding : bytesSlice (List.replicate 32 0) 0 (64 - b.length) =
        .ok (List.replicate (64 - b.length) 0) := by
      refine bytesSlice_eq_ok.mpr ⟨?_, ?_⟩
      · rw [List.length_replicate]
        omega
      · rw [slice, List.drop_zero, List.take_replicate, Nat.min_eq_left (by omega)]
    rw [if_neg hhalf, hpadding, ok_bind, pure_eq]

theorem depositDataRoot_eq (hpubkey : pubkey.length = 48) (hcredentials : credentials.length = 32)
    (hsignature : signature.length = 96) (hamount : amount < 2 ^ 64) :
    depositDataRoot D pubkey signature (fromBytes credentials) amount =
      .ok (depositDataNode D.sha256 pubkey credentials signature (toLittleEndian64 amount)) := by
  have hpadded : _pad64 pubkey = .ok (pubkey ++ List.replicate 16 0) := by
    rw [_pad64_eq (by omega) (by omega), hpubkey]
  have hhead : bytesSlice signature 0 64 = .ok (signature.take 64) :=
    bytesSlice_eq_ok.mpr ⟨by omega, rfl⟩
  have htail : bytesSlice signature 64 (signatureLength - 64) = .ok (signature.drop 64) := by
    refine bytesSlice_eq_ok.mpr ⟨?_, ?_⟩
    · rw [signatureLength]
      omega
    · rw [slice, List.take_of_length_le]
      rw [List.length_drop, hsignature, signatureLength]
  have htailPadded : _pad64 (signature.drop 64) =
      .ok (signature.drop 64 ++ List.replicate 32 0) := by
    have hlength : (signature.drop 64).length = 32 := by
      rw [List.length_drop, hsignature]
    rw [_pad64_eq (by omega) (by omega), hlength]
  simp only [depositDataRoot, hpadded, hhead, htail, htailPadded, _toLittleEndian64_eq hamount,
    ok_bind, pure_eq, toBytes_fromBytes_of_length hcredentials, toBytes_littleEndian,
    depositDataNode]

theorem depositDataRoot_credentials (withdrawalCredentials : ℕ) :
    depositDataRoot D pubkey signature withdrawalCredentials amount =
      depositDataRoot D pubkey signature (fromBytes (toBytes 32 withdrawalCredentials)) amount := by
  have hspelled : toBytes 32 (fromBytes (toBytes 32 withdrawalCredentials)) =
      toBytes 32 withdrawalCredentials :=
    toBytes_fromBytes_of_length (length_toBytes 32 withdrawalCredentials)
  simp only [depositDataRoot, hspelled]

end Lido

open DepositContract

theorem deposit_isOk_of_root {D : Deployment} {pubkey signature credentials : Bytes}
    {value root : ℕ} {k : DepositContract} (hpubkey : pubkey.length = 48)
    (hcredentials : credentials.length = 32) (hsignature : signature.length = 96)
    (hamount : value / 10 ^ 9 < 2 ^ 64)
    (hroot : Lido.depositDataRoot D pubkey signature (fromBytes credentials) (value / 10 ^ 9) =
      .ok root) :
    (∃ k', k.deposit D.sha256
        { value, pubkey, withdrawalCredentials := credentials, signature
          depositDataRoot := root } = .ok k') ↔
      10 ^ 18 ≤ value ∧ value % 10 ^ 9 = 0 ∧ k.depositCount < maxDepositCount := by
  have heq := Except.ok.inj
    ((Lido.depositDataRoot_eq hpubkey hcredentials hsignature hamount).symm.trans hroot)
  rw [deposit_isOk_iff]
  constructor
  · intro h
    obtain ⟨h, _, hroom⟩ := h
    exact ⟨h.low, h.gwei, hroom⟩
  · intro h
    obtain ⟨hlow, hgwei, hroom⟩ := h
    refine ⟨⟨hpubkey, hcredentials, hsignature, hlow, hgwei, hamount⟩, ?_, hroom⟩
    rw [computedRoot]
    dsimp only
    rw [Nat.mod_eq_of_lt hamount, heq]

/-- The pool builds the root that the deposit contract computes, so that the contract's
comparison of the two turns no deposit of the pool down. -/
theorem deposit_roots_agree {D : Deployment} {pubkey signature credentials : Bytes} {amount : ℕ}
    (hpubkey : pubkey.length = 48) (hcredentials : credentials.length = 32)
    (hsignature : signature.length = 96) (hamount : amount < 2 ^ 64) :
    Lido.depositDataRoot D pubkey signature (fromBytes credentials) amount =
      .ok (depositDataNode D.sha256 pubkey credentials signature (toLittleEndian64 amount)) ∧
    ∀ (k : DepositContract) (value root : ℕ), value / 10 ^ 9 = amount →
      Lido.depositDataRoot D pubkey signature (fromBytes credentials) amount = .ok root →
      ((∃ k', k.deposit D.sha256
          { value, pubkey, withdrawalCredentials := credentials, signature
            depositDataRoot := root } = .ok k') ↔
        10 ^ 18 ≤ value ∧ value % 10 ^ 9 = 0 ∧ k.depositCount < maxDepositCount) := by
  refine ⟨Lido.depositDataRoot_eq hpubkey hcredentials hsignature hamount, ?_⟩
  rintro k value root rfl hroot
  exact deposit_isOk_of_root hpubkey hcredentials hsignature hamount hroot

/-- A deposit of thirty-two ether goes through into an empty tree. -/
theorem Sample.first_deposit_is_accepted : ∃ root k',
    Lido.depositDataRoot Sample.deployment (List.replicate 48 1) (List.replicate 96 2)
      (fromBytes (List.replicate 32 3)) (32 * 10 ^ 9) = .ok root ∧
    DepositContract.deposit Sample.deployment.sha256 { branch := fun _ ↦ 0, depositCount := 0 }
      { value := 32 * 10 ^ 18, pubkey := List.replicate 48 1
        withdrawalCredentials := List.replicate 32 3, signature := List.replicate 96 2
        depositDataRoot := root } = .ok k' := by
  have hpubkey : (List.replicate 48 1 : Bytes).length = 48 := List.length_replicate
  have hcredentials : (List.replicate 32 3 : Bytes).length = 32 := List.length_replicate
  have hsignature : (List.replicate 96 2 : Bytes).length = 96 := List.length_replicate
  have hamount : 32 * 10 ^ 9 < 2 ^ 64 := by norm_num
  obtain ⟨hroot, haccepted⟩ :=
    deposit_roots_agree (D := Sample.deployment) hpubkey hcredentials hsignature hamount
  obtain ⟨k', hk'⟩ := (haccepted { branch := fun _ ↦ 0, depositCount := 0 } (32 * 10 ^ 18) _
    (by norm_num) hroot).mpr ⟨by norm_num, by norm_num, by decide⟩
  exact ⟨_, k', hroot, hk'⟩

/-- Before this contract the pool's deposits of keys of the right size fail only when its tree
is full. -/
theorem stake_isOk_iff {D : Deployment} {c : LidoCall D} {s : Lido} {pubkey signature : Bytes}
    {deposits : List DepositCall} {k : DepositContract}
    (hk : ∀ d, c.depositAccepts deposits d = (k.deposit D.sha256 d).isOk)
    (hpubkey : pubkey.length = 48) (hsignature : signature.length = 96)
    (hcredentials : s.withdrawalCredentials ≠ 0) (hbalance : Lido.depositSize ≤ s.balance) :
    (∃ p, Lido._stake D c pubkey signature s deposits = .ok p) ↔
      k.depositCount < maxDepositCount := by
  have hsize : Lido.depositSize = 32 * 10 ^ 18 := by rw [Lido.depositSize]
  have hdiv : SafeMath.div Lido.depositSize Lido.depositAmountUnit = .ok (32 * 10 ^ 9) := by
    rw [hsize, SafeMath.div_eq_ok, Lido.depositAmountUnit]
    norm_num
  have hmul : SafeMath.mul (32 * 10 ^ 9) Lido.depositAmountUnit = .ok Lido.depositSize := by
    rw [hsize, SafeMath.mul_eq_ok, wordLimit, Lido.depositAmountUnit]
    norm_num
  have hlength := length_toBytes 32 s.withdrawalCredentials
  have hamount : Lido.depositSize / 10 ^ 9 = 32 * 10 ^ 9 := by
    rw [hsize]
    norm_num
  have hword : 32 * 10 ^ 9 < 2 ^ 64 := by norm_num
  have hroot := Lido.depositDataRoot_eq (D := D) hpubkey hlength hsignature hword
  have hiff := deposit_isOk_of_root (k := k) hpubkey hlength hsignature
    (by rw [hamount]; norm_num) (by rw [hamount]; exact hroot)
  rw [← Lido.depositDataRoot_credentials] at hroot
  have hroom : 10 ^ 18 ≤ Lido.depositSize ∧ Lido.depositSize % 10 ^ 9 = 0 := by
    rw [hsize]
    norm_num
  simp only [Lido._stake, bind_eq_ok, require_eq_ok, exists_const, SafeMath.sub_eq_ok, hk, pure_eq,
    Except.ok.injEq]
  constructor
  · intro h
    obtain ⟨_, _, n, hn, _, _, _, root, hroot', _, _, haccepts, _⟩ := h
    obtain rfl := Except.ok.inj (hdiv.symm.trans hn)
    obtain rfl := Except.ok.inj (hroot.symm.trans hroot')
    exact (hiff.mp (exists_of_isOk haccepts)).2.2
  · intro hlt
    obtain ⟨k', hk'⟩ := hiff.mpr ⟨hroom.1, hroom.2, hlt⟩
    refine ⟨_, hcredentials, _, hdiv, _, hmul, rfl, _, hroot, _, ⟨hbalance, rfl⟩, ?_, rfl, rfl⟩
    rw [hk']
    rfl

end LidoDao
