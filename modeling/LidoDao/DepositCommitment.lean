import LidoDao.DepositTree

namespace LidoDao

open Evm Library.Outcome Library.ByteWords Library.MerkleTree Library.Transition

namespace OfficialDepositContract

open DepositContract

def digest (H : Bytes → BitVec 256) (bs : Bytes) : ℕ := (H bs).toNat

section Strings

variable (sha256 : Bytes → ℕ)

def amountBytes (d : DepositCall) : Bytes := toLittleEndian64 (d.value / 10 ^ 9 % 2 ^ 64)

def pubkeyString (d : DepositCall) : Bytes := d.pubkey ++ List.replicate 16 0

def signatureHead (d : DepositCall) : Bytes := d.signature.take 64

def signatureTail (d : DepositCall) : Bytes := d.signature.drop 64 ++ List.replicate 32 0

def signatureString (d : DepositCall) : Bytes :=
  toBytes 32 (sha256 (signatureHead d)) ++ toBytes 32 (sha256 (signatureTail d))

def credentialsString (d : DepositCall) : Bytes :=
  toBytes 32 (sha256 (pubkeyString d)) ++ d.withdrawalCredentials

def amountString (d : DepositCall) : Bytes :=
  amountBytes d ++ List.replicate 24 0 ++ toBytes 32 (sha256 (signatureString sha256 d))

def depositString (d : DepositCall) : Bytes :=
  toBytes 32 (sha256 (credentialsString sha256 d)) ++ toBytes 32 (sha256 (amountString sha256 d))

/-- The strings that are hashed for the root of a deposit. -/
def depositStrings (d : DepositCall) : List Bytes :=
  [pubkeyString d, signatureHead d, signatureTail d, signatureString sha256 d,
    credentialsString sha256 d, amountString sha256 d, depositString sha256 d]

def nodeString (ds : List DepositCall) (height position : ℕ) : Bytes :=
  toBytes 32 (node (hashPair sha256) (leaves ds) height (2 * position)) ++
    toBytes 32 (node (hashPair sha256) (leaves ds) height (2 * position + 1))

def countString (ds : List DepositCall) : Bytes :=
  toBytes 32 (root (hashPair sha256) 0 32 (ds.map (·.depositDataRoot))) ++
    (toBytes 8 ds.length).reverse ++ List.replicate 24 0

/-- All strings that are hashed on the way from the deposits to the answered root. -/
def hashedStrings (ds : List DepositCall) : Set Bytes :=
  {bs | (∃ d ∈ ds, bs ∈ depositStrings sha256 d) ∨
    (∃ height position, height < 32 ∧ position < 2 ^ (31 - height) ∧
      bs = nodeString sha256 ds height position) ∨
    bs = countString sha256 ds}

end Strings

variable {H : Bytes → BitVec 256} {A B : Set Bytes} {ds ds' : List DepositCall} {d d' : DepositCall}

theorem digest_lt (H : Bytes → BitVec 256) (bs : Bytes) : digest H bs < 256 ^ 32 :=
  (H bs).isLt.trans_eq (by norm_num)

theorem digest_inj {x y : Bytes} (h : digest H x = digest H y) : H x = H y :=
  BitVec.eq_of_toNat_eq h

theorem toBytes_digest_inj {x y : Bytes}
    (h : toBytes 32 (digest H x) = toBytes 32 (digest H y)) : H x = H y :=
  digest_inj (toBytes_inj (digest_lt H x) (digest_lt H y) h)

theorem toLittleEndian64_inj {v w : ℕ} (hv : v < 2 ^ 64) (hw : w < 2 ^ 64)
    (h : toLittleEndian64 v = toLittleEndian64 w) : v = w := by
  rw [toLittleEndian64_eq, toLittleEndian64_eq, List.reverse_inj] at h
  exact toBytes_inj (hv.trans_eq (by norm_num)) (hw.trans_eq (by norm_num)) h

/-- Two deposits with the same root are the same where no two of the strings hashed for them
have the same hash. -/
theorem deposit_of_root (hno : ¬Collides H A B) (hA : ∀ bs ∈ depositStrings (digest H) d, bs ∈ A)
    (hB : ∀ bs ∈ depositStrings (digest H) d', bs ∈ B)
    (hd : WellFormed d ∧ computedRoot (digest H) d = d.depositDataRoot)
    (hd' : WellFormed d' ∧ computedRoot (digest H) d' = d'.depositDataRoot)
    (hroot : d.depositDataRoot = d'.depositDataRoot) : d = d' := by
  simp only [depositStrings, List.mem_cons, List.not_mem_nil, or_false, forall_eq_or_imp,
    forall_eq] at hA hB
  obtain ⟨hA₁, hA₂, hA₃, hA₄, hA₅, hA₆, hA₇⟩ := hA
  obtain ⟨hB₁, hB₂, hB₃, hB₄, hB₅, hB₆, hB₇⟩ := hB
  obtain ⟨hwell, hcomputed⟩ := hd
  obtain ⟨hwell', hcomputed'⟩ := hd'
  have htop : depositString (digest H) d = depositString (digest H) d' := by
    have heq : computedRoot (digest H) d = computedRoot (digest H) d' := by
      rw [hcomputed, hcomputed', hroot]
    exact eq_of_not_collides hno hA₇ hB₇ (digest_inj heq)
  obtain ⟨hleft, hright⟩ := List.append_inj htop (by simp)
  have hcredentials := eq_of_not_collides hno hA₅ hB₅ (toBytes_digest_inj hleft)
  have hamount := eq_of_not_collides hno hA₆ hB₆ (toBytes_digest_inj hright)
  obtain ⟨hkey, hcredentials⟩ := List.append_inj hcredentials (by simp)
  have hpubkey := eq_of_not_collides hno hA₁ hB₁ (toBytes_digest_inj hkey)
  obtain ⟨hamount, hsignature⟩ := List.append_inj hamount
    (by simp [amountBytes, toLittleEndian64_eq])
  have hsignature := eq_of_not_collides hno hA₄ hB₄ (toBytes_digest_inj hsignature)
  obtain ⟨hhead, htail⟩ := List.append_inj hsignature (by simp)
  have hhead := eq_of_not_collides hno hA₂ hB₂ (toBytes_digest_inj hhead)
  have htail := eq_of_not_collides hno hA₃ hB₃ (toBytes_digest_inj htail)
  have hpubkey : d.pubkey = d'.pubkey := List.append_cancel_right hpubkey
  have htail : d.signature.drop 64 = d'.signature.drop 64 := List.append_cancel_right htail
  have hsignature : d.signature = d'.signature := by
    rw [← List.take_append_drop 64 d.signature, ← List.take_append_drop 64 d'.signature]
    exact congrArg₂ (· ++ ·) hhead htail
  have hamount : d.value / 10 ^ 9 = d'.value / 10 ^ 9 := by
    have hwords := toLittleEndian64_inj (Nat.mod_lt _ (by norm_num)) (Nat.mod_lt _ (by norm_num))
      (List.append_cancel_right hamount)
    rwa [Nat.mod_eq_of_lt hwell.high, Nat.mod_eq_of_lt hwell'.high] at hwords
  have hvalue : d.value = d'.value := by
    have hgwei := hwell.gwei
    have hgwei' := hwell'.gwei
    omega
  cases d
  cases d'
  simp only [DepositCall.mk.injEq]
  exact ⟨hvalue, hpubkey, hcredentials, hsignature, hroot⟩

theorem node_lt (hleaves : ∀ i, leaves ds i < 256 ^ 32) (height position : ℕ) :
    node (hashPair (digest H)) (leaves ds) height position < 256 ^ 32 := by
  cases height with
  | zero => exact hleaves position
  | succ height => exact digest_lt H _

theorem leaves_getElem {i : ℕ} (hi : i < ds.length) : leaves ds i = ds[i].depositDataRoot := by
  simp [leaves, List.getD_eq_getElem?_getD, hi]

theorem leaves_lt (hds : ∀ d ∈ ds, computedRoot (digest H) d = d.depositDataRoot) (i : ℕ) :
    leaves ds i < 256 ^ 32 := by
  by_cases hi : i < ds.length
  · rw [leaves_getElem hi, ← hds _ (List.getElem_mem hi)]
    exact digest_lt H _
  · rw [leaves_of_le (Nat.le_of_not_lt hi)]
    positivity

theorem depositStrings_subset {bs : Bytes} (hd : d ∈ ds)
    (hbs : bs ∈ depositStrings (digest H) d) : bs ∈ hashedStrings (digest H) ds :=
  .inl ⟨d, hd, hbs⟩

theorem countString_inj (hds : ∀ d ∈ ds, computedRoot (digest H) d = d.depositDataRoot)
    (hds' : ∀ d ∈ ds', computedRoot (digest H) d = d.depositDataRoot)
    (hlength : ds.length < 2 ^ 64) (hlength' : ds'.length < 2 ^ 64)
    (heq : countString (digest H) ds = countString (digest H) ds') :
    ds.length = ds'.length ∧
      node (hashPair (digest H)) (leaves ds) 32 0 = node (hashPair (digest H)) (leaves ds') 32 0 := by
  obtain ⟨hfront, _⟩ := List.append_inj heq (by simp)
  obtain ⟨hroot, hcount⟩ := List.append_inj hfront (by simp)
  constructor
  · rw [List.reverse_inj] at hcount
    exact toBytes_inj (hlength.trans_eq (by norm_num)) (hlength'.trans_eq (by norm_num)) hcount
  · exact toBytes_inj (node_lt (leaves_lt hds) 32 0) (node_lt (leaves_lt hds') 32 0) hroot

theorem leaves_of_root
    (hno : ¬Collides H (hashedStrings (digest H) ds) (hashedStrings (digest H) ds'))
    (hds : ∀ d ∈ ds, computedRoot (digest H) d = d.depositDataRoot)
    (hds' : ∀ d ∈ ds', computedRoot (digest H) d = d.depositDataRoot)
    (hroot : node (hashPair (digest H)) (leaves ds) 32 0 =
      node (hashPair (digest H)) (leaves ds') 32 0) {i : ℕ} (hi : i < 2 ^ 32) :
    leaves ds i = leaves ds' i := by
  rcases node_binding hroot with hleaves | ⟨height, position, hheight, hposition, heq, hne⟩
  · exact hleaves i ⟨by omega, by omega⟩
  · have hlt : position < 2 ^ (31 - height) := by
      rcases Nat.div_eq_zero_iff.mp hposition with hzero | hlt
      · exact absurd hzero (Nat.two_pow_pos _).ne'
      · rwa [show 32 - (height + 1) = 31 - height by omega] at hlt
    have hstring : nodeString (digest H) ds height position =
        nodeString (digest H) ds' height position :=
      eq_of_not_collides hno (.inr (.inl ⟨height, position, hheight, hlt, rfl⟩))
        (.inr (.inl ⟨height, position, hheight, hlt, rfl⟩)) (digest_inj heq)
    obtain ⟨hleft, hright⟩ := List.append_inj hstring (by simp)
    refine absurd ⟨?_, ?_⟩ hne
    · exact toBytes_inj (node_lt (leaves_lt hds) _ _) (node_lt (leaves_lt hds') _ _) hleft
    · exact toBytes_inj (node_lt (leaves_lt hds) _ _) (node_lt (leaves_lt hds') _ _) hright

/-- Contracts that answer the same root have accepted the same deposits in the same order, or
two of the strings that were hashed for it have the same hash. -/
theorem deposit_root_commits {k k' : OfficialDepositContract}
    (h : Reachable (recorded (digest H)) (k, ds)) (h' : Reachable (recorded (digest H)) (k', ds'))
    (hroot : k.getDepositRoot (digest H) = k'.getDepositRoot (digest H)) :
    ds = ds' ∨ Collides H (hashedStrings (digest H) ds) (hashedStrings (digest H) ds') := by
  refine (em _).elim .inr fun hno ↦ .inl ?_
  have hk : Represents (digest H) k ds := .of_reachable h
  have hk' : Represents (digest H) k' ds' := .of_reachable h'
  have hds d hd := (hk.wellFormed d hd).2
  have hds' d hd := (hk'.wellFormed d hd).2
  have hmax : maxDepositCount < 2 ^ 32 := by decide
  rw [hk.getDepositRoot, hk'.getDepositRoot] at hroot
  have hlast : countString (digest H) ds = countString (digest H) ds' :=
    eq_of_not_collides hno (.inr (.inr rfl)) (.inr (.inr rfl)) (digest_inj hroot)
  obtain ⟨hlength, hnode⟩ := countString_inj hds hds'
    ((hk.length_le.trans_lt hmax).trans (by norm_num))
    ((hk'.length_le.trans_lt hmax).trans (by norm_num)) hlast
  refine List.ext_getElem hlength fun i hi hi' ↦ ?_
  have hleaf := leaves_of_root hno hds hds' hnode (hi.trans (hk.length_le.trans_lt hmax))
  rw [leaves_getElem hi, leaves_getElem hi'] at hleaf
  exact deposit_of_root hno (fun _ ↦ depositStrings_subset (List.getElem_mem hi))
    (fun _ ↦ depositStrings_subset (List.getElem_mem hi')) (hk.wellFormed _ (List.getElem_mem hi))
    (hk'.wellFormed _ (List.getElem_mem hi')) hleaf

namespace Sample

/-- Strings of one length have the same hash. -/
def lengthHash (bs : Bytes) : BitVec 256 := .ofNat 256 bs.length

def otherDeposit : DepositCall := { deposit with pubkey := List.replicate 48 9 }

theorem otherDeposit_wellFormed : WellFormed otherDeposit := by
  constructor
  all_goals decide

theorem lengthHash_pair (a b : ℕ) :
    digest lengthHash (toBytes 32 a ++ toBytes 32 b) = 64 := by
  simp [digest, lengthHash]

theorem committedRoot_lengthHash (ds : List DepositCall) :
    committedRoot (digest lengthHash) ds = 64 := by
  simp [committedRoot, digest, lengthHash]

/-- With this hash two different deposits lead to one root, and their strings collide. -/
theorem deposit_root_commits_colliding : ∃ k k',
    Reachable (recorded (digest lengthHash)) (k, [deposit]) ∧
    Reachable (recorded (digest lengthHash)) (k', [otherDeposit]) ∧
    Collides lengthHash (hashedStrings (digest lengthHash) [deposit])
      (hashedStrings (digest lengthHash) [otherDeposit]) := by
  obtain ⟨k, hk⟩ : ∃ k, Reachable (recorded (digest lengthHash)) (k, [deposit]) :=
    reachable_single deposit_wellFormed (lengthHash_pair _ _)
  obtain ⟨k', hk'⟩ : ∃ k', Reachable (recorded (digest lengthHash)) (k', [otherDeposit]) :=
    reachable_single otherDeposit_wellFormed (lengthHash_pair _ _)
  have hroot : k.getDepositRoot (digest lengthHash) = k'.getDepositRoot (digest lengthHash) := by
    rw [(Represents.of_reachable hk).getDepositRoot, (Represents.of_reachable hk').getDepositRoot,
      committedRoot_lengthHash, committedRoot_lengthHash]
  have hne : [deposit] ≠ [otherDeposit] := by decide
  exact ⟨k, k', hk, hk', (deposit_root_commits hk hk' hroot).resolve_left hne⟩

end Sample

end OfficialDepositContract

end LidoDao
