import LidoDao.DepositContract
import LidoDao.Library.MerkleTree

namespace LidoDao

open Evm Library.Outcome Library.ByteWords Library.MerkleTree Library.Transition

/-- The whole storage of the official deposit contract. -/
structure OfficialDepositContract extends DepositContract where
  zeroHashes : Fin DepositContract.depositContractTreeDepth → ℕ

namespace OfficialDepositContract

open DepositContract

variable (sha256 : Bytes → ℕ)

def lower (height : Fin (depositContractTreeDepth - 1)) : Fin depositContractTreeDepth :=
  ⟨height, by have := height.isLt; unfold depositContractTreeDepth at *; omega⟩

def upper (height : Fin (depositContractTreeDepth - 1)) : Fin depositContractTreeDepth :=
  ⟨height + 1, by have := height.isLt; unfold depositContractTreeDepth at *; omega⟩

/-- The loop of the constructor over the remaining heights. -/
def computeZeroHashes : List (Fin (depositContractTreeDepth - 1)) →
    (Fin depositContractTreeDepth → ℕ) → Fin depositContractTreeDepth → ℕ
  | [], zeroHashes => zeroHashes
  | height :: heights, zeroHashes =>
    let hash := sha256 (toBytes 32 (zeroHashes (lower height)) ++
      toBytes 32 (zeroHashes (lower height)))
    computeZeroHashes heights (Function.update zeroHashes (upper height) hash)

def constructor : OfficialDepositContract where
  branch _ := 0
  depositCount := 0
  zeroHashes := computeZeroHashes sha256 (List.finRange (depositContractTreeDepth - 1)) fun _ ↦ 0

variable (k : OfficialDepositContract)

/-- The loop of `get_deposit_root` over the remaining heights. -/
def climbToRoot : List (Fin depositContractTreeDepth) → ℕ → ℕ → ℕ
  | [], _, node => node
  | height :: heights, size, node =>
    let node :=
      if size &&& 1 = 1 then sha256 (toBytes 32 (k.branch height) ++ toBytes 32 node)
      else sha256 (toBytes 32 node ++ toBytes 32 (k.zeroHashes height))
    climbToRoot heights (size / 2) node

def getDepositCount : Bytes := toLittleEndian64 (k.depositCount % 2 ^ 64)

def getDepositRoot : ℕ :=
  let node := climbToRoot sha256 k (List.finRange depositContractTreeDepth) k.depositCount 0
  sha256 (toBytes 32 node ++ toLittleEndian64 (k.depositCount % 2 ^ 64) ++ List.replicate 24 0)

def deposit (d : DepositCall) : Except Revert OfficialDepositContract := do
  let stored ← k.toDepositContract.deposit sha256 d
  pure { k with toDepositContract := stored }

def machine : Machine OfficialDepositContract DepositCall Revert where
  initial k := k = constructor sha256
  step k d := k.deposit sha256 d

def recorded : Machine (OfficialDepositContract × List DepositCall) DepositCall Revert :=
  (machine sha256).observed [] fun _ d _ ds ↦ ds ++ [d]

/-- The hash of a node's two children. -/
def hashPair (a b : ℕ) : ℕ := sha256 (toBytes 32 a ++ toBytes 32 b)

/-- The root that the deposits commit to: of the tree over their own roots, with their number. -/
def committedRoot (ds : List DepositCall) : ℕ :=
  sha256 (toBytes 32 (root (hashPair sha256) 0 32 (ds.map (·.depositDataRoot))) ++
    (toBytes 8 ds.length).reverse ++ List.replicate 24 0)

end OfficialDepositContract

namespace DepositContract

variable {sha256 : Bytes → ℕ} {heights : List (Fin depositContractTreeDepth)} {h n : ℕ}
  {f g : ℕ → ℕ} {branch branch' : Fin depositContractTreeDepth → ℕ}

open OfficialDepositContract (hashPair)

theorem updateBranch_frontier (hheights : heights.map Fin.val = List.range' h heights.length)
    (hf : Frontier (hashPair sha256) f n branch) (hsame : ∀ j, j < n → f j = g j)
    (hdvd : 2 ^ h ∣ n + 1)
    (hok : updateBranch sha256 heights ((n + 1) / 2 ^ h)
      (node (hashPair sha256) g h ((n + 1) / 2 ^ h - 1)) branch = .ok branch') :
    Frontier (hashPair sha256) g (n + 1) branch' := by
  induction heights generalizing h with
  | nil => cases hok
  | cons height heights ih =>
    rw [List.length_cons, List.range'_succ, List.map_cons] at hheights
    obtain ⟨rfl, hrest⟩ := List.cons.inj hheights
    rw [updateBranch, Nat.and_one_is_mod] at hok
    by_cases hodd : (n + 1) / 2 ^ height.val % 2 = 1
    · rw [if_pos hodd] at hok
      cases hok
      exact hf.keep_last hsame hdvd hodd
    · rw [if_neg hodd] at hok
      have heven : (n + 1) / 2 ^ height.val % 2 = 0 := by omega
      have hnode := hf.combine_last hsame hdvd heven
      rw [hashPair] at hnode
      have hnext : 2 ^ (height.val + 1) ∣ n + 1 := by
        rw [pow_succ]
        exact Nat.mul_dvd_of_dvd_div hdvd (Nat.dvd_of_mod_eq_zero heven)
      refine ih hrest hnext ?_
      rw [← hnode, div_two_pow_succ]
      exact hok

theorem deposit_eq_ok {k k' : DepositContract} {d : DepositCall} (h : k.deposit sha256 d = .ok k') :
    WellFormed d ∧ computedRoot sha256 d = d.depositDataRoot ∧ k.depositCount < maxDepositCount ∧
      k'.depositCount = k.depositCount + 1 ∧
      updateBranch sha256 (List.finRange depositContractTreeDepth) (k.depositCount + 1)
        d.depositDataRoot k.branch = .ok k'.branch := by
  obtain ⟨hd, hroot, hroom⟩ := deposit_isOk_iff.mp ⟨k', h⟩
  simp only [deposit, bind_eq_ok, require_eq_ok, exists_const, pure_eq, Except.ok.injEq] at h
  obtain ⟨_, _, _, _, _, _, _, _, b, hb, rfl⟩ := h
  refine ⟨hd, hroot, hroom, rfl, ?_⟩
  rw [← hroot]
  exact hb

end DepositContract

namespace OfficialDepositContract

open DepositContract

variable {sha256 : Bytes → ℕ} {k k' : OfficialDepositContract} {ds : List DepositCall}
  {d : DepositCall}

theorem finRange_heights (n : ℕ) :
    (List.finRange n).map Fin.val = List.range' 0 (List.finRange n).length := by
  rw [List.length_finRange, ← List.range_eq_range', List.map_coe_finRange_eq_range]

theorem computeZeroHashes_apply {heights : List (Fin (depositContractTreeDepth - 1))}
    {zeroHashes : Fin depositContractTreeDepth → ℕ} {h : ℕ}
    (hheights : heights.map Fin.val = List.range' h heights.length)
    (hzero : ∀ j : Fin depositContractTreeDepth, j.val ≤ h →
      zeroHashes j = zeroNode (hashPair sha256) 0 j)
    {j : Fin depositContractTreeDepth} (hj : j.val ≤ h + heights.length) :
    computeZeroHashes sha256 heights zeroHashes j = zeroNode (hashPair sha256) 0 j := by
  induction heights generalizing h zeroHashes with
  | nil => exact hzero j hj
  | cons height heights ih =>
    rw [List.length_cons, List.range'_succ, List.map_cons] at hheights
    obtain ⟨rfl, hrest⟩ := List.cons.inj hheights
    rw [computeZeroHashes]
    refine ih hrest (fun i hi ↦ ?_) (by rw [List.length_cons] at hj; omega)
    by_cases heq : i = upper height
    · rw [heq, Function.update_self, hzero (lower height) le_rfl]
      rfl
    · rw [Function.update_of_ne heq]
      refine hzero i ?_
      have hne : i.val ≠ height.val + 1 := fun hval ↦ heq (Fin.ext hval)
      omega

theorem constructor_zeroHashes (sha256 : Bytes → ℕ) (h : Fin depositContractTreeDepth) :
    (constructor sha256).zeroHashes h = zeroNode (hashPair sha256) 0 h := by
  refine computeZeroHashes_apply (finRange_heights _) (fun j hj ↦ ?_) ?_
  · rw [Nat.le_zero.mp hj, zeroNode]
  · rw [List.length_finRange]
    have hlt := h.isLt
    unfold depositContractTreeDepth at hlt ⊢
    omega

/-- The leaves of the tree: the roots of the deposits, and zeros. -/
def leaves (ds : List DepositCall) (i : ℕ) : ℕ := (ds.map (·.depositDataRoot)).getD i 0

theorem leaves_append {j : ℕ} (hj : j < ds.length) (d : DepositCall) :
    leaves ds j = leaves (ds ++ [d]) j := by
  simp only [leaves, List.getD_eq_getElem?_getD, List.map_append]
  rw [List.getElem?_append_left]
  rwa [List.length_map]

theorem leaves_last (ds : List DepositCall) (d : DepositCall) :
    leaves (ds ++ [d]) ds.length = d.depositDataRoot := by
  simp [leaves]

theorem leaves_of_le {j : ℕ} (hj : ds.length ≤ j) : leaves ds j = 0 := by
  simp only [leaves, List.getD_eq_getElem?_getD]
  rw [List.getElem?_eq_none, Option.getD_none]
  rwa [List.length_map]

/-- The storage stands for this list of deposits. -/
structure Represents (sha256 : Bytes → ℕ) (k : OfficialDepositContract) (ds : List DepositCall) :
    Prop where
  depositCount : k.depositCount = ds.length
  length_le : ds.length ≤ maxDepositCount
  frontier : Frontier (hashPair sha256) (leaves ds) ds.length k.branch
  zeroHashes : ∀ h : Fin depositContractTreeDepth, k.zeroHashes h = zeroNode (hashPair sha256) 0 h
  wellFormed : ∀ d ∈ ds, WellFormed d ∧ computedRoot sha256 d = d.depositDataRoot

theorem Represents.constructor (sha256 : Bytes → ℕ) : Represents sha256 (constructor sha256) [] where
  depositCount := rfl
  length_le := Nat.zero_le _
  frontier := .zero_leaves _ _ _
  zeroHashes := constructor_zeroHashes sha256
  wellFormed _ h := absurd h List.not_mem_nil

theorem Represents.deposit (h : Represents sha256 k ds) (hok : k.deposit sha256 d = .ok k') :
    Represents sha256 k' (ds ++ [d]) := by
  obtain ⟨stored, hstored, heq⟩ := bind_eq_ok.mp hok
  cases heq
  obtain ⟨hd, hroot, hroom, hcount, hbranch⟩ := deposit_eq_ok hstored
  rw [h.depositCount] at hroom hcount hbranch
  constructor
  · rw [hcount, List.length_append, List.length_singleton]
  · rw [List.length_append, List.length_singleton]
    exact hroom
  · rw [List.length_append, List.length_singleton]
    refine updateBranch_frontier (h := 0) (finRange_heights _) h.frontier
      (fun j hj ↦ leaves_append hj d) (one_dvd _) ?_
    rw [pow_zero, Nat.div_one, Nat.add_sub_cancel, node, leaves_last]
    exact hbranch
  · exact h.zeroHashes
  · intro e he
    rcases List.mem_append.mp he with he | he
    · exact h.wellFormed e he
    · rw [List.mem_singleton.mp he]
      exact ⟨hd, hroot⟩

theorem Represents.of_reachable {s : OfficialDepositContract × List DepositCall}
    (h : Reachable (recorded sha256) s) : Represents sha256 s.1 s.2 := by
  refine h.invariant (P := fun s ↦ Represents sha256 s.1 s.2) ?_ ?_
  · intro p hinit
    obtain ⟨k, ds⟩ := p
    obtain ⟨rfl, rfl⟩ := hinit
    exact .constructor sha256
  · intro s d t _ hs hstep
    obtain ⟨hok, hds⟩ := observed_step.mp hstep
    rw [← hds]
    exact hs.deposit hok

theorem climbToRoot_eq (hk : Represents sha256 k ds)
    {heights : List (Fin depositContractTreeDepth)} {h : ℕ}
    (hheights : heights.map Fin.val = List.range' h heights.length) :
    climbToRoot sha256 k heights (ds.length / 2 ^ h)
        (node (hashPair sha256) (leaves ds) h (ds.length / 2 ^ h)) =
      node (hashPair sha256) (leaves ds) (h + heights.length)
        (ds.length / 2 ^ (h + heights.length)) := by
  induction heights generalizing h with
  | nil => rw [climbToRoot, List.length_nil, Nat.add_zero]
  | cons height heights ih =>
    rw [List.length_cons, List.range'_succ, List.map_cons] at hheights
    obtain ⟨rfl, hrest⟩ := List.cons.inj hheights
    have hrec := ih hrest
    rw [Nat.add_assoc, Nat.add_comm 1] at hrec
    rw [climbToRoot, Nat.and_one_is_mod, List.length_cons, ← hrec, div_two_pow_succ,
      ← div_two_pow_succ]
    by_cases hodd : ds.length / 2 ^ height.val % 2 = 1
    · rw [if_pos hodd, ← hk.frontier.climb_odd hodd]
      rfl
    · rw [if_neg hodd, hk.zeroHashes,
        ← climb_even (fun _ hj ↦ leaves_of_le hj) (show ds.length / 2 ^ height.val % 2 = 0 by omega)]
      rfl

theorem Represents.getDepositRoot (h : Represents sha256 k ds) :
    k.getDepositRoot sha256 = committedRoot sha256 ds := by
  have hlt : ds.length < 2 ^ 32 := by
    have hle := h.length_le
    unfold maxDepositCount depositContractTreeDepth at hle
    omega
  have hclimb := climbToRoot_eq h (h := 0) (finRange_heights depositContractTreeDepth)
  have hdepth : 0 + (List.finRange depositContractTreeDepth).length = 32 := by
    rw [List.length_finRange]
    rfl
  have hleaf : node (hashPair sha256) (leaves ds) 0 ds.length = 0 := by
    rw [node, leaves_of_le le_rfl]
  rw [pow_zero, Nat.div_one, hleaf, hdepth, Nat.div_eq_of_lt hlt] at hclimb
  rw [OfficialDepositContract.getDepositRoot, h.depositCount, hclimb, toLittleEndian64_eq,
    Nat.mod_eq_of_lt (hlt.trans (by norm_num))]
  rfl

theorem deposit_isOk_iff : (∃ k', k.deposit sha256 d = .ok k') ↔
    WellFormed d ∧ computedRoot sha256 d = d.depositDataRoot ∧
      k.depositCount < maxDepositCount := by
  rw [← DepositContract.deposit_isOk_iff]
  constructor
  · intro h
    obtain ⟨k', hk'⟩ := h
    obtain ⟨stored, hstored, _⟩ := bind_eq_ok.mp hk'
    exact ⟨stored, hstored⟩
  · intro h
    obtain ⟨stored, hstored⟩ := h
    exact ⟨_, bind_eq_ok.mpr ⟨stored, hstored, rfl⟩⟩

theorem deposit_avoids (sha256 : Bytes → ℕ) (k : OfficialDepositContract) (d : DepositCall) :
    Avoids (fun e ↦ ∃ site, e = .assertion site) (k.deposit sha256 d) := by
  simp only [OfficialDepositContract.deposit, DepositContract.deposit, avoids_bind, avoids_require,
    pure_eq, avoids_ok, implies_true, and_true, reduceCtorEq, exists_false, not_false_eq_true,
    true_and]
  intro _ _ _ _ _ _ _ _ _ _ _ _ _ _ _ hroom
  obtain ⟨b, hb⟩ : ∃ b, updateBranch sha256 (List.finRange depositContractTreeDepth)
      (k.depositCount + 1) (computedRoot sha256 d) k.branch = .ok b := by
    refine updateBranch_isOk sha256 _ _ (Nat.succ_pos k.depositCount) ?_
    rw [List.length_finRange]
    have hlt := require_eq_ok.mp hroom
    unfold maxDepositCount at hlt
    omega
  exact hb ▸ avoids_ok b

/-- However deposits are made, the contract answers the root of the Merkle tree over all of
them, and turns no sound deposit down before there are `2 ^ 32 - 1`. -/
theorem deposit_root_is_merkle_root (h : Reachable (recorded sha256) (k, ds)) :
    k.getDepositRoot sha256 = committedRoot sha256 ds ∧
    k.getDepositCount = (toBytes 8 ds.length).reverse ∧
    ∀ d, ((∃ k', k.deposit sha256 d = .ok k') ↔
        WellFormed d ∧ computedRoot sha256 d = d.depositDataRoot ∧ ds.length < 2 ^ 32 - 1) ∧
      ∀ site, k.deposit sha256 d ≠ .error (.assertion site) := by
  have hk : Represents sha256 k ds := .of_reachable h
  refine ⟨hk.getDepositRoot, ?_, fun d ↦ ⟨?_, fun site hsite ↦ ?_⟩⟩
  · have hle := hk.length_le
    unfold maxDepositCount depositContractTreeDepth at hle
    rw [getDepositCount, hk.depositCount, toLittleEndian64_eq, Nat.mod_eq_of_lt (by omega)]
  · rw [deposit_isOk_iff, hk.depositCount]
    rfl
  · exact deposit_avoids sha256 k d _ hsite ⟨site, rfl⟩

namespace Sample

def deposit : DepositCall where
  value := 32 * 10 ^ 18
  pubkey := List.replicate 48 1
  withdrawalCredentials := List.replicate 32 3
  signature := List.replicate 96 2
  depositDataRoot := 64

theorem reachable_single {sha256 : Bytes → ℕ} {d : DepositCall} (hd : WellFormed d)
    (hroot : computedRoot sha256 d = d.depositDataRoot) :
    ∃ k, Reachable (recorded sha256) (k, [d]) := by
  obtain ⟨k, hk⟩ := (deposit_isOk_iff (k := constructor sha256)).mpr
    ⟨hd, hroot, Nat.pos_of_ne_zero (by decide)⟩
  have hinit : Reachable (recorded sha256) (constructor sha256, []) := .initial ⟨rfl, rfl⟩
  exact ⟨k, hinit.step (i := d) (observed_step.mpr ⟨hk, rfl⟩)⟩

theorem deposit_wellFormed : WellFormed deposit := by
  constructor
  all_goals decide

theorem deposit_root_is_merkle_root_of_one : ∃ k,
    Reachable (recorded List.length) (k, [deposit]) ∧
    k.getDepositRoot List.length = committedRoot List.length [deposit] := by
  have hroot : computedRoot List.length deposit = deposit.depositDataRoot := by
    simp [computedRoot, depositDataNode, deposit]
  obtain ⟨k, hk⟩ := reachable_single deposit_wellFormed hroot
  exact ⟨k, hk, (deposit_root_is_merkle_root hk).1⟩

end Sample

end OfficialDepositContract

end LidoDao
