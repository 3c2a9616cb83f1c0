import LidoDao.RegistrySystem

namespace LidoDao

open Evm Library.Outcome Library.ByteWords Library.Transition Library.Positions NodeOperatorsRegistry

namespace NodeOperatorsRegistry

variable {L : SigningKeyLayout} {lido : Address} {r r' : NodeOperatorsRegistry}
  {o id index amount : ℕ}

section Effects

def withoutKeys (index amount : ℕ) (o : NodeOperator) : NodeOperator :=
  { o with
    totalSigningKeys := o.totalSigningKeys - amount
    stakingLimit := min o.stakingLimit index }

theorem withoutKey_eq (h : index < 2 ^ 64) : withoutKey index = withoutKeys index 1 := by
  funext o
  simp only [withoutKey, withoutKeys, Nat.mod_eq_of_lt h]
  congr 1
  split <;> omega

theorem withoutKeys_withoutKeys (o : NodeOperator) :
    withoutKeys index (amount + 1) (withoutKeys (index + (amount + 1)) 1 o) =
      withoutKeys index (amount + 2) o := by
  simp only [withoutKeys]
  congr 1 <;> omega

theorem removeKeys_record (htotal : (r.operators o).totalSigningKeys < 2 ^ 64)
    (h : removeKeys L o index (amount + 1) r = .ok r') :
    ∃ slots, r' = { r.setOperator o (withoutKeys index (amount + 1)) with
      slots, keysOpIndex := r.keysOpIndex + (amount + 1) } := by
  induction amount generalizing r with
  | zero =>
    obtain ⟨r₁, hr₁, h⟩ := bind_eq_ok.mp h
    cases h
    obtain ⟨_, hlt, _⟩ := _removeSigningKey_ok hr₁
    obtain ⟨slots, rfl⟩ := removeSigningKey_record hr₁
    exact ⟨slots, by rw [withoutKey_eq (hlt.trans htotal)]; rfl⟩
  | succ amount ih =>
    obtain ⟨r₁, hr₁, h⟩ := bind_eq_ok.mp h
    obtain ⟨_, hlt, _⟩ := _removeSigningKey_ok hr₁
    obtain ⟨slots₁, heq⟩ := removeSigningKey_record hr₁
    rw [withoutKey_eq (hlt.trans htotal)] at heq
    have hleft : (r₁.operators o).totalSigningKeys < 2 ^ 64 := by
      rw [heq, setOperator_self]
      exact (Nat.sub_le _ _).trans_lt htotal
    obtain ⟨slots, rfl⟩ := ih hleft h
    refine ⟨slots, ?_⟩
    rw [heq]
    simp only [setOperator, Function.update_self, Function.update_idem, withoutKeys_withoutKeys]
    congr 1
    omega

end Effects

section Acceptance

theorem _removeSigningKey_isOk (hid : o < r.totalOperatorsCount)
    (hused : (r.operators o).usedSigningKeys ≤ index)
    (hindex : index < (r.operators o).totalSigningKeys) :
    ∃ r', _removeSigningKey L r o index = .ok r' := by
  have hlast : (SafeMath64.sub (r.operators o).totalSigningKeys 1) =
      .ok ((r.operators o).totalSigningKeys - 1) :=
    SafeMath64.sub_eq_ok.mpr ⟨by omega, rfl⟩
  have hsame : (r._increaseKeysOpIndex.operators o).totalSigningKeys =
      (r.operators o).totalSigningKeys := rfl
  simp only [_removeSigningKey, operatorExists, require_of hid, require_of hindex,
    require_of hused, hsame, hlast, ok_bind]
  split
  · obtain ⟨hkey, hsignature⟩ := length_loadSigningKey (L := L) (r := r._increaseKeysOpIndex) o
      ((r.operators o).totalSigningKeys - 1)
    rw [_storeSigningKey_eq_ok.mpr ⟨hkey, hsignature, rfl⟩, ok_bind]
    have hstored (slots : ℕ → ℕ) (i : ℕ) : ((_deleteSigningKey L
        { r._increaseKeysOpIndex with slots } o i).operators o).totalSigningKeys =
          (r.operators o).totalSigningKeys := rfl
    rw [hstored, hlast, ok_bind]
    exact ⟨_, rfl⟩
  · rw [pure_eq, ok_bind]
    have hkept (i : ℕ) : ((_deleteSigningKey L r._increaseKeysOpIndex o i).operators
        o).totalSigningKeys = (r.operators o).totalSigningKeys := rfl
    rw [hkept, hlast, ok_bind]
    exact ⟨_, rfl⟩

theorem removeKeys_isOk (hid : o < r.totalOperatorsCount)
    (hused : (r.operators o).usedSigningKeys ≤ index)
    (htotal : index + amount ≤ (r.operators o).totalSigningKeys) :
    ∃ r', removeKeys L o index amount r = .ok r' := by
  induction amount generalizing r with
  | zero => exact ⟨r, rfl⟩
  | succ amount ih =>
    have hunused : (r.operators o).usedSigningKeys ≤ index + amount :=
      hused.trans (Nat.le_add_right _ _)
    have hlt : index + amount < (r.operators o).totalSigningKeys := htotal
    obtain ⟨r₁, hr₁⟩ := _removeSigningKey_isOk (L := L) hid hunused hlt
    obtain ⟨_, heq⟩ := removeSigningKey_record hr₁
    have hcount : r₁.totalOperatorsCount = r.totalOperatorsCount := removeSigningKey_count hr₁
    have hleft : (r₁.operators o).totalSigningKeys = (r.operators o).totalSigningKeys - 1 := by
      rw [heq, setOperator_self]
      rfl
    obtain ⟨r', hr'⟩ := ih (r := r₁) (by omega) (by rw [removeSigningKey_used hr₁]; exact hused)
      (by omega)
    exact ⟨r', bind_eq_ok.mpr ⟨r₁, hr₁, hr'⟩⟩

theorem _removeSigningKeys_isOk_iff (hs : Sane lido r) (hpos : 0 < amount) :
    (∃ r', _removeSigningKeys L r o index amount = .ok r') ↔ o < r.totalOperatorsCount ∧
      (r.operators o).usedSigningKeys ≤ index ∧
      index + amount ≤ (r.operators o).totalSigningKeys := by
  constructor
  · intro h
    obtain ⟨r', hr'⟩ := h
    obtain ⟨_, _, hr'⟩ := bind_eq_ok.mp hr'
    have hbounds := removeKeys_bounds hr'
    obtain ⟨hlast, _⟩ := hbounds (amount - 1) (by omega)
    refine ⟨?_, (hbounds 0 hpos).2, by omega⟩
    obtain ⟨n, rfl⟩ : ∃ n, amount = n + 1 := ⟨amount - 1, by omega⟩
    obtain ⟨r₁, hr₁, _⟩ := bind_eq_ok.mp hr'
    exact (_removeSigningKey_ok hr₁).1
  · intro h
    obtain ⟨hid, hused, htotal⟩ := h
    obtain ⟨r', hr'⟩ := removeKeys_isOk (L := L) hid hused htotal
    have hword : index + amount < wordLimit := by
      have hlt := (hs.valid o).total
      rw [wordLimit]
      omega
    exact ⟨r', bind_eq_ok.mpr ⟨_, SafeMath.add_eq_ok.mpr ⟨hword, rfl⟩, hr'⟩⟩

end Acceptance

/-- A call that may take keys of an operator out of a range of positions. -/
def BulkRemoval (r : NodeOperatorsRegistry) (c : Call Role) (id index amount : ℕ) (m : Message) :
    Prop :=
  m = .removeSigningKeys id index amount ∧ c.canPerform .manageSigningKeys [id] = true ∨
    m = .removeSigningKeysOperatorBH id index amount ∧
      c.sender = (r.operators id).rewardAddress

theorem BulkRemoval.step_eq {c : Call Role} {m : Message} (h : BulkRemoval r c id index amount m) :
    (registrySystem L lido).step r (c, m) = _removeSigningKeys L r id index amount := by
  rcases h with ⟨rfl, hc⟩ | ⟨rfl, hc⟩
  · simp only [registrySystem, handle, Call.auth, require_of hc, ok_bind]
  · simp only [registrySystem, handle, operatorOnly, require_of hc, ok_bind]

section Reading

theorem getSigningKey_eq_of_keys {i j : ℕ} (hcount : r'.totalOperatorsCount = r.totalOperatorsCount)
    (hkeys : (keys L r' o)[i]? = (keys L r o)[j]?)
    (hused : i < (r'.operators o).usedSigningKeys ↔ j < (r.operators o).usedSigningKeys) :
    getSigningKey L r' o i = getSigningKey L r o j := by
  have hread (s : NodeOperatorsRegistry) (k : ℕ) : getSigningKey L s o k = (do
      operatorExists s o
      match (keys L s o)[k]? with
      | some key => pure (key, decide (k < (s.operators o).usedSigningKeys))
      | none => .error (.reason "KEY_NOT_FOUND")) := by
    by_cases hk : k < (s.operators o).totalSigningKeys
    · have hk' : k < (keys L s o).length := by rwa [length_keys]
      rw [List.getElem?_eq_getElem hk', getElem_keys]
      simp only [getSigningKey, require_of hk, ok_bind]
    · have hk' : (keys L s o).length ≤ k := by
        rw [length_keys]
        exact Nat.le_of_not_lt hk
      rw [List.getElem?_eq_none hk']
      simp only [getSigningKey, require, if_neg hk]
      rfl
  simp only [hread, operatorExists, hcount, hkeys, hused]

end Reading

/-- A removal of a range of keys is accepted exactly where the range lies among the unused
keys. It takes out these keys and no others: those in front of the range stay where they
are, those behind it fill its places. -/
theorem bulk_removal_is_exact (h : Reachable (registrySystem L lido) r) {c : Call Role}
    {m : Message} (hm : BulkRemoval r c id index amount m) (hpos : 0 < amount) :
    ((∃ r', (registrySystem L lido).step r (c, m) = .ok r') ↔ id < r.totalOperatorsCount ∧
      (r.operators id).usedSigningKeys ≤ index ∧
      index + amount ≤ (r.operators id).totalSigningKeys) ∧
    ∀ r', (registrySystem L lido).step r (c, m) = .ok r' →
      (∀ i < index, getSigningKey L r' id i = getSigningKey L r id i) ∧
      (∃ σ : ℕ → ℕ, Set.BijOn σ (Set.Ico index ((r.operators id).totalSigningKeys - amount))
          (Set.Ico (index + amount) (r.operators id).totalSigningKeys) ∧
        ∀ i ∈ Set.Ico index ((r.operators id).totalSigningKeys - amount),
          getSigningKey L r' id i = getSigningKey L r id (σ i)) ∧
      r'.operators id = { r.operators id with
        totalSigningKeys := (r.operators id).totalSigningKeys - amount
        stakingLimit := min (r.operators id).stakingLimit index } ∧
      r'.keysOpIndex = r.keysOpIndex + amount ∧
      ∀ o ≠ id, r'.operators o = r.operators o ∧
        ∀ i, getSigningKey L r' o i = getSigningKey L r o i := by
  have hs := sane h
  rw [hm.step_eq]
  refine ⟨_removeSigningKeys_isOk_iff hs hpos, fun r' hr' ↦ ?_⟩
  obtain ⟨_, hused, hrange⟩ := (_removeSigningKeys_isOk_iff hs hpos).mp ⟨r', hr'⟩
  obtain ⟨_, _, hr'⟩ := bind_eq_ok.mp hr'
  obtain ⟨husedEq, hcount, hkeys, hothers⟩ := removeKeys_ok hs hr'
  obtain ⟨n, rfl⟩ : ∃ n, amount = n + 1 := ⟨amount - 1, by omega⟩
  obtain ⟨slots, hrecord⟩ := removeKeys_record (hs.valid id).total hr'
  have hmoved (i : ℕ) (hi : i < (r.operators id).totalSigningKeys - (n + 1)) :
      (keys L r' id)[i]? =
        (keys L r id)[movedFrom index (n + 1) (r.operators id).totalSigningKeys i]? := by
    obtain ⟨hlt, _⟩ := (nodup_swapRemoves hrange).2 _ (movedFrom_mem hrange hi)
    rw [hkeys, keys, getElem?_swapRemoves hrange _ hi, List.getElem?_map,
      List.getElem?_range hlt]
    rfl
  refine ⟨fun i hi ↦ ?_, ⟨movedFrom index (n + 1) (r.operators id).totalSigningKeys,
    bijOn_movedFrom hrange, fun i hi ↦ ?_⟩, ?_, ?_, fun o ho ↦ ⟨?_, fun i ↦ ?_⟩⟩
  · refine getSigningKey_eq_of_keys hcount ?_ (by rw [husedEq])
    rw [hmoved i (by omega), movedFrom_of_lt hrange hi]
  · obtain ⟨hlow, _⟩ := (bijOn_movedFrom hrange).mapsTo hi
    obtain ⟨hle, hlt⟩ := hi
    apply getSigningKey_eq_of_keys hcount (hmoved i hlt)
    rw [husedEq]
    omega
  · rw [hrecord]
    exact setOperator_self ..
  · rw [hrecord]
  · rw [hrecord]
    exact setOperator_of_ne ho
  · exact getSigningKey_eq_of_keys hcount (by rw [hothers o ho]) (by rw [husedEq])

end NodeOperatorsRegistry

namespace Sample

def fourKeys : List (Call Role × Message) := [
  send 5 (.addNodeOperator "first" 11),
  send 5 (.setNodeOperatorStakingLimit 0 3),
  send 5 (.addSigningKeys 0 4
    (List.replicate 48 1 ++ List.replicate 48 2 ++ List.replicate 48 3 ++ List.replicate 48 4)
    (List.replicate 384 5))]

/-- Two of four keys are removed, and the last one takes the place of the first of them. -/
theorem last_key_fills_the_gap : ∃ r r', Reachable (registrySystem layout 1) r ∧
    (registrySystem layout 1).step r (send 11 (.removeSigningKeysOperatorBH 0 1 2)) = .ok r' ∧
    getSigningKey layout r' 0 1 = getSigningKey layout r 0 3 ∧
    (r'.operators 0).stakingLimit = 1 := by
  have hrun : reaches (registrySystem layout 1) (initializeRegistry 1) fourKeys
      (fun r ↦ decide (r.totalOperatorsCount = 1 ∧ (r.operators 0).usedSigningKeys = 0 ∧
        (r.operators 0).totalSigningKeys = 4 ∧ (r.operators 0).stakingLimit = 3 ∧
        (r.operators 0).rewardAddress = 11)) = true := by
    decide +kernel
  obtain ⟨r, h, hp⟩ := registry_of_run hrun
  obtain ⟨hcount, hused, htotal, hlimit, haddress⟩ := of_decide_eq_true hp
  have hremoval : BulkRemoval r (send 11 .trimUnusedKeys).1 0 1 2
      (.removeSigningKeysOperatorBH 0 1 2) := .inr ⟨rfl, haddress.symm⟩
  obtain ⟨haccepted, heffect⟩ := bulk_removal_is_exact h hremoval (by decide)
  obtain ⟨r', hr'⟩ := haccepted.mpr (by rw [hcount, hused, htotal]; decide)
  obtain ⟨_, ⟨σ, hσ, hkeys⟩, hrecord, _⟩ := heffect r' hr'
  rw [htotal] at hσ hkeys
  have hmem : 1 ∈ Set.Ico 1 (4 - 2) := ⟨le_rfl, by decide⟩
  obtain ⟨hlow, hhigh⟩ := hσ.mapsTo hmem
  have hthree : σ 1 = 3 := by omega
  refine ⟨r, r', h, hr', ?_, ?_⟩
  · rw [hkeys 1 hmem, hthree]
  · rw [hrecord, hlimit]
    rfl

end Sample

end LidoDao
