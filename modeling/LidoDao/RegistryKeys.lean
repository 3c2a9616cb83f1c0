import LidoDao.RegistryInvariant

namespace LidoDao.NodeOperatorsRegistry

open Evm Library.Outcome Library.ByteWords Library.Positions

variable {L : SigningKeyLayout} {r r' : NodeOperatorsRegistry} {lido : Address} {o o' i i' : ℕ}

/-- The signing keys of an operator, in their order. -/
def keys (L : SigningKeyLayout) (r : NodeOperatorsRegistry) (o : ℕ) : List (Bytes × Bytes) :=
  (List.range (r.operators o).totalSigningKeys).map (_loadSigningKey L r o)

@[simp] theorem length_keys : (keys L r o).length = (r.operators o).totalSigningKeys := by
  simp [keys]

theorem getElem_keys (h : i < (keys L r o).length) : (keys L r o)[i] = _loadSigningKey L r o i := by
  simp [keys]

theorem keys_congr
    (htotal : (r'.operators o).totalSigningKeys = (r.operators o).totalSigningKeys)
    (hload : ∀ i < (r.operators o).totalSigningKeys,
      _loadSigningKey L r' o i = _loadSigningKey L r o i) : keys L r' o = keys L r o := by
  rw [keys, htotal]
  exact List.map_congr_left fun i hi ↦ hload i (List.mem_range.mp hi)

theorem keys_of_slots_eq
    (htotal : (r'.operators o).totalSigningKeys = (r.operators o).totalSigningKeys)
    (hslots : r'.slots = r.slots) : keys L r' o = keys L r o :=
  keys_congr htotal fun _ _ ↦ _loadSigningKey_of_slots_eq hslots

theorem keys_setOperator {id : ℕ} {f : NodeOperator → NodeOperator}
    (h : (f (r.operators id)).totalSigningKeys = (r.operators id).totalSigningKeys) :
    keys L (r.setOperator id f) o = keys L r o := by
  refine keys_of_slots_eq ?_ rfl
  by_cases ho : o = id
  · subst ho
    rw [setOperator_self, h]
  · rw [setOperator_of_ne ho]

theorem keys_trimAll (h : Sane lido r) :
    keys L r.trimAll o = (keys L r o).take (r.operators o).usedSigningKeys := by
  rcases Nat.lt_or_ge o r.totalOperatorsCount with ho | ho
  · rw [keys, trimAll_operators_of_lt ho, keys, ← List.map_take, List.take_range,
      Nat.min_eq_left (h.valid o).used]
    exact List.map_congr_left fun i _ ↦ _loadSigningKey_of_slots_eq rfl
  · have hnone := (h.unused o ho).2
    rw [keys, trimAll_operators_of_le ho, keys, hnone]
    simp

section Add

def suppliedKeys (pubkeys signatures : Bytes) (quantity : ℕ) : List (Bytes × Bytes) :=
  (List.range quantity).map fun k ↦
    (slice pubkeys (k * pubkeyLength) pubkeyLength,
      slice signatures (k * signatureLength) signatureLength)

variable {pubkeys signatures : Bytes} {n : ℕ}

theorem storeKeys_record {is : List ℕ} (h : storeKeys L o n pubkeys signatures is r = .ok r') :
    r' = { r with slots := r'.slots } := by
  induction is generalizing r with
  | nil =>
    cases h
    rfl
  | cons a is ih =>
    simp only [storeKeys, bind_eq_ok, bytesSlice_eq_ok, require_eq_ok, exists_const] at h
    obtain ⟨_, ⟨_, rfl⟩, _, _, _, _, ⟨_, rfl⟩, r₁, hstore, h⟩ := h
    obtain ⟨_, _, rfl⟩ := _storeSigningKey_eq_ok.mp hstore
    have hlast := ih h
    exact hlast

theorem storeKeys_load {is : List ℕ} (his : is.Nodup) (hplaces : ∀ i ∈ is, KeyPlace o (n + i))
    (h : storeKeys L o n pubkeys signatures is r = .ok r') :
    (∀ i ∈ is, _loadSigningKey L r' o (n + i) =
      (slice pubkeys (i * pubkeyLength) pubkeyLength,
        slice signatures (i * signatureLength) signatureLength)) ∧
    ∀ o' i', KeyPlace o' i' → (∀ i ∈ is, ¬(o' = o ∧ i' = n + i)) →
      _loadSigningKey L r' o' i' = _loadSigningKey L r o' i' := by
  induction is generalizing r with
  | nil =>
    cases h
    exact ⟨by simp, fun _ _ _ _ ↦ rfl⟩
  | cons a is ih =>
    obtain ⟨ha, his⟩ := List.nodup_cons.mp his
    obtain ⟨hplace, hplaces⟩ := List.forall_mem_cons.mp hplaces
    simp only [storeKeys, bind_eq_ok, bytesSlice_eq_ok, require_eq_ok, exists_const] at h
    obtain ⟨_, ⟨_, rfl⟩, _, _, _, _, ⟨_, rfl⟩, r₁, hstore, h⟩ := h
    obtain ⟨hload, hothers⟩ := ih his hplaces h
    refine ⟨?_, ?_⟩
    · intro i hi
      rcases List.mem_cons.mp hi with rfl | hi
      · rw [hothers o (n + i) hplace, load_store_same hstore]
        intro j hj heq
        have hij : i = j := Nat.add_left_cancel heq.2
        exact ha (hij ▸ hj)
      · exact hload i hi
    · intro o' i' hplace' hne
      rw [hothers o' i' hplace' fun i hi ↦ hne i (by simp [hi])]
      exact load_store_other hstore hplace hplace' (hne a (by simp))

theorem _addSigningKeys_ok {quantity : ℕ}
    (h : _addSigningKeys L r o quantity pubkeys signatures = .ok r') :
    o < r.totalOperatorsCount ∧ (r.operators o).totalSigningKeys + quantity < 2 ^ 64 ∧
    pubkeys.length = quantity * pubkeyLength ∧ signatures.length = quantity * signatureLength ∧
    ∃ slots, r' = ({ r._increaseKeysOpIndex with slots }).setOperator o (fun op ↦
        { op with totalSigningKeys := (r.operators o).totalSigningKeys + quantity }) ∧
      storeKeys L o (r.operators o).totalSigningKeys pubkeys signatures (List.range quantity)
        r._increaseKeysOpIndex = .ok { r._increaseKeysOpIndex with slots } := by
  simp only [_addSigningKeys, operatorExists, to64, bind_eq_ok, require_eq_ok, exists_const,
    SafeMath.mul_eq_ok, SafeMath64.add_eq_ok, pure_eq, Except.ok.injEq] at h
  obtain ⟨ho, _, _, ⟨_, rfl⟩, hpub, _, ⟨_, rfl⟩, hsig, r₁, hstore, _, ⟨_, rfl⟩, _, ⟨hlt, rfl⟩,
    rfl⟩ := h
  have hfields := storeKeys_record hstore
  have hoperators : r₁.operators = r.operators := by rw [hfields]; rfl
  rw [hoperators] at hlt ⊢
  refine ⟨ho, hlt, hpub, hsig, r₁.slots, ?_, ?_⟩
  · rw [hfields]
  · rw [← hfields]
    exact hstore

theorem Sane.keyPlace (h : Sane lido r) (hi : i < (r.operators o).totalSigningKeys) :
    KeyPlace o i := by
  have ho : o < r.totalOperatorsCount := by
    by_contra hge
    have hnone := (h.unused o (Nat.le_of_not_lt hge)).2
    omega
  exact ⟨ho.trans_le h.count_le, hi.trans (h.valid o).total⟩

theorem keys_addSigningKeys {quantity : ℕ} (hs : Sane lido r)
    (h : _addSigningKeys L r o quantity pubkeys signatures = .ok r') :
    keys L r' o = keys L r o ++ suppliedKeys pubkeys signatures quantity ∧
    ∀ o', o' ≠ o → keys L r' o' = keys L r o' := by
  obtain ⟨ho, hlt, _, _, slots, rfl, hstore⟩ := _addSigningKeys_ok h
  have hplaces : ∀ i ∈ List.range quantity, KeyPlace o ((r.operators o).totalSigningKeys + i) := by
    intro i hi
    have hi' := List.mem_range.mp hi
    exact ⟨ho.trans_le hs.count_le, by omega⟩
  obtain ⟨hload, hothers⟩ := storeKeys_load List.nodup_range hplaces hstore
  refine ⟨?_, ?_⟩
  · rw [keys, setOperator_self]
    dsimp only
    rw [List.range_add, List.map_append, List.map_map]
    refine congrArg₂ _ ?_ ?_
    · refine List.map_congr_left fun i hi ↦ ?_
      have hi' : i < (r.operators o).totalSigningKeys := List.mem_range.mp hi
      refine (hothers o i (hs.keyPlace hi') ?_).trans (_loadSigningKey_of_slots_eq rfl)
      intro j _ heq
      omega
    · exact List.map_congr_left fun i hi ↦ hload i hi
  · intro o' ho'
    refine keys_congr ?_ fun i hi ↦ ?_
    · rw [setOperator_of_ne ho']
      rfl
    · exact (hothers o' i (hs.keyPlace hi) fun _ _ heq ↦ ho' heq.1).trans
        (_loadSigningKey_of_slots_eq rfl)

end Add

section Remove

variable {index : ℕ}

/-- An operator after the removal of a key: approvals from its position on lapse. -/
def withoutKey (index : ℕ) (o : NodeOperator) : NodeOperator :=
  { o with
    totalSigningKeys := o.totalSigningKeys - 1
    stakingLimit := if index < o.stakingLimit then index % 2 ^ 64 else o.stakingLimit }

theorem _removeSigningKey_ok (h : _removeSigningKey L r o index = .ok r') :
    o < r.totalOperatorsCount ∧ index < (r.operators o).totalSigningKeys ∧
    (r.operators o).usedSigningKeys ≤ index ∧
    ∃ r₁, r' = (_deleteSigningKey L r₁ o ((r.operators o).totalSigningKeys - 1)).setOperator o
        (withoutKey index) ∧ r₁ = { r._increaseKeysOpIndex with slots := r₁.slots } ∧
      (index < (r.operators o).totalSigningKeys - 1 →
        _storeSigningKey L r._increaseKeysOpIndex o index
          (_loadSigningKey L r o ((r.operators o).totalSigningKeys - 1)).1
          (_loadSigningKey L r o ((r.operators o).totalSigningKeys - 1)).2 = .ok r₁) ∧
      (¬index < (r.operators o).totalSigningKeys - 1 → r₁ = r._increaseKeysOpIndex) := by
  simp only [_removeSigningKey, operatorExists, bind_eq_ok, require_eq_ok, exists_const,
    SafeMath64.sub_eq_ok] at h
  obtain ⟨ho, hindex, hused, _, ⟨_, rfl⟩, h⟩ := h
  refine ⟨ho, hindex, hused, ?_⟩
  have hincreased : (r._increaseKeysOpIndex.operators o).totalSigningKeys =
      (r.operators o).totalSigningKeys := rfl
  rw [hincreased] at h
  split at h
  · rename_i hlt
    simp only [bind_eq_ok, SafeMath64.sub_eq_ok, pure_eq, Except.ok.injEq] at h
    obtain ⟨r₁, hstore, _, ⟨_, rfl⟩, rfl⟩ := h
    have hfields := (_storeSigningKey_eq_ok.mp hstore).2.2
    have hoperators : (_deleteSigningKey L r₁ o ((r.operators o).totalSigningKeys - 1)).operators =
        r.operators := by
      rw [hfields]
      rfl
    refine ⟨r₁, ?_, ?_, fun _ ↦ hstore, fun hge ↦ absurd hlt hge⟩
    · simp only [setOperator, hoperators, withoutKey]
    · rw [hfields]
  · rename_i hge
    simp only [bind_eq_ok, SafeMath64.sub_eq_ok, pure_eq, Except.ok.injEq] at h
    obtain ⟨_, rfl, _, ⟨_, rfl⟩, rfl⟩ := h
    exact ⟨r._increaseKeysOpIndex, rfl, rfl, fun hlt ↦ absurd hlt hge, fun _ ↦ rfl⟩

theorem removeSigningKey_record (h : _removeSigningKey L r o index = .ok r') :
    ∃ slots, r' = { r.setOperator o (withoutKey index) with
      slots, keysOpIndex := r.keysOpIndex + 1 } := by
  obtain ⟨_, _, _, r₁, rfl, hfields, _⟩ := _removeSigningKey_ok h
  refine ⟨(_deleteSigningKey L r₁ o ((r.operators o).totalSigningKeys - 1)).slots, ?_⟩
  rw [hfields]
  rfl

theorem keys_removeSigningKey (hs : Sane lido r) (h : _removeSigningKey L r o index = .ok r') :
    keys L r' o = swapRemove (keys L r o) index := by
  obtain ⟨ho, hindex, hused, r₁, rfl, hfields, hstore, hlast⟩ := _removeSigningKey_ok h
  obtain ⟨n, hn⟩ : ∃ n, (r.operators o).totalSigningKeys = n + 1 :=
    ⟨(r.operators o).totalSigningKeys - 1, by omega⟩
  have hplace {i : ℕ} (hi : i ≤ n) : KeyPlace o i := hs.keyPlace (by omega)
  rw [hn, Nat.add_sub_cancel] at hstore hlast ⊢
  have hold : keys L r o = (List.range n).map (_loadSigningKey L r o) ++
      [_loadSigningKey L r o n] := by
    rw [keys, hn, List.range_succ, List.map_append, List.map_singleton]
  have hoperators : (_deleteSigningKey L r₁ o n).operators = r.operators := by
    rw [hfields]
    rfl
  have hnew : keys L ((_deleteSigningKey L r₁ o n).setOperator o (withoutKey index)) o =
      (List.range n).map (_loadSigningKey L r₁ o) := by
    rw [keys, setOperator_self, hoperators]
    simp only [withoutKey, hn, Nat.add_sub_cancel]
    refine List.map_congr_left fun i hi ↦ ?_
    have hi' : i < n := List.mem_range.mp hi
    refine (_loadSigningKey_of_slots_eq (r := _deleteSigningKey L r₁ o n) rfl).trans ?_
    exact load_delete_other (hplace le_rfl) (hplace hi'.le) fun heq ↦ by omega
  rw [hnew, hold]
  by_cases hlt : index < n
  · rw [swapRemove_concat_of_lt (by simpa using hlt)]
    have hstore' := hstore hlt
    refine List.ext_getElem (by simp) fun i hi _ ↦ ?_
    have hi' : i < n := by simpa using hi
    rw [List.getElem_set, List.getElem_map, List.getElem_range, List.getElem_map,
      List.getElem_range]
    split
    · rename_i heq
      subst heq
      exact load_store_same hstore'
    · rename_i hne
      refine (load_store_other hstore' (hplace hlt.le) (hplace hi'.le)
        fun heq ↦ hne heq.2.symm).trans ?_
      exact _loadSigningKey_of_slots_eq rfl
  · have hindex' : index = ((List.range n).map (_loadSigningKey L r o)).length := by
      rw [List.length_map, List.length_range]
      omega
    rw [hindex', swapRemove_concat_length, hlast hlt]
    exact List.map_congr_left fun i _ ↦ _loadSigningKey_of_slots_eq rfl

theorem keys_removeSigningKey_of_ne (hs : Sane lido r)
    (h : _removeSigningKey L r o index = .ok r') (hne : o' ≠ o) : keys L r' o' = keys L r o' := by
  obtain ⟨ho, hindex, hused, r₁, rfl, hfields, hstore, hlast⟩ := _removeSigningKey_ok h
  refine keys_congr ?_ fun i hi ↦ ?_
  · rw [setOperator_of_ne hne, hfields]
    rfl
  · refine (_loadSigningKey_of_slots_eq (r := _deleteSigningKey L r₁ o _) rfl).trans ?_
    have hplace := hs.keyPlace hi
    rw [load_delete_other (hs.keyPlace (by omega)) hplace fun heq ↦ hne heq.1]
    by_cases hlt : index < (r.operators o).totalSigningKeys - 1
    · refine (load_store_other (hstore hlt) (hs.keyPlace hindex) hplace fun heq ↦ hne heq.1).trans ?_
      exact _loadSigningKey_of_slots_eq rfl
    · rw [hlast hlt]
      exact _loadSigningKey_of_slots_eq rfl

end Remove

section Invariant

theorem Sane.addSigningKeys (h : Sane lido r) {pubkeys signatures : Bytes} {quantity : ℕ}
    (hr : _addSigningKeys L r o quantity pubkeys signatures = .ok r') : Sane lido r' := by
  obtain ⟨ho, hlt, _, _, slots, rfl, _⟩ := _addSigningKeys_ok hr
  have hv := h.valid o
  have hslots : Sane lido { r._increaseKeysOpIndex with slots } := h.congr rfl rfl rfl rfl
  exact hslots.setOperator ho
    ⟨hv.stopped, hv.used.trans (Nat.le_add_right _ _), hlt⟩ rfl (h.payable o ho)

theorem Sane.removeSigningKey (h : Sane lido r) {index : ℕ}
    (hr : _removeSigningKey L r o index = .ok r') : Sane lido r' := by
  obtain ⟨ho, hindex, hused, _⟩ := _removeSigningKey_ok hr
  obtain ⟨slots, rfl⟩ := removeSigningKey_record hr
  have hv := h.valid o
  refine (h.setOperator ho ⟨hv.stopped, ?_, ?_⟩ rfl (h.payable o ho)).congr rfl rfl rfl rfl
  · simp only [withoutKey]
    omega
  · have := hv.total
    simp only [withoutKey]
    omega

theorem removeKeys_induction {p : NodeOperatorsRegistry → Prop} {index n : ℕ}
    (hp : p r) (hstep : ∀ j r r', p r → _removeSigningKey L r o j = .ok r' → p r')
    (h : removeKeys L o index n r = .ok r') : p r' := by
  induction n generalizing r with
  | zero =>
    cases h
    exact hp
  | succ n ih =>
    obtain ⟨r₁, hr₁, h⟩ := bind_eq_ok.mp h
    exact ih (hstep _ _ _ hp hr₁) h

theorem Sane.removeKeys (h : Sane lido r) {index amount : ℕ}
    (hr : removeKeys L o index amount r = .ok r') : Sane lido r' :=
  removeKeys_induction h (fun _ _ _ hs hr ↦ hs.removeSigningKey hr) hr

end Invariant

end LidoDao.NodeOperatorsRegistry
