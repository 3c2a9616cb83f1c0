import LidoDao.KeyAssignment

namespace LidoDao.NodeOperatorsRegistry

open Evm Library.Outcome Library.ByteWords Library.Positions DepositLookupCacheEntry

variable {L : SigningKeyLayout} {r r' : NodeOperatorsRegistry} {lido : Address} {ids : List ℕ}
  {n : ℕ → ℕ}

section UseKeys

/-- The registry after so many more keys of each operator are used. -/
def useKeys (r : NodeOperatorsRegistry) (n : ℕ → ℕ) : NodeOperatorsRegistry :=
  { r with operators := fun id ↦
      { r.operators id with usedSigningKeys := (r.operators id).usedSigningKeys + n id } }

theorem useKeys_zero (h : ∀ id, n id = 0) : r.useKeys n = r := by
  simp only [useKeys, h, Nat.add_zero]

theorem useKeys_useKeys (m : ℕ → ℕ) :
    (r.useKeys m).useKeys n = r.useKeys fun id ↦ m id + n id := by
  simp only [useKeys, Nat.add_assoc]

theorem setOperator_useKey {id k : ℕ} (h : (r.operators id).usedSigningKeys + k < 2 ^ 64) :
    (r.setOperator id fun o ↦
      { o with usedSigningKeys := ((r.operators id).usedSigningKeys + k) % 2 ^ 64 }) =
        r.useKeys fun i ↦ if i = id then k else 0 := by
  rw [Nat.mod_eq_of_lt h]
  simp only [setOperator, useKeys]
  congr 1
  funext i
  by_cases hi : i = id
  · subst hi
    simp
  · simp [hi]

/-- The part of a plan that is about the given operators. -/
def only (ids : List ℕ) (n : ℕ → ℕ) (id : ℕ) : ℕ := if id ∈ ids then n id else 0

theorem only_eq_zero (h : (ids.map n).sum = 0) (id : ℕ) : only ids n id = 0 := by
  by_cases hid : id ∈ ids
  · rw [only, if_pos hid]
    exact List.sum_eq_zero_iff_forall_eq_nat.mp h _ (List.mem_map_of_mem hid)
  · exact if_neg hid

theorem only_cons {id : ℕ} (hid : id ∉ ids) (i : ℕ) :
    (if i = id then n id else 0) + only ids n i = only (id :: ids) n i := by
  by_cases hi : i = id
  · subst hi
    simp [only, hid]
  · simp [only, hi]

theorem only_cons_of_zero {id : ℕ} (hid : id ∉ ids) (hzero : n id = 0) :
    only (id :: ids) n = only ids n := by
  funext i
  rw [← only_cons hid, hzero, ite_self, Nat.zero_add]

end UseKeys

section Output

def nextKeys (L : SigningKeyLayout) (r : NodeOperatorsRegistry) (id k : ℕ) : List (Bytes × Bytes) :=
  ((keys L r id).drop (r.operators id).usedSigningKeys).take k

theorem nextKeys_zero (id : ℕ) : nextKeys L r id 0 = [] := List.take_zero

theorem flatMap_nextKeys_nil (h : (ids.map n).sum = 0) :
    ids.flatMap (fun id ↦ nextKeys L r id (n id)) = [] := by
  refine List.flatMap_eq_nil_iff.mpr fun id hid ↦ ?_
  rw [List.sum_eq_zero_iff_forall_eq_nat.mp h _ (List.mem_map_of_mem hid), nextKeys_zero]

theorem map_load_range' {id k : ℕ}
    (h : (r.operators id).usedSigningKeys + k ≤ (r.operators id).totalSigningKeys) :
    (List.range' (r.operators id).usedSigningKeys k).map (_loadSigningKey L r id) =
      nextKeys L r id k := by
  refine List.ext_getElem ?_ fun i _ _ ↦ ?_
  · simp only [nextKeys, List.length_map, List.length_range', List.length_take, List.length_drop,
      length_keys]
    omega
  · simp [nextKeys, keys]

theorem length_nextKeys {id k : ℕ} (h : k ≤ (r.operators id).capacity) :
    (nextKeys L r id k).length = k := by
  simp only [NodeOperator.capacity] at h
  simp only [nextKeys, List.length_take, List.length_drop, length_keys]
  omega

theorem length_loadSigningKey (o i : ℕ) : (_loadSigningKey L r o i).1.length = pubkeyLength ∧
    (_loadSigningKey L r o i).2.length = signatureLength := by
  rw [_loadSigningKey_eq]
  refine ⟨length_slice ?_, ?_⟩
  · simp [pubkeyLength]
  · simp [signatureLength]

theorem length_flatten_keys {ks : List (Bytes × Bytes)}
    (h : ∀ k ∈ ks, k.1.length = pubkeyLength ∧ k.2.length = signatureLength) :
    (ks.map Prod.fst).flatten.length = ks.length * pubkeyLength ∧
      (ks.map Prod.snd).flatten.length = ks.length * signatureLength := by
  refine ⟨?_, ?_⟩
  · rw [length_flatten (n := pubkeyLength), List.length_map]
    intro c hc
    obtain ⟨k, hk, rfl⟩ := List.mem_map.mp hc
    exact (h k hk).1
  · rw [length_flatten (n := signatureLength), List.length_map]
    intro c hc
    obtain ⟨k, hk, rfl⟩ := List.mem_map.mp hc
    exact (h k hk).2

/-- The buffers hold the keys handed out so far and have room for `numKeys`. -/
structure Buffered (numKeys : ℕ) (done : List (Bytes × Bytes)) (out : KeyBuffers) : Prop where
  count : out.numLoadedKeys = done.length
  pubkeys : Filled pubkeyLength (done.map Prod.fst) out.pubkeys
  signatures : Filled signatureLength (done.map Prod.snd) out.signatures
  pubkeys_length : out.pubkeys.length = numKeys * pubkeyLength
  signatures_length : out.signatures.length = numKeys * signatureLength

variable {numKeys o : ℕ} {done : List (Bytes × Bytes)} {out : KeyBuffers}

theorem Buffered.pubkeys_eq (h : Buffered numKeys done out) (hfull : done.length = numKeys) :
    out.pubkeys = (done.map Prod.fst).flatten := by
  apply h.pubkeys.eq_flatten
  rw [h.pubkeys_length, List.length_map, hfull]

theorem Buffered.signatures_eq (h : Buffered numKeys done out) (hfull : done.length = numKeys) :
    out.signatures = (done.map Prod.snd).flatten := by
  apply h.signatures.eq_flatten
  rw [h.signatures_length, List.length_map, hfull]

theorem copyKeys_ok {is : List ℕ} (h : Buffered numKeys done out)
    (hroom : done.length + is.length ≤ numKeys) :
    ∃ out', copyKeys L r o is out = .ok out' ∧
      Buffered numKeys (done ++ is.map (_loadSigningKey L r o)) out' := by
  induction is generalizing done out with
  | nil => exact ⟨out, rfl, by simpa using h⟩
  | cons i is ih =>
    obtain ⟨hcount, hpub, hsig, hpubs, hsigs⟩ := h
    obtain ⟨hkey, hsignature⟩ := length_loadSigningKey (L := L) (r := r) o i
    rw [List.length_cons] at hroom
    have hfit (m : ℕ) : out.numLoadedKeys * m + m ≤ numKeys * m := by
      have hle := Nat.mul_le_mul_right m (show out.numLoadedKeys + 1 ≤ numKeys by omega)
      rwa [Nat.succ_mul] at hle
    have hfitp : out.numLoadedKeys * pubkeyLength + (_loadSigningKey L r o i).1.length ≤
        out.pubkeys.length := by
      rw [hkey, hpubs]
      exact hfit _
    have hfits : out.numLoadedKeys * signatureLength + (_loadSigningKey L r o i).2.length ≤
        out.signatures.length := by
      rw [hsignature, hsigs]
      exact hfit _
    have hnext : Buffered numKeys (done ++ [_loadSigningKey L r o i])
        { pubkeys := splice out.pubkeys (out.numLoadedKeys * pubkeyLength)
            (_loadSigningKey L r o i).1
          signatures := splice out.signatures (out.numLoadedKeys * signatureLength)
            (_loadSigningKey L r o i).2
          numLoadedKeys := out.numLoadedKeys + 1 } := by
      refine ⟨?_, ?_, ?_, ?_, ?_⟩
      · simp [hcount]
      · have hspliced := hpub.splice hkey
        rw [List.length_map, ← hcount] at hspliced
        rw [List.map_append]
        exact hspliced
      · have hspliced := hsig.splice hsignature
        rw [List.length_map, ← hcount] at hspliced
        rw [List.map_append]
        exact hspliced
      · exact (length_splice hfitp).trans hpubs
      · exact (length_splice hfits).trans hsigs
    obtain ⟨out', hcopy, hout'⟩ := ih hnext (by simp; omega)
    refine ⟨out', ?_, ?_⟩
    · simp only [copyKeys, copyBytes, require_of hfitp, require_of hfits, ok_bind, pure_eq]
      exact hcopy
    · rw [List.map_cons]
      simpa using hout'

theorem nextKeys_useKeys {id k : ℕ} {m : ℕ → ℕ} (hid : m id = 0) :
    nextKeys L (r.useKeys m) id k = nextKeys L r id k := by
  have hkeys : keys L (r.useKeys m) id = keys L r id := keys_of_slots_eq rfl rfl
  have hused : ((r.useKeys m).operators id).usedSigningKeys =
      (r.operators id).usedSigningKeys + m id := rfl
  rw [nextKeys, hkeys, hused, hid, Nat.add_zero, nextKeys]

theorem planned_cons (id : ℕ) : planned r (id :: ids) n =
    grow (n id) (cacheEntry r id) :: planned r ids n := rfl

@[simp] theorem grow_id (id k : ℕ) : (grow k (cacheEntry r id)).id = id := rfl

@[simp] theorem grow_used (id k : ℕ) :
    (grow k (cacheEntry r id)).usedSigningKeys = (r.operators id).usedSigningKeys + k := rfl

@[simp] theorem grow_initialUsed (id k : ℕ) :
    (grow k (cacheEntry r id)).initialUsedSigningKeys = (r.operators id).usedSigningKeys := rfl

theorem newKeyIndices_planned (id k : ℕ) :
    newKeyIndices (grow k (cacheEntry r id)) =
      List.range' (r.operators id).usedSigningKeys k := by
  simp only [newKeyIndices, grow_used, grow_initialUsed, Nat.add_sub_cancel_left]

theorem used_add_le {id k : ℕ} (h : (r.operators id).Valid) (hk : k ≤ (r.operators id).capacity) :
    (r.operators id).usedSigningKeys + k ≤ (r.operators id).totalSigningKeys := by
  have hu := h.used
  simp only [NodeOperator.capacity] at hk
  omega

theorem grow_unused_iff (id k : ℕ) : (grow k (cacheEntry r id)).usedSigningKeys =
    (grow k (cacheEntry r id)).initialUsedSigningKeys ↔ k = 0 := by
  simp

theorem outputKeys_one (out : KeyBuffers) (hvalid : ∀ id ∈ ids, (r.operators id).Valid)
    (hn : ∀ id ∈ ids, n id ≤ (r.operators id).capacity) (hids : ids.Nodup)
    (hsum : (ids.map n).sum = 1) :
    ∃ key, outputKeys L 1 (planned r ids n) out r =
        .ok (key, (r.useKeys (only ids n))._increaseKeysOpIndex) ∧
      ids.flatMap (fun id ↦ nextKeys L r id (n id)) = [key] := by
  induction ids with
  | nil => simp at hsum
  | cons id ids ih =>
    obtain ⟨hid, hids⟩ := List.nodup_cons.mp hids
    rw [List.map_cons, List.sum_cons] at hsum
    have hentry := grow_unused_iff (r := r) id (n id)
    simp only [planned_cons, outputKeys]
    by_cases hzero : n id = 0
    · rw [if_pos (hentry.mpr hzero)]
      obtain ⟨key, hout, hkeys⟩ := ih (fun i hi ↦ hvalid i (by simp [hi]))
        (fun i hi ↦ hn i (by simp [hi])) hids (by omega)
      refine ⟨key, ?_, ?_⟩
      · rw [only_cons_of_zero hid hzero]
        exact hout
      · rw [List.flatMap_cons, hzero, nextKeys_zero, hkeys, List.nil_append]
    · have hone : n id = 1 := by omega
      have hle := used_add_le (hvalid id (by simp)) (hn id (by simp))
      have htotal := (hvalid id (by simp)).total
      have hlt : (r.operators id).usedSigningKeys + n id < 2 ^ 64 := by omega
      have hrest : (ids.map n).sum = 0 := by omega
      rw [if_neg (mt hentry.mp hzero)]
      simp only [newKeyIndices_planned, grow_id, grow_used, hone, List.range'_one]
      have hstate := setOperator_useKey hlt
      have honly : (fun i ↦ if i = id then n id else 0) = only (id :: ids) n := by
        funext i
        rw [← only_cons hid, only_eq_zero hrest, Nat.add_zero]
      rw [honly, hone] at hstate
      refine ⟨_loadSigningKey L r id (r.operators id).usedSigningKeys, ?_, ?_⟩
      · have hload : _loadSigningKey L (r.useKeys (only (id :: ids) n)) id
            (r.operators id).usedSigningKeys =
              _loadSigningKey L r id (r.operators id).usedSigningKeys :=
          _loadSigningKey_of_slots_eq rfl
        rw [hstate, hload]
      · rw [List.flatMap_cons, ← map_load_range' hle, hone, List.range'_one, List.map_singleton,
          flatMap_nextKeys_nil hrest, List.append_nil]

theorem finishOutput_ok (h : Buffered numKeys done out) (hfull : done.length = numKeys) :
    finishOutput r numKeys out =
      .ok (((done.map Prod.fst).flatten, (done.map Prod.snd).flatten), r._increaseKeysOpIndex) := by
  have hcount : out.numLoadedKeys = numKeys := h.count.trans hfull
  simp only [finishOutput, require_of hcount, ok_bind, pure_eq, h.pubkeys_eq hfull,
    h.signatures_eq hfull]

theorem outputKeys_many (hnum : 1 < numKeys) (hvalid : ∀ id ∈ ids, (r.operators id).Valid)
    (hn : ∀ id ∈ ids, n id ≤ (r.operators id).capacity) (hids : ids.Nodup)
    (hout : Buffered numKeys done out) (hsum : done.length + (ids.map n).sum = numKeys) :
    outputKeys L numKeys (planned r ids n) out r =
      .ok ((((done ++ ids.flatMap fun id ↦ nextKeys L r id (n id)).map Prod.fst).flatten,
        ((done ++ ids.flatMap fun id ↦ nextKeys L r id (n id)).map Prod.snd).flatten),
        (r.useKeys (only ids n))._increaseKeysOpIndex) := by
  induction ids generalizing r done out with
  | nil =>
    have hnone : r.useKeys (only [] n) = r := useKeys_zero (only_eq_zero (by simp))
    simp only [planned, List.map_nil, outputKeys, List.flatMap_nil, List.append_nil, hnone]
    exact finishOutput_ok hout (by simpa using hsum)
  | cons id ids ih =>
    obtain ⟨hid, hids⟩ := List.nodup_cons.mp hids
    rw [List.map_cons, List.sum_cons] at hsum
    have hentry := grow_unused_iff (r := r) id (n id)
    simp only [planned_cons, outputKeys]
    by_cases hzero : n id = 0
    · rw [if_pos (hentry.mpr hzero)]
      rw [List.flatMap_cons, hzero, nextKeys_zero, List.nil_append, only_cons_of_zero hid hzero]
      exact ih (fun i hi ↦ hvalid i (by simp [hi])) (fun i hi ↦ hn i (by simp [hi])) hids hout
        (by omega)
    · have hle := used_add_le (hvalid id (by simp)) (hn id (by simp))
      have htotal := (hvalid id (by simp)).total
      have hlt : (r.operators id).usedSigningKeys + n id < 2 ^ 64 := by omega
      have hstate := setOperator_useKey hlt
      generalize hr₁ : r.useKeys (fun i ↦ if i = id then n id else 0) = r₁ at hstate
      have hslots : r₁.slots = r.slots := by rw [← hr₁]; rfl
      have hne : ∀ i ∈ ids, i ≠ id := fun i hi ↦ ne_of_mem_of_not_mem hi hid
      have hothers : ∀ i ∈ ids, r₁.operators i = r.operators i := by
        intro i hi
        rw [← hr₁]
        simp [useKeys, hne i hi]
      have hnext : ∀ i ∈ ids, nextKeys L r₁ i (n i) = nextKeys L r i (n i) := by
        intro i hi
        rw [← hr₁]
        exact nextKeys_useKeys (if_neg (hne i hi))
      have hload : _loadSigningKey L r₁ id = _loadSigningKey L r id :=
        funext fun i ↦ _loadSigningKey_of_slots_eq hslots
      have hfinal : r₁.useKeys (only ids n) = r.useKeys (only (id :: ids) n) := by
        rw [← hr₁, useKeys_useKeys]
        exact congrArg _ (funext (only_cons hid))
      have hroom : done.length + (List.range' (r.operators id).usedSigningKeys (n id)).length ≤
          numKeys := by
        rw [List.length_range']
        omega
      obtain ⟨out', hcopy, hout'⟩ := copyKeys_ok (r := r₁) (L := L) (o := id) hout hroom
      rw [hload, map_load_range' hle] at hout'
      have hlength : (nextKeys L r id (n id)).length = n id := length_nextKeys (hn id (by simp))
      rw [if_neg (mt hentry.mp hzero), newKeyIndices_planned, grow_id, grow_used, hstate]
      split
      · exact absurd hnum (lt_irrefl 1)
      · rw [hcopy, ok_bind, List.flatMap_cons, ← List.append_assoc]
        split
        · rename_i hfull
          have hdone := hout'.count.symm.trans hfull
          have hrest : (ids.map n).sum = 0 := by
            rw [List.length_append, hlength] at hdone
            omega
          rw [flatMap_nextKeys_nil hrest, List.append_nil, finishOutput_ok hout' hdone, ← hfinal,
            useKeys_zero (only_eq_zero hrest)]
        · have hplan : planned r ids n = planned r₁ ids n :=
            (planned_congr hothers fun _ _ ↦ rfl).symm
          have hflat : ids.flatMap (fun id ↦ nextKeys L r id (n id)) =
              ids.flatMap fun id ↦ nextKeys L r₁ id (n id) :=
            List.flatMap_congr fun i hi ↦ (hnext i hi).symm
          rw [hflat, ← hfinal]
          rw [hplan]
          refine ih ?_ ?_ hids hout' ?_
          · intro i hi
            rw [hothers i hi]
            exact hvalid i (by simp [hi])
          · intro i hi
            rw [hothers i hi]
            exact hn i (by simp [hi])
          · rw [List.length_append, hlength]
            omega

theorem Buffered.start (L : SigningKeyLayout) (numKeys : ℕ) :
    Buffered numKeys []
      { pubkeys := unsafeAllocateBytes L (numKeys * pubkeyLength)
        signatures := unsafeAllocateBytes L (numKeys * signatureLength)
        numLoadedKeys := 0 } :=
  ⟨rfl, .nil, .nil, by simp [unsafeAllocateBytes], by simp [unsafeAllocateBytes]⟩

end Output

/-- How many keys of each operator are handed out when so many are wanted. -/
structure Plan (r : NodeOperatorsRegistry) (wanted : ℕ) (n : ℕ → ℕ) : Prop where
  le_capacity : ∀ id, n id ≤ (r.operators id).capacity
  inactive : ∀ id ∉ r.activeIds, n id = 0
  total : (r.ids.map n).sum = min wanted r.capacity

def handedOut (L : SigningKeyLayout) (r : NodeOperatorsRegistry) (n : ℕ → ℕ) :
    List (Bytes × Bytes) :=
  r.activeIds.flatMap fun id ↦ nextKeys L r id (n id)

theorem length_of_mem_handedOut {k : Bytes × Bytes} (h : k ∈ handedOut L r n) :
    k.1.length = pubkeyLength ∧ k.2.length = signatureLength := by
  obtain ⟨id, _, hk⟩ := List.mem_flatMap.mp h
  obtain ⟨i, _, rfl⟩ := List.mem_map.mp (List.mem_of_mem_drop (List.mem_of_mem_take hk))
  exact length_loadSigningKey id i

theorem nodup_activeIds : r.activeIds.Nodup := List.nodup_range.filter _

variable {wanted : ℕ}

theorem Plan.sum_activeIds (h : Plan r wanted n) : (r.activeIds.map n).sum = min wanted r.capacity := by
  rw [← h.total]
  refine sum_map_filter fun id hid hinactive ↦ h.inactive id fun hmem ↦ ?_
  have hactive := (List.mem_filter.mp hmem).2
  rw [hinactive] at hactive
  cases hactive

theorem Plan.length_handedOut (h : Plan r wanted n) :
    (handedOut L r n).length = min wanted r.capacity := by
  rw [← h.sum_activeIds, handedOut, List.length_flatMap]
  exact congrArg _ (List.map_congr_left fun id _ ↦ length_nextKeys (h.le_capacity id))

theorem Plan.of_assignKeys {k : ℕ}
    (hcapacity : ∀ id ∈ r.activeIds, n id ≤ (r.operators id).capacity)
    (hothers : ∀ id ∉ r.activeIds, n id = 0) (hsum : (r.activeIds.map n).sum = k)
    (hk : k ≤ wanted) (hall : k = wanted ∨ ∀ id ∈ r.activeIds, n id = (r.operators id).capacity) :
    Plan r wanted n ∧ k = min wanted r.capacity := by
  have hle : k ≤ r.capacity := by
    rw [← hsum]
    exact List.sum_le_sum hcapacity
  have hmin : k = min wanted r.capacity := by
    rcases hall with rfl | hall
    · omega
    · have heq : (r.activeIds.map n).sum = r.capacity :=
        congrArg _ (List.map_congr_left hall)
      omega
  refine ⟨⟨?_, hothers, ?_⟩, hmin⟩
  · intro id
    by_cases hid : id ∈ r.activeIds
    · exact hcapacity id hid
    · rw [hothers id hid]
      exact Nat.zero_le _
  · rw [← hmin, ← hsum]
    refine (sum_map_filter fun id hid hinactive ↦ hothers id fun hmem ↦ ?_).symm
    have hactive := (List.mem_filter.mp hmem).2
    rw [hinactive] at hactive
    cases hactive

theorem pairwise_activeIds : r.activeIds.Pairwise (· < ·) := List.pairwise_lt_range.filter _

/-- The registry after the keys of a plan were handed out: the operation index grows
with any key. -/
def handOut (r : NodeOperatorsRegistry) (wanted : ℕ) (n : ℕ → ℕ) : NodeOperatorsRegistry :=
  { r.useKeys n with
    keysOpIndex := if min wanted r.capacity = 0 then r.keysOpIndex else r.keysOpIndex + 1 }

/-- The registry always hands out as many keys as are wanted or can be assigned,
the next unused ones of each operator it picks. -/
theorem assignNextSigningKeys_ok (h : Sane lido r) (wanted : ℕ) :
    ∃ n, Plan r wanted n ∧ Fair r r.activeIds n ∧ r.assignNextSigningKeys L lido wanted =
      .ok ((((handedOut L r n).map Prod.fst).flatten, ((handedOut L r n).map Prod.snd).flatten),
        r.handOut wanted n) := by
  have hvalid : ∀ id ∈ r.activeIds, (r.operators id).Valid := fun id _ ↦ h.valid id
  obtain ⟨k, n, hassign, hcapacity, hothers, hfair, hsum, hk, hall⟩ :=
    assignKeys_ok (n := 0) wanted pairwise_activeIds hvalid (fun _ _ ↦ Nat.zero_le _)
      fun _ _ _ _ hpos _ ↦ absurd hpos (lt_irrefl _)
  have hzero : (r.activeIds.map (0 : ℕ → ℕ)).sum = 0 :=
    List.sum_eq_zero_iff_forall_eq_nat.mpr fun x hx ↦ by
      obtain ⟨_, _, rfl⟩ := List.mem_map.mp hx
      rfl
  rw [hzero, Nat.zero_add] at hsum
  obtain ⟨hplan, hmin⟩ := Plan.of_assignKeys hcapacity hothers hsum hk hall
  refine ⟨n, hplan, hfair, ?_⟩
  have honly : only r.activeIds n = n := by
    funext id
    by_cases hid : id ∈ r.activeIds
    · exact if_pos hid
    · exact (if_neg hid).trans (hothers id hid).symm
  have hlido : lido = r.lido := h.lido_eq.symm
  have hnone (hk0 : k = 0) :
      (Except.ok (([], []), r) : Except Revert ((Bytes × Bytes) × NodeOperatorsRegistry)) =
        .ok ((((handedOut L r n).map Prod.fst).flatten, ((handedOut L r n).map Prod.snd).flatten),
          r.handOut wanted n) := by
    have hnoKey : min wanted r.capacity = 0 := hmin.symm.trans hk0
    rw [hk0] at hsum
    have huse : r.useKeys n = r := by
      rw [← honly]
      exact useKeys_zero (only_eq_zero hsum)
    rw [handOut, if_pos hnoKey, handedOut, flatMap_nextKeys_nil hsum, huse]
    rfl
  have hsome (hk0 : k ≠ 0) : (r.useKeys n)._increaseKeysOpIndex = r.handOut wanted n := by
    rw [handOut, ← hmin, if_neg hk0]
    rfl
  simp only [assignNextSigningKeys, onlyLido, require_of hlido, _loadOperatorCache_ok h, ok_bind]
  split
  · rename_i hempty
    have hlength : r.activeIds.length = 0 := by simpa [planned] using hempty.symm
    have hnil := List.eq_nil_of_length_eq_zero hlength
    exact hnone (by rw [← hsum, hnil]; rfl)
  · rw [hassign, ok_bind]
    dsimp only
    by_cases hk0 : k = 0
    · rw [if_pos hk0]
      exact hnone hk0
    · rw [if_neg hk0, ← hsome hk0]
      by_cases hone : k = 1
      · rw [hone] at hsum ⊢
        obtain ⟨key, hout, hkeys⟩ := outputKeys_one (L := L) _ hvalid hcapacity
          nodup_activeIds hsum
        rw [hout, honly, handedOut, hkeys]
        simp
      · have hmany : 1 < k := by omega
        rw [if_pos hmany]
        rw [outputKeys_many hmany hvalid hcapacity nodup_activeIds (Buffered.start L k)
          (by simpa using hsum), honly, List.nil_append]
        rfl

end LidoDao.NodeOperatorsRegistry
