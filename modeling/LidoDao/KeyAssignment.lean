import LidoDao.RegistryKeys
import LidoDao.RewardsDistribution

namespace LidoDao

def NodeOperator.capacity (o : NodeOperator) : ℕ :=
  min (o.totalSigningKeys - o.usedSigningKeys)
    (o.stakingLimit - (o.usedSigningKeys - o.stoppedValidators))

namespace NodeOperatorsRegistry

open Evm Library.Outcome Library.ByteWords Library.Positions SafeMath

variable {L : SigningKeyLayout} {r r' : NodeOperatorsRegistry} {lido : Address}

def capacity (r : NodeOperatorsRegistry) : ℕ :=
  (r.activeIds.map fun id ↦ (r.operators id).capacity).sum

namespace DepositLookupCacheEntry

structure Valid (e : DepositLookupCacheEntry) : Prop where
  stopped : e.stoppedValidators ≤ e.usedSigningKeys
  used : e.usedSigningKeys ≤ e.totalSigningKeys
  total : e.totalSigningKeys < 2 ^ 64

def capacity (e : DepositLookupCacheEntry) : ℕ :=
  min (e.totalSigningKeys - e.usedSigningKeys)
    (e.stakingLimit - (e.usedSigningKeys - e.stoppedValidators))

def stake (e : DepositLookupCacheEntry) : ℕ := e.usedSigningKeys - e.stoppedValidators

def grow (k : ℕ) (e : DepositLookupCacheEntry) : DepositLookupCacheEntry :=
  { e with usedSigningKeys := e.usedSigningKeys + k }

variable {e : DepositLookupCacheEntry}

theorem capacity_grow {k : ℕ} (h : e.Valid) (hk : k ≤ e.capacity) :
    (grow k e).capacity = e.capacity - k := by
  have hs := h.stopped
  simp only [capacity, grow] at hk ⊢
  omega

theorem stake_grow (h : e.Valid) (k : ℕ) : (grow k e).stake = e.stake + k := by
  have hs := h.stopped
  simp only [stake, grow]
  omega

theorem Valid.grow {k : ℕ} (h : e.Valid) (hk : k ≤ e.capacity) : (grow k e).Valid := by
  obtain ⟨hs, hu, ht⟩ := h
  simp only [capacity] at hk
  refine ⟨?_, ?_, ht⟩
  · exact hs.trans (Nat.le_add_right _ _)
  · simp only [DepositLookupCacheEntry.grow]
    omega

end DepositLookupCacheEntry

open DepositLookupCacheEntry

section Greedy

variable {cache : List DepositLookupCacheEntry}

/-- The entry that the inner loop is after: the first of those with capacity left
and the smallest stake. -/
structure Best (cache : List DepositLookupCacheEntry) (j : ℕ) (stake : ℕ) : Prop where
  lt : j < cache.length
  room : 0 < cache[j].capacity
  stake_eq : stake = cache[j].stake
  least : ∀ i, ∀ h : i < cache.length, 0 < cache[i].capacity →
    stake ≤ cache[i].stake ∧ (i < j → stake < cache[i].stake)

theorem Best.cons {e : DepositLookupCacheEntry} {j stake : ℕ} (h : Best cache j stake)
    (he : 0 < e.capacity → stake < e.stake) : Best (e :: cache) (j + 1) stake := by
  obtain ⟨hj, hroom, hstake, hleast⟩ := h
  refine ⟨by simpa using hj, by simpa using hroom, by simpa using hstake, ?_⟩
  intro i hi hcap
  cases i with
  | zero =>
    have hlt : stake < e.stake := he (by simpa using hcap)
    exact ⟨hlt.le, fun _ ↦ hlt⟩
  | succ i =>
    obtain ⟨hle, hlt⟩ := hleast i (by simpa using hi) (by simpa using hcap)
    exact ⟨by simpa using hle, fun hij ↦ by simpa using hlt (by omega)⟩

theorem Best.head {e : DepositLookupCacheEntry} (he : 0 < e.capacity)
    (h : ∀ e' ∈ cache, 0 < e'.capacity → e.stake ≤ e'.stake) : Best (e :: cache) 0 e.stake := by
  refine ⟨by simp, he, rfl, fun i hi hcap ↦ ?_⟩
  refine ⟨?_, fun hi0 ↦ absurd hi0 (Nat.not_lt_zero i)⟩
  rcases List.mem_cons.mp (List.getElem_mem hi) with heq | hmem
  · rw [heq]
  · exact h _ hmem hcap

/-- The inner loop fails no assertion. It keeps the index it was given, when no entry
has a smaller stake, or finds the best entry. -/
theorem findBest_ok {notFound idx : ℕ} {best : ℕ × ℕ} (hvalid : ∀ e ∈ cache, e.Valid)
    (hidx : idx + cache.length ≤ notFound) :
    ∃ best', findBest notFound idx cache best = .ok best' ∧
      ((best' = best ∧
        ∀ e ∈ cache, 0 < e.capacity → best.1 ≠ notFound ∧ best.2 ≤ e.stake) ∨
      ∃ j, best'.1 = idx + j ∧ Best cache j best'.2 ∧ (best.1 = notFound ∨ best'.2 < best.2)) := by
  induction cache generalizing idx best with
  | nil => exact ⟨best, rfl, .inl ⟨rfl, by simp⟩⟩
  | cons e cache ih =>
    obtain ⟨hs, hu, _⟩ := hvalid e (by simp)
    rw [List.length_cons] at hidx
    have ih (best : ℕ × ℕ) := @ih (idx + 1) best (fun e he ↦ hvalid e (by simp [he])) (by omega)
    simp only [findBest, require_of hu, ok_bind]
    have hskip (hpass : 0 < e.capacity → best.1 ≠ notFound ∧ best.2 ≤ e.stake) :
        ∃ best', findBest notFound (idx + 1) cache best = .ok best' ∧
          ((best' = best ∧
            ∀ e' ∈ e :: cache, 0 < e'.capacity → best.1 ≠ notFound ∧ best.2 ≤ e'.stake) ∨
          ∃ j, best'.1 = idx + j ∧ Best (e :: cache) j best'.2 ∧
            (best.1 = notFound ∨ best'.2 < best.2)) := by
      obtain ⟨best', hbest', hcase⟩ := ih best
      refine ⟨best', hbest', ?_⟩
      rcases hcase with ⟨heq, hnone⟩ | ⟨j, hj, hfound, hsmaller⟩
      · exact .inl ⟨heq, List.forall_mem_cons.mpr ⟨hpass, hnone⟩⟩
      · refine .inr ⟨j + 1, by omega, hfound.cons fun hcap ↦ ?_, hsmaller⟩
        obtain ⟨hne, hle⟩ := hpass hcap
        exact (hsmaller.resolve_left hne).trans_le hle
    split
    · rename_i hfull
      refine hskip fun hcap ↦ ?_
      simp only [DepositLookupCacheEntry.capacity] at hcap
      omega
    · rename_i hleft
      simp only [sub, if_pos hs, ok_bind]
      split
      · rename_i hlimit
        refine hskip fun hcap ↦ ?_
        simp only [DepositLookupCacheEntry.capacity] at hcap
        omega
      · rename_i hlimit
        have hcap : 0 < e.capacity := by
          simp only [DepositLookupCacheEntry.capacity]
          omega
        split
        · rename_i hbest
          obtain ⟨best', hbest', hcase⟩ := ih (idx, e.stake)
          refine ⟨best', hbest', .inr ?_⟩
          rcases hcase with ⟨rfl, hnone⟩ | ⟨j, hj, hfound, hsmaller⟩
          · exact ⟨0, rfl, .head hcap fun e' he' hcap' ↦ (hnone e' he' hcap').2, hbest⟩
          · have hlt : best'.2 < e.stake := by
              refine hsmaller.resolve_left fun heq ↦ ?_
              have hidx' : idx = notFound := heq
              omega
            exact ⟨j + 1, by omega, hfound.cons fun _ ↦ hlt, hbest.imp_right hlt.trans⟩
        · rename_i hbest
          rw [not_or, Nat.not_lt] at hbest
          exact hskip fun _ ↦ hbest

def planned (r : NodeOperatorsRegistry) (ids : List ℕ) (n : ℕ → ℕ) :
    List DepositLookupCacheEntry :=
  ids.map fun id ↦ grow (n id) (cacheEntry r id)

variable {ids : List ℕ} {n : ℕ → ℕ}

theorem planned_congr {n' : ℕ → ℕ} (hoperators : ∀ id ∈ ids, r'.operators id = r.operators id)
    (hn : ∀ id ∈ ids, n' id = n id) : planned r' ids n' = planned r ids n := by
  refine List.map_congr_left fun id hid ↦ ?_
  simp only [cacheEntry, hoperators id hid, hn id hid]

theorem planned_set (hids : ids.Nodup) {j : ℕ} (hj : j < ids.length) :
    (planned r ids n).set j (useKey (grow (n ids[j]) (cacheEntry r ids[j]))) =
      planned r ids (Function.update n ids[j] (n ids[j] + 1)) := by
  refine List.ext_getElem (by simp [planned]) fun i hi hi' ↦ ?_
  have hlength : i < ids.length := by simpa [planned] using hi'
  rw [List.getElem_set]
  simp only [planned, List.getElem_map]
  split
  · rename_i heq
    subst heq
    rw [Function.update_self]
    rfl
  · rename_i hne
    have hne' : ids[i] ≠ ids[j] := by
      intro heq
      exact hne ((hids.getElem_inj_iff.mp heq).symm)
    rw [Function.update_of_ne hne']

/-- No operator got a key while another one with fewer running validators, or as many
and a smaller number, is left with capacity. -/
def Fair (r : NodeOperatorsRegistry) (ids : List ℕ) (n : ℕ → ℕ) : Prop :=
  ∀ i ∈ ids, ∀ j ∈ ids, 0 < n i → n j < (r.operators j).capacity →
    r.activeValidators i + n i ≤ r.activeValidators j + n j + 1 ∧
    (j < i → r.activeValidators i + n i ≤ r.activeValidators j + n j)

theorem Fair.assign {k : ℕ} (h : Fair r ids n)
    (hleast : ∀ j ∈ ids, n j < (r.operators j).capacity →
      r.activeValidators k + n k ≤ r.activeValidators j + n j ∧
      (j < k → r.activeValidators k + n k < r.activeValidators j + n j)) :
    Fair r ids (Function.update n k (n k + 1)) := by
  intro i hi j hj hpos hroom
  have hcases (x : ℕ) : (x = k ∧ Function.update n k (n k + 1) x = n k + 1) ∨
      (x ≠ k ∧ Function.update n k (n k + 1) x = n x) := by
    by_cases hx : x = k
    · subst hx
      exact .inl ⟨rfl, Function.update_self ..⟩
    · exact .inr ⟨hx, Function.update_of_ne hx ..⟩
  rcases hcases i with ⟨rfl, hni⟩ | ⟨_, hni⟩
  · rcases hcases j with ⟨rfl, hnj⟩ | ⟨_, hnj⟩
    · omega
    · have := hleast j hj (by omega)
      omega
  · rcases hcases j with ⟨rfl, hnj⟩ | ⟨_, hnj⟩
    · have := h i hi j hj (by omega) (by omega)
      omega
    · have := h i hi j hj (by omega) (by omega)
      omega

/-- The outer loop assigns as many keys as are wanted, or all there are, and stays
fair. -/
theorem assignKeys_ok (wanted : ℕ) (hids : ids.Pairwise (· < ·))
    (hvalid : ∀ id ∈ ids, (r.operators id).Valid)
    (hn : ∀ id ∈ ids, n id ≤ (r.operators id).capacity) (hfair : Fair r ids n) :
    ∃ k n', assignKeys wanted (planned r ids n) = .ok (k, planned r ids n') ∧
      (∀ id ∈ ids, n' id ≤ (r.operators id).capacity) ∧ (∀ id ∉ ids, n' id = n id) ∧
      Fair r ids n' ∧ (ids.map n').sum = (ids.map n).sum + k ∧ k ≤ wanted ∧
      (k = wanted ∨ ∀ id ∈ ids, n' id = (r.operators id).capacity) := by
  have hnodup : ids.Nodup := hids.imp Nat.ne_of_lt
  induction wanted generalizing n with
  | zero => exact ⟨0, n, rfl, hn, fun _ _ ↦ rfl, hfair, rfl, le_rfl, .inl rfl⟩
  | succ wanted ih =>
    have hentry : ∀ id ∈ ids, (cacheEntry r id).Valid := by
      intro id hid
      obtain ⟨hs, hu, ht⟩ := hvalid id hid
      exact ⟨hs, hu, ht⟩
    have hcache : ∀ e ∈ planned r ids n, e.Valid := by
      intro e he
      obtain ⟨id, hid, rfl⟩ := List.mem_map.mp he
      exact (hentry id hid).grow (hn id hid)
    have hleft : ∀ id ∈ ids, (grow (n id) (cacheEntry r id)).capacity =
        (r.operators id).capacity - n id :=
      fun id hid ↦ capacity_grow (hentry id hid) (hn id hid)
    have hstake : ∀ id ∈ ids, (grow (n id) (cacheEntry r id)).stake =
        r.activeValidators id + n id :=
      fun id hid ↦ stake_grow (hentry id hid) _
    obtain ⟨best, hbest, hcase⟩ := @findBest_ok (planned r ids n) (planned r ids n).length 0
      ((planned r ids n).length, 0) hcache (Nat.zero_add _).le
    simp only [assignKeys, hbest, ok_bind]
    rcases hcase with ⟨rfl, hnone⟩ | ⟨j, hidx, ⟨hj, hcap, hsmallest, hleast⟩, _⟩
    · rw [List.getElem?_eq_none le_rfl]
      refine ⟨0, n, rfl, hn, fun _ _ ↦ rfl, hfair, rfl, Nat.zero_le _, .inr fun id hid ↦ ?_⟩
      have hzero : ¬0 < (grow (n id) (cacheEntry r id)).capacity :=
        fun hpos ↦ (hnone _ (List.mem_map_of_mem hid) hpos).1 rfl
      have hle := hn id hid
      rw [hleft id hid] at hzero
      omega
    · have hj' : j < ids.length := by simpa [planned] using hj
      have hmem : ids[j] ∈ ids := List.getElem_mem hj'
      have hget : (planned r ids n)[j] = grow (n ids[j]) (cacheEntry r ids[j]) := by
        simp [planned]
      rw [hget, hleft _ hmem] at hcap
      rw [hget, hstake _ hmem] at hsmallest
      rw [hidx, Nat.zero_add, List.getElem?_eq_getElem hj, hget]
      dsimp only
      have hroom : (grow (n ids[j]) (cacheEntry r ids[j])).usedSigningKeys < uint64Max := by
        have ht := (hvalid _ hmem).total
        simp only [NodeOperator.capacity] at hcap
        simp only [grow, cacheEntry, uint64Max]
        omega
      rw [require_of hroom, ok_bind, planned_set hnodup hj']
      have hstep : ∀ id ∈ ids, Function.update n ids[j] (n ids[j] + 1) id ≤
          (r.operators id).capacity := by
        intro id hid
        by_cases hid' : id = ids[j]
        · rw [hid', Function.update_self]
          omega
        · rw [Function.update_of_ne hid']
          exact hn id hid
      have hnext : Fair r ids (Function.update n ids[j] (n ids[j] + 1)) := by
        refine hfair.assign fun id hid hfree ↦ ?_
        obtain ⟨i, hi, rfl⟩ := List.mem_iff_getElem.mp hid
        have hi' : i < (planned r ids n).length := by simpa [planned] using hi
        have hget' : (planned r ids n)[i] = grow (n ids[i]) (cacheEntry r ids[i]) := by
          simp [planned]
        have hbest' := hleast i hi'
        rw [hget', hleft _ hid, hstake _ hid, hsmallest] at hbest'
        obtain ⟨hle, hlt⟩ := hbest' (by omega)
        refine ⟨hle, fun hij ↦ hlt ?_⟩
        by_contra hge
        rcases Nat.lt_or_eq_of_le (Nat.not_lt.mp hge) with hji | rfl
        · exact absurd (List.pairwise_iff_getElem.mp hids j i hj' hi hji) (by omega)
        · exact absurd hij (lt_irrefl _)
      obtain ⟨k, n', hassign, hcapacity, hothers, hfair', hsum, hk, hall⟩ := ih hstep hnext
      have hone : (ids.map (Function.update n ids[j] (n ids[j] + 1))).sum + n ids[j] =
          (ids.map n).sum + (n ids[j] + 1) := sum_map_update hnodup hmem n (fun k ↦ k) _
      refine ⟨k + 1, n', ?_, hcapacity, ?_, hfair', ?_, by omega, ?_⟩
      · rw [hassign, ok_bind, pure_eq]
      · intro id hid
        rw [hothers id hid, Function.update_of_ne (ne_of_mem_of_not_mem hmem hid).symm]
      · rw [hsum]
        omega
      · exact hall.imp_left (congrArg (· + 1))

theorem fillCache_ok {size : ℕ} {cache : List DepositLookupCacheEntry}
    (h : cache.length + (ids.filter fun id ↦ (r.operators id).active).length ≤ size) :
    fillCache r size ids cache =
      .ok (cache ++ (ids.filter fun id ↦ (r.operators id).active).map (cacheEntry r)) := by
  induction ids generalizing cache with
  | nil => simp [fillCache]
  | cons id ids ih =>
    by_cases hactive : (r.operators id).active = true
    · have hfilter : (id :: ids).filter (fun id ↦ (r.operators id).active) =
          id :: ids.filter fun id ↦ (r.operators id).active := List.filter_cons_of_pos hactive
      rw [hfilter, List.length_cons] at h
      have hlt : cache.length < size := by omega
      have hrest : (cache ++ [cacheEntry r id]).length +
          (ids.filter fun id ↦ (r.operators id).active).length ≤ size := by
        rw [List.length_append, List.length_singleton]
        omega
      rw [fillCache, if_pos hactive, require_of hlt, ok_bind, ih hrest, hfilter, List.map_cons,
        List.append_assoc, List.singleton_append]
    · have hfilter : (id :: ids).filter (fun id ↦ (r.operators id).active) =
          ids.filter fun id ↦ (r.operators id).active := List.filter_cons_of_neg hactive
      rw [hfilter] at h
      rw [fillCache, if_neg hactive, ih h, hfilter]

theorem _loadOperatorCache_ok (h : Sane lido r) :
    _loadOperatorCache r = .ok (planned r r.activeIds 0) := by
  have hplanned : planned r r.activeIds 0 = r.activeIds.map (cacheEntry r) := rfl
  have hactive := h.active
  unfold _loadOperatorCache
  split
  · rename_i hzero
    have hnil : r.activeIds = [] := List.eq_nil_of_length_eq_zero (by omega)
    rw [hplanned, hnil, List.map_nil]
  · rw [fillCache_ok, ok_bind, List.nil_append, require_of, ok_bind, hplanned]
    · rfl
    · rw [List.length_map]
      exact h.active.symm
    · rw [List.length_nil, Nat.zero_add]
      exact h.active.ge

end Greedy

end NodeOperatorsRegistry

end LidoDao
