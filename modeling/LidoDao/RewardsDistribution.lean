import LidoDao.RegistryInvariant
import Mathlib.Algebra.BigOperators.Ring.List
import Mathlib.Algebra.Order.Ring.Nat

namespace LidoDao.NodeOperatorsRegistry

open Evm Library.Outcome Library.Positions SafeMath

variable {r : NodeOperatorsRegistry} {lido : Address} {ids done : List ℕ}

def activeValidators (r : NodeOperatorsRegistry) (id : ℕ) : ℕ :=
  (r.operators id).usedSigningKeys - (r.operators id).stoppedValidators

def activeValidatorsTotal (r : NodeOperatorsRegistry) : ℕ :=
  (r.activeIds.map r.activeValidators).sum

theorem set_replicate {α : Type} (l : List α) (x y : α) (k : ℕ) :
    (l ++ List.replicate (k + 1) y).set l.length x = (l ++ [x]) ++ List.replicate k y := by
  rw [List.set_append_right _ _ le_rfl, Nat.sub_self, List.replicate_succ, List.set_cons_zero,
    List.append_assoc, List.singleton_append]

/-- The arrays when the operators `done` were counted, with room for `k` more. -/
def counted (r : NodeOperatorsRegistry) (done : List ℕ) (k : ℕ) : Distribution where
  recipients := done.map (fun id ↦ (r.operators id).rewardAddress) ++ List.replicate k 0
  shares := done.map r.activeValidators ++ List.replicate k 0
  idx := done.length
  activeValidatorsTotal := (done.map r.activeValidators).sum

theorem countValidators_ok (hvalid : ∀ id ∈ ids, (r.operators id).Valid)
    (hbound : ((done ++ ids.filter fun id ↦ (r.operators id).active).map
      r.activeValidators).sum < wordLimit) :
    countValidators r ids (counted r done (ids.filter fun id ↦ (r.operators id).active).length) =
      .ok (counted r (done ++ ids.filter fun id ↦ (r.operators id).active) 0) := by
  induction ids generalizing done with
  | nil => simp [countValidators]
  | cons id ids ih =>
    have hrest : ∀ i ∈ ids, (r.operators i).Valid := fun i hi ↦ hvalid i (by simp [hi])
    by_cases hactive : (r.operators id).active = true
    · have hfilter : (id :: ids).filter (fun id ↦ (r.operators id).active) =
          id :: ids.filter fun id ↦ (r.operators id).active := List.filter_cons_of_pos hactive
      rw [hfilter] at hbound ⊢
      generalize (ids.filter fun id ↦ (r.operators id).active) = rest at hbound ih ⊢
      have hstopped := (hvalid id (by simp)).stopped
      have happend : done ++ id :: rest = (done ++ [id]) ++ rest := by simp
      rw [happend] at hbound ⊢
      have hsum : (counted r done (rest.length + 1)).activeValidatorsTotal +
          r.activeValidators id < wordLimit := by
        rw [List.map_append, List.sum_append, List.map_append, List.sum_append] at hbound
        simp only [List.map_cons, List.map_nil, List.sum_cons, List.sum_nil] at hbound
        simp only [counted]
        omega
      have hidx : (counted r done (rest.length + 1)).idx <
          (counted r done (rest.length + 1)).recipients.length := by
        simp [counted]
      have hidx' : (counted r done (rest.length + 1)).idx <
          (counted r done (rest.length + 1)).shares.length := by
        simp [counted]
      rw [countValidators, if_pos hactive, List.length_cons]
      simp only [SafeMath64.sub, if_pos hstopped, ok_bind]
      rw [show (r.operators id).usedSigningKeys - (r.operators id).stoppedValidators =
        r.activeValidators id from rfl]
      simp only [add, if_pos hsum, ok_bind, require_of hidx, require_of hidx']
      rw [← ih hrest hbound]
      congr 1
      have hrecipients := set_replicate (done.map fun id ↦ (r.operators id).rewardAddress)
        (r.operators id).rewardAddress 0 rest.length
      have hshares := set_replicate (done.map r.activeValidators) (r.activeValidators id) 0
        rest.length
      rw [List.length_map] at hrecipients hshares
      simp only [counted, hrecipients, hshares, List.map_append, List.map_cons, List.map_nil,
        List.length_append, List.length_singleton, List.sum_append, List.sum_cons, List.sum_nil,
        Nat.add_zero]
    · have hfilter : (id :: ids).filter (fun id ↦ (r.operators id).active) =
          ids.filter fun id ↦ (r.operators id).active := List.filter_cons_of_neg hactive
      rw [hfilter] at hbound ⊢
      rw [countValidators, if_neg hactive, ih hrest hbound]

theorem scaleShares_ok {p : ℕ} {shares : List ℕ} (h : ∀ n ∈ shares, n * p < wordLimit) :
    scaleShares p shares = .ok (shares.map (· * p)) := by
  induction shares with
  | nil => rfl
  | cons n shares ih =>
    have hn := h n (by simp)
    simp only [scaleShares, mul, if_pos hn, ok_bind, ih fun m hm ↦ h m (by simp [hm]), pure_eq,
      List.map_cons]

theorem activeValidatorsTotal_lt (h : Sane lido r) : r.activeValidatorsTotal < wordLimit := by
  have hle : r.activeValidatorsTotal ≤ r.activeIds.length • 2 ^ 64 := by
    rw [← List.length_map (f := r.activeValidators)]
    refine List.sum_le_card_nsmul _ _ fun x hx ↦ ?_
    obtain ⟨id, _, rfl⟩ := List.mem_map.mp hx
    have hu := (h.valid id).used
    have ht := (h.valid id).total
    simp only [activeValidators]
    omega
  have hlength : r.activeIds.length ≤ 200 := by
    refine le_trans (List.length_filter_le _ _) ?_
    rw [ids, List.length_range]
    exact h.count_le
  have hword : 200 * 2 ^ 64 < wordLimit := by decide +kernel
  have hle' : r.activeValidatorsTotal ≤ r.activeIds.length * 2 ^ 64 := hle
  omega

def reward (r : NodeOperatorsRegistry) (n id : ℕ) : ℕ :=
  r.activeValidators id * (n / r.activeValidatorsTotal)

theorem le_activeValidatorsTotal {id : ℕ} (hid : id ∈ r.activeIds) :
    r.activeValidators id ≤ r.activeValidatorsTotal :=
  List.single_le_sum (fun _ _ ↦ Nat.zero_le _) _ (List.mem_map_of_mem hid)

theorem getRewardsDistribution_ok (h : Sane lido r) {n : ℕ} (hn : n < wordLimit) :
    r.getRewardsDistribution n =
      .ok (r.activeIds.map fun id ↦ (r.operators id).rewardAddress,
        r.activeIds.map (r.reward n)) := by
  have hcounted : countValidators r r.ids
      (counted r [] (r.ids.filter fun id ↦ (r.operators id).active).length) =
        .ok (counted r ([] ++ r.ids.filter fun id ↦ (r.operators id).active) 0) :=
    countValidators_ok (fun id _ ↦ h.valid id) (activeValidatorsTotal_lt h)
  have hstart : counted r [] (r.ids.filter fun id ↦ (r.operators id).active).length =
      { recipients := List.replicate r.activeOperatorsCount 0
        shares := List.replicate r.activeOperatorsCount 0
        idx := 0
        activeValidatorsTotal := 0 } := by
    rw [h.active]
    rfl
  rw [hstart, List.nil_append] at hcounted
  have htotal : (counted r r.activeIds 0).activeValidatorsTotal = r.activeValidatorsTotal := rfl
  have hrecipients : (counted r r.activeIds 0).recipients =
      r.activeIds.map fun id ↦ (r.operators id).rewardAddress := by
    simp [counted]
  have hshares : (counted r r.activeIds 0).shares = r.activeIds.map r.activeValidators := by
    simp [counted]
  rw [getRewardsDistribution, show List.range r.totalOperatorsCount = r.ids from rfl, hcounted,
    ok_bind, show r.ids.filter (fun id ↦ (r.operators id).active) = r.activeIds from rfl, htotal,
    hrecipients, hshares]
  split
  · rename_i hzero
    rw [pure_eq]
    congr 2
    refine List.map_congr_left fun id hid ↦ ?_
    have hle := le_activeValidatorsTotal hid
    have hnone : r.activeValidators id = 0 := by omega
    rw [reward, hnone, Nat.zero_mul]
  · rename_i hpos
    have hscale : ∀ k ∈ r.activeIds.map r.activeValidators,
        k * (n / r.activeValidatorsTotal) < wordLimit := by
      intro k hk
      obtain ⟨id, hid, rfl⟩ := List.mem_map.mp hk
      calc r.activeValidators id * (n / r.activeValidatorsTotal)
          ≤ r.activeValidatorsTotal * (n / r.activeValidatorsTotal) :=
            Nat.mul_le_mul_right _ (le_activeValidatorsTotal hid)
        _ ≤ n := Nat.mul_div_le _ _
        _ < wordLimit := hn
    rw [div, if_pos (by omega), ok_bind, scaleShares_ok hscale, ok_bind, List.map_map]
    rfl

theorem sum_reward_le (n : ℕ) : (r.activeIds.map (r.reward n)).sum ≤ n := by
  have hsum : (r.activeIds.map (r.reward n)).sum =
      r.activeValidatorsTotal * (n / r.activeValidatorsTotal) :=
    List.sum_map_mul_right _ _ _
  rw [hsum]
  exact Nat.mul_div_le _ _

end LidoDao.NodeOperatorsRegistry
