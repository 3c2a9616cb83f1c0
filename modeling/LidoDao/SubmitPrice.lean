import LidoDao.Solvency

namespace LidoDao

open Evm Library.Outcome Library.SharePool Library.Transition

variable {R ρ : Type} {D : Deployment} {I : INodeOperatorsRegistry R ρ}

def Event.submitted : Event D ρ → Option ℕ
  | .lido _ (.submit _ msgValue) | .lido _ (.fallback _ msgValue) => some msgValue
  | _ => none

namespace World

variable {w w' : World R} {e : Event D ρ} {v T : ℕ}

theorem step_submitted (he : e.submitted = some v) (h : step D I w e = .ok w') :
    ∃ (c : LidoCall D) (m : ℕ) (s : Lido),
      (w.lido.receive v)._submit c.sender v c.blockNumber = .ok (m, s) ∧
      w' = { w with lido := s } := by
  cases e with
  | registry _ | forceEther _ | fundVault _ _ | deployVault _ _ _ _ => cases he
  | lido c m =>
    cases m with
    | submit referral msgValue =>
      cases he
      rw [step, submit_eq_ok] at h
      obtain ⟨m, s, h, rfl⟩ := h
      exact ⟨c, m, s, h, rfl⟩
    | fallback msgDataLength msgValue =>
      cases he
      rw [step, fallback_eq_ok] at h
      obtain ⟨_, m, s, h, rfl⟩ := h
      exact ⟨c, m, s, h, rfl⟩
    | _ => cases he

/-- The shares minted by a submit into a pool that holds ether: the rounded-down
part, or one for each wei where that is zero. -/
def mintedShares (T S v : ℕ) : ℕ := if v * S / T = 0 then v else v * S / T

theorem submitted_effect (he : e.submitted = some v) (h : step D I w e = .ok w')
    (hT : w.lido.totalSupply = .ok T) (hpos : 0 < T) :
    0 < v ∧ w'.lido.totalShares = w.lido.totalShares + mintedShares T w.lido.totalShares v ∧
      w'.lido.pooled = T + v ∧ ∀ a, w.lido.shares a ≤ w'.lido.shares a := by
  obtain ⟨c, m, s, hs, rfl⟩ := step_submitted he h
  obtain ⟨hv, ⟨n, hn, hm⟩, t, slot, ht, rfl⟩ := Lido._submit_ok hs
  obtain ⟨_, _, hTp⟩ := Lido.totalSupply_eq_ok.mp hT
  obtain ⟨T', hT', hn⟩ := StETH.getSharesByPooledEth_eq_ok.mp hn
  have hreceive : (w.lido.receive v).pooled = w.lido.pooled := rfl
  obtain ⟨_, _, hTp'⟩ := Lido._getTotalPooledEther_eq_ok.mp hT'
  rw [hreceive, ← hTp] at hTp'
  subst hTp'
  have hn' : n = v * w.lido.totalShares / T' := by
    rcases hn with ⟨hzero, _⟩ | ⟨_, _, hn⟩
    · omega
    · exact hn
  obtain ⟨_, _, _, _, rfl⟩ := StETH._mintShares_eq_ok.mp ht
  have hm' : m = mintedShares T' w.lido.totalShares v := by
    rw [hm, mintedShares, hn']
  refine ⟨hv, ?_, ?_, ?_⟩
  · rw [← hm']
    rfl
  · rw [hTp]
    simp only [Lido.pooled, Lido.books, EtherBooks.Books.pooled, EtherBooks.Books.inTransit,
      Lido.receive]
    omega
  · intro a
    by_cases ha : a = c.sender
    · subst ha
      simp [Lido.receive]
    · simp [Function.update_of_ne ha, Lido.receive]

end World

/-- A submit of `v` into a pool of `T` wei dilutes no one: the share price does not
fall, no balance does, and what was minted is not worth more than was paid. -/
structure DilutesNoOne (s s' : Lido) (T v : ℕ) : Prop where
  price : T * s'.totalShares ≤ (T + v) * s.totalShares
  balances : ∀ a n n', s.balanceOf a = .ok n → s'.balanceOf a = .ok n' → n ≤ n'
  minted : (s'.totalShares - s.totalShares) * (T + v) / s'.totalShares ≤ v

/-- A submit dilutes no one exactly when the payment is worth a share. -/
theorem submit_dilutes_no_one_iff {w w' : World R} {e : Event D ρ} {v T : ℕ}
    (he : e.submitted = some v) (h : World.step D I w e = .ok w')
    (hT : w.lido.totalSupply = .ok T) (hpos : 0 < T) :
    DilutesNoOne w.lido w'.lido T v ↔ T ≤ v * w.lido.totalShares := by
  obtain ⟨hv, hminted, hpooled, hmono⟩ := World.submitted_effect he h hT hpos
  have hfloor : v * w.lido.totalShares / T = 0 ↔ v * w.lido.totalShares < T :=
    Nat.div_eq_zero_iff_lt hpos
  constructor
  · intro hfair
    by_contra hsmall
    rw [not_le] at hsmall
    have hprice := hfair.price
    rw [hminted, World.mintedShares, if_pos (hfloor.mpr hsmall)] at hprice
    have hlower := issue_lowers_price hv hsmall
    omega
  · intro hworth
    have hne : ¬v * w.lido.totalShares / T = 0 := by
      rw [hfloor]
      omega
    rw [World.mintedShares, if_neg hne] at hminted
    have hissued : v * w.lido.totalShares / T * T ≤ v * w.lido.totalShares :=
      Nat.div_mul_le_self _ _
    have hprice : T * w'.lido.totalShares ≤ (T + v) * w.lido.totalShares := by
      rw [hminted]
      exact issue_price hissued
    refine ⟨hprice, ?_, ?_⟩
    · intro a n n' hn hn'
      obtain ⟨_, _, rfl⟩ := Lido.totalSupply_eq_ok.mp hT
      rw [← hpooled] at hprice
      refine Lido.balanceOf_le_balanceOf hprice (hmono a) ?_ hn hn'
      rw [hminted]
      exact Nat.le_add_right _ _
    · rw [hminted, Nat.add_sub_cancel_left]
      exact issue_worth hissued

section Run

def doublingRun : List (Event Sample.deployment (RegistryCall Sample.deployment)) := [
  Sample.admin .resume,
  Sample.admin (.submit 0 (10 ^ 18)),
  Sample.report 0 (10 ^ 18)]

def submitWei (v : ℕ) : Event Sample.deployment (RegistryCall Sample.deployment) :=
  Sample.call 6 (by decide) (.submit 0 v)

theorem doublingRun_then_submit {v m : ℕ}
    (h : reaches (jointSystem Sample.deployment Sample.layout) Sample.start doublingRun (fun w ↦
      match World.step Sample.deployment (registryContract Sample.deployment Sample.layout) w
        (submitWei v) with
      | .ok w' => w.lido.totalShares = 10 ^ 18 ∧ w.lido.totalSupply = .ok (2 * 10 ^ 18) ∧
          w'.lido.totalShares = 10 ^ 18 + m
      | .error _ => false) = true) :
    ∃ w w', Reachable (jointSystem Sample.deployment Sample.layout) w ∧
      World.step Sample.deployment (registryContract Sample.deployment Sample.layout) w
        (submitWei v) = .ok w' ∧
      w.lido.totalShares = 10 ^ 18 ∧ w.lido.totalSupply = .ok (2 * 10 ^ 18) ∧
      w'.lido.totalShares = 10 ^ 18 + m := by
  obtain ⟨w, hw, hp⟩ := Sample.reachable_of_run h
  split at hp
  · rename_i w' hstep
    exact ⟨w, w', hw, hstep, of_decide_eq_true hp⟩
  · cases hp

/-- A share is then worth two wei, and a submit of one wei still mints a whole one. -/
theorem submit_of_one_wei_dilutes :
    ∃ w w', Reachable (jointSystem Sample.deployment Sample.layout) w ∧
      World.step Sample.deployment (registryContract Sample.deployment Sample.layout) w
        (submitWei 1) = .ok w' ∧
      0 < w.lido.totalShares ∧ w.lido.totalSupply = .ok (2 * 10 ^ 18) ∧
      ¬DilutesNoOne w.lido w'.lido (2 * 10 ^ 18) 1 := by
  obtain ⟨w, w', hw, hstep, hS, hT, hS'⟩ := doublingRun_then_submit (v := 1) (m := 1)
    (by decide +kernel)
  refine ⟨w, w', hw, hstep, by rw [hS]; decide, hT, ?_⟩
  intro hfair
  have hprice := hfair.price
  rw [hS, hS'] at hprice
  exact absurd hprice (by decide)

/-- A submit of two wei is worth a share and dilutes no one. -/
theorem submit_of_two_wei_dilutes_no_one :
    ∃ w w', Reachable (jointSystem Sample.deployment Sample.layout) w ∧
      World.step Sample.deployment (registryContract Sample.deployment Sample.layout) w
        (submitWei 2) = .ok w' ∧
      DilutesNoOne w.lido w'.lido (2 * 10 ^ 18) 2 := by
  obtain ⟨w, w', hw, hstep, hS, hT, _⟩ := doublingRun_then_submit (v := 2) (m := 1)
    (by decide +kernel)
  refine ⟨w, w', hw, hstep, ?_⟩
  apply (submit_dilutes_no_one_iff rfl hstep hT (by decide)).mpr
  rw [hS]

end Run

end LidoDao
