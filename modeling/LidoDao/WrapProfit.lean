import LidoDao.WrappedShares

namespace LidoDao

open Evm Library.Outcome Library.Ledger Library.SharePool Library.Transition

variable {R ρ T κ : Type} {D : Deployment} {I : INodeOperatorsRegistry R ρ} {H : HolderContract D}
  {E : ERC20 T κ} {w w' : WrapWorld R T}

/-- What the documentation of the token says of the balances. -/
structure ERC20.Accounted (E : ERC20 T κ) : Prop where
  mint : ∀ {t t' a n}, E._mint t a n = .ok t' →
    ∀ b, E.balanceOf t' b = E.balanceOf t b + if b = a then n else 0
  burn : ∀ {t t' a n}, E._burn t a n = .ok t' →
    ∀ b, E.balanceOf t' b + (if b = a then n else 0) = E.balanceOf t b

/-- The shares somebody has, as such or wrapped. -/
def WrapWorld.holding (E : ERC20 T κ) (w : WrapWorld R T) (u : Address) : ℕ :=
  w.pool.lido.shares u + E.balanceOf w.token u

namespace WstETH

variable {msgSender : Address} {blockNumber stETHAmount wstETHAmount : ℕ}

theorem wrap_holding (hE : E.Accounted) {u : Address} (hu : u ≠ H.address)
    (h : wrap I H E w msgSender blockNumber stETHAmount = .ok w') :
    w'.holding E u = w.holding E u := by
  obtain ⟨_, hmint, hpool⟩ := wrap_ok h
  obtain ⟨_, hle, hpool⟩ := World.transferFrom_ok hpool
  have hshares := moved_apply hle H.address u
  have htoken := hE.mint hmint u
  rw [if_neg hu, Nat.add_zero] at hshares
  rw [WrapWorld.holding, WrapWorld.holding, hpool, World.spend_shares, htoken, ← hshares]
  omega

/-- What is moved is what the tokens that were burnt come to after two conversions. -/
theorem unwrap_holding (hE : E.Accounted) {u : Address} (hu : u ≠ H.address)
    (h : unwrap I H E w msgSender blockNumber wstETHAmount = .ok w') :
    w'.holding E u + (if u = msgSender then wstETHAmount else 0) =
      w.holding E u + if u = msgSender then w.pool.lido.sharesFor
        (wstETHAmount * w.pool.lido.pooled / w.pool.lido.totalShares) else 0 := by
  obtain ⟨hburn, hpool⟩ := unwrap_ok h
  obtain ⟨hle, hpool⟩ := World.transfer_ok hpool
  have hshares := moved_apply hle msgSender u
  have htoken := hE.burn hburn u
  rw [if_neg (show u ≠ (H.call blockNumber).sender from hu), Nat.add_zero] at hshares
  rw [WrapWorld.holding, WrapWorld.holding, hpool, ← htoken]
  change moved w.pool.lido.shares _ msgSender _ u + _ + _ = _
  rw [hshares]
  omega

theorem unwrap_holding_le (hE : E.Accounted) {u : Address} (hu : u ≠ H.address)
    (h : unwrap I H E w msgSender blockNumber wstETHAmount = .ok w') :
    w'.holding E u ≤ w.holding E u := by
  have hchange := unwrap_holding hE hu h
  have hback : w.pool.lido.sharesFor
      (wstETHAmount * w.pool.lido.pooled / w.pool.lido.totalShares) ≤ wstETHAmount :=
    standing_le_held le_rfl
  split at hchange <;> omega

theorem wrap_totals (h : wrap I H E w msgSender blockNumber stETHAmount = .ok w') :
    w'.pool.lido.totalShares = w.pool.lido.totalShares ∧
      w'.pool.lido.pooled = w.pool.lido.pooled := by
  obtain ⟨_, _, hpool⟩ := wrap_ok h
  rw [(World.transferFrom_ok hpool).2.2]
  exact ⟨rfl, rfl⟩

theorem unwrap_totals (h : unwrap I H E w msgSender blockNumber wstETHAmount = .ok w') :
    w'.pool.lido.totalShares = w.pool.lido.totalShares ∧
      w'.pool.lido.pooled = w.pool.lido.pooled := by
  obtain ⟨_, hpool⟩ := unwrap_ok h
  rw [(World.transfer_ok hpool).2]
  exact ⟨rfl, rfl⟩

end WstETH

def WrapEvent.isConversion : WrapEvent H ρ κ → Bool
  | .wrap .. | .unwrap .. => true
  | _ => false

/-- The pool with the wrapper, and what everybody's holding changed by in the conversions. -/
def profitLedger (I : INodeOperatorsRegistry R ρ) (H : HolderContract D) (E : ERC20 T κ) :
    Machine (WrapWorld R T × (Address → ℤ)) (WrapEvent H ρ κ) Revert :=
  (WrapWorld.machine I H E).observed (fun _ ↦ 0) fun w e w' profit u ↦
    if e.isConversion then profit u + (w'.holding E u - w.holding E u) else profit u

theorem WrapWorld.conversion_holding_le (hE : E.Accounted) {e : WrapEvent H ρ κ} {u : Address}
    (hu : u ≠ H.address) (he : e.isConversion = true)
    (h : (WrapWorld.machine I H E).step w e = .ok w') :
    w'.holding E u ≤ w.holding E u := by
  cases e with
  | pool _ _ | receive _ _ _ | token _ _ => cases he
  | wrap msgSender blockNumber stETHAmount => exact (WstETH.wrap_holding hE hu h).le
  | unwrap msgSender blockNumber wstETHAmount => exact WstETH.unwrap_holding_le hE hu h

/-- Wrapping keeps what everybody has, and unwrapping loses the caller at most the rounding;
so whatever happens in between, nobody gains by it. -/
theorem wrapping_makes_no_profit (hE : E.Accounted) :
    (∀ (w w' : WrapWorld R T) (msgSender : Address) (blockNumber x : ℕ),
      (WrapWorld.machine I H E).step w (.wrap msgSender blockNumber x) = .ok w' →
      (∀ u, u ≠ H.address → w'.holding E u = w.holding E u) ∧
        w'.pool.lido.totalShares = w.pool.lido.totalShares ∧
        w'.pool.lido.pooled = w.pool.lido.pooled) ∧
    (∀ (w w' : WrapWorld R T) (msgSender : Address) (blockNumber x : ℕ),
      msgSender ≠ H.address → 0 < w.pool.lido.totalShares → 0 < w.pool.lido.pooled →
      (WrapWorld.machine I H E).step w (.unwrap msgSender blockNumber x) = .ok w' →
      (-((w.pool.lido.totalShares : ℚ) / w.pool.lido.pooled + 1) <
          (w'.holding E msgSender : ℚ) - w.holding E msgSender ∧
        w'.holding E msgSender ≤ w.holding E msgSender) ∧
      (∀ u, u ≠ H.address → u ≠ msgSender → w'.holding E u = w.holding E u) ∧
      w'.pool.lido.totalShares = w.pool.lido.totalShares ∧
      w'.pool.lido.pooled = w.pool.lido.pooled) ∧
    ∀ (w₀ w : WrapWorld R T) (profit : Address → ℤ),
      Runs (profitLedger I H E) (fun _ _ ↦ True) (w₀, fun _ ↦ 0) (w, profit) →
      ∀ u, u ≠ H.address → profit u ≤ 0 := by
  refine ⟨fun w w' msgSender blockNumber x h ↦ ⟨fun u hu ↦ WstETH.wrap_holding hE hu h,
    WstETH.wrap_totals h⟩, fun w w' msgSender blockNumber x hsender hS hT h ↦ ⟨⟨?_, ?_⟩,
      fun u hu hne ↦ ?_, WstETH.unwrap_totals h⟩, fun w₀ w profit hrun u hu ↦ ?_⟩
  · have hchange := WstETH.unwrap_holding hE hsender h
    rw [if_pos rfl, if_pos rfl] at hchange
    have hlost := lt_round_trip_sub x hT hS
    have hcast : (w'.holding E msgSender : ℚ) + x = w.holding E msgSender +
        (x * w.pool.lido.pooled / w.pool.lido.totalShares * w.pool.lido.totalShares /
          w.pool.lido.pooled : ℕ) := by
      exact_mod_cast hchange
    linarith
  · exact WstETH.unwrap_holding_le hE hsender h
  · have hchange := WstETH.unwrap_holding hE hu h
    rwa [if_neg hne, if_neg hne, Nat.add_zero, Nat.add_zero] at hchange
  · refine hrun.invariant (P := fun s ↦ s.2 u ≤ 0) (fun s e s' _ hs hstep ↦ ?_) le_rfl
    obtain ⟨hstep, hprofit⟩ := observed_step.mp hstep
    rw [← hprofit]
    dsimp only
    split
    · rename_i he
      have hle := WrapWorld.conversion_holding_le hE hu he hstep
      omega
    · exact hs

namespace Sample

theorem tokenContract_accounted : tokenContract.Accounted where
  mint {t t' a n} h b := by
    simp only [tokenContract] at h
    split at h
    · cases h
      simp only [tokenContract]
      by_cases hb : b = a
      · rw [hb, Function.update_self, if_pos rfl]
      · rw [Function.update_of_ne hb, if_neg hb, Nat.add_zero]
    · cases h
  burn {t t' a n} h b := by
    simp only [tokenContract] at h
    split at h
    · rename_i hle
      cases h
      simp only [tokenContract]
      by_cases hb : b = a
      · rw [hb, Function.update_self, if_pos rfl]
        exact Nat.sub_add_cancel hle.2
      · rw [Function.update_of_ne hb, if_neg hb, Nat.add_zero]
    · cases h

def rebasedRun : List (WrapEvent wrapper (RegistryCall deployment) (Address × ℕ)) :=
  [aroundWrapper .resume, aroundWrapper (.submit 0 100), .pool (report 0 50) fun c m h ↦ by
      cases h
      decide,
    aroundWrapper (.approve 20 60), .wrap 5 10 60, .pool (report 0 57) fun c m h ↦ by
      cases h
      decide]

/-- Seven are unwrapped and come back as six. -/
theorem seven_unwrap_as_six : ∃ w w' profit,
    Runs (profitLedger (registryContract deployment layout) wrapper tokenContract)
      (fun _ _ ↦ True) ({ pool := start, token := tokenContract.empty }, fun _ ↦ 0) (w, profit) ∧
    profit 5 ≤ 0 ∧ wrapMachine.step w (.unwrap 5 10 7) = .ok w' ∧
    w.holding tokenContract 5 = 100 ∧ w'.holding tokenContract 5 = 99 ∧
    -((100 : ℚ) / 157 + 1) < (w'.holding tokenContract 5 : ℚ) - w.holding tokenContract 5 := by
  have hrun : reaches (profitLedger (registryContract deployment layout) wrapper tokenContract)
      ({ pool := start, token := tokenContract.empty }, fun _ ↦ 0) rebasedRun (fun s ↦
        decide (s.1.pool.lido.totalShares = 100 ∧ s.1.pool.lido.pooled = 157 ∧
          s.1.holding tokenContract 5 = 100) &&
        passes (wrapMachine.step s.1 (.unwrap 5 10 7)) fun w' ↦
          decide (w'.holding tokenContract 5 = 99)) = true := by
    decide +kernel
  obtain ⟨⟨w, profit⟩, hruns, hw⟩ := Runs.of_reaches (p := fun _ _ ↦ True) hrun fun _ _ _ ↦ trivial
  obtain ⟨hstate, hpasses⟩ := Bool.and_eq_true_iff.mp hw
  obtain ⟨hS, hT, hbefore⟩ := of_decide_eq_true hstate
  obtain ⟨w', hstep, hafter⟩ := exists_of_passes hpasses
  dsimp only at hS hT hbefore
  obtain ⟨_, hunwrap, hprofit⟩ :=
    wrapping_makes_no_profit (I := registryContract deployment layout) (H := wrapper)
      tokenContract_accounted
  obtain ⟨⟨hlost, _⟩, _⟩ := hunwrap w w' 5 10 7 (by decide) (by omega) (by omega) hstep
  rw [hS, hT] at hlost
  exact ⟨w, w', profit, hruns, hprofit _ _ _ hruns 5 (by decide), hstep, hbefore,
    of_decide_eq_true hafter, by exact_mod_cast hlost⟩

end Sample

end LidoDao
