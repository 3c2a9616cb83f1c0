import LidoDao.BurnerShares

namespace LidoDao

open Evm Library.Outcome Library.Transition

variable {R ρ : Type} {D : Deployment} {I : INodeOperatorsRegistry R ρ} {H : HolderContract D}
  {c : BurnerCall} {w w' : BurnWorld R} {e : BurnEvent H ρ}

/-- The shares that a run was asked to burn, for cover and not. -/
structure BurnLog where
  cover : ℕ
  nonCover : ℕ

/-- A request asks for the shares that its tokens stand for. -/
def BurnLog.record (w : BurnWorld R) (e : BurnEvent H ρ) (l : BurnLog) : BurnLog :=
  match e with
  | .burner _ (.requestBurnMyStETHForCover stETH2Burn) =>
    { l with cover := l.cover + w.pool.lido.sharesFor stETH2Burn }
  | .burner _ (.requestBurnMyStETH stETH2Burn) =>
    { l with nonCover := l.nonCover + w.pool.lido.sharesFor stETH2Burn }
  | _ => l

/-- The pool with the burner, which also logs what was asked for. -/
def burnLedger (I : INodeOperatorsRegistry R ρ) (H : HolderContract D) :
    Machine (BurnWorld R × BurnLog) (BurnEvent H ρ) Revert :=
  (BurnWorld.machine I H).observed ⟨0, 0⟩ fun w e _ l ↦ l.record w e

namespace SelfOwnedStETHBurner

/-- The tokens move before they are converted again, which leaves the price as it was. -/
theorem requested_shares {stETH2Burn sharesAmount : ℕ} {pool : World R}
    (hpool : World.step D I w.pool (.lido (H.callWith c)
      (.transferFrom c.sender H.address stETH2Burn)) = .ok pool)
    (hn : pool.lido.getSharesByPooledEth stETH2Burn = .ok sharesAmount) :
    sharesAmount = w.pool.lido.sharesFor stETH2Burn := by
  obtain ⟨_, _, rfl⟩ := World.transferFrom_ok hpool
  obtain ⟨_, _, _, rfl⟩ := Lido.getSharesByPooledEth_eq_ok.mp hn
  rfl

/-- What was burnt and what is pending of either kind make up what there was and what was
asked for. -/
structure Accounts (b₀ b : SelfOwnedStETHBurner) (l : BurnLog) : Prop where
  cover : b.totalCoverSharesBurnt + b.coverSharesBurnRequested =
    b₀.totalCoverSharesBurnt + b₀.coverSharesBurnRequested + l.cover
  nonCover : b.totalNonCoverSharesBurnt + b.nonCoverSharesBurnRequested =
    b₀.totalNonCoverSharesBurnt + b₀.nonCoverSharesBurnRequested + l.nonCover

namespace Accounts

variable {b₀ b : SelfOwnedStETHBurner} {l : BurnLog}

theorem forCover (h : Accounts b₀ b l) (n : ℕ) :
    Accounts b₀ (b.request true n) { l with cover := l.cover + n } where
  cover := by
    have hcover := h.cover
    exact (Nat.add_assoc _ _ n).symm.trans ((congrArg (· + n) hcover).trans (Nat.add_assoc _ _ n))
  nonCover := h.nonCover

theorem notForCover (h : Accounts b₀ b l) (n : ℕ) :
    Accounts b₀ (b.request false n) { l with nonCover := l.nonCover + n } where
  cover := h.cover
  nonCover := by
    have hnonCover := h.nonCover
    exact (Nat.add_assoc _ _ n).symm.trans
      ((congrArg (· + n) hnonCover).trans (Nat.add_assoc _ _ n))

theorem book (h : Accounts b₀ b l) (quota : ℕ) : Accounts b₀ (b.book quota) l where
  cover := by
    have hcover := h.cover
    have hle := b.coverDue_le quota
    simp only [SelfOwnedStETHBurner.book]
    omega
  nonCover := by
    have hnonCover := h.nonCover
    have hle := b.nonCoverDue_le quota
    simp only [SelfOwnedStETHBurner.book]
    omega

theorem step (h : Accounts b₀ w.burner l) (hstep : (BurnWorld.machine I H).step w e = .ok w') :
    Accounts b₀ w'.burner (l.record w e) := by
  cases e with
  | pool e he =>
    obtain ⟨pool, _, hw'⟩ := bind_eq_ok.mp hstep
    cases hw'
    exact h
  | burner c m =>
    cases m with
    | setBurnAmountPerRunQuota maxBurnAmountPerRunBasisPoints =>
      obtain ⟨b, hb, hw'⟩ := bind_eq_ok.mp hstep
      cases hw'
      rw [setBurnAmountPerRunQuota_ok hb]
      exact ⟨h.cover, h.nonCover⟩
    | requestBurnMyStETHForCover stETH2Burn =>
      obtain ⟨_, _, _, n, hpool, hn, rfl⟩ := _requestBurnMyStETH_ok hstep
      rw [BurnLog.record, ← requested_shares hpool hn]
      exact h.forCover n
    | requestBurnMyStETH stETH2Burn =>
      obtain ⟨_, _, _, n, hpool, hn, rfl⟩ := _requestBurnMyStETH_ok hstep
      rw [BurnLog.record, ← requested_shares hpool hn]
      exact h.notForCover n
    | recoverExcessStETH =>
      rcases recoverExcessStETH_ok hstep with rfl | ⟨_, _, _, _, _, rfl⟩
      · exact h
      · exact h
    | recoverERC20 token amount =>
      obtain rfl := recoverERC20_ok hstep
      exact h
    | recoverERC721 token tokenId =>
      rcases recoverERC721_ok hstep with rfl | ⟨_, _, rfl⟩
      · exact h
      · exact h
    | processLidoOracleReport =>
      rcases processLidoOracleReport_ok hstep with ⟨_, rfl⟩ | hburn
      · exact h
      · obtain ⟨_, _, rfl⟩ := callLido_eq_ok.mp hburn
        exact h.book _

end Accounts

end SelfOwnedStETHBurner

open SelfOwnedStETHBurner

/-- A report burns the shares that are due in one call, cover first, and nothing it subtracts
can be missing. Over a whole run nothing asked for is lost or burnt twice. -/
theorem due_shares_are_burnt :
    (∀ (w w' : BurnWorld R) (c : BurnerCall),
      0 < w.burner.coverSharesBurnRequested + w.burner.nonCoverSharesBurnRequested →
      (BurnWorld.machine I H).step w (.burner c .processLidoOracleReport) = .ok w' →
      ∃ pool cover nonCover q,
        q = w.pool.lido.totalShares * w.burner.maxBurnAmountPerRunBasisPoints / 10000 ∧
        cover = min q w.burner.coverSharesBurnRequested ∧
        cover + nonCover =
          min q (w.burner.coverSharesBurnRequested + w.burner.nonCoverSharesBurnRequested) ∧
        World.step D I w.pool (.lido (H.callWith c) (.burnShares H.address (cover + nonCover))) =
          .ok pool ∧
        cover ≤ w.burner.coverSharesBurnRequested ∧
        nonCover ≤ w.burner.nonCoverSharesBurnRequested ∧
        w' = { pool, burner := { w.burner with
          coverSharesBurnRequested := w.burner.coverSharesBurnRequested - cover
          nonCoverSharesBurnRequested := w.burner.nonCoverSharesBurnRequested - nonCover
          totalCoverSharesBurnt := w.burner.totalCoverSharesBurnt + cover
          totalNonCoverSharesBurnt := w.burner.totalNonCoverSharesBurnt + nonCover } }) ∧
    (∀ (w : BurnWorld R) (c : BurnerCall), Computes w → w.burner.requested ≠ 0 →
      (BurnWorld.machine I H).step w (.burner c .processLidoOracleReport) = (do
        checkReporter c w.pool.lido.oracle
        callLido I H c (.burnShares H.address (min (quota w) w.burner.requested))
          { w with burner := w.burner.book (quota w) })) ∧
    ∀ (w₀ w : BurnWorld R) (l : BurnLog),
      Runs (burnLedger I H) (fun _ _ ↦ True) (w₀, ⟨0, 0⟩) (w, l) →
      Accounts w₀.burner w.burner l := by
  refine ⟨fun w w' c hpos hstep ↦ ?_, fun w c h hsome ↦ processLidoOracleReport_eq h hsome,
    fun w₀ w l hrun ↦ ?_⟩
  · rcases processLidoOracleReport_ok hstep with ⟨hnone, _⟩ | hburn
    · exact absurd hnone hpos.ne'
    · obtain ⟨pool, hpool, rfl⟩ := callLido_eq_ok.mp hburn
      have hsum := w.burner.coverDue_add_nonCoverDue (quota w)
      exact ⟨pool, w.burner.coverDue (quota w), w.burner.nonCoverDue (quota w), quota w, rfl, rfl,
        hsum, hsum ▸ hpool, w.burner.coverDue_le _, w.burner.nonCoverDue_le _, rfl⟩
  · exact hrun.invariant (P := fun s ↦ Accounts w₀.burner s.1.burner s.2)
      (fun s e s' _ hs hstep ↦ by
        obtain ⟨hstep, hlog⟩ := observed_step.mp hstep
        rw [← hlog]
        exact hs.step hstep) ⟨rfl, rfl⟩

namespace Sample

def twoQueues : List (BurnEvent burner (RegistryCall deployment)) :=
  [aroundBurner .resume, aroundBurner (.submit 0 100), aroundBurner (.approve 21 90),
    .burner (burnerCall 5) (.requestBurnMyStETHForCover 60),
    .burner (burnerCall 5) (.requestBurnMyStETH 30),
    .burner (burnerCall 2) .processLidoOracleReport]

/-- The next run may burn twenty-five: the ten left for cover and fifteen others. -/
theorem ten_and_fifteen_are_burnt : ∃ w w' l,
    Runs (burnLedger (registryContract deployment layout) burner) (fun _ _ ↦ True)
      (burnStart, ⟨0, 0⟩) (w, l) ∧ l = ⟨60, 30⟩ ∧ Accounts burnStart.burner w.burner l ∧
    burnMachine.step w (.burner (burnerCall 2) .processLidoOracleReport) = .ok w' ∧
    ∃ pool, World.step deployment (registryContract deployment layout) w.pool
        (.lido (burner.callWith (burnerCall 2)) (.burnShares 21 25)) = .ok pool ∧
      w'.pool = pool ∧ w'.burner.totalCoverSharesBurnt = w.burner.totalCoverSharesBurnt + 10 ∧
      w'.burner.totalNonCoverSharesBurnt = w.burner.totalNonCoverSharesBurnt + 15 := by
  have hrun : reaches (burnLedger (registryContract deployment layout) burner)
      (burnStart, ⟨0, 0⟩) twoQueues (fun s ↦
        decide (s.2.cover = 60 ∧ s.2.nonCover = 30 ∧ s.1.burner.coverSharesBurnRequested = 10 ∧
          s.1.burner.nonCoverSharesBurnRequested = 30 ∧
          s.1.burner.maxBurnAmountPerRunBasisPoints = 5000 ∧ s.1.pool.lido.totalShares = 50) &&
        (burnMachine.step s.1 (.burner (burnerCall 2) .processLidoOracleReport)).isOk) = true := by
    decide +kernel
  obtain ⟨⟨w, l⟩, hruns, hw⟩ := Runs.of_reaches (p := fun _ _ ↦ True) hrun fun _ _ _ ↦ trivial
  obtain ⟨hstate, hok⟩ := Bool.and_eq_true_iff.mp hw
  obtain ⟨hlogCover, hlogNonCover, hcover, hnonCover, hquota, htotal⟩ := of_decide_eq_true hstate
  dsimp only at hcover hnonCover hquota htotal
  have hlog : l = ⟨60, 30⟩ := by
    cases l
    cases hlogCover
    cases hlogNonCover
    rfl
  obtain ⟨w', hstep⟩ := exists_of_isOk hok
  have hdue := due_shares_are_burnt (I := registryContract deployment layout) (H := burner)
  obtain ⟨pool, cover, nonCover, q, rfl, hc, hsum, hpool, _, _, rfl⟩ :=
    hdue.1 w w' (burnerCall 2) (by omega) hstep
  rw [htotal, hquota, hcover] at hc
  rw [htotal, hquota, hcover, hnonCover] at hsum
  obtain rfl : cover = 10 := hc
  obtain rfl : nonCover = 15 := Nat.add_left_cancel (hsum : 10 + nonCover = 10 + 15)
  exact ⟨w, _, l, hruns, hlog, hdue.2.2 _ _ _ hruns, hstep, pool, hpool, rfl, rfl, rfl⟩

end Sample

end LidoDao
