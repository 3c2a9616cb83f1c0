import LidoDao.PoolCalls
import LidoDao.SelfOwnedStETHBurner

namespace LidoDao

open Evm Library.Outcome Library.Transition

variable {R ρ : Type} {D : Deployment} {I : INodeOperatorsRegistry R ρ} {H : HolderContract D}
  {c : BurnerCall} {w w' : BurnWorld R}

namespace SelfOwnedStETHBurner

def requested (b : SelfOwnedStETHBurner) : ℕ :=
  b.coverSharesBurnRequested + b.nonCoverSharesBurnRequested

def request (b : SelfOwnedStETHBurner) (isCover : Bool) (sharesAmount : ℕ) :
    SelfOwnedStETHBurner :=
  if isCover then { b with
    coverSharesBurnRequested := b.coverSharesBurnRequested + sharesAmount }
  else { b with
    nonCoverSharesBurnRequested := b.nonCoverSharesBurnRequested + sharesAmount }

theorem requested_request (b : SelfOwnedStETHBurner) (isCover : Bool) (sharesAmount : ℕ) :
    (b.request isCover sharesAmount).requested = b.requested + sharesAmount := by
  cases isCover with
  | true => exact Nat.add_right_comm _ _ _
  | false => exact (Nat.add_assoc _ _ _).symm

def quota (w : BurnWorld R) : ℕ :=
  w.pool.lido.totalShares * w.burner.maxBurnAmountPerRunBasisPoints / maxBasisPoints

/-- What a run burns of the shares marked for cover, which come first. -/
def coverDue (b : SelfOwnedStETHBurner) (quota : ℕ) : ℕ := min quota b.coverSharesBurnRequested

def nonCoverDue (b : SelfOwnedStETHBurner) (quota : ℕ) : ℕ :=
  min quota b.requested - b.coverDue quota

section Due

variable (b : SelfOwnedStETHBurner) (quota : ℕ)

theorem coverDue_le : b.coverDue quota ≤ b.coverSharesBurnRequested := Nat.min_le_right _ _

theorem coverDue_le_due : b.coverDue quota ≤ min quota b.requested := by
  simp only [coverDue, requested]
  omega

theorem nonCoverDue_le : b.nonCoverDue quota ≤ b.nonCoverSharesBurnRequested := by
  simp only [nonCoverDue, coverDue, requested]
  omega

theorem coverDue_add_nonCoverDue :
    b.coverDue quota + b.nonCoverDue quota = min quota b.requested :=
  Nat.add_sub_cancel' (b.coverDue_le_due quota)

def book : SelfOwnedStETHBurner :=
  { b with
    coverSharesBurnRequested := b.coverSharesBurnRequested - b.coverDue quota
    nonCoverSharesBurnRequested := b.nonCoverSharesBurnRequested - b.nonCoverDue quota
    totalCoverSharesBurnt := b.totalCoverSharesBurnt + b.coverDue quota
    totalNonCoverSharesBurnt := b.totalNonCoverSharesBurnt + b.nonCoverDue quota }

theorem requested_book : min quota b.requested + (b.book quota).requested = b.requested := by
  have hsum := b.coverDue_add_nonCoverDue quota
  have hcover := b.coverDue_le quota
  have hnonCover := b.nonCoverDue_le quota
  simp only [book, requested] at hsum ⊢
  omega

theorem due_of_used (h : b.coverDue quota = quota ∨ b.nonCoverSharesBurnRequested = 0) :
    min quota b.requested = b.coverDue quota ∧ b.nonCoverDue quota = 0 := by
  simp only [nonCoverDue, coverDue, requested] at h ⊢
  omega

theorem due_of_le (h : b.coverSharesBurnRequested ≤ quota) :
    b.coverDue quota = b.coverSharesBurnRequested ∧ b.nonCoverDue quota =
      min (quota - b.coverSharesBurnRequested) b.nonCoverSharesBurnRequested := by
  simp only [nonCoverDue, coverDue, requested]
  omega

end Due

theorem callLido_eq_ok {m : LidoMessage} : callLido I H c m w = .ok w' ↔
    ∃ pool, World.step D I w.pool (.lido (H.callWith c) m) = .ok pool ∧
      w' = { w with pool } := by
  simp only [callLido, bind_eq_ok, pure_eq, Except.ok.injEq]
  exact exists_congr fun pool ↦ and_congr_right fun _ ↦ eq_comm

theorem _requestBurnMyStETH_ok {stETH2Burn : ℕ} {isCover : Bool}
    (h : _requestBurnMyStETH I H c w stETH2Burn isCover = .ok w') :
    0 < stETH2Burn ∧ c.sender = w.burner.voting ∧ ∃ pool sharesAmount,
      World.step D I w.pool (.lido (H.callWith c)
        (.transferFrom c.sender H.address stETH2Burn)) = .ok pool ∧
      pool.lido.getSharesByPooledEth stETH2Burn = .ok sharesAmount ∧
      w' = { pool, burner := w.burner.request isCover sharesAmount } := by
  simp only [_requestBurnMyStETH, bind_eq_ok, require_eq_ok, exists_const, callLido_eq_ok] at h
  obtain ⟨hpos, hsender, _, ⟨pool, hpool, rfl⟩, n, hn, h⟩ := h
  refine ⟨hpos, hsender, pool, n, hpool, hn, ?_⟩
  cases isCover with
  | true =>
    obtain ⟨_, hadd, h⟩ := bind_eq_ok.mp h
    obtain ⟨_, rfl⟩ := Checked.add_eq_ok.mp hadd
    cases h
    rfl
  | false =>
    obtain ⟨_, hadd, h⟩ := bind_eq_ok.mp h
    obtain ⟨_, rfl⟩ := Checked.add_eq_ok.mp hadd
    cases h
    rfl

theorem setBurnAmountPerRunQuota_ok {b b' : SelfOwnedStETHBurner} {msgSender : Address}
    {maxBurnAmountPerRunBasisPoints : ℕ}
    (h : b.setBurnAmountPerRunQuota msgSender maxBurnAmountPerRunBasisPoints = .ok b') :
    b' = { b with maxBurnAmountPerRunBasisPoints } := by
  simp only [setBurnAmountPerRunQuota, bind_eq_ok, require_eq_ok, exists_const, pure_eq,
    Except.ok.injEq] at h
  obtain ⟨_, _, _, rfl⟩ := h
  rfl

theorem recoverERC20_ok {token : Address} {amount : ℕ}
    (h : recoverERC20 (D := D) w token amount = .ok w') : w' = w := by
  obtain ⟨_, _, h⟩ := bind_eq_ok.mp h
  obtain ⟨_, _, h⟩ := bind_eq_ok.mp h
  cases h
  rfl

theorem recoverERC721_ok {token : Address} {tokenId : ℕ}
    (h : recoverERC721 I H c w token tokenId = .ok w') :
    w' = w ∨ ∃ pool, World.step D I w.pool (.lido (H.callWith c)
      (.transferFrom H.address w.burner.treasury tokenId)) = .ok pool ∧ w' = { w with pool } := by
  rw [recoverERC721] at h
  split at h
  · exact .inr (callLido_eq_ok.mp h)
  · cases h
    exact .inl rfl

theorem recoverExcessStETH_ok (h : recoverExcessStETH I H c w = .ok w') :
    w' = w ∨ ∃ excess pool, w.burner.requested < w.pool.lido.shares H.address ∧
      w.pool.lido.getPooledEthByShares (w.pool.lido.shares H.address - w.burner.requested) =
        .ok excess ∧
      World.step D I w.pool (.lido (H.callWith c) (.transfer w.burner.treasury excess)) =
        .ok pool ∧ w' = { w with pool } := by
  simp only [recoverExcessStETH, getExcessStETH, bind_eq_ok, Checked.add_eq_ok] at h
  obtain ⟨excess, ⟨_, ⟨_, rfl⟩, hexcess⟩, h⟩ := h
  by_cases hpos : 0 < excess
  · rw [if_pos hpos] at h
    by_cases hle : w.pool.lido.shares H.address ≤ w.burner.requested
    · cases (if_pos hle).symm.trans hexcess
      contradiction
    · replace hexcess := (if_neg hle).symm.trans hexcess
      obtain ⟨_, hsub, hexcess⟩ := bind_eq_ok.mp hexcess
      obtain ⟨_, rfl⟩ := Checked.sub_eq_ok.mp hsub
      obtain ⟨_, _, h⟩ := bind_eq_ok.mp h
      obtain ⟨pool, hpool, rfl⟩ := callLido_eq_ok.mp h
      exact .inr ⟨excess, pool, Nat.lt_of_not_le hle, hexcess, hpool, rfl⟩
  · rw [if_neg hpos] at h
    cases h
    exact .inl rfl

def bookCover (b : SelfOwnedStETHBurner) (quota : ℕ) : SelfOwnedStETHBurner :=
  { b with
    totalCoverSharesBurnt := b.totalCoverSharesBurnt + b.coverDue quota
    coverSharesBurnRequested := b.coverSharesBurnRequested - b.coverDue quota }

theorem book_of_used {b : SelfOwnedStETHBurner} {quota : ℕ}
    (h : b.coverDue quota = quota ∨ b.nonCoverSharesBurnRequested = 0) :
    b.book quota = b.bookCover quota := by
  rw [book, (b.due_of_used quota h).2]
  rfl

theorem bookCover_of_eq_zero {b : SelfOwnedStETHBurner} {quota : ℕ}
    (h : b.coverSharesBurnRequested = 0) : b.bookCover quota = b := by
  cases b
  cases h
  simp only [bookCover, coverDue, Nat.min_zero, Nat.add_zero, Nat.sub_zero]

theorem processNonCover_ok {quota : ℕ} (hle : w.burner.coverSharesBurnRequested ≤ quota)
    (h : processNonCover I H c quota w.burner.coverSharesBurnRequested
      w.burner.nonCoverSharesBurnRequested { w with burner := w.burner.bookCover quota } =
        .ok w') :
    callLido I H c (.burnShares H.address (min quota w.burner.requested))
      { w with burner := w.burner.book quota } = .ok w' := by
  simp only [processNonCover, bind_eq_ok, Checked.sub_eq_ok, Checked.add_eq_ok] at h
  obtain ⟨_, ⟨_, rfl⟩, _, ⟨_, rfl⟩, _, _, _, ⟨_, rfl⟩, _, ⟨_, rfl⟩, h⟩ := h
  obtain ⟨hcover, hnonCover⟩ := w.burner.due_of_le quota hle
  rw [← coverDue_add_nonCoverDue, hcover, hnonCover, book, hcover, hnonCover]
  rw [bookCover, hcover] at h
  exact h

theorem processLidoOracleReport_ok (h : processLidoOracleReport I H c w = .ok w') :
    (w.burner.requested = 0 ∧ w' = w) ∨
      callLido I H c (.burnShares H.address (min (quota w) w.burner.requested))
        { w with burner := w.burner.book (quota w) } = .ok w' := by
  simp only [processLidoOracleReport, bind_eq_ok, Checked.add_eq_ok] at h
  obtain ⟨_, ⟨_, rfl⟩, h⟩ := h
  split at h
  · rename_i hnone
    cases h
    exact .inl ⟨hnone, rfl⟩
  simp only [bind_eq_ok, Checked.mul_eq_ok] at h
  obtain ⟨_, _, _, ⟨_, rfl⟩, h⟩ := h
  refine .inr ?_
  split at h
  · simp only [bind_eq_ok, Checked.add_eq_ok, Checked.sub_eq_ok] at h
    obtain ⟨_, ⟨_, rfl⟩, _, _, _, ⟨_, rfl⟩, h⟩ := h
    split at h
    · rename_i hused
      have hbook : w.burner.book (quota w) = w.burner.bookCover (quota w) := book_of_used hused
      rw [(w.burner.due_of_used (quota w) hused).1, hbook]
      exact h
    · -- the run's quota is not used up, so all of the cover is burnt
      rename_i hmore
      have hle : w.burner.coverSharesBurnRequested ≤ quota w := by
        have hne : ¬w.burner.coverDue (quota w) = quota w := fun heq ↦ hmore (.inl heq)
        rw [coverDue] at hne
        omega
      exact processNonCover_ok hle h
  · rename_i hnone
    have hzero : w.burner.coverSharesBurnRequested = 0 := Nat.eq_zero_of_not_pos hnone
    refine processNonCover_ok (hzero.trans_le (Nat.zero_le _)) ?_
    rw [bookCover_of_eq_zero hzero]
    exact h

theorem processLidoOracleReport_of_none (hnone : w.burner.requested = 0) :
    processLidoOracleReport I H c w = .ok w := by
  have hword : w.burner.requested < wordLimit := hnone.trans_lt (by decide +kernel)
  rw [processLidoOracleReport, Checked.add_eq_ok.mpr ⟨hword, rfl⟩, ok_bind]
  exact if_pos hnone

structure Computes (w : BurnWorld R) : Prop where
  all : w.burner.requested < wordLimit
  product : w.pool.lido.totalShares * w.burner.maxBurnAmountPerRunBasisPoints < wordLimit
  cover : w.burner.totalCoverSharesBurnt + w.burner.coverDue (quota w) < wordLimit
  nonCover : w.burner.totalNonCoverSharesBurnt + w.burner.nonCoverDue (quota w) < wordLimit
  worth : ∀ n ≤ w.burner.requested, ∃ k, w.pool.lido.getPooledEthByShares n = .ok k

theorem processNonCover_eq (h : Computes w) (hle : w.burner.coverSharesBurnRequested ≤ quota w) :
    processNonCover I H c (quota w) w.burner.coverSharesBurnRequested
      w.burner.nonCoverSharesBurnRequested
      { w with burner := w.burner.bookCover (quota w) } =
    callLido I H c (.burnShares H.address (min (quota w) w.burner.requested))
      { w with burner := w.burner.book (quota w) } := by
  obtain ⟨hcover, hnonCover⟩ := w.burner.due_of_le (quota w) hle
  have hdue := w.burner.nonCoverDue_le (quota w)
  have hsum := w.burner.coverDue_add_nonCoverDue (quota w)
  rw [hcover] at hsum
  have hburnt : w.burner.coverSharesBurnRequested + w.burner.nonCoverDue (quota w) < wordLimit :=
    hsum.trans_lt ((Nat.min_le_right _ _).trans_lt h.all)
  obtain ⟨_, hworth⟩ := h.worth _ (hdue.trans (Nat.le_add_left _ _))
  simp only [processNonCover, bookCover, book, Checked.sub_eq_ok.mpr ⟨hle, rfl⟩, ok_bind,
    ← hnonCover, Checked.add_eq_ok.mpr ⟨h.nonCover, rfl⟩, hworth,
    Checked.sub_eq_ok.mpr ⟨hdue, rfl⟩, Checked.add_eq_ok.mpr ⟨hburnt, rfl⟩, hsum]

theorem processLidoOracleReport_eq (h : Computes w) (hsome : w.burner.requested ≠ 0) :
    processLidoOracleReport I H c w = (do
      checkReporter c w.pool.lido.oracle
      callLido I H c (.burnShares H.address (min (quota w) w.burner.requested))
        { w with burner := w.burner.book (quota w) }) := by
  have hnone : ¬w.burner.coverSharesBurnRequested + w.burner.nonCoverSharesBurnRequested = 0 :=
    hsome
  rw [processLidoOracleReport, Checked.add_eq_ok.mpr ⟨h.all, rfl⟩, ok_bind, if_neg hnone]
  refine bind_congr fun _ ↦ ?_
  rw [Checked.mul_eq_ok.mpr ⟨h.product, rfl⟩, ok_bind]
  by_cases hcover : 0 < w.burner.coverSharesBurnRequested
  · obtain ⟨_, hworth⟩ := h.worth (w.burner.coverDue (quota w))
      ((w.burner.coverDue_le _).trans (Nat.le_add_right _ _))
    have hadd := Checked.add_eq_ok.mpr ⟨h.cover, rfl⟩
    have hsub := Checked.sub_eq_ok.mpr ⟨w.burner.coverDue_le (quota w), rfl⟩
    simp only [coverDue, quota] at hadd hworth hsub
    simp only [if_pos hcover, hadd, hworth, hsub, ok_bind]
    by_cases hused : w.burner.coverDue (quota w) = quota w ∨
        w.burner.nonCoverSharesBurnRequested = 0
    · rw [(w.burner.due_of_used _ hused).1, book_of_used hused]
      exact if_pos hused
    · have hne : ¬min (quota w) w.burner.coverSharesBurnRequested = quota w :=
        fun heq ↦ hused (.inl heq)
      exact (if_neg hused).trans (processNonCover_eq h (by omega))
  · have hzero : w.burner.coverSharesBurnRequested = 0 := Nat.eq_zero_of_not_pos hcover
    have hrest := processNonCover_eq (I := I) (H := H) (c := c) h (hzero.trans_le (Nat.zero_le _))
    rw [bookCover_of_eq_zero hzero] at hrest
    exact (if_neg hcover).trans hrest

end SelfOwnedStETHBurner

end LidoDao
