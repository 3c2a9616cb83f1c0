import LidoDao.BurnQuota
import LidoDao.ReportAcceptance
import LidoDao.WrappedShares

namespace LidoDao

open Evm Library.Outcome Library.Ledger Library.SharePool Library.Transition

variable {R ρ : Type} {D : Deployment} {I : INodeOperatorsRegistry R ρ} {H : HolderContract D}
  {c : BurnerCall} {w w' : BurnWorld R}

namespace SelfOwnedStETHBurner

/-- What an accepted call of the burner does. -/
inductive Change (I : INodeOperatorsRegistry R ρ) (H : HolderContract D) (c : BurnerCall)
    (w : BurnWorld R) : BurnWorld R → Prop
  | idle {b : SelfOwnedStETHBurner} (hb : b.requested = w.burner.requested) :
      Change I H c w { w with burner := b }
  | marked {stETH2Burn sharesAmount : ℕ} {pool : World R} {b : SelfOwnedStETHBurner}
      (hpos : 0 < stETH2Burn)
      (hpool : World.step D I w.pool (.lido (H.callWith c)
        (.transferFrom c.sender H.address stETH2Burn)) = .ok pool)
      (hshares : pool.lido.getSharesByPooledEth stETH2Burn = .ok sharesAmount)
      (hb : b.requested = w.burner.requested + sharesAmount) :
      Change I H c w { pool, burner := b }
  | recovered {excess : ℕ} {pool : World R}
      (hlt : w.burner.requested < w.pool.lido.shares H.address)
      (hexcess : w.pool.lido.getPooledEthByShares
        (w.pool.lido.shares H.address - w.burner.requested) = .ok excess)
      (hpool : World.step D I w.pool (.lido (H.callWith c)
        (.transfer w.burner.treasury excess)) = .ok pool) :
      Change I H c w { w with pool }
  | tokenSent {tokenId : ℕ} {pool : World R}
      (hpool : World.step D I w.pool (.lido (H.callWith c)
        (.transferFrom H.address w.burner.treasury tokenId)) = .ok pool) :
      Change I H c w { w with pool }
  | burnt {sharesAmount : ℕ} {pool : World R} {b : SelfOwnedStETHBurner}
      (hb : sharesAmount + b.requested = w.burner.requested)
      (hpool : World.step D I w.pool (.lido (H.callWith c)
        (.burnShares H.address sharesAmount)) = .ok pool) :
      Change I H c w { pool, burner := b }

theorem handle_change {m : Message} (h : handle I H c w m = .ok w') : Change I H c w w' := by
  have hmarked {stETH2Burn : ℕ} {isCover : Bool}
      (h : _requestBurnMyStETH I H c w stETH2Burn isCover = .ok w') : Change I H c w w' := by
    obtain ⟨hpos, _, _, _, hpool, hn, rfl⟩ := _requestBurnMyStETH_ok h
    exact .marked hpos hpool hn (requested_request ..)
  cases m with
  | setBurnAmountPerRunQuota maxBurnAmountPerRunBasisPoints =>
    obtain ⟨b, hb, hw'⟩ := bind_eq_ok.mp h
    cases hw'
    obtain rfl := setBurnAmountPerRunQuota_ok hb
    exact .idle rfl
  | requestBurnMyStETHForCover stETH2Burn | requestBurnMyStETH stETH2Burn => exact hmarked h
  | recoverExcessStETH =>
    rcases recoverExcessStETH_ok h with rfl | ⟨_, _, hlt, hexcess, hpool, rfl⟩
    · exact .idle rfl
    · exact .recovered hlt hexcess hpool
  | recoverERC20 token amount =>
    obtain rfl := recoverERC20_ok h
    exact .idle rfl
  | recoverERC721 token tokenId =>
    rcases recoverERC721_ok h with rfl | ⟨_, hpool, rfl⟩
    · exact .idle rfl
    · exact .tokenSent hpool
  | processLidoOracleReport =>
    rcases processLidoOracleReport_ok h with ⟨_, rfl⟩ | hburn
    · exact .idle rfl
    · obtain ⟨_, hpool, rfl⟩ := callLido_eq_ok.mp hburn
      exact .burnt (w.burner.requested_book (quota w)) hpool

theorem Change.pool (h : Change I H c w w') :
    w'.pool = w.pool ∨ ∃ e, World.step D I w.pool e = .ok w'.pool := by
  cases h with
  | idle _ => exact .inl rfl
  | marked _ hpool _ _ | recovered _ _ hpool | tokenSent hpool | burnt _ hpool =>
    exact .inr ⟨_, hpool⟩

end SelfOwnedStETHBurner

/-- The burner granted no allowance, so only it moves its shares. -/
structure Covered (H : HolderContract D) (w : BurnWorld R) : Prop where
  covered : w.burner.requested ≤ w.pool.lido.shares H.address
  unspent : ∀ a, w.pool.lido.allowances H.address a = 0

def BurnEvent.BurnsNothing : BurnEvent H ρ → Prop
  | .pool (.lido _ (.burnShares account _)) _ => account ≠ H.address
  | _ => True

namespace Covered

open SelfOwnedStETHBurner

theorem initial (h : BurnWorld.Initial I H w) : Covered H w := by
  obtain ⟨⟨treasury, voting, _, _, _, hburner⟩, _, hunspent⟩ := h
  simp only [constructor, bind_eq_ok, require_eq_ok, exists_const, pure_eq, Except.ok.injEq]
    at hburner
  obtain ⟨_, _, _, _, _, hburner⟩ := hburner
  refine ⟨?_, hunspent⟩
  rw [← hburner]
  exact Nat.zero_le _

theorem pool {e : Event D ρ} {pool : World R} (h : Covered H w)
    (he : ∀ c m, e = .lido c m → c.sender ≠ H.address)
    (hburn : ∀ c n, e ≠ .lido c (.burnShares H.address n))
    (hstep : World.step D I w.pool e = .ok pool) : Covered H { w with pool } := by
  obtain ⟨hshares, hunspent⟩ := (World.token_change hstep).of_others he hburn h.unspent
  exact ⟨h.covered.trans hshares, hunspent⟩

/-- The conversion is repeated in the same totals: what was moved is what is marked. -/
theorem marked (h : Covered H w) {stETH2Burn n : ℕ} {pool : World R} {b : SelfOwnedStETHBurner}
    (hpos : 0 < stETH2Burn)
    (hpool : World.step D I w.pool (.lido (H.callWith c)
      (.transferFrom c.sender H.address stETH2Burn)) = .ok pool)
    (hn : pool.lido.getSharesByPooledEth stETH2Burn = .ok n)
    (hb : b.requested = w.burner.requested + n) : Covered H { pool, burner := b } := by
  obtain ⟨hallowance, hle, rfl⟩ := World.transferFrom_ok hpool
  obtain ⟨_, _, _, rfl⟩ := Lido.getSharesByPooledEth_eq_ok.mp hn
  have hother : H.address ≠ c.sender := by
    intro heq
    rw [← heq] at hallowance
    exact (hpos.trans_le hallowance).ne' (h.unspent _)
  refine ⟨?_, fun a ↦ ?_⟩
  · rw [hb, World.spend_shares, moved_target hle hother]
    exact Nat.add_le_add_right h.covered _
  · rw [World.spend_allowances, if_neg fun heq ↦ hother heq.1]
    exact h.unspent a

theorem recovered (h : Covered H w) {excess : ℕ} {pool : World R}
    (hlt : w.burner.requested < w.pool.lido.shares H.address)
    (hexcess : w.pool.lido.getPooledEthByShares
      (w.pool.lido.shares H.address - w.burner.requested) = .ok excess)
    (hpool : World.step D I w.pool (.lido (H.callWith c)
      (.transfer w.burner.treasury excess)) = .ok pool) : Covered H { w with pool } := by
  obtain rfl := Lido.getPooledEthByShares_ok hexcess
  obtain ⟨_, rfl⟩ := World.transfer_ok hpool
  have hworth : w.pool.lido.sharesFor ((w.pool.lido.shares H.address - w.burner.requested) *
      w.pool.lido.pooled / w.pool.lido.totalShares) ≤
        w.pool.lido.shares H.address - w.burner.requested := standing_le_held le_rfl
  have hleft := (Nat.add_le_add_right hworth _).trans_eq (Nat.sub_add_cancel hlt.le)
  exact ⟨le_moved hleft w.burner.treasury, h.unspent⟩

theorem tokenSent (h : Covered H w) {tokenId : ℕ} {pool : World R}
    (hpool : World.step D I w.pool (.lido (H.callWith c)
      (.transferFrom H.address w.burner.treasury tokenId)) = .ok pool) :
    Covered H { w with pool } := by
  obtain ⟨hallowance, hle, rfl⟩ := World.transferFrom_ok hpool
  obtain ⟨hshares, hunspent⟩ :=
    World.spend_unspent h.unspent hallowance hle w.burner.treasury
  exact ⟨h.covered.trans hshares, hunspent⟩

theorem burnt (h : Covered H w) {n : ℕ} {pool : World R} {b : SelfOwnedStETHBurner}
    (hb : n + b.requested = w.burner.requested)
    (hpool : World.step D I w.pool (.lido (H.callWith c) (.burnShares H.address n)) = .ok pool) :
    Covered H { pool, burner := b } := by
  rw [World.step, World.burnShares_eq_ok] at hpool
  obtain ⟨_, _, ht, rfl⟩ := hpool
  obtain ⟨_, hle, _, rfl⟩ := StETH._burnShares_ok ht
  have hcovered := h.covered
  refine ⟨?_, h.unspent⟩
  have hleft : Function.update w.pool.lido.shares H.address
      (w.pool.lido.shares H.address - n) H.address = w.pool.lido.shares H.address - n :=
    Function.update_self _ _ _
  exact (by omega : b.requested ≤ w.pool.lido.shares H.address - n).trans_eq hleft.symm

theorem change (h : Covered H w) (hc : SelfOwnedStETHBurner.Change I H c w w') :
    Covered H w' := by
  cases hc with
  | idle hb => exact ⟨hb.trans_le h.covered, h.unspent⟩
  | marked hpos hpool hn hb => exact h.marked hpos hpool hn hb
  | recovered hlt hexcess hpool => exact h.recovered hlt hexcess hpool
  | tokenSent hpool => exact h.tokenSent hpool
  | burnt hb hpool => exact h.burnt hb hpool

theorem step {e : BurnEvent H ρ} (h : Covered H w) (he : e.BurnsNothing)
    (hstep : (BurnWorld.machine I H).step w e = .ok w') : Covered H w' := by
  cases e with
  | pool e hsender =>
    obtain ⟨pool, hpool, hw'⟩ := bind_eq_ok.mp hstep
    cases hw'
    refine h.pool hsender ?_ hpool
    rintro c n rfl
    exact he rfl
  | burner c m => exact h.change (handle_change hstep)

end Covered

/-- The pool finds fewer shares on an account than are to be burnt. -/
def LacksShares (r : Revert) : Prop := r = .reason "BURN_AMOUNT_EXCEEDS_BALANCE"

namespace LacksShares

open SafeMath SelfOwnedStETHBurner

variable {n : ℕ} {s : Lido}

theorem arithmetic : ∀ r ∈ arithmeticErrors, ¬LacksShares r := by
  unfold LacksShares
  decide

theorem total : Avoids LacksShares s._getTotalPooledEther := by
  simp [Lido._getTotalPooledEther, Lido._getTransientBalance, Lido._getBufferedEther, avoids_bind,
    add_avoids arithmetic, sub_avoids arithmetic, mul_avoids arithmetic, LacksShares]

theorem worth : Avoids LacksShares (s.getPooledEthByShares n) :=
  StETH.getPooledEthByShares_avoids total arithmetic

theorem burnShares {account : Address} (hle : n ≤ s.shares account) :
    Avoids LacksShares (s._burnShares s._getTotalPooledEther account n) := by
  simp [StETH._burnShares, StETH.whenNotStopped, avoids_bind, hle, sub_avoids arithmetic,
    StETH.getPooledEthByShares_avoids total arithmetic, LacksShares]

theorem callLido (hle : n ≤ w.pool.lido.shares H.address) :
    Avoids LacksShares (callLido I H c (.burnShares H.address n) w) := by
  have hburn := burnShares hle
  simp [SelfOwnedStETHBurner.callLido, World.handle, World.onLido, Lido.onToken, Call.auth,
    avoids_bind, hburn, LacksShares]

theorem processNonCover {maxSharesToBurnNow cover nonCover : ℕ}
    (hle : cover + nonCover ≤ w.pool.lido.shares H.address) :
    Avoids LacksShares (processNonCover I H c maxSharesToBurnNow cover nonCover w) := by
  simp only [SelfOwnedStETHBurner.processNonCover, avoids_bind]
  refine ⟨Checked.sub_avoids arithmetic, fun rest _ ↦ ⟨Checked.add_avoids arithmetic, fun _ _ ↦
    ⟨worth, fun _ _ ↦ ⟨Checked.sub_avoids arithmetic, fun _ _ ↦
      ⟨Checked.add_avoids arithmetic, fun k hk ↦ ?_⟩⟩⟩⟩⟩
  obtain ⟨_, rfl⟩ := Checked.add_eq_ok.mp hk
  apply callLido
  exact (Nat.add_le_add_left (Nat.min_le_right ..) _).trans hle

/-- Whatever stops the callback of a reporter, it is not a lack of shares. -/
theorem processLidoOracleReport (h : Covered H w)
    (hreporter : checkReporter c w.pool.lido.oracle = .ok ()) :
    Avoids LacksShares (processLidoOracleReport I H c w) := by
  have hcovered := h.covered
  rw [requested] at hcovered
  have hcover := (Nat.le_add_right _ _).trans hcovered
  simp only [SelfOwnedStETHBurner.processLidoOracleReport, avoids_bind, avoids_ite, hreporter,
    avoids_ok, true_and]
  refine ⟨Checked.add_avoids arithmetic, fun _ _ ↦ ⟨fun _ ↦ avoids_ok w, fun _ _ _ ↦
    ⟨Checked.mul_avoids arithmetic, fun _ _ ↦ ⟨fun _ ↦ ?_, fun _ ↦ processNonCover hcovered⟩⟩⟩⟩
  refine ⟨Checked.add_avoids arithmetic, fun _ _ ↦ ⟨worth, fun _ _ ↦
    ⟨Checked.sub_avoids arithmetic, fun _ _ ↦ ⟨fun _ ↦ ?_, fun _ ↦ processNonCover hcovered⟩⟩⟩⟩
  apply callLido
  exact (Nat.min_le_right ..).trans hcover

end LacksShares

theorem StETH._burnShares_isOk {t : StETH} {pooled : Except Revert ℕ} {total n : ℕ}
    {account : Address} (hactive : t.activeFlag = true) (haccount : account ≠ 0)
    (hbalanced : t.Balanced) (hn : n ≤ t.shares account) (hpooled : pooled = .ok total)
    (hlt : n * total < wordLimit) : ∃ u, t._burnShares pooled account n = .ok u := by
  have htotal : n ≤ t.totalShares := hn.trans (hbalanced.le account)
  let u : StETH := { t with
    totalShares := t.totalShares - n
    shares := Function.update t.shares account (t.shares account - n) }
  obtain ⟨_, hbefore⟩ := t.getPooledEthByShares_isOk hpooled hlt
  obtain ⟨_, hafter⟩ := u.getPooledEthByShares_isOk hpooled hlt
  refine ⟨u, ?_⟩
  simp only [_burnShares, bind_eq_ok, require_eq_ok, whenNotStopped_eq_ok, exists_const,
    SafeMath.sub_eq_ok]
  exact ⟨hactive, haccount, hn, _, hbefore, _, ⟨htotal, rfl⟩, _, ⟨hn, rfl⟩, _, hafter, rfl⟩

namespace SelfOwnedStETHBurner

structure Fits (w : BurnWorld R) : Prop where
  quota : w.pool.lido.totalShares * w.burner.maxBurnAmountPerRunBasisPoints < wordLimit
  cover : w.burner.totalCoverSharesBurnt + w.burner.coverSharesBurnRequested < wordLimit
  nonCover : w.burner.totalNonCoverSharesBurnt + w.burner.nonCoverSharesBurnRequested < wordLimit
  pooled : w.pool.lido.pooled < wordLimit
  tokens : w.pool.lido.totalShares * w.pool.lido.pooled < wordLimit

/-- The pool lets the burner burn its own shares. -/
structure MayBurn (H : HolderContract D) (c : BurnerCall) (w : BurnWorld R) : Prop where
  payable : w.pool.lido.Payable
  role : ∀ n, c.canPerform .burnRole [H.address.id, n] = true

namespace MayBurn

theorem congr (h : MayBurn H c w) (b : SelfOwnedStETHBurner) :
    MayBurn H c { w with burner := b } :=
  ⟨h.payable, h.role⟩

theorem pooled (h : MayBurn H c w) :
    w.pool.lido._getTotalPooledEther = .ok w.pool.lido.pooled :=
  Lido._getTotalPooledEther_eq_ok.mpr ⟨h.payable.sound, h.payable.pooled, rfl⟩

theorem tokens_lt (h : MayBurn H c w) {n : ℕ} (hn : n ≤ w.pool.lido.shares H.address) :
    n * w.pool.lido.pooled < wordLimit :=
  (Nat.mul_le_mul_right _ (hn.trans (h.payable.balanced.le H.address))).trans_lt h.payable.tokens

theorem worth_isOk (h : MayBurn H c w) {n : ℕ} (hn : n ≤ w.pool.lido.shares H.address) :
    ∃ k, w.pool.lido.getPooledEthByShares n = .ok k :=
  StETH.getPooledEthByShares_isOk _ h.pooled (h.tokens_lt hn)

theorem callLido_isOk (h : MayBurn H c w) {n : ℕ} (hn : n ≤ w.pool.lido.shares H.address) :
    ∃ w', callLido I H c (.burnShares H.address n) w = .ok w' := by
  obtain ⟨t, ht⟩ := StETH._burnShares_isOk h.payable.active H.ne_zero h.payable.balanced hn
    h.pooled (h.tokens_lt hn)
  have hpool : World.step D I w.pool (.lido (H.callWith c) (.burnShares H.address n)) =
      .ok { w.pool with lido := { w.pool.lido with toStETH := t } } := by
    rw [World.step, World.burnShares_eq_ok]
    exact ⟨h.role n, t, ht, rfl⟩
  exact ⟨_, callLido_eq_ok.mpr ⟨_, hpool, rfl⟩⟩

theorem computes (h : MayBurn H c w) (hcovered : Covered H w) (hfits : Fits w) : Computes w where
  all := (hcovered.covered.trans (h.payable.balanced.le H.address)).trans_lt h.payable.totalShares
  product := hfits.quota
  cover := (Nat.add_le_add_left (w.burner.coverDue_le _) _).trans_lt hfits.cover
  nonCover := (Nat.add_le_add_left (w.burner.nonCoverDue_le _) _).trans_lt hfits.nonCover
  worth _ hn := h.worth_isOk (hn.trans hcovered.covered)

theorem processLidoOracleReport_isOk (h : MayBurn H c w) (hcovered : Covered H w) (hfits : Fits w)
    (hreporter : checkReporter c w.pool.lido.oracle = .ok ()) :
    ∃ w', processLidoOracleReport I H c w = .ok w' := by
  by_cases hnone : w.burner.requested = 0
  · exact ⟨w, processLidoOracleReport_of_none hnone⟩
  · rw [processLidoOracleReport_eq (h.computes hcovered hfits) hnone, hreporter, ok_bind]
    exact (h.congr _).callLido_isOk ((Nat.min_le_right _ _).trans hcovered.covered)

end MayBurn

theorem checkReporter_isOk {oracle : Address}
    (h : c.sender = oracle ∨ c.getBeaconReportReceiver oracle = .ok c.sender) :
    checkReporter c oracle = .ok () := by
  rw [checkReporter]
  split
  · rfl
  · rename_i hne
    rw [h.resolve_left hne, ok_bind]
    exact require_of rfl

end SelfOwnedStETHBurner

open SelfOwnedStETHBurner

theorem BurnWorld.reachable_pool {e : BurnEvent H ρ}
    (hpool : Reachable (World.machine D I) w.pool) (h : (machine I H).step w e = .ok w') :
    Reachable (World.machine D I) w'.pool := by
  cases e with
  | pool e _ =>
    obtain ⟨pool, hstep, hw'⟩ := bind_eq_ok.mp h
    cases hw'
    exact hpool.step hstep
  | burner c m =>
    rcases (handle_change h).pool with heq | ⟨_, hstep⟩
    · exact heq ▸ hpool
    · exact hpool.step hstep

/-- The burner holds the shares marked for burning: its excess is all that can be recovered,
and a report's burn finds them there. -/
theorem marked_shares_are_held {w₀ : BurnWorld R} (hinit : (BurnWorld.machine I H).initial w₀)
    (hrun : Runs (BurnWorld.machine I H) (fun _ e ↦ e.BurnsNothing) w₀ w) :
    w.burner.coverSharesBurnRequested + w.burner.nonCoverSharesBurnRequested ≤
      w.pool.lido.shares H.address ∧
    (∀ c w', (BurnWorld.machine I H).step w (.burner c .recoverExcessStETH) = .ok w' →
      w'.burner = w.burner ∧ w.burner.coverSharesBurnRequested +
        w.burner.nonCoverSharesBurnRequested ≤ w'.pool.lido.shares H.address) ∧
    ∀ c, (c.sender = w.pool.lido.oracle ∨
        c.getBeaconReportReceiver w.pool.lido.oracle = .ok c.sender) →
      (∀ r, (BurnWorld.machine I H).step w (.burner c .processLidoOracleReport) = .error r →
        r ≠ .reason "BURN_AMOUNT_EXCEEDS_BALANCE") ∧
      (w.pool.lido.activeFlag = true → (∀ n, c.canPerform .burnRole [H.address.id, n] = true) →
        Fits w →
        ∃ w', (BurnWorld.machine I H).step w (.burner c .processLidoOracleReport) = .ok w') := by
  obtain ⟨hpool, hcovered⟩ := hrun.invariant
    (P := fun w ↦ Reachable (World.machine D I) w.pool ∧ Covered H w)
    (fun w e w' he hw hstep ↦ ⟨BurnWorld.reachable_pool hw.1 hstep, hw.2.step he hstep⟩)
    ⟨hinit.2.1, .initial hinit⟩
  refine ⟨hcovered.covered, ?_, fun c hc ↦ ⟨?_, ?_⟩⟩
  · intro c w' hstep
    have hcovered' := hcovered.change (handle_change (m := .recoverExcessStETH) hstep)
    rcases recoverExcessStETH_ok hstep with rfl | ⟨_, _, _, _, _, rfl⟩
    · exact ⟨rfl, hcovered'.covered⟩
    · exact ⟨rfl, hcovered'.covered⟩
  · exact LacksShares.processLidoOracleReport hcovered (checkReporter_isOk hc)
  · intro hactive hrole hfits
    have hsane := World.sane hpool
    have hmay : MayBurn H c w := ⟨⟨hactive, hsane.sound, hfits.pooled, hsane.balanced,
      hsane.totalShares, hfits.tokens⟩, hrole⟩
    exact hmay.processLidoOracleReport_isOk hcovered hfits (checkReporter_isOk hc)

namespace Sample

def burner : HolderContract deployment where
  address := 21
  ne_zero := by decide
  ne_lido := by decide

def burnMachine := BurnWorld.machine (registryContract deployment layout) burner

def aroundBurner (m : LidoMessage) : BurnEvent burner (RegistryCall deployment) :=
  .pool (admin m) fun c m h ↦ by
    cases h
    decide

def burnerCall (sender : Address) : BurnerCall where
  sender := sender
  blockNumber := 10
  canPerform _ _ := true
  getBeaconReportReceiver _ := .ok 0

def burnStart : BurnWorld NodeOperatorsRegistry where
  pool := start
  burner := {
    coverSharesBurnRequested := 0, nonCoverSharesBurnRequested := 0, totalCoverSharesBurnt := 0
    totalNonCoverSharesBurnt := 0, maxBurnAmountPerRunBasisPoints := 5000, lido := 1
    treasury := 3, voting := 5 }

def burnRun : List (BurnEvent burner (RegistryCall deployment)) :=
  [aroundBurner .resume, aroundBurner (.submit 0 100), aroundBurner (.approve 21 60),
    .burner (burnerCall 5) (.requestBurnMyStETHForCover 60), aroundBurner (.transfer 21 20),
    .burner (burnerCall 7) .recoverExcessStETH, .burner (burnerCall 2) .processLidoOracleReport]

theorem burnStart_initial : burnMachine.initial burnStart :=
  ⟨⟨3, 5, 0, 0, 5000, rfl⟩, start_reachable, fun _ ↦ rfl⟩

theorem ten_marked_shares_are_held : ∃ w w', Runs burnMachine (fun _ e ↦ e.BurnsNothing)
    burnStart w ∧ w.burner.coverSharesBurnRequested = 10 ∧ 10 ≤ w.pool.lido.shares 21 ∧
    burnMachine.step w (.burner (burnerCall 2) .processLidoOracleReport) = .ok w' := by
  have hrun : reaches burnMachine burnStart burnRun
      (fun w ↦ decide (w.burner.coverSharesBurnRequested = 10 ∧
        w.burner.nonCoverSharesBurnRequested = 0 ∧ w.burner.totalCoverSharesBurnt = 50 ∧
        w.burner.totalNonCoverSharesBurnt = 0 ∧ w.burner.maxBurnAmountPerRunBasisPoints = 5000 ∧
        w.pool.lido.oracle = 2 ∧ w.pool.lido.activeFlag = true ∧ w.pool.lido.pooled = 100 ∧
        w.pool.lido.totalShares = 50)) = true := by
    decide +kernel
  obtain ⟨w, hruns, hw⟩ := Runs.of_reaches (p := fun _ e ↦ e.BurnsNothing) hrun fun e he _ ↦ by
    simp only [burnRun, List.mem_cons, List.not_mem_nil, or_false] at he
    rcases he with rfl | rfl | rfl | rfl | rfl | rfl | rfl
    all_goals trivial
  obtain ⟨hcover, hnonCover, hburnt, hnoneBurnt, hquota, horacle, hactive, hpooled, htotal⟩ :=
    of_decide_eq_true hw
  obtain ⟨hheld, _, hreport⟩ := marked_shares_are_held burnStart_initial hruns
  have hfits : Fits w := by
    constructor <;> simp only [hcover, hnonCover, hburnt, hnoneBurnt, hquota, hpooled, htotal] <;>
      rw [wordLimit] <;> decide
  obtain ⟨w', hw'⟩ := (hreport (burnerCall 2) (.inl horacle.symm)).2 hactive (fun _ ↦ rfl) hfits
  rw [hcover, hnonCover] at hheld
  exact ⟨w, w', hruns, hcover, hheld, hw'⟩

end Sample

end LidoDao
