import LidoDao.FeePrice
import LidoDao.PooledEther
import LidoDao.SubmitPrice
import LidoDao.WrappedShares

namespace LidoDao

open Evm Library.Outcome Library.SharePool Library.Transition EtherBooks

variable {R ρ : Type} {D : Deployment} {I : INodeOperatorsRegistry R ρ} {w w' : World R}
  {e : Event D ρ} {v : ℕ}

def Lido.PriceFalls (s s' : Lido) : Prop :=
  s'.pooled * s.totalShares < s.pooled * s'.totalShares

/-- What is submitted is not worth a share. -/
def Event.Dust (w : World R) (e : Event D ρ) : Prop :=
  ∃ v, e.submitted = some v ∧ v * w.lido.totalShares < w.lido.pooled

/-- A report lowers the pooled ether. -/
def Event.Loss (w : World R) (e : Event D ρ) (w' : World R) : Prop :=
  (∃ c v b, e = .lido c (.handleOracleReport v b)) ∧ w'.lido.pooled < w.lido.pooled

theorem Event.submitted_of_entry (h : ∀ n x, e.entry n x = .paidIn v) : e.submitted = some v := by
  have hentry := h 0 0
  cases e with
  | registry _ | forceEther _ | fundVault _ _ | deployVault _ _ _ _ => cases hentry
  | lido c m =>
    cases m with
    | submit _ msgValue | fallback _ msgValue =>
      cases hentry
      rfl
    | transferToVault token =>
      rw [Event.entry] at hentry
      split at hentry
      · cases hentry
      · cases hentry
    | _ => cases hentry

theorem Change.totalShares_le (h : Change I w e w') (he : e.submitted = none)
    (hreport : ∀ c v b, e ≠ .lido c (.handleOracleReport v b)) :
    w'.lido.totalShares ≤ w.lido.totalShares := by
  cases h with
  | token _ ht => exact ht.totalShares
  | control _ | settings _ _ _ | vaults _ | credentials _ | registry _ | recovered _
  | forceEther _ => exact le_rfl
  | paidIn hpaid h => exact absurd (he.symm.trans (Event.submitted_of_entry hpaid)) (by simp)
  | rewardsIn h =>
    obtain ⟨_, _, rfl⟩ := Lido.receiveELRewards_eq_ok.mp h
    exact le_rfl
  | deposited _ _ h =>
    exact (congrArg StETH.totalShares (Lido._depositBufferedEther_frame h).toStETH).le
  | reported v b h => exact absurd rfl (hreport _ v b)

namespace World

theorem submitted_totalSupply (hs : w.lido.Sane) (he : e.submitted = some v)
    (h : step D I w e = .ok w') : w.lido.totalSupply = .ok w.lido.pooled := by
  obtain ⟨c, m, s, hsubmit, rfl⟩ := step_submitted he h
  obtain ⟨_, ⟨n, hn, _⟩, _⟩ := Lido._submit_ok hsubmit
  obtain ⟨_, hpooled, _⟩ := StETH.getSharesByPooledEth_eq_ok.mp hn
  obtain ⟨_, hlt, _⟩ := Lido._getTotalPooledEther_eq_ok.mp hpooled
  exact Lido.totalSupply_eq_ok.mpr ⟨hs.sound, hlt, rfl⟩

theorem submitted_priceFalls_iff (hs : w.lido.Sane) (he : e.submitted = some v)
    (h : step D I w e = .ok w') :
    w.lido.PriceFalls w'.lido ↔ v * w.lido.totalShares < w.lido.pooled := by
  rw [Lido.PriceFalls]
  rcases Nat.eq_zero_or_pos w.lido.pooled with hzero | hpos
  · rw [hzero, Nat.zero_mul]
    exact iff_of_false (Nat.not_lt_zero _) (Nat.not_lt_zero _)
  · obtain ⟨hv, hminted, hpooled, _⟩ :=
      submitted_effect he h (submitted_totalSupply hs he h) hpos
    have hfloor : v * w.lido.totalShares / w.lido.pooled = 0 ↔
        v * w.lido.totalShares < w.lido.pooled := Nat.div_eq_zero_iff_lt hpos
    rw [hpooled, hminted, mintedShares]
    constructor
    · intro hfalls
      by_contra hworth
      rw [if_neg (hfloor.not.mpr hworth)] at hfalls
      exact absurd (issue_price (Nat.div_mul_le_self _ _)) hfalls.not_ge
    · intro hdust
      rw [if_pos (hfloor.mpr hdust)]
      exact issue_lowers_price hv hdust

theorem pooled_eq (h : w.PooledAsDocumented e w') (he : e.submitted = none)
    (hreport : ∀ c v b, e ≠ .lido c (.handleOracleReport v b)) :
    w'.lido.pooled = w.lido.pooled := by
  unfold PooledAsDocumented at h
  split at h
  · cases he
  · cases he
  · exact absurd rfl (hreport _ _ _)
  · exact h

theorem report_priceFalls_iff {c : LidoCall D} {b : ℕ} (hs : w.lido.Sane)
    (hpos : 0 < w.lido.totalShares)
    (h : step D I w (.lido c (.handleOracleReport v b)) = .ok w') :
    w.lido.PriceFalls w'.lido ↔ w'.lido.pooled < w.lido.pooled := by
  have hreport : Lido.handleOracleReport D I c.sender v b w = .ok w' := h
  rw [Lido.PriceFalls]
  obtain ⟨_, _, x, vaults, _, ⟨_, rfl⟩ | ⟨hgain, _⟩⟩ := Lido.handleOracleReport_ok hreport
  · exact Nat.mul_lt_mul_right hpos
  · obtain ⟨m, payments, hfee⟩ := step_feeMinted hs hreport hgain
    have hprice : w.lido.pooled * w'.lido.totalShares ≤ w'.lido.pooled * w.lido.totalShares := by
      rw [hfee.totalShares, hfee.formula]
      exact feeShares_price hfee.affordable hfee.pooled hs.valid.fee
    have hpooled := hfee.pooled
    exact iff_of_false hprice.not_gt (by omega)

/-- Where there are shares, only a report of a loss and the submit of dust lower their price. -/
theorem priceFalls_iff (hs : w.lido.Sane) (hpos : 0 < w.lido.totalShares)
    (h : step D I w e = .ok w') :
    w.lido.PriceFalls w'.lido ↔ e.Loss w w' ∨ e.Dust w := by
  cases he : e.submitted with
  | some v =>
    have hloss : ¬e.Loss w w' := by
      intro h'
      obtain ⟨⟨c, v', b, rfl⟩, _⟩ := h'
      cases he
    rw [submitted_priceFalls_iff hs he h]
    constructor
    · exact fun hdust ↦ .inr ⟨v, he, hdust⟩
    · intro h'
      rcases h' with hfalls | ⟨v', hv', hdust⟩
      · exact absurd hfalls hloss
      · rw [he] at hv'
        rwa [Option.some.inj hv']
  | none =>
    have hdust : ¬e.Dust w := by
      intro h'
      obtain ⟨v, hv, _⟩ := h'
      cases he.symm.trans hv
    by_cases hreport : ∃ c v b, e = .lido c (.handleOracleReport v b)
    · obtain ⟨c, v, b, rfl⟩ := hreport
      rw [report_priceFalls_iff hs hpos h]
      constructor
      · exact fun hfalls ↦ .inl ⟨⟨c, v, b, rfl⟩, hfalls⟩
      · intro h'
        rcases h' with ⟨_, hfalls⟩ | hfalls
        · exact hfalls
        · exact absurd hfalls hdust
    · have hother : ∀ c v b, e ≠ .lido c (.handleOracleReport v b) :=
        fun c v b he ↦ hreport ⟨c, v, b, he⟩
      have hchange := step_change h
      have hshares := hchange.totalShares_le he hother
      have hpooled := pooled_eq (entry_documented hs.sound hchange hother) he hother
      rw [Lido.PriceFalls, hpooled]
      refine iff_of_false (Nat.mul_le_mul_left _ hshares).not_gt ?_
      intro h
      rcases h with ⟨hreported, _⟩ | hfalls
      · exact hreport hreported
      · exact hdust hfalls

end World

section Passive

variable {a : Address}

/-- A holder who calls nothing, and whose shares nobody burns. -/
def Event.Spares (a : Address) (e : Event D ρ) : Prop :=
  ∀ c m, e = .lido c m → c.sender ≠ a ∧ ∀ amount, m ≠ .burnShares a amount

/-- An accepted event is neither a loss nor dust. -/
def Event.Lossless (D : Deployment) (I : INodeOperatorsRegistry R ρ) (w : World R)
    (e : Event D ρ) : Prop :=
  (∀ w', World.step D I w e = .ok w' → ¬e.Loss w w') ∧ ¬e.Dust w

/-- The holder has granted nothing. -/
def Ungranted (w : World R) (a : Address) : Prop := ∀ spender, w.lido.allowances a spender = 0

theorem Ungranted.step (hgrants : Ungranted w a) (hzero : a ≠ 0) (ha : a ≠ D.lido)
    (hspares : e.Spares a) (h : World.step D I w e = .ok w') :
    w.lido.shares a ≤ w'.lido.shares a ∧ Ungranted w' a := by
  apply (World.token_change h).of_others (H := ⟨a, hzero, ha⟩)
  · exact fun c m he ↦ (hspares c m he).1
  · exact fun c n he ↦ (hspares c _ he).2 n rfl
  · exact hgrants

/-- What a run keeps for a holder who had shares. -/
structure Kept (a : Address) (s : Lido) (w' : World R) : Prop where
  sane : w'.lido.Sane
  ungranted : Ungranted w' a
  shares : s.shares a ≤ w'.lido.shares a
  price : s.pooled * w'.lido.totalShares ≤ w'.lido.pooled * s.totalShares

theorem Kept.step {s : Lido} (h : Kept a s w) (hzero : a ≠ 0) (ha : a ≠ D.lido)
    (hpos : 0 < s.shares a)
    (hspares : e.Spares a) (hlossless : e.Lossless D I w) (hstep : World.step D I w e = .ok w') :
    Kept a s w' := by
  have htotal : 0 < w.lido.totalShares :=
    hpos.trans_le (h.shares.trans (h.sane.balanced.le a))
  have hprice : w.lido.pooled * w'.lido.totalShares ≤ w'.lido.pooled * w.lido.totalShares := by
    rw [← not_lt]
    intro hfalls
    rcases (World.priceFalls_iff h.sane htotal hstep).mp hfalls with hloss | hdust
    · exact hlossless.1 w' hstep hloss
    · exact hlossless.2 hdust
  obtain ⟨hshares, hungranted⟩ := h.ungranted.step hzero ha hspares hstep
  exact ⟨(World.step_change hstep).sane h.sane, hungranted, h.shares.trans hshares,
    price_trans htotal h.price hprice⟩

theorem Kept.balanceOf {s : Lido} {n n' : ℕ} (h : Kept a s w) (hpos : 0 < s.shares a)
    (hn : s.balanceOf a = .ok n) (hn' : w.lido.balanceOf a = .ok n') : n ≤ n' := by
  have htotal : 0 < w.lido.totalShares :=
    hpos.trans_le (h.shares.trans (h.sane.balanced.le a))
  rcases Lido.balanceOf_ok hn with ⟨_, rfl⟩ | ⟨htotal', _, _, rfl⟩
  · exact Nat.zero_le _
  · rcases Lido.balanceOf_ok hn' with ⟨hzero, _⟩ | ⟨_, _, _, rfl⟩
    · exact absurd hzero htotal.ne'
    · exact worth_le_worth htotal' htotal h.shares h.price

/-- The price of a share falls exactly where a report shows a loss or dust is submitted; in a
run without these the balance of a holder who does nothing never falls. -/
theorem passive_balance_never_falls (h : Reachable (World.machine D I) w) :
    (∀ e w', 0 < w.lido.totalShares → (World.machine D I).step w e = .ok w' →
      (w.lido.PriceFalls w'.lido ↔ e.Loss w w' ∨ e.Dust w)) ∧
    ∀ a w', a ≠ 0 → a ≠ D.lido → Ungranted w a →
      Runs (World.machine D I) (fun w e ↦ e.Lossless D I w ∧ e.Spares a) w w' →
      ∀ n n', w.lido.balanceOf a = .ok n → w'.lido.balanceOf a = .ok n' → n ≤ n' := by
  have hs := World.sane h
  refine ⟨fun e w' hpos hstep ↦ World.priceFalls_iff hs hpos hstep, ?_⟩
  intro a w' hzero ha hgrants hruns n n' hn hn'
  rcases Nat.eq_zero_or_pos (w.lido.shares a) with hnone | hpos
  · rcases Lido.balanceOf_ok hn with ⟨_, rfl⟩ | ⟨_, _, _, rfl⟩
    · exact Nat.zero_le _
    · rw [hnone, Nat.zero_mul, Nat.zero_div]
      exact Nat.zero_le _
  · have hkept : Kept a w.lido w' := hruns.invariant (P := Kept a w.lido)
      (fun t e u hp hkept hstep ↦ hkept.step hzero ha hpos hp.2 hp.1 hstep)
      ⟨hs, hgrants, le_rfl, le_rfl⟩
    exact hkept.balanceOf hpos hn hn'

end Passive

namespace Sample

def giftRun : List (Event deployment (RegistryCall deployment)) := [
  admin .resume,
  admin (.setFee 1000),
  admin (.submit 0 1000),
  admin (.transfer 6 400)]

def profitRun : List (Event deployment (RegistryCall deployment)) := [
  report 0 200,
  admin (.submit 0 50),
  admin (.burnShares 5 10)]

def sparesSix : Event deployment (RegistryCall deployment) → Bool
  | .lido c (.burnShares account _) => c.sender ≠ 6 && account ≠ 6
  | .lido c _ => c.sender ≠ 6
  | _ => true

def harmless (w : World NodeOperatorsRegistry) (e : Event deployment (RegistryCall deployment)) :
    Bool :=
  passes ((jointSystem deployment layout).step w e) (fun w' ↦ w.lido.pooled ≤ w'.lido.pooled) &&
    match e.submitted with
    | some v => w.lido.pooled ≤ v * w.lido.totalShares
    | none => true

theorem spares_of_sparesSix {e : Event deployment (RegistryCall deployment)}
    (h : sparesSix e = true) : e.Spares 6 := by
  rintro c m rfl
  cases m with
  | burnShares account amount =>
    rw [sparesSix, Bool.and_eq_true] at h
    refine ⟨of_decide_eq_true h.1, fun amount' heq ↦ ?_⟩
    cases heq
    exact of_decide_eq_true h.2 rfl
  | _ => exact ⟨of_decide_eq_true h, fun _ heq ↦ by cases heq⟩

theorem lossless_of_harmless {w : World NodeOperatorsRegistry}
    {e : Event deployment (RegistryCall deployment)} (h : harmless w e = true) :
    e.Lossless deployment (registryContract deployment layout) w := by
  unfold harmless at h
  rw [Bool.and_eq_true] at h
  refine ⟨?_, ?_⟩
  · intro w' hstep hloss
    obtain ⟨u, hu, hle⟩ := exists_of_passes h.1
    cases hstep.symm.trans hu
    exact (of_decide_eq_true hle).not_gt hloss.2
  · intro h'
    obtain ⟨v, hv, hlt⟩ := h'
    rw [hv] at h
    exact (of_decide_eq_true h.2).not_gt hlt

theorem gift_grows : ∃ w w' n n',
    Reachable (jointSystem deployment layout) w ∧ Ungranted w 6 ∧
    Runs (jointSystem deployment layout) (fun w e ↦
      e.Lossless deployment (registryContract deployment layout) w ∧ e.Spares 6) w w' ∧
    w.lido.balanceOf 6 = .ok n ∧ w'.lido.balanceOf 6 = .ok n' ∧ n = 400 ∧ n' = 477 ∧ n ≤ n' := by
  have hgift : reaches (jointSystem deployment layout) start giftRun (fun w ↦
      decide (w.lido.balanceOf 6 = .ok 400) &&
        reachesBy (jointSystem deployment layout) (fun w e ↦ harmless w e = true ∧
          sparesSix e = true) (fun w' ↦ decide (w'.lido.balanceOf 6 = .ok 477)) w profitRun) =
      true := by
    decide +kernel
  have hspared : ∀ e ∈ giftRun, sparesSix e = true := by decide +kernel
  obtain ⟨w, hw, hp⟩ := Runs.of_reaches (p := fun _ e ↦ e.Spares 6) hgift
    fun e he _ ↦ spares_of_sparesSix (hspared e he)
  rw [Bool.and_eq_true] at hp
  have hn := of_decide_eq_true hp.1
  obtain ⟨w', hw', hq⟩ := Runs.of_reachesBy hp.2
  have hn' := of_decide_eq_true hq
  have hreachable := hw.reachable start_reachable
  have hsix : (6 : Address) ≠ 0 := by decide
  have hgrants : Ungranted w 6 :=
    hw.invariant (P := fun w ↦ Ungranted w 6)
      (fun _ _ _ he hs hstep ↦ (hs.step hsix six_ne_lido he hstep).2) fun _ ↦ rfl
  have hruns : Runs (jointSystem deployment layout) (fun w e ↦
      e.Lossless deployment (registryContract deployment layout) w ∧ e.Spares 6) w w' :=
    hw'.mono fun _ _ h ↦ ⟨lossless_of_harmless h.1, spares_of_sparesSix h.2⟩
  obtain ⟨_, hnever⟩ := passive_balance_never_falls hreachable
  exact ⟨w, w', 400, 477, hreachable, hgrants, hruns, hn, hn', rfl, rfl,
    hnever 6 w' hsix six_ne_lido hgrants hruns 400 477 hn hn'⟩

end Sample

end LidoDao
