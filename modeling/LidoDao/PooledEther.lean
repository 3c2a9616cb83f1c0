import LidoDao.Asserts
import LidoDao.JointSystem

namespace LidoDao

open Evm Library.Outcome Library.Transition EtherBooks

variable {R ρ : Type} {D : Deployment} {I : INodeOperatorsRegistry R ρ}

namespace World

variable {w w' : World R} {e : Event D ρ}

def vaultBalance (w : World R) : ℕ :=
  match w.vaults w.lido.elRewardsVault with
  | some vault => vault.balance
  | none => 0

/-- The rewards a report should withdraw: all there are, up to the limit in basis
points of the pooled ether. -/
def withdrawal (w : World R) (v b : ℕ) : ℕ :=
  if w.lido.elRewardsVault = 0 then 0
  else min w.vaultBalance ((w.lido.report v b).capProduct / Lido.totalBasisPoints)

/-- What each operation should do to the pooled ether. -/
def PooledAsDocumented (w : World R) (e : Event D ρ) (w' : World R) : Prop :=
  match e with
  | .lido _ (.submit _ msgValue) | .lido _ (.fallback _ msgValue) =>
    w'.lido.pooled = w.lido.pooled + msgValue
  | .lido _ (.handleOracleReport v b) =>
    let x := w.withdrawal v b
    (w'.lido.pooled : ℤ) = w.lido.pooled +
      (b - w.lido.beaconBalance - Lido.depositSize * (v - w.lido.beaconValidators)) + x ∧
    w'.vaultBalance + x = w.vaultBalance ∧
    w'.lido.bufferedEther = w.lido.bufferedEther + x ∧
    w'.lido.balance = w.lido.balance + x ∧
    w'.lido.totalELRewardsCollected = w.lido.totalELRewardsCollected + x
  | _ => w'.lido.pooled = w.lido.pooled

/-- The cap is not cut off by the word size, or too high to matter even so. -/
def CapFits (w : World R) : Event D ρ → Prop
  | .lido _ (.handleOracleReport v b) =>
    w.lido.elRewardsVault = 0 ∨ (w.lido.report v b).capProduct < wordLimit ∨
      w.vaultBalance ≤ (w.lido.report v b).withdrawalCap
  | _ => True

/-- Cutting a product off at the word size lowers a capped quotient of it, unless
the cap is reached even so. -/
theorem min_mod_div_eq_iff {y p n k : ℕ} (hk : 0 < k) (hkn : k ≤ n) :
    min y (p % n / k) = min y (p / k) ↔ p < n ∨ y ≤ p % n / k := by
  by_cases hlt : p < n
  · simp [Nat.mod_eq_of_lt hlt, hlt]
  · have hle : p % n + k ≤ p := by
      have hdiv : 1 ≤ p / n := (Nat.one_le_div_iff (by omega)).mpr (by omega)
      have hmul : n * 1 ≤ n * (p / n) := Nat.mul_le_mul_left n hdiv
      have hsplit := Nat.div_add_mod p n
      omega
    have hquot : p % n / k + 1 ≤ p / k := by
      rw [← Nat.add_div_right _ hk]
      exact Nat.div_le_div_right hle
    simp only [hlt, false_or]
    omega

section Report

variable {c : LidoCall D} {v b x : ℕ} {vaults : Address → Option ELRewardsVault}

theorem withdrawn_eq_iff
    (h : Lido.Withdrawn D { w with lido := w.lido.report v b } x vaults) :
    x = w.withdrawal v b ↔ w.CapFits (.lido c (.handleOracleReport v b) : Event D ρ) := by
  cases h with
  | noVault hnone =>
    have hnone' : w.lido.elRewardsVault = 0 := hnone
    simp [withdrawal, CapFits, hnone']
  | vault hsome hvault hlido =>
    have hsome' : w.lido.elRewardsVault ≠ 0 := hsome
    rename_i vault
    have hbalance : w.vaultBalance = vault.balance := by
      unfold vaultBalance
      rw [show w.vaults w.lido.elRewardsVault = some vault from hvault]
    have hword : Lido.totalBasisPoints ≤ wordLimit := by decide +kernel
    simp only [withdrawal, CapFits, hsome', if_false, false_or, hbalance]
    exact min_mod_div_eq_iff (by decide) hword

theorem withdrawn_vaultBalance {s : Lido}
    (h : Lido.Withdrawn D { w with lido := w.lido.report v b } x vaults)
    (hs : s.elRewardsVault = w.lido.elRewardsVault) :
    vaultBalance { w with lido := s, vaults } + x = w.vaultBalance := by
  cases h with
  | noVault hnone =>
    simp only [vaultBalance, hs, Nat.add_zero]
  | vault hsome hvault hlido =>
    rename_i vault
    have hbefore : w.vaultBalance = vault.balance := by
      unfold vaultBalance
      rw [show w.vaults w.lido.elRewardsVault = some vault from hvault]
    have hafter (rest : ELRewardsVault) : vaultBalance { w with
        lido := s, vaults := Function.update w.vaults w.lido.elRewardsVault (some rest) } =
        rest.balance := by
      simp only [vaultBalance, hs, Function.update_self]
    rw [hbefore]
    refine (congrArg (· + _) (hafter _)).trans ?_
    exact Nat.sub_add_cancel (Nat.min_le_left _ _)

theorem report_documented_iff (hs : Sound w.lido.books)
    (h : Lido.handleOracleReport D I c.sender v b w = .ok w') :
    w.PooledAsDocumented (.lido c (.handleOracleReport v b) : Event D ρ) w' ↔
      w.CapFits (.lido c (.handleOracleReport v b) : Event D ρ) := by
  have hvault := congrArg Settings.elRewardsVault (Lido.handleOracleReport_frame h).settings
  obtain ⟨hmore, hless, x, vaults, s, hwithdrawn, rfl, hbooks⟩ := Lido.handleOracleReport_books h
  have hposts := Lido.report_posts hmore hless (b := b) x
  rw [← withdrawn_eq_iff hwithdrawn]
  have hbuffered : s.bufferedEther = w.lido.bufferedEther + x := congrArg Books.buffered hbooks
  have hbalance : s.balance = w.lido.balance + x := congrArg Books.balance hbooks
  have hcollected : s.totalELRewardsCollected = w.lido.totalELRewardsCollected + x :=
    congrArg Books.rewardsCollected hbooks
  have hpooled : (s.pooled : ℤ) = w.lido.pooled +
      (b - w.lido.beaconBalance - Lido.depositSize * (v - w.lido.beaconValidators)) + x := by
    have hchange := hposts.pooled hs
    rw [← hbooks] at hchange
    rw [add_assoc]
    exact hchange
  constructor
  · intro hdoc
    have hdoc' : s.bufferedEther = w.lido.bufferedEther + w.withdrawal v b := hdoc.2.2.1
    omega
  · intro hx
    simp only [PooledAsDocumented, ← hx]
    exact ⟨hpooled, withdrawn_vaultBalance hwithdrawn hvault, hbuffered, hbalance, hcollected⟩

end Report

theorem entry_documented (hs : Sound w.lido.books) (h : Change I w e w')
    (hreport : ∀ c v b, e ≠ .lido c (.handleOracleReport v b)) : w.PooledAsDocumented e w' := by
  obtain ⟨n, x, hposts⟩ := h.posts
  have hpooled : (w'.lido.pooled : ℤ) = w.lido.pooled +
      (e.entry n x).pooledChange Lido.depositSize w.lido.books := hposts.pooled hs
  cases e with
  | registry _ | forceEther _ | fundVault _ _ | deployVault _ _ _ _ =>
    simpa [PooledAsDocumented, Event.entry, Entry.pooledChange] using hpooled
  | lido c m =>
    cases m with
    | handleOracleReport v b => exact absurd rfl (hreport c v b)
    | submit _ msgValue | fallback _ msgValue =>
      simp only [Event.entry, Entry.pooledChange] at hpooled
      exact_mod_cast hpooled
    | transferToVault token =>
      have hzero : ((Event.lido c (.transferToVault token) : Event D ρ).entry n x).pooledChange
          Lido.depositSize w.lido.books = 0 := by
        by_cases htoken : token = 0 <;> simp [Event.entry, htoken, Entry.pooledChange]
      rw [hzero, add_zero] at hpooled
      exact_mod_cast hpooled
    | _ => simpa [PooledAsDocumented, Event.entry, Entry.pooledChange] using hpooled

/-- The assertion of `_getTransientBalance` stays silent, unless it is the registry
that fails with it. -/
theorem getTransientBalance_never_asserts (hs : Sound w.lido.books)
    (hI : I.Spares (· = .assertion "_getTransientBalance") w.registry) (e : Event D ρ) :
    step D I w e ≠ .error (.assertion "_getTransientBalance") := by
  intro h
  have hbad : ∀ r, r = Revert.assertion "_getTransientBalance" → r ∈ unreachable := by
    intro r hr
    rw [hr]
    decide
  refine step_avoids hbad hs hI ?_ e _ h rfl
  intro n keys r' _
  exact .inr fun text h ↦ nomatch h

end World

/-- In every reachable state the pooled ether is what the books say, and each
operation changes it as documented exactly when the withdrawal cap of a report
fits. -/
theorem pooled_ether_changes_as_documented_iff {w : World R}
    (h : Reachable (World.machine D I) w) :
    w.lido.beaconValidators ≤ w.lido.depositedValidators ∧
    (∀ T, w.lido.getTotalPooledEther = .ok T ↔
      w.lido.pooled < wordLimit ∧ T = w.lido.pooled) ∧
    (∀ e w', World.step D I w e = .ok w' → (w.PooledAsDocumented e w' ↔ w.CapFits e)) ∧
    (I.Spares (· = .assertion "_getTransientBalance") w.registry →
      ∀ e, World.step D I w e ≠ .error (.assertion "_getTransientBalance")) := by
  have hs := (World.sane h).sound
  refine ⟨hs.seen, ?_, ?_, ?_⟩
  · intro T
    refine Lido._getTotalPooledEther_eq_ok.trans ?_
    exact ⟨fun h ↦ h.2, fun h ↦ ⟨hs, h⟩⟩
  · intro e w' hstep
    have hchange := World.step_change hstep
    by_cases hreport : ∃ c v b, e = .lido c (.handleOracleReport v b)
    · obtain ⟨c, v, b, rfl⟩ := hreport
      exact World.report_documented_iff hs hstep
    · have hreport' : ∀ c v b, e ≠ .lido c (.handleOracleReport v b) :=
        fun c v b he ↦ hreport ⟨c, v, b, he⟩
      apply iff_of_true (World.entry_documented hs hchange hreport')
      unfold World.CapFits
      split
      · exact absurd rfl (hreport' _ _ _)
      · trivial
  · exact World.getTransientBalance_never_asserts hs

/-- With ordinary amounts a report withdraws what it should. -/
theorem report_documented_after_an_ordinary_run :
    ∃ w w', Reachable (jointSystem Sample.deployment Sample.layout) w ∧
      World.step Sample.deployment (registryContract Sample.deployment Sample.layout) w
        (Sample.report 0 700) = .ok w' ∧ w.withdrawal 0 700 = 24 ∧
      w.PooledAsDocumented (Sample.report 0 700) w' := by
  let step := World.step Sample.deployment (registryContract Sample.deployment Sample.layout)
  let p : World NodeOperatorsRegistry → Bool := fun w ↦
    (step w (Sample.report 0 700)).isOk ∧ w.withdrawal 0 700 = 24 ∧
      (w.lido.report 0 700).capProduct < wordLimit
  obtain ⟨w, hw, hp⟩ := Sample.reachable_of_run (p := p) (l := [
    Sample.admin .resume,
    Sample.admin (.setELRewardsWithdrawalLimit 200),
    .deployVault 50 1 3 100,
    Sample.admin (.setELRewardsVault 50),
    Sample.admin (.submit 0 500)]) (by decide +kernel)
  obtain ⟨hok, hx, hfits⟩ := of_decide_eq_true hp
  obtain ⟨w', h⟩ := exists_of_isOk hok
  have hiff := (pooled_ether_changes_as_documented_iff hw).2.2.1 _ w' h
  exact ⟨w, w', hw, h, hx, hiff.mpr (.inr (.inl hfits))⟩

end LidoDao
