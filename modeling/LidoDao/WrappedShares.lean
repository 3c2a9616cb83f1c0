import LidoDao.JointSystem
import LidoDao.TokenTransfers
import LidoDao.WstETH

namespace LidoDao

open Evm Library.Outcome Library.Ledger Library.SharePool Library.Transition SafeMath EtherBooks

variable {R ρ T κ : Type} {D : Deployment} {I : INodeOperatorsRegistry R ρ} {H : HolderContract D}
  {E : ERC20 T κ}

namespace Lido

variable {s : Lido}

theorem transfer_worth_isOk (h : s.Sane) (hactive : s.activeFlag = true) {a b : Address} {x : ℕ}
    (ha : a ≠ 0) (hb : b ≠ 0) (hpos : 0 < x) (hle : x ≤ s.shares a)
    (hlt : x * s.pooled < wordLimit) :
    ∃ n t, s.getPooledEthByShares x = .ok n ∧
      s.toStETH.transfer s._getTotalPooledEther a b n = .ok t := by
  have htotal : x ≤ s.totalShares := hle.trans (h.balanced.le a)
  have hpooled : s.pooled < wordLimit := (Nat.le_mul_of_pos_left _ hpos).trans_lt hlt
  have hT : s._getTotalPooledEther = .ok s.pooled :=
    _getTotalPooledEther_eq_ok.mpr ⟨h.sound, hpooled, rfl⟩
  have hn : s.getPooledEthByShares x = .ok (x * s.pooled / s.totalShares) :=
    StETH.getPooledEthByShares_eq_ok.mpr (.inr ⟨hpos.trans_le htotal, _, hT, hlt, rfl⟩)
  have hback : x * s.pooled / s.totalShares * s.totalShares < wordLimit :=
    (Nat.div_mul_le_self _ _).trans_lt hlt
  have hk := getSharesByPooledEth_eq_ok.mpr ⟨h.sound, hpooled, .inr hback, rfl⟩
  have hkle : s.sharesFor (x * s.pooled / s.totalShares) ≤ s.shares a :=
    (standing_le_held le_rfl).trans hle
  refine ⟨_, _, hn, bind_eq_ok.mpr ⟨_, hk, StETH._transferShares_eq_ok.mpr
    ⟨hactive, ha, hb, hkle, ?_, rfl⟩⟩⟩
  exact h.balanced.moved_lt h.totalShares hkle b

end Lido

/-- The wrapper granted no allowance, so its shares are moved by itself only. -/
structure Backed (H : HolderContract D) (E : ERC20 T κ) (w : WrapWorld R T) : Prop where
  backed : E.totalSupply w.token ≤ w.pool.lido.shares H.address
  unspent : ∀ a, w.pool.lido.allowances H.address a = 0

/-- The burn role is not used on the wrapper. -/
def WrapEvent.BurnsNothing : WrapEvent H ρ κ → Prop
  | .pool (.lido _ (.burnShares account _)) _ => account ≠ H.address
  | _ => True

section Account

variable {w w' : World R} {e : Event D ρ}

/-- What others do to a contract's account: without an allowance or a burn its shares
do not fall, and nobody but itself grants an allowance. -/
theorem TokenChange.of_others {t : StETH} (h : TokenChange w e t)
    (he : ∀ c m, e = .lido c m → c.sender ≠ H.address)
    (hburn : ∀ c n, e ≠ .lido c (.burnShares H.address n))
    (hunspent : ∀ a, w.lido.allowances H.address a = 0) :
    w.lido.shares H.address ≤ t.shares H.address ∧ ∀ a, t.allowances H.address a = 0 := by
  cases h with
  | idle _ hshares hallowances _ _ =>
    rw [hshares, hallowances]
    exact ⟨le_rfl, hunspent⟩
  | @minted c m amount _ _ =>
    refine ⟨?_, hunspent⟩
    have hne := he c m rfl
    exact (Function.update_of_ne hne.symm _ w.lido.shares).ge
  | @transferred c m sender recipient amount _ _ hsender hle =>
    refine ⟨?_, hunspent⟩
    have hne : H.address ≠ sender := by
      rcases hsender with rfl | rfl
      · exact (he c m rfl).symm
      · exact H.ne_lido
    exact le_moved_of_ne hle hne
  | @spent c sender recipient amount n _ hallowance hn hle =>
    obtain ⟨_, _, _, rfl⟩ := Lido.getSharesByPooledEth_eq_ok.mp hn
    exact World.spend_unspent hunspent hallowance hle recipient
  | @approved c m spender amount _ _ _ =>
    refine ⟨le_rfl, fun a ↦ ?_⟩
    rw [allowances_withAllowance, if_neg fun h ↦ he c m rfl h.1.symm]
    exact hunspent a
  | @burnt c account amount _ _ hle =>
    refine ⟨?_, hunspent⟩
    have hne : H.address ≠ account := by
      rintro rfl
      exact hburn c amount rfl
    exact (Function.update_of_ne hne _ w.lido.shares).ge
  | distributed _ _ hallowances hge =>
    rw [hallowances]
    exact ⟨hge _ H.ne_lido, hunspent⟩

end Account

namespace WstETH

variable {w w' : WrapWorld R T} {msgSender : Address} {blockNumber stETHAmount wstETHAmount : ℕ}

theorem wrap_ok (h : wrap I H E w msgSender blockNumber stETHAmount = .ok w') :
    0 < stETHAmount ∧
      E._mint w.token msgSender (w.pool.lido.sharesFor stETHAmount) = .ok w'.token ∧
      World.step D I w.pool (.lido (H.call blockNumber)
        (.transferFrom msgSender H.address stETHAmount)) = .ok w'.pool := by
  simp only [wrap, bind_eq_ok, require_eq_ok, exists_const, pure_eq, Except.ok.injEq] at h
  obtain ⟨hpos, n, hn, token, hmint, pool, hpool, rfl⟩ := h
  obtain ⟨_, _, _, rfl⟩ := Lido.getSharesByPooledEth_eq_ok.mp hn
  exact ⟨hpos, hmint, hpool⟩

theorem unwrap_ok (h : unwrap I H E w msgSender blockNumber wstETHAmount = .ok w') :
    E._burn w.token msgSender wstETHAmount = .ok w'.token ∧
      World.step D I w.pool (.lido (H.call blockNumber) (.transfer msgSender
        (wstETHAmount * w.pool.lido.pooled / w.pool.lido.totalShares))) = .ok w'.pool := by
  simp only [unwrap, bind_eq_ok, require_eq_ok, exists_const, pure_eq, Except.ok.injEq] at h
  obtain ⟨_, n, hn, token, hburn, pool, hpool, rfl⟩ := h
  obtain rfl := Lido.getPooledEthByShares_ok hn
  exact ⟨hburn, hpool⟩

end WstETH

namespace Backed

variable {w w' : WrapWorld R T}

theorem initial (hE : E.Standard) (h : (WrapWorld.machine I H E).initial w) : Backed H E w := by
  obtain ⟨⟨⟨_, _, _, _, hlido⟩, _⟩, htoken⟩ := h
  obtain ⟨_, hlido⟩ := Lido._setProtocolContracts_ok hlido
  refine ⟨?_, fun a ↦ ?_⟩
  · rw [htoken, hE.empty]
    exact Nat.zero_le _
  · rw [hlido]
    rfl

theorem pool {e : Event D ρ} {pool : World R} (h : Backed H E w)
    (he : ∀ c m, e = .lido c m → c.sender ≠ H.address)
    (hburn : ∀ c n, e ≠ .lido c (.burnShares H.address n))
    (hstep : World.step D I w.pool e = .ok pool) : Backed H E { w with pool } := by
  obtain ⟨hshares, hunspent⟩ := (World.token_change hstep).of_others he hburn h.unspent
  exact ⟨h.backed.trans hshares, hunspent⟩

theorem wrap (h : Backed H E w) (hE : E.Standard) {msgSender : Address}
    {blockNumber stETHAmount : ℕ}
    (hwrap : WstETH.wrap I H E w msgSender blockNumber stETHAmount = .ok w') :
    Backed H E w' ∧ ∃ c m, World.step D I w.pool (.lido c m) = .ok w'.pool := by
  obtain ⟨hpos, hmint, hpool⟩ := WstETH.wrap_ok hwrap
  refine ⟨?_, _, _, hpool⟩
  obtain ⟨hallowance, hle, hpool⟩ := World.transferFrom_ok hpool
  have hother : H.address ≠ msgSender := by
    rintro rfl
    exact (hpos.trans_le hallowance).ne' (h.unspent _)
  refine ⟨?_, fun a ↦ ?_⟩
  · rw [hE.mint hmint, hpool, World.spend_shares, moved_target hle hother]
    exact Nat.add_le_add_right h.backed _
  · rw [hpool, World.spend_allowances, if_neg fun heq ↦ hother heq.1]
    exact h.unspent a

theorem unwrap (h : Backed H E w) (hE : E.Standard) {msgSender : Address}
    {blockNumber wstETHAmount : ℕ}
    (hunwrap : WstETH.unwrap I H E w msgSender blockNumber wstETHAmount = .ok w') :
    Backed H E w' ∧ ∃ c m, World.step D I w.pool (.lido c m) = .ok w'.pool := by
  obtain ⟨hburn, hpool⟩ := WstETH.unwrap_ok hunwrap
  refine ⟨?_, _, _, hpool⟩
  obtain ⟨hle, hpool⟩ := World.transfer_ok hpool
  have hworth : w.pool.lido.sharesFor
      (wstETHAmount * w.pool.lido.pooled / w.pool.lido.totalShares) ≤ wstETHAmount :=
    standing_le_held le_rfl
  have hsupply := hE.burn hburn
  have hbacked := h.backed
  refine ⟨?_, ?_⟩
  · rw [hpool]
    apply le_moved
    omega
  · rw [hpool]
    exact h.unspent

theorem receive (h : Backed H E w) (hE : E.Standard) {msgSender : Address}
    {blockNumber msgValue : ℕ}
    (hreceive : WstETH.receive H E w msgSender blockNumber msgValue = .ok w') :
    Backed H E w' ∧ ∃ c m, World.step D I w.pool (.lido c m) = .ok w'.pool := by
  simp only [WstETH.receive, bind_eq_ok, pure_eq, Except.ok.injEq] at hreceive
  obtain ⟨⟨n, s⟩, hsubmit, token, hmint, rfl⟩ := hreceive
  refine ⟨?_, H.call blockNumber, .submit 0 msgValue, ?_⟩
  · obtain ⟨_, _, t, slot, ht, rfl⟩ := Lido._submit_ok hsubmit
    obtain ⟨_, _, _, _, rfl⟩ := StETH._mintShares_eq_ok.mp ht
    refine ⟨?_, h.unspent⟩
    rw [hE.mint hmint]
    have hgot : Function.update w.pool.lido.shares H.address
        (w.pool.lido.shares H.address + n) H.address = w.pool.lido.shares H.address + n :=
      Function.update_self _ _ _
    exact (Nat.add_le_add_right h.backed n).trans_eq hgot.symm
  · rw [World.step, World.submit_eq_ok]
    exact ⟨n, s, hsubmit, rfl⟩

theorem step {e : WrapEvent H ρ κ} (h : Backed H E w) (hE : E.Standard)
    (hpool : Reachable (World.machine D I) w.pool) (he : e.BurnsNothing)
    (hstep : (WrapWorld.machine I H E).step w e = .ok w') :
    Reachable (World.machine D I) w'.pool ∧ Backed H E w' := by
  have hown (h : Backed H E w' ∧ ∃ c m, World.step D I w.pool (.lido c m) = .ok w'.pool) :
      Reachable (World.machine D I) w'.pool ∧ Backed H E w' := by
    obtain ⟨hbacked, c, m, hstep⟩ := h
    exact ⟨hpool.step (i := .lido c m) hstep, hbacked⟩
  cases e with
  | pool e hsender =>
    obtain ⟨pool, hpool', hw'⟩ := bind_eq_ok.mp hstep
    cases hw'
    refine ⟨hpool.step hpool', h.pool hsender ?_ hpool'⟩
    rintro c n rfl
    exact he rfl
  | wrap msgSender blockNumber stETHAmount => exact hown (h.wrap hE hstep)
  | unwrap msgSender blockNumber wstETHAmount => exact hown (h.unwrap hE hstep)
  | receive msgSender blockNumber msgValue => exact hown (h.receive hE hstep)
  | token msgSender k =>
    obtain ⟨token, htoken, hw'⟩ := bind_eq_ok.mp hstep
    cases hw'
    exact ⟨hpool, (hE.call htoken).trans_le h.backed, h.unspent⟩

theorem unwrap_isOk (h : Backed H E w) (hE : E.Standard) (hs : w.pool.lido.Sane)
    (hactive : w.pool.lido.activeFlag = true) {msgSender : Address} {x : ℕ} (hpos : 0 < x)
    (hx : x ≤ E.balanceOf w.token msgSender) (hlt : x * w.pool.lido.pooled < wordLimit)
    (blockNumber : ℕ) : ∃ w', WstETH.unwrap I H E w msgSender blockNumber x = .ok w' := by
  have hne : msgSender ≠ 0 := by
    rintro rfl
    rw [hE.zero] at hx
    omega
  obtain ⟨token, htoken⟩ := exists_of_isOk (hE.burn_isOk hne hx)
  have hsupply := hE.burn htoken
  have hle : x ≤ w.pool.lido.shares H.address := by
    have hbacked := h.backed
    omega
  obtain ⟨n, t, hn, ht⟩ := Lido.transfer_worth_isOk hs hactive H.ne_zero hne hpos hle hlt
  have hpool : World.handle D I (H.call blockNumber) (.transfer msgSender n) w.pool =
      .ok { w.pool with lido := { w.pool.lido with toStETH := t } } := by
    rw [World.handle, World.onToken_eq_ok]
    exact ⟨t, ht, rfl⟩
  refine ⟨{ pool := { w.pool with lido := { w.pool.lido with toStETH := t } }, token }, ?_⟩
  simp only [WstETH.unwrap, bind_eq_ok, require_eq_ok, exists_const, pure_eq]
  exact ⟨hpos, n, hn, token, htoken, _, hpool, rfl⟩

end Backed

/-- The wrapper holds a share for each of its tokens, so that every holder can unwrap. -/
theorem wrapped_tokens_are_backed (hE : E.Standard) {w₀ w : WrapWorld R T}
    (hinit : (WrapWorld.machine I H E).initial w₀)
    (hrun : Runs (WrapWorld.machine I H E) (fun _ e ↦ e.BurnsNothing) w₀ w) :
    E.totalSupply w.token ≤ w.pool.lido.shares H.address ∧
    (w.pool.lido.activeFlag = true → ∀ msgSender blockNumber x, 0 < x →
      x ≤ E.balanceOf w.token msgSender → x * w.pool.lido.pooled < wordLimit →
      ∃ w', (WrapWorld.machine I H E).step w (.unwrap msgSender blockNumber x) = .ok w') := by
  have h := hrun.invariant
    (P := fun w ↦ Reachable (World.machine D I) w.pool ∧ Backed H E w)
    (fun w e w' he hw hstep ↦ hw.2.step hE hw.1 he hstep)
    ⟨.initial hinit.1, .initial hE hinit⟩
  refine ⟨h.2.backed, fun hactive msgSender blockNumber x hpos hx hlt ↦ ?_⟩
  exact h.2.unwrap_isOk hE (World.sane h.1) hactive hpos hx hlt blockNumber

namespace Sample

/-- A token whose balances add up to its supply. -/
structure Token where
  supply : ℕ
  balances : Address → ℕ
  zero : balances 0 = 0
  balanced : ∑ a, balances a = supply

def tokenContract : ERC20 Token (Address × ℕ) where
  empty := { supply := 0, balances := fun _ ↦ 0, zero := rfl, balanced := by simp }
  totalSupply := Token.supply
  balanceOf := Token.balances
  _mint t a n :=
    if ha : a ≠ 0 then
      .ok { supply := t.supply + n
            balances := Function.update t.balances a (t.balances a + n)
            zero := by rw [Function.update_of_ne ha.symm, t.zero]
            balanced := by
              have hsum := sum_update_add t.balances a (t.balances a + n)
              have hbalanced := t.balanced
              omega }
    else .error (.reason "ERC20: mint to the zero address")
  _burn t a n :=
    if h : a ≠ 0 ∧ n ≤ t.balances a then
      .ok { supply := t.supply - n
            balances := Function.update t.balances a (t.balances a - n)
            zero := by rw [Function.update_of_ne h.1.symm, t.zero]
            balanced := by
              have hsum := sum_update_add t.balances a (t.balances a - n)
              have hbalanced := t.balanced
              omega }
    else .error (.reason "ERC20: burn amount exceeds balance")
  call t sender k :=
    if h : k.1 ≠ 0 ∧ k.2 ≤ t.balances sender then
      .ok { supply := t.supply
            balances := moved t.balances sender k.1 k.2
            zero := by
              have hmoved := moved_apply h.2 k.1 0
              have hzero := t.zero
              rw [if_neg h.1.symm] at hmoved
              omega
            balanced := (sum_moved h.2).trans t.balanced }
    else .error (.reason "ERC20: transfer amount exceeds balance")

theorem tokenContract_standard : tokenContract.Standard where
  empty := rfl
  zero := Token.zero
  mint {t t' a n} h := by
    simp only [tokenContract] at h
    split at h
    · cases h
      rfl
    · cases h
  burn {t t' a n} h := by
    simp only [tokenContract] at h
    split at h
    · rename_i hle
      have hheld := (le_sum t.balances a).trans_eq t.balanced
      cases h
      exact Nat.sub_add_cancel (hle.2.trans hheld)
    · cases h
  burn_isOk {t a n} ha hn := by
    simp only [tokenContract]
    rw [dif_pos ⟨ha, hn⟩]
    rfl
  call {t t' a k} h := by
    simp only [tokenContract] at h
    split at h
    · cases h
      rfl
    · cases h

def wrapper : HolderContract deployment where
  address := 20
  ne_zero := by decide
  ne_lido := by decide

def wrapMachine := WrapWorld.machine (registryContract deployment layout) wrapper tokenContract

def aroundWrapper (m : LidoMessage) : WrapEvent wrapper (RegistryCall deployment) (Address × ℕ) :=
  .pool (admin m) fun c m h ↦ by
    cases h
    decide

def wrapRun : List (WrapEvent wrapper (RegistryCall deployment) (Address × ℕ)) :=
  [aroundWrapper .resume, aroundWrapper (.submit 0 100), aroundWrapper (.approve 20 60),
    .wrap 5 10 60, .receive 6 10 40, .token 5 (7, 10)]

theorem wrapped_hundred_is_backed : ∃ w w',
    Runs wrapMachine (fun _ e ↦ e.BurnsNothing) { pool := start, token := tokenContract.empty } w ∧
    tokenContract.totalSupply w.token = 100 ∧ 100 ≤ w.pool.lido.shares 20 ∧
    tokenContract.balanceOf w.token 7 = 10 ∧ wrapMachine.step w (.unwrap 7 10 10) = .ok w' := by
  have hrun : reaches wrapMachine { pool := start, token := tokenContract.empty } wrapRun
      (fun w ↦ decide (w.token.supply = 100 ∧ w.token.balances 7 = 10 ∧
        w.pool.lido.activeFlag = true ∧ w.pool.lido.pooled = 140)) = true := by
    decide +kernel
  obtain ⟨w, hruns, hw⟩ := Runs.of_reaches (p := fun _ e ↦ e.BurnsNothing) hrun fun e he _ ↦ by
    simp only [wrapRun, List.mem_cons, List.not_mem_nil, or_false] at he
    rcases he with rfl | rfl | rfl | rfl | rfl | rfl
    all_goals trivial
  obtain ⟨hsupply, hbalance, hactive, hpooled⟩ := of_decide_eq_true hw
  obtain ⟨hbacked, hunwrap⟩ := wrapped_tokens_are_backed tokenContract_standard
    ⟨⟨⟨0, 2, 3, 4, rfl⟩, rfl, rfl, rfl⟩, rfl⟩ hruns
  obtain ⟨w', hw'⟩ := hunwrap hactive 7 10 10 (by decide) hbalance.ge (by
    rw [hpooled, wordLimit]
    decide)
  exact ⟨w, w', hruns, hsupply, hsupply.ge.trans hbacked, hbalance, hw'⟩

end Sample

end LidoDao
