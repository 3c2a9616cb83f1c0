import LidoDao.Solvency
import LidoDao.TokenMoves

namespace LidoDao

open Evm Library.Outcome Library.Ledger Library.Transition

variable {R ρ : Type} {D : Deployment} {I : INodeOperatorsRegistry R ρ}

theorem StETH.Balanced.moved_lt {s : StETH} (h : s.Balanced) (hlt : s.totalShares < wordLimit)
    {sender recipient : Address} {amount : ℕ} (hle : amount ≤ s.shares sender) (a : Address) :
    moved s.shares sender recipient amount a < wordLimit := by
  have hsum : ∑ b, moved s.shares sender recipient amount b = s.totalShares :=
    (sum_moved hle).trans h
  exact (le_sum _ a).trans_lt (hsum.trans_lt hlt)

namespace Lido

variable {s : Lido} {sender recipient : Address} {amount T n : ℕ}

def sharesFor (s : Lido) (amount : ℕ) : ℕ := amount * s.totalShares / s.pooled

/-- What the pool checks of a transfer of so many tokens. -/
structure Transferable (s : Lido) (sender recipient : Address) (amount : ℕ) : Prop where
  active : s.activeFlag = true
  sender_ne : sender ≠ 0
  recipient_ne : recipient ≠ 0
  product : amount * s.totalShares < wordLimit
  held : s.sharesFor amount ≤ s.shares sender

def moveTokens (s : Lido) (sender recipient : Address) (amount : ℕ) : Lido :=
  { s with shares := moved s.shares sender recipient (s.sharesFor amount) }

theorem getSharesByPooledEth_eq_ok : s.getSharesByPooledEth amount = .ok n ↔
    EtherBooks.Sound s.books ∧ s.pooled < wordLimit ∧
      (s.pooled = 0 ∨ amount * s.totalShares < wordLimit) ∧ n = s.sharesFor amount := by
  rw [getSharesByPooledEth, StETH.getSharesByPooledEth_eq_ok, sharesFor]
  constructor
  · intro h
    obtain ⟨T, hT, h⟩ := h
    obtain ⟨hsound, hlt, rfl⟩ := _getTotalPooledEther_eq_ok.mp hT
    rcases h with ⟨hzero, rfl⟩ | ⟨_, hfits, rfl⟩
    · exact ⟨hsound, hlt, .inl hzero, by rw [hzero, Nat.div_zero]⟩
    · exact ⟨hsound, hlt, .inr hfits, rfl⟩
  · intro h
    obtain ⟨hsound, hlt, hfits, rfl⟩ := h
    refine ⟨s.pooled, _getTotalPooledEther_eq_ok.mpr ⟨hsound, hlt, rfl⟩, ?_⟩
    rcases Nat.eq_zero_or_pos s.pooled with hzero | hpos
    · exact .inl ⟨hzero, by rw [hzero, Nat.div_zero]⟩
    · exact .inr ⟨hpos, hfits.resolve_left hpos.ne', rfl⟩

theorem getSharesByPooledEth_isOk (hT : s.totalSupply = .ok T) (hpos : 0 < T) :
    s.getSharesByPooledEth amount = .ok n ↔
      amount * s.totalShares < wordLimit ∧ n = s.sharesFor amount := by
  obtain ⟨hsound, hlt, rfl⟩ := totalSupply_eq_ok.mp hT
  rw [getSharesByPooledEth_eq_ok]
  exact ⟨fun ⟨_, _, hfits, hn⟩ ↦ ⟨hfits.resolve_left hpos.ne', hn⟩,
    fun ⟨hfits, hn⟩ ↦ ⟨hsound, hlt, .inr hfits, hn⟩⟩

theorem getPooledEthByShares_ok {x : ℕ} (h : s.getPooledEthByShares x = .ok n) :
    n = x * s.pooled / s.totalShares := by
  rcases StETH.getPooledEthByShares_eq_ok.mp h with ⟨hzero, rfl⟩ | ⟨_, _, hT, _, rfl⟩
  · rw [hzero, Nat.div_zero]
  · obtain ⟨_, _, rfl⟩ := _getTotalPooledEther_eq_ok.mp hT
    rfl

end Lido

namespace World

variable {w w' : World R} {c : LidoCall D} {account msgSender sender recipient : Address}
  {amount T : ℕ}

/-- The pool after a transfer of somebody's tokens within an allowance. -/
def spend (w : World R) (msgSender sender recipient : Address) (amount : ℕ) : World R :=
  { w with lido := { w.lido with
    toStETH := (w.lido.moveTokens sender recipient amount).toStETH.withAllowance sender msgSender
      (w.lido.allowances sender msgSender - amount) } }

theorem spend_shares (w : World R) (msgSender sender recipient : Address) (amount : ℕ) :
    (w.spend msgSender sender recipient amount).lido.shares =
      moved w.lido.shares sender recipient (w.lido.sharesFor amount) := rfl

theorem spend_allowances (w : World R) (msgSender sender recipient a b : Address) (amount : ℕ) :
    (w.spend msgSender sender recipient amount).lido.allowances a b =
      if a = sender ∧ b = msgSender then w.lido.allowances sender msgSender - amount
      else w.lido.allowances a b :=
  allowances_withAllowance _ _ _ _ _ _

theorem transfer_ok (h : step D I w (.lido c (.transfer recipient amount)) = .ok w') :
    w.lido.sharesFor amount ≤ w.lido.shares c.sender ∧
      w' = { w with lido := w.lido.moveTokens c.sender recipient amount } := by
  rw [step, handle, onToken_eq_ok] at h
  obtain ⟨_, ht, rfl⟩ := h
  obtain ⟨n, hn, ht⟩ := StETH._transfer_ok ht
  obtain ⟨_, _, _, rfl⟩ := Lido.getSharesByPooledEth_eq_ok.mp hn
  obtain ⟨_, _, _, hle, _, rfl⟩ := StETH._transferShares_eq_ok.mp ht
  exact ⟨hle, rfl⟩

theorem transferFrom_ok
    (h : step D I w (.lido c (.transferFrom sender recipient amount)) = .ok w') :
    amount ≤ w.lido.allowances sender c.sender ∧
      w.lido.sharesFor amount ≤ w.lido.shares sender ∧
      w' = w.spend c.sender sender recipient amount := by
  rw [step, handle, onToken_eq_ok] at h
  obtain ⟨_, ht, rfl⟩ := h
  obtain ⟨_, _, _, _, hallowance, n, hn, hle, _, rfl⟩ := StETH.transferFrom_eq_ok.mp ht
  obtain ⟨_, _, _, rfl⟩ := Lido.getSharesByPooledEth_eq_ok.mp hn
  exact ⟨hallowance, hle, rfl⟩

theorem spend_unspent (hunspent : ∀ a, w.lido.allowances account a = 0)
    (hallowance : amount ≤ w.lido.allowances sender msgSender)
    (hle : w.lido.sharesFor amount ≤ w.lido.shares sender) (recipient : Address) :
    w.lido.shares account ≤ (w.spend msgSender sender recipient amount).lido.shares account ∧
      ∀ a, (w.spend msgSender sender recipient amount).lido.allowances account a = 0 := by
  by_cases hsource : account = sender
  · subst hsource
    rw [hunspent] at hallowance
    obtain rfl : amount = 0 := Nat.le_zero.mp hallowance
    have hnone : w.lido.sharesFor 0 = 0 := by rw [Lido.sharesFor, Nat.zero_mul, Nat.zero_div]
    refine ⟨?_, fun a ↦ ?_⟩
    · rw [spend_shares, hnone]
      exact le_moved (Nat.zero_add _).le recipient
    · rw [spend_allowances, hunspent, Nat.zero_sub]
      split
      · rfl
      · exact hunspent a
  · refine ⟨le_moved_of_ne hle hsource, fun a ↦ ?_⟩
    rw [spend_allowances, if_neg fun h ↦ hsource h.1]
    exact hunspent a

theorem transfer_eq_ok (hs : w.lido.Sane) (hT : w.lido.totalSupply = .ok T) (hpos : 0 < T) :
    step D I w (.lido c (.transfer recipient amount)) = .ok w' ↔
      w.lido.Transferable c.sender recipient amount ∧
        w' = { w with lido := w.lido.moveTokens c.sender recipient amount } := by
  rw [step, handle, onToken_eq_ok]
  constructor
  · intro h'
    obtain ⟨_, ht, rfl⟩ := h'
    obtain ⟨n, hn, ht⟩ := StETH._transfer_ok ht
    obtain ⟨hlt, rfl⟩ := (Lido.getSharesByPooledEth_isOk hT hpos).mp hn
    obtain ⟨hactive, hsender, hrecipient, hle, _, rfl⟩ := StETH._transferShares_eq_ok.mp ht
    exact ⟨⟨hactive, hsender, hrecipient, hlt, hle⟩, rfl⟩
  · intro h
    obtain ⟨h, rfl⟩ := h
    have hword : moved w.lido.shares c.sender recipient (w.lido.sharesFor amount) recipient <
        wordLimit := hs.balanced.moved_lt hs.totalShares h.held recipient
    have hn := (Lido.getSharesByPooledEth_isOk hT hpos).mpr ⟨h.product, rfl⟩
    have ht := StETH._transferShares_eq_ok.mpr
      ⟨h.active, h.sender_ne, h.recipient_ne, h.held, hword, rfl⟩
    exact ⟨_, bind_eq_ok.mpr ⟨_, hn, ht⟩, rfl⟩

theorem transferFrom_eq_ok (hs : w.lido.Sane) (hT : w.lido.totalSupply = .ok T) (hpos : 0 < T) :
    step D I w (.lido c (.transferFrom sender recipient amount)) = .ok w' ↔
      w.lido.Transferable sender recipient amount ∧ c.sender ≠ 0 ∧
        amount ≤ w.lido.allowances sender c.sender ∧
        w' = w.spend c.sender sender recipient amount := by
  rw [step, handle, onToken_eq_ok]
  constructor
  · intro h'
    obtain ⟨_, ht, rfl⟩ := h'
    obtain ⟨hactive, hsender, hrecipient, hm, hallowance, n, hn, hle, _, rfl⟩ :=
      StETH.transferFrom_eq_ok.mp ht
    obtain ⟨hlt, rfl⟩ := (Lido.getSharesByPooledEth_isOk hT hpos).mp hn
    exact ⟨⟨hactive, hsender, hrecipient, hlt, hle⟩, hm, hallowance, rfl⟩
  · intro h
    obtain ⟨h, hm, hallowance, rfl⟩ := h
    have hword : moved w.lido.shares sender recipient (w.lido.sharesFor amount) recipient <
        wordLimit := hs.balanced.moved_lt hs.totalShares h.held recipient
    have hn := (Lido.getSharesByPooledEth_isOk hT hpos).mpr ⟨h.product, rfl⟩
    exact ⟨_, StETH.transferFrom_eq_ok.mpr ⟨h.active, h.sender_ne, h.recipient_ne, hm, hallowance,
      _, hn, h.held, hword, rfl⟩, rfl⟩

end World

end LidoDao
