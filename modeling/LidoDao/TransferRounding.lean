import LidoDao.SubmitPrice
import LidoDao.TokenTransfers

namespace LidoDao

open Evm Library.Outcome Library.Ledger Library.SharePool Library.Transition

variable {R ρ : Type} {D : Deployment} {I : INodeOperatorsRegistry R ρ}

namespace Lido

variable {s s' : Lido} {sender recipient : Address} {amount T b : ℕ}

/-- A transfer in a pool of `T` wei moves what it says, less by under the price of a
share and one wei at either end. -/
structure MovesRounded (s s' : Lido) (T : ℕ) (sender recipient : Address) (amount : ℕ) :
    Prop where
  sent : ∃ n n', s.balanceOf sender = .ok n ∧ s'.balanceOf sender = .ok n' ∧ n' ≤ n ∧
    n ≤ n' + amount ∧ (amount : ℚ) - (T : ℚ) / s.totalShares - 1 < (n : ℚ) - n'
  received : ∃ n n', s.balanceOf recipient = .ok n ∧ s'.balanceOf recipient = .ok n' ∧ n ≤ n' ∧
    n' ≤ n + amount ∧ (amount : ℚ) - (T : ℚ) / s.totalShares - 1 < (n' : ℚ) - n
  others : ∀ a, a ≠ sender → a ≠ recipient → s'.balanceOf a = s.balanceOf a
  totalShares : s'.totalShares = s.totalShares
  totalSupply : s'.totalSupply = s.totalSupply

structure TransferFits (s : Lido) (recipient : Address) (amount : ℕ) : Prop where
  product : amount * s.totalShares < wordLimit
  worth : (s.shares recipient + s.sharesFor amount) * s.pooled < wordLimit

theorem balanceOf_eq (hT : s.totalSupply = .ok T) (hS : 0 < s.totalShares) {a : Address}
    (hfits : s.shares a * T < wordLimit) :
    s.balanceOf a = .ok (s.shares a * T / s.totalShares) :=
  StETH.getPooledEthByShares_eq_ok.mpr (.inr ⟨hS, T, hT, hfits, rfl⟩)

theorem moved_rounded (hT : s.totalSupply = .ok T) (hpos : 0 < T) (hS : 0 < s.totalShares)
    (hne : sender ≠ recipient) (hb : s.balanceOf sender = .ok b)
    (hheld : s.sharesFor amount ≤ s.shares sender) (hfits : s.TransferFits recipient amount)
    (hshares : s'.shares = moved s.shares sender recipient (s.sharesFor amount))
    (htotal : s'.totalShares = s.totalShares) (hsupply : s'.totalSupply = s.totalSupply) :
    MovesRounded s s' T sender recipient amount := by
  obtain ⟨_, _, rfl⟩ := totalSupply_eq_ok.mp hT
  have hT' : s'.totalSupply = .ok s.pooled := hsupply.trans hT
  have hS' : 0 < s'.totalShares := htotal ▸ hS
  have hsenderShares : s'.shares sender + s.sharesFor amount = s.shares sender := by
    rw [hshares]
    exact moved_source hheld hne
  have hrecipientShares : s'.shares recipient = s.shares recipient + s.sharesFor amount := by
    rw [hshares]
    exact moved_target hheld hne.symm
  refine ⟨?_, ?_, fun a hsender hrecipient ↦ ?_, htotal, hsupply⟩
  · obtain ⟨hzero, _⟩ | ⟨_, _, hlt, _⟩ := balanceOf_ok hb
    · exact absurd hzero hS.ne'
    have hlt' : s'.shares sender * s.pooled < wordLimit :=
      (Nat.mul_le_mul_right _ (hsenderShares ▸ Nat.le_add_right _ _)).trans_lt hlt
    refine ⟨_, _, balanceOf_eq hT hS hlt, balanceOf_eq hT' hS' hlt', ?_⟩
    rw [htotal, ← hsenderShares]
    exact ⟨Nat.div_le_div_right (Nat.mul_le_mul_right _ (Nat.le_add_right _ _)),
      worth_moved_le hS, lt_worth_moved_sub hpos hS⟩
  · have hlt : s.shares recipient * s.pooled < wordLimit :=
      (Nat.mul_le_mul_right _ (Nat.le_add_right _ _)).trans_lt hfits.worth
    have hlt' : s'.shares recipient * s.pooled < wordLimit := hrecipientShares ▸ hfits.worth
    refine ⟨_, _, balanceOf_eq hT hS hlt, balanceOf_eq hT' hS' hlt', ?_⟩
    rw [htotal, hrecipientShares]
    exact ⟨Nat.div_le_div_right (Nat.mul_le_mul_right _ (Nat.le_add_right _ _)),
      worth_moved_le hS, lt_worth_moved_sub hpos hS⟩
  · have hsame : s'.shares a = s.shares a := by
      rw [hshares]
      exact moved_other hheld hsender hrecipient
    have hpooled : s'._getTotalPooledEther = s._getTotalPooledEther := hsupply
    rw [balanceOf, balanceOf, StETH.balanceOf, StETH.balanceOf, StETH.getPooledEthByShares,
      StETH.getPooledEthByShares, hsame, htotal, hpooled]

end Lido

/-- Whoever has the tokens can transfer them, or let somebody transfer them, and both
balances change by the amount up to the rounding. -/
theorem transfer_moves_rounded {w : World R} {sender recipient : Address} {x b T : ℕ}
    (hw : Reachable (World.machine D I) w) (hactive : w.lido.activeFlag = true)
    (hT : w.lido.totalSupply = .ok T) (hpos : 0 < T) (hS : 0 < w.lido.totalShares)
    (hsender : sender ≠ 0) (hrecipient : recipient ≠ 0) (hne : sender ≠ recipient)
    (hb : w.lido.balanceOf sender = .ok b) (hx : x ≤ b) (hfits : w.lido.TransferFits recipient x) :
    (∀ c : LidoCall D, c.sender = sender →
      ∃ w', World.step D I w (.lido c (.transfer recipient x)) = .ok w' ∧
        w.lido.MovesRounded w'.lido T sender recipient x) ∧
    (∀ c : LidoCall D, c.sender ≠ 0 → x ≤ w.lido.allowances sender c.sender →
      ∃ w', World.step D I w (.lido c (.transferFrom sender recipient x)) = .ok w' ∧
        w.lido.MovesRounded w'.lido T sender recipient x) := by
  have hs := World.sane hw
  have hheld : w.lido.sharesFor x ≤ w.lido.shares sender := by
    obtain ⟨hzero, _⟩ | ⟨_, _, _, rfl⟩ := Lido.balanceOf_ok hb
    · exact absurd hzero hS.ne'
    obtain ⟨_, _, rfl⟩ := Lido.totalSupply_eq_ok.mp hT
    exact standing_le_held hx
  have htransferable : w.lido.Transferable sender recipient x :=
    ⟨hactive, hsender, hrecipient, hfits.product, hheld⟩
  constructor
  · rintro c rfl
    exact ⟨_, (World.transfer_eq_ok hs hT hpos).mpr ⟨htransferable, rfl⟩,
      Lido.moved_rounded hT hpos hS hne hb hheld hfits rfl rfl rfl⟩
  · intro c hc hallowance
    exact ⟨_, (World.transferFrom_eq_ok hs hT hpos).mpr ⟨htransferable, hc, hallowance, rfl⟩,
      Lido.moved_rounded hT hpos hS hne hb hheld hfits rfl rfl rfl⟩

namespace Sample

def pricedRun : List (Event deployment (RegistryCall deployment)) :=
  doublingRun ++ [admin (.approve 6 3)]

/-- Three wei move as one share. -/
theorem three_wei_move_rounded : ∃ w, Reachable (jointSystem deployment layout) w ∧
    w.lido.totalSupply = .ok (2 * 10 ^ 18) ∧
    (∃ w', (jointSystem deployment layout).step w (call 5 (by decide) (.transfer 8 3)) = .ok w' ∧
      w.lido.MovesRounded w'.lido (2 * 10 ^ 18) 5 8 3) ∧
    ∃ w', (jointSystem deployment layout).step w (call 6 (by decide) (.transferFrom 5 8 3)) =
      .ok w' ∧ w.lido.MovesRounded w'.lido (2 * 10 ^ 18) 5 8 3 := by
  have hrun : reaches (jointSystem deployment layout) start pricedRun (fun w ↦
      decide (w.lido.activeFlag = true ∧ w.lido.totalSupply = .ok (2 * 10 ^ 18) ∧
        w.lido.totalShares = 10 ^ 18 ∧ w.lido.balanceOf 5 = .ok (2 * 10 ^ 18) ∧
        w.lido.shares 8 = 0 ∧ w.lido.pooled = 2 * 10 ^ 18 ∧ w.lido.allowances 5 6 = 3)) = true := by
    decide +kernel
  obtain ⟨w, hw, hp⟩ := reachable_of_run hrun
  obtain ⟨hactive, hT, hS, hb, hshares, hpooled, hallowance⟩ := of_decide_eq_true hp
  have hfits : w.lido.TransferFits 8 3 := by
    refine ⟨?_, ?_⟩
    · rw [hS, wordLimit]
      decide
    · rw [hshares, Lido.sharesFor, hS, hpooled, wordLimit]
      decide
  have hpos : 0 < w.lido.totalShares := by
    rw [hS]
    decide
  have hne : (5 : Address) ≠ 8 := by decide
  obtain ⟨htransfer, hspend⟩ := transfer_moves_rounded hw hactive hT (by decide) hpos (by decide)
    (by decide) hne hb (by decide) hfits
  exact ⟨w, hw, hT, htransfer _ rfl, hspend _ (by decide) hallowance.ge⟩

end Sample

section Balance

/-- The balance of an account, where it can be computed, covers so many tokens. -/
def Lido.Covers (s : Lido) (account : Address) (amount : ℕ) : Prop :=
  ∃ b, s.balanceOf account = .ok b ∧ amount ≤ b

/-- The transfer is turned down for another reason than the balance, or its amount is a share
or more above the balance, or within it. -/
def Lido.ChecksBalance (s : Lido) (sender recipient : Address) (amount : ℕ) : Prop :=
  s.activeFlag = false ∨ sender = 0 ∨ recipient = 0 ∨ wordLimit ≤ amount * s.totalShares ∨
    (s.shares sender + 1) * s.pooled ≤ amount * s.totalShares ∨
    (amount * s.totalShares ≤ s.shares sender * s.pooled ∧ (s.totalShares = 0 → amount = 0) ∧
      s.shares sender * s.pooled < wordLimit)

namespace Lido

variable {s : Lido} {sender recipient account : Address} {amount T : ℕ}

theorem covers_iff (hs : s.Sane) (hT : s.totalSupply = .ok T) :
    s.Covers account amount ↔ amount * s.totalShares ≤ s.shares account * s.pooled ∧
      (s.totalShares = 0 → amount = 0) ∧ s.shares account * s.pooled < wordLimit := by
  obtain ⟨_, _, rfl⟩ := totalSupply_eq_ok.mp hT
  rcases Nat.eq_zero_or_pos s.totalShares with hzero | hpos
  · have hshares : s.shares account = 0 :=
      Nat.le_zero.mp ((hs.balanced.le account).trans_eq hzero)
    have hword : 0 < wordLimit := (Nat.zero_le _).trans_lt hs.totalShares
    have hbalance : s.balanceOf account = .ok 0 :=
      StETH.getPooledEthByShares_eq_ok.mpr (.inl ⟨hzero, rfl⟩)
    rw [Covers, hbalance, hshares, hzero]
    simp [hword]
  · constructor
    · intro h
      obtain ⟨b, hb, hle⟩ := h
      obtain ⟨hzero, _⟩ | ⟨_, _, hlt, rfl⟩ := balanceOf_ok hb
      · exact absurd hzero hpos.ne'
      · exact ⟨(Nat.le_div_iff_mul_le hpos).mp hle, fun hzero ↦ absurd hzero hpos.ne', hlt⟩
    · intro h
      obtain ⟨hle, _, hlt⟩ := h
      exact ⟨_, balanceOf_eq hT hpos hlt, (Nat.le_div_iff_mul_le hpos).mpr hle⟩

theorem transferable_iff (hpos : 0 < s.pooled) :
    s.Transferable sender recipient amount ↔ s.activeFlag = true ∧ sender ≠ 0 ∧ recipient ≠ 0 ∧
      amount * s.totalShares < wordLimit ∧
      amount * s.totalShares < (s.shares sender + 1) * s.pooled := by
  rw [← standing_le_held_iff hpos]
  exact ⟨fun h ↦ ⟨h.active, h.sender_ne, h.recipient_ne, h.product, h.held⟩,
    fun ⟨hactive, hsender, hrecipient, hproduct, hheld⟩ ↦
      ⟨hactive, hsender, hrecipient, hproduct, hheld⟩⟩

theorem covers_of_transferable_iff (hs : s.Sane) (hT : s.totalSupply = .ok T) (hpos : 0 < T) :
    (s.Transferable sender recipient amount → s.Covers sender amount) ↔
      s.ChecksBalance sender recipient amount := by
  have hpooled : 0 < s.pooled := by
    obtain ⟨_, _, rfl⟩ := totalSupply_eq_ok.mp hT
    exact hpos
  rw [transferable_iff hpooled, covers_iff hs hT, ChecksBalance, ← Bool.not_eq_true]
  constructor
  · intro h
    by_contra hnot
    push Not at hnot
    obtain ⟨hactive, hsender, hrecipient, hproduct, hheld, hcovers⟩ := hnot
    obtain ⟨hle, hzero, hlt⟩ := h ⟨hactive, hsender, hrecipient, hproduct, hheld⟩
    exact absurd hlt (not_lt.mpr (hcovers hle hzero))
  · intro h h'
    obtain ⟨hactive, hsender, hrecipient, hproduct, hheld⟩ := h'
    rcases h with h | h | h | h | h | h
    · exact absurd hactive h
    · exact absurd h hsender
    · exact absurd h hrecipient
    · exact absurd hproduct (not_lt.mpr h)
    · exact absurd hheld (not_lt.mpr h)
    · exact h

end Lido

/-- A transfer goes through on a balance below its amount exactly when the missing part is
worth less than a share. -/
theorem transfer_checks_balance_iff {w : World R} {sender recipient : Address} {amount T : ℕ}
    (hw : Reachable (World.machine D I) w) (hT : w.lido.totalSupply = .ok T) (hpos : 0 < T) :
    (∀ c : LidoCall D, c.sender = sender →
      (((∃ w', World.step D I w (.lido c (.transfer recipient amount)) = .ok w') →
          w.lido.Covers sender amount) ↔ w.lido.ChecksBalance sender recipient amount)) ∧
    ∀ c : LidoCall D,
      (((∃ w', World.step D I w (.lido c (.transferFrom sender recipient amount)) = .ok w') →
          w.lido.Covers sender amount) ↔
        c.sender = 0 ∨ w.lido.allowances sender c.sender < amount ∨
          w.lido.ChecksBalance sender recipient amount) := by
  have hs := World.sane hw
  refine ⟨?_, fun c ↦ ?_⟩
  · rintro c rfl
    rw [← Lido.covers_of_transferable_iff hs hT hpos]
    simp only [World.transfer_eq_ok hs hT hpos, exists_and_left, exists_eq, and_true]
  · rw [← Lido.covers_of_transferable_iff hs hT hpos]
    simp only [World.transferFrom_eq_ok hs hT hpos, exists_and_left, exists_eq, and_true]
    rw [← not_le]
    tauto

namespace Sample

/-- With a share worth two wei, one wei more than the balance can be transferred. -/
theorem a_wei_above_the_balance_moves : ∃ w, Reachable (jointSystem deployment layout) w ∧
    w.lido.totalSupply = .ok (2 * 10 ^ 18) ∧ w.lido.balanceOf 5 = .ok (2 * 10 ^ 18) ∧
    ¬((∃ w', (jointSystem deployment layout).step w
        (call 5 (by decide) (.transfer 8 (2 * 10 ^ 18 + 1))) = .ok w') →
      w.lido.Covers 5 (2 * 10 ^ 18 + 1)) := by
  have hrun : reaches (jointSystem deployment layout) start doublingRun (fun w ↦
      decide (w.lido.totalSupply = .ok (2 * 10 ^ 18) ∧
        w.lido.balanceOf 5 = .ok (2 * 10 ^ 18)) &&
      ((jointSystem deployment layout).step w
        (call 5 (by decide) (.transfer 8 (2 * 10 ^ 18 + 1)))).isOk) = true := by
    decide +kernel
  obtain ⟨w, hw, hp⟩ := reachable_of_run hrun
  obtain ⟨hstate, hok⟩ := Bool.and_eq_true_iff.mp hp
  obtain ⟨hT, hb⟩ := of_decide_eq_true hstate
  refine ⟨w, hw, hT, hb, fun h ↦ ?_⟩
  obtain ⟨b, hb', hle⟩ := h (exists_of_isOk hok)
  cases hb.symm.trans hb'
  exact absurd hle (by decide)

/-- Two wei above the balance are a share above it. -/
theorem two_wei_above_the_balance_stay : ∃ w, Reachable (jointSystem deployment layout) w ∧
    w.lido.balanceOf 5 = .ok (2 * 10 ^ 18) ∧
    ((∃ w', (jointSystem deployment layout).step w
        (call 5 (by decide) (.transfer 8 (2 * 10 ^ 18 + 2))) = .ok w') →
      w.lido.Covers 5 (2 * 10 ^ 18 + 2)) := by
  have hrun : reaches (jointSystem deployment layout) start doublingRun (fun w ↦
      decide (w.lido.totalSupply = .ok (2 * 10 ^ 18) ∧ w.lido.totalShares = 10 ^ 18 ∧
        w.lido.balanceOf 5 = .ok (2 * 10 ^ 18) ∧ w.lido.shares 5 = 10 ^ 18 ∧
        w.lido.pooled = 2 * 10 ^ 18)) = true := by
    decide +kernel
  obtain ⟨w, hw, hp⟩ := reachable_of_run hrun
  obtain ⟨hT, hS, hb, hshares, hpooled⟩ := of_decide_eq_true hp
  have hshare : (w.lido.shares 5 + 1) * w.lido.pooled ≤ (2 * 10 ^ 18 + 2) * w.lido.totalShares := by
    rw [hshares, hpooled, hS]
    decide
  refine ⟨w, hw, hb, ((transfer_checks_balance_iff hw hT (by decide)).1 _ rfl).mpr ?_⟩
  exact .inr (.inr (.inr (.inr (.inl hshare))))

end Sample

end Balance

end LidoDao
