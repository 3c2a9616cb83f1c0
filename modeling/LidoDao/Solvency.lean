import LidoDao.PoolInvariants
import LidoDao.JointSystem
import LidoDao.Library.SharePool

namespace LidoDao

open Evm Library.Ledger Library.SharePool Library.Transition
open scoped BigOperators

variable {R ρ : Type} {D : Deployment} {I : INodeOperatorsRegistry R ρ}

namespace Lido

variable {s : Lido}

/-- The tokens of an account: what `balanceOf` answers, and nothing where it
reverts. -/
def tokens (s : Lido) (a : Address) : ℕ := (s.balanceOf a).toOption.getD 0

theorem tokens_of_balanceOf {a : Address} {n : ℕ} (h : s.balanceOf a = .ok n) :
    s.tokens a = n := by
  rw [tokens, h]
  rfl

theorem totalSupply_eq_ok {T : ℕ} :
    s.totalSupply = .ok T ↔ EtherBooks.Sound s.books ∧ s.pooled < wordLimit ∧ T = s.pooled :=
  _getTotalPooledEther_eq_ok

theorem balanceOf_ok {a : Address} {n : ℕ} (h : s.balanceOf a = .ok n) :
    (s.totalShares = 0 ∧ n = 0) ∨
      (0 < s.totalShares ∧ s.totalSupply = .ok s.pooled ∧ s.shares a * s.pooled < wordLimit ∧
        n = s.shares a * s.pooled / s.totalShares) := by
  rcases StETH.getPooledEthByShares_eq_ok.mp h with hzero | ⟨hpos, T, hT, hlt, hn⟩
  · exact .inl hzero
  · obtain ⟨_, _, rfl⟩ := totalSupply_eq_ok.mp hT
    exact .inr ⟨hpos, hT, hlt, hn⟩

theorem balanceOf_le_balanceOf {s' : Lido} {a : Address} {n n' : ℕ}
    (hprice : s.pooled * s'.totalShares ≤ s'.pooled * s.totalShares)
    (hshares : s.shares a ≤ s'.shares a) (hpos : s.totalShares ≤ s'.totalShares)
    (hn : s.balanceOf a = .ok n) (hn' : s'.balanceOf a = .ok n') : n ≤ n' := by
  rcases balanceOf_ok hn with ⟨_, rfl⟩ | ⟨hS, _, _, rfl⟩
  · exact Nat.zero_le _
  · rcases balanceOf_ok hn' with ⟨hzero, _⟩ | ⟨hS', _, _, rfl⟩
    · omega
    · exact worth_le_worth hS hS' hshares hprice

theorem tokens_of_totalShares_eq_zero (h : s.totalShares = 0) (a : Address) :
    s.tokens a = 0 := by
  apply tokens_of_balanceOf
  exact StETH.getPooledEthByShares_eq_ok.mpr (.inl ⟨h, rfl⟩)

theorem tokens_le {T : ℕ} (hT : s.totalSupply = .ok T) (a : Address) :
    s.tokens a ≤ s.shares a * T / s.totalShares := by
  rcases Nat.eq_zero_or_pos s.totalShares with hzero | hpos
  · rw [tokens_of_totalShares_eq_zero hzero]
    exact Nat.zero_le _
  · cases h : s.balanceOf a with
    | error e => simp [tokens, h, Except.toOption]
    | ok n =>
      obtain ⟨_, _, rfl⟩ := totalSupply_eq_ok.mp hT
      rw [tokens_of_balanceOf h]
      rcases balanceOf_ok h with ⟨hzero, _⟩ | ⟨_, _, _, hn⟩
      · omega
      · exact hn.le

end Lido

/-- The shares of all accounts add up to the total; their tokens add up to the
token supply, short of it by less than one unit a holder. -/
theorem shares_add_up_and_tokens_are_backed {w : World R}
    (h : Reachable (World.machine D I) w) :
    ∑ a, w.lido.shares a = w.lido.totalShares ∧
    ∀ T, w.lido.totalSupply = .ok T →
      ∑ a, w.lido.tokens a ≤ T ∧
      (0 < w.lido.totalShares → (∀ a, ∃ n, w.lido.balanceOf a = .ok n) →
        T < ∑ a, w.lido.tokens a + (Finset.univ.filter fun a ↦ 0 < w.lido.shares a).card) := by
  have hbalanced := (World.sane h).balanced
  refine ⟨hbalanced, ?_⟩
  intro T hT
  refine ⟨?_, ?_⟩
  · calc ∑ a, w.lido.tokens a
        ≤ ∑ a, w.lido.shares a * T / w.lido.totalShares :=
          Finset.sum_le_sum fun a _ ↦ Lido.tokens_le hT a
      _ ≤ T := sum_prorata_le hbalanced T
  · intro hpos hall
    have htokens (a : Address) : w.lido.tokens a = w.lido.shares a * T / w.lido.totalShares := by
      obtain ⟨n, hn⟩ := hall a
      obtain ⟨_, _, rfl⟩ := Lido.totalSupply_eq_ok.mp hT
      rw [Lido.tokens_of_balanceOf hn]
      rcases Lido.balanceOf_ok hn with ⟨hzero, _⟩ | ⟨_, _, _, hn⟩
      · omega
      · exact hn
    rw [Finset.sum_congr rfl fun a _ ↦ htokens a]
    exact lt_sum_prorata_add_card hbalanced hpos T

/-- Two submits, a transfer to oneself and a profit that does not divide evenly. -/
theorem shares_add_up_after_a_profit :
    ∃ w, Reachable (jointSystem Sample.deployment Sample.layout) w ∧
      w.lido.totalSupply = .ok 1003 ∧ ∑ a, w.lido.shares a = w.lido.totalShares ∧
      ∑ a, w.lido.tokens a ≤ 1003 := by
  let p : World NodeOperatorsRegistry → Bool := fun w ↦ w.lido.totalSupply = .ok 1003
  obtain ⟨w, hw, hp⟩ := Sample.reachable_of_run (p := p) (l := [
    Sample.admin .resume,
    Sample.admin (.setFee 1000),
    Sample.admin (.submit 0 300),
    Sample.call 6 (by decide) (.submit 0 500),
    Sample.call 6 (by decide) (.transferShares 6 123),
    Sample.report 0 203]) (by decide +kernel)
  have hT : w.lido.totalSupply = .ok 1003 := of_decide_eq_true hp
  obtain ⟨hsum, hbacked⟩ := shares_add_up_and_tokens_are_backed hw
  exact ⟨w, hw, hT, hsum, (hbacked 1003 hT).1⟩

end LidoDao
