import Mathlib.Data.Nat.Notation
import Mathlib.Algebra.Order.Ring.Nat
import Mathlib.Tactic.Ring
import Mathlib.Tactic.Linarith

namespace LidoDao.EtherBooks

/-- The ether a staking pool accounts for: what it holds, the part of that it
counts as staked but not yet deposited, the deposits made, the part of them seen
on the beacon chain with the balance reported there, and the rewards that came
in. A deposit takes `unit` wei. -/
structure Books where
  balance : ℕ
  buffered : ℕ
  deposited : ℕ
  beaconValidators : ℕ
  beaconBalance : ℕ
  rewardsCollected : ℕ

inductive Entry
  | idle
  | paidIn (value : ℕ)
  | credited (value : ℕ)
  | rewardsIn (value : ℕ)
  | deposited (count : ℕ)
  | reported (validators balance withdrawn : ℕ)
  | recovered

/-- Entries the books admit, and what they become. -/
inductive Posts (unit : ℕ) : Books → Entry → Books → Prop
  | idle (b : Books) : Posts unit b .idle b
  | paidIn (b : Books) (value : ℕ) : Posts unit b (.paidIn value)
      { b with balance := b.balance + value, buffered := b.buffered + value }
  | credited (b : Books) (value : ℕ) : Posts unit b (.credited value)
      { b with balance := b.balance + value }
  | rewardsIn (b : Books) (value : ℕ) : Posts unit b (.rewardsIn value)
      { b with
        balance := b.balance + value
        rewardsCollected := b.rewardsCollected + value }
  | deposited (b : Books) (count : ℕ) (h : count * unit ≤ b.buffered) :
      Posts unit b (.deposited count)
      { b with
        balance := b.balance - count * unit
        buffered := b.buffered - count * unit
        deposited := b.deposited + count }
  | reported (b : Books) (validators balance withdrawn : ℕ)
      (hmore : validators ≤ b.deposited) (hless : b.beaconValidators ≤ validators) :
      Posts unit b (.reported validators balance withdrawn)
      { b with
        balance := b.balance + withdrawn
        buffered := b.buffered + withdrawn
        beaconValidators := validators
        beaconBalance := balance
        rewardsCollected := b.rewardsCollected + withdrawn }
  | recovered (b : Books) : Posts unit b .recovered { b with balance := b.buffered }

/-- The buffer is backed by ether, and no validator is seen that was not deposited. -/
structure Sound (b : Books) : Prop where
  backed : b.buffered ≤ b.balance
  seen : b.beaconValidators ≤ b.deposited

namespace Books

variable (unit : ℕ) (b : Books)

def inTransit : ℕ := (b.deposited - b.beaconValidators) * unit

def pooled : ℕ := b.buffered + b.beaconBalance + b.inTransit unit

def unaccounted : ℕ := b.balance - b.buffered

/-- The part of the next report's beacon balance that is not a reward. -/
def rewardBase (validators : ℕ) : ℕ :=
  (validators - b.beaconValidators) * unit + b.beaconBalance

end Books

variable {unit : ℕ} {b b' : Books} {e : Entry}

theorem Sound.posts (h : Sound b) (hp : Posts unit b e b') : Sound b' := by
  obtain ⟨hb, hs⟩ := h
  cases hp with
  | idle => exact ⟨hb, hs⟩
  | paidIn value => exact ⟨by dsimp only; omega, hs⟩
  | credited value => exact ⟨by dsimp only; omega, hs⟩
  | rewardsIn value => exact ⟨by dsimp only; omega, hs⟩
  | deposited count hc => exact ⟨by dsimp only; omega, by dsimp only; omega⟩
  | reported validators balance withdrawn hmore hless => exact ⟨by dsimp only; omega, hmore⟩
  | recovered => exact ⟨le_rfl, hs⟩

/-- What an entry adds to the pooled ether. -/
def Entry.pooledChange (unit : ℕ) (b : Books) : Entry → ℤ
  | .paidIn value => value
  | .reported validators balance withdrawn =>
    (balance - b.beaconBalance - unit * (validators - b.beaconValidators)) + withdrawn
  | _ => 0

theorem Posts.pooled (h : Sound b) (hp : Posts unit b e b') :
    (b'.pooled unit : ℤ) = b.pooled unit + e.pooledChange unit b := by
  obtain ⟨hb, hs⟩ := h
  cases hp with
  | idle => simp [Entry.pooledChange]
  | paidIn value =>
    simp only [Books.pooled, Books.inTransit, Entry.pooledChange]
    push_cast
    ring
  | credited value => simp [Entry.pooledChange, Books.pooled, Books.inTransit]
  | rewardsIn value => simp [Entry.pooledChange, Books.pooled, Books.inTransit]
  | deposited count hc =>
    have he : b.deposited + count - b.beaconValidators =
        (b.deposited - b.beaconValidators) + count := by omega
    simp only [Books.pooled, Books.inTransit, Entry.pooledChange, he]
    push_cast [Nat.cast_sub hc]
    ring
  | reported validators balance withdrawn hmore hless =>
    simp only [Books.pooled, Books.inTransit, Entry.pooledChange]
    push_cast [Nat.cast_sub hmore, Nat.cast_sub hs]
    ring
  | recovered => simp [Entry.pooledChange, Books.pooled, Books.inTransit]

/-- After a report the pool holds what it held, the withdrawn rewards and the
change of the beacon balance against the reward base. -/
theorem Posts.pooled_reported {validators balance withdrawn : ℕ} (h : Sound b)
    (hp : Posts unit b (.reported validators balance withdrawn) b') :
    b'.pooled unit + b.rewardBase unit validators = b.pooled unit + balance + withdrawn := by
  obtain ⟨hb, hs⟩ := h
  cases hp with
  | reported _ _ _ hmore hless =>
    have he : b.deposited - b.beaconValidators =
        (b.deposited - validators) + (validators - b.beaconValidators) := by omega
    simp only [Books.pooled, Books.inTransit, Books.rewardBase, he]
    ring

/-- The ether that no one accounted for, after an entry. -/
def Entry.unaccountedAfter (b : Books) : Entry → ℕ
  | .credited value | .rewardsIn value => b.unaccounted + value
  | .recovered => 0
  | _ => b.unaccounted

theorem Posts.unaccounted (h : Sound b) (hp : Posts unit b e b') :
    b'.unaccounted = e.unaccountedAfter b := by
  obtain ⟨hb, hs⟩ := h
  cases hp with
  | idle => rfl
  | recovered => exact Nat.sub_self _
  | paidIn | credited | rewardsIn | reported =>
    simp only [Books.unaccounted, Entry.unaccountedAfter]
    omega
  | deposited count hc =>
    simp only [Books.unaccounted, Entry.unaccountedAfter]
    omega

end LidoDao.EtherBooks
