import Mathlib.Data.Fintype.EquivFin
import Mathlib.Data.Nat.Notation
import LidoDao.Library.Outcome
import LidoDao.Library.ByteWords

namespace LidoDao.Evm

open Library.Outcome Library.ByteWords

/-- A 160-bit account address. -/
structure Address where
  id : Fin (2 ^ 160)
  deriving DecidableEq

instance : Fintype Address :=
  .ofEquiv (Fin (2 ^ 160)) ⟨Address.mk, Address.id, fun _ ↦ rfl, fun _ ↦ rfl⟩

instance (n : ℕ) : OfNat Address n := ⟨⟨Fin.ofNat _ n⟩⟩

/-- How a transaction can be undone: a `require` with a text, one without (or a
call to an address that holds no contract), and an `assert` or an array access
out of bounds, named by the function it stands in. -/
inductive Revert
  | reason (text : String)
  | silent
  | assertion (site : String)
  deriving DecidableEq

/-- The number of values of a `uint256`. -/
@[irreducible] def wordLimit : ℕ := 2 ^ 256

/-- What a contract sees of the transaction that calls it. The access control
list is external: it answers, for this sender, which roles it holds. -/
structure Call (Role : Type) where
  sender : Address
  blockNumber : ℕ
  canPerform : Role → List ℕ → Bool

variable {Role : Type}

def Call.auth (c : Call Role) (role : Role) (params : List ℕ) : Except Revert Unit :=
  require (c.canPerform role params) (.reason "APP_AUTH_FAILED")

namespace SafeMath

def add (a b : ℕ) : Except Revert ℕ :=
  if a + b < wordLimit then .ok (a + b) else .error (.reason "MATH_ADD_OVERFLOW")

def sub (a b : ℕ) : Except Revert ℕ :=
  if b ≤ a then .ok (a - b) else .error (.reason "MATH_SUB_UNDERFLOW")

def mul (a b : ℕ) : Except Revert ℕ :=
  if a * b < wordLimit then .ok (a * b) else .error (.reason "MATH_MUL_OVERFLOW")

def div (a b : ℕ) : Except Revert ℕ :=
  if 0 < b then .ok (a / b) else .error (.reason "MATH_DIV_ZERO")

def mod (a b : ℕ) : Except Revert ℕ :=
  if 0 < b then .ok (a % b) else .error (.reason "MATH_DIV_ZERO")

variable {a b c : ℕ}

theorem add_eq_ok : add a b = .ok c ↔ a + b < wordLimit ∧ c = a + b := by
  unfold add
  split <;> simp_all [eq_comm]

theorem sub_eq_ok : sub a b = .ok c ↔ b ≤ a ∧ c = a - b := by
  unfold sub
  split <;> simp_all [eq_comm]

theorem mul_eq_ok : mul a b = .ok c ↔ a * b < wordLimit ∧ c = a * b := by
  unfold mul
  split <;> simp_all [eq_comm]

theorem div_eq_ok : div a b = .ok c ↔ 0 < b ∧ c = a / b := by
  unfold div
  split <;> simp_all [eq_comm]

theorem mod_eq_ok : mod a b = .ok c ↔ 0 < b ∧ c = a % b := by
  unfold mod
  split <;> simp_all [eq_comm]

end SafeMath

/-- `SafeMath64`: checked arithmetic on `uint64` values. -/
def SafeMath64.add (a b : ℕ) : Except Revert ℕ :=
  if a + b < 2 ^ 64 then .ok (a + b) else .error (.reason "MATH64_ADD_OVERFLOW")

def SafeMath64.sub (a b : ℕ) : Except Revert ℕ :=
  if b ≤ a then .ok (a - b) else .error (.reason "MATH64_SUB_UNDERFLOW")

theorem SafeMath64.add_eq_ok {a b c : ℕ} :
    SafeMath64.add a b = .ok c ↔ a + b < 2 ^ 64 ∧ c = a + b := by
  unfold SafeMath64.add
  split <;> simp_all [eq_comm]

theorem SafeMath64.sub_eq_ok {a b c : ℕ} :
    SafeMath64.sub a b = .ok c ↔ b ≤ a ∧ c = a - b := by
  unfold SafeMath64.sub
  split <;> simp_all [eq_comm]

/-- `BytesLib.slice`, at its documented contract. -/
def bytesSlice (bs : Bytes) (start len : ℕ) : Except Revert Bytes := do
  require (start + len ≤ bs.length) .silent
  pure (slice bs start len)

theorem bytesSlice_eq_ok {bs cs : Bytes} {start len : ℕ} :
    bytesSlice bs start len = .ok cs ↔ start + len ≤ bs.length ∧ cs = slice bs start len := by
  simp only [bytesSlice, bind_eq_ok, require_eq_ok, pure_eq, Except.ok.injEq, exists_const]
  exact and_congr_right fun _ ↦ eq_comm

end LidoDao.Evm
