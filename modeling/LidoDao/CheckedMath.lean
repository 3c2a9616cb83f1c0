import LidoDao.Evm

namespace LidoDao.Evm

open Library.Outcome

namespace Checked

/-! Arithmetic on words as the compiler checks it since 0.8: what does not fit stops the
transaction without a text. -/

def add (a b : ℕ) : Except Revert ℕ := if a + b < wordLimit then .ok (a + b) else .error .silent

def sub (a b : ℕ) : Except Revert ℕ := if b ≤ a then .ok (a - b) else .error .silent

def mul (a b : ℕ) : Except Revert ℕ := if a * b < wordLimit then .ok (a * b) else .error .silent

variable {a b c : ℕ}

theorem add_eq_ok : add a b = .ok c ↔ a + b < wordLimit ∧ c = a + b := by
  rw [add]
  split <;> simp_all [eq_comm]

theorem sub_eq_ok : sub a b = .ok c ↔ b ≤ a ∧ c = a - b := by
  rw [sub]
  split <;> simp_all [eq_comm]

theorem mul_eq_ok : mul a b = .ok c ↔ a * b < wordLimit ∧ c = a * b := by
  rw [mul]
  split <;> simp_all [eq_comm]

end Checked

/-- What arithmetic stops with, checked by the compiler or by a library. -/
def arithmeticErrors : List Revert :=
  [.silent, .reason "MATH_ADD_OVERFLOW", .reason "MATH_SUB_UNDERFLOW",
    .reason "MATH_MUL_OVERFLOW", .reason "MATH_DIV_ZERO", .reason "MATH64_ADD_OVERFLOW",
    .reason "MATH64_SUB_UNDERFLOW"]

section Avoids

variable {bad : Revert → Prop} (ha : ∀ r ∈ arithmeticErrors, ¬bad r) {a b : ℕ}

include ha

theorem checked_avoids {r : Revert} (hr : r ∈ arithmeticErrors) {p : Prop} [Decidable p] (n : ℕ) :
    Avoids bad (if p then .ok n else .error r) := by
  rw [avoids_ite]
  exact ⟨fun _ ↦ avoids_ok n, fun _ ↦ avoids_error.mpr (ha r hr)⟩

theorem SafeMath.add_avoids : Avoids bad (add a b) :=
  checked_avoids ha (by decide) _

theorem SafeMath.sub_avoids : Avoids bad (sub a b) :=
  checked_avoids ha (by decide) _

theorem SafeMath.mul_avoids : Avoids bad (mul a b) :=
  checked_avoids ha (by decide) _

theorem SafeMath.div_avoids : Avoids bad (div a b) :=
  checked_avoids ha (by decide) _

theorem SafeMath.mod_avoids : Avoids bad (mod a b) :=
  checked_avoids ha (by decide) _

theorem SafeMath64.add_avoids : Avoids bad (SafeMath64.add a b) :=
  checked_avoids ha (by decide) _

theorem SafeMath64.sub_avoids : Avoids bad (SafeMath64.sub a b) :=
  checked_avoids ha (by decide) _

theorem Checked.add_avoids : Avoids bad (Checked.add a b) :=
  checked_avoids ha (by decide) _

theorem Checked.sub_avoids : Avoids bad (Checked.sub a b) :=
  checked_avoids ha (by decide) _

theorem Checked.mul_avoids : Avoids bad (Checked.mul a b) :=
  checked_avoids ha (by decide) _

end Avoids

end LidoDao.Evm
