import LidoDao.DepositSecurityModule
import Mathlib.Tactic.NormNum

namespace LidoDao

open Evm Library.Outcome

namespace ECDSA

variable {P : Precompiles} {hash r s vs vs' : BitVec 256} {v : BitVec 8} {signer : Address}

/-- The order of the curve's group; a signature with `s` has a mirror image with what is left. -/
def groupOrder : ℕ := 0xFFFFFFFFFFFFFFFFFFFFFFFFFFFFFFFEBAAEDCE6AF48A03BBFD25E8CD0364141

/-- The recovery id and the `s` of a compact signature. -/
def split (vs : BitVec 256) : BitVec 8 × BitVec 256 :=
  (((vs >>> 255) + 27).setWidth 8,
    vs &&& 0x7fffffffffffffffffffffffffffffffffffffffffffffffffffffffffffffff)

def compact (v : BitVec 8) (s : BitVec 256) : BitVec 256 :=
  .ofNat 256 ((v.toNat - 27) * 2 ^ 255 + s.toNat)

theorem recoverShort_eq :
    recoverShort P hash r vs = recover P hash (split vs).1 r (split vs).2 := rfl

theorem split_snd : (split vs).2.toNat = vs.toNat % 2 ^ 255 := by
  have hmask : (0x7fffffffffffffffffffffffffffffffffffffffffffffffffffffffffffffff : BitVec 256).toNat =
      2 ^ 255 - 1 := by decide
  rw [split, BitVec.toNat_and, hmask, Nat.and_two_pow_sub_one_eq_mod]

theorem split_fst : (split vs).1.toNat = vs.toNat / 2 ^ 255 + 27 := by
  have hlt := vs.isLt
  have hbit : vs.toNat / 2 ^ 255 < 2 := by
    rw [Nat.div_lt_iff_lt_mul (by norm_num)]
    omega
  have htwentySeven : (27 : BitVec 256).toNat = 27 := rfl
  rw [split, BitVec.toNat_setWidth, BitVec.toNat_add, BitVec.toNat_ushiftRight,
    Nat.shiftRight_eq_div_pow, htwentySeven]
  omega

theorem split_compact (hv : v = 27 ∨ v = 28) (hs : s.toNat < 2 ^ 255) :
    split (compact v s) = (v, s) := by
  have hbit : v.toNat = 27 ∨ v.toNat = 28 := by
    rcases hv with rfl | rfl
    · exact .inl rfl
    · exact .inr rfl
  have hcompact : (compact v s).toNat = (v.toNat - 27) * 2 ^ 255 + s.toNat := by
    rw [compact, BitVec.toNat_ofNat]
    refine Nat.mod_eq_of_lt ?_
    omega
  refine Prod.ext (BitVec.eq_of_toNat_eq ?_) (BitVec.eq_of_toNat_eq ?_)
  · rw [split_fst, hcompact]
    dsimp only
    omega
  · rw [split_snd, hcompact]
    dsimp only
    omega

theorem compact_split (vs : BitVec 256) : compact (split vs).1 (split vs).2 = vs := by
  refine BitVec.eq_of_toNat_eq ?_
  rw [compact, BitVec.toNat_ofNat, split_fst, split_snd, Nat.add_sub_cancel, Nat.div_add_mod',
    Nat.mod_eq_of_lt vs.isLt]

theorem recover_eq_ok (h : recover P hash v r s = .ok signer) :
    s.toNat ≤ groupOrder / 2 ∧ (v = 27 ∨ v = 28) := by
  simp only [recover, bind_eq_ok, require_eq_ok, exists_const] at h
  exact ⟨BitVec.le_def.mp h.1, h.2.1⟩

/-- A signature that is accepted has exactly one compact form, which recovers its signer, and its
mirror image is never accepted, so nobody can make a second signature from it. -/
theorem signatures_have_one_form (P : Precompiles) (hash r : BitVec 256) :
    (∀ v s signer, recover P hash v r s = .ok signer →
      (∃ vs, recoverShort P hash r vs = .ok signer ∧ split vs = (v, s)) ∧
        ∀ vs vs', split vs = (v, s) → split vs' = (v, s) → vs = vs') ∧
    ∀ vs vs' signer signer', recoverShort P hash r vs = .ok signer →
      recoverShort P hash r vs' = .ok signer' →
        (split vs).2.toNat + (split vs').2.toNat ≠ groupOrder := by
  constructor
  · intro v s signer h
    obtain ⟨hs, hv⟩ := recover_eq_ok h
    have hsplit : split (compact v s) = (v, s) :=
      split_compact hv (hs.trans_lt (by norm_num [groupOrder]))
    refine ⟨⟨compact v s, ?_, hsplit⟩, ?_⟩
    · rw [recoverShort_eq, hsplit]
      exact h
    · intro vs vs' hvs hvs'
      rw [← compact_split vs, ← compact_split vs', hvs, hvs']
  · intro vs vs' signer signer' h h'
    rw [recoverShort_eq] at h h'
    have hlow := (recover_eq_ok h).1
    have hlow' := (recover_eq_ok h').1
    have hodd : groupOrder = 2 * (groupOrder / 2) + 1 := by norm_num [groupOrder]
    omega

end ECDSA

namespace Sample

/-- Whoever `r` names has signed, here the account eleven. -/
theorem eleven_has_one_form : ∃ P vs, ECDSA.recoverShort P 1 11 vs = .ok 11 ∧
    ECDSA.split vs = (28, 5) := by
  let P : Precompiles :=
    { keccak256 := fun bs ↦ BitVec.ofNat 256 bs.length
      ecrecover := fun _ _ r _ ↦ OfNat.ofNat r.toNat }
  have hrecover : ECDSA.recover P 1 28 11 5 = .ok 11 := rfl
  obtain ⟨⟨vs, hvs, hsplit⟩, _⟩ :=
    (ECDSA.signatures_have_one_form P 1 11).1 28 5 11 hrecover
  exact ⟨P, vs, hvs, hsplit⟩

end Sample

end LidoDao
