import Mathlib.Algebra.Order.Ring.Nat
import LidoDao.Library.ByteWords

namespace LidoDao.Library.ByteMemory

open ByteWords

/-! A memory of bytes, read and written by big-endian words of 32 bytes. -/

abbrev Memory := ℕ → UInt8

abbrev Word := BitVec 256

/-- A byte of a word, counted from the highest. -/
def byteAt (w : Word) (j : ℕ) : UInt8 := .ofBitVec ((w >>> (8 * (31 - j))).setWidth 8)

def mload (m : Memory) (p : ℕ) : Word :=
  .ofNat 256 (fromBytes ((List.range 32).map fun k ↦ m (p + k)))

def mstore (m : Memory) (p : ℕ) (w : Word) : Memory :=
  fun a ↦ if p ≤ a ∧ a < p + 32 then byteAt w (a - p) else m a

variable {m : Memory} {v w : Word} {a j p : ℕ}

theorem mstore_of_mem (hp : p ≤ a) (ha : a < p + 32) : mstore m p w a = byteAt w (a - p) :=
  if_pos ⟨hp, ha⟩

theorem mstore_of_notMem (h : a < p ∨ p + 32 ≤ a) : mstore m p w a = m a :=
  if_neg (by omega)

section Bytes

theorem toNat_byteAt (w : Word) (j : ℕ) :
    (byteAt w j).toNat = w.toNat / 256 ^ (31 - j) % 256 := by
  have hpow : 2 ^ (8 * (31 - j)) = 256 ^ (31 - j) := Nat.pow_mul 2 8 _
  rw [byteAt, UInt8.toNat_ofBitVec, BitVec.toNat_setWidth, BitVec.toNat_ushiftRight,
    Nat.shiftRight_eq_div_pow, hpow]

theorem fromBytes_div (bs : Bytes) {k : ℕ} (hk : k < bs.length) :
    fromBytes bs / 256 ^ (bs.length - 1 - k) % 256 = bs[k].toNat := by
  have hlength : (bs.drop (k + 1)).length = bs.length - 1 - k := by
    rw [List.length_drop]
    omega
  have hpos : 0 < 256 ^ (bs.drop (k + 1)).length := by positivity
  have hlow := fromBytes_lt (bs.drop (k + 1))
  have hsplit : fromBytes bs = (fromBytes (bs.take k) * 256 + bs[k].toNat) *
      256 ^ (bs.drop (k + 1)).length + fromBytes (bs.drop (k + 1)) := by
    conv_lhs => rw [← List.take_append_drop k bs, List.drop_eq_getElem_cons hk]
    rw [fromBytes_append, fromBytes, List.length_cons, pow_succ]
    ring
  rw [← hlength, hsplit, Nat.add_comm, Nat.add_mul_div_right _ _ hpos, Nat.div_eq_of_lt hlow,
    Nat.zero_add, Nat.mul_add_mod_self_right, Nat.mod_eq_of_lt bs[k].toNat_lt]

theorem byteAt_mload (hj : j < 32) : byteAt (mload m p) j = m (p + j) := by
  let bs : Bytes := (List.range 32).map fun k ↦ m (p + k)
  have hlength : bs.length = 32 := by simp [bs]
  have hj' : j < bs.length := by omega
  have hpow : 256 ^ 32 = 2 ^ 256 := Nat.pow_mul 2 8 32 |>.symm
  have hlt : fromBytes bs < 2 ^ 256 := by
    have hlt := fromBytes_lt bs
    rwa [hlength, hpow] at hlt
  have hword : (mload m p).toNat = fromBytes bs := by
    rw [mload, BitVec.toNat_ofNat, Nat.mod_eq_of_lt hlt]
  have hbyte := fromBytes_div bs hj'
  rw [hlength] at hbyte
  rw [← UInt8.toNat_inj, toNat_byteAt, hword, hbyte]
  simp [bs]

theorem byteAt_and (v w : Word) (j : ℕ) : byteAt (v &&& w) j = byteAt v j &&& byteAt w j := by
  simp [byteAt, BitVec.ushiftRight_and_distrib, BitVec.setWidth_and]

theorem byteAt_or (v w : Word) (j : ℕ) : byteAt (v ||| w) j = byteAt v j ||| byteAt w j := by
  simp [byteAt, BitVec.ushiftRight_or_distrib, BitVec.setWidth_or]

theorem byteAt_not (w : Word) (j : ℕ) : byteAt (~~~w) j = ~~~byteAt w j := by
  rw [byteAt, byteAt, ← UInt8.toBitVec_inj, UInt8.toBitVec_not]
  refine BitVec.eq_of_getLsbD_eq fun i hi ↦ ?_
  have hin : 8 * (31 - j) + i < 256 := by omega
  simp [hi, hin]

theorem byteAt_eq_zero (h : w.toNat < 256 ^ (31 - j)) : byteAt w j = 0 := by
  rw [← UInt8.toNat_inj, toNat_byteAt, Nat.div_eq_of_lt h]
  rfl

end Bytes

section Merge

/-- The bits of the mask from the first word, the others from the second. -/
def merge (mask v w : Word) : Word := (v &&& mask) ||| (w &&& ~~~mask)

theorem byteAt_merge (mask v w : Word) (j : ℕ) : byteAt (merge mask v w) j =
    byteAt v j &&& byteAt mask j ||| byteAt w j &&& ~~~byteAt mask j := by
  rw [merge, byteAt_or, byteAt_and, byteAt_and, byteAt_not]

theorem merge_byte_zero (b c : UInt8) : b &&& 0 ||| c &&& ~~~0 = c := by
  simp

theorem merge_bit_eq_iff : ∀ b c mask : Bool,
    (b && mask || c && !mask) = b ↔ (c && !mask) = (b && !mask) := by decide

theorem merge_byte_eq_iff {b c mask : UInt8} :
    b &&& mask ||| c &&& ~~~mask = b ↔ c &&& ~~~mask = b &&& ~~~mask := by
  have hbits {x y : UInt8} : x = y ↔ ∀ i < 8, x.toBitVec.getLsbD i = y.toBitVec.getLsbD i := by
    rw [← UInt8.toBitVec_inj]
    exact ⟨fun h i _ ↦ by rw [h], fun h ↦ BitVec.eq_of_getLsbD_eq h⟩
  rw [hbits, hbits]
  refine forall_congr' fun i ↦ forall_congr' fun hi ↦ ?_
  simp only [UInt8.toBitVec_or, UInt8.toBitVec_and, UInt8.toBitVec_not, BitVec.getLsbD_or,
    BitVec.getLsbD_and, BitVec.getLsbD_not, hi, decide_true, Bool.true_and]
  exact merge_bit_eq_iff _ _ _

end Merge

section CopyWord

theorem mstore_mload_of_mem {src dst k : ℕ} (hk : k < 32) :
    mstore m dst (mload m src) (dst + k) = m (src + k) := by
  rw [mstore_of_mem (Nat.le_add_right _ _) (by omega), Nat.add_sub_cancel_left, byteAt_mload hk]

end CopyWord

section Holds

def Holds (m : Memory) (p : ℕ) (bs : Bytes) : Prop :=
  ∀ (k : ℕ) (b : UInt8), bs[k]? = some b → m (p + k) = b

theorem mload_congr {m' : Memory} (h : ∀ k < 32, m' (p + k) = m (p + k)) :
    mload m' p = mload m p := by
  rw [mload, mload]
  congr 2
  exact List.map_congr_left fun k hk ↦ h k (List.mem_range.mp hk)

theorem getElem?_splice {old bs : Bytes} {start : ℕ} (h : start + bs.length ≤ old.length)
    (k : ℕ) : (splice old start bs)[k]? =
      if start ≤ k ∧ k < start + bs.length then bs[k - start]? else old[k]? := by
  have htake : (old.take start).length = start := List.length_take_of_le (by omega)
  rw [splice, List.append_assoc, List.getElem?_append, htake, List.getElem?_append]
  by_cases hlow : k < start
  · rw [if_pos hlow, if_neg (by omega), List.getElem?_take_of_lt hlow]
  · rw [if_neg hlow]
    by_cases hin : k < start + bs.length
    · rw [if_pos (by omega), if_pos (by omega)]
    · rw [if_neg (by omega), if_neg (by omega), List.getElem?_drop]
      congr 1
      omega

end Holds

end LidoDao.Library.ByteMemory
