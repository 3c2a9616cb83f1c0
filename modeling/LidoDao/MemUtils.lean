import LidoDao.Library.ByteMemory
import LidoDao.NodeOperatorsRegistry

namespace LidoDao.MemUtils

open Evm Library.Outcome Library.ByteWords Library.ByteMemory

/-- The second operand shifted left by the first, as in assembly. -/
def shl (x y : Word) : Word := y <<< x.toNat

/-- The mask of the last word of a copy, of which this many bytes are left. -/
def lastMask (len : ℕ) : Word := shl 1 (.ofNat 256 (8 * (32 - len))) - 1

/-- Memory is never so long that positions in it would wrap. -/
def memcpy (src dst len : ℕ) (m : Memory) : Memory :=
  if 31 < len then
    memcpy (src + 32) (dst + 32) (len - 32) (mstore m dst (mload m src))
  else if 0 < len then
    let mask := lastMask len
    let srcMasked := mload m src &&& ~~~mask
    let dstMasked := mload m dst &&& mask
    mstore m dst (dstMasked ||| srcMasked)
  else m
termination_by len

/-- The length of a byte array stands in front of its bytes. -/
def arrayLength (m : Memory) (p : ℕ) : ℕ := (mload m p).toNat

def copyBytes (src dst dstStart : ℕ) (m : Memory) : Except Revert Memory := do
  require ((dstStart + arrayLength m src) % wordLimit ≤ arrayLength m dst)
    (.reason "BYTES_ARRAY_OUT_OF_BOUNDS")
  let srcStartPos := src + 32
  let dstStartPos := dst + 32 + dstStart
  pure (memcpy srcStartPos dstStartPos (arrayLength m src) m)

variable {m : Memory} {src dst len k a : ℕ}

/-- The number of bytes that the last word written reaches past the end. -/
def excess (len : ℕ) : ℕ := (32 - len % 32) % 32

/-- The bits that a byte behind the end keeps, of the lowest nine of the last word. -/
def keptBits (len k : ℕ) : UInt8 := byteAt (.ofNat 256 (16 * (32 - len % 32) - 1)) (len % 32 + k)

theorem lastMask_eq (hpos : 0 < len) (hlt : len < 32) :
    lastMask len = .ofNat 256 (16 * (32 - len) - 1) := by
  have hall : ∀ len < 32, 0 < len → lastMask len = .ofNat 256 (16 * (32 - len) - 1) := by
    decide +kernel
  exact hall len hlt hpos

theorem byteAt_lastMask (hpos : 0 < len) (hlt : len < 32) (hk : k < len) :
    byteAt (lastMask len) k = 0 := by
  obtain ⟨n, hn⟩ : ∃ n, 32 - len = n + 1 := ⟨31 - len, by omega⟩
  have hsmall : 16 * (n + 1) - 1 < 256 ^ (n + 1) := by
    have hlt : n < 256 ^ n := Nat.lt_pow_self (by decide)
    rw [Nat.pow_succ]
    omega
  have hpow : 256 ^ (n + 1) ≤ 256 ^ (31 - k) := Nat.pow_le_pow_right (by decide) (by omega)
  rw [lastMask_eq hpos hlt, hn]
  refine byteAt_eq_zero ?_
  rw [BitVec.toNat_ofNat]
  exact ((Nat.mod_le _ _).trans_lt hsmall).trans_le hpow

theorem memcpy_word (h : 31 < len) : memcpy src dst len m =
    memcpy (src + 32) (dst + 32) (len - 32) (mstore m dst (mload m src)) := by
  rw [memcpy, if_pos h]

theorem memcpy_last (hpos : 0 < len) (hlt : len < 32) : memcpy src dst len m =
    mstore m dst (merge (lastMask len) (mload m dst) (mload m src)) := by
  rw [memcpy, if_neg (by omega), if_pos hpos]
  rfl

theorem memcpy_zero : memcpy src dst 0 m = m := by
  rw [memcpy, if_neg (by omega), if_neg (by omega)]

theorem memcpy_last_apply (hpos : 0 < len) (hlt : len < 32) (hk : k < 32) :
    memcpy src dst len m (dst + k) = m (dst + k) &&& byteAt (lastMask len) k |||
      m (src + k) &&& ~~~byteAt (lastMask len) k := by
  rw [memcpy_last hpos hlt, mstore_of_mem (Nat.le_add_right _ _) (by omega),
    Nat.add_sub_cancel_left, byteAt_merge, byteAt_mload hk, byteAt_mload hk]

theorem memcpy_outside (h : a < dst ∨ dst + len + excess len ≤ a) :
    memcpy src dst len m a = m a := by
  induction len using Nat.strong_induction_on generalizing src dst m with
  | h len ih =>
    rw [excess] at h
    by_cases hlong : 31 < len
    · rw [memcpy_word hlong, ih (len - 32) (by omega) (by rw [excess]; omega),
        mstore_of_notMem (by omega)]
    · by_cases hpos : 0 < len
      · rw [memcpy_last hpos (by omega), mstore_of_notMem (by omega)]
      · obtain rfl : len = 0 := by omega
        rw [memcpy_zero]

/-- The source, with the word behind it, does not meet the range copied to. -/
def Apart (src dst len : ℕ) : Prop := src + len + 32 ≤ dst ∨ dst + len ≤ src

theorem Apart.rest (h : Apart src dst len) (hlong : 31 < len) :
    Apart (src + 32) (dst + 32) (len - 32) := by
  unfold Apart at h ⊢
  omega

theorem Apart.notMem (h : Apart src dst len) (hlong : 31 < len) (hfirst : 32 ≤ k)
    (hk : k < len + 32) : src + k < dst ∨ dst + 32 ≤ src + k := by
  unfold Apart at h
  omega

theorem memcpy_inside (h : Apart src dst len) (hk : k < len) :
    memcpy src dst len m (dst + k) = m (src + k) := by
  induction len using Nat.strong_induction_on generalizing src dst k m with
  | h len ih =>
    by_cases hlong : 31 < len
    · rw [memcpy_word hlong]
      by_cases hfirst : k < 32
      · rw [memcpy_outside (by omega), mstore_mload_of_mem hfirst]
      · have hrest : Apart (src + 32) (dst + 32) (len - 32) := h.rest hlong
        have heq : memcpy (src + 32) (dst + 32) (len - 32) (mstore m dst (mload m src))
            (dst + 32 + (k - 32)) = mstore m dst (mload m src) (src + 32 + (k - 32)) :=
          ih _ (by omega) hrest (by omega)
        rw [Nat.add_assoc dst, Nat.add_assoc src, Nat.add_sub_of_le (by omega)] at heq
        rw [heq, mstore_of_notMem (h.notMem hlong (by omega) (by omega))]
    · rw [memcpy_last_apply (by omega) (by omega) (by omega),
        byteAt_lastMask (by omega) (by omega) hk, merge_byte_zero]

theorem excess_sub (hlong : 31 < len) : excess (len - 32) = excess len := by
  rw [excess, excess, ← Nat.mod_eq_sub_mod (by omega)]

theorem keptBits_sub (hlong : 31 < len) : keptBits (len - 32) k = keptBits len k := by
  rw [keptBits, keptBits, ← Nat.mod_eq_sub_mod (by omega)]

/-- Behind the range the last word takes the bits outside the mask from behind the source. -/
theorem memcpy_excess (h : Apart src dst len) (hk : k < excess len) :
    memcpy src dst len m (dst + len + k) = m (dst + len + k) &&& keptBits len k |||
      m (src + len + k) &&& ~~~keptBits len k := by
  induction len using Nat.strong_induction_on generalizing src dst m with
  | h len ih =>
    by_cases hlong : 31 < len
    · have heq : memcpy (src + 32) (dst + 32) (len - 32) (mstore m dst (mload m src))
          (dst + 32 + (len - 32) + k) = _ :=
        ih _ (by omega) (h.rest hlong) (by rwa [excess_sub hlong])
      have hlt : k < 32 := by
        rw [excess] at hk
        omega
      have hsrc := h.notMem hlong (k := len + k) (by omega) (by omega)
      rw [Nat.add_assoc dst, Nat.add_assoc src, Nat.add_sub_of_le (by omega), keptBits_sub hlong,
        mstore_of_notMem (by omega), mstore_of_notMem (by omega)] at heq
      rw [memcpy_word hlong, heq]
    · have hlen : len % 32 = len := Nat.mod_eq_of_lt (by omega)
      rw [excess, hlen] at hk
      have hpos : 0 < len := by omega
      rw [keptBits, hlen, ← lastMask_eq hpos (by omega), Nat.add_assoc, Nat.add_assoc]
      exact memcpy_last_apply hpos (by omega) (by omega)

/-- Where a copy is exact: a multiple of 32 bytes, or bytes behind the source and behind the
range that agree in the bits that are not kept. -/
def Exact (m : Memory) (src dst len : ℕ) : Prop :=
  len % 32 = 0 ∨ ∀ k < 32 - len % 32,
    m (src + len + k) &&& ~~~keptBits len k = m (dst + len + k) &&& ~~~keptBits len k

theorem memcpy_unchanged_iff (h : Apart src dst len) :
    (∀ a, a < dst ∨ dst + len ≤ a → memcpy src dst len m a = m a) ↔ Exact m src dst len := by
  constructor
  · intro hsame
    by_cases hzero : len % 32 = 0
    · exact .inl hzero
    · refine .inr fun k hk ↦ ?_
      have heq := hsame (dst + len + k) (by omega)
      rw [memcpy_excess h (by rw [excess]; omega)] at heq
      exact merge_byte_eq_iff.mp heq
  · intro hexact a ha
    by_cases hin : dst + len ≤ a ∧ a < dst + len + excess len
    · obtain ⟨k, rfl⟩ := Nat.exists_eq_add_of_le hin.1
      have hk : k < excess len := by omega
      rw [memcpy_excess h hk, merge_byte_eq_iff]
      rw [excess] at hk
      rcases hexact with hzero | hagree
      · omega
      · exact hagree k (by omega)
    · exact memcpy_outside (by omega)

/-- Two byte arrays with their length words do not overlap. -/
def ArraysApart (m : Memory) (src dst : ℕ) : Prop :=
  src + 32 + arrayLength m src ≤ dst ∨ dst + 32 + arrayLength m dst ≤ src

variable {dstStart : ℕ}

theorem ArraysApart.range (h : ArraysApart m src dst)
    (hbounds : dstStart + arrayLength m src ≤ arrayLength m dst) :
    Apart (src + 32) (dst + 32 + dstStart) (arrayLength m src) := by
  unfold ArraysApart at h
  unfold Apart
  omega

theorem copyBytes_eq (hbounds : dstStart + arrayLength m src ≤ arrayLength m dst) :
    copyBytes src dst dstStart m =
      .ok (memcpy (src + 32) (dst + 32 + dstStart) (arrayLength m src) m) := by
  rw [copyBytes, require_of ((Nat.mod_le _ _).trans hbounds)]
  rfl

/-- The range copied to always equals the source; the rest of memory stays as it was if and only
if the bits that the last word writes behind the range were there already. -/
theorem copyBytes_is_exact_iff (hapart : ArraysApart m src dst)
    (hbounds : dstStart + arrayLength m src ≤ arrayLength m dst) :
    (∃ m', copyBytes src dst dstStart m = .ok m' ∧
      ∀ k < arrayLength m src, m' (dst + 32 + dstStart + k) = m (src + 32 + k)) ∧
    ((∃ m', copyBytes src dst dstStart m = .ok m' ∧
      (∀ k < arrayLength m src, m' (dst + 32 + dstStart + k) = m (src + 32 + k)) ∧
      ∀ a, a < dst + 32 + dstStart ∨ dst + 32 + dstStart + arrayLength m src ≤ a → m' a = m a) ↔
      Exact m (src + 32) (dst + 32 + dstStart) (arrayLength m src)) := by
  have hrange := hapart.range hbounds
  have hinside (k : ℕ) (hk : k < arrayLength m src) :=
    memcpy_inside (m := m) hrange hk
  rw [copyBytes_eq hbounds]
  refine ⟨⟨_, rfl, hinside⟩, ?_, ?_⟩
  · intro h
    obtain ⟨m', hm', _, hsame⟩ := h
    cases hm'
    exact (memcpy_unchanged_iff hrange).mp hsame
  · intro hexact
    exact ⟨_, rfl, hinside, (memcpy_unchanged_iff hrange).mpr hexact⟩

section Arrays

/-- The memory holds a byte array, its length word included. -/
def HoldsArray (m : Memory) (p : ℕ) (bs : Bytes) : Prop :=
  arrayLength m p = bs.length ∧ Holds m (p + 32) bs

variable {bs old new : Bytes}

theorem memcpy_splice {k : ℕ} {b : UInt8} (hapart : Apart src (dst + dstStart) bs.length)
    (hsrc : Holds m src bs) (hdst : Holds m dst old) (hfits : dstStart + bs.length ≤ old.length)
    (hb : (splice old dstStart bs)[k]? = some b)
    (hk : k < dstStart + bs.length ∨
      memcpy src (dst + dstStart) bs.length m (dst + k) = m (dst + k)) :
    memcpy src (dst + dstStart) bs.length m (dst + k) = b := by
  rw [getElem?_splice hfits] at hb
  by_cases hin : dstStart ≤ k ∧ k < dstStart + bs.length
  · rw [if_pos hin] at hb
    obtain ⟨j, rfl⟩ := Nat.exists_eq_add_of_le hin.1
    rw [Nat.add_sub_cancel_left] at hb
    rw [← Nat.add_assoc, memcpy_inside hapart (by omega)]
    exact hsrc j b hb
  · rw [if_neg hin] at hb
    rcases hk with hlt | hsame
    · rw [memcpy_outside (by omega)]
      exact hdst k b hb
    · rw [hsame]
      exact hdst k b hb

/-- What the registry's copy of arrays gives is in memory up to the end of the range, and to the
end of the array where the copy is exact. -/
theorem copyBytes_refines (hnew : NodeOperatorsRegistry.copyBytes bs old dstStart = .ok new)
    (hsrc : HoldsArray m src bs) (hdst : HoldsArray m dst old) (hapart : ArraysApart m src dst) :
    ∃ m', copyBytes src dst dstStart m = .ok m' ∧ arrayLength m' dst = new.length ∧
      Holds m' (dst + 32) (new.take (dstStart + bs.length)) ∧
      (Exact m (src + 32) (dst + 32 + dstStart) bs.length → HoldsArray m' dst new) := by
  obtain ⟨hsrclen, hsrc⟩ := hsrc
  obtain ⟨hdstlen, hdst⟩ := hdst
  simp only [NodeOperatorsRegistry.copyBytes, bind_eq_ok, require_eq_ok, exists_const, pure_eq,
    Except.ok.injEq] at hnew
  obtain ⟨hfits, rfl⟩ := hnew
  have hbounds : dstStart + arrayLength m src ≤ arrayLength m dst := by omega
  have hrange := hapart.range hbounds
  rw [copyBytes_eq hbounds, hsrclen]
  rw [hsrclen] at hrange
  have hlength : arrayLength (memcpy (src + 32) (dst + 32 + dstStart) bs.length m) dst =
      old.length := by
    rw [← hdstlen, arrayLength, arrayLength]
    exact congrArg _ (mload_congr fun k hk ↦ memcpy_outside (by omega))
  have hsplice : (splice old dstStart bs).length = old.length := by
    simp only [splice, List.length_append, List.length_take, List.length_drop]
    omega
  have hbyte (k : ℕ) (b : UInt8) (hb : (splice old dstStart bs)[k]? = some b) :=
    memcpy_splice hrange hsrc hdst hfits hb
  refine ⟨_, rfl, hlength.trans hsplice.symm, fun k b hb ↦ ?_,
    fun hexact ↦ ⟨hlength.trans hsplice.symm, fun k b hb ↦ ?_⟩⟩
  · have hk : k < dstStart + bs.length := by
      obtain ⟨hk, _⟩ := List.getElem?_eq_some_iff.mp hb
      rw [List.length_take] at hk
      omega
    rw [List.getElem?_take_of_lt hk] at hb
    exact hbyte k b hb (.inl hk)
  · by_cases hk : k < dstStart + bs.length
    · exact hbyte k b hb (.inl hk)
    · refine hbyte k b hb (.inr ((memcpy_unchanged_iff hrange).mpr hexact _ (.inr (by omega))))

end Arrays

section Sample

def twoKeys : Memory := fun a ↦
  if a = 31 then 48 else if 32 ≤ a ∧ a < 80 then 1 else if a = 159 then 96 else 0

theorem second_key_is_copied : ∃ m', copyBytes 0 128 48 twoKeys = .ok m' ∧
    (∀ k < 48, m' (208 + k) = twoKeys (32 + k)) ∧
    ∀ a, a < 208 ∨ 256 ≤ a → m' a = twoKeys a := by
  have hsrc : arrayLength twoKeys 0 = 48 := by decide +kernel
  have hdst : arrayLength twoKeys 128 = 96 := by decide +kernel
  have hapart : ArraysApart twoKeys 0 128 := .inl (by omega)
  have hbounds : 48 + arrayLength twoKeys 0 ≤ arrayLength twoKeys 128 := by omega
  have hexact : Exact twoKeys 32 208 (arrayLength twoKeys 0) := by
    rw [hsrc]
    exact .inr (by decide +kernel)
  have hcopy := (copyBytes_is_exact_iff hapart hbounds).2.mpr hexact
  rw [hsrc] at hcopy
  exact hcopy

def threeBytes : Memory := fun a ↦
  if a = 159 then 1 else if a = 160 then 7
  else if a = 223 then 2 else if a = 224 then 1 else if a = 225 then 2 else 0

theorem next_byte_is_lost : ArraysApart threeBytes 128 192 ∧
    0 + arrayLength threeBytes 128 ≤ arrayLength threeBytes 192 ∧ threeBytes 225 = 2 ∧
    ∃ m', copyBytes 128 192 0 threeBytes = .ok m' ∧ m' 224 = 7 ∧ m' 225 = 0 := by
  have hsrc : arrayLength threeBytes 128 = 1 := by decide +kernel
  have hdst : arrayLength threeBytes 192 = 2 := by decide +kernel
  refine ⟨.inl (by omega), by omega, rfl, _, copyBytes_eq (by omega), ?_, ?_⟩
  · rw [hsrc]
    exact (memcpy_last_apply (k := 0) (by decide) (by decide) (by decide)).trans
      (by decide +kernel)
  · rw [hsrc]
    exact (memcpy_last_apply (k := 1) (by decide) (by decide) (by decide)).trans
      (by decide +kernel)

end Sample

end LidoDao.MemUtils
