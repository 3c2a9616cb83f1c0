import Mathlib.Data.Nat.Notation
import Mathlib.Algebra.Order.Ring.Nat
import Mathlib.Tactic.Ring
import Mathlib.Tactic.Linarith

namespace LidoDao.Library.ByteWords

abbrev Bytes := List UInt8

/-- The last `n` big-endian bytes of a number. -/
def toBytes : ℕ → ℕ → Bytes
  | 0, _ => []
  | n + 1, w => UInt8.ofNat (w / 256 ^ n % 256) :: toBytes n w

def fromBytes : Bytes → ℕ
  | [] => 0
  | b :: bs => b.toNat * 256 ^ bs.length + fromBytes bs

@[simp] theorem length_toBytes (n w : ℕ) : (toBytes n w).length = n := by
  induction n with
  | zero => rfl
  | succ n ih => simp [toBytes, ih]

theorem fromBytes_lt (bs : Bytes) : fromBytes bs < 256 ^ bs.length := by
  induction bs with
  | nil => simp [fromBytes]
  | cons b bs ih =>
    have hb : b.toNat + 1 ≤ 256 := b.toNat_lt
    have h := Nat.mul_le_mul_right (256 ^ bs.length) hb
    simp only [fromBytes, List.length_cons, pow_succ]
    linarith

theorem fromBytes_append (a b : Bytes) :
    fromBytes (a ++ b) = fromBytes a * 256 ^ b.length + fromBytes b := by
  induction a with
  | nil => simp [fromBytes]
  | cons x a ih =>
    simp only [List.cons_append, fromBytes, ih, List.length_append, pow_add]
    ring

theorem toBytes_mod (n w k : ℕ) : toBytes n (k * 256 ^ n + w) = toBytes n w := by
  induction n generalizing k with
  | zero => rfl
  | succ n ih =>
    have hpow : k * 256 ^ (n + 1) + w = (k * 256) * 256 ^ n + w := by ring
    have hpos : 0 < 256 ^ n := by positivity
    have hdiv : ((k * 256) * 256 ^ n + w) / 256 ^ n % 256 = w / 256 ^ n % 256 := by
      rw [Nat.add_comm, Nat.add_mul_div_right _ _ hpos, Nat.add_mul_mod_self_right]
    simp only [toBytes, hpow, hdiv, ih]

theorem toBytes_fromBytes (bs : Bytes) : toBytes bs.length (fromBytes bs) = bs := by
  induction bs with
  | nil => rfl
  | cons b bs ih =>
    have hpos : 0 < 256 ^ bs.length := by positivity
    have hb : (b.toNat * 256 ^ bs.length + fromBytes bs) / 256 ^ bs.length = b.toNat := by
      rw [Nat.add_comm, Nat.add_mul_div_right _ _ hpos, Nat.div_eq_of_lt (fromBytes_lt bs),
        Nat.zero_add]
    simp only [List.length_cons, fromBytes, toBytes, hb, toBytes_mod, ih,
      Nat.mod_eq_of_lt b.toNat_lt, UInt8.ofNat_toNat]

theorem fromBytes_toBytes (n w : ℕ) : fromBytes (toBytes n w) = w % 256 ^ n := by
  induction n with
  | zero => rw [toBytes, fromBytes, pow_zero, Nat.mod_one]
  | succ n ih =>
    have hbyte : (UInt8.ofNat (w / 256 ^ n % 256)).toNat = w / 256 ^ n % 256 := by simp
    rw [toBytes, fromBytes, length_toBytes, ih, hbyte, Nat.mod_pow_succ, Nat.add_comm,
      Nat.mul_comm (256 ^ n)]

theorem toBytes_inj {n v w : ℕ} (hv : v < 256 ^ n) (hw : w < 256 ^ n)
    (h : toBytes n v = toBytes n w) : v = w := by
  rw [← Nat.mod_eq_of_lt hv, ← Nat.mod_eq_of_lt hw, ← fromBytes_toBytes, h, fromBytes_toBytes]

theorem toBytes_append {m y : ℕ} (n x : ℕ) (hy : y < 256 ^ m) :
    toBytes (n + m) (x * 256 ^ m + y) = toBytes n x ++ toBytes m y := by
  induction n with
  | zero => rw [Nat.zero_add, toBytes_mod, toBytes, List.nil_append]
  | succ n ih =>
    have hpos : 0 < 256 ^ m := by positivity
    have hdiv : (x * 256 ^ m + y) / 256 ^ (n + m) = x / 256 ^ n := by
      rw [Nat.add_comm n m, pow_add, ← Nat.div_div_eq_div_mul, Nat.add_comm (x * 256 ^ m),
        Nat.add_mul_div_right _ _ hpos, Nat.div_eq_of_lt hy, Nat.zero_add]
    rw [show n + 1 + m = (n + m) + 1 by omega]
    simp only [toBytes, hdiv, ih, List.cons_append]

theorem toBytes_fromBytes_of_length {bs : Bytes} {n : ℕ} (h : bs.length = n) :
    toBytes n (fromBytes bs) = bs := by
  rw [← h]
  exact toBytes_fromBytes bs

theorem toBytes_fromBytes_mul {bs : Bytes} {n : ℕ} (m : ℕ) (h : bs.length = n) :
    toBytes (n + m) (fromBytes bs * 256 ^ m) = bs ++ toBytes m 0 := by
  have happend := toBytes_append n (fromBytes bs) (show 0 < 256 ^ m by positivity)
  rw [Nat.add_zero] at happend
  rw [happend, toBytes_fromBytes_of_length h]

def slice (bs : Bytes) (start len : ℕ) : Bytes := (bs.drop start).take len

theorem length_slice {bs : Bytes} {start len : ℕ} (h : start + len ≤ bs.length) :
    (slice bs start len).length = len := by
  simp only [slice, List.length_take, List.length_drop]
  omega

theorem slice_of_length {bs : Bytes} {n : ℕ} (h : bs.length = n) : slice bs 0 n = bs := by
  simp [slice, ← h]

theorem slice_append_slice (bs : Bytes) (start a b : ℕ) :
    slice bs start a ++ slice bs (start + a) b = slice bs start (a + b) := by
  simp only [slice, List.take_add, List.drop_drop]

def splice (dst : Bytes) (start : ℕ) (src : Bytes) : Bytes :=
  dst.take start ++ src ++ dst.drop (start + src.length)

theorem splice_append (pre src rest : Bytes) :
    splice (pre ++ rest) pre.length src = (pre ++ src) ++ rest.drop src.length := by
  simp [splice, List.drop_append]

theorem slice_flatten {cs : List Bytes} {n : ℕ} (hn : ∀ c ∈ cs, c.length = n) {i : ℕ}
    (hi : i < cs.length) : slice cs.flatten (i * n) n = cs[i] := by
  induction cs generalizing i with
  | nil => simp at hi
  | cons c cs ih =>
    have hc : c.length = n := hn c (by simp)
    cases i with
    | zero => simp [slice, ← hc]
    | succ i =>
      have h := ih (fun d hd ↦ hn d (by simp [hd])) (i := i) (by simpa using hi)
      have he : (i + 1) * n = c.length + i * n := by rw [hc]; ring
      simp only [slice, List.flatten_cons, he, List.drop_length_add_append,
        List.getElem_cons_succ] at h ⊢
      exact h

theorem length_flatten {cs : List Bytes} {n : ℕ} (hn : ∀ c ∈ cs, c.length = n) :
    cs.flatten.length = cs.length * n := by
  induction cs with
  | nil => simp
  | cons c cs ih =>
    simp only [List.flatten_cons, List.length_append, hn c (by simp),
      ih (fun d hd ↦ hn d (by simp [hd])), List.length_cons]
    ring

theorem toBytes_zero (n : ℕ) : toBytes n 0 = List.replicate n 0 := by
  induction n with
  | zero => rfl
  | succ n ih =>
    rw [toBytes, ih, Nat.zero_div, Nat.zero_mod, List.replicate_succ]
    rfl

section LittleEndian

/-- Move the last byte of the second number to the end of the first. -/
def moveByte (p : ℕ × ℕ) : ℕ × ℕ := ((p.1 <<< 8) ||| (p.2 &&& 0xFF), p.2 >>> 8)

theorem moveByte_eq (p : ℕ × ℕ) : moveByte p = (p.1 * 256 + p.2 % 256, p.2 / 256) := by
  have hlow : p.2 &&& 0xFF = p.2 % 256 := Nat.and_two_pow_sub_one_eq_mod p.2 8
  have hlt : p.2 % 256 < 2 ^ 8 := Nat.mod_lt _ (by decide)
  rw [moveByte, hlow, ← Nat.shiftLeft_add_eq_or_of_lt hlt, Nat.shiftLeft_eq,
    Nat.shiftRight_eq_div_pow]

theorem moveByte_iterate (k v : ℕ) :
    moveByte^[k] (0, v) = (fromBytes (toBytes k v).reverse, v / 256 ^ k) := by
  induction k with
  | zero => simp [toBytes, fromBytes]
  | succ k ih =>
    have hbyte : (UInt8.ofNat (v / 256 ^ k % 256)).toNat = v / 256 ^ k % 256 := by
      simp
    rw [Function.iterate_succ_apply', ih, moveByte_eq, toBytes, List.reverse_cons,
      fromBytes_append, Nat.div_div_eq_div_mul, ← pow_succ]
    simp only [fromBytes, List.length_singleton, List.length_nil, pow_one, pow_zero, Nat.mul_one,
      Nat.add_zero, hbyte]

end LittleEndian

/-- A buffer that begins with chunks of `n` bytes. -/
structure Filled (n : ℕ) (cs : List Bytes) (buf : Bytes) : Prop where
  length : ∀ c ∈ cs, c.length = n
  flatten : cs.flatten <+: buf

section Filled

variable {n : ℕ} {cs : List Bytes} {buf : Bytes}

theorem Filled.nil : Filled n [] buf := ⟨by simp, List.nil_prefix⟩

theorem length_splice {src : Bytes} {start : ℕ} (h : start + src.length ≤ buf.length) :
    (splice buf start src).length = buf.length := by
  simp only [splice, List.length_append, List.length_take, List.length_drop]
  omega

theorem Filled.splice (h : Filled n cs buf) {c : Bytes} (hc : c.length = n) :
    Filled n (cs ++ [c]) (splice buf (cs.length * n) c) := by
  obtain ⟨hcs, rest, rfl⟩ := h
  refine ⟨?_, rest.drop c.length, ?_⟩
  · intro d hd
    rcases List.mem_append.mp hd with hd | hd
    · exact hcs d hd
    · rw [List.mem_singleton.mp hd, hc]
  · rw [← length_flatten hcs, splice_append, List.flatten_append, List.flatten_singleton]

theorem Filled.eq_flatten (h : Filled n cs buf) (hbuf : buf.length = cs.length * n) :
    buf = cs.flatten := by
  obtain ⟨hcs, hstart⟩ := h
  exact (hstart.eq_of_length (by rw [hbuf, length_flatten hcs])).symm

end Filled

end LidoDao.Library.ByteWords
