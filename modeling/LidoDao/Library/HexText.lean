import LidoDao.Library.ByteWords
import Mathlib.Data.List.Nodup

/-!
# Bytes spelled in hexadecimal digits
-/

namespace LidoDao.Library.HexText

open ByteWords

variable {c d : Char} {n : ℕ} {text text' : List Char} {bs bs' : Bytes}

def hexDigit (c : Char) : Option ℕ :=
  if 48 ≤ c.toNat ∧ c.toNat ≤ 57 then some (c.toNat - 48)
  else if 65 ≤ c.toNat ∧ c.toNat ≤ 70 then some (c.toNat - 55)
  else if 97 ≤ c.toNat ∧ c.toNat ≤ 102 then some (c.toNat - 87)
  else none

/-- Two digits are a byte, the high half first. -/
def fromHex : List Char → Option Bytes
  | [] => some []
  | [_] => none
  | c :: d :: text => do
    let high ← hexDigit c
    let low ← hexDigit d
    let rest ← fromHex text
    some (UInt8.ofNat (16 * high + low) :: rest)

def digitChar (n : ℕ) : Char := if n < 10 then Char.ofNat (48 + n) else Char.ofNat (87 + n)

theorem hexDigit_spec (h : hexDigit c = some n) :
    n < 10 ∧ c = Char.ofNat (48 + n) ∨
      ∃ k < 6, n = 10 + k ∧ (c = Char.ofNat (65 + k) ∨ c = Char.ofNat (97 + k)) := by
  have hc : Char.ofNat c.toNat = c := Char.ofNat_toNat c
  unfold hexDigit at h
  split at h
  · cases h
    refine .inl ⟨by omega, ?_⟩
    rw [Nat.add_sub_cancel' (by omega), hc]
  · split at h
    · cases h
      refine .inr ⟨c.toNat - 65, by omega, by omega, .inl ?_⟩
      rw [Nat.add_sub_cancel' (by omega), hc]
    · split at h
      · cases h
        refine .inr ⟨c.toNat - 97, by omega, by omega, .inr ?_⟩
        rw [Nat.add_sub_cancel' (by omega), hc]
      · cases h

theorem hexDigit_lt (h : hexDigit c = some n) : n < 16 := by
  rcases hexDigit_spec h with ⟨hn, _⟩ | ⟨k, hk, rfl, _⟩
  · omega
  · omega

theorem toLower_of_hexDigit (h : hexDigit c = some n) : c.toLower = digitChar n := by
  have hnumber : ∀ n < 10, (Char.ofNat (48 + n)).toLower = digitChar n := by decide
  have hletter : ∀ k < 6, (Char.ofNat (65 + k)).toLower = digitChar (10 + k) ∧
      (Char.ofNat (97 + k)).toLower = digitChar (10 + k) := by decide
  rcases hexDigit_spec h with ⟨hn, rfl⟩ | ⟨k, hk, rfl, rfl | rfl⟩
  · exact hnumber n hn
  · exact (hletter k hk).1
  · exact (hletter k hk).2

theorem hexDigit_digitChar (h : n < 16) : hexDigit (digitChar n) = some n := by
  have hdigit : ∀ n < 16, hexDigit (digitChar n) = some n := by decide
  exact hdigit n h

theorem fromHex_cons_cons : fromHex (c :: d :: text) = some bs ↔
    ∃ high low rest, hexDigit c = some high ∧ hexDigit d = some low ∧
      fromHex text = some rest ∧ bs = UInt8.ofNat (16 * high + low) :: rest := by
  simp only [fromHex, Option.bind_eq_bind, Option.bind_eq_some_iff, Option.some.injEq]
  constructor
  · intro h
    obtain ⟨high, hhigh, low, hlow, rest, hrest, rfl⟩ := h
    exact ⟨high, low, rest, hhigh, hlow, hrest, rfl⟩
  · intro h
    obtain ⟨high, low, rest, hhigh, hlow, hrest, rfl⟩ := h
    exact ⟨high, hhigh, low, hlow, rest, hrest, rfl⟩

theorem exists_fromHex_iff : (∃ bs, fromHex text = some bs ∧ bs.length = n) ↔
    text.length = 2 * n ∧ ∀ c ∈ text, (hexDigit c).isSome = true := by
  induction text using fromHex.induct generalizing n with
  | case1 =>
    constructor
    · intro h
      obtain ⟨bs, hbs, rfl⟩ := h
      cases hbs
      exact ⟨rfl, List.forall_mem_nil _⟩
    · intro h
      have hn := h.1
      rw [List.length_nil] at hn
      exact ⟨[], rfl, by rw [List.length_nil]; omega⟩
  | case2 c =>
    constructor
    · intro h
      obtain ⟨_, hbs, _⟩ := h
      cases hbs
    · intro h
      have hlength := h.1
      rw [List.length_singleton] at hlength
      omega
  | case3 c d text ih =>
    rw [List.forall_mem_cons, List.forall_mem_cons, List.length_cons, List.length_cons]
    constructor
    · intro h
      obtain ⟨bs, hbs, hlength⟩ := h
      obtain ⟨high, low, rest, hhigh, hlow, hrest, rfl⟩ := fromHex_cons_cons.mp hbs
      obtain ⟨htext, hdigits⟩ := ih.mp ⟨rest, hrest, rfl⟩
      rw [List.length_cons] at hlength
      exact ⟨by omega, by rw [hhigh, Option.isSome_some], by rw [hlow, Option.isSome_some],
        hdigits⟩
    · intro h
      obtain ⟨hlength, hc, hd, hdigits⟩ := h
      obtain ⟨high, hhigh⟩ := Option.isSome_iff_exists.mp hc
      obtain ⟨low, hlow⟩ := Option.isSome_iff_exists.mp hd
      obtain ⟨m, rfl⟩ : ∃ m, n = m + 1 := ⟨n - 1, by omega⟩
      obtain ⟨rest, hrest, hrestlength⟩ := ih.mpr ⟨show text.length = 2 * m by omega, hdigits⟩
      exact ⟨_, fromHex_cons_cons.mpr ⟨high, low, rest, hhigh, hlow, hrest, rfl⟩,
        congrArg (· + 1) hrestlength⟩

theorem fromHex_append (h : fromHex text = some bs) (h' : fromHex text' = some bs') :
    fromHex (text ++ text') = some (bs ++ bs') := by
  induction text using fromHex.induct generalizing bs with
  | case1 =>
    cases h
    exact h'
  | case2 c => cases h
  | case3 c d text ih =>
    obtain ⟨high, low, rest, hhigh, hlow, hrest, rfl⟩ := fromHex_cons_cons.mp h
    exact fromHex_cons_cons.mpr ⟨high, low, rest ++ bs', hhigh, hlow, ih hrest, rfl⟩

theorem fromHex_flatten {texts : List (List Char)} {chunks : List Bytes}
    (h : List.Forall₂ (fun text bs ↦ fromHex text = some bs) texts chunks) :
    fromHex texts.flatten = some chunks.flatten := by
  induction h with
  | nil => rfl
  | cons hhead _ ih => exact fromHex_append hhead ih

def toHex (bs : Bytes) : List Char :=
  bs.flatMap fun b ↦ [digitChar (b.toNat / 16), digitChar (b.toNat % 16)]

theorem toHex_cons (b : UInt8) (bs : Bytes) :
    toHex (b :: bs) = digitChar (b.toNat / 16) :: digitChar (b.toNat % 16) :: toHex bs := rfl

theorem fromHex_toHex (bs : Bytes) : fromHex (toHex bs) = some bs := by
  induction bs with
  | nil => rfl
  | cons b bs ih =>
    have hb := b.toNat_lt
    have heq : b = UInt8.ofNat (16 * (b.toNat / 16) + b.toNat % 16) := by
      rw [Nat.div_add_mod, UInt8.ofNat_toNat]
    rw [toHex_cons]
    exact fromHex_cons_cons.mpr ⟨_, _, bs, hexDigit_digitChar (by omega),
      hexDigit_digitChar (by omega), ih, congrArg (· :: bs) heq⟩

theorem toHex_injective : Function.Injective toHex := by
  intro bs bs' h
  have hread := congrArg fromHex h
  rwa [fromHex_toHex, fromHex_toHex, Option.some.injEq] at hread

theorem map_toLower_of_fromHex (h : fromHex text = some bs) :
    text.map Char.toLower = toHex bs := by
  induction text using fromHex.induct generalizing bs with
  | case1 =>
    cases h
    rfl
  | case2 c => cases h
  | case3 c d text ih =>
    obtain ⟨high, low, rest, hhigh, hlow, hrest, rfl⟩ := fromHex_cons_cons.mp h
    have hhigh_lt := hexDigit_lt hhigh
    have hlow_lt := hexDigit_lt hlow
    have hsmall : 16 * high + low < UInt8.size := by
      rw [UInt8.size]
      omega
    have hbyte : (UInt8.ofNat (16 * high + low)).toNat = 16 * high + low :=
      UInt8.toNat_ofNat_of_lt' hsmall
    have hdiv : (16 * high + low) / 16 = high := by omega
    have hmod : (16 * high + low) % 16 = low := by omega
    rw [List.map_cons, List.map_cons, ih hrest, toHex_cons, hbyte, hdiv, hmod,
      toLower_of_hexDigit hhigh, toLower_of_hexDigit hlow]

theorem nodup_fromHex {texts : List (List Char)} {chunks : List Bytes}
    (h : List.Forall₂ (fun text bs ↦ fromHex text = some bs) texts chunks) :
    chunks.Nodup ↔ (texts.map (List.map Char.toLower)).Nodup := by
  have hlower : texts.map (List.map Char.toLower) = chunks.map toHex := by
    induction h with
    | nil => rfl
    | cons hhead _ ih => rw [List.map_cons, List.map_cons, ih, map_toLower_of_fromHex hhead]
  rw [hlower, List.nodup_map_iff toHex_injective]

end LidoDao.Library.HexText
