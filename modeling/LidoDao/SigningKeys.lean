import LidoDao.NodeOperatorsRegistry
import Mathlib.Data.Nat.Pairing

namespace LidoDao

/-- Slots spaced by a pairing of the operator and the position. -/
def Sample.layout : SigningKeyLayout where
  signingKeyOffset operatorId keyIndex := 5 * Nat.pair operatorId keyIndex
  disjoint := by
    intro o i k o' i' k' _ _ hk hk' h
    have hpair : Nat.pair o i = Nat.pair o' i' := by omega
    exact Nat.pair_eq_pair.mp hpair
  memory _ := 0

namespace NodeOperatorsRegistry

open Evm Library.Outcome Library.ByteWords

variable {L : SigningKeyLayout} {r r' : NodeOperatorsRegistry}

section Memory

theorem readBytes_eq_slice {bs : Bytes} {offset n : ℕ} (h : offset + n ≤ bs.length) :
    ((List.range n).map fun k ↦ (bs[offset + k]?).getD (L.memory (offset + k))) =
      slice bs offset n := by
  refine List.ext_getElem ?_ ?_
  · rw [length_slice h, List.length_map, List.length_range]
  · intro k hk _
    have hk' : k < n := by simpa using hk
    have hin : offset + k < bs.length := by omega
    simp [slice, List.getElem?_eq_getElem hin]

theorem mload_of_le {bs : Bytes} {offset : ℕ} (h : offset + 32 ≤ bs.length) :
    mload L bs offset = fromBytes (slice bs offset 32) := by
  rw [mload, readBytes_eq_slice h]

theorem mload_cleared {key : Bytes} (h : key.length = pubkeyLength) :
    (mload L key 32 >>> keyExcessBits) <<< keyExcessBits =
      fromBytes (slice key 32 16) * 256 ^ 16 := by
  have hread : 32 + 16 ≤ key.length := by
    rw [h]
    decide
  let excess := (List.range 16).map fun k ↦
    (key[32 + (16 + k)]?).getD (L.memory (32 + (16 + k)))
  have hexcess : excess.length = 16 := by simp [excess]
  have hsplit : mload L key 32 = fromBytes (slice key 32 16 ++ excess) := by
    rw [mload, show 32 = 16 + 16 by rfl, List.range_add, List.map_append,
      show (16 + 16 : ℕ) = 32 by rfl, readBytes_eq_slice hread, List.map_map]
    rfl
  have hpow : 2 ^ keyExcessBits = 256 ^ 16 := by decide
  have hlt : fromBytes excess < 256 ^ 16 := by
    have h := fromBytes_lt excess
    rwa [hexcess] at h
  rw [hsplit, fromBytes_append, hexcess, Nat.shiftRight_eq_div_pow, Nat.shiftLeft_eq, hpow,
    Nat.add_comm, Nat.add_mul_div_right _ _ (by positivity), Nat.div_eq_of_lt hlt, Nat.zero_add]

end Memory

section Storage

variable {o i o' i' : ℕ} {key signature : Bytes}

/-- The five slots of a stored key and signature. -/
def storedSlots (L : SigningKeyLayout) (slots : ℕ → ℕ) (offset : ℕ) (key signature : Bytes) :
    ℕ → ℕ :=
  let slots := sstore slots offset (mload L key 0)
  let slots := sstore slots (offset + 1) ((mload L key 32 >>> keyExcessBits) <<< keyExcessBits)
  (List.range (signatureLength / 32)).foldl
    (fun slots k ↦ sstore slots (offset + 2 + k) (mload L signature (32 * k))) slots

theorem _storeSigningKey_eq_ok :
    _storeSigningKey L r o i key signature = .ok r' ↔
      key.length = pubkeyLength ∧ signature.length = signatureLength ∧
      r' = { r with slots := storedSlots L r.slots (L.signingKeyOffset o i) key signature } := by
  simp only [_storeSigningKey, bind_eq_ok, require_eq_ok, exists_const, pure_eq,
    Except.ok.injEq]
  exact and_congr_right fun _ ↦ and_congr_right fun _ ↦ eq_comm

theorem storedSlots_eq (slots : ℕ → ℕ) (offset : ℕ) :
    storedSlots L slots offset key signature =
      sstore (sstore (sstore (sstore (sstore slots offset (mload L key 0)) (offset + 1)
        ((mload L key 32 >>> keyExcessBits) <<< keyExcessBits)) (offset + 2)
        (mload L signature 0)) (offset + 3) (mload L signature 32)) (offset + 4)
        (mload L signature 64) := rfl

theorem storedSlots_of_forall_ne {slots : ℕ → ℕ} {offset slot : ℕ}
    (h : ∀ k < 5, slot ≠ offset + k) :
    storedSlots L slots offset key signature slot = slots slot := by
  have h0 := h 0 (by omega)
  have h1 := h 1 (by omega)
  have h2 := h 2 (by omega)
  have h3 := h 3 (by omega)
  have h4 := h 4 (by omega)
  rw [Nat.add_zero] at h0
  simp only [storedSlots_eq, sstore, Function.update_of_ne h4, Function.update_of_ne h3,
    Function.update_of_ne h2, Function.update_of_ne h1, Function.update_of_ne h0]

theorem _loadSigningKey_eq :
    _loadSigningKey L r o i =
      (slice (toBytes 32 (r.slots (L.signingKeyOffset o i)) ++
        toBytes 32 (r.slots (L.signingKeyOffset o i + 1))) 0 pubkeyLength,
      toBytes 32 (r.slots (L.signingKeyOffset o i + 2)) ++
        toBytes 32 (r.slots (L.signingKeyOffset o i + 3)) ++
        toBytes 32 (r.slots (L.signingKeyOffset o i + 4))) := by
  have hwords : (List.range (signatureLength / 32)) = [0, 1, 2] := by decide
  simp only [_loadSigningKey, hwords, List.flatMap_cons, List.flatMap_nil, List.append_nil,
    List.append_assoc]

theorem _loadSigningKey_congr (h : ∀ k < 5, r'.slots (L.signingKeyOffset o i + k) =
    r.slots (L.signingKeyOffset o i + k)) :
    _loadSigningKey L r' o i = _loadSigningKey L r o i := by
  have h0 := h 0 (by omega)
  have h1 := h 1 (by omega)
  have h2 := h 2 (by omega)
  have h3 := h 3 (by omega)
  have h4 := h 4 (by omega)
  rw [Nat.add_zero] at h0
  simp only [_loadSigningKey_eq, h0, h1, h2, h3, h4]

theorem _loadSigningKey_of_slots_eq (h : r'.slots = r.slots) :
    _loadSigningKey L r' o i = _loadSigningKey L r o i :=
  _loadSigningKey_congr fun k _ ↦ by rw [h]

theorem load_store_other (h : _storeSigningKey L r o i key signature = .ok r')
    (hplace : KeyPlace o i) (hplace' : KeyPlace o' i') (hne : ¬(o' = o ∧ i' = i)) :
    _loadSigningKey L r' o' i' = _loadSigningKey L r o' i' := by
  obtain ⟨_, _, rfl⟩ := _storeSigningKey_eq_ok.mp h
  refine _loadSigningKey_congr fun k hk ↦ storedSlots_of_forall_ne fun k' hk' heq ↦ ?_
  exact hne (L.disjoint hplace' hplace hk hk' heq)

theorem load_store_same (h : _storeSigningKey L r o i key signature = .ok r') :
    _loadSigningKey L r' o i = (key, signature) := by
  obtain ⟨hkey, hsig, rfl⟩ := _storeSigningKey_eq_ok.mp h
  have hkey' : key.length = 48 := hkey
  have hsig' : signature.length = 96 := hsig
  have hfirst : toBytes 32 (mload L key 0) = slice key 0 32 := by
    rw [mload_of_le (by omega)]
    exact toBytes_fromBytes_of_length (length_slice (by omega))
  have hsecond : toBytes 32 ((mload L key 32 >>> keyExcessBits) <<< keyExcessBits) =
      slice key 32 16 ++ toBytes 16 0 := by
    rw [mload_cleared hkey]
    exact toBytes_fromBytes_mul 16 (length_slice (by omega))
  have hthird {offset : ℕ} (h : offset + 32 ≤ 96) :
      toBytes 32 (mload L signature offset) = slice signature offset 32 := by
    rw [mload_of_le (by omega)]
    exact toBytes_fromBytes_of_length (length_slice (by omega))
  have hpubkey : slice (slice key 0 32 ++ (slice key 32 16 ++ toBytes 16 0)) 0 pubkeyLength =
      key := by
    rw [← List.append_assoc, slice_append_slice key 0 32 16, slice_of_length hkey']
    simp [slice, ← hkey]
  have hsignature : slice signature 0 32 ++ slice signature 32 32 ++ slice signature 64 32 =
      signature := by
    rw [slice_append_slice signature 0 32 32, slice_append_slice signature 0 64 32,
      slice_of_length hsig']
  rw [_loadSigningKey_eq]
  simp only [storedSlots_eq, sstore, Function.update_apply]
  simp [hfirst, hsecond, hthird, hpubkey, hsignature]

theorem clearSlots_eq (slots : ℕ → ℕ) (offset n slot : ℕ) :
    (List.range n).foldl (fun slots k ↦ sstore slots (offset + k) 0) slots slot =
      if offset ≤ slot ∧ slot < offset + n then 0 else slots slot := by
  induction n with
  | zero => simp
  | succ n ih =>
    rw [List.range_succ, List.foldl_append, List.foldl_cons, List.foldl_nil, sstore,
      Function.update_apply, ih]
    by_cases hlast : slot = offset + n
    · rw [if_pos hlast, if_pos (by omega)]
    · rw [if_neg hlast]
      exact if_congr (by omega) rfl rfl

theorem _deleteSigningKey_slots (L : SigningKeyLayout) (r : NodeOperatorsRegistry)
    (o i slot : ℕ) : (_deleteSigningKey L r o i).slots slot =
      if L.signingKeyOffset o i ≤ slot ∧ slot < L.signingKeyOffset o i + 5 then 0
      else r.slots slot :=
  clearSlots_eq r.slots (L.signingKeyOffset o i) 5 slot

theorem load_delete_other (hplace : KeyPlace o i) (hplace' : KeyPlace o' i')
    (hne : ¬(o' = o ∧ i' = i)) :
    _loadSigningKey L (_deleteSigningKey L r o i) o' i' = _loadSigningKey L r o' i' := by
  refine _loadSigningKey_congr fun k hk ↦ ?_
  rw [_deleteSigningKey_slots, if_neg]
  intro h
  obtain ⟨hle, hlt⟩ := h
  obtain ⟨k', hk'⟩ := Nat.exists_eq_add_of_le hle
  exact hne (L.disjoint hplace' hplace hk (show k' < 5 by omega) hk')

theorem load_delete_same (L : SigningKeyLayout) (r : NodeOperatorsRegistry) (o i : ℕ) :
    _loadSigningKey L (_deleteSigningKey L r o i) o i =
      (List.replicate 48 0, List.replicate 96 0) := by
  have hcleared (k : ℕ) (hk : k < 5) :
      (_deleteSigningKey L r o i).slots (L.signingKeyOffset o i + k) = 0 := by
    rw [_deleteSigningKey_slots, if_pos (by omega)]
  have hfirst := hcleared 0 (by omega)
  rw [Nat.add_zero] at hfirst
  rw [_loadSigningKey_eq, hfirst, hcleared 1 (by omega), hcleared 2 (by omega),
    hcleared 3 (by omega), hcleared 4 (by omega), toBytes_zero]
  rfl

/-- A key and its signature are read from their five slots as they were written there, whatever
was in the slots and follows the key in memory, and as zeros once these slots are cleared. -/
theorem signing_key_codec (L : SigningKeyLayout) (r : NodeOperatorsRegistry) (o i : ℕ)
    (hkey : key.length = 48) (hsignature : signature.length = 96) :
    (∃ r', _storeSigningKey L r o i key signature = .ok r' ∧
      _loadSigningKey L r' o i = (key, signature) ∧ r' = { r with slots := r'.slots } ∧
      ∀ slot, (∀ k < 5, slot ≠ L.signingKeyOffset o i + k) → r'.slots slot = r.slots slot) ∧
    _deleteSigningKey L r o i = { r with
      slots := fun slot ↦
        if L.signingKeyOffset o i ≤ slot ∧ slot < L.signingKeyOffset o i + 5 then 0
        else r.slots slot } ∧
    _loadSigningKey L (_deleteSigningKey L r o i) o i =
      (List.replicate 48 0, List.replicate 96 0) := by
  refine ⟨?_, ?_, load_delete_same L r o i⟩
  · have hstore := (_storeSigningKey_eq_ok (L := L) (r := r) (o := o) (i := i)).mpr
      ⟨hkey, hsignature, rfl⟩
    exact ⟨_, hstore, load_store_same hstore, rfl, fun slot ↦ storedSlots_of_forall_ne⟩
  · have hslots := funext (_deleteSigningKey_slots L r o i)
    rw [← hslots]
    rfl

theorem signing_key_codec_sample : ∃ r',
    _storeSigningKey Sample.layout (initializeRegistry 1) 3 7 (List.replicate 48 1)
      (List.replicate 96 2) = .ok r' ∧
    _loadSigningKey Sample.layout r' 3 7 = (List.replicate 48 1, List.replicate 96 2) ∧
    _loadSigningKey Sample.layout (_deleteSigningKey Sample.layout r' 3 7) 3 7 =
      (List.replicate 48 0, List.replicate 96 0) := by
  obtain ⟨⟨r', hstore, hload, _, _⟩, _, _⟩ := signing_key_codec Sample.layout
    (initializeRegistry 1) 3 7 (List.length_replicate (n := 48) (a := 1))
    (List.length_replicate (n := 96) (a := 2))
  exact ⟨r', hstore, hload, load_delete_same Sample.layout r' 3 7⟩

end Storage

end NodeOperatorsRegistry

end LidoDao
