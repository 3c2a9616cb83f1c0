import LidoDao.AddSigningKeysPanel
import LidoDao.KeyRemoval
import LidoDao.RegistrySystem

namespace LidoDao

open Evm Library.Outcome Library.ByteWords Library.HexText Library.Transition

namespace NodeOperatorsRegistry

variable {L : SigningKeyLayout} {r r' : NodeOperatorsRegistry} {lido : Address} {o n : ℕ}

section Acceptance

def emptyPubkey : Bytes := List.replicate pubkeyLength 0

theorem fromBytes_eq_zero {bs : Bytes} (h : bs.length = n) :
    fromBytes bs = 0 ↔ bs = List.replicate n 0 := by
  constructor
  · intro hzero
    rw [← toBytes_fromBytes_of_length h, hzero, toBytes_zero]
  · intro hbs
    rw [hbs, ← toBytes_zero, fromBytes_toBytes, Nat.zero_mod]

theorem _isEmptySigningKey_eq {key : Bytes} (h : key.length = pubkeyLength) :
    _isEmptySigningKey L key = .ok (decide (key = emptyPubkey)) := by
  have hlength : key.length = 48 := h
  have hfirst : 0 = mload L key 0 ↔ slice key 0 32 = List.replicate 32 0 := by
    rw [mload_of_le (by omega), eq_comm]
    exact fromBytes_eq_zero (length_slice (by omega))
  have hsecond : 0 = mload L key 32 >>> keyExcessBits ↔
      slice key 32 16 = List.replicate 16 0 := by
    have hpos : 0 < 2 ^ keyExcessBits := by positivity
    have hcleared : (mload L key 32 >>> keyExcessBits) * 2 ^ keyExcessBits =
        fromBytes (slice key 32 16) * 2 ^ keyExcessBits := by
      rw [← Nat.shiftLeft_eq, mload_cleared h]
      rfl
    rw [Nat.eq_of_mul_eq_mul_right hpos hcleared, eq_comm]
    exact fromBytes_eq_zero (length_slice (by omega))
  have hsplit : key = slice key 0 32 ++ slice key 32 16 := by
    rw [slice_append_slice key 0 32 16, slice_of_length hlength]
  have hempty : (0 = mload L key 0 ∧ 0 = mload L key 32 >>> keyExcessBits) ↔
      key = emptyPubkey := by
    rw [hfirst, hsecond]
    constructor
    · intro hzero
      rw [hsplit, hzero.1, hzero.2]
      rfl
    · intro hkey
      rw [hkey]
      exact ⟨rfl, rfl⟩
  simp only [_isEmptySigningKey, require_of h, ok_bind, pure_eq, hempty]

variable {pubkeys signatures : Bytes} {quantity : ℕ}

theorem storeKeys_isOk_iff {is : List ℕ}
    (hpubkeys : ∀ i ∈ is, i * pubkeyLength + pubkeyLength ≤ pubkeys.length)
    (hsignatures : ∀ i ∈ is, i * signatureLength + signatureLength ≤ signatures.length) :
    (∃ r', storeKeys L o n pubkeys signatures is r = .ok r') ↔
      ∀ i ∈ is, slice pubkeys (i * pubkeyLength) pubkeyLength ≠ emptyPubkey := by
  induction is generalizing r with
  | nil =>
    constructor
    · intro _ i hi
      cases hi
    · intro _
      exact ⟨r, rfl⟩
  | cons i is ih =>
    rw [List.forall_mem_cons] at hpubkeys hsignatures ⊢
    have hkey := length_slice hpubkeys.1
    have hsignature := length_slice hsignatures.1
    have hstore := _storeSigningKey_eq_ok (L := L) (r := r) (o := o) (i := n + i).mpr
      ⟨hkey, hsignature, rfl⟩
    simp only [storeKeys, bytesSlice_eq_ok.mpr ⟨hpubkeys.1, rfl⟩,
      bytesSlice_eq_ok.mpr ⟨hsignatures.1, rfl⟩, _isEmptySigningKey_eq hkey, hstore, ok_bind,
      bind_eq_ok, require_eq_ok, exists_const, exists_and_left, ih hpubkeys.2 hsignatures.2,
      Bool.not_eq_true', decide_eq_false_iff_not, ne_eq]

theorem _addSigningKeys_isOk_iff :
    (∃ r', _addSigningKeys L r o quantity pubkeys signatures = .ok r') ↔
      o < r.totalOperatorsCount ∧ quantity ≠ 0 ∧ pubkeys.length = quantity * pubkeyLength ∧
      signatures.length = quantity * signatureLength ∧
      (r.operators o).totalSigningKeys + quantity < 2 ^ 64 ∧
      ∀ key ∈ suppliedKeys pubkeys signatures quantity, key.1 ≠ emptyPubkey := by
  have hslices : (∀ key ∈ suppliedKeys pubkeys signatures quantity, key.1 ≠ emptyPubkey) ↔
      ∀ i ∈ List.range quantity, slice pubkeys (i * pubkeyLength) pubkeyLength ≠ emptyPubkey := by
    rw [suppliedKeys, List.forall_mem_map]
  have hroom {m : ℕ} (hm : 0 < m) {bs : Bytes} (hbs : bs.length = quantity * m) :
      ∀ i ∈ List.range quantity, i * m + m ≤ bs.length := by
    intro i hi
    have hlt : i + 1 ≤ quantity := List.mem_range.mp hi
    have hle := Nat.mul_le_mul_right m hlt
    rw [hbs]
    linarith
  rw [hslices]
  constructor
  · intro h
    obtain ⟨r', hr'⟩ := h
    obtain ⟨ho, hlt, hpub, hsig, _⟩ := _addSigningKeys_ok hr'
    simp only [_addSigningKeys, bind_eq_ok, require_eq_ok, exists_const] at hr'
    obtain ⟨_, _, hquantity, _, _, _, _, _, _, r₁, hstore, _⟩ := hr'
    exact ⟨ho, hquantity, hpub, hsig, hlt,
      (storeKeys_isOk_iff (hroom (by decide) hpub) (hroom (by decide) hsig)).mp ⟨r₁, hstore⟩⟩
  · intro h
    obtain ⟨ho, hquantity, hpub, hsig, hlt, hnonempty⟩ := h
    obtain ⟨r₁, hstore⟩ := (storeKeys_isOk_iff (L := L) (r := r._increaseKeysOpIndex) (o := o)
      (n := (r.operators o).totalSigningKeys) (hroom (by decide) hpub)
      (hroom (by decide) hsig)).mpr hnonempty
    have hoperators : r₁.operators = r.operators := by
      rw [storeKeys_record hstore]
      rfl
    have hmul {m : ℕ} (hm : m ≤ 96) : SafeMath.mul quantity m = .ok (quantity * m) := by
      refine SafeMath.mul_eq_ok.mpr ⟨?_, rfl⟩
      have hle := Nat.mul_le_mul_left quantity hm
      rw [wordLimit]
      omega
    have hto64 : to64 quantity = .ok quantity := by
      have hmax : quantity ≤ uint64Max := by
        rw [uint64Max]
        omega
      rw [to64, require_of hmax, ok_bind, pure_eq]
    have hkept : (r._increaseKeysOpIndex.operators o).totalSigningKeys =
        (r.operators o).totalSigningKeys := rfl
    have hadd : SafeMath64.add (r₁.operators o).totalSigningKeys quantity =
        .ok ((r.operators o).totalSigningKeys + quantity) := by
      rw [hoperators]
      exact SafeMath64.add_eq_ok.mpr ⟨hlt, rfl⟩
    have hpubkeyLength : SafeMath.mul quantity pubkeyLength = .ok (quantity * pubkeyLength) :=
      hmul (by decide)
    have hsignatureLength : SafeMath.mul quantity signatureLength =
        .ok (quantity * signatureLength) := hmul (by decide)
    simp only [_addSigningKeys, operatorExists, require_of ho, require_of hquantity,
      hpubkeyLength, require_of hpub, hsignatureLength, require_of hsig, hkept, hstore, hto64, hadd,
      ok_bind, pure_eq, Except.ok.injEq, exists_eq']

theorem suppliedKeys_flatten {pairs : List (Bytes × Bytes)}
    (hpubkeys : ∀ bs ∈ pairs.map Prod.fst, bs.length = pubkeyLength)
    (hsignatures : ∀ bs ∈ pairs.map Prod.snd, bs.length = signatureLength) :
    suppliedKeys (pairs.map Prod.fst).flatten (pairs.map Prod.snd).flatten pairs.length =
      pairs := by
  apply List.ext_getElem
  · rw [suppliedKeys, List.length_map, List.length_range]
  · intro i hi hi'
    have hfst : i < (pairs.map Prod.fst).length := by rwa [List.length_map]
    have hsnd : i < (pairs.map Prod.snd).length := by rwa [List.length_map]
    simp only [suppliedKeys, List.getElem_map, List.getElem_range, slice_flatten hpubkeys hfst,
      slice_flatten hsignatures hsnd]

end Acceptance

theorem getSigningKey_of_keys {i : ℕ} {key : Bytes × Bytes} (ho : o < r.totalOperatorsCount)
    (hkey : (keys L r o)[i]? = some key) (hunused : (r.operators o).usedSigningKeys ≤ i) :
    getSigningKey L r o i = .ok (key, false) := by
  obtain ⟨hi, rfl⟩ := List.getElem?_eq_some_iff.mp hkey
  have htotal : i < (r.operators o).totalSigningKeys := by rwa [length_keys] at hi
  have hused : decide (i < (r.operators o).usedSigningKeys) = false := decide_eq_false (by omega)
  rw [getElem_keys, getSigningKey, operatorExists, require_of ho, ok_bind, require_of htotal,
    ok_bind, hused, pure_eq]

end NodeOperatorsRegistry

namespace AddSigningKeysPanel

open NodeOperatorsRegistry

variable {L : SigningKeyLayout} {r r' : NodeOperatorsRegistry} {lido : Address} {id limit : ℕ}
  {parsed : Parsed} {s : Submission} {bytesOfHex : List Char → Option Bytes}
  {texts : List (List Char × List Char)} {pairs : List (Bytes × Bytes)}

/-- The wallet reads hexadecimal digits after `0x` as the bytes they spell. -/
def ReadsHex (bytesOfHex : List Char → Option Bytes) : Prop :=
  ∀ text bs, fromHex text = some bs → bytesOfHex ('0' :: 'x' :: text) = some bs

theorem onSubmit_ok (bytesOfHex : List Char → Option Bytes) (id : ℕ)
    (h : onSubmit limit parsed = .ok s) :
    ∃ texts pairs, parsed = .array (texts.map written) ∧ List.Forall₂ Spells texts pairs ∧
      1 ≤ pairs.length ∧ pairs.length ≤ limit ∧
      (ReadsHex bytesOfHex → addSKManagerApi bytesOfHex id s = some (.addSigningKeys id
        pairs.length (pairs.map Prod.fst).flatten (pairs.map Prod.snd).flatten)) := by
  obtain ⟨_, hvalid, hformat⟩ := bind_eq_ok.mp h
  obtain ⟨texts, pairs, rfl, hspells, hpos, hlimit, _⟩ := validate_eq_ok.mp hvalid
  rw [formatJsonData_written, Except.ok.injEq] at hformat
  subst hformat
  have hlength := hspells.length_eq
  refine ⟨texts, pairs, rfl, hspells, hlength ▸ hpos, hlength ▸ hlimit, ?_⟩
  intro hhex
  have hpubkeys := hhex _ _ (fromHex_flatten (fromHex_texts (f := Prod.fst) (g := Prod.fst) hspells
    Spells.pubkey))
  have hsignatures := hhex _ _ (fromHex_flatten (fromHex_texts (f := Prod.snd) (g := Prod.snd)
    hspells Spells.signature))
  simp only [addSKManagerApi, hpubkeys, hsignatures, hlength, Option.bind_eq_bind,
    Option.bind_some]

theorem length_of_spells (h : List.Forall₂ Spells texts pairs) :
    (∀ bs ∈ pairs.map Prod.fst, bs.length = pubkeyLength) ∧
      ∀ bs ∈ pairs.map Prod.snd, bs.length = signatureLength := by
  induction h with
  | nil => exact ⟨List.forall_mem_nil _, List.forall_mem_nil _⟩
  | cons hhead _ ih =>
    exact ⟨List.forall_mem_cons.mpr ⟨hhead.pubkey_length, ih.1⟩,
      List.forall_mem_cons.mpr ⟨hhead.signature_length, ih.2⟩⟩

/-- The keys of a file that the panel takes are appended to the list of the operator, in their
order and not used, when the manager may add them, the counter has room and none is zeros. The
panel's own check for duplicates tells apart texts that differ in the case of a letter. -/
theorem submitted_keys_are_stored (hhex : ReadsHex bytesOfHex)
    (hr : Reachable (registrySystem L lido) r) (hs : onSubmit limit parsed = .ok s) (id : ℕ) :
    ∃ texts pairs m, parsed = .array (texts.map written) ∧ List.Forall₂ Spells texts pairs ∧
      1 ≤ pairs.length ∧ pairs.length ≤ limit ∧ addSKManagerApi bytesOfHex id s = some m ∧
      ((pairs.map Prod.fst).Nodup ↔ (texts.map fun t ↦ t.1.map Char.toLower).Nodup) ∧
      ∀ c : Call Role,
        ((∃ r', handle L c r m = .ok r') ↔
          c.canPerform .manageSigningKeys [id] = true ∧ id < r.totalOperatorsCount ∧
          (r.operators id).totalSigningKeys + pairs.length < 2 ^ 64 ∧
          emptyPubkey ∉ pairs.map Prod.fst) ∧
        ∀ r', handle L c r m = .ok r' →
          keys L r' id = keys L r id ++ pairs ∧ (∀ o, o ≠ id → keys L r' o = keys L r o) ∧
          ∀ i (hi : i < pairs.length),
            getSigningKey L r' id ((r.operators id).totalSigningKeys + i) =
              .ok (pairs[i], false) := by
  obtain ⟨texts, pairs, hparsed, hspells, hpos, hlimit, hm⟩ :=
    onSubmit_ok bytesOfHex id hs
  obtain ⟨hpubkeys, hsignatures⟩ := length_of_spells hspells
  have hsupplied := suppliedKeys_flatten hpubkeys hsignatures
  refine ⟨texts, pairs, _, hparsed, hspells, hpos, hlimit, hm hhex, ?_, ?_⟩
  · have hnodup := nodup_fromHex (fromHex_texts (f := Prod.fst) (g := Prod.fst) hspells
      Spells.pubkey)
    rwa [List.map_map] at hnodup
  · intro c
    constructor
    · have hkeys : (∀ key ∈ pairs, key.1 ≠ emptyPubkey) ↔ emptyPubkey ∉ pairs.map Prod.fst := by
        simp only [List.mem_map, not_exists, not_and, ne_eq]
      have hpub := length_flatten hpubkeys
      have hsig := length_flatten hsignatures
      rw [List.length_map] at hpub hsig
      have hquantity : pairs.length ≠ 0 := by omega
      simp only [handle, Call.auth, bind_eq_ok, require_eq_ok, exists_const, exists_and_left,
        _addSigningKeys_isOk_iff, hsupplied, hkeys, hpub, hsig, hquantity, ne_eq,
        not_false_eq_true, true_and]
    · intro r' hr'
      obtain ⟨_, _, hr'⟩ := bind_eq_ok.mp hr'
      obtain ⟨ho, _, _, _, slots, hrecord, _⟩ := _addSigningKeys_ok hr'
      obtain ⟨hadded, hothers⟩ := keys_addSigningKeys (sane hr) hr'
      rw [hsupplied] at hadded
      refine ⟨hadded, hothers, ?_⟩
      intro i hi
      have hkey : (keys L r' id)[(r.operators id).totalSigningKeys + i]? = some pairs[i] := by
        rw [hadded, ← length_keys (L := L), List.getElem?_append_right (Nat.le_add_right _ _),
          Nat.add_sub_cancel_left, List.getElem?_eq_getElem hi]
      have hcount : id < r'.totalOperatorsCount := by
        rw [hrecord]
        exact ho
      have hunused : (r'.operators id).usedSigningKeys ≤ (r.operators id).totalSigningKeys + i := by
        have hle := ((sane hr).valid id).used
        rw [hrecord, setOperator_self]
        exact hle.trans (Nat.le_add_right _ _)
      exact getSigningKey_of_keys hcount hkey hunused

end AddSigningKeysPanel

namespace Sample

open NodeOperatorsRegistry AddSigningKeysPanel

def bytesOfHex : List Char → Option Bytes
  | '0' :: 'x' :: text => fromHex text
  | _ => none

/-- One key, with another signature and in letters of the other case the second time. -/
def keyTexts : List (List Char × List Char) := [
  (List.replicate 96 'a', List.replicate 192 '1'),
  (List.replicate 96 'A', List.replicate 192 '2')]

theorem one_key_is_stored_twice : ∃ r r' s m, Reachable (registrySystem layout 1) r ∧
    onSubmit 20 (.array (keyTexts.map written)) = .ok s ∧ addSKManagerApi bytesOfHex 0 s = some m ∧
    handle layout (send 5 m).1 r m = .ok r' ∧ (keys layout r' 0).length = 2 ∧
    ¬((keys layout r' 0).map Prod.fst).Nodup := by
  have hrun : reaches (registrySystem layout 1) (initializeRegistry 1)
      [send 5 (.addNodeOperator "first" 11)] (fun r ↦ decide (r.totalOperatorsCount = 1 ∧
        (r.operators 0).totalSigningKeys = 0)) = true := by
    decide +kernel
  have hpasses : (onSubmit 20 (.array (keyTexts.map written))).isOk = true := by decide +kernel
  have hnonempty : ∀ text ∈ keyTexts, fromHex text.1 ≠ some emptyPubkey := by decide +kernel
  have hsame : ¬(keyTexts.map fun t ↦ t.1.map Char.toLower).Nodup := by decide +kernel
  obtain ⟨r, hr, hp⟩ := registry_of_run hrun
  obtain ⟨hcount, htotal⟩ := of_decide_eq_true hp
  obtain ⟨s, hs⟩ := exists_of_isOk hpasses
  have hhex : ReadsHex bytesOfHex := fun _ _ h ↦ h
  obtain ⟨texts, pairs, m, hparsed, hspells, _, _, hm, hnodup, hcall⟩ :=
    submitted_keys_are_stored hhex hr hs 0
  obtain ⟨hok, hstored⟩ := hcall (send 5 m).1
  have hwritten : Function.Injective written := by
    intro t t' h
    obtain ⟨hpubkey, hsignature⟩ := JsonEntry.record.inj h
    exact Prod.ext (JsValue.string.inj hpubkey) (JsValue.string.inj hsignature)
  have htexts : keyTexts = texts := hwritten.list_map (Parsed.array.inj hparsed)
  subst htexts
  have hlength : pairs.length = 2 := hspells.length_eq.symm
  have hkeys : emptyPubkey ∉ pairs.map Prod.fst := by
    cases hspells with
    | cons h h' =>
      cases h' with
      | cons h' h'' =>
        cases h''
        intro hmem
        rcases List.mem_cons.mp hmem with heq | hmem
        · exact hnonempty _ List.mem_cons_self (heq ▸ h.pubkey)
        · exact hnonempty _ (List.mem_cons_of_mem _ List.mem_cons_self)
            (List.mem_singleton.mp hmem ▸ h'.pubkey)
  have hroom : (r.operators 0).totalSigningKeys + pairs.length < 2 ^ 64 := by
    rw [htotal, hlength]
    decide
  obtain ⟨r', hr'⟩ := hok.mpr ⟨rfl, by omega, hroom, hkeys⟩
  have hnone : keys layout r 0 = [] := List.eq_nil_of_length_eq_zero (by rw [length_keys, htotal])
  have hafter : keys layout r' 0 = pairs := by rw [(hstored r' hr').1, hnone, List.nil_append]
  rw [← hafter] at hlength hnodup
  exact ⟨r, r', s, m, hr, hs, hm, hr', hlength, hnodup.not.mpr hsame⟩

end Sample

end LidoDao
