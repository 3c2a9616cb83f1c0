import LidoDao.Library.HexText
import LidoDao.NodeOperatorsRegistry
import Mathlib.Data.List.Dedup

namespace LidoDao.AddSigningKeysPanel

open Library.Outcome Library.ByteWords Library.HexText

/-- A field of an entry. A value that is no string has an identity, by which a `Set` tells it
from others, and the text `join` makes of it. -/
inductive JsValue
  | string (s : List Char)
  | other (identity : ℕ) (text : List Char)
  deriving DecidableEq

/-- An entry of the file; a field of `null` cannot be read. -/
inductive JsonEntry
  | null
  | record (pubkey signature : JsValue)

/-- What `JSON.parse` makes of the pasted text. -/
inductive Parsed
  | error (message : String)
  | notArray
  | array (data : List JsonEntry)

/-- A message shown at the field, or an exception out of the validation. -/
inductive Failure
  | invalid (message : String)
  | thrown
  deriving DecidableEq

def JsonEntry.pubkey : JsonEntry → Except Failure JsValue
  | .null => .error .thrown
  | .record pubkey _ => .ok pubkey

def JsonEntry.signature : JsonEntry → Except Failure JsValue
  | .null => .error .thrown
  | .record _ signature => .ok signature

/-- Each field of the array in turn. -/
def readAll (field : JsonEntry → Except Failure JsValue) :
    List JsonEntry → Except Failure (List JsValue)
  | [] => .ok []
  | entry :: data => do
    let value ← field entry
    let values ← readAll field data
    pure (value :: values)

section Helpers

def hasDuplicates (field : JsonEntry → Except Failure JsValue) (signingKeys : List JsonEntry) :
    Except Failure Bool := do
  let values ← readAll field signingKeys
  pure (signingKeys.length ≠ values.dedup.length)

def hasDuplicatePubkeys : List JsonEntry → Except Failure Bool := hasDuplicates JsonEntry.pubkey

def hasDuplicateSigs : List JsonEntry → Except Failure Bool := hasDuplicates JsonEntry.signature

/-- The class `[a-fA-F0-9]`. -/
def hexClass (c : Char) : Bool :=
  ('a' ≤ c && c ≤ 'f') || ('A' ≤ c && c ≤ 'F') || ('0' ≤ c && c ≤ '9')

def isHexadecimal (hexString : JsValue) (length : ℕ) : Bool :=
  if length = 0 then false
  else match hexString with
    | .string s => s.length = length && s.all hexClass
    | .other _ _ => false

def JsValue.text : JsValue → List Char
  | .string s => s
  | .other _ text => text

def formatKeys (keys : List JsValue) : List Char := '0' :: 'x' :: (keys.map JsValue.text).flatten

structure Submission where
  quantity : ℕ
  pubkeys : List Char
  signatures : List Char

def formatJsonData : Parsed → Except Failure Submission
  | .error _ => .error .thrown
  | .notArray => .error .thrown
  | .array data => do
    let pubkeysArray ← readAll JsonEntry.pubkey data
    let signaturesArray ← readAll JsonEntry.signature data
    pure { quantity := data.length, pubkeys := formatKeys pubkeysArray,
           signatures := formatKeys signaturesArray }

end Helpers

section Panel

/-- The loop over the entries, from an index on. -/
def checkKeys : ℕ → List JsonEntry → Except Failure Unit
  | _, [] => .ok ()
  | i, entry :: data => do
    let pubkey ← entry.pubkey
    let signature ← entry.signature
    require (isHexadecimal pubkey 96) (.invalid s!"Invalid pubkey at index {i}.")
    require (isHexadecimal signature 192) (.invalid s!"Invalid signature at index {i}.")
    checkKeys (i + 1) data

/-- The test named `basic`. -/
def validate (limit : ℕ) : Parsed → Except Failure Unit
  | .error message => .error (.invalid (if message = "" then "Invalid JSON" else message))
  | .notArray => .error (.invalid "JSON must be an array")
  | .array data => do
    let quantity := data.length
    require (1 ≤ quantity) (.invalid s!"Expected one or more keys but got {quantity}.")
    require (quantity ≤ limit)
      (.invalid s!"Expected {limit} signing keys max per submission but got {quantity}.")
    let duplicatePubkeys ← hasDuplicatePubkeys data
    require (!duplicatePubkeys) (.invalid "Includes duplicate public keys")
    let duplicateSigs ← hasDuplicateSigs data
    require (!duplicateSigs) (.invalid "Includes duplicate signatures")
    checkKeys 0 data

/-- `onSubmit` runs once the file is valid. -/
def onSubmit (limit : ℕ) (parsed : Parsed) : Except Failure Submission := do
  validate limit parsed
  formatJsonData parsed

/-- `addSKManagerApi`; the wallet turns hexadecimal texts into the bytes of the call. -/
def addSKManagerApi (bytesOfHex : List Char → Option Bytes) (operatorId : ℕ) (s : Submission) :
    Option NodeOperatorsRegistry.Message := do
  let pubkeys ← bytesOfHex s.pubkeys
  let signatures ← bytesOfHex s.signatures
  some (.addSigningKeys operatorId s.quantity pubkeys signatures)

end Panel

section Acceptance

variable {texts : List (List Char × List Char)} {keys : List (Bytes × Bytes)}

def written (text : List Char × List Char) : JsonEntry :=
  .record (.string text.1) (.string text.2)

/-- The texts are those of a key and a signature, with digits of either case. -/
structure Spells (text : List Char × List Char) (key : Bytes × Bytes) : Prop where
  pubkey : fromHex text.1 = some key.1
  signature : fromHex text.2 = some key.2
  pubkey_length : key.1.length = NodeOperatorsRegistry.pubkeyLength
  signature_length : key.2.length = NodeOperatorsRegistry.signatureLength

theorem hexClass_eq (c : Char) : hexClass c = (hexDigit c).isSome := by
  have hle (a b : Char) : a ≤ b ↔ a.toNat ≤ b.toNat := by
    rw [Char.le_def, UInt32.le_iff_toNat_le]
    rfl
  have hclass : hexClass c = true ↔ 97 ≤ c.toNat ∧ c.toNat ≤ 102 ∨
      65 ≤ c.toNat ∧ c.toNat ≤ 70 ∨ 48 ≤ c.toNat ∧ c.toNat ≤ 57 := by
    simp only [hexClass, Bool.or_eq_true, Bool.and_eq_true, decide_eq_true_eq, hle, or_assoc]
    rfl
  rw [Bool.eq_iff_iff, hclass]
  unfold hexDigit
  split
  · simp only [Option.isSome_some, iff_true]
    omega
  · split
    · simp only [Option.isSome_some, iff_true]
      omega
    · split
      · simp only [Option.isSome_some, iff_true]
        omega
      · simp only [Option.isSome_none, Bool.false_eq_true, iff_false]
        omega

theorem isHexadecimal_iff {value : JsValue} {n : ℕ} (hn : 0 < n) :
    isHexadecimal value (2 * n) = true ↔
      ∃ s bs, value = .string s ∧ fromHex s = some bs ∧ bs.length = n := by
  cases value with
  | other identity text =>
    simp [isHexadecimal]
  | string s =>
    have hlength : 2 * n ≠ 0 := by omega
    simp only [isHexadecimal, if_neg hlength, Bool.and_eq_true, decide_eq_true_eq,
      List.all_eq_true, hexClass_eq, JsValue.string.injEq]
    rw [← exists_fromHex_iff]
    constructor
    · intro h
      obtain ⟨bs, hbs, hlen⟩ := h
      exact ⟨s, bs, rfl, hbs, hlen⟩
    · intro h
      obtain ⟨_, bs, rfl, hbs, hlen⟩ := h
      exact ⟨bs, hbs, hlen⟩

theorem checkKeys_eq_ok {i : ℕ} {data : List JsonEntry} {u : Unit} : checkKeys i data = .ok u ↔
    ∃ texts keys, data = texts.map written ∧ List.Forall₂ Spells texts keys := by
  induction data generalizing i with
  | nil =>
    constructor
    · intro _
      exact ⟨[], [], rfl, .nil⟩
    · intro _
      rfl
  | cons entry data ih =>
    constructor
    · intro h
      cases entry with
      | null => cases h
      | record pubkey signature =>
        simp only [checkKeys, JsonEntry.pubkey, JsonEntry.signature, ok_bind, bind_eq_ok,
          require_eq_ok, exists_const] at h
        obtain ⟨hpubkey, hsignature, hrest⟩ := h
        obtain ⟨p, pbs, rfl, hp, hplen⟩ := (isHexadecimal_iff (n := 48) (by decide)).mp hpubkey
        obtain ⟨g, gbs, rfl, hg, hglen⟩ := (isHexadecimal_iff (n := 96) (by decide)).mp hsignature
        obtain ⟨texts, keys, rfl, hspells⟩ := ih.mp hrest
        exact ⟨(p, g) :: texts, (pbs, gbs) :: keys, rfl, .cons ⟨hp, hg, hplen, hglen⟩ hspells⟩
    · intro h
      obtain ⟨texts, keys, htexts, hspells⟩ := h
      cases hspells with
      | nil => cases htexts
      | cons hhead hspells =>
        obtain ⟨rfl, rfl⟩ := List.cons.inj htexts
        simp only [checkKeys, written, JsonEntry.pubkey, JsonEntry.signature, ok_bind, bind_eq_ok,
          require_eq_ok, exists_const]
        exact ⟨(isHexadecimal_iff (n := 48) (by decide)).mpr
            ⟨_, _, rfl, hhead.pubkey, hhead.pubkey_length⟩,
          (isHexadecimal_iff (n := 96) (by decide)).mpr
            ⟨_, _, rfl, hhead.signature, hhead.signature_length⟩,
          ih.mpr ⟨_, _, rfl, hspells⟩⟩

theorem readAll_written {field : JsonEntry → Except Failure JsValue}
    {f : List Char × List Char → List Char} (hf : ∀ t, field (written t) = .ok (.string (f t))) :
    readAll field (texts.map written) = .ok ((texts.map f).map .string) := by
  induction texts with
  | nil => rfl
  | cons t texts ih => simp only [List.map_cons, readAll, hf, ih, ok_bind, pure_eq]

theorem hasDuplicates_written {field : JsonEntry → Except Failure JsValue}
    {f : List Char × List Char → List Char} (hf : ∀ t, field (written t) = .ok (.string (f t)))
    {b : Bool} : hasDuplicates field (texts.map written) = .ok b ↔
      b = !decide (texts.map f).Nodup := by
  have hinjective : Function.Injective JsValue.string := fun _ _ h ↦ JsValue.string.inj h
  have hdedup : texts.length = ((texts.map f).map JsValue.string).dedup.length ↔
      (texts.map f).Nodup := by
    rw [← List.nodup_map_iff hinjective]
    constructor
    · intro h
      have hlength : ((texts.map f).map JsValue.string).dedup.length =
          ((texts.map f).map JsValue.string).length := by
        rw [← h, List.length_map, List.length_map]
      exact List.dedup_eq_self.mp ((List.dedup_sublist _).eq_of_length hlength)
    · intro h
      rw [List.dedup_eq_self.mpr h, List.length_map, List.length_map]
  simp only [hasDuplicates, readAll_written hf, ok_bind, pure_eq, Except.ok.injEq,
    List.length_map, ne_eq, hdedup, decide_not]
  exact eq_comm

theorem validate_eq_ok {limit : ℕ} {parsed : Parsed} {u : Unit} : validate limit parsed = .ok u ↔
    ∃ texts keys, parsed = .array (texts.map written) ∧ List.Forall₂ Spells texts keys ∧
      1 ≤ texts.length ∧ texts.length ≤ limit ∧
      (texts.map Prod.fst).Nodup ∧ (texts.map Prod.snd).Nodup := by
  cases parsed with
  | error message => simp [validate]
  | notArray => simp [validate]
  | array data =>
    simp only [validate, hasDuplicatePubkeys, hasDuplicateSigs, bind_eq_ok, require_eq_ok,
      exists_const, Parsed.array.injEq, checkKeys_eq_ok]
    constructor
    · intro h
      obtain ⟨hpos, hlimit, _, hpubkeys, hnew, _, hsignatures, hnew', texts, keys, rfl, hspells⟩ :=
        h
      rw [hasDuplicates_written (f := Prod.fst) fun _ ↦ rfl] at hpubkeys
      rw [hasDuplicates_written (f := Prod.snd) fun _ ↦ rfl] at hsignatures
      rw [hpubkeys, Bool.not_not, decide_eq_true_eq] at hnew
      rw [hsignatures, Bool.not_not, decide_eq_true_eq] at hnew'
      rw [List.length_map] at hpos hlimit
      exact ⟨texts, keys, rfl, hspells, hpos, hlimit, hnew, hnew'⟩
    · intro h
      obtain ⟨texts, keys, rfl, hspells, hpos, hlimit, hpubkeys, hsignatures⟩ := h
      rw [List.length_map]
      exact ⟨hpos, hlimit, _, (hasDuplicates_written (f := Prod.fst) fun _ ↦ rfl).mpr rfl,
        by rw [decide_eq_true hpubkeys]; rfl, _,
        (hasDuplicates_written (f := Prod.snd) fun _ ↦ rfl).mpr rfl,
        by rw [decide_eq_true hsignatures]; rfl, texts, keys, rfl, hspells⟩

theorem fromHex_texts {f : List Char × List Char → List Char} {g : Bytes × Bytes → Bytes}
    (h : List.Forall₂ Spells texts keys)
    (hfg : ∀ {text key}, Spells text key → fromHex (f text) = some (g key)) :
    List.Forall₂ (fun text bs ↦ fromHex text = some bs) (texts.map f) (keys.map g) := by
  induction h with
  | nil => exact .nil
  | cons hhead _ ih => exact .cons (hfg hhead) ih

theorem formatJsonData_written : formatJsonData (.array (texts.map written)) =
    .ok { quantity := texts.length
          pubkeys := '0' :: 'x' :: (texts.map Prod.fst).flatten
          signatures := '0' :: 'x' :: (texts.map Prod.snd).flatten } := by
  have hformat (values : List (List Char)) :
      formatKeys (values.map .string) = '0' :: 'x' :: values.flatten := by
    rw [formatKeys, List.map_map]
    exact congrArg (fun values ↦ '0' :: 'x' :: List.flatten values) (List.map_id values)
  rw [formatJsonData, readAll_written (f := Prod.fst) fun _ ↦ rfl,
    readAll_written (f := Prod.snd) fun _ ↦ rfl]
  simp only [ok_bind, pure_eq, hformat, List.length_map]

end Acceptance

end LidoDao.AddSigningKeysPanel
