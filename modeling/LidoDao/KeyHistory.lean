import LidoDao.JointInvariant

namespace LidoDao

open Evm Library.Outcome Library.ByteWords Library.Transition Library.Positions NodeOperatorsRegistry

/-- An accepted call that supplied keys, and the withdrawal credentials of its time. -/
structure Supply where
  call : ℕ
  operatorId : ℕ
  quantity : ℕ
  pubkeys : Bytes
  signatures : Bytes
  credentials : ℕ
  epoch : ℕ

/-- One position of such a call. -/
structure KeyEntry where
  supply : Supply
  position : ℕ

def KeyEntry.pair (e : KeyEntry) : Bytes × Bytes :=
  (slice e.supply.pubkeys (e.position * pubkeyLength) pubkeyLength,
    slice e.supply.signatures (e.position * signatureLength) signatureLength)

def Supply.entries (s : Supply) : List KeyEntry := (List.range s.quantity).map (KeyEntry.mk s)

/-- A deposit and the entry whose position became used with it. -/
structure EntryDeposit where
  entry : KeyEntry
  deposit : DepositCall
  epoch : ℕ

/-- What happened to the supplied entries: for each operator those at the positions
of its keys and those removed or discarded, and the deposits made. The epoch is
the number of times the withdrawal credentials were set. -/
structure KeyHistory where
  supplies : List Supply
  held : ℕ → List KeyEntry
  removed : ℕ → List KeyEntry
  deposited : List EntryDeposit
  epoch : ℕ

namespace NodeOperatorsRegistry

variable {α : Type}

def Message.added (m : Message) (supplied : List α) (o : ℕ) : List α :=
  match m with
  | .addSigningKeys o' _ _ _ | .addSigningKeysOperatorBH o' _ _ _ =>
    if o = o' then supplied else []
  | _ => []

def Message.removed (m : Message) (o : ℕ) (l : List α) : List α :=
  match m with
  | .removeSigningKey o' index | .removeSigningKeyOperatorBH o' index =>
    if o = o' then (l.drop index).take 1 else []
  | .removeSigningKeys o' index amount | .removeSigningKeysOperatorBH o' index amount =>
    if o = o' then (l.drop index).take amount else []
  | _ => []

end NodeOperatorsRegistry

namespace KeyHistory

def start : KeyHistory where
  supplies := []
  held _ := []
  removed _ := []
  deposited := []
  epoch := 0

variable {D : Deployment} (w w' : World NodeOperatorsRegistry) (v : KeyHistory)

/-- The supply that a message is. -/
def supplyOf : NodeOperatorsRegistry.Message → Option Supply
  | .addSigningKeys operatorId quantity pubkeys signatures
  | .addSigningKeysOperatorBH operatorId quantity pubkeys signatures =>
    some { call := v.supplies.length, operatorId, quantity, pubkeys, signatures
           credentials := w.lido.withdrawalCredentials, epoch := v.epoch }
  | _ => none

def entriesOf (m : NodeOperatorsRegistry.Message) : List KeyEntry :=
  (v.supplyOf w m).toList.flatMap Supply.entries

def afterMessage (m : NodeOperatorsRegistry.Message) : KeyHistory :=
  { v with
    supplies := v.supplies ++ (v.supplyOf w m).toList
    held := fun o ↦ m.edit (v.entriesOf w m) o (v.held o)
    removed := fun o ↦ v.removed o ++ m.removed o (v.held o) }

/-- The entries at positions that are not used are discarded. -/
def afterTrim : KeyHistory :=
  { v with
    held := fun o ↦ (v.held o).take (w.registry.operators o).usedSigningKeys
    removed := fun o ↦ v.removed o ++ (v.held o).drop (w.registry.operators o).usedSigningKeys
    epoch := v.epoch + 1 }

def newlyUsed : List KeyEntry :=
  w.registry.ids.flatMap fun o ↦
    ((v.held o).drop (w.registry.operators o).usedSigningKeys).take
      ((w'.registry.operators o).usedSigningKeys - (w.registry.operators o).usedSigningKeys)

def afterDeposits : KeyHistory :=
  { v with
    deposited := v.deposited ++ List.zipWith (fun entry deposit ↦ ⟨entry, deposit, v.epoch⟩)
      (v.newlyUsed w w') (w'.deposits.drop w.deposits.length) }

def observe (e : Event D (RegistryCall D)) : KeyHistory :=
  match e with
  | .registry c => v.afterMessage w c.message
  | .lido _ (.setWithdrawalCredentials _) => v.afterTrim w
  | _ => v.afterDeposits w w'

end KeyHistory

/-- The pool and its registry, with the history of the keys. -/
def keySystem (D : Deployment) (L : SigningKeyLayout) :
    Machine (World NodeOperatorsRegistry × KeyHistory) (Event D (RegistryCall D)) Revert :=
  (jointSystem D L).observed .start fun w e w' v ↦ v.observe w w' e

namespace NodeOperatorsRegistry

section Edit

variable {α : Type} {L : SigningKeyLayout} {r r' : NodeOperatorsRegistry} {lido : Address}
  {m : Message} {o o' : ℕ} {l supplied : List α}

/-- What an accepted message does to a list kept along with the keys: it adds and
takes out, and leaves what belongs to used keys in place. -/
structure Edits (r : NodeOperatorsRegistry) (m : Message) (supplied : List α) (o : ℕ)
    (l : List α) : Prop where
  perm : (l ++ m.added supplied o).Perm (m.removed o l ++ m.edit supplied o l)
  kept : (m.edit supplied o l).take (r.operators o).usedSigningKeys =
    l.take (r.operators o).usedSigningKeys

theorem Edits.idle (hadded : m.added supplied o = []) (hremoved : m.removed o l = [])
    (hedit : m.edit supplied o l = l) : Edits r m supplied o l := by
  refine ⟨?_, by rw [hedit]⟩
  rw [hadded, hremoved, hedit, List.append_nil, List.nil_append]

theorem Edits.add (h : Sane lido r) (hl : l.length = (r.operators o).totalSigningKeys)
    (hm : m.added supplied o = if o = o' then supplied else []) (hremoved : m.removed o l = [])
    (hedit : m.edit supplied o l = if o = o' then l ++ supplied else l) :
    Edits r m supplied o l := by
  by_cases ho : o = o'
  · rw [if_pos ho] at hm hedit
    refine ⟨?_, ?_⟩
    · rw [hm, hremoved, hedit, List.nil_append]
    · rw [hedit, List.take_append_of_le_length (hl ▸ (h.valid o).used)]
  · rw [if_neg ho] at hm hedit
    exact .idle hm hremoved hedit

theorem Edits.remove {index n : ℕ} (hl : l.length = (r.operators o).totalSigningKeys)
    (hbounds : ∀ j < n, index + j < (r.operators o').totalSigningKeys ∧
      (r.operators o').usedSigningKeys ≤ index + j)
    (hm : m.added supplied o = [])
    (hremoved : m.removed o l = if o = o' then (l.drop index).take n else [])
    (hedit : m.edit supplied o l = if o = o' then swapRemoves index n l else l) :
    Edits r m supplied o l := by
  by_cases ho : o = o'
  · subst ho
    rw [if_pos rfl] at hremoved hedit
    have hin : ∀ j < n, index + j < l.length := fun j hj ↦ hl ▸ (hbounds j hj).1
    refine ⟨?_, ?_⟩
    · rw [hm, hremoved, hedit, List.append_nil]
      exact perm_swapRemoves hin
    · rw [hedit]
      rcases Nat.eq_zero_or_pos n with rfl | hn
      · rfl
      · exact take_swapRemoves hin (hbounds 0 hn).2
  · rw [if_neg ho] at hremoved hedit
    exact .idle hm hremoved hedit

theorem edits {c : Call Role} (h : Sane lido r) (hr : handle L c r m = .ok r')
    (hl : l.length = (r.operators o).totalSigningKeys) : Edits r m supplied o l := by
  have hone {index j o : ℕ} {r' : NodeOperatorsRegistry} (hr : _removeSigningKey L r o index = .ok r')
      (hj : j < 1) : index + j < (r.operators o).totalSigningKeys ∧
        (r.operators o).usedSigningKeys ≤ index + j := by
    obtain ⟨_, hlt, hle, _⟩ := _removeSigningKey_ok hr
    omega
  cases m with
  | addSigningKeys _ _ _ _ | addSigningKeysOperatorBH _ _ _ _ => exact .add h hl rfl rfl rfl
  | removeSigningKey operatorId index | removeSigningKeyOperatorBH operatorId index =>
    obtain ⟨_, _, hr⟩ := bind_eq_ok.mp hr
    exact .remove hl (fun j hj ↦ hone hr hj) rfl rfl rfl
  | removeSigningKeys operatorId index amount
  | removeSigningKeysOperatorBH operatorId index amount =>
    obtain ⟨_, _, hr⟩ := bind_eq_ok.mp hr
    obtain ⟨_, _, hr⟩ := bind_eq_ok.mp hr
    exact .remove hl (removeKeys_bounds hr) rfl rfl rfl
  | _ => exact .idle rfl rfl rfl

end Edit

end NodeOperatorsRegistry

end LidoDao
