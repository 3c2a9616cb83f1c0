import LidoDao.KeyHistory

namespace LidoDao

open Evm Library.Outcome Library.ByteWords Library.Transition Library.Positions NodeOperatorsRegistry

variable {D : Deployment} {L : SigningKeyLayout} {w w' : World NodeOperatorsRegistry}
  {e : Event D (RegistryCall D)} {v v' : KeyHistory}

theorem Supply.map_entries (s : Supply) :
    s.entries.map KeyEntry.pair = suppliedKeys s.pubkeys s.signatures s.quantity := by
  rw [entries, List.map_map]
  rfl

theorem Supply.mem_entries {s : Supply} {x : KeyEntry} :
    x ∈ s.entries ↔ x.supply = s ∧ x.position < s.quantity := by
  simp only [entries, List.mem_map, List.mem_range]
  constructor
  · intro h
    obtain ⟨k, hk, rfl⟩ := h
    exact ⟨rfl, hk⟩
  · intro h
    obtain ⟨rfl, hk⟩ := h
    exact ⟨x.position, hk, rfl⟩

theorem Supply.nodup_entries (s : Supply) : s.entries.Nodup :=
  List.nodup_range.map fun _ _ h ↦ (KeyEntry.mk.inj h).2

/-- The arrays hold as many keys and signatures as were announced. -/
def Supply.Full (s : Supply) : Prop :=
  s.pubkeys.length = s.quantity * pubkeyLength ∧
    s.signatures.length = s.quantity * signatureLength

namespace KeyHistory

def Supplied (v : KeyHistory) (x : KeyEntry) : Prop :=
  v.supplies[x.supply.call]? = some x.supply ∧ x.position < x.supply.quantity

/-- An entry supplied under the withdrawal credentials in force. -/
def Current (w : World NodeOperatorsRegistry) (v : KeyHistory) (x : KeyEntry) : Prop :=
  x.supply.epoch = v.epoch ∧ x.supply.credentials = w.lido.withdrawalCredentials

/-- The entries at an operator's positions are its keys, and those at used positions
are the deposited ones. -/
structure Sane (L : SigningKeyLayout) (w : World NodeOperatorsRegistry) (v : KeyHistory) : Prop where
  keys : ∀ o, (v.held o).map KeyEntry.pair = keys L w.registry o
  full : ∀ s ∈ v.supplies, s.Full
  operator : ∀ o x, x ∈ v.held o ∨ x ∈ v.removed o → x.supply.operatorId = o
  supplied : ∀ o, ∀ x, x ∈ v.held o ∨ x ∈ v.removed o → v.Supplied x
  complete : ∀ s ∈ v.supplies, ∀ x ∈ s.entries,
    x ∈ v.held s.operatorId ∨ x ∈ v.removed s.operatorId
  nodup : ∀ o, (v.held o ++ v.removed o).Nodup
  current : ∀ o, ∀ x ∈ (v.held o).drop (w.registry.operators o).usedSigningKeys, v.Current w x
  deposits : v.deposited.map EntryDeposit.deposit = w.deposits
  used : ∀ d ∈ v.deposited, ∃ o, d.entry ∈ (v.held o).take (w.registry.operators o).usedSigningKeys
  once : (v.deposited.map EntryDeposit.entry).Nodup
  pair : ∀ d ∈ v.deposited, d.deposit.key = d.entry.pair
  dated : ∀ d ∈ v.deposited, d.entry.supply.epoch = d.epoch ∧
    d.deposit.withdrawalCredentials = toBytes 32 d.entry.supply.credentials

theorem Sane.length_held (h : v.Sane L w) (o : ℕ) :
    (v.held o).length = (w.registry.operators o).totalSigningKeys := by
  rw [← length_keys (L := L), ← h.keys, List.length_map]

theorem Supplied.append {x : KeyEntry} (h : v.Supplied x) {l : List Supply}
    (hv : v'.supplies = v.supplies ++ l) : v'.Supplied x := by
  obtain ⟨hcall, hposition⟩ := h
  have hlt : x.supply.call < v.supplies.length := (List.getElem?_eq_some_iff.mp hcall).1
  rw [Supplied, hv, List.getElem?_append_left hlt]
  exact ⟨hcall, hposition⟩

/-- What a message or a trim does: each operator's entries are moved about, with
new ones that the message supplies. -/
structure Moves (L : SigningKeyLayout) (w w' : World NodeOperatorsRegistry) (v v' : KeyHistory)
    (supply : Option Supply) (removed : ℕ → List KeyEntry) : Prop where
  call : ∀ s ∈ supply, s.call = v.supplies.length
  full : ∀ s ∈ supply, s.Full
  supplies : v'.supplies = v.supplies ++ supply.toList
  perm : ∀ o, (v.held o ++ supply.toList.flatMap fun s ↦
    if o = s.operatorId then s.entries else []).Perm (removed o ++ v'.held o)
  removed : ∀ o, v'.removed o = v.removed o ++ removed o
  kept : ∀ o, (v'.held o).take (w'.registry.operators o).usedSigningKeys =
    (v.held o).take (w.registry.operators o).usedSigningKeys
  keys : ∀ o, (v'.held o).map KeyEntry.pair = NodeOperatorsRegistry.keys L w'.registry o
  current : ∀ o, ∀ x ∈ (v'.held o).drop (w'.registry.operators o).usedSigningKeys,
    x ∈ (v.held o).drop (w.registry.operators o).usedSigningKeys ∨ x.supply ∈ supply →
      v'.Current w' x
  deposited : v'.deposited = v.deposited
  deposits : w'.deposits = w.deposits

def suppliedTo (supply : Option Supply) (o : ℕ) : List KeyEntry :=
  supply.toList.flatMap fun s ↦ if o = s.operatorId then s.entries else []

theorem mem_suppliedTo {supply : Option Supply} {o : ℕ} {x : KeyEntry}
    (hx : x ∈ suppliedTo supply o) :
    x.supply ∈ supply ∧ x.supply.operatorId = o ∧ x ∈ x.supply.entries := by
  obtain ⟨s, hs, hx⟩ := List.mem_flatMap.mp hx
  split at hx
  · rename_i ho
    obtain ⟨rfl, hlt⟩ := Supply.mem_entries.mp hx
    exact ⟨Option.mem_toList.mp hs, ho.symm, hx⟩
  · cases hx

theorem nodup_suppliedTo (supply : Option Supply) (o : ℕ) : (suppliedTo supply o).Nodup := by
  cases supply with
  | none => exact List.nodup_nil
  | some s =>
    simp only [suppliedTo, Option.toList_some, List.flatMap_singleton]
    split
    · exact s.nodup_entries
    · exact List.nodup_nil

namespace Moves

variable {supply : Option Supply} {removed : ℕ → List KeyEntry}

theorem perm_all (hm : Moves L w w' v v' supply removed) (o : ℕ) :
    (v.held o ++ v.removed o ++ suppliedTo supply o).Perm (v'.held o ++ v'.removed o) := by
  have hfirst : (v.held o ++ v.removed o ++ suppliedTo supply o).Perm
      (v.held o ++ suppliedTo supply o ++ v.removed o) := by
    rw [List.append_assoc, List.append_assoc]
    exact List.perm_append_comm.append_left _
  rw [hm.removed]
  refine hfirst.trans (((hm.perm o).append_right _).trans ?_)
  rw [List.append_assoc]
  refine List.perm_append_comm.trans ?_
  rw [List.append_assoc]

theorem mem_iff (hm : Moves L w w' v v' supply removed) (o : ℕ) (x : KeyEntry) :
    x ∈ v'.held o ∨ x ∈ v'.removed o ↔
      (x ∈ v.held o ∨ x ∈ v.removed o) ∨ x ∈ suppliedTo supply o := by
  have hiff := (hm.perm_all o).mem_iff (a := x)
  rw [List.mem_append, List.mem_append, List.mem_append] at hiff
  exact hiff.symm

theorem mem_supplies (hm : Moves L w w' v v' supply removed) {s : Supply} :
    s ∈ v'.supplies ↔ s ∈ v.supplies ∨ s ∈ supply := by
  rw [hm.supplies, List.mem_append, Option.mem_toList]
  exact or_congr_right Iff.rfl

theorem fresh (hm : Moves L w w' v v' supply removed) (h : v.Sane L w) {o o' : ℕ} {x : KeyEntry}
    (hx : x ∈ suppliedTo supply o) : ¬(x ∈ v.held o' ∨ x ∈ v.removed o') := by
  intro hold
  have hlt := (List.getElem?_eq_some_iff.mp (h.supplied o' x hold).1).1
  have heq := hm.call _ (mem_suppliedTo hx).1
  omega

theorem nodup (hm : Moves L w w' v v' supply removed) (h : v.Sane L w) (o : ℕ) :
    (v'.held o ++ v'.removed o).Nodup := by
  refine (hm.perm_all o).nodup_iff.mp
    (List.nodup_append'.mpr ⟨h.nodup o, nodup_suppliedTo supply o, ?_⟩)
  intro x hx hx'
  exact hm.fresh h hx' (List.mem_append.mp hx)

theorem supplied (hm : Moves L w w' v v' supply removed) (h : v.Sane L w) (o : ℕ) (x : KeyEntry)
    (hx : x ∈ v'.held o ∨ x ∈ v'.removed o) : v'.Supplied x := by
  rcases (hm.mem_iff o x).mp hx with hold | hnew
  · exact (h.supplied o x hold).append hm.supplies
  · obtain ⟨hs, _, hentry⟩ := mem_suppliedTo hnew
    refine ⟨?_, (Supply.mem_entries.mp hentry).2⟩
    rw [hm.supplies, hm.call _ hs, Option.mem_def.mp hs]
    simp

theorem complete (hm : Moves L w w' v v' supply removed) (h : v.Sane L w) (s : Supply)
    (hs : s ∈ v'.supplies) (x : KeyEntry) (hx : x ∈ s.entries) :
    x ∈ v'.held s.operatorId ∨ x ∈ v'.removed s.operatorId := by
  apply (hm.mem_iff _ x).mpr
  rcases hm.mem_supplies.mp hs with hs | hs
  · exact .inl (h.complete s hs x hx)
  · refine .inr (List.mem_flatMap.mpr ⟨s, Option.mem_toList.mpr hs, ?_⟩)
    rwa [if_pos rfl]

theorem unused (hm : Moves L w w' v v' supply removed) (h : v.Sane L w) {o : ℕ} {x : KeyEntry}
    (hx : x ∈ (v'.held o).drop (w'.registry.operators o).usedSigningKeys) :
    x ∈ (v.held o).drop (w.registry.operators o).usedSigningKeys ∨ x.supply ∈ supply := by
  have hnew : x ∈ v.held o ++ suppliedTo supply o :=
    (hm.perm o).mem_iff.mpr (List.mem_append_right _ (List.mem_of_mem_drop hx))
  rcases List.mem_append.mp hnew with hold | hnew
  · refine .inl ((mem_take_or_drop _ hold).resolve_left fun hused ↦ ?_)
    rw [← hm.kept] at hused
    exact List.disjoint_take_drop (hm.nodup h o).of_append_left le_rfl hused hx
  · exact .inr (mem_suppliedTo hnew).1

end Moves

theorem Sane.moves (h : v.Sane L w) (supply : Option Supply) (removed : ℕ → List KeyEntry)
    (hm : Moves L w w' v v' supply removed) : v'.Sane L w' := by
  refine ⟨hm.keys, ?_, ?_, hm.supplied h, hm.complete h, hm.nodup h, ?_, ?_, ?_, ?_, ?_, ?_⟩
  · intro s hs
    rcases hm.mem_supplies.mp hs with hs | hs
    · exact h.full s hs
    · exact hm.full s hs
  · intro o x hx
    rcases (hm.mem_iff o x).mp hx with hold | hnew
    · exact h.operator o x hold
    · exact (mem_suppliedTo hnew).2.1
  · intro o x hx
    exact hm.current o x hx (hm.unused h hx)
  · rw [hm.deposited, hm.deposits]
    exact h.deposits
  · intro d hd
    rw [hm.deposited] at hd
    obtain ⟨o, ho⟩ := h.used d hd
    exact ⟨o, by rwa [hm.kept]⟩
  · rw [hm.deposited]
    exact h.once
  · rw [hm.deposited]
    exact h.pair
  · rw [hm.deposited]
    exact h.dated

theorem entriesOf_eq (m : NodeOperatorsRegistry.Message) (o : ℕ) :
    m.added (v.entriesOf w m) o =
      (v.supplyOf w m).toList.flatMap fun s ↦ if o = s.operatorId then s.entries else [] := by
  cases m with
  | addSigningKeys _ _ _ _ | addSigningKeysOperatorBH _ _ _ _ =>
    simp only [Message.added, entriesOf, supplyOf, Option.toList_some, List.flatMap_singleton]
  | _ => rfl

theorem map_entriesOf (m : NodeOperatorsRegistry.Message) :
    (v.entriesOf w m).map KeyEntry.pair = m.supplied := by
  cases m with
  | addSigningKeys _ _ _ _ | addSigningKeysOperatorBH _ _ _ _ =>
    simp only [entriesOf, supplyOf, Option.toList_some, List.flatMap_singleton,
      Supply.map_entries, Message.supplied]
  | _ => rfl

theorem supplyOf_fresh {m : NodeOperatorsRegistry.Message} {s : Supply} (h : s ∈ v.supplyOf w m) :
    s.call = v.supplies.length ∧ s.epoch = v.epoch ∧
      s.credentials = w.lido.withdrawalCredentials := by
  cases m with
  | addSigningKeys _ _ _ _ | addSigningKeysOperatorBH _ _ _ _ =>
    cases h
    exact ⟨rfl, rfl, rfl⟩
  | _ => cases h

theorem supplyOf_full {c : Call NodeOperatorsRegistry.Role} {m : NodeOperatorsRegistry.Message}
    {s : Supply} {r r' : NodeOperatorsRegistry} (h : s ∈ v.supplyOf w m)
    (hr : r.handle L c m = .ok r') : s.Full := by
  cases m with
  | addSigningKeys _ _ _ _ | addSigningKeysOperatorBH _ _ _ _ =>
    cases h
    obtain ⟨_, _, hr⟩ := bind_eq_ok.mp hr
    obtain ⟨_, _, hpubkeys, hsignatures, _⟩ := _addSigningKeys_ok hr
    exact ⟨hpubkeys, hsignatures⟩
  | _ => cases h

theorem Sane.message {c : RegistryCall D} {registry : NodeOperatorsRegistry} (h : v.Sane L w)
    (hs : w.registry.Sane D.lido) (hr : w.registry.handle L c.toCall c.message = .ok registry) :
    (v.afterMessage w c.message).Sane L { w with registry } := by
  have hhandled := handle_ok hs c.sender_ne_lido hr
  have hedits (o : ℕ) : Edits w.registry c.message (v.entriesOf w c.message) o (v.held o) :=
    edits hs hr (h.length_held o)
  refine h.moves (v.supplyOf w c.message) (fun o ↦ c.message.removed o (v.held o))
    ⟨?_, ?_, rfl, ?_, ?_, ?_, ?_, ?_, rfl, rfl⟩
  · intro s hs
    exact (supplyOf_fresh hs).1
  · intro s hs
    exact supplyOf_full hs hr
  · intro o
    rw [← entriesOf_eq]
    exact (hedits o).perm
  · intro o
    rfl
  · intro o
    rw [hhandled.used]
    exact (hedits o).kept
  · intro o
    rw [hhandled.keys, ← h.keys, ← map_entriesOf (w := w) (v := v), ← Message.map_edit]
    rfl
  · intro o x _ hx
    rcases hx with hold | hnew
    · exact h.current o x hold
    · exact (supplyOf_fresh hnew).2

theorem Sane.trim {withdrawalCredentials : ℕ} (h : v.Sane L w) (hs : w.registry.Sane D.lido) :
    (v.afterTrim w).Sane L { w with
      lido := { w.lido with withdrawalCredentials }, registry := w.registry.trimAll } := by
  refine h.moves none (fun o ↦ (v.held o).drop (w.registry.operators o).usedSigningKeys)
    ⟨?_, ?_, (List.append_nil _).symm, ?_, ?_, ?_, ?_, ?_, rfl, rfl⟩
  · intro s hs
    cases hs
  · intro s hs
    cases hs
  · intro o
    have hsplit := List.take_append_drop (w.registry.operators o).usedSigningKeys (v.held o)
    simp only [Option.toList_none, List.flatMap_nil, List.append_nil]
    exact (List.Perm.of_eq hsplit.symm).trans List.perm_append_comm
  · intro o
    rfl
  · intro o
    rw [used_trimAll]
    exact List.take_take.trans (by rw [Nat.min_self])
  · intro o
    rw [keys_trimAll hs, ← h.keys, ← List.map_take]
    rfl
  · intro o x hx
    rw [used_trimAll] at hx
    have hnone : (((v.afterTrim w).held o).drop (w.registry.operators o).usedSigningKeys) = [] :=
      List.drop_take_self
    rw [hnone] at hx
    cases hx

section Deposits

variable {n : ℕ → ℕ} {keysOpIndex : ℕ}

theorem Sane.map_newlyUsed (h : v.Sane L w) {wanted : ℕ} (hplan : Plan w.registry wanted n)
    (hregistry : w'.registry = { w.registry.useKeys n with keysOpIndex }) :
    (v.newlyUsed w w').map KeyEntry.pair = handedOut L w.registry n := by
  have hused (o : ℕ) : (w'.registry.operators o).usedSigningKeys -
      (w.registry.operators o).usedSigningKeys = n o := by
    rw [hregistry]
    exact Nat.add_sub_cancel_left _ _
  have hkeys (o : ℕ) : (((v.held o).drop (w.registry.operators o).usedSigningKeys).take
      (n o)).map KeyEntry.pair = nextKeys L w.registry o (n o) := by
    rw [List.map_take, List.map_drop, h.keys, nextKeys]
  simp only [newlyUsed, hused, List.map_flatMap, hkeys]
  refine (flatMap_filter fun o ho hinactive ↦ ?_).symm
  rw [hplan.inactive o, nextKeys_zero]
  intro hmem
  have hactive := (List.mem_filter.mp hmem).2
  rw [hinactive] at hactive
  cases hactive

theorem mem_newlyUsed {x : KeyEntry} (h : x ∈ v.newlyUsed w w') :
    ∃ o, x ∈ (v.held o).drop (w.registry.operators o).usedSigningKeys ∧
      x ∈ (v.held o).take (w'.registry.operators o).usedSigningKeys := by
  obtain ⟨o, _, hx⟩ := List.mem_flatMap.mp h
  refine ⟨o, List.mem_of_mem_take hx, ?_⟩
  rw [← List.drop_take] at hx
  exact List.mem_of_mem_drop hx

theorem Sane.nodup_newlyUsed (h : v.Sane L w) : (v.newlyUsed w w').Nodup := by
  refine List.nodup_flatMap.mpr ⟨?_, ?_⟩
  · intro o _
    exact ((h.nodup o).of_append_left.sublist (List.drop_sublist _ _)).sublist
      (List.take_sublist _ _)
  · refine List.nodup_range.imp fun {o o'} hne x hx hx' ↦ hne ?_
    have ho := h.operator o x (.inl <| List.mem_of_mem_drop (List.mem_of_mem_take hx))
    have ho' := h.operator o' x (.inl <| List.mem_of_mem_drop (List.mem_of_mem_take hx'))
    exact ho.symm.trans ho'

theorem mem_zipWith_deposits {entries : List KeyEntry} {calls : List DepositCall} {epoch : ℕ}
    (hpairs : entries.map KeyEntry.pair = calls.map DepositCall.key) {d : EntryDeposit}
    (hd : d ∈ List.zipWith (fun entry deposit ↦ EntryDeposit.mk entry deposit epoch) entries calls) :
    d.entry ∈ entries ∧ d.deposit ∈ calls ∧ d.deposit.key = d.entry.pair ∧ d.epoch = epoch := by
  have hlength : entries.length = calls.length := by
    rw [← List.length_map (f := KeyEntry.pair), hpairs, List.length_map]
  obtain ⟨i, hi, rfl⟩ := List.mem_iff_getElem.mp hd
  rw [List.length_zipWith, hlength, Nat.min_self] at hi
  have hi' : i < entries.length := hlength ▸ hi
  have hpair : calls[i].key = entries[i].pair := by
    have heq := List.getElem_of_eq hpairs (i := i) (by rwa [List.length_map])
    rw [List.getElem_map, List.getElem_map] at heq
    exact heq.symm
  simp only [List.getElem_zipWith, and_true]
  exact ⟨List.getElem_mem hi', List.getElem_mem hi, hpair⟩

theorem Sane.deposit {lido : Lido} {calls : List DepositCall} {wanted : ℕ}
    {registry : NodeOperatorsRegistry} (h : v.Sane L w)
    (hkeys : KeysDeposited L w wanted n registry calls)
    (hcredentials : lido.withdrawalCredentials = w.lido.withdrawalCredentials)
    (hw : w' = { w with lido, registry, deposits := w.deposits ++ calls }) :
    (v.afterDeposits w w').Sane L w' := by
  obtain ⟨keysOpIndex, hregistry⟩ := hkeys.registry
  have hregistry' : w'.registry = { w.registry.useKeys n with keysOpIndex } := by
    rw [hw, hregistry]
  have hpairs := (h.map_newlyUsed hkeys.plan hregistry').trans hkeys.keys.symm
  have hlength : (v.newlyUsed w w').length = calls.length := by
    rw [← List.length_map (f := KeyEntry.pair), hpairs, List.length_map]
  have hused (o : ℕ) : (w'.registry.operators o).usedSigningKeys =
      (w.registry.operators o).usedSigningKeys + n o := by
    rw [hregistry']
    rfl
  have hcalls : w'.deposits.drop w.deposits.length = calls := by
    rw [hw]
    exact List.drop_left
  let made := List.zipWith (fun entry deposit ↦ EntryDeposit.mk entry deposit v.epoch)
    (v.newlyUsed w w') calls
  have hdeposited : (v.afterDeposits w w').deposited = v.deposited ++ made := by
    simp only [afterDeposits, hcalls, made]
  have hentries : made.map EntryDeposit.entry = v.newlyUsed w w' :=
    List.ext_getElem (by simp [made, hlength]) fun i _ _ ↦ by simp [made]
  have hdeposits : made.map EntryDeposit.deposit = calls :=
    List.ext_getElem (by simp [made, hlength]) fun i _ _ ↦ by simp [made]
  have hmade : ∀ d ∈ made, d.entry ∈ v.newlyUsed w w' ∧ d.deposit ∈ calls ∧
      d.deposit.key = d.entry.pair ∧ d.epoch = v.epoch := fun d hd ↦ mem_zipWith_deposits hpairs hd
  have hkept : ∀ o x, x ∈ (v.held o).take (w.registry.operators o).usedSigningKeys →
      x ∈ (v.held o).take (w'.registry.operators o).usedSigningKeys := by
    intro o x hx
    rw [hused, List.take_add]
    exact List.mem_append_left _ hx
  refine ⟨?_, h.full, h.operator, h.supplied, h.complete, h.nodup, ?_, ?_, ?_, ?_, ?_, ?_⟩
  · intro o
    rw [hregistry']
    exact (h.keys o).trans (keys_useKeys o).symm
  · intro o x hx
    rw [hused, ← List.drop_drop] at hx
    have hcurrent := h.current o x (List.mem_of_mem_drop hx)
    rw [Current, hw]
    exact ⟨hcurrent.1, hcurrent.2.trans hcredentials.symm⟩
  · rw [hdeposited, List.map_append, h.deposits, hdeposits, hw]
  · intro d hd
    rw [hdeposited] at hd
    rcases List.mem_append.mp hd with hold | hnew
    · obtain ⟨o, ho⟩ := h.used d hold
      exact ⟨o, hkept o _ ho⟩
    · obtain ⟨o, _, ho⟩ := mem_newlyUsed (hmade d hnew).1
      exact ⟨o, ho⟩
  · rw [hdeposited, List.map_append, hentries]
    refine List.nodup_append'.mpr ⟨h.once, h.nodup_newlyUsed, fun x hx hx' ↦ ?_⟩
    obtain ⟨d, hd, rfl⟩ := List.mem_map.mp hx
    obtain ⟨o, ho⟩ := h.used d hd
    obtain ⟨o', ho', _⟩ := mem_newlyUsed hx'
    have hsame : o = o' := (h.operator o _ (.inl <| List.mem_of_mem_take ho)).symm.trans
      (h.operator o' _ (.inl <| List.mem_of_mem_drop ho'))
    subst hsame
    exact List.disjoint_take_drop (h.nodup o).of_append_left le_rfl ho ho'
  · intro d hd
    rw [hdeposited] at hd
    rcases List.mem_append.mp hd with hold | hnew
    · exact h.pair d hold
    · exact (hmade d hnew).2.2.1
  · intro d hd
    rw [hdeposited] at hd
    rcases List.mem_append.mp hd with hold | hnew
    · exact h.dated d hold
    · obtain ⟨hentry, hcall, _, hepoch⟩ := hmade d hnew
      obtain ⟨o, ho, _⟩ := mem_newlyUsed hentry
      have hcurrent := h.current o _ ho
      refine ⟨hcurrent.1.trans hepoch.symm, ?_⟩
      rw [hkeys.credentials d.deposit hcall, hcurrent.2]

end Deposits

theorem Sane.frame (h : v.Sane L w) (hregistry : w'.registry = w.registry)
    (hdeposits : w'.deposits = w.deposits)
    (hcredentials : w'.lido.withdrawalCredentials = w.lido.withdrawalCredentials) :
    (v.afterDeposits w w').Sane L w' := by
  have hv : v.afterDeposits w w' = v := by
    simp [afterDeposits, hdeposits]
  obtain ⟨hkeys, hfull, hoperator, hsupplied, hcomplete, hnodup, hcurrent, hmade, hused, honce, hpair,
    hdated⟩ := h
  rw [← hregistry] at hkeys hcurrent hused
  rw [← hdeposits] at hmade
  rw [hv]
  refine ⟨hkeys, hfull, hoperator, hsupplied, hcomplete, hnodup, ?_, hmade, hused, honce, hpair,
    hdated⟩
  intro o x hx
  rw [Current, hcredentials]
  exact hcurrent o x hx

end KeyHistory

theorem Change.frame {I : INodeOperatorsRegistry NodeOperatorsRegistry (RegistryCall D)}
    (h : Change I w e w') (hregistry : ∀ c, e ≠ .registry c) (hdeposit : e.maxDeposits = none)
    (hcredentials : ∀ c x, e ≠ .lido c (.setWithdrawalCredentials x)) :
    w'.registry = w.registry ∧ w'.deposits = w.deposits ∧
      w'.lido.withdrawalCredentials = w.lido.withdrawalCredentials := by
  cases h with
  | token _ _ | control _ | recovered _ | forceEther _ | vaults _ => exact ⟨rfl, rfl, rfl⟩
  | settings _ _ h => exact ⟨rfl, rfl, h⟩
  | paidIn _ h =>
    obtain ⟨_, _, _, _, _, rfl⟩ := Lido._submit_ok h
    exact ⟨rfl, rfl, rfl⟩
  | rewardsIn h =>
    obtain ⟨_, _, rfl⟩ := Lido.receiveELRewards_eq_ok.mp h
    exact ⟨rfl, rfl, rfl⟩
  | credentials _ => exact absurd rfl (hcredentials _ _)
  | deposited hm _ _ =>
    rw [hdeposit] at hm
    cases hm
  | reported v b h =>
    have hframe := Lido.handleOracleReport_frame h
    exact ⟨hframe.registry, hframe.deposits,
      congrArg Settings.withdrawalCredentials hframe.settings⟩
  | registry _ => exact absurd rfl (hregistry _)

namespace KeyHistory

theorem Sane.deposited (h : v.Sane L w) (hs : JointSane D w) {c : LidoCall D} {maxDeposits : ℕ}
    (hstep : Lido._depositBufferedEther D (registryContract D L) c maxDeposits w = .ok w') :
    (v.afterDeposits w w').Sane L w' := by
  rcases Lido._depositBufferedEther_ok hstep with ⟨_, rfl⟩ |
    ⟨_, count, amount, keys, registry, calls, hbatch, _, _, hw⟩
  · exact h.frame rfl rfl rfl
  · obtain ⟨⟨n, hkeys⟩, _⟩ := hbatch.keysDeposited hs.registry
    have hcredentials : (w.lido.launch count amount).withdrawalCredentials =
        w.lido.withdrawalCredentials := rfl
    exact h.deposit hkeys hcredentials hw

theorem Sane.step (h : v.Sane L w) (hs : JointSane D w)
    (hstep : World.step D (registryContract D L) w e = .ok w') :
    (v.observe w w' e).Sane L w' := by
  cases World.step_effect hstep with
  | registry hr => exact h.message hs.registry hr
  | setWithdrawalCredentials _ htrim =>
    obtain ⟨_, rfl⟩ := trimUnusedKeys_ok htrim
    exact h.trim hs.registry
  | depositBufferedEther _ hdeposit | depositBufferedEtherUpTo _ hdeposit =>
    exact h.deposited hs hdeposit
  | _ =>
    obtain ⟨hregistry, hdeposits, hcredentials⟩ :=
      (World.step_change hstep).frame (fun _ he ↦ by cases he) rfl fun _ _ he ↦ by cases he
    exact h.frame hregistry hdeposits hcredentials

theorem Sane.initial (h : (jointSystem D L).initial w) : start.Sane L w := by
  obtain ⟨_, hregistry, _, hdeposits⟩ := h
  have hregistry' : w.registry = initializeRegistry D.lido := hregistry
  refine ⟨?_, ?_, ?_, ?_, ?_, fun _ ↦ .nil, ?_, hdeposits.symm, ?_, .nil, ?_, ?_⟩
  · intro o
    rw [hregistry']
    rfl
  all_goals simp [start]

end KeyHistory

theorem keyHistory_sane (h : Reachable (keySystem D L) (w, v)) : v.Sane L w := by
  suffices hsane : ∀ s, Reachable (keySystem D L) s → s.2.Sane L s.1 from hsane _ h
  intro s hs
  refine hs.invariant (P := fun s ↦ s.2.Sane L s.1) ?_ ?_
  · intro s hs
    rw [hs.2]
    exact .initial hs.1
  · intro s e t hs h hstep
    obtain ⟨hstep, hv⟩ := observed_step.mp hstep
    rw [← hv]
    exact h.step (jointSane hs.of_observed) hstep

end LidoDao
