import LidoDao.NextSigningKeys

namespace LidoDao.NodeOperatorsRegistry

open Evm Library.Outcome Library.ByteWords Library.Positions

variable {L : SigningKeyLayout} {r r' : NodeOperatorsRegistry} {lido : Address} {n : ℕ → ℕ}

theorem Sane.useKeys (h : Sane lido r) (hn : ∀ id, n id ≤ (r.operators id).capacity) :
    Sane lido (r.useKeys n) := by
  refine ⟨?_, h.active, h.payable, h.unused, h.count_le, h.lido_eq⟩
  intro id
  have hv := h.valid id
  exact ⟨hv.stopped.trans (Nat.le_add_right _ _), used_add_le hv (hn id), hv.total⟩

@[simp] theorem keys_useKeys (o : ℕ) : keys L (r.useKeys n) o = keys L r o :=
  keys_of_slots_eq rfl rfl

def usedTotal (r : NodeOperatorsRegistry) : ℕ :=
  (r.ids.map fun id ↦ (r.operators id).usedSigningKeys).sum

theorem usedTotal_useKeys : (r.useKeys n).usedTotal = r.usedTotal + (r.ids.map n).sum :=
  List.sum_map_add

theorem used_trimAll (o : ℕ) :
    (r.trimAll.operators o).usedSigningKeys = (r.operators o).usedSigningKeys := by
  rcases Nat.lt_or_ge o r.totalOperatorsCount with ho | ho
  · rw [trimAll_operators_of_lt ho]
    rfl
  · rw [trimAll_operators_of_le ho]

theorem usedTotal_trimAll : r.trimAll.usedTotal = r.usedTotal :=
  congrArg List.sum (List.map_congr_left fun o _ ↦ used_trimAll o)

section Handle

/-- The list of an operator's keys, or of anything kept along with them, after a
message; `supplied` is what the message brings. -/
def Message.edit {α : Type} (m : Message) (supplied : List α) (o : ℕ) (l : List α) : List α :=
  match m with
  | .addSigningKeys o' _ _ _ | .addSigningKeysOperatorBH o' _ _ _ =>
    if o = o' then l ++ supplied else l
  | .removeSigningKey o' index | .removeSigningKeyOperatorBH o' index =>
    if o = o' then swapRemove l index else l
  | .removeSigningKeys o' index amount | .removeSigningKeysOperatorBH o' index amount =>
    if o = o' then swapRemoves index amount l else l
  | _ => l

def Message.supplied : Message → List (Bytes × Bytes)
  | .addSigningKeys _ quantity pubkeys signatures
  | .addSigningKeysOperatorBH _ quantity pubkeys signatures =>
    suppliedKeys pubkeys signatures quantity
  | _ => []

theorem Message.map_edit {α β : Type} (f : α → β) (m : Message) (supplied : List α) (o : ℕ)
    (l : List α) : (m.edit supplied o l).map f = m.edit (supplied.map f) o (l.map f) := by
  cases m <;> simp only [edit]
  all_goals split <;> simp [map_swapRemove, map_swapRemoves]

/-- What an accepted message of anyone but the pool does: the keys are edited and
no key is used. -/
structure Handled (L : SigningKeyLayout) (lido : Address) (r : NodeOperatorsRegistry) (m : Message)
    (r' : NodeOperatorsRegistry) : Prop where
  sane : Sane lido r'
  used : ∀ o, (r'.operators o).usedSigningKeys = (r.operators o).usedSigningKeys
  count : r.totalOperatorsCount ≤ r'.totalOperatorsCount
  keys : ∀ o, keys L r' o = m.edit m.supplied o (keys L r o)

theorem usedTotal_eq (h : Sane lido r)
    (hused : ∀ o, (r'.operators o).usedSigningKeys = (r.operators o).usedSigningKeys)
    (hcount : r.totalOperatorsCount ≤ r'.totalOperatorsCount) : r'.usedTotal = r.usedTotal := by
  obtain ⟨k, hk⟩ := Nat.exists_eq_add_of_le hcount
  have hnone : ((List.range k).map fun i ↦
      (r'.operators (r.totalOperatorsCount + i)).usedSigningKeys).sum = 0 := by
    refine List.sum_eq_zero_iff_forall_eq_nat.mpr fun x hx ↦ ?_
    obtain ⟨i, _, rfl⟩ := List.mem_map.mp hx
    have htotal := (h.unused (r.totalOperatorsCount + i) (Nat.le_add_right _ _)).2
    have hle := (h.valid (r.totalOperatorsCount + i)).used
    rw [hused]
    omega
  rw [usedTotal, ids, hk, List.range_add, List.map_append, List.sum_append, List.map_map]
  rw [show ((fun id ↦ (r'.operators id).usedSigningKeys) ∘ fun x ↦ r.totalOperatorsCount + x) =
    fun i ↦ (r'.operators (r.totalOperatorsCount + i)).usedSigningKeys from rfl, hnone,
    Nat.add_zero]
  exact congrArg _ (List.map_congr_left fun o _ ↦ hused o)

variable {m : Message} {id o : ℕ} {f : NodeOperator → NodeOperator}

theorem setOperator_field {α : Type} (g : NodeOperator → α)
    (h : g (f (r.operators id)) = g (r.operators id)) (o : ℕ) :
    g ((r.setOperator id f).operators o) = g (r.operators o) := by
  by_cases ho : o = id
  · subst ho
    rw [setOperator_self, h]
  · rw [setOperator_of_ne ho]

theorem Handled.of_setOperator {r₀ : NodeOperatorsRegistry} (hs : Sane lido (r₀.setOperator id f))
    (hm : ∀ o (l : List (Bytes × Bytes)), m.edit m.supplied o l = l)
    (hoperators : r₀.operators = r.operators) (hslots : r₀.slots = r.slots)
    (hcount : r.totalOperatorsCount ≤ r₀.totalOperatorsCount)
    (htotal : (f (r.operators id)).totalSigningKeys = (r.operators id).totalSigningKeys)
    (hused : (f (r.operators id)).usedSigningKeys = (r.operators id).usedSigningKeys) :
    Handled L lido r m (r₀.setOperator id f) := by
  rw [← hoperators] at htotal hused
  refine ⟨hs, ?_, hcount, ?_⟩
  · intro o
    rw [setOperator_field NodeOperator.usedSigningKeys hused, hoperators]
  · intro o
    rw [keys_setOperator htotal, hm]
    exact keys_of_slots_eq (by rw [hoperators]) hslots

theorem removeSigningKey_used {index : ℕ} (h : _removeSigningKey L r o index = .ok r') (i : ℕ) :
    (r'.operators i).usedSigningKeys = (r.operators i).usedSigningKeys := by
  obtain ⟨_, rfl⟩ := removeSigningKey_record h
  exact setOperator_field NodeOperator.usedSigningKeys rfl i

theorem removeSigningKey_count {index : ℕ} (h : _removeSigningKey L r o index = .ok r') :
    r'.totalOperatorsCount = r.totalOperatorsCount := by
  obtain ⟨_, rfl⟩ := removeSigningKey_record h
  rfl

theorem removeKeys_ok {index amount : ℕ} (hs : Sane lido r)
    (h : removeKeys L o index amount r = .ok r') :
    (∀ i, (r'.operators i).usedSigningKeys = (r.operators i).usedSigningKeys) ∧
    r'.totalOperatorsCount = r.totalOperatorsCount ∧
    keys L r' o = swapRemoves index amount (keys L r o) ∧
    ∀ i, i ≠ o → keys L r' i = keys L r i := by
  induction amount generalizing r with
  | zero =>
    cases h
    exact ⟨fun _ ↦ rfl, rfl, rfl, fun _ _ ↦ rfl⟩
  | succ amount ih =>
    obtain ⟨r₁, hr₁, h⟩ := bind_eq_ok.mp h
    obtain ⟨hused, hcount, hkeys, hothers⟩ := ih (hs.removeSigningKey hr₁) h
    refine ⟨?_, ?_, ?_, ?_⟩
    · intro i
      rw [hused, removeSigningKey_used hr₁]
    · rw [hcount, removeSigningKey_count hr₁]
    · rw [hkeys, keys_removeSigningKey hs hr₁, swapRemoves]
    · intro i hi
      rw [hothers i hi, keys_removeSigningKey_of_ne hs hr₁ hi]

theorem removeKeys_bounds {index n : ℕ} (h : removeKeys L o index n r = .ok r') :
    ∀ j < n, index + j < (r.operators o).totalSigningKeys ∧
      (r.operators o).usedSigningKeys ≤ index + j := by
  induction n generalizing r with
  | zero =>
    intro j hj
    exact absurd hj (Nat.not_lt_zero j)
  | succ n ih =>
    obtain ⟨r₁, hr₁, h⟩ := bind_eq_ok.mp h
    obtain ⟨_, hlt, hle, _⟩ := _removeSigningKey_ok hr₁
    intro j hj
    rcases Nat.lt_succ_iff_lt_or_eq.mp hj with hj | rfl
    · have hused := (ih h j hj).2
      rw [removeSigningKey_used hr₁] at hused
      exact ⟨by omega, hused⟩
    · exact ⟨hlt, hle⟩

def Message.adds : Message → Option (ℕ × ℕ × Bytes × Bytes)
  | .addSigningKeys operatorId quantity pubkeys signatures
  | .addSigningKeysOperatorBH operatorId quantity pubkeys signatures =>
    some (operatorId, quantity, pubkeys, signatures)
  | _ => none

def Message.removes : Message → Option (ℕ × ℕ × ℕ)
  | .removeSigningKey operatorId index | .removeSigningKeyOperatorBH operatorId index =>
    some (operatorId, index, 1)
  | .removeSigningKeys operatorId index amount
  | .removeSigningKeysOperatorBH operatorId index amount => some (operatorId, index, amount)
  | _ => none

theorem Message.eq_of_adds {quantity : ℕ} {pubkeys signatures : Bytes}
    (hm : m.adds = some (o, quantity, pubkeys, signatures)) :
    m = .addSigningKeys o quantity pubkeys signatures ∨
      m = .addSigningKeysOperatorBH o quantity pubkeys signatures := by
  cases m with
  | addSigningKeys _ _ _ _ =>
    cases hm
    exact .inl rfl
  | addSigningKeysOperatorBH _ _ _ _ =>
    cases hm
    exact .inr rfl
  | _ => cases hm

theorem Message.eq_of_removes {index amount : ℕ} (hm : m.removes = some (o, index, amount)) :
    ((m = .removeSigningKey o index ∨ m = .removeSigningKeyOperatorBH o index) ∧ amount = 1) ∨
      m = .removeSigningKeys o index amount ∨ m = .removeSigningKeysOperatorBH o index amount := by
  cases m with
  | removeSigningKey _ _ =>
    cases hm
    exact .inl ⟨.inl rfl, rfl⟩
  | removeSigningKeyOperatorBH _ _ =>
    cases hm
    exact .inl ⟨.inr rfl, rfl⟩
  | removeSigningKeys _ _ _ =>
    cases hm
    exact .inr (.inl rfl)
  | removeSigningKeysOperatorBH _ _ _ =>
    cases hm
    exact .inr (.inr rfl)
  | _ => cases hm

theorem Message.edit_of_adds {α : Type} {quantity : ℕ} {pubkeys signatures : Bytes}
    (hm : m.adds = some (o, quantity, pubkeys, signatures)) (supplied : List α) (i : ℕ)
    (l : List α) : m.edit supplied i l = if i = o then l ++ supplied else l := by
  obtain rfl | rfl := Message.eq_of_adds hm
  · rfl
  · rfl

theorem Message.supplied_of_adds {quantity : ℕ} {pubkeys signatures : Bytes}
    (hm : m.adds = some (o, quantity, pubkeys, signatures)) :
    m.supplied = suppliedKeys pubkeys signatures quantity := by
  obtain rfl | rfl := Message.eq_of_adds hm
  · rfl
  · rfl

theorem Message.edit_of_removes {α : Type} {index amount : ℕ}
    (hm : m.removes = some (o, index, amount)) (supplied : List α) (i : ℕ) (l : List α) :
    m.edit supplied i l = if i = o then swapRemoves index amount l else l := by
  obtain ⟨rfl | rfl, rfl⟩ | rfl | rfl := Message.eq_of_removes hm
  all_goals rfl

theorem Handled.addSigningKeys {quantity : ℕ} {pubkeys signatures : Bytes} (hs : Sane lido r)
    (hm : m.adds = some (o, quantity, pubkeys, signatures))
    (hr : _addSigningKeys L r o quantity pubkeys signatures = .ok r') :
    Handled L lido r m r' := by
  obtain ⟨hkeys, hothers⟩ := keys_addSigningKeys hs hr
  have hs' := hs.addSigningKeys hr
  obtain ⟨_, _, _, _, slots, rfl, _⟩ := _addSigningKeys_ok hr
  refine ⟨hs', fun i ↦ setOperator_field NodeOperator.usedSigningKeys rfl i, le_rfl, fun i ↦ ?_⟩
  rw [Message.edit_of_adds hm, Message.supplied_of_adds hm]
  split
  · rename_i hi
    rw [hi, hkeys]
  · rename_i hi
    exact hothers i hi

theorem Handled.removeKeys {index amount : ℕ} (hs : Sane lido r)
    (hm : m.removes = some (o, index, amount)) (hr : removeKeys L o index amount r = .ok r') :
    Handled L lido r m r' := by
  obtain ⟨hused, hcount, hkeys, hothers⟩ := removeKeys_ok hs hr
  refine ⟨hs.removeKeys hr, hused, hcount.ge, fun i ↦ ?_⟩
  rw [Message.edit_of_removes hm]
  split
  · rename_i hi
    rw [hi, hkeys]
  · rename_i hi
    exact hothers i hi

/-- What is behind an accepted message, whoever sent it. -/
inductive Change (L : SigningKeyLayout) (r : NodeOperatorsRegistry) :
    Message → NodeOperatorsRegistry → Prop
  | operatorAdded {name : String} {a : Address} {r' : NodeOperatorsRegistry}
      (h : r.addNodeOperator name a = .ok r') : Change L r (.addNodeOperator name a) r'
  | activitySet {id : ℕ} {active : Bool} {r' : NodeOperatorsRegistry}
      (h : r.setNodeOperatorActive id active = .ok r') :
      Change L r (.setNodeOperatorActive id active) r'
  | renamed {id : ℕ} {name : String} {r' : NodeOperatorsRegistry}
      (h : r.setNodeOperatorName id name = .ok r') : Change L r (.setNodeOperatorName id name) r'
  | addressSet {id : ℕ} {a : Address} {r' : NodeOperatorsRegistry}
      (h : r.setNodeOperatorRewardAddress id a = .ok r') :
      Change L r (.setNodeOperatorRewardAddress id a) r'
  | limitSet {id : ℕ} {n : UInt64} {r' : NodeOperatorsRegistry}
      (h : r.setNodeOperatorStakingLimit id n = .ok r') :
      Change L r (.setNodeOperatorStakingLimit id n) r'
  | stopped {id : ℕ} {n : UInt64} {r' : NodeOperatorsRegistry}
      (h : r.reportStoppedValidators id n = .ok r') : Change L r (.reportStoppedValidators id n) r'
  | trimmed : Change L r .trimUnusedKeys r.trimAll
  | keysAdded {m : Message} {o quantity : ℕ} {pubkeys signatures : Bytes}
      {r' : NodeOperatorsRegistry} (hm : m.adds = some (o, quantity, pubkeys, signatures))
      (h : _addSigningKeys L r o quantity pubkeys signatures = .ok r') : Change L r m r'
  | keysRemoved {m : Message} {o index amount : ℕ} {r' : NodeOperatorsRegistry}
      (hm : m.removes = some (o, index, amount)) (h : removeKeys L o index amount r = .ok r') :
      Change L r m r'
  | keysAssigned {wanted : ℕ} {n : ℕ → ℕ} (hplan : Plan r wanted n)
      (hfair : Fair r r.activeIds n) :
      Change L r (.assignNextSigningKeys wanted) (r.handOut wanted n)

theorem removeKeys_one {index : ℕ} (h : _removeSigningKey L r o index = .ok r') :
    removeKeys L o index 1 r = .ok r' :=
  bind_eq_ok.mpr ⟨r', h, rfl⟩

theorem handle_change {c : Call Role} (h : Sane lido r) (hr : handle L c r m = .ok r') :
    Change L r m r' := by
  cases m with
  | addNodeOperator name rewardAddress =>
    obtain ⟨_, _, hr⟩ := bind_eq_ok.mp hr
    exact .operatorAdded hr
  | setNodeOperatorActive id active =>
    obtain ⟨_, _, hr⟩ := bind_eq_ok.mp hr
    exact .activitySet hr
  | setNodeOperatorName id name =>
    obtain ⟨_, _, hr⟩ := bind_eq_ok.mp hr
    exact .renamed hr
  | setNodeOperatorRewardAddress id rewardAddress =>
    obtain ⟨_, _, hr⟩ := bind_eq_ok.mp hr
    exact .addressSet hr
  | setNodeOperatorStakingLimit id stakingLimit =>
    obtain ⟨_, _, hr⟩ := bind_eq_ok.mp hr
    exact .limitSet hr
  | reportStoppedValidators id stoppedIncrement =>
    obtain ⟨_, _, hr⟩ := bind_eq_ok.mp hr
    exact .stopped hr
  | trimUnusedKeys =>
    obtain ⟨_, rfl⟩ := trimUnusedKeys_ok hr
    exact .trimmed
  | addSigningKeys operatorId quantity pubkeys signatures
  | addSigningKeysOperatorBH operatorId quantity pubkeys signatures =>
    obtain ⟨_, _, hr⟩ := bind_eq_ok.mp hr
    exact .keysAdded rfl hr
  | removeSigningKey operatorId index | removeSigningKeyOperatorBH operatorId index =>
    obtain ⟨_, _, hr⟩ := bind_eq_ok.mp hr
    exact .keysRemoved rfl (removeKeys_one hr)
  | removeSigningKeys operatorId index amount
  | removeSigningKeysOperatorBH operatorId index amount =>
    obtain ⟨_, _, hr⟩ := bind_eq_ok.mp hr
    obtain ⟨_, _, hr⟩ := bind_eq_ok.mp hr
    exact .keysRemoved rfl hr
  | assignNextSigningKeys numKeys =>
    obtain ⟨⟨_, r''⟩, hassign, hr⟩ := bind_eq_ok.mp hr
    cases hr
    have hsender : c.sender = lido := by
      simp only [assignNextSigningKeys, onlyLido, bind_eq_ok, require_eq_ok] at hassign
      obtain ⟨_, hsender, _⟩ := hassign
      exact hsender.trans h.lido_eq
    obtain ⟨n, hplan, hfair, hok⟩ := assignNextSigningKeys_ok (L := L) h numKeys
    rw [hsender, hok] at hassign
    cases hassign
    exact .keysAssigned hplan hfair

/-- The two functions that only the pool can call. -/
def Message.onlyLido : Message → Bool
  | .trimUnusedKeys | .assignNextSigningKeys _ => true
  | _ => false

theorem Message.onlyLido_of_adds {p : ℕ × ℕ × Bytes × Bytes} (hm : m.adds = some p) :
    m.onlyLido = false := by
  obtain rfl | rfl := Message.eq_of_adds hm
  · rfl
  · rfl

theorem Message.onlyLido_of_removes {p : ℕ × ℕ × ℕ} (hm : m.removes = some p) :
    m.onlyLido = false := by
  obtain ⟨rfl | rfl, _⟩ | rfl | rfl := Message.eq_of_removes hm
  all_goals rfl

theorem sender_eq_lido {c : Call Role} (h : Sane lido r) (hr : handle L c r m = .ok r')
    (hm : m.onlyLido = true) : c.sender = lido := by
  cases m with
  | trimUnusedKeys => exact (trimUnusedKeys_ok hr).1.trans h.lido_eq
  | assignNextSigningKeys n =>
    simp only [handle, assignNextSigningKeys, NodeOperatorsRegistry.onlyLido, bind_eq_ok,
      require_eq_ok] at hr
    obtain ⟨_, ⟨_, hl, _⟩, _⟩ := hr
    exact hl.trans h.lido_eq
  | _ => cases hm

theorem Change.sane (h : Sane lido r) (hchange : Change L r m r') : Sane lido r' := by
  cases hchange with
  | operatorAdded hr => exact h.addNodeOperator hr
  | activitySet hr => exact h.setNodeOperatorActive hr
  | renamed hr => exact h.setNodeOperatorName hr
  | addressSet hr => exact h.setNodeOperatorRewardAddress hr
  | limitSet hr => exact h.setNodeOperatorStakingLimit hr
  | stopped hr => exact h.reportStoppedValidators hr
  | trimmed => exact h.trimAll
  | keysAdded _ hr => exact h.addSigningKeys hr
  | keysRemoved _ hr => exact h.removeKeys hr
  | keysAssigned hplan _ => exact (h.useKeys hplan.le_capacity).congr rfl rfl rfl rfl

theorem Change.handled (h : Sane lido r) (hchange : Change L r m r') (hm : m.onlyLido = false) :
    Handled L lido r m r' := by
  have hs := hchange.sane h
  cases hchange with
  | operatorAdded hr =>
    obtain ⟨_, _, rfl⟩ := addNodeOperator_ok hr
    exact .of_setOperator hs (fun _ _ ↦ rfl) rfl rfl (Nat.le_succ _) rfl rfl
  | activitySet hr =>
    obtain ⟨_, _, _, _, rfl⟩ := setNodeOperatorActive_ok hr
    exact .of_setOperator hs (fun _ _ ↦ rfl) rfl rfl le_rfl rfl rfl
  | renamed hr =>
    obtain ⟨_, rfl⟩ := setNodeOperatorName_ok hr
    exact .of_setOperator hs (fun _ _ ↦ rfl) rfl rfl le_rfl rfl rfl
  | addressSet hr =>
    obtain ⟨_, _, rfl⟩ := setNodeOperatorRewardAddress_ok hr
    exact .of_setOperator hs (fun _ _ ↦ rfl) rfl rfl le_rfl rfl rfl
  | limitSet hr =>
    obtain ⟨_, rfl⟩ := setNodeOperatorStakingLimit_ok hr
    exact .of_setOperator hs (fun _ _ ↦ rfl) rfl rfl le_rfl rfl rfl
  | stopped hr =>
    obtain ⟨_, _, rfl⟩ := reportStoppedValidators_ok hr
    exact .of_setOperator hs (fun _ _ ↦ rfl) rfl rfl le_rfl rfl rfl
  | keysAdded hm hr => exact .addSigningKeys h hm hr
  | keysRemoved hm hr => exact .removeKeys h hm hr
  | trimmed | keysAssigned _ _ => cases hm

theorem handle_ok {c : Call Role} (h : Sane lido r) (hsender : c.sender ≠ lido)
    (hr : handle L c r m = .ok r') : Handled L lido r m r' := by
  apply (handle_change h hr).handled h
  cases hm : m.onlyLido with
  | false => rfl
  | true => exact absurd (sender_eq_lido h hr hm) hsender

end Handle

end LidoDao.NodeOperatorsRegistry
