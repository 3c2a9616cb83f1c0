import LidoDao.Library.Simulation
import LidoDao.RegistrySystem

namespace LidoDao

open Evm Library.Outcome Library.ByteWords Library.Transition Library.Positions NodeOperatorsRegistry

/-- What an operator's keys are for: a list of them, the first ones of which are used. -/
structure KeyList where
  pairs : List (Bytes × Bytes)
  used : ℕ
  used_le : used ≤ pairs.length

namespace KeyList

def empty : KeyList := ⟨[], 0, le_rfl⟩

variable (l : KeyList)

def append (added : List (Bytes × Bytes)) : KeyList where
  pairs := l.pairs ++ added
  used := l.used
  used_le := by
    rw [List.length_append]
    exact l.used_le.trans (Nat.le_add_right _ _)

def Free (index amount : ℕ) : Prop :=
  ∀ j < amount, l.used ≤ index + j ∧ index + j < l.pairs.length

theorem used_le_removed {index amount : ℕ} (h : l.Free index amount) :
    l.used ≤ (swapRemoves index amount l.pairs).length := by
  rcases Nat.eq_zero_or_pos amount with rfl | hpos
  · exact l.used_le
  · have htake : (swapRemoves index amount l.pairs).take index = l.pairs.take index :=
      take_swapRemoves (fun j hj ↦ (h j hj).2) le_rfl
    have hlength := congrArg List.length htake
    rw [List.length_take, List.length_take] at hlength
    have hfirst := h 0 hpos
    omega

/-- The last key takes the place of a removed one, from the last position down. -/
def remove (index amount : ℕ) (h : l.Free index amount) : KeyList where
  pairs := swapRemoves index amount l.pairs
  used := l.used
  used_le := l.used_le_removed h

def truncate : KeyList where
  pairs := l.pairs.take l.used
  used := l.used
  used_le := by
    rw [List.length_take]
    exact le_min le_rfl l.used_le

def use (n : ℕ) (h : l.used + n ≤ l.pairs.length) : KeyList where
  pairs := l.pairs
  used := l.used + n
  used_le := h

end KeyList

/-- What can happen to the lists of all operators. -/
inductive ListOp
  | append (operatorId : ℕ) (added : List (Bytes × Bytes))
  | remove (operatorId index amount : ℕ)
  | truncate
  | use (n : ℕ → ℕ)
  | other

open scoped Classical in
/-- The registry as a list of keys with a used prefix for each operator. -/
noncomputable def keyLists : Machine (ℕ → KeyList) ListOp Unit where
  initial b := b = fun _ ↦ .empty
  step b op :=
    match op with
    | .append o added => .ok (Function.update b o ((b o).append added))
    | .remove o index amount =>
      if h : (b o).Free index amount then
        .ok (Function.update b o ((b o).remove index amount h))
      else .error ()
    | .truncate => .ok fun o ↦ (b o).truncate
    | .use n =>
      if h : ∀ o, (b o).used + n o ≤ (b o).pairs.length then .ok fun o ↦ (b o).use (n o) (h o)
      else .error ()
    | .other => .ok b

/-- The operation that a message is; `n` are the numbers of keys that are assigned. -/
def NodeOperatorsRegistry.Message.listOp (n : ℕ → ℕ) : Message → ListOp
  | .addSigningKeys operatorId quantity pubkeys signatures
  | .addSigningKeysOperatorBH operatorId quantity pubkeys signatures =>
    .append operatorId (suppliedKeys pubkeys signatures quantity)
  | .removeSigningKey operatorId index | .removeSigningKeyOperatorBH operatorId index =>
    .remove operatorId index 1
  | .removeSigningKeys operatorId index amount
  | .removeSigningKeysOperatorBH operatorId index amount => .remove operatorId index amount
  | .trimUnusedKeys => .truncate
  | .assignNextSigningKeys _ => .use n
  | _ => .other

/-- The storage holds these lists. -/
def Represents (L : SigningKeyLayout) (r : NodeOperatorsRegistry) (b : ℕ → KeyList) : Prop :=
  ∀ o, (b o).pairs = keys L r o ∧ (b o).used = (r.operators o).usedSigningKeys

namespace Represents

variable {L : SigningKeyLayout} {lido : Address} {r r' : NodeOperatorsRegistry} {m : Message}
  {b b' : ℕ → KeyList}

theorem initial : Represents L (initializeRegistry lido) fun _ ↦ .empty := by
  intro o
  exact ⟨rfl, rfl⟩

theorem listOp_of_adds {o quantity : ℕ} {pubkeys signatures : Bytes} (n : ℕ → ℕ)
    (hm : m.adds = some (o, quantity, pubkeys, signatures)) :
    m.listOp n = .append o (suppliedKeys pubkeys signatures quantity) := by
  obtain rfl | rfl := Message.eq_of_adds hm
  · rfl
  · rfl

theorem listOp_of_removes {o index amount : ℕ} (n : ℕ → ℕ)
    (hm : m.removes = some (o, index, amount)) : m.listOp n = .remove o index amount := by
  obtain ⟨rfl | rfl, rfl⟩ | rfl | rfl := Message.eq_of_removes hm
  all_goals rfl

theorem of_handled (h : Represents L r b) (hhandled : Handled L lido r m r')
    (hb : ∀ o, (b' o).pairs = m.edit m.supplied o (b o).pairs ∧ (b' o).used = (b o).used) :
    Represents L r' b' := by
  intro o
  obtain ⟨hpairs, hused⟩ := hb o
  rw [hpairs, hused, hhandled.keys, hhandled.used, (h o).1, (h o).2]
  exact ⟨rfl, rfl⟩

theorem step (h : Represents L r b) (hs : Sane lido r) (hchange : Change L r m r') :
    ∃ n b', keyLists.step b (m.listOp n) = .ok b' ∧ Represents L r' b' := by
  have hhandled := hchange.handled hs
  cases hchange with
  | operatorAdded _ | activitySet _ | renamed _ | addressSet _ | limitSet _ | stopped _ =>
    exact ⟨0, b, rfl, h.of_handled (hhandled rfl) fun _ ↦ ⟨rfl, rfl⟩⟩
  | trimmed =>
    refine ⟨0, _, rfl, fun o ↦ ?_⟩
    rw [keys_trimAll hs, used_trimAll]
    exact ⟨congrArg₂ List.take (h o).2 (h o).1, (h o).2⟩
  | @keysAdded m o quantity pubkeys signatures r' hm hr =>
    have honly := Message.onlyLido_of_adds hm
    refine ⟨0, _, by rw [listOp_of_adds 0 hm]; rfl, h.of_handled (hhandled honly) fun i ↦ ?_⟩
    rw [Message.edit_of_adds hm, Message.supplied_of_adds hm]
    by_cases hi : i = o
    · subst hi
      rw [Function.update_self, if_pos rfl]
      exact ⟨rfl, rfl⟩
    · rw [Function.update_of_ne hi, if_neg hi]
      exact ⟨rfl, rfl⟩
  | @keysRemoved m o index amount r' hm hr =>
    have honly := Message.onlyLido_of_removes hm
    have hfree : (b o).Free index amount := by
      intro j hj
      obtain ⟨hlt, hle⟩ := removeKeys_bounds hr j hj
      rw [(h o).1, (h o).2, length_keys]
      exact ⟨hle, hlt⟩
    refine ⟨0, Function.update b o ((b o).remove index amount hfree), ?_,
      h.of_handled (hhandled honly) fun i ↦ ?_⟩
    · rw [listOp_of_removes 0 hm]
      exact dif_pos hfree
    · rw [Message.edit_of_removes hm]
      by_cases hi : i = o
      · subst hi
        rw [Function.update_self, if_pos rfl]
        exact ⟨rfl, rfl⟩
      · rw [Function.update_of_ne hi, if_neg hi]
        exact ⟨rfl, rfl⟩
  | @keysAssigned wanted n hplan _ =>
    have hroom : ∀ o, (b o).used + n o ≤ (b o).pairs.length := by
      intro o
      rw [(h o).1, (h o).2, length_keys]
      exact used_add_le (hs.valid o) (hplan.le_capacity o)
    refine ⟨n, fun o ↦ (b o).use (n o) (hroom o), dif_pos hroom, fun o ↦ ?_⟩
    have hkeys : keys L (r.handOut wanted n) o = keys L r o := keys_of_slots_eq rfl rfl
    rw [hkeys]
    exact ⟨(h o).1, congrArg (· + n o) (h o).2⟩

end Represents

theorem follows_keyLists (L : SigningKeyLayout) (lido : Address) :
    Simulation (registrySystem L lido) keyLists (Represents L)
      fun e op ↦ ∃ n, op = e.2.listOp n where
  initial := by
    rintro _ rfl
    exact ⟨_, rfl, .initial⟩
  step := by
    intro r e r' b hreach hr h
    obtain ⟨n, b', hb', h'⟩ := h.step (sane hreach) (change hreach hr)
    exact ⟨_, b', ⟨n, rfl⟩, hb', h'⟩

namespace KeyList

variable {b b' : ℕ → KeyList} {op : ListOp}

theorem used_step (h : keyLists.step b op = .ok b') (o : ℕ) :
    (b' o).pairs.take (b o).used = (b o).pairs.take (b o).used ∧ (b o).used ≤ (b' o).used := by
  cases op with
  | append o' added =>
    cases h
    by_cases ho : o = o'
    · subst ho
      rw [Function.update_self]
      exact ⟨List.take_append_of_le_length (b o).used_le, le_rfl⟩
    · rw [Function.update_of_ne ho]
      exact ⟨rfl, le_rfl⟩
  | remove o' index amount =>
    simp only [keyLists] at h
    split at h
    · rename_i hfree
      cases h
      by_cases ho : o = o'
      · subst ho
        rw [Function.update_self]
        refine ⟨?_, le_rfl⟩
        rcases Nat.eq_zero_or_pos amount with rfl | hpos
        · rfl
        · exact take_swapRemoves (fun j hj ↦ (hfree j hj).2) (hfree 0 hpos).1
      · rw [Function.update_of_ne ho]
        exact ⟨rfl, le_rfl⟩
    · cases h
  | truncate =>
    cases h
    exact ⟨(List.take_take ..).trans (congrArg (List.take · _) (min_self _)), le_rfl⟩
  | use n =>
    simp only [keyLists] at h
    split at h
    · cases h
      exact ⟨rfl, Nat.le_add_right _ _⟩
    · cases h
  | other =>
    cases h
    exact ⟨rfl, le_rfl⟩

theorem used_run {ops : List ListOp} (h : execute keyLists b ops = .ok b') (o : ℕ) :
    (b' o).pairs.take (b o).used = (b o).pairs.take (b o).used ∧ (b o).used ≤ (b' o).used := by
  apply execute_induction (p := fun b b' : ℕ → KeyList ↦
    (b' o).pairs.take (b o).used = (b o).pairs.take (b o).used ∧ (b o).used ≤ (b' o).used) ?_ ?_ h
  · intro _
    exact ⟨rfl, le_rfl⟩
  · intro s t u op h hstep
    obtain ⟨htake, hle⟩ := h
    obtain ⟨htake', hle'⟩ := used_step hstep o
    refine ⟨?_, hle.trans hle'⟩
    have hshorter (l : List (Bytes × Bytes)) :
        (l.take (t o).used).take (s o).used = l.take (s o).used := by
      rw [List.take_take, Nat.min_eq_left hle]
    rw [← hshorter, htake', hshorter, htake]

end KeyList

namespace NodeOperatorsRegistry

def Message.operatorId : Message → Option ℕ
  | .setNodeOperatorActive id _ | .setNodeOperatorName id _ | .setNodeOperatorRewardAddress id _
  | .setNodeOperatorStakingLimit id _ | .reportStoppedValidators id _ => some id
  | .addSigningKeys id _ _ _ | .addSigningKeysOperatorBH id _ _ _ => some id
  | .removeSigningKey id _ | .removeSigningKeyOperatorBH id _ => some id
  | .removeSigningKeys id _ _ | .removeSigningKeysOperatorBH id _ _ => some id
  | _ => none

variable {L : SigningKeyLayout} {lido : Address} {r r' : NodeOperatorsRegistry} {m : Message}
  {b b' : ℕ → KeyList} {id i : ℕ}

theorem getSigningKey_eq_ok {out : (Bytes × Bytes) × Bool} :
    getSigningKey L r id i = .ok out ↔ id < r.totalOperatorsCount ∧
      i < (r.operators id).totalSigningKeys ∧
      out = (_loadSigningKey L r id i, decide (i < (r.operators id).usedSigningKeys)) := by
  simp only [getSigningKey, operatorExists, bind_eq_ok, require_eq_ok, exists_const, pure_eq,
    Except.ok.injEq]
  exact and_congr_right fun _ ↦ and_congr_right fun _ ↦ eq_comm

theorem getSigningKey_eq_ok_iff (hs : Sane lido r) (h : Represents L r b)
    {out : (Bytes × Bytes) × Bool} : getSigningKey L r id i = .ok out ↔
      ∃ hi : i < (b id).pairs.length, out = ((b id).pairs[i], decide (i < (b id).used)) := by
  obtain ⟨hpairs, hused⟩ := h id
  have hlength : (b id).pairs.length = (r.operators id).totalSigningKeys := by
    rw [hpairs, length_keys]
  have hget (hi : i < (b id).pairs.length) : (b id).pairs[i] = _loadSigningKey L r id i := by
    simp only [hpairs]
    exact getElem_keys _
  rw [getSigningKey_eq_ok]
  constructor
  · intro h
    obtain ⟨_, hi, rfl⟩ := h
    have hi' : i < (b id).pairs.length := hlength ▸ hi
    exact ⟨hi', by rw [hget hi', hused]⟩
  · intro h
    obtain ⟨hi, rfl⟩ := h
    refine ⟨?_, hlength ▸ hi, by rw [hget hi, hused]⟩
    by_contra hge
    have hnone := (hs.unused id (Nat.not_lt.mp hge)).2
    omega

theorem listOp_other {o : ℕ} {n : ℕ → ℕ} (hm : m.operatorId = some id) (ho : o ≠ id)
    (h : keyLists.step b (m.listOp n) = .ok b') : b' o = b o := by
  have hremove {index amount : ℕ}
      (h : keyLists.step b (.remove id index amount) = .ok b') : b' o = b o := by
    simp only [keyLists] at h
    split at h
    · cases h
      exact Function.update_of_ne ho ..
    · cases h
  cases m with
  | addSigningKeys _ _ _ _ | addSigningKeysOperatorBH _ _ _ _ =>
    cases hm
    cases h
    exact Function.update_of_ne ho ..
  | removeSigningKey _ _ | removeSigningKeyOperatorBH _ _ | removeSigningKeys _ _ _
  | removeSigningKeysOperatorBH _ _ _ =>
    cases hm
    exact hremove h
  | addNodeOperator _ _ | trimUnusedKeys | assignNextSigningKeys _ => cases hm
  | _ =>
    cases h
    rfl

end NodeOperatorsRegistry

/-- Every run of the registry from its initialization is a run of the lists, its keys can
be read back as the lists have them, the used ones stay for good, and what is done to
one operator leaves the keys of the others alone. -/
theorem registry_refines_key_lists {L : SigningKeyLayout} {lido : Address}
    {is : List (Call Role × Message)} {r : NodeOperatorsRegistry}
    (h : execute (registrySystem L lido) (initializeRegistry lido) is = .ok r) :
    ∃ ops b, List.Forall₂ (fun e op ↦ ∃ n, op = e.2.listOp n) is ops ∧
      execute keyLists (fun _ ↦ .empty) ops = .ok b ∧ Represents L r b ∧
      (∀ id i out, getSigningKey L r id i = .ok out ↔
        ∃ hi : i < (b id).pairs.length, out = ((b id).pairs[i], decide (i < (b id).used))) ∧
      (∀ js r', execute (registrySystem L lido) r js = .ok r' →
        ∃ ops' b', List.Forall₂ (fun e op ↦ ∃ n, op = e.2.listOp n) js ops' ∧
          execute keyLists b ops' = .ok b' ∧ Represents L r' b' ∧
          ∀ o, (b' o).pairs.take (b o).used = (b o).pairs.take (b o).used ∧
            (b o).used ≤ (b' o).used) ∧
      ∀ e r', (registrySystem L lido).step r e = .ok r' → ∃ n b',
        keyLists.step b (e.2.listOp n) = .ok b' ∧ Represents L r' b' ∧
        ∀ id, e.2.operatorId = some id → ∀ o, o ≠ id → b' o = b o := by
  have hstart : Reachable (registrySystem L lido) (initializeRegistry lido) := .initial rfl
  have hreach := hstart.execute h
  have hfollows := follows_keyLists L lido
  obtain ⟨ops, b, hops, hb, hr⟩ := hfollows.execute hstart .initial h
  refine ⟨ops, b, hops, hb, hr, fun id i out ↦ getSigningKey_eq_ok_iff (sane hreach) hr, ?_, ?_⟩
  · intro js r' hjs
    obtain ⟨ops', b', hops', hb', hr'⟩ := hfollows.execute hreach hr hjs
    exact ⟨ops', b', hops', hb', hr', KeyList.used_run hb'⟩
  · intro e r' he
    obtain ⟨n, b', hb', hr'⟩ := hr.step (sane hreach) (change hreach he)
    exact ⟨n, b', hb', hr', fun id hid o ho ↦ listOp_other hid ho hb'⟩

namespace Sample

def key (byte : UInt8) : Bytes × Bytes := (List.replicate 48 byte, List.replicate 96 byte)

def removalRun : List (Call Role × Message) := [
  send 5 (.addNodeOperator "first" 11),
  send 5 (.addSigningKeys 0 3 ((key 1).1 ++ (key 2).1 ++ (key 3).1)
    ((key 1).2 ++ (key 2).2 ++ (key 3).2)),
  send 5 (.setNodeOperatorStakingLimit 0 3),
  send 1 (.assignNextSigningKeys 1),
  send 11 (.removeSigningKeyOperatorBH 0 1)]

theorem third_key_moves : ∃ ops b,
    List.Forall₂ (fun e op ↦ ∃ n, op = e.2.listOp n) removalRun ops ∧
      execute keyLists (fun _ ↦ .empty) ops = .ok b ∧
      (b 0).pairs = [key 1, key 3] ∧ (b 0).used = 1 := by
  have hrun : passes (execute (registrySystem layout 1) (initializeRegistry 1) removalRun)
      (fun r ↦ decide (keys layout r 0 = [key 1, key 3] ∧ (r.operators 0).usedSigningKeys = 1)) =
        true := by
    decide +kernel
  obtain ⟨r, h, hp⟩ := exists_of_passes hrun
  obtain ⟨hkeys, hused⟩ := of_decide_eq_true hp
  obtain ⟨ops, b, hops, hb, hr, _⟩ := registry_refines_key_lists h
  exact ⟨ops, b, hops, hb, (hr 0).1.trans hkeys, (hr 0).2.trans hused⟩

end Sample

end LidoDao
