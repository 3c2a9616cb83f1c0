import Mathlib.Data.Finset.Dedup
import LidoDao.DepositSecurityModule
import LidoDao.Library.IndexedArray

namespace LidoDao

open Evm Library.Outcome Library.IndexedArray

namespace DepositSecurityModule

variable {P : Precompiles} {m m' : DepositSecurityModule} {c : ModuleCall} {msg : Message}
  {addr : Address} {newQuorum : ℕ}

/-- What every call keeps true of the module. -/
structure Sane (m : DepositSecurityModule) : Prop where
  owner : m.owner ≠ 0
  distance : 0 < m.minDepositBlockDistance
  validity : 0 < m.pauseIntentValidityPeriodBlocks
  indexes : Indexes m.guardians m.guardianIndicesOneBased
  nonzero : ∀ a ∈ m.guardians, a ≠ 0

theorem constructor_ok {msgSender lido depositContract registry : Address}
    {networkId maxDeposits distance validity : ℕ}
    (h : constructor P msgSender lido depositContract registry networkId maxDeposits distance
      validity = .ok m) :
    m.Sane ∧ m.lido = lido ∧ m.nodeOperatorsRegistry = registry ∧ m.lastDepositBlock = 0 := by
  simp only [constructor, _setOwner, _setMinDepositBlockDistance,
    _setPauseIntentValidityPeriodBlocks, bind_eq_ok, require_eq_ok, exists_const, pure_eq,
    Except.ok.injEq] at h
  obtain ⟨_, _, _, ⟨howner, rfl⟩, _, ⟨hdistance, rfl⟩, hvalidity, rfl⟩ := h
  have hzero : distance ≠ 0 := hdistance.ne'
  refine ⟨⟨?_, ?_, hvalidity, ?_, ?_⟩, ?_, ?_, ?_⟩
  all_goals simp [blank, _setNodeOperatorsRegistry, _setMaxDeposits, hzero, howner, Indexes.nil]
  exact hdistance

section Guardians

def members (m : DepositSecurityModule) : Finset Address := m.guardians.toFinset

theorem mem_members : addr ∈ m.members ↔ addr ∈ m.guardians := List.mem_toFinset

theorem Sane.isGuardian (h : m.Sane) : m._isGuardian addr = true ↔ addr ∈ m.members := by
  rw [_isGuardian, decide_eq_true_eq, mem_members, h.indexes.mem]

theorem _addGuardian_ok (h : m._addGuardian addr = .ok m') :
    addr ≠ 0 ∧ m.guardianIndicesOneBased addr = 0 ∧
      m' = { m with
        guardians := m.guardians ++ [addr]
        guardianIndicesOneBased :=
          Function.update m.guardianIndicesOneBased addr (m.guardians.length + 1) } := by
  simp only [_addGuardian, bind_eq_ok, require_eq_ok, exists_const, pure_eq, Except.ok.injEq,
    List.length_append, List.length_singleton] at h
  obtain ⟨hzero, hnew, rfl⟩ := h
  exact ⟨hzero, by simpa [_isGuardian] using hnew, rfl⟩

theorem Sane._addGuardian (hs : m.Sane) (h : m._addGuardian addr = .ok m') :
    m'.Sane ∧ m'.members = insert addr m.members := by
  obtain ⟨hzero, hnew, rfl⟩ := _addGuardian_ok h
  refine ⟨{ hs with indexes := hs.indexes.push hnew, nonzero := ?_ }, ?_⟩
  · intro a ha
    rcases List.mem_append.mp ha with ha | ha
    · exact hs.nonzero a ha
    · rw [List.mem_singleton.mp ha]
      exact hzero
  · ext a
    simp [members]

/-- Nothing but the guardians differs. -/
def SameButGuardians (m m' : DepositSecurityModule) : Prop :=
  ∃ guardians index quorum, m' = { m with
    guardians, guardianIndicesOneBased := index, quorum }

theorem _addGuardians_ok {addresses : List Address}
    (h : _addGuardians addresses m = .ok m') : SameButGuardians m m' ∧
      (m.Sane → m'.Sane ∧ m'.members = addresses.toFinset ∪ m.members) := by
  induction addresses generalizing m with
  | nil =>
    cases h
    exact ⟨⟨_, _, _, rfl⟩, fun hs ↦ ⟨hs, by simp⟩⟩
  | cons addr addresses ih =>
    obtain ⟨m₁, hm₁, h⟩ := bind_eq_ok.mp h
    obtain ⟨⟨guardians, index, quorum, rfl⟩, hsane⟩ := ih h
    refine ⟨?_, fun hs ↦ ?_⟩
    · obtain ⟨_, _, rfl⟩ := _addGuardian_ok hm₁
      exact ⟨_, _, _, rfl⟩
    · obtain ⟨hs₁, hmembers₁⟩ := hs._addGuardian hm₁
      obtain ⟨hs', hmembers⟩ := hsane hs₁
      refine ⟨hs', ?_⟩
      rw [hmembers, hmembers₁]
      ext a
      simp

theorem guardianAt_eq_ok {i : ℕ} :
    m.guardianAt i = .ok addr ↔ m.guardians[i]? = some addr := by
  rw [guardianAt]
  cases m.guardians[i]? <;> simp

theorem removeGuardian_ok (h : m.removeGuardian addr newQuorum = .ok m') :
    0 < m.guardianIndicesOneBased addr ∧
      ∃ guardians index, m' = { m with
        guardians, quorum := newQuorum
        guardianIndicesOneBased := Function.update index addr 0 } ∧
      ((m.guardianIndicesOneBased addr = m.guardians.length ∧ guardians = m.guardians.dropLast ∧
          index = m.guardianIndicesOneBased) ∨
        (m.guardianIndicesOneBased addr < m.guardians.length ∧
          ∃ last, m.guardians[m.guardians.length - 1]? = some last ∧
            guardians = (m.guardians.set (m.guardianIndicesOneBased addr - 1) last).dropLast ∧
            index = Function.update m.guardianIndicesOneBased last
              (m.guardianIndicesOneBased addr))) := by
  simp only [removeGuardian, bind_eq_ok, require_eq_ok, exists_const, pure_eq,
    _setGuardianQuorum] at h
  obtain ⟨hne, hle, h⟩ := h
  refine ⟨Nat.pos_of_ne_zero hne, ?_⟩
  split at h
  · rename_i hlast
    obtain ⟨last, hget, h⟩ := bind_eq_ok.mp h
    cases h
    exact ⟨_, _, rfl, .inr ⟨by omega, last, guardianAt_eq_ok.mp hget, rfl, rfl⟩⟩
  · rename_i hlast
    cases h
    exact ⟨_, _, rfl, .inl ⟨not_not.mp hlast, rfl, rfl⟩⟩

theorem removeGuardian_same (h : m.removeGuardian addr newQuorum = .ok m') :
    SameButGuardians m m' := by
  obtain ⟨_, guardians, index, rfl, _⟩ := removeGuardian_ok h
  exact ⟨_, _, _, rfl⟩

theorem Sane.removeGuardian_indexes (hs : m.Sane)
    (h : m.removeGuardian addr newQuorum = .ok m') :
    Indexes m'.guardians m'.guardianIndicesOneBased := by
  obtain ⟨hpos, guardians, index, rfl, hcase⟩ := removeGuardian_ok h
  have hindexes := hs.indexes
  have hle := hindexes.le_length addr
  rcases List.eq_nil_or_concat m.guardians with hnil | ⟨items, x, hitems⟩
  · rw [hnil, List.length_nil] at hle
    omega
  · rw [List.concat_eq_append] at hitems
    rw [hitems] at hindexes hcase
    simp only [List.length_append, List.length_singleton, Nat.add_sub_cancel] at hcase
    rcases hcase with ⟨hlast, rfl, rfl⟩ | ⟨hlt, last, hlast, rfl, rfl⟩
    · have hx := (hindexes addr items.length).mpr hlast
      rw [List.getElem?_concat_length, Option.some_inj] at hx
      subst hx
      rw [List.dropLast_concat]
      exact hindexes.pop
    · rw [List.getElem?_concat_length, Option.some_inj] at hlast
      subst hlast
      obtain ⟨i, hi⟩ : ∃ i, m.guardianIndicesOneBased addr = i + 1 :=
        ⟨_, (Nat.sub_add_cancel hpos).symm⟩
      have hlt' : i < items.length := by omega
      rw [hi, Nat.add_sub_cancel, List.set_append_left i _ hlt', List.dropLast_concat]
      exact hindexes.move hi hlt'

theorem Sane.removeGuardian (hs : m.Sane) (h : m.removeGuardian addr newQuorum = .ok m') :
    addr ∈ m.members ∧ m'.Sane ∧ m'.members = m.members.erase addr := by
  have hindexes := hs.removeGuardian_indexes h
  obtain ⟨hpos, guardians, index, rfl, hcase⟩ := removeGuardian_ok h
  have hmembers (a : Address) : a ∈ guardians ↔ a ≠ addr ∧ a ∈ m.guardians := by
    rw [hindexes.mem, hs.indexes.mem]
    dsimp only
    by_cases ha : a = addr
    · subst ha
      simp
    · rw [Function.update_of_ne ha]
      rcases hcase with ⟨_, _, rfl⟩ | ⟨_, last, hlast, _, rfl⟩
      · simp [ha]
      · by_cases hal : a = last
        · subst hal
          have hmem := hs.indexes.mem.mp (List.mem_of_getElem? hlast)
          rw [Function.update_self]
          simp [ha, hmem, hpos]
        · rw [Function.update_of_ne hal]
          simp [ha]
  refine ⟨mem_members.mpr (hs.indexes.mem.mpr hpos), ?_, ?_⟩
  · exact { hs with indexes := hindexes, nonzero := fun a ha ↦ hs.nonzero a ((hmembers a).mp ha).2 }
  · ext a
    rw [Finset.mem_erase, mem_members, mem_members]
    exact hmembers a

end Guardians

theorem pauseDeposits_ok {blockNumber : ℕ} {sig : Signature}
    (h : m.pauseDeposits P c blockNumber sig = .ok m') : m' = m ∨ m' = { m with paused := true } := by
  rw [pauseDeposits] at h
  split at h
  · cases h
    exact .inl rfl
  · dsimp only at h
    split at h
    · simp only [bind_eq_ok, pure_eq, Except.ok.injEq] at h
      obtain ⟨_, _, _, _, _, _, _, _, rfl⟩ := h
      exact .inr rfl
    · simp only [bind_eq_ok, pure_eq, Except.ok.injEq] at h
      obtain ⟨_, _, _, _, rfl⟩ := h
      exact .inr rfl

/-- What a call does: it keeps the module sane and changes only what it is about. -/
structure Handled (m : DepositSecurityModule) (msg : Message) (m' : DepositSecurityModule) :
    Prop where
  sane : m.Sane → m'.Sane
  lido : m'.lido = m.lido
  nodeOperatorsRegistry : (∀ a, msg ≠ .setNodeOperatorsRegistry a) →
    m'.nodeOperatorsRegistry = m.nodeOperatorsRegistry
  lastDepositBlock : (∀ n, msg ≠ .setLastDepositBlock n) →
    m'.lastDepositBlock = m.lastDepositBlock

theorem Handled.of_guardians (hsane : m.Sane → m'.Sane) (h : SameButGuardians m m') :
    Handled m msg m' := by
  obtain ⟨_, _, _, rfl⟩ := h
  exact ⟨hsane, rfl, fun _ ↦ rfl, fun _ ↦ rfl⟩

theorem handle_ok (h : m.handle P c msg = .ok m') : Handled m msg m' := by
  cases msg with
  | setOwner newValue =>
    simp only [handle, _setOwner, bind_eq_ok, require_eq_ok, exists_const, pure_eq,
      Except.ok.injEq] at h
    obtain ⟨_, _, howner, rfl⟩ := h
    exact ⟨fun hs ↦ { hs with owner := howner }, rfl, fun _ ↦ rfl, fun _ ↦ rfl⟩
  | setNodeOperatorsRegistry newValue =>
    obtain ⟨_, _, h⟩ := bind_eq_ok.mp h
    cases h
    exact ⟨fun hs ↦ { hs with }, rfl, fun hne ↦ absurd rfl (hne newValue), fun _ ↦ rfl⟩
  | setPauseIntentValidityPeriodBlocks newValue =>
    simp only [handle, _setPauseIntentValidityPeriodBlocks, bind_eq_ok, require_eq_ok,
      exists_const, pure_eq, Except.ok.injEq] at h
    obtain ⟨_, _, hvalidity, rfl⟩ := h
    exact ⟨fun hs ↦ { hs with validity := hvalidity }, rfl, fun _ ↦ rfl, fun _ ↦ rfl⟩
  | setMaxDeposits newValue =>
    obtain ⟨_, _, h⟩ := bind_eq_ok.mp h
    cases h
    exact ⟨fun hs ↦ { hs with }, rfl, fun _ ↦ rfl, fun _ ↦ rfl⟩
  | setMinDepositBlockDistance newValue =>
    simp only [handle, _setMinDepositBlockDistance, bind_eq_ok, require_eq_ok, exists_const,
      pure_eq, Except.ok.injEq] at h
    obtain ⟨_, _, hdistance, rfl⟩ := h
    split
    · exact ⟨fun hs ↦ { hs with distance := hdistance }, rfl, fun _ ↦ rfl, fun _ ↦ rfl⟩
    · exact ⟨id, rfl, fun _ ↦ rfl, fun _ ↦ rfl⟩
  | setGuardianQuorum newValue =>
    obtain ⟨_, _, h⟩ := bind_eq_ok.mp h
    cases h
    exact ⟨fun hs ↦ { hs with }, rfl, fun _ ↦ rfl, fun _ ↦ rfl⟩
  | addGuardian addr newQuorum =>
    simp only [handle, addGuardian, bind_eq_ok, pure_eq, Except.ok.injEq] at h
    obtain ⟨_, _, m₁, hm₁, rfl⟩ := h
    have hsane (hs : m.Sane) : (m₁._setGuardianQuorum newQuorum).Sane :=
      { (hs._addGuardian hm₁).1 with }
    obtain ⟨_, _, rfl⟩ := _addGuardian_ok hm₁
    exact .of_guardians hsane ⟨_, _, _, rfl⟩
  | addGuardians addresses newQuorum =>
    simp only [handle, addGuardians, bind_eq_ok, pure_eq, Except.ok.injEq] at h
    obtain ⟨_, _, m₁, hm₁, rfl⟩ := h
    obtain ⟨⟨_, _, _, rfl⟩, hsane⟩ := _addGuardians_ok hm₁
    exact .of_guardians (fun hs ↦ { (hsane hs).1 with }) ⟨_, _, _, rfl⟩
  | removeGuardian addr newQuorum =>
    obtain ⟨_, _, h⟩ := bind_eq_ok.mp h
    exact .of_guardians (fun hs ↦ (hs.removeGuardian h).2.1) (removeGuardian_same h)
  | pauseDeposits blockNumber sig =>
    rcases pauseDeposits_ok h with rfl | rfl
    · exact ⟨id, rfl, fun _ ↦ rfl, fun _ ↦ rfl⟩
    · exact ⟨fun hs ↦ { hs with }, rfl, fun _ ↦ rfl, fun _ ↦ rfl⟩
  | unpauseDeposits =>
    obtain ⟨_, _, h⟩ := bind_eq_ok.mp h
    cases h
    rw [unpauseDeposits]
    split
    · exact ⟨fun hs ↦ { hs with }, rfl, fun _ ↦ rfl, fun _ ↦ rfl⟩
    · exact ⟨id, rfl, fun _ ↦ rfl, fun _ ↦ rfl⟩
  | setLastDepositBlock newLastDepositBlock =>
    obtain ⟨_, _, h⟩ := bind_eq_ok.mp h
    cases h
    exact ⟨fun hs ↦ { hs with }, rfl, fun _ ↦ rfl, fun hne ↦ absurd rfl (hne newLastDepositBlock)⟩

end DepositSecurityModule

end LidoDao
