import LidoDao.GuardedDeposits

namespace LidoDao

open Evm Library.Outcome Library.Transition

namespace DepositSecurityModule

variable {P : Precompiles} {m m' : DepositSecurityModule} {c : ModuleCall}
  {addr : Address} {newQuorum : ℕ}

/-- New guardians, none of them twice. -/
structure Addable (m : DepositSecurityModule) (addresses : List Address) : Prop where
  nodup : addresses.Nodup
  nonzero : 0 ∉ addresses
  new : ∀ a ∈ addresses, a ∉ m.members

theorem Sane._addGuardian_isOk (hs : m.Sane) :
    (∃ m', m._addGuardian addr = .ok m') ↔ addr ≠ 0 ∧ addr ∉ m.members := by
  have hguardian : (!m._isGuardian addr) = true ↔ addr ∉ m.members := by
    rw [Bool.not_eq_true', ← Bool.not_eq_true, hs.isGuardian]
  simp only [DepositSecurityModule._addGuardian, bind_eq_ok, require_eq_ok, exists_const, pure_eq,
    hguardian]
  exact ⟨fun ⟨_, hzero, hnew, _⟩ ↦ ⟨hzero, hnew⟩, fun ⟨hzero, hnew⟩ ↦ ⟨_, hzero, hnew, rfl⟩⟩

theorem addable_cons {m₁ : DepositSecurityModule} {addresses : List Address}
    (h : m₁.members = insert addr m.members) :
    m.Addable (addr :: addresses) ↔
      (addr ≠ 0 ∧ addr ∉ m.members) ∧ m₁.Addable addresses := by
  constructor
  · intro h'
    obtain ⟨hnodup, hzero, hnew⟩ := h'
    obtain ⟨hnotin, hnodup⟩ := List.nodup_cons.mp hnodup
    refine ⟨⟨fun hz ↦ hzero (hz ▸ List.mem_cons_self), hnew _ List.mem_cons_self⟩, hnodup,
      fun hz ↦ hzero (List.mem_cons_of_mem _ hz), fun a ha hmem ↦ ?_⟩
    rcases Finset.mem_insert.mp (h ▸ hmem) with rfl | hold
    · exact hnotin ha
    · exact hnew a (List.mem_cons_of_mem _ ha) hold
  · intro h'
    obtain ⟨⟨hzero, hnotin⟩, hnodup, hzeros, hnew⟩ := h'
    refine ⟨List.nodup_cons.mpr ⟨fun hmem ↦ ?_, hnodup⟩, fun hz ↦ ?_, fun a ha hold ↦ ?_⟩
    · exact hnew addr hmem (h ▸ Finset.mem_insert_self _ _)
    · rcases List.mem_cons.mp hz with heq | hz
      · exact hzero heq.symm
      · exact hzeros hz
    · rcases List.mem_cons.mp ha with rfl | ha
      · exact hnotin hold
      · exact hnew a ha (h ▸ Finset.mem_insert_of_mem hold)

theorem Sane._addGuardians_isOk (hs : m.Sane) {addresses : List Address} :
    (∃ m', _addGuardians addresses m = .ok m') ↔ m.Addable addresses := by
  induction addresses generalizing m with
  | nil => exact ⟨fun _ ↦ ⟨List.nodup_nil, by simp, by simp⟩, fun _ ↦ ⟨m, rfl⟩⟩
  | cons addr addresses ih =>
    constructor
    · intro h
      obtain ⟨m', h⟩ := h
      obtain ⟨m₁, hm₁, h⟩ := bind_eq_ok.mp h
      obtain ⟨hs₁, hmembers⟩ := hs._addGuardian hm₁
      exact (addable_cons hmembers).mpr
        ⟨hs._addGuardian_isOk.mp ⟨m₁, hm₁⟩, (ih hs₁).mp ⟨m', h⟩⟩
    · intro h
      have hfirst : addr ≠ 0 ∧ addr ∉ m.members :=
        ⟨fun hz ↦ h.nonzero (hz ▸ List.mem_cons_self), h.new _ List.mem_cons_self⟩
      obtain ⟨m₁, hm₁⟩ := hs._addGuardian_isOk.mpr hfirst
      obtain ⟨hs₁, hmembers⟩ := hs._addGuardian hm₁
      obtain ⟨m', hm'⟩ := (ih hs₁).mpr ((addable_cons hmembers).mp h).2
      exact ⟨m', bind_eq_ok.mpr ⟨m₁, hm₁, hm'⟩⟩

theorem Sane.removeGuardian_isOk (hs : m.Sane) (hmem : addr ∈ m.members) (newQuorum : ℕ) :
    ∃ m', m.removeGuardian addr newQuorum = .ok m' := by
  have hpos : 0 < m.guardianIndicesOneBased addr := hs.indexes.mem.mp (mem_members.mp hmem)
  have hle := hs.indexes.le_length addr
  simp only [DepositSecurityModule.removeGuardian, require_of hpos.ne', require_of hle, ok_bind]
  split
  · have hlast : m.guardians.length - 1 < m.guardians.length := by omega
    have hget : m.guardianAt (m.guardians.length - 1) = .ok m.guardians[m.guardians.length - 1] :=
      guardianAt_eq_ok.mpr (List.getElem?_eq_getElem hlast)
    rw [hget]
    exact ⟨_, rfl⟩
  · exact ⟨_, rfl⟩

theorem Sane.removeGuardian_isOk_iff (hs : m.Sane) :
    (∃ m', m.removeGuardian addr newQuorum = .ok m') ↔ addr ∈ m.members :=
  ⟨fun ⟨_, h⟩ ↦ (hs.removeGuardian h).1, fun hmem ↦ hs.removeGuardian_isOk hmem newQuorum⟩

theorem Sane.removeGuardian_avoids (hs : m.Sane) :
    Avoids (· = .assertion "removeGuardian") (m.removeGuardian addr newQuorum) := by
  by_cases hmem : addr ∈ m.members
  · obtain ⟨m', hm'⟩ := hs.removeGuardian_isOk hmem newQuorum
    rw [hm']
    exact avoids_ok m'
  · have hzero : m.guardianIndicesOneBased addr = 0 := by
      rw [mem_members, hs.indexes.mem] at hmem
      exact Nat.eq_zero_of_not_pos hmem
    intro e he
    rw [DepositSecurityModule.removeGuardian, hzero] at he
    cases he
    simp

theorem handle_addGuardians {addresses : List Address} :
    m.handle P c (.addGuardians addresses newQuorum) = .ok m' ↔ c.sender = m.owner ∧
      ∃ m₁, _addGuardians addresses m = .ok m₁ ∧ m' = m₁._setGuardianQuorum newQuorum := by
  simp only [handle, addGuardians, onlyOwner, bind_eq_ok, require_eq_ok, exists_const, pure_eq,
    Except.ok.injEq]
  exact and_congr_right fun _ ↦ exists_congr fun m₁ ↦ and_congr_right fun _ ↦ eq_comm

theorem Sane.handle_addGuardians_isOk (hs : m.Sane) {addresses : List Address} :
    (∃ m', m.handle P c (.addGuardians addresses newQuorum) = .ok m') ↔
      c.sender = m.owner ∧ m.Addable addresses := by
  rw [← hs._addGuardians_isOk]
  constructor
  · intro h
    obtain ⟨m', h⟩ := h
    obtain ⟨howner, m₁, hm₁, _⟩ := handle_addGuardians.mp h
    exact ⟨howner, m₁, hm₁⟩
  · intro h
    obtain ⟨howner, m₁, hm₁⟩ := h
    exact ⟨_, handle_addGuardians.mpr ⟨howner, m₁, hm₁, rfl⟩⟩

theorem Sane.handle_addGuardians_members (hs : m.Sane) {addresses : List Address}
    (h : m.handle P c (.addGuardians addresses newQuorum) = .ok m') :
    m'.members = m.members ∪ addresses.toFinset := by
  obtain ⟨_, m₁, hm₁, rfl⟩ := handle_addGuardians.mp h
  exact ((_addGuardians_ok hm₁).2 hs).2.trans (Finset.union_comm _ _)

theorem handle_removeGuardian :
    m.handle P c (.removeGuardian addr newQuorum) = .ok m' ↔
      c.sender = m.owner ∧ m.removeGuardian addr newQuorum = .ok m' := by
  simp only [handle, onlyOwner, bind_eq_ok, require_eq_ok, exists_const]

theorem Sane.handle_removeGuardian_isOk (hs : m.Sane) :
    (∃ m', m.handle P c (.removeGuardian addr newQuorum) = .ok m') ↔
      c.sender = m.owner ∧ addr ∈ m.members := by
  simp only [handle_removeGuardian, exists_and_left, hs.removeGuardian_isOk_iff]

theorem Sane.handle_removeGuardian_avoids (hs : m.Sane) :
    Avoids (· = .assertion "removeGuardian")
      (m.handle P c (.removeGuardian addr newQuorum)) := by
  simp [handle, onlyOwner, avoids_bind, hs.removeGuardian_avoids]

end DepositSecurityModule

namespace GuardedWorld

variable {D : Deployment} {L : SigningKeyLayout} {G : Guarding} {s s' : GuardedWorld}
  {c : ModuleCall} {msg : DepositSecurityModule.Message}

theorem step_dsm : (guardedSystem D L G).step s (.dsm c msg) = .ok s' ↔
    ∃ dsm, s.dsm.handle G.precompiles c msg = .ok dsm ∧ s' = { s with dsm } := by
  simp only [guardedSystem, step, bind_eq_ok, pure_eq, Except.ok.injEq]
  exact exists_congr fun dsm ↦ and_congr_right fun _ ↦ eq_comm

theorem isOk_dsm : (∃ s', (guardedSystem D L G).step s (.dsm c msg) = .ok s') ↔
    ∃ dsm, s.dsm.handle G.precompiles c msg = .ok dsm := by
  constructor
  · intro h
    obtain ⟨s', hstep⟩ := h
    obtain ⟨dsm, hdsm, _⟩ := step_dsm.mp hstep
    exact ⟨dsm, hdsm⟩
  · intro h
    obtain ⟨dsm, hdsm⟩ := h
    exact ⟨_, step_dsm.mpr ⟨dsm, hdsm, rfl⟩⟩

end GuardedWorld

/-- The array and the index of the guardians always represent one set, which additions and
removals change as sets; the assertion in a removal never fails. -/
theorem guardians_are_a_set {D : Deployment} {L : SigningKeyLayout} {G : Guarding}
    {s : GuardedWorld} (h : Reachable (guardedSystem D L G) s) :
    (s.dsm.guardians.Nodup ∧ 0 ∉ s.dsm.guardians ∧
      (∀ a i, s.dsm.guardians[i]? = some a → s.dsm.guardianIndicesOneBased a = i + 1) ∧
      ∀ a, a ∉ s.dsm.guardians → s.dsm.guardianIndicesOneBased a = 0) ∧
    (∀ c addr newQuorum,
      (guardedSystem D L G).step s (.dsm c (.removeGuardian addr newQuorum)) ≠
        .error (.assertion "removeGuardian")) ∧
    (∀ c addresses newQuorum,
      ((∃ s', (guardedSystem D L G).step s (.dsm c (.addGuardians addresses newQuorum)) = .ok s') ↔
        c.sender = s.dsm.owner ∧ addresses.Nodup ∧ 0 ∉ addresses ∧
          ∀ a ∈ addresses, a ∉ s.dsm.members) ∧
      ∀ s', (guardedSystem D L G).step s (.dsm c (.addGuardians addresses newQuorum)) = .ok s' →
        s'.dsm.members = s.dsm.members ∪ addresses.toFinset) ∧
    ∀ c addr newQuorum,
      ((∃ s', (guardedSystem D L G).step s (.dsm c (.removeGuardian addr newQuorum)) = .ok s') ↔
        c.sender = s.dsm.owner ∧ addr ∈ s.dsm.members) ∧
      ∀ s', (guardedSystem D L G).step s (.dsm c (.removeGuardian addr newQuorum)) = .ok s' →
        s'.dsm.members = s.dsm.members.erase addr := by
  have hs := GuardedWorld.sane_dsm h
  refine ⟨⟨hs.indexes.nodup, fun hzero ↦ hs.nonzero 0 hzero rfl, fun a i ↦ (hs.indexes a i).mp,
    fun a ha ↦ ?_⟩, fun c addr newQuorum herror ↦ ?_, fun c addresses newQuorum ↦ ⟨?_, ?_⟩,
    fun c addr newQuorum ↦ ⟨?_, ?_⟩⟩
  · exact Nat.eq_zero_of_not_pos fun hpos ↦ ha (hs.indexes.mem.mpr hpos)
  · have havoids : Avoids (· = .assertion "removeGuardian")
        ((guardedSystem D L G).step s (.dsm c (.removeGuardian addr newQuorum))) := by
      simp [guardedSystem, GuardedWorld.step, avoids_bind, hs.handle_removeGuardian_avoids, pure_eq]
    exact havoids _ herror rfl
  · rw [GuardedWorld.isOk_dsm, hs.handle_addGuardians_isOk]
    exact and_congr_right fun _ ↦ ⟨fun h ↦ ⟨h.nodup, h.nonzero, h.new⟩,
      fun ⟨hnodup, hzero, hnew⟩ ↦ ⟨hnodup, hzero, hnew⟩⟩
  · intro s' hstep
    obtain ⟨_, hdsm, rfl⟩ := GuardedWorld.step_dsm.mp hstep
    exact hs.handle_addGuardians_members hdsm
  · rw [GuardedWorld.isOk_dsm, hs.handle_removeGuardian_isOk]
  · intro s' hstep
    obtain ⟨_, hdsm, rfl⟩ := GuardedWorld.step_dsm.mp hstep
    exact (hs.removeGuardian (DepositSecurityModule.handle_removeGuardian.mp hdsm).2).2.2

namespace Sample

/-- One of three guardians is removed, and two others are added. -/
theorem twelve_of_three_is_removed : ∃ s s' s'',
    Reachable (guardedSystem deployment layout guarding) s ∧ s.dsm.members = {11, 12, 13} ∧
    (guardedSystem deployment layout guarding).step s (.dsm (moduleCall 19)
      (.removeGuardian 12 2)) = .ok s' ∧ s'.dsm.members = {11, 13} ∧
    (guardedSystem deployment layout guarding).step s (.dsm (moduleCall 19)
      (.addGuardians [14, 15] 3)) = .ok s'' ∧ s''.dsm.members = {11, 12, 13, 14, 15} := by
  obtain ⟨s, hs, hq⟩ := guarded_of_run (q := fun s ↦
    decide (s.dsm.owner = 5 ∧ s.dsm.members = {11, 12, 13})) (by decide +kernel)
  obtain ⟨howner, hmembers⟩ := of_decide_eq_true hq
  obtain ⟨_, _, hadd, hremove⟩ := guardians_are_a_set hs
  obtain ⟨hremoved, hafter⟩ := hremove (moduleCall 19) 12 2
  obtain ⟨s', hs'⟩ := hremoved.mpr ⟨howner.symm, by rw [hmembers]; decide⟩
  obtain ⟨hadded, hunion⟩ := hadd (moduleCall 19) [14, 15] 3
  have hnew : ∀ a ∈ [14, 15], a ∉ s.dsm.members := by
    rw [hmembers, List.forall_mem_cons, List.forall_mem_singleton]
    decide
  obtain ⟨s'', hs''⟩ := hadded.mpr ⟨howner.symm, by decide, by decide, hnew⟩
  refine ⟨s, s', s'', hs, hmembers, hs', ?_, hs'', ?_⟩
  · rw [hafter s' hs', hmembers]
    decide
  · rw [hunion s'' hs'', hmembers]
    decide

end Sample

end LidoDao
