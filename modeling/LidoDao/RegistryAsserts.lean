import LidoDao.JointInvariant

namespace LidoDao

open Evm Library.Outcome Library.ByteWords Library.Transition SafeMath EtherBooks

variable {bad : Revert → Prop} (hb : ∀ r, bad r → r ∈ unreachable)

include hb

namespace NodeOperatorsRegistry

variable {L : SigningKeyLayout} {r : NodeOperatorsRegistry} {lido : Address} {o : ℕ}

theorem operatorExists_avoids : Avoids bad (r.operatorExists o) :=
  avoids_require_of hb (by decide)

section Operators

theorem addNodeOperator_avoids {name : String} {a : Address} :
    Avoids bad (r.addNodeOperator name a) := by
  have ha := arithmetic hb
  simp (disch := decide) [addNodeOperator, validAddress, avoids_bind, not_bad hb, add_avoids ha]

theorem setNodeOperatorActive_avoids {active : Bool} :
    Avoids bad (r.setNodeOperatorActive o active) := by
  have ha := arithmetic hb
  simp only [setNodeOperatorActive, avoids_bind]
  refine ⟨operatorExists_avoids hb, fun _ _ ↦ ⟨avoids_require_of hb (by decide), fun _ _ ↦ ?_⟩⟩
  cases active with
  | true => simp [avoids_bind, add_avoids ha]
  | false => simp [avoids_bind, sub_avoids ha]

theorem setNodeOperatorName_avoids {name : String} :
    Avoids bad (r.setNodeOperatorName o name) := by
  simp (disch := decide) [setNodeOperatorName, avoids_bind, operatorExists_avoids hb, not_bad hb]

theorem setNodeOperatorRewardAddress_avoids {a : Address} :
    Avoids bad (r.setNodeOperatorRewardAddress o a) := by
  simp (disch := decide) [setNodeOperatorRewardAddress, validAddress, avoids_bind,
    operatorExists_avoids hb, not_bad hb]

theorem setNodeOperatorStakingLimit_avoids {n : UInt64} :
    Avoids bad (r.setNodeOperatorStakingLimit o n) := by
  simp (disch := decide) [setNodeOperatorStakingLimit, avoids_bind, operatorExists_avoids hb,
    not_bad hb]

theorem reportStoppedValidators_avoids {n : UInt64} :
    Avoids bad (r.reportStoppedValidators o n) := by
  simp (disch := decide) [reportStoppedValidators, avoids_bind, operatorExists_avoids hb,
    SafeMath64.add_avoids (arithmetic hb), not_bad hb]

theorem trimUnusedKeys_avoids {a : Address} : Avoids bad (r.trimUnusedKeys a) := by
  simp (disch := decide) [trimUnusedKeys, onlyLido, avoids_bind, not_bad hb]

end Operators

section SigningKeys

variable {pubkeys signatures : Bytes}

theorem _storeSigningKey_avoids {i : ℕ} {key signature : Bytes} :
    Avoids bad (_storeSigningKey L r o i key signature) := by
  simp only [_storeSigningKey, avoids_bind]
  exact ⟨avoids_require_of hb (by decide), fun _ _ ↦
    ⟨avoids_require_of hb (by decide), fun _ _ ↦ avoids_ok _⟩⟩

theorem _isEmptySigningKey_avoids {key : Bytes} : Avoids bad (_isEmptySigningKey L key) := by
  simp only [_isEmptySigningKey, avoids_bind]
  exact ⟨avoids_require_of hb (by decide), fun _ _ ↦ avoids_ok _⟩

theorem storeKeys_avoids {n : ℕ} {is : List ℕ} :
    Avoids bad (storeKeys L o n pubkeys signatures is r) := by
  induction is generalizing r with
  | nil => exact avoids_ok _
  | cons i is ih =>
    simp only [storeKeys, avoids_bind]
    exact ⟨bytesSlice_avoids hb, fun _ _ ↦ ⟨_isEmptySigningKey_avoids hb, fun _ _ ↦
      ⟨avoids_require_of hb (by decide), fun _ _ ↦ ⟨bytesSlice_avoids hb, fun _ _ ↦
      ⟨_storeSigningKey_avoids hb, fun _ _ ↦ ih⟩⟩⟩⟩⟩

theorem _addSigningKeys_avoids {quantity : ℕ} :
    Avoids bad (_addSigningKeys L r o quantity pubkeys signatures) := by
  have ha := arithmetic hb
  simp (disch := decide) [_addSigningKeys, to64, avoids_bind, operatorExists_avoids hb, not_bad hb,
    mul_avoids ha, SafeMath64.add_avoids ha, storeKeys_avoids hb]

theorem _removeSigningKey_avoids {index : ℕ} : Avoids bad (_removeSigningKey L r o index) := by
  have ha := arithmetic hb
  simp only [_removeSigningKey, avoids_bind]
  refine ⟨operatorExists_avoids hb, fun _ _ ↦ ⟨avoids_require_of hb (by decide), fun _ _ ↦
    ⟨avoids_require_of hb (by decide), fun _ _ ↦ ⟨SafeMath64.sub_avoids ha, fun _ _ ↦ ?_⟩⟩⟩⟩
  simp [avoids_ite, avoids_bind, _storeSigningKey_avoids hb, SafeMath64.sub_avoids ha]

theorem removeKeys_avoids {index amount : ℕ} : Avoids bad (removeKeys L o index amount r) := by
  induction amount generalizing r with
  | zero => exact avoids_ok _
  | succ amount ih =>
    simp only [removeKeys, avoids_bind]
    exact ⟨_removeSigningKey_avoids hb, fun _ _ ↦ ih⟩

theorem _removeSigningKeys_avoids {index amount : ℕ} :
    Avoids bad (_removeSigningKeys L r o index amount) := by
  simp [_removeSigningKeys, avoids_bind, add_avoids (arithmetic hb), removeKeys_avoids hb]

end SigningKeys

theorem scaleShares_avoids {p : ℕ} {shares : List ℕ} : Avoids bad (scaleShares p shares) := by
  induction shares with
  | nil => exact avoids_ok _
  | cons n shares ih => simp [scaleShares, avoids_bind, mul_avoids (arithmetic hb), ih]

theorem countValidators_avoids {ids : List ℕ} {d : Distribution} :
    Avoids bad (countValidators r ids d) := by
  have ha := arithmetic hb
  induction ids generalizing d with
  | nil => exact avoids_ok _
  | cons id ids ih =>
    simp (disch := decide) [countValidators, avoids_ite, avoids_bind, SafeMath64.sub_avoids ha,
      add_avoids ha, not_bad hb, ih]

theorem getRewardsDistribution_avoids {n : ℕ} : Avoids bad (r.getRewardsDistribution n) := by
  have ha := arithmetic hb
  simp [getRewardsDistribution, avoids_ite, avoids_bind, countValidators_avoids hb, div_avoids ha,
    scaleShares_avoids hb]

theorem handle_avoids {c : Call Role} (hsender : c.sender ≠ r.lido) (m : Message) :
    Avoids bad (handle L c r m) := by
  have hauth (role : Role) (params : List ℕ) : Avoids bad (c.auth role params) :=
    auth_avoids hb c role params
  have hoperator (operatorId : ℕ) : Avoids bad (r.operatorOnly c.sender operatorId) :=
    avoids_require_of hb (by decide)
  cases m with
  | addNodeOperator name rewardAddress =>
    simp [handle, avoids_bind, hauth, addNodeOperator_avoids hb]
  | setNodeOperatorActive id active =>
    simp only [handle, avoids_bind]
    exact ⟨hauth _ _, fun _ _ ↦ setNodeOperatorActive_avoids hb⟩
  | setNodeOperatorName id name =>
    simp [handle, avoids_bind, hauth, setNodeOperatorName_avoids hb]
  | setNodeOperatorRewardAddress id rewardAddress =>
    simp [handle, avoids_bind, hauth, setNodeOperatorRewardAddress_avoids hb]
  | setNodeOperatorStakingLimit id stakingLimit =>
    simp [handle, avoids_bind, hauth, setNodeOperatorStakingLimit_avoids hb]
  | reportStoppedValidators id stoppedIncrement =>
    simp [handle, avoids_bind, hauth, reportStoppedValidators_avoids hb]
  | trimUnusedKeys => exact trimUnusedKeys_avoids hb
  | addSigningKeys operatorId quantity pubkeys signatures =>
    simp [handle, avoids_bind, hauth, _addSigningKeys_avoids hb]
  | addSigningKeysOperatorBH operatorId quantity pubkeys signatures =>
    simp [handle, avoids_bind, hoperator, _addSigningKeys_avoids hb]
  | removeSigningKey operatorId index =>
    simp [handle, avoids_bind, hauth, _removeSigningKey_avoids hb]
  | removeSigningKeyOperatorBH operatorId index =>
    simp [handle, avoids_bind, hoperator, _removeSigningKey_avoids hb]
  | removeSigningKeys operatorId index amount =>
    simp [handle, avoids_bind, hauth, _removeSigningKeys_avoids hb]
  | removeSigningKeysOperatorBH operatorId index amount =>
    simp [handle, avoids_bind, hoperator, _removeSigningKeys_avoids hb]
  | assignNextSigningKeys numKeys =>
    simp (disch := decide) [handle, assignNextSigningKeys, onlyLido, avoids_bind, hsender,
      not_bad hb]

end NodeOperatorsRegistry

open NodeOperatorsRegistry

variable {D : Deployment} {L : SigningKeyLayout} {w : World NodeOperatorsRegistry}

theorem registryContract_spares {r : NodeOperatorsRegistry} (h : r.Sane D.lido) :
    (registryContract D L).Spares bad r := by
  refine ⟨?_, fun _ ↦ getRewardsDistribution_avoids hb, trimUnusedKeys_avoids hb, ?_⟩
  · intro n
    obtain ⟨_, _, _, hok⟩ := assignNextSigningKeys_ok (L := L) h n
    simp only [registryContract, hok]
    exact avoids_ok _
  · intro c
    have hsender : c.sender ≠ r.lido := by
      rw [h.lido_eq]
      exact c.sender_ne_lido
    exact handle_avoids hb hsender c.message

omit hb in
theorem registryContract_answersConsistently {r : NodeOperatorsRegistry} (h : r.Sane D.lido) :
    Lido.AnswersConsistently (registryContract D L) bad r := by
  intro n keys r' hassign
  obtain ⟨plan, _, _, hok⟩ := assignNextSigningKeys_ok (L := L) h n
  have heq := hassign.symm.trans hok
  simp only [Except.ok.injEq, Prod.mk.injEq] at heq
  obtain ⟨rfl, -⟩ := heq
  obtain ⟨hpub, hsig⟩ : ((handedOut L r plan).map Prod.fst).flatten.length =
        (handedOut L r plan).length * Lido.pubkeyLength ∧
      ((handedOut L r plan).map Prod.snd).flatten.length =
        (handedOut L r plan).length * Lido.signatureLength :=
    length_flatten_keys fun k hk ↦ length_of_mem_handedOut hk
  refine .inl ⟨?_, ?_, ?_⟩
  · rw [hpub, Nat.mul_mod_left]
  · rw [hsig, Nat.mul_mod_left]
  · rw [hpub, hsig, Nat.mul_div_cancel _ (by decide), Nat.mul_div_cancel _ (by decide)]

/-- In no reachable state does a call fail at a check that guards the bookkeeping
of the two contracts. -/
theorem jointSystem_avoids (h : Reachable (jointSystem D L) w) (e : Event D (RegistryCall D)) :
    Avoids bad (World.step D (registryContract D L) w e) := by
  have hs := jointSane h
  exact World.step_avoids hb hs.pool.sound (registryContract_spares hb hs.registry)
    (registryContract_answersConsistently hs.registry) e

end LidoDao
