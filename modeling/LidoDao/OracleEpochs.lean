import LidoDao.LidoOracle

namespace LidoDao

open Evm Library.Outcome

namespace BeaconSpec

/-- The product that the oracle divides by, on 64-bit words. -/
def secondsPerEpoch (spec : BeaconSpec) : ℕ := (spec.slotsPerEpoch * spec.secondsPerSlot).toNat

/-- A second of the frame that starts with this epoch. -/
def InFrame (spec : BeaconSpec) (first : ℕ) (time : UInt64) : Prop :=
  spec.genesisTime ≤ time ∧ ∃ current, LidoOracle._getCurrentEpochId spec time = .ok current ∧
    LidoOracle._getFrameFirstEpochId current spec = .ok first

end BeaconSpec

namespace LidoOracle

variable {spec : BeaconSpec} {time : UInt64} {current first epochId : ℕ}

theorem word_lt_wordLimit (x : UInt64) : x.toNat < wordLimit := by
  have hword : 2 ^ 64 < wordLimit := by decide +kernel
  exact x.toNat_lt.trans hword

theorem _getCurrentEpochId_ok (hgenesis : spec.genesisTime ≤ time)
    (h : _getCurrentEpochId spec time = .ok current) : 0 < spec.secondsPerEpoch ∧
      current = (time.toNat - spec.genesisTime.toNat) / spec.secondsPerEpoch := by
  simp only [_getCurrentEpochId, bind_eq_ok, require_eq_ok, exists_const, pure_eq,
    Except.ok.injEq] at h
  obtain ⟨hne, rfl⟩ := h
  have hle := UInt64.le_iff_toNat_le.mp hgenesis
  have hlt := word_lt_wordLimit time
  refine ⟨Nat.pos_of_ne_zero fun hzero ↦ hne (UInt64.toNat_inj.mp hzero), ?_⟩
  have heq : time.toNat + wordLimit - spec.genesisTime.toNat =
      time.toNat - spec.genesisTime.toNat + wordLimit := by omega
  have hsmall : time.toNat - spec.genesisTime.toNat < wordLimit := by omega
  rw [heq, Nat.add_mod_right, Nat.mod_eq_of_lt hsmall, BeaconSpec.secondsPerEpoch]

theorem current_lt (hgenesis : spec.genesisTime ≤ time)
    (h : _getCurrentEpochId spec time = .ok current) : current < 2 ^ 64 := by
  obtain ⟨_, rfl⟩ := _getCurrentEpochId_ok hgenesis h
  exact (Nat.div_le_self _ _).trans_lt ((Nat.sub_le _ _).trans_lt time.toNat_lt)

theorem _getFrameFirstEpochId_ok (h : _getFrameFirstEpochId epochId spec = .ok first) :
    0 < spec.epochsPerFrame.toNat ∧
      first = epochId / spec.epochsPerFrame.toNat * spec.epochsPerFrame.toNat := by
  simp only [_getFrameFirstEpochId, bind_eq_ok, require_eq_ok, exists_const, pure_eq,
    Except.ok.injEq] at h
  obtain ⟨hne, rfl⟩ := h
  exact ⟨Nat.pos_of_ne_zero fun hzero ↦ hne (UInt64.toNat_inj.mp hzero), rfl⟩

theorem frameFirst_le (h : _getFrameFirstEpochId epochId spec = .ok first) : first ≤ epochId := by
  obtain ⟨_, rfl⟩ := _getFrameFirstEpochId_ok h
  exact Nat.div_mul_le_self _ _

/-- The epoch after which a push stops is never one that the same frame could report. -/
theorem advanced_ne (hframe : spec.InFrame first time) :
    (epochId + spec.epochsPerFrame.toNat) % wordLimit ≤ epochId →
      (epochId + spec.epochsPerFrame.toNat) % wordLimit < epochId ∧ epochId ≠ first := by
  obtain ⟨hgenesis, current, hcurrent, hfirst⟩ := hframe
  obtain ⟨hpos, _⟩ := _getFrameFirstEpochId_ok hfirst
  have hlt := (frameFirst_le hfirst).trans_lt (current_lt hgenesis hcurrent)
  have hepochs := spec.epochsPerFrame.toNat_lt
  have hword : 2 ^ 65 < wordLimit := by decide +kernel
  intro hle
  refine ⟨Nat.lt_of_le_of_ne hle fun heq ↦ ?_, ?_⟩
  · have hsmall : epochId < wordLimit := by
      rw [← heq]
      exact Nat.mod_lt _ (by omega)
    rcases Nat.lt_or_ge (epochId + spec.epochsPerFrame.toNat) wordLimit with h | h
    · rw [Nat.mod_eq_of_lt h] at heq
      omega
    · rw [Nat.mod_eq_sub_mod h, Nat.mod_eq_of_lt (by omega)] at heq
      omega
  · rintro rfl
    rw [Nat.mod_eq_of_lt (by omega)] at hle
    omega

end LidoOracle

end LidoDao
