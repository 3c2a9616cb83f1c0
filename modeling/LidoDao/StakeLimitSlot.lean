import LidoDao.StakeLimit

namespace LidoDao.StakeLimit

theorem getLsbD_set (d : Data) {i : ℕ} (hi : i < 256) :
    (setStorageStakeLimitStruct d).getLsbD i =
      if i < 32 then d.prevStakeBlockNumber.getLsbD i
      else if i < 128 then d.prevStakeLimit.getLsbD (i - 32)
      else if i < 160 then d.maxStakeLimitGrowthBlocks.getLsbD (i - 128)
      else d.maxStakeLimit.getLsbD (i - 160) := by
  have hnumber := fun j ↦ BitVec.getLsbD_of_ge d.prevStakeBlockNumber j
  have hlimit := fun j ↦ BitVec.getLsbD_of_ge d.prevStakeLimit j
  have hgrowth := fun j ↦ BitVec.getLsbD_of_ge d.maxStakeLimitGrowthBlocks j
  simp only [setStorageStakeLimitStruct, prevStakeBlockNumberOffset, prevStakeLimitOffset,
    maxStakeLimitGrowthBlocksOffset, maxStakeLimitOffset, BitVec.getLsbD_or,
    BitVec.getLsbD_shiftLeft, BitVec.getLsbD_setWidth, hi, Nat.sub_zero]
  grind

theorem getLsbD_field (slotValue : BitVec 256) (offset : ℕ) {n i : ℕ} (hi : i < n) :
    ((slotValue >>> offset).setWidth n).getLsbD i = slotValue.getLsbD (offset + i) := by
  rw [BitVec.getLsbD_setWidth, BitVec.getLsbD_ushiftRight, decide_eq_true hi, Bool.true_and]

theorem get_set (d : Data) : getStorageStakeLimitStruct (setStorageStakeLimitStruct d) = d := by
  obtain ⟨number, limit, growth, maximum⟩ := d
  rw [getStorageStakeLimitStruct, Data.mk.injEq]
  refine ⟨?_, ?_, ?_, ?_⟩
  all_goals refine BitVec.eq_of_getLsbD_eq fun i hi ↦ ?_
  all_goals rw [getLsbD_field _ _ hi]
  · rw [prevStakeBlockNumberOffset, Nat.zero_add, getLsbD_set _ (by omega), if_pos hi]
  · rw [prevStakeLimitOffset, getLsbD_set _ (by omega), if_neg (by omega), if_pos (by omega),
      Nat.add_sub_cancel_left]
  · rw [maxStakeLimitGrowthBlocksOffset, getLsbD_set _ (by omega), if_neg (by omega),
      if_neg (by omega), if_pos (by omega), Nat.add_sub_cancel_left]
  · rw [maxStakeLimitOffset, getLsbD_set _ (by omega), if_neg (by omega), if_neg (by omega),
      if_neg (by omega), Nat.add_sub_cancel_left]

theorem set_get (slotValue : BitVec 256) :
    setStorageStakeLimitStruct (getStorageStakeLimitStruct slotValue) = slotValue := by
  refine BitVec.eq_of_getLsbD_eq fun i hi ↦ ?_
  rw [getLsbD_set _ hi]
  split_ifs with hnumber hlimit hgrowth
  · exact (getLsbD_field _ 0 hnumber).trans (congrArg _ (Nat.zero_add i))
  · exact (getLsbD_field _ 32 (by omega)).trans (congrArg _ (Nat.add_sub_of_le (by omega)))
  · exact (getLsbD_field _ 128 (by omega)).trans (congrArg _ (Nat.add_sub_of_le (by omega)))
  · exact (getLsbD_field _ 160 (by omega)).trans (congrArg _ (Nat.add_sub_of_le (by omega)))

/-- Read the structure from the slot, change it and write it back. -/
def modifySlot (slotValue : BitVec 256) (f : Data → Data) : BitVec 256 :=
  setStorageStakeLimitStruct (f (getStorageStakeLimitStruct slotValue))

theorem getLsbD_modifySlot {slotValue : BitVec 256} {f : Data → Data} {i : ℕ}
    (hnumber : i < 32 → (f (getStorageStakeLimitStruct slotValue)).prevStakeBlockNumber =
      (getStorageStakeLimitStruct slotValue).prevStakeBlockNumber)
    (hlimit : 32 ≤ i → i < 128 → (f (getStorageStakeLimitStruct slotValue)).prevStakeLimit =
      (getStorageStakeLimitStruct slotValue).prevStakeLimit)
    (hgrowth : 128 ≤ i → i < 160 →
      (f (getStorageStakeLimitStruct slotValue)).maxStakeLimitGrowthBlocks =
        (getStorageStakeLimitStruct slotValue).maxStakeLimitGrowthBlocks)
    (hmaximum : 160 ≤ i → (f (getStorageStakeLimitStruct slotValue)).maxStakeLimit =
      (getStorageStakeLimitStruct slotValue).maxStakeLimit) :
    (modifySlot slotValue f).getLsbD i = slotValue.getLsbD i := by
  by_cases hi : i < 256
  · conv_rhs => rw [← set_get slotValue]
    rw [modifySlot, getLsbD_set _ hi, getLsbD_set _ hi]
    split_ifs with h32 h128 h160
    · rw [hnumber h32]
    · rw [hlimit (by omega) h128]
    · rw [hgrowth (by omega) h160]
    · rw [hmaximum (by omega)]
  · rw [BitVec.getLsbD_of_ge _ _ (by omega), BitVec.getLsbD_of_ge _ _ (by omega)]

/-- The structure and the slot determine each other, and a field that is read, changed and written
back leaves the bits of the others alone. -/
theorem stake_limit_slot_is_a_bijection :
    (∀ d : Data, getStorageStakeLimitStruct (setStorageStakeLimitStruct d) = d) ∧
    (∀ slotValue : BitVec 256,
      setStorageStakeLimitStruct (getStorageStakeLimitStruct slotValue) = slotValue) ∧
    ∀ slotValue : BitVec 256,
      (∀ f : Data → Data, getStorageStakeLimitStruct (modifySlot slotValue f) =
        f (getStorageStakeLimitStruct slotValue)) ∧
      (∀ isPaused blockNumber i, 32 ≤ i →
        (modifySlot slotValue fun d ↦ d.setStakeLimitPauseState isPaused blockNumber).getLsbD i =
          slotValue.getLsbD i) ∧
      (∀ limit i, i < 32 ∨ 128 ≤ i →
        (modifySlot slotValue fun d ↦ { d with prevStakeLimit := limit }).getLsbD i =
          slotValue.getLsbD i) ∧
      (∀ growth i, i < 128 ∨ 160 ≤ i →
        (modifySlot slotValue fun d ↦ { d with maxStakeLimitGrowthBlocks := growth }).getLsbD i =
          slotValue.getLsbD i) ∧
      ∀ maximum i, i < 160 →
        (modifySlot slotValue fun d ↦ { d with maxStakeLimit := maximum }).getLsbD i =
          slotValue.getLsbD i := by
  refine ⟨get_set, set_get, fun slotValue ↦ ⟨fun f ↦ get_set _, ?_, ?_, ?_, ?_⟩⟩
  · intro isPaused blockNumber i hi
    exact getLsbD_modifySlot (fun h ↦ by omega) (fun _ _ ↦ rfl) (fun _ _ ↦ rfl) fun _ ↦ rfl
  · intro limit i hi
    exact getLsbD_modifySlot (fun _ ↦ rfl) (fun h h' ↦ by omega) (fun _ _ ↦ rfl) fun _ ↦ rfl
  · intro growth i hi
    exact getLsbD_modifySlot (fun _ ↦ rfl) (fun _ _ ↦ rfl) (fun h h' ↦ by omega) fun _ ↦ rfl
  · intro maximum i hi
    exact getLsbD_modifySlot (fun _ ↦ rfl) (fun _ _ ↦ rfl) (fun _ _ ↦ rfl) fun h ↦ by omega

end LidoDao.StakeLimit
