import LidoDao.Evm

namespace LidoDao.StakeLimit

open Evm Library.Outcome

/-- The slot-wide representation of the staking rate limit. Staking is paused
when the block number is zero and unlimited when the maximum is zero. -/
structure Data where
  prevStakeBlockNumber : BitVec 32
  prevStakeLimit : BitVec 96
  maxStakeLimitGrowthBlocks : BitVec 32
  maxStakeLimit : BitVec 96
  deriving DecidableEq

def maxStakeLimitOffset : ℕ := 160

def maxStakeLimitGrowthBlocksOffset : ℕ := 128

def prevStakeLimitOffset : ℕ := 32

def prevStakeBlockNumberOffset : ℕ := 0

def getStorageStakeLimitStruct (slotValue : BitVec 256) : Data where
  prevStakeBlockNumber := (slotValue >>> prevStakeBlockNumberOffset).setWidth 32
  prevStakeLimit := (slotValue >>> prevStakeLimitOffset).setWidth 96
  maxStakeLimitGrowthBlocks := (slotValue >>> maxStakeLimitGrowthBlocksOffset).setWidth 32
  maxStakeLimit := (slotValue >>> maxStakeLimitOffset).setWidth 96

def setStorageStakeLimitStruct (data : Data) : BitVec 256 :=
  data.prevStakeBlockNumber.setWidth 256 <<< prevStakeBlockNumberOffset |||
    data.prevStakeLimit.setWidth 256 <<< prevStakeLimitOffset |||
    data.maxStakeLimitGrowthBlocks.setWidth 256 <<< maxStakeLimitGrowthBlocksOffset |||
    data.maxStakeLimit.setWidth 256 <<< maxStakeLimitOffset

/-- The arithmetic is unchecked, on 256-bit words. -/
def Data.calculateCurrentStakeLimit (data : Data) (blockNumber : ℕ) : ℕ :=
  let stakeLimitIncPerBlock : BitVec 256 :=
    if data.maxStakeLimitGrowthBlocks ≠ 0 then
      (data.maxStakeLimit / data.maxStakeLimitGrowthBlocks.setWidth 96).setWidth 256
    else 0
  let limit : BitVec 256 := data.prevStakeLimit.setWidth 256 +
    (BitVec.ofNat 256 blockNumber - data.prevStakeBlockNumber.setWidth 256) *
      stakeLimitIncPerBlock
  if data.maxStakeLimit.toNat < limit.toNat then data.maxStakeLimit.toNat else limit.toNat

def Data.isStakingPaused (data : Data) : Bool := data.prevStakeBlockNumber == 0

def Data.isStakingLimitSet (data : Data) : Bool := data.maxStakeLimit != 0

def Data.setStakingLimit (data : Data) (maxStakeLimit stakeLimitIncreasePerBlock : ℕ)
    (blockNumber : ℕ) : Except Revert Data := do
  require (maxStakeLimit ≠ 0) (.reason "ZERO_MAX_STAKE_LIMIT")
  require (maxStakeLimit ≤ 2 ^ 96 - 1) (.reason "TOO_LARGE_MAX_STAKE_LIMIT")
  require (stakeLimitIncreasePerBlock ≤ maxStakeLimit) (.reason "TOO_LARGE_LIMIT_INCREASE")
  require (stakeLimitIncreasePerBlock = 0 ∨
    maxStakeLimit / stakeLimitIncreasePerBlock ≤ 2 ^ 32 - 1) (.reason "TOO_SMALL_LIMIT_INCREASE")
  pure {
    prevStakeLimit :=
      if data.maxStakeLimit = 0 ∨ maxStakeLimit < data.prevStakeLimit.toNat then
        BitVec.ofNat 96 maxStakeLimit
      else data.prevStakeLimit
    maxStakeLimitGrowthBlocks :=
      if stakeLimitIncreasePerBlock ≠ 0 then
        BitVec.ofNat 32 (maxStakeLimit / stakeLimitIncreasePerBlock)
      else 0
    maxStakeLimit := BitVec.ofNat 96 maxStakeLimit
    prevStakeBlockNumber :=
      if data.prevStakeBlockNumber ≠ 0 then BitVec.ofNat 32 blockNumber
      else data.prevStakeBlockNumber }

def Data.removeStakingLimit (data : Data) : Data := { data with maxStakeLimit := 0 }

def Data.updatePrevStakeLimit (data : Data) (newPrevStakeLimit blockNumber : ℕ) :
    Except Revert Data := do
  require (newPrevStakeLimit ≤ 2 ^ 96 - 1) (.assertion "updatePrevStakeLimit")
  require (data.prevStakeBlockNumber ≠ 0) (.assertion "updatePrevStakeLimit")
  pure { data with
    prevStakeLimit := BitVec.ofNat 96 newPrevStakeLimit
    prevStakeBlockNumber := BitVec.ofNat 32 blockNumber }

def Data.setStakeLimitPauseState (data : Data) (isPaused : Bool) (blockNumber : ℕ) : Data :=
  { data with prevStakeBlockNumber := BitVec.ofNat 32 (if isPaused then 0 else blockNumber) }

end LidoDao.StakeLimit
