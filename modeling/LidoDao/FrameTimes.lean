import Mathlib.Data.UInt
import LidoDao.Library.TimeGrid
import LidoDao.OracleChanges
import LidoDao.OracleEpochs

namespace LidoDao

open Evm Library.Outcome Library.TimeGrid

structure Frame where
  frameEpochId : ℕ
  frameStartTime : ℕ
  frameEndTime : ℕ
  deriving DecidableEq

namespace LidoOracle

/-- `_getCurrentEpochId` at any word for a timestamp. -/
def currentEpochIdAt (spec : BeaconSpec) (time : ℕ) : Except Revert ℕ := do
  let secondsPerEpoch := spec.slotsPerEpoch * spec.secondsPerSlot
  require (secondsPerEpoch ≠ 0) (.assertion "_getCurrentEpochId")
  pure ((time + wordLimit - spec.genesisTime.toNat) % wordLimit / secondsPerEpoch.toNat)

theorem currentEpochIdAt_toNat (spec : BeaconSpec) (time : UInt64) :
    currentEpochIdAt spec time.toNat = _getCurrentEpochId spec time := rfl

variable (o : LidoOracle)

def getCurrentEpochId (time : ℕ) : Except Revert ℕ := currentEpochIdAt o._getBeaconSpec time

/-- Like the number of the epoch, times are computed from a product on 64-bit words. -/
def getCurrentFrame (time : ℕ) : Except Revert Frame := do
  let spec := o._getBeaconSpec
  let genesisTime := spec.genesisTime
  let secondsPerEpoch := spec.secondsPerSlot * spec.slotsPerEpoch
  let current ← currentEpochIdAt spec time
  let frameEpochId ← _getFrameFirstEpochId current spec
  pure {
    frameEpochId
    frameStartTime := (frameEpochId * secondsPerEpoch.toNat + genesisTime.toNat) % wordLimit
    frameEndTime := ((frameEpochId + spec.epochsPerFrame.toNat) * secondsPerEpoch.toNat +
      genesisTime.toNat + wordLimit - 1) % wordLimit }

end LidoOracle

namespace BeaconSpec

def epochSeconds (spec : BeaconSpec) : ℕ := spec.slotsPerEpoch.toNat * spec.secondsPerSlot.toNat

def epochAt (spec : BeaconSpec) (time : ℕ) : ℕ :=
  (time - spec.genesisTime.toNat) / spec.epochSeconds

/-- The number of seconds of an epoch is a 64-bit word and the end of the frame a 256-bit one, or
the time is in the first epoch as the oracle computes it. -/
def FitsAt (spec : BeaconSpec) (time : ℕ) : Prop :=
  (spec.epochSeconds < 2 ^ 64 ∧
    (spec.epochAt time / spec.epochsPerFrame.toNat + 1) *
      (spec.epochSeconds * spec.epochsPerFrame.toNat) + spec.genesisTime.toNat ≤ 2 ^ 256) ∨
  time - spec.genesisTime.toNat < spec.epochSeconds % 2 ^ 64

def frames (spec : BeaconSpec) (hpos : 0 < spec.secondsPerEpoch)
    (hframe : 0 < spec.epochsPerFrame.toNat) : Grid where
  origin := spec.genesisTime.toNat
  length := spec.secondsPerEpoch * spec.epochsPerFrame.toNat
  length_pos := Nat.mul_pos hpos hframe

theorem secondsPerEpoch_eq (spec : BeaconSpec) :
    spec.secondsPerEpoch = spec.epochSeconds % 2 ^ 64 := UInt64.toNat_mul _ _

theorem epoch_eq_iff (spec : BeaconSpec) (hpos : 0 < spec.secondsPerEpoch) (time : ℕ) :
    (time - spec.genesisTime.toNat) / spec.secondsPerEpoch = spec.epochAt time ↔
      spec.epochSeconds < 2 ^ 64 ∨
        time - spec.genesisTime.toNat < spec.epochSeconds % 2 ^ 64 := by
  rw [secondsPerEpoch_eq] at hpos ⊢
  exact div_mod_eq_iff (by decide) hpos

theorem frames_index (spec : BeaconSpec) (hpos : 0 < spec.secondsPerEpoch)
    (hframe : 0 < spec.epochsPerFrame.toNat) (time : ℕ) :
    (spec.frames hpos hframe).index time =
      (time - spec.genesisTime.toNat) / spec.secondsPerEpoch / spec.epochsPerFrame.toNat :=
  (Nat.div_div_eq_div_mul _ _ _).symm

theorem frames_length_lt (spec : BeaconSpec) (hpos : 0 < spec.secondsPerEpoch)
    (hframe : 0 < spec.epochsPerFrame.toNat) :
    (spec.frames hpos hframe).length + spec.genesisTime.toNat < wordLimit := by
  have hword : 2 ^ 64 * 2 ^ 64 + 2 ^ 64 < wordLimit := by decide +kernel
  have hlength : spec.secondsPerEpoch * spec.epochsPerFrame.toNat ≤ 2 ^ 64 * 2 ^ 64 :=
    Nat.mul_le_mul (UInt64.toNat_lt _).le (UInt64.toNat_lt _).le
  exact (Nat.add_lt_add_of_le_of_lt hlength spec.genesisTime.toNat_lt).trans hword

theorem frames_stop_zero_lt (spec : BeaconSpec) (hpos : 0 < spec.secondsPerEpoch)
    (hframe : 0 < spec.epochsPerFrame.toNat) : (spec.frames hpos hframe).stop 0 < wordLimit := by
  have hlt := spec.frames_length_lt hpos hframe
  have hsucc := Grid.stop_succ (spec.frames hpos hframe) 0
  have hstart : (spec.frames hpos hframe).start 0 = spec.genesisTime.toNat :=
    (congrArg (· + _) (Nat.zero_mul _)).trans (Nat.zero_add _)
  omega

theorem frames_stop_index (spec : BeaconSpec) (hpos : 0 < spec.secondsPerEpoch)
    (hframe : 0 < spec.epochsPerFrame.toNat) (hsmall : spec.epochSeconds < 2 ^ 64) (time : ℕ) :
    (spec.frames hpos hframe).stop ((spec.frames hpos hframe).index time) + 1 =
      (spec.epochAt time / spec.epochsPerFrame.toNat + 1) *
        (spec.epochSeconds * spec.epochsPerFrame.toNat) + spec.genesisTime.toNat := by
  have heq : spec.secondsPerEpoch = spec.epochSeconds := by
    rw [secondsPerEpoch_eq, Nat.mod_eq_of_lt hsmall]
  rw [← Grid.start_succ, frames_index, heq]
  exact congrArg (fun p ↦ (_ + 1) * (p * _) + _) heq

end BeaconSpec

namespace LidoOracle

variable {o o' : LidoOracle} {spec : BeaconSpec} {time time' : ℕ}

theorem currentEpochIdAt_eq (hgenesis : spec.genesisTime.toNat ≤ time) (htime : time < wordLimit) :
    currentEpochIdAt spec time = (do
      require (0 < spec.secondsPerEpoch) (.assertion "_getCurrentEpochId")
      pure ((time - spec.genesisTime.toNat) / spec.secondsPerEpoch)) := by
  have hne : spec.slotsPerEpoch * spec.secondsPerSlot ≠ 0 ↔ 0 < spec.secondsPerEpoch := by
    rw [Nat.pos_iff_ne_zero, BeaconSpec.secondsPerEpoch, ne_eq, ne_eq, ← UInt64.toNat_inj]
    rfl
  have heq : time + wordLimit - spec.genesisTime.toNat =
      time - spec.genesisTime.toNat + wordLimit := by omega
  simp only [currentEpochIdAt, hne]
  rw [heq, Nat.add_mod_right, Nat.mod_eq_of_lt (by omega), BeaconSpec.secondsPerEpoch]

theorem getCurrentFrame_eq (hspec : o._getBeaconSpec = spec)
    (hframe : 0 < spec.epochsPerFrame.toNat) (hpos : 0 < spec.secondsPerEpoch)
    (hgenesis : spec.genesisTime.toNat ≤ time) (htime : time < wordLimit) :
    o.getCurrentFrame time = .ok {
      frameEpochId := (time - spec.genesisTime.toNat) / spec.secondsPerEpoch /
        spec.epochsPerFrame.toNat * spec.epochsPerFrame.toNat
      frameStartTime := (spec.frames hpos hframe).start ((spec.frames hpos hframe).index time)
      frameEndTime := (spec.frames hpos hframe).stop ((spec.frames hpos hframe).index time) %
        wordLimit } := by
  have hne : spec.epochsPerFrame ≠ 0 := fun hzero ↦ by
    rw [hzero] at hframe
    exact Nat.lt_irrefl 0 hframe
  have hcomm : spec.secondsPerSlot * spec.slotsPerEpoch =
      spec.slotsPerEpoch * spec.secondsPerSlot := UInt64.mul_comm _ _
  have hstart := Grid.start_index_le (g := spec.frames hpos hframe) hgenesis
  simp only [getCurrentFrame, hspec, currentEpochIdAt_eq hgenesis htime, require_of hpos, ok_bind,
    pure_eq, _getFrameFirstEpochId, require_of hne, hcomm, Except.ok.injEq, Frame.mk.injEq]
  rw [← BeaconSpec.frames_index spec hpos hframe time]
  generalize (spec.frames hpos hframe).index time = k at *
  refine ⟨trivial, ?_, ?_⟩
  · have heq : k * spec.epochsPerFrame.toNat * spec.secondsPerEpoch + spec.genesisTime.toNat =
        (spec.frames hpos hframe).start k := by
      simp only [Grid.start, BeaconSpec.frames]
      ring
    exact (congrArg (· % wordLimit) heq).trans (Nat.mod_eq_of_lt (hstart.trans_lt htime))
  · have heq : (k * spec.epochsPerFrame.toNat + spec.epochsPerFrame.toNat) *
        spec.secondsPerEpoch + spec.genesisTime.toNat =
          (spec.frames hpos hframe).start (k + 1) := by
      simp only [Grid.start, BeaconSpec.frames]
      ring
    rw [Grid.start_succ] at heq
    rw [BeaconSpec.secondsPerEpoch] at heq
    rw [heq, Nat.add_right_comm, Nat.add_sub_cancel, Nat.add_mod_right]

/-- What the views answer, against epochs and their multiples over the integers. -/
structure ExactAt (o : LidoOracle) (spec : BeaconSpec) (time : ℕ) (frame : Frame) : Prop where
  epoch : o.getCurrentEpochId time = .ok (spec.epochAt time)
  current : o.getCurrentFrame time = .ok frame
  first : IsGreatest {epochId | spec.epochsPerFrame.toNat ∣ epochId ∧ epochId ≤ spec.epochAt time}
    frame.frameEpochId
  start_le : frame.frameStartTime ≤ time
  le_end : time ≤ frame.frameEndTime

theorem exactAt_iff (hspec : o._getBeaconSpec = spec) (hframe : 0 < spec.epochsPerFrame.toNat)
    (hgenesis : spec.genesisTime.toNat ≤ time) (htime : time < wordLimit) {frame : Frame} :
    o.ExactAt spec time frame ↔ ∃ hpos : 0 < spec.secondsPerEpoch,
      (time - spec.genesisTime.toNat) / spec.secondsPerEpoch = spec.epochAt time ∧
      (spec.frames hpos hframe).stop ((spec.frames hpos hframe).index time) < wordLimit ∧
      frame = {
        frameEpochId := spec.epochAt time / spec.epochsPerFrame.toNat * spec.epochsPerFrame.toNat
        frameStartTime := (spec.frames hpos hframe).start ((spec.frames hpos hframe).index time)
        frameEndTime := (spec.frames hpos hframe).stop ((spec.frames hpos hframe).index time) } := by
  constructor
  · intro h
    have hepoch := h.epoch
    rw [getCurrentEpochId, hspec, currentEpochIdAt_eq hgenesis htime] at hepoch
    simp only [bind_eq_ok, require_eq_ok, exists_const, pure_eq, Except.ok.injEq] at hepoch
    obtain ⟨hpos, hepoch⟩ := hepoch
    have hcurrent := h.current
    rw [getCurrentFrame_eq hspec hframe hpos hgenesis htime, Except.ok.injEq] at hcurrent
    have hend := h.le_end
    rw [← hcurrent] at hend
    have hlength := (Nat.le_add_right _ _).trans (spec.frames_length_lt hpos hframe).le
    have hstop := Grid.stop_lt_of_le_mod (g := spec.frames hpos hframe) hlength
      (Grid.start_index_le hgenesis) htime hend
    rw [Nat.mod_eq_of_lt hstop] at hcurrent
    refine ⟨hpos, hepoch, hstop, ?_⟩
    rw [← hcurrent, hepoch]
  · intro h
    obtain ⟨hpos, hepoch, hstop, rfl⟩ := h
    constructor
    · rw [getCurrentEpochId, hspec, currentEpochIdAt_eq hgenesis htime, require_of hpos, hepoch]
      rfl
    · rw [getCurrentFrame_eq hspec hframe hpos hgenesis htime, hepoch, Nat.mod_eq_of_lt hstop]
    · exact isGreatest_div_mul hframe
    · exact Grid.start_index_le (g := spec.frames hpos hframe) hgenesis
    · exact Grid.le_stop_index (g := spec.frames hpos hframe) hgenesis

theorem exists_exactAt_iff (hspec : o._getBeaconSpec = spec)
    (hframe : 0 < spec.epochsPerFrame.toNat) (hseconds : 0 < spec.epochSeconds)
    (hgenesis : spec.genesisTime.toNat ≤ time) (htime : time < wordLimit) :
    (∃ frame, o.ExactAt spec time frame) ↔ spec.FitsAt time := by
  have hword : wordLimit = 2 ^ 256 := by decide +kernel
  have hmod := spec.secondsPerEpoch_eq
  constructor
  · intro h
    obtain ⟨frame, h⟩ := h
    obtain ⟨hpos, hepoch, hstop, _⟩ := (exactAt_iff hspec hframe hgenesis htime).mp h
    rcases (spec.epoch_eq_iff hpos time).mp hepoch with hsmall | hfirst
    · have hend := spec.frames_stop_index hpos hframe hsmall time
      exact .inl ⟨hsmall, by omega⟩
    · exact .inr hfirst
  · intro h
    rcases h with ⟨hsmall, hend⟩ | hfirst
    · have hpos : 0 < spec.secondsPerEpoch := by
        rw [hmod, Nat.mod_eq_of_lt hsmall]
        exact hseconds
      have hepoch := (spec.epoch_eq_iff hpos time).mpr (.inl hsmall)
      have hstop := spec.frames_stop_index hpos hframe hsmall time
      exact ⟨_, (exactAt_iff hspec hframe hgenesis htime).mpr ⟨hpos, hepoch, by omega, rfl⟩⟩
    · have hpos : 0 < spec.secondsPerEpoch := by
        rw [hmod]
        exact Nat.zero_lt_of_lt hfirst
      have hepoch := (spec.epoch_eq_iff hpos time).mpr (.inr hfirst)
      rw [← hmod] at hfirst
      have hindex : (spec.frames hpos hframe).index time = 0 := by
        rw [BeaconSpec.frames_index, Nat.div_eq_of_lt hfirst, Nat.zero_div]
      have hstop := spec.frames_stop_zero_lt hpos hframe
      rw [← hindex] at hstop
      exact ⟨_, (exactAt_iff hspec hframe hgenesis htime).mpr ⟨hpos, hepoch, hstop, rfl⟩⟩

/-- A specification that the oracle has just accepted. -/
def Accepts (o : LidoOracle) (spec : BeaconSpec) : Prop :=
  (∃ o' : LidoOracle, o'._setBeaconSpec spec = .ok o) ∨
    ∃ (o' : LidoOracle) (increase decrease : ℕ), o'.initializeOracle spec increase decrease = .ok o

theorem positive_of_setBeaconSpec (h : o._setBeaconSpec spec = .ok o') :
    0 < spec.epochsPerFrame.toNat ∧ 0 < spec.epochSeconds := by
  simp only [_setBeaconSpec, bind_eq_ok, require_eq_ok, exists_const] at h
  obtain ⟨hframe, hslots, hseconds, _, _⟩ := h
  exact ⟨UInt64.lt_iff_toNat_lt.mp hframe, Nat.mul_pos (UInt64.lt_iff_toNat_lt.mp hslots)
    (UInt64.lt_iff_toNat_lt.mp hseconds)⟩

theorem Accepts.stored (h : o.Accepts spec) : o._getBeaconSpec = spec ∧
    0 < spec.epochsPerFrame.toNat ∧ 0 < spec.epochSeconds := by
  rcases h with ⟨o', h⟩ | ⟨o', increase, decrease, h⟩
  · exact ⟨(_setBeaconSpec_ok h).2.1, positive_of_setBeaconSpec h⟩
  · simp only [initializeOracle, bind_eq_ok, require_eq_ok, exists_const, pure_eq,
      Except.ok.injEq] at h
    obtain ⟨_, o'', hset, _, _, rfl⟩ := h
    exact ⟨(_setBeaconSpec_ok hset).2.1, positive_of_setBeaconSpec hset⟩

/-- Epochs and frames are exact where no product and no sum overflows. -/
theorem frames_are_exact_iff (h : o.Accepts spec) (hgenesis : spec.genesisTime.toNat ≤ time)
    (htime : time < 2 ^ 256) (hgenesis' : spec.genesisTime.toNat ≤ time')
    (htime' : time' < 2 ^ 256) :
    (∃ frame frame' : Frame, o.ExactAt spec time frame ∧ o.ExactAt spec time' frame' ∧
      (frame = frame' ∨ frame.frameEndTime < frame'.frameStartTime ∨
        frame'.frameEndTime < frame.frameStartTime) ∧
      (time' = frame.frameEndTime + 1 → frame'.frameStartTime = frame.frameEndTime + 1)) ↔
      spec.FitsAt time ∧ spec.FitsAt time' := by
  obtain ⟨hspec, hframe, hseconds⟩ := h.stored
  have hword : wordLimit = 2 ^ 256 := by decide +kernel
  rw [← hword] at htime htime'
  have hiff := exists_exactAt_iff hspec hframe hseconds hgenesis htime
  have hiff' := exists_exactAt_iff hspec hframe hseconds hgenesis' htime'
  constructor
  · intro h
    obtain ⟨frame, frame', hexact, hexact', _⟩ := h
    exact ⟨hiff.mp ⟨frame, hexact⟩, hiff'.mp ⟨frame', hexact'⟩⟩
  · intro h
    obtain ⟨hfits, hfits'⟩ := h
    obtain ⟨frame, hexact⟩ := hiff.mpr hfits
    obtain ⟨frame', hexact'⟩ := hiff'.mpr hfits'
    refine ⟨frame, frame', hexact, hexact', ?_⟩
    obtain ⟨hpos, hepoch, _, rfl⟩ := (exactAt_iff hspec hframe hgenesis htime).mp hexact
    obtain ⟨_, hepoch', _, rfl⟩ := (exactAt_iff hspec hframe hgenesis' htime').mp hexact'
    constructor
    · rcases Grid.equal_or_disjoint (spec.frames hpos hframe)
        ((spec.frames hpos hframe).index time) ((spec.frames hpos hframe).index time') with
        heq | hdisjoint
      · left
        rw [← hepoch, ← hepoch', ← BeaconSpec.frames_index spec hpos hframe,
          ← BeaconSpec.frames_index spec hpos hframe, heq]
      · exact .inr hdisjoint
    · intro hnext
      exact (Grid.start_index_stop_succ hnext.symm).trans hnext

def dailySpec : BeaconSpec := ⟨225, 32, 12, 1606824023⟩

theorem daily_frames_are_exact : ∃ o : LidoOracle, o.Accepts dailySpec ∧
    ∃ frame frame' : Frame, o.ExactAt dailySpec 1606910422 frame ∧
      o.ExactAt dailySpec 1606910423 frame' ∧
      (frame = frame' ∨ frame.frameEndTime < frame'.frameStartTime ∨
        frame'.frameEndTime < frame.frameStartTime) ∧
      (1606910423 = frame.frameEndTime + 1 →
        frame'.frameStartTime = frame.frameEndTime + 1) := by
  have haccepts : LidoOracle.Accepts _ dailySpec := .inl ⟨blank, rfl⟩
  refine ⟨_, haccepts, (frames_are_exact_iff haccepts (by decide) (by decide) (by decide)
    (by decide)).mpr ⟨?_, ?_⟩⟩
  · exact .inl ⟨by decide, by decide⟩
  · exact .inl ⟨by decide, by decide⟩

/-- An epoch of `2 ^ 64` seconds is taken for one of none, an epoch of four seconds more for
one of four. -/
theorem epoch_lengths_wrap :
    (∃ o : LidoOracle, o.Accepts ⟨1, 2 ^ 32, 2 ^ 32, 1⟩ ∧
      o.getCurrentEpochId 1 = .error (.assertion "_getCurrentEpochId") ∧
      o.getCurrentFrame 1 = .error (.assertion "_getCurrentEpochId")) ∧
    ∃ o : LidoOracle, o.Accepts ⟨1, 4611686018427387905, 4, 1⟩ ∧ o.getCurrentEpochId 5 = .ok 1 ∧
      BeaconSpec.epochAt ⟨1, 4611686018427387905, 4, 1⟩ 5 = 0 ∧
      ∃ frame, o.getCurrentFrame 5 = .ok frame ∧ frame.frameEpochId = 1 := by
  constructor
  · refine ⟨_, .inl ⟨blank, rfl⟩, ?_, ?_⟩
    · decide +kernel
    · decide +kernel
  · refine ⟨_, .inl ⟨blank, rfl⟩, ?_, ?_, ?_⟩
    · decide +kernel
    · decide
    · exact ⟨⟨1, 5, 8⟩, by decide +kernel, rfl⟩

end LidoOracle

end LidoDao
