import KyogenRV.Sw.QsysI2c
import Mathlib.Data.Rat.Defs

/-!
# `VL53L1X.c`

The driver of the ranging sensor: registers of one, two and four bytes behind
16-bit indices, the set-up of the sensor, and the reading of a range.  The
variables of the file are the store of its programs.  Divisions by zero are
undefined.
-/

namespace KyogenRV.VL53L1X

open Dialogue Firmware QsysI2c

abbrev Index := BitVec 16

def i2c0Base : Word := 0x10000

def hardwareAddress : Byte := 0x52 >>> 1

/-! ## Indices -/

def softReset : Index := 0x0000
def oscMeasuredFastOscFrequency : Index := 0x0006
def vhvConfigTimeoutMacropLoopBound : Index := 0x0008
def vhvConfigInit : Index := 0x000B
def algoPartToPartRangeOffsetMm : Index := 0x001E
def mmConfigOuterOffsetMm : Index := 0x0022
def dssConfigTargetTotalRateMcps : Index := 0x0024
def padI2cHvExtsupConfig : Index := 0x002E
def gpioTioHvStatus : Index := 0x0031
def sigmaEstimatorEffectivePulseWidthNs : Index := 0x0036
def sigmaEstimatorEffectiveAmbientWidthNs : Index := 0x0037
def algoCrosstalkCompensationValidHeightMm : Index := 0x0039
def algoRangeIgnoreValidHeightMm : Index := 0x003E
def algoRangeMinClip : Index := 0x003F
def algoConsistencyCheckTolerance : Index := 0x0040
def calConfigVcselStart : Index := 0x0047
def phasecalConfigTimeoutMacrop : Index := 0x004B
def phasecalConfigOverride : Index := 0x004D
def dssConfigRoiModeControl : Index := 0x004F
def systemThreshRateHigh : Index := 0x0050
def systemThreshRateLow : Index := 0x0052
def dssConfigManualEffectiveSpadsSelect : Index := 0x0054
def dssConfigApertureAttenuation : Index := 0x0057
def mmConfigTimeoutMacropA : Index := 0x005A
def mmConfigTimeoutMacropB : Index := 0x005C
def rangeConfigTimeoutMacropA : Index := 0x005E
def rangeConfigVcselPeriodA : Index := 0x0060
def rangeConfigTimeoutMacropB : Index := 0x0061
def rangeConfigVcselPeriodB : Index := 0x0063
def rangeConfigSigmaThresh : Index := 0x0064
def rangeConfigMinCountRateRtnLimitMcps : Index := 0x0066
def rangeConfigValidPhaseHigh : Index := 0x0069
def systemIntermeasurementPeriod : Index := 0x006C
def systemGroupedParameterHold0 : Index := 0x0071
def systemSeedConfig : Index := 0x0077
def sdConfigWoiSd0 : Index := 0x0078
def sdConfigWoiSd1 : Index := 0x0079
def sdConfigInitialPhaseSd0 : Index := 0x007A
def sdConfigInitialPhaseSd1 : Index := 0x007B
def systemGroupedParameterHold1 : Index := 0x007C
def sdConfigQuantifier : Index := 0x007E
def systemSequenceConfig : Index := 0x0081
def systemGroupedParameterHold : Index := 0x0082
def systemInterruptClear : Index := 0x0086
def systemModeStart : Index := 0x0087
def resultRangeStatus : Index := 0x0089
def resultStreamCount : Index := 0x008B
def resultDssActualEffectiveSpadsSd0 : Index := 0x008C
def resultAmbientCountRateMcpsSd0 : Index := 0x0090
def resultFinalCrosstalkCorrectedRangeMmSd0 : Index := 0x0096
def resultPeakSignalCountRateCrosstalkCorrectedMcpsSd0 : Index := 0x0098
def phasecalResultVcselStart : Index := 0x00D8
def resultOscCalibrateVal : Index := 0x00DE
def firmwareSystemStatus : Index := 0x00E5
def identificationModelId : Index := 0x010F

/-! ## Variables -/

structure ResultBuffer where
  rangeStatus : BitVec 8
  streamCount : BitVec 8
  dssActualEffectiveSpadsSd0 : BitVec 16
  ambientCountRateMcpsSd0 : BitVec 16
  finalCrosstalkCorrectedRangeMmSd0 : BitVec 16
  peakSignalCountRateCrosstalkCorrectedMcpsSd0 : BitVec 16

inductive RangeStatus where
  | rangeValid
  | sigmaFail
  | signalFail
  | rangeValidMinRangeClipped
  | outOfBoundsFail
  | hardwareFail
  | rangeValidNoWrapCheckFail
  | wrapTargetFail
  | xtalkSignalFail
  | synchronizationInt
  | minRangeFail
  | none
  deriving DecidableEq

/-- The two rates are `float`s: sixteen bits over `1 << 7`, which is exact. -/
structure RangingData where
  rangeMm : BitVec 16
  rangeStatus : RangeStatus
  peakSignalCountRateMCPS : ℚ
  ambientCountRateMCPS : ℚ

structure Globals where
  fastOscFrequency : BitVec 16
  oscCalibrateVal : BitVec 16
  timeoutStartMs : BitVec 16
  ioTimeout : BitVec 16
  didTimeout : Bool
  calibrated : Bool
  savedVhvInit : BitVec 8
  savedVhvTimeout : BitVec 8
  results : ResultBuffer
  rangingData : RangingData

/-- Before `main`. -/
def Globals.start : Globals where
  fastOscFrequency := 0
  oscCalibrateVal := 0
  timeoutStartMs := 0
  ioTimeout := 1000
  didTimeout := false
  calibrated := false
  savedVhvInit := 0
  savedVhvTimeout := 0
  results := ⟨0, 0, 0, 0, 0, 0⟩
  rangingData := ⟨0, .rangeValid, 0, 0⟩

/-! ## Registers -/

section Registers

variable {γ : Type}

/-- `(value >> shift) & 0xFF`. -/
def byte {w : ℕ} (value : BitVec w) (shift : ℕ) : Byte :=
  (value >>> shift &&& 0xFF).setWidth 8

def writeReg (reg : Index) (value : BitVec 8) : Firmware γ Unit := do
  i2cStartTransmit i2c0Base hardwareAddress 0
  i2cWrite i2c0Base (byte reg 8) false
  i2cWrite i2c0Base (byte reg 0) false
  i2cWrite i2c0Base value true

def writeReg16Bit (reg : Index) (value : BitVec 16) : Firmware γ Unit := do
  i2cStartTransmit i2c0Base hardwareAddress 0
  i2cWrite i2c0Base (byte reg 8) false
  i2cWrite i2c0Base (byte reg 0) false
  i2cWrite i2c0Base (byte value 8) false
  i2cWrite i2c0Base (byte value 0) true

def writeReg32Bit (reg : Index) (value : BitVec 32) : Firmware γ Unit := do
  i2cStartTransmit i2c0Base hardwareAddress 0
  i2cWrite i2c0Base (byte reg 8) false
  i2cWrite i2c0Base (byte reg 0) false
  i2cWrite i2c0Base (byte value 24) false
  i2cWrite i2c0Base (byte value 16) false
  i2cWrite i2c0Base (byte value 8) false
  i2cWrite i2c0Base (byte value 0) true

def readReg (reg : Index) : Firmware γ (BitVec 8) := do
  i2cStartTransmit i2c0Base hardwareAddress 0
  i2cWrite i2c0Base (byte reg 8) false
  i2cWrite i2c0Base (byte reg 0) true
  i2cStartTransmit i2c0Base hardwareAddress 1
  let value ← i2cRead i2c0Base true
  pure (value.setWidth 8)

def readReg16Bit (reg : Index) : Firmware γ (BitVec 16) := do
  i2cStartTransmit i2c0Base hardwareAddress 0
  i2cWrite i2c0Base (byte reg 8) false
  i2cWrite i2c0Base (byte reg 0) true
  i2cStartTransmit i2c0Base hardwareAddress 1
  let high ← i2cRead i2c0Base false
  let value := (high <<< 8).setWidth 16
  let low ← i2cRead i2c0Base true
  pure (value ||| low.setWidth 16)

def readReg32Bit (reg : Index) : Firmware γ (BitVec 32) := do
  i2cStartTransmit i2c0Base hardwareAddress 0
  i2cWrite i2c0Base (byte reg 8) false
  i2cWrite i2c0Base (byte reg 0) true
  i2cStartTransmit i2c0Base hardwareAddress 1
  let highest ← i2cRead i2c0Base false
  let value := highest <<< 24
  let higher ← i2cRead i2c0Base false
  let value := value ||| higher <<< 16
  let lower ← i2cRead i2c0Base false
  let value := value ||| ((lower <<< 8).setWidth 16).setWidth 32
  let lowest ← i2cRead i2c0Base true
  pure (value ||| lowest)

end Registers

/-! ## Timing -/

def timingGuard : Word := 4528

def targetRate : BitVec 16 := 0x0A00

def timeoutMicrosecondsToMclks (timeoutUs macroPeriodUs : Word) : Option Word :=
  if macroPeriodUs = 0 then none
  else some (((timeoutUs <<< 12) + (macroPeriodUs >>> 1)) / macroPeriodUs)

/-- The loop of `encodeTimeout`, with `ms_byte`. -/
def shiftDown (lsByte : Word) (msByte : BitVec 16) : Word × BitVec 16 :=
  if lsByte &&& 0xFFFFFF00 > 0 then shiftDown (lsByte >>> 1) (msByte + 1)
  else (lsByte, msByte)
termination_by lsByte.toNat
decreasing_by
  rename_i h
  have hpos : 0 < lsByte.toNat := by
    apply Nat.pos_of_ne_zero
    intro hzero
    rw [BitVec.eq_of_toNat_eq (y := 0) hzero] at h
    exact absurd h (by decide)
  rw [BitVec.toNat_ushiftRight, Nat.shiftRight_eq_div_pow]
  omega

def encodeTimeout (timeoutMclks : Word) : BitVec 16 :=
  if timeoutMclks > 0 then
    let (lsByte, msByte) := shiftDown (timeoutMclks - 1) 0
    (msByte <<< 8) ||| (lsByte &&& 0xFF).setWidth 16
  else 0

def calcMacroPeriod (fastOscFrequency : BitVec 16) (vcselPeriod : BitVec 8) : Option Word :=
  if fastOscFrequency = 0 then none
  else
    let pllPeriodUs := ((0x01 : Word) <<< 30) / fastOscFrequency.setWidth 32
    let vcselPeriodPclks : BitVec 8 := ((vcselPeriod.setWidth 32 + 1) <<< 1).setWidth 8
    let macroPeriodUs := 2304 * pllPeriodUs
    let macroPeriodUs := macroPeriodUs >>> 6
    let macroPeriodUs := macroPeriodUs * vcselPeriodPclks.setWidth 32
    some (macroPeriodUs >>> 6)

/-! ## Set-up -/

/-- A program of the sensor's driver. -/
abbrev Driver (α : Type) := Firmware Globals α

/-- A case of `VL53L1X_setDistanceMode`.  In each of them the `WOI` values are the
periods, and the two phases are one value. -/
def distancePreset (vcselPeriodA vcselPeriodB validPhaseHigh initialPhase : BitVec 8) :
    Driver Unit := do
  writeReg rangeConfigVcselPeriodA vcselPeriodA
  writeReg rangeConfigVcselPeriodB vcselPeriodB
  writeReg rangeConfigValidPhaseHigh validPhaseHigh
  writeReg sdConfigWoiSd0 vcselPeriodA
  writeReg sdConfigWoiSd1 vcselPeriodB
  writeReg sdConfigInitialPhaseSd0 initialPhase
  writeReg sdConfigInitialPhaseSd1 initialPhase

def short : BitVec 8 := 1
def medium : BitVec 8 := 2
def long : BitVec 8 := 3

/-- The result is `false` for the known modes, too. -/
def setDistanceMode (mode : BitVec 8) : Driver Bool := do
  if mode = short then
    distancePreset 0x07 0x05 0x38 6
    pure false
  else if mode = medium then
    distancePreset 0x0B 0x09 0x78 10
    pure false
  else if mode = long then
    distancePreset 0x0F 0x0D 0xB8 14
    pure false
  else pure false

def macroPeriod (vcselPeriod : BitVec 8) : Driver Word := do
  let globals ← load
  defined (calcMacroPeriod globals.fastOscFrequency vcselPeriod)

def setMeasurementTimingBudget (budgetUs : Word) : Driver Bool := do
  if budgetUs ≤ timingGuard then return false
  let rangeConfigTimeoutUs := budgetUs - timingGuard
  if rangeConfigTimeoutUs > 1100000 then return false
  let rangeConfigTimeoutUs := rangeConfigTimeoutUs / 2
  let macroPeriodUs ← macroPeriod (← readReg rangeConfigVcselPeriodA)
  let phasecalTimeoutMclks ← defined (timeoutMicrosecondsToMclks 1000 macroPeriodUs)
  let phasecalTimeoutMclks := if phasecalTimeoutMclks > 0xFF then 0xFF else phasecalTimeoutMclks
  writeReg phasecalConfigTimeoutMacrop (phasecalTimeoutMclks.setWidth 8)
  let mclks ← defined (timeoutMicrosecondsToMclks 1 macroPeriodUs)
  writeReg16Bit mmConfigTimeoutMacropA (encodeTimeout mclks)
  let mclks ← defined (timeoutMicrosecondsToMclks rangeConfigTimeoutUs macroPeriodUs)
  writeReg16Bit rangeConfigTimeoutMacropA (encodeTimeout mclks)
  let macroPeriodUs ← macroPeriod (← readReg rangeConfigVcselPeriodB)
  let mclks ← defined (timeoutMicrosecondsToMclks 1 macroPeriodUs)
  writeReg16Bit mmConfigTimeoutMacropB (encodeTimeout mclks)
  let mclks ← defined (timeoutMicrosecondsToMclks rangeConfigTimeoutUs macroPeriodUs)
  writeReg16Bit rangeConfigTimeoutMacropB (encodeTimeout mclks)
  return true

/-- From "VL53L1_StaticInit() begin" to its end. -/
def staticInit : Driver Unit := do
  -- static config
  writeReg16Bit dssConfigTargetTotalRateMcps targetRate
  writeReg gpioTioHvStatus 0x02
  writeReg sigmaEstimatorEffectivePulseWidthNs 8
  writeReg sigmaEstimatorEffectiveAmbientWidthNs 16
  writeReg algoCrosstalkCompensationValidHeightMm 0x01
  writeReg algoRangeIgnoreValidHeightMm 0xFF
  writeReg algoRangeMinClip 0
  writeReg algoConsistencyCheckTolerance 2
  -- general config
  writeReg16Bit systemThreshRateHigh 0x0000
  writeReg16Bit systemThreshRateLow 0x0000
  writeReg dssConfigApertureAttenuation 0x38
  -- timing config
  writeReg16Bit rangeConfigSigmaThresh 360
  writeReg16Bit rangeConfigMinCountRateRtnLimitMcps 192
  -- dynamic config
  writeReg systemGroupedParameterHold0 0x01
  writeReg systemGroupedParameterHold1 0x01
  writeReg sdConfigQuantifier 2
  writeReg systemGroupedParameterHold 0x00
  writeReg systemSeedConfig 1
  writeReg systemSequenceConfig 0x8B
  writeReg16Bit dssConfigManualEffectiveSpadsSelect (200#16 <<< 8)
  writeReg dssConfigRoiModeControl 2
  let _ ← setDistanceMode long
  let _ ← setMeasurementTimingBudget 50000
  pure ()

section Init

variable (highFirst : Bool)

/-- `while ((VL53L1X_readReg(FIRMWARE__SYSTEM_STATUS) & 0x01) == 0);` -/
def waitBoot : Driver Unit :=
  loop do
    let status ← readReg firmwareSystemStatus
    pure (if status &&& 0x01 = 0 then none else some ())

def init : Driver Bool := do
  if (← readReg16Bit identificationModelId) ≠ 0xEACC then return false
  writeReg softReset 0x00
  waitMs highFirst 100
  writeReg softReset 0x01
  waitMs highFirst 1000
  waitBoot
  let config ← readReg padI2cHvExtsupConfig
  writeReg padI2cHvExtsupConfig (config ||| 0x01)
  let frequency ← readReg16Bit oscMeasuredFastOscFrequency
  update fun globals => { globals with fastOscFrequency := frequency }
  let calibrate ← readReg16Bit resultOscCalibrateVal
  update fun globals => { globals with oscCalibrateVal := calibrate }
  staticInit
  let offset ← readReg16Bit mmConfigOuterOffsetMm
  writeReg16Bit algoPartToPartRangeOffsetMm (offset * 4)
  return true

end Init

def startContinuous (periodMs : Word) : Driver Unit := do
  let globals ← load
  writeReg32Bit systemIntermeasurementPeriod (periodMs * globals.oscCalibrateVal.setWidth 32)
  writeReg systemInterruptClear 0x01
  writeReg systemModeStart 0x40

/-! ## Ranging -/

def dataReady : Driver Bool := do
  let status ← readReg gpioTioHvStatus
  pure (status &&& 0x01 = 0)

/-- `(uint16_t)i2c_read(...) << 8`, then `|= i2c_read(...)`. -/
def word16 (high low : Word) : BitVec 16 :=
  (high.setWidth 16 <<< 8) ||| low.setWidth 16

def readResults : Driver Unit := do
  i2cStartTransmit i2c0Base hardwareAddress 0
  i2cWrite i2c0Base (byte resultRangeStatus 8) false
  i2cWrite i2c0Base (byte resultRangeStatus 0) true
  i2cStartTransmit i2c0Base hardwareAddress 1
  let rangeStatus ← i2cRead i2c0Base false
  let _ ← i2cRead i2c0Base false
  let streamCount ← i2cRead i2c0Base false
  let spadsHigh ← i2cRead i2c0Base false
  let spadsLow ← i2cRead i2c0Base false
  let _ ← i2cRead i2c0Base false
  let _ ← i2cRead i2c0Base false
  let ambientHigh ← i2cRead i2c0Base false
  let ambientLow ← i2cRead i2c0Base false
  let _ ← i2cRead i2c0Base false
  let _ ← i2cRead i2c0Base false
  let _ ← i2cRead i2c0Base false
  let _ ← i2cRead i2c0Base false
  let rangeHigh ← i2cRead i2c0Base false
  let rangeLow ← i2cRead i2c0Base false
  let peakHigh ← i2cRead i2c0Base false
  let peakLow ← i2cRead i2c0Base true
  update fun globals => { globals with
    results := {
      rangeStatus := rangeStatus.setWidth 8
      streamCount := streamCount.setWidth 8
      dssActualEffectiveSpadsSd0 := word16 spadsHigh spadsLow
      ambientCountRateMcpsSd0 := word16 ambientHigh ambientLow
      finalCrosstalkCorrectedRangeMmSd0 := word16 rangeHigh rangeLow
      peakSignalCountRateCrosstalkCorrectedMcpsSd0 := word16 peakHigh peakLow } }

def setupManualCalibration : Driver Unit := do
  let savedVhvInit ← readReg vhvConfigInit
  update fun globals => { globals with savedVhvInit := savedVhvInit }
  let savedVhvTimeout ← readReg vhvConfigTimeoutMacropLoopBound
  update fun globals => { globals with savedVhvTimeout := savedVhvTimeout }
  writeReg vhvConfigInit (savedVhvInit &&& 0x7F)
  writeReg vhvConfigTimeoutMacropLoopBound ((savedVhvTimeout &&& 0x03#8) + (3#8 <<< 2))
  writeReg phasecalConfigOverride 0x01
  let vcselStart ← readReg phasecalResultVcselStart
  writeReg calConfigVcselStart vcselStart

def countRateFixedToFloat (countRateFixed : BitVec 16) : ℚ :=
  countRateFixed.toNat / (1 <<< 7 : ℕ)

/-- The `switch` of `VL53L1X_getRangingData`. -/
def rangeStatusOf (rangeStatus streamCount : BitVec 8) : RangeStatus :=
  if rangeStatus = 17 ∨ rangeStatus = 2 ∨ rangeStatus = 1 ∨ rangeStatus = 3 then .hardwareFail
  else if rangeStatus = 13 then .minRangeFail
  else if rangeStatus = 18 then .synchronizationInt
  else if rangeStatus = 5 then .outOfBoundsFail
  else if rangeStatus = 4 then .signalFail
  else if rangeStatus = 6 then .sigmaFail
  else if rangeStatus = 7 then .wrapTargetFail
  else if rangeStatus = 12 then .xtalkSignalFail
  else if rangeStatus = 8 then .rangeValidMinRangeClipped
  else if rangeStatus = 9 then
    if streamCount = 0 then .rangeValidNoWrapCheckFail else .rangeValid
  else .none

def getRangingData : Driver Unit :=
  update fun globals =>
    let results := globals.results
    let range := results.finalCrosstalkCorrectedRangeMmSd0
    { globals with
      rangingData := {
        rangeMm := ((range.setWidth 32 * 2011 + 0x0400) / 0x0800 : Word).setWidth 16
        rangeStatus := rangeStatusOf results.rangeStatus results.streamCount
        peakSignalCountRateMCPS :=
          countRateFixedToFloat results.peakSignalCountRateCrosstalkCorrectedMcpsSd0
        ambientCountRateMCPS := countRateFixedToFloat results.ambientCountRateMcpsSd0 } }

/-- The value that `VL53L1X_updateDSS` writes. -/
def requiredSpads (results : ResultBuffer) : BitVec 16 :=
  let spadCount := results.dssActualEffectiveSpadsSd0
  if spadCount ≠ 0 then
    let totalRatePerSpad : Word :=
      results.peakSignalCountRateCrosstalkCorrectedMcpsSd0.setWidth 32 +
        results.ambientCountRateMcpsSd0.setWidth 32
    let totalRatePerSpad := if totalRatePerSpad > 0xFFFF then 0xFFFF else totalRatePerSpad
    let totalRatePerSpad := totalRatePerSpad <<< 16
    let totalRatePerSpad := totalRatePerSpad / spadCount.setWidth 32
    if totalRatePerSpad ≠ 0 then
      let requiredSpads := (targetRate.setWidth 32 <<< 16) / totalRatePerSpad
      let requiredSpads := if requiredSpads > 0xFFFF then 0xFFFF else requiredSpads
      requiredSpads.setWidth 16
    else 0x8000
  else 0x8000

def updateDSS : Driver Unit := do
  let globals ← load
  writeReg16Bit dssConfigManualEffectiveSpadsSelect (requiredSpads globals.results)

section Read

variable (highFirst : Bool)

def startTimeout : Driver Unit := do
  let now ← getTimeMs highFirst
  update fun globals => { globals with timeoutStartMs := now.setWidth 16 }

def checkTimeoutExpired : Driver Bool := do
  let globals ← load
  if globals.ioTimeout > 0 then
    let now ← getTimeMs highFirst
    pure ((now - globals.timeoutStartMs.setWidth 64).setWidth 16 > globals.ioTimeout)
  else pure false

/-- The `while` loop of `VL53L1X_read`: whether the time is over. -/
def waitData : Driver Bool :=
  loop do
    if ← dataReady then pure (some false)
    else if ← checkTimeoutExpired highFirst then pure (some true)
    else pure none

/-- `if (!calibrated) { ... }`. -/
def calibrate : Driver Unit := do
  let globals ← load
  if globals.calibrated then pure ()
  else do
    setupManualCalibration
    update fun globals => { globals with calibrated := true }

/-- `VL53L1X_read` behind its loop. -/
def takeReading : Driver (BitVec 16) := do
  readResults
  calibrate
  updateDSS
  getRangingData
  writeReg systemInterruptClear 0x01
  let globals ← load
  pure globals.rangingData.rangeMm

def read (blocking : Bool) : Driver (BitVec 16) :=
  if blocking then do
    startTimeout highFirst
    let expired ← waitData highFirst
    if expired then do
      update fun globals => { globals with didTimeout := true }
      pure 0
    else takeReading
  else takeReading

end Read

end KyogenRV.VL53L1X
