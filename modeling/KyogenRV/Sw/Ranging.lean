import KyogenRV.Sw.TimingBudget

/-!
# A reading

`VL53L1X_read` waits for data until its time is over, takes the 17 bytes of the
result block in one frame, sets the sensor up at the first reading, adapts the
number of SPADs to the rate and clears the interrupt.  What it returns and what
it leaves in the registers is made of the fields that the sensor had at one
time.
-/

namespace KyogenRV.VL53L1X

open Dialogue Firmware QsysI2c BigEndian

/-! ## The result block -/

/-- The words of `RX_DATA` in the order of `readResults`. -/
def ResultBuffer.ofWords (words : List Word) : ResultBuffer where
  rangeStatus := (words.getD 0 0).setWidth 8
  streamCount := (words.getD 2 0).setWidth 8
  dssActualEffectiveSpadsSd0 := word16 (words.getD 3 0) (words.getD 4 0)
  ambientCountRateMcpsSd0 := word16 (words.getD 7 0) (words.getD 8 0)
  finalCrosstalkCorrectedRangeMmSd0 := word16 (words.getD 13 0) (words.getD 14 0)
  peakSignalCountRateCrosstalkCorrectedMcpsSd0 := word16 (words.getD 15 0) (words.getD 16 0)

theorem leads_readResults {τ : Type} {slave : Slave τ} {mayFail : τ → Prop} {store : Globals}
    {t : τ} {Q : Unit → Globals → τ → Prop}
    (h : ∀ words t₁ t', words.length = 17 →
      slave.Sends [byte resultRangeStatus 8, byte resultRangeStatus 0] t t₁ →
        slave.Receives words t₁ t' →
          Q () { store with results := .ofWords words } t') :
    (sensorBus slave mayFail).Leads .idle readResults .idle Q store t := by
  apply leads_index
  intro t₁ _ hsends hopen
  apply leads_get hopen
  intro w₀ _ h₀
  apply leads_get h₀
  intro w₁ _ h₁
  apply leads_get h₁
  intro w₂ _ h₂
  apply leads_get h₂
  intro w₃ _ h₃
  apply leads_get h₃
  intro w₄ _ h₄
  apply leads_get h₄
  intro w₅ _ h₅
  apply leads_get h₅
  intro w₆ _ h₆
  apply leads_get h₆
  intro w₇ _ h₇
  apply leads_get h₇
  intro w₈ _ h₈
  apply leads_get h₈
  intro w₉ _ h₉
  apply leads_get h₉
  intro w₁₀ _ h₁₀
  apply leads_get h₁₀
  intro w₁₁ _ h₁₁
  apply leads_get h₁₁
  intro w₁₂ _ h₁₂
  apply leads_get h₁₂
  intro w₁₃ _ h₁₃
  apply leads_get h₁₃
  intro w₁₄ _ h₁₄
  apply leads_get h₁₄
  intro w₁₅ _ h₁₅
  apply leads_getLast h₁₅
  intro w₁₆ t' hreceives
  simp only [List.nil_append, List.cons_append] at hreceives
  apply leads_update
  exact h _ t₁ t' rfl hsends hreceives

/-- The buffer holds the fields of the sensor at one time. -/
structure Sampled (mem : Memory 16) (results : ResultBuffer) : Prop where
  rangeStatus : results.rangeStatus.toNat = field mem resultRangeStatus 1
  streamCount : results.streamCount.toNat = field mem resultStreamCount 1
  spads : results.dssActualEffectiveSpadsSd0.toNat = field mem resultDssActualEffectiveSpadsSd0 2
  ambient : results.ambientCountRateMcpsSd0.toNat = field mem resultAmbientCountRateMcpsSd0 2
  range : results.finalCrosstalkCorrectedRangeMmSd0.toNat =
    field mem resultFinalCrosstalkCorrectedRangeMmSd0 2
  peak : results.peakSignalCountRateCrosstalkCorrectedMcpsSd0.toNat =
    field mem resultPeakSignalCountRateCrosstalkCorrectedMcpsSd0 2

theorem toNat_word16 (a b : Byte) :
    (word16 (a.setWidth 32) (b.setWidth 32)).toNat = a.toNat * 256 + b.toNat := by
  have ha := a.isLt
  have hhigh : ((a.setWidth 32 : Word).setWidth 16 <<< 8).toNat = a.toNat * 2 ^ 8 := by
    rw [BitVec.toNat_shiftLeft, BitVec.toNat_setWidth, BitVec.toNat_setWidth, Nat.shiftLeft_eq]
    omega
  have hlow : ((b.setWidth 32 : Word).setWidth 16).toNat = b.toNat := by
    have hb := b.isLt
    simp only [BitVec.toNat_setWidth]
    omega
  exact toNat_or_low hhigh hlow b.isLt

theorem sampled_ofWords {mem : Memory 16} {words : List Word} (hlen : words.length = 17)
    (hwords : words = (loadBytes mem resultRangeStatus words.length).map (BitVec.setWidth 32)) :
    Sampled mem (.ofWords words) := by
  have hword : ∀ k < 17, words.getD k 0 =
      (mem (resultRangeStatus + BitVec.ofNat 16 k)).setWidth 32 := by
    intro k hk
    rw [hwords, List.getD_eq_getElem?_getD, List.getElem?_map,
      List.getElem?_eq_getElem (by rw [length_loadBytes, hlen]; exact hk), getElem_loadBytes]
    rfl
  have hbyte : ∀ k < 17, ((words.getD k 0).setWidth 8).toNat =
      field mem (resultRangeStatus + BitVec.ofNat 16 k) 1 := by
    intro k hk
    rw [hword k hk]
    simp [field, loadBytes, value]
  have hjoin : ∀ k, k + 1 < 17 → (word16 (words.getD k 0) (words.getD (k + 1) 0)).toNat =
      field mem (resultRangeStatus + BitVec.ofNat 16 k) 2 := by
    intro k hk
    have hnext : resultRangeStatus + BitVec.ofNat 16 (k + 1) =
        resultRangeStatus + BitVec.ofNat 16 k + 1 := by
      rw [BitVec.ofNat_add, add_assoc]
      rfl
    rw [hword k (by omega), hword (k + 1) hk, hnext, toNat_word16]
    simp [field, loadBytes, value]
  exact {
    rangeStatus := hbyte 0 (by decide)
    streamCount := hbyte 2 (by decide)
    spads := hjoin 3 (by decide)
    ambient := hjoin 7 (by decide)
    range := hjoin 13 (by decide)
    peak := hjoin 15 (by decide) }

section File

variable {volatile : Set Index} {store : Globals} {mem : Memory 16}

theorem file_readResults {Q : Unit → Globals → Memory 16 → Prop}
    (h : ∀ sampled results, Drift volatile mem sampled → Sampled sampled results →
      Q () { store with results := results } sampled) :
    FileLeads volatile readResults Q store mem := by
  intro t ht
  apply leads_readResults
  intro words t₁ t' hlen hsends hreceives
  obtain ⟨hdrift, hwords⟩ := of_reading hsends hreceives
  exact h t'.memory _ (ht ▸ hdrift) (sampled_ofWords hlen hwords)

end File

/-! ## What is made of it -/

/-- The rate of all SPADs as `0x0A00`, or the middle where there is no rate. -/
def spadTarget (peak ambient spads : ℕ) : ℕ :=
  if spads = 0 ∨ peak + ambient = 0 then 0x8000
  else min 0xFFFF (0x0A00 * 2 ^ 16 / (min 0xFFFF (peak + ambient) * 2 ^ 16 / spads))

/-- `if (value > 0xFFFF) { value = 0xFFFF; }`. -/
theorem toNat_clip (v : Word) : (if v > 0xFFFF then 0xFFFF else v).toNat = min 0xFFFF v.toNat := by
  by_cases h : v > 0xFFFF
  · rw [if_pos h]
    rw [gt_iff_lt, BitVec.lt_def] at h
    exact (Nat.min_eq_left h.le).symm
  · rw [if_neg h]
    rw [gt_iff_lt, BitVec.lt_def] at h
    exact (Nat.min_eq_right (Nat.le_of_not_lt h)).symm

/-- No step of the calculation wraps around or divides by zero. -/
theorem requiredSpads_toNat (r : ResultBuffer) :
    (requiredSpads r).toNat = spadTarget r.peakSignalCountRateCrosstalkCorrectedMcpsSd0.toNat
      r.ambientCountRateMcpsSd0.toNat r.dssActualEffectiveSpadsSd0.toNat := by
  obtain ⟨_, _, spads, ambient, _, peak⟩ := r
  by_cases hzero : spads = 0
  · subst hzero
    simp [requiredSpads, spadTarget]
  have hspads := spads.isLt
  have hambient := ambient.isLt
  have hpeak := peak.isLt
  have hpos : 0 < spads.toNat :=
    Nat.pos_of_ne_zero fun h => hzero (BitVec.eq_of_toNat_eq h)
  have hsum : (peak.setWidth 32 + ambient.setWidth 32 : Word).toNat =
      peak.toNat + ambient.toNat := by
    rw [BitVec.toNat_add, BitVec.toNat_setWidth, BitVec.toNat_setWidth]
    omega
  simp only [requiredSpads, if_pos (show spads ≠ 0 from hzero)]
  generalize hrate : (if (peak.setWidth 32 + ambient.setWidth 32 : Word) > 0xFFFF then 0xFFFF
    else peak.setWidth 32 + ambient.setWidth 32) = rate
  have hrateNat : rate.toNat = min 0xFFFF (peak.toNat + ambient.toNat) := by
    rw [← hrate, toNat_clip, hsum]
  generalize hper : rate <<< 16 / spads.setWidth 32 = perSpad
  have hperNat :
      perSpad.toNat = min 0xFFFF (peak.toNat + ambient.toNat) * 2 ^ 16 / spads.toNat := by
    rw [← hper, BitVec.toNat_udiv, BitVec.toNat_shiftLeft, BitVec.toNat_setWidth,
      Nat.shiftLeft_eq, hrateNat, Nat.mod_eq_of_lt (by omega), Nat.mod_eq_of_lt (by omega)]
  by_cases hdark : peak.toNat + ambient.toNat = 0
  · have hper0 : perSpad = 0 := by
      apply BitVec.eq_of_toNat_eq
      rw [hperNat, hdark]
      simp
    simp [hper0, spadTarget, hdark]
  · have hper1 : 0 < perSpad.toNat := by
      rw [hperNat]
      exact Nat.div_pos (by omega) hpos
    have hperne : perSpad ≠ 0 := by
      rintro rfl
      exact absurd hper1 (by decide)
    have hquot : (targetRate.setWidth 32 <<< 16 / perSpad : Word).toNat =
        0x0A00 * 2 ^ 16 / perSpad.toNat := by
      rw [BitVec.toNat_udiv]
      rfl
    rw [if_pos hperne, BitVec.toNat_setWidth, toNat_clip, hquot, hperNat, spadTarget,
      if_neg (by omega)]
    exact Nat.mod_eq_of_lt ((Nat.min_le_left _ _).trans_lt (by decide))

theorem rangeMm_toNat (range : BitVec 16) :
    (((range.setWidth 32 * 2011 + 0x0400) / 0x0800 : Word).setWidth 16).toNat =
      (range.toNat * 2011 + 1024) / 2048 := by
  have hrange := range.isLt
  rw [BitVec.toNat_setWidth, BitVec.toNat_udiv, BitVec.toNat_add, BitVec.toNat_mul,
    BitVec.toNat_setWidth]
  change ((range.toNat % 2 ^ 32 * 2011 % 2 ^ 32 + 1024) % 2 ^ 32 / 2048) % 2 ^ 16 = _
  rw [Nat.mod_eq_of_lt (by omega : range.toNat < 2 ^ 32), Nat.mod_eq_of_lt (by omega :
    range.toNat * 2011 < 2 ^ 32), Nat.mod_eq_of_lt (by omega : range.toNat * 2011 + 1024 < 2 ^ 32)]
  exact Nat.mod_eq_of_lt (by omega)

/-! ## The reading -/

/-- The registers that the first reading sets up. -/
def calibrationRegisters : Set Index :=
  span vhvConfigInit 1 ∪ span vhvConfigTimeoutMacropLoopBound 1 ∪
    span phasecalConfigOverride 1 ∪ span calConfigVcselStart 1

/-- The registers that a reading writes. -/
def readingRegisters (calibrated : Bool) : Set Index :=
  span dssConfigManualEffectiveSpadsSelect 2 ∪ span systemInterruptClear 1 ∪
    if calibrated then ∅ else calibrationRegisters

/-- At `now` a timeout is set, and over since the start of the reading. -/
def Expired (globals : Globals) (now : BitVec 64) : Prop :=
  globals.ioTimeout > 0 ∧
    (now - globals.timeoutStartMs.setWidth 64).setWidth 16 > globals.ioTimeout

/-- The time was over before the sensor had data. -/
structure TimedOut (volatile : Set Index) (store : Globals) (mem : Memory 16) (range : BitVec 16)
    (store' : Globals) (mem' : Memory 16) : Prop where
  range : range = 0
  expired : ∃ now, Expired store' now
  globals : store' =
    { store with didTimeout := true, timeoutStartMs := store'.timeoutStartMs }
  frame : Drift volatile mem mem'

/-- A range was read.  The fields of the buffer are those of the sensor at one
time, `sampled`. -/
structure Ranged (volatile : Set Index) (store : Globals) (mem : Memory 16) (range : BitVec 16)
    (store' : Globals) (mem' : Memory 16) : Prop where
  sampled : ∃ sampled, Drift volatile mem sampled ∧ Sampled sampled store'.results ∧
    range.toNat = (field sampled resultFinalCrosstalkCorrectedRangeMmSd0 2 * 2011 + 1024) / 2048 ∧
    field mem' dssConfigManualEffectiveSpadsSelect 2 =
      spadTarget (field sampled resultPeakSignalCountRateCrosstalkCorrectedMcpsSd0 2)
        (field sampled resultAmbientCountRateMcpsSd0 2)
        (field sampled resultDssActualEffectiveSpadsSd0 2)
  status : store'.rangingData.rangeStatus =
    rangeStatusOf store'.results.rangeStatus store'.results.streamCount
  interrupt : field mem' systemInterruptClear 1 = 1
  calibrated : store'.calibrated = true
  frame : Drift (volatile ∪ readingRegisters store.calibrated) mem mem'

section Reading

variable {volatile : Set Index} {store : Globals} {mem : Memory 16}

theorem file_setupManualCalibration {Q : Unit → Globals → Memory 16 → Prop}
    (h : ∀ vhvInit vhvTimeout mem', Drift (volatile ∪ calibrationRegisters) mem mem' →
      Q () { store with savedVhvInit := vhvInit, savedVhvTimeout := vhvTimeout } mem') :
    FileLeads volatile setupManualCalibration Q store mem := by
  apply FileLeads.seq
  apply file_readReg
  intro m₁ vhvInit d₁ _
  apply FileLeads.seq
  apply file_update
  apply FileLeads.seq
  apply file_readReg
  intro m₂ vhvTimeout d₂ _
  apply FileLeads.seq
  apply file_update
  apply FileLeads.seq
  apply file_set8
  intro m₃ d₃ _
  apply FileLeads.seq
  apply file_set8
  intro m₄ d₄ _
  apply FileLeads.seq
  apply file_set8
  intro m₅ d₅ _
  apply FileLeads.seq
  apply file_readReg
  intro m₆ vcselStart d₆ _
  apply file_set8
  intro m₇ d₇ _
  apply h
  have hread : Drift (volatile ∪ calibrationRegisters) mem m₃ :=
    ((d₁.trans d₂).widen _).trans (d₃.within fun i hi => Or.inl (Or.inl (Or.inl hi)))
  exact hread.trans ((d₄.within fun i hi => Or.inl (Or.inl (Or.inr hi))).trans
    ((d₅.within fun i hi => Or.inl (Or.inr hi)).trans ((d₆.widen _).trans
      (d₇.within fun i hi => Or.inr hi))))

theorem file_dataReady {Q : Bool → Globals → Memory 16 → Prop}
    (h : ∀ ready mem', Drift volatile mem mem' → Q ready store mem') :
    FileLeads volatile dataReady Q store mem := by
  apply FileLeads.seq
  apply file_readReg
  intro mem' status hdrift _
  exact file_pure (h _ mem' hdrift)

theorem file_checkTimeoutExpired {highFirst : Bool} {Q : Bool → Globals → Memory 16 → Prop}
    (h : ∀ expired, (expired = true → ∃ now, Expired store now) → Q expired store mem) :
    FileLeads volatile (checkTimeoutExpired highFirst) Q store mem := by
  apply FileLeads.seq
  apply file_load
  by_cases htimeout : store.ioTimeout > 0
  · rw [if_pos htimeout]
    apply FileLeads.seq
    apply file_getTimeMs
    intro now
    apply file_pure
    apply h
    intro hexpired
    exact ⟨now, htimeout, of_decide_eq_true hexpired⟩
  · rw [if_neg htimeout]
    exact file_pure (h false nofun)

theorem file_waitData {highFirst : Bool} {Q : Bool → Globals → Memory 16 → Prop}
    (h : ∀ expired mem', (expired = true → ∃ now, Expired store now) → Drift volatile mem mem' →
      Q expired store mem') :
    FileLeads volatile (waitData highFirst) Q store mem := by
  refine file_loop (fun store' mem' => store' = store ∧ Drift volatile mem mem') ?_
    ⟨rfl, Drift.refl⟩
  rintro _ m₁ ⟨rfl, d₁⟩
  apply FileLeads.seq
  apply file_dataReady
  intro ready m₂ d₂
  have hdrift := d₁.trans d₂
  cases ready with
  | true =>
      apply file_pure
      refine ⟨?_, nofun⟩
      rintro _ ⟨⟩
      exact h false m₂ nofun hdrift
  | false =>
      apply FileLeads.seq
      apply file_checkTimeoutExpired
      intro expired hexpired
      cases expired with
      | true =>
          apply file_pure
          refine ⟨?_, nofun⟩
          rintro _ ⟨⟩
          exact h true m₂ hexpired hdrift
      | false =>
          exact file_pure ⟨nofun, fun _ => ⟨rfl, hdrift⟩⟩

theorem file_getRangingData {Q : Unit → Globals → Memory 16 → Prop}
    (h : ∀ data : RangingData,
      data.rangeMm.toNat =
        (store.results.finalCrosstalkCorrectedRangeMmSd0.toNat * 2011 + 1024) / 2048 →
      data.rangeStatus = rangeStatusOf store.results.rangeStatus store.results.streamCount →
      Q () { store with rangingData := data } mem) :
    FileLeads volatile getRangingData Q store mem :=
  file_update (h _ (rangeMm_toNat _) rfl)

theorem file_calibrate {Q : Unit → Globals → Memory 16 → Prop}
    (h : ∀ vhvInit vhvTimeout mem',
      Drift (volatile ∪ if store.calibrated then ∅ else calibrationRegisters) mem mem' →
      Q () { store with
        savedVhvInit := vhvInit, savedVhvTimeout := vhvTimeout, calibrated := true } mem') :
    FileLeads volatile calibrate Q store mem := by
  apply FileLeads.seq
  apply file_load
  by_cases hcalibrated : store.calibrated
  · rw [if_pos hcalibrated]
    apply file_pure
    have hstay := h store.savedVhvInit store.savedVhvTimeout mem fun _ _ => rfl
    rwa [← hcalibrated] at hstay
  · rw [if_neg hcalibrated]
    rw [if_neg hcalibrated] at h
    apply FileLeads.seq
    apply file_setupManualCalibration
    intro vhvInit vhvTimeout mem' hdrift
    exact file_update (h vhvInit vhvTimeout mem' hdrift)

theorem file_takeReading
    (hvolatile : Disjoint (span dssConfigManualEffectiveSpadsSelect 2) volatile) :
    FileLeads volatile takeReading (Ranged volatile store mem) store mem := by
  apply FileLeads.seq
  apply file_readResults
  intro sampled results hsampled hresults
  apply FileLeads.seq
  apply file_calibrate
  intro vhvInit vhvTimeout m₁ d₁
  apply FileLeads.seq
  apply FileLeads.seq
  apply file_load
  apply file_set16
  intro m₂ d₂ hspads
  apply FileLeads.seq
  apply file_getRangingData
  intro data hrange hstatus
  apply FileLeads.seq
  apply file_set8
  intro m₃ d₃ hinterrupt
  apply FileLeads.seq
  apply file_load
  apply file_pure
  have hkeep : ∀ k < 2, dssConfigManualEffectiveSpadsSelect + BitVec.ofNat 16 k ∉ volatile :=
    fun k hk => Set.disjoint_left.mp hvolatile (mem_span (by decide) hk)
  exact {
    sampled := by
      refine ⟨sampled, hsampled, hresults, ?_, ?_⟩
      · rw [hrange, ← hresults.range]
      · rw [field_keep hkeep d₃ (by decide), hspads, requiredSpads_toNat, ← hresults.peak,
          ← hresults.ambient, ← hresults.spads]
    status := hstatus
    interrupt := hinterrupt
    calibrated := rfl
    frame := (hsampled.widen _).trans ((d₁.within fun i hi => Or.inr hi).trans
      ((d₂.within fun i hi => Or.inl (Or.inl hi)).trans
        (d₃.within fun i hi => Or.inl (Or.inr hi)))) }

/-- The sensor may have changed before. -/
theorem Ranged.of_drift {range : BitVec 16} {start : BitVec 16} {store' : Globals}
    {mem₁ mem' : Memory 16} (hdrift : Drift volatile mem mem₁)
    (h : Ranged volatile { store with timeoutStartMs := start } mem₁ range store' mem') :
    Ranged volatile store mem range store' mem' where
  sampled := by
    obtain ⟨sampled, hsampled, hrest⟩ := h.sampled
    exact ⟨sampled, hdrift.trans hsampled, hrest⟩
  status := h.status
  interrupt := h.interrupt
  calibrated := h.calibrated
  frame := (hdrift.widen _).trans h.frame

theorem file_read (highFirst blocking : Bool)
    (hvolatile : Disjoint (span dssConfigManualEffectiveSpadsSelect 2) volatile) :
    FileLeads volatile (read highFirst blocking)
      (fun range store' mem' => blocking = true ∧ TimedOut volatile store mem range store' mem' ∨
        Ranged volatile store mem range store' mem') store mem := by
  cases blocking with
  | false => exact (file_takeReading hvolatile).mono fun _ _ _ hranged => Or.inr hranged
  | true =>
      apply FileLeads.seq
      apply FileLeads.seq
      apply file_getTimeMs
      intro now
      apply file_update
      apply FileLeads.seq
      apply file_waitData
      intro expired m₁ hexpired d₁
      cases expired with
      | true =>
          apply FileLeads.seq
          apply file_update
          exact file_pure (Or.inl ⟨rfl, rfl, hexpired rfl, rfl, d₁⟩)
      | false =>
          apply (file_takeReading hvolatile).mono
          intro range store' mem' hranged
          exact Or.inr (hranged.of_drift d₁)

/-- In every run, whatever the controller answers and however often the sensor is
asked for data, a reading that does not time out returns the corrected range of
one sample and leaves the registers as that sample says, and one that times out
had a timeout set, which was over, returns 0 and writes nothing. -/
theorem read_ranges (highFirst blocking : Bool)
    (hvolatile : Disjoint (span dssConfigManualEffectiveSpadsSelect 2) volatile)
    {s : Controller} (hs : s.At .idle) (t : Registers) :
    wp (sensorBus (registerFile volatile) fun _ => False).contract (read highFirst blocking)
      (fun range store' st => st.1.At .idle ∧
        (blocking = true ∧ TimedOut volatile store t.memory range store' st.2.memory ∨
          Ranged volatile store t.memory range store' st.2.memory)) store (s, t) :=
  file_read highFirst blocking hvolatile t rfl s hs

theorem read_ranges_start :
    wp (sensorBus (registerFile {gpioTioHvStatus}) fun _ => False).contract (read true true)
      (fun range store' st => st.1.At .idle ∧
        (true = true ∧
            TimedOut {gpioTioHvStatus} Globals.start (fun _ => 0) range store' st.2.memory ∨
          Ranged {gpioTioHvStatus} Globals.start (fun _ => 0) range store' st.2.memory))
      Globals.start (⟨true, .idle, false, false⟩, ⟨fun _ => 0, 0, 0⟩) :=
  read_ranges true true
    (Set.disjoint_singleton_right.mpr (Nat.not_lt_of_le (by decide))) ⟨rfl, rfl⟩
    ⟨fun _ => 0, 0, 0⟩

end Reading

end KyogenRV.VL53L1X
