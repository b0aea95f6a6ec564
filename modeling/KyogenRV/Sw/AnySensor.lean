import KyogenRV.Sw.Ranging

/-!
# The driver on any sensor

Nothing is known here of what the sensor answers, only the answers of three
registers are watched: the frequency of the oscillator and the two VCSEL
periods.  As long as they are credible, the driver does not divide by zero.
-/

namespace KyogenRV.VL53L1X

open Dialogue Firmware QsysI2c

/-- The index of the next byte, how many bytes of an index are still to come,
and whether all answers were credible. -/
structure Watched where
  index : Index
  indexLeft : ℕ
  credible : Bool

def Watched.take (t : Watched) (data : Byte) : Watched :=
  match t.indexLeft with
  | 0 => { t with index := t.index + 1 }
  | 1 => { t with index := t.index ||| data.setWidth 16, indexLeft := 0 }
  | _ + 2 => { t with index := data.setWidth 16 <<< 8, indexLeft := 1 }

/-- A frequency of at least 2304, and periods below 127. -/
def credibleAt (index : Index) (data : Byte) : Bool :=
  if index = oscMeasuredFastOscFrequency then 9 ≤ data.toNat
  else if index = rangeConfigVcselPeriodA ∨ index = rangeConfigVcselPeriodB then data.toNat < 127
  else true

/-- Any sensor, with its answers watched. -/
def watchedSensor : Slave Watched where
  start _ t t' := t' = { t with indexLeft := 2 }
  write data t t' := t' = t.take data
  read data t t' := t' = { t with
    index := t.index + 1
    credible := t.credible && credibleAt t.index (data.setWidth 8) }
  stop t t' := t' = t

/-- Its bus: what is undefined can happen only after an answer that was not
credible. -/
def watchedBus : Bus Watched := sensorBus watchedSensor fun t => t.credible = false

section Frames

variable {t t' t₁ : Watched} {reg : Index} {bytes : List Byte} {words : List Word}

theorem credible_of_writes (h : watchedSensor.Writes bytes t t') :
    t'.credible = t.credible := by
  induction bytes generalizing t with
  | nil => rw [show t' = t from h]
  | cons data bytes ih =>
      obtain ⟨t₁, rfl, hbytes⟩ := h
      rw [ih hbytes, Watched.take]
      split
      all_goals rfl

theorem credible_of_sends (h : watchedSensor.Sends bytes t t') :
    t'.credible = t.credible := by
  obtain ⟨t₂, ⟨_, rfl, hbytes⟩, rfl⟩ := h
  exact (credible_of_writes hbytes).trans rfl

theorem index_of_sends (h : watchedSensor.Sends [byte reg 8, byte reg 0] t t') :
    t'.index = reg := by
  obtain ⟨t₂, ⟨_, rfl, _, rfl, _, rfl, rfl⟩, rfl⟩ := h
  exact index_bytes reg

theorem credible_of_reads (h : watchedSensor.Reads words t t') (hcredible : t'.credible = true) :
    t.credible = true ∧ ∀ first rest, words = first :: rest →
      credibleAt t.index (first.setWidth 8) = true := by
  induction words generalizing t with
  | nil =>
      rw [show t' = t from h] at hcredible
      exact ⟨hcredible, nofun⟩
  | cons data words ih =>
      obtain ⟨t₁, rfl, hwords⟩ := h
      obtain ⟨hboth, -⟩ := ih hwords
      rw [Bool.and_eq_true] at hboth
      refine ⟨hboth.1, ?_⟩
      rintro first rest hfirst
      rw [← (List.cons.inj hfirst).1]
      exact hboth.2

/-- The two frames of a reading. -/
theorem credible_of_reading (hsends : watchedSensor.Sends [byte reg 8, byte reg 0] t t₁)
    (hreceives : watchedSensor.Receives words t₁ t') (hcredible : t'.credible = true) :
    t.credible = true ∧ ∀ first rest, words = first :: rest →
      credibleAt reg (first.setWidth 8) = true := by
  obtain ⟨t₂, ⟨_, rfl, hwords⟩, rfl⟩ := hreceives
  have hreads := credible_of_reads hwords hcredible
  rw [← index_of_sends hsends]
  exact ⟨credible_of_sends hsends ▸ hreads.1, hreads.2⟩

end Frames

/-! ## Rules -/

/-- Between two frames, over whether all answers were credible. -/
def WatchLeads {γ α : Type} (m : Firmware γ α) (Q : α → γ → Bool → Prop) (store : γ)
    (credible : Bool) : Prop :=
  ∀ t : Watched, t.credible = credible →
    watchedBus.Leads .idle m .idle (fun value store t => Q value store t.credible) store t

section Rules

variable {γ α β : Type} {store : γ} {credible : Bool} {reg : Index}

theorem WatchLeads.mono {m : Firmware γ α} {Q R : α → γ → Bool → Prop}
    (h : WatchLeads m Q store credible)
    (hQR : ∀ value store credible, Q value store credible → R value store credible) :
    WatchLeads m R store credible :=
  fun t ht => (h t ht).mono fun value store t => hQR value store t.credible

theorem WatchLeads.seq {m : Firmware γ α} {f : α → Firmware γ β} {Q : β → γ → Bool → Prop}
    (h : WatchLeads m (fun value store credible => WatchLeads (f value) Q store credible)
      store credible) : WatchLeads (m >>= f) Q store credible :=
  fun t ht => Bus.Leads.seq ((h t ht).mono fun _ _ t hf => hf t rfl)

theorem watch_pure {Q : α → γ → Bool → Prop} {value : α} (h : Q value store credible) :
    WatchLeads (pure value) Q store credible :=
  fun _ ht => leads_pure (ht ▸ h)

theorem watch_load {Q : γ → γ → Bool → Prop} (h : Q store store credible) :
    WatchLeads load Q store credible :=
  fun _ ht => leads_load (ht ▸ h)

theorem watch_update {f : γ → γ} {Q : Unit → γ → Bool → Prop} (h : Q () (f store) credible) :
    WatchLeads (update f) Q store credible :=
  fun _ ht => leads_update (ht ▸ h)

theorem watch_defined {o : Option α} {Q : α → γ → Bool → Prop}
    (hsome : ∀ value, o = some value → Q value store credible)
    (hnone : credible = true → o ≠ none) : WatchLeads (defined o) Q store credible := by
  intro t ht
  apply leads_defined
  · exact fun value hvalue => ht ▸ hsome value hvalue
  · intro hfail
    exact Bool.eq_false_of_not_eq_true fun htrue => hnone (ht ▸ htrue) hfail

theorem watch_getTimeMs {highFirst : Bool} {Q : BitVec 64 → γ → Bool → Prop}
    (h : ∀ time, Q time store credible) : WatchLeads (getTimeMs highFirst) Q store credible :=
  fun _ ht => leads_getTimeMs fun time => ht ▸ h time

theorem watch_waitMs {highFirst : Bool} {msec : BitVec 64} {Q : Unit → γ → Bool → Prop}
    (h : Q () store credible) : WatchLeads (waitMs highFirst msec) Q store credible :=
  fun _ ht => leads_waitMs (ht ▸ h)

theorem watch_loop {body : Firmware γ (Option α)} {Q : α → γ → Bool → Prop} (I : γ → Bool → Prop)
    (hbody : ∀ store credible, I store credible →
      WatchLeads body (fun result store credible =>
        (∀ value, result = some value → Q value store credible) ∧
          (result = none → I store credible)) store credible)
    (h : I store credible) : WatchLeads (loop body) Q store credible :=
  fun _ ht => leads_loop (fun store t => I store t.credible)
    (fun store t hI => hbody store t.credible hI t rfl) (ht ▸ h)

theorem watch_writeReg {v : BitVec 8} {Q : Unit → γ → Bool → Prop} (h : Q () store credible) :
    WatchLeads (writeReg reg v) Q store credible :=
  fun _ ht => leads_writeReg fun _ hsends => by rwa [credible_of_sends hsends, ht]

theorem watch_writeReg16Bit {v : BitVec 16} {Q : Unit → γ → Bool → Prop}
    (h : Q () store credible) : WatchLeads (writeReg16Bit reg v) Q store credible :=
  fun _ ht => leads_writeReg16Bit fun _ hsends => by rwa [credible_of_sends hsends, ht]

theorem watch_writeReg32Bit {v : BitVec 32} {Q : Unit → γ → Bool → Prop}
    (h : Q () store credible) : WatchLeads (writeReg32Bit reg v) Q store credible :=
  fun _ ht => leads_writeReg32Bit fun _ hsends => by rwa [credible_of_sends hsends, ht]

theorem watch_readReg {Q : BitVec 8 → γ → Bool → Prop}
    (h : ∀ v credible', (credible' = true → credible = true ∧ credibleAt reg v = true) →
      Q v store credible') : WatchLeads (readReg reg) Q store credible := by
  intro t ht
  apply leads_readReg
  intro data t₁ t' hsends hreceives
  apply h
  intro htrue
  obtain ⟨hbefore, hdata⟩ := credible_of_reading hsends hreceives htrue
  exact ⟨ht ▸ hbefore, hdata data [] rfl⟩

/-- Of two bytes the first is watched. -/
theorem watch_readReg16Bit {Q : BitVec 16 → γ → Bool → Prop}
    (h : ∀ v credible',
      (credible' = true → credible = true ∧
        ∃ high : Byte, credibleAt reg high = true ∧ high.toNat * 256 ≤ v.toNat) →
      Q v store credible') : WatchLeads (readReg16Bit reg) Q store credible := by
  intro t ht
  apply leads_readReg16Bit
  intro high low t₁ t' hsends hreceives
  apply h
  intro htrue
  obtain ⟨hbefore, hdata⟩ := credible_of_reading hsends hreceives htrue
  refine ⟨ht ▸ hbefore, high.setWidth 8, hdata high [low] rfl, ?_⟩
  have hhigh : ((high <<< 8).setWidth 16).toNat = (high.setWidth 8).toNat * 256 := by
    rw [BitVec.toNat_setWidth, BitVec.toNat_setWidth, BitVec.toNat_shiftLeft, Nat.shiftLeft_eq]
    omega
  rw [BitVec.toNat_or, hhigh]
  exact Nat.left_le_or

end Rules

/-! ## The driver -/

section Driver

variable {store : Globals} {credible : Bool}

/-- The frequency is credible if the answers were. -/
def FrequencyKnown (store : Globals) (credible : Bool) : Prop :=
  credible = true → 2304 ≤ store.fastOscFrequency.toNat

theorem credibleAt_period {vcselPeriod : BitVec 8} {reg : Index}
    (hreg : reg = rangeConfigVcselPeriodA ∨ reg = rangeConfigVcselPeriodB)
    (h : credibleAt reg vcselPeriod = true) : vcselPeriod.toNat < 127 := by
  have hne : reg ≠ oscMeasuredFastOscFrequency := by
    rintro rfl
    obtain heq | heq := hreg
    · exact absurd heq (by decide)
    · exact absurd heq (by decide)
  rw [credibleAt, if_neg hne, if_pos hreg] at h
  exact of_decide_eq_true h

theorem credibleAt_frequency {high : Byte}
    (h : credibleAt oscMeasuredFastOscFrequency high = true) : 9 ≤ high.toNat := by
  rw [credibleAt, if_pos rfl] at h
  exact of_decide_eq_true h

theorem watch_distancePreset {a b phase initial : BitVec 8} {Q : Unit → Globals → Bool → Prop}
    (h : Q () store credible) : WatchLeads (distancePreset a b phase initial) Q store credible := by
  repeat
    apply WatchLeads.seq
    apply watch_writeReg
  exact watch_writeReg h

theorem watch_setDistanceMode (mode : BitVec 8) {Q : Bool → Globals → Bool → Prop}
    (h : Q false store credible) : WatchLeads (setDistanceMode mode) Q store credible := by
  rw [setDistanceMode]
  split_ifs
  · exact WatchLeads.seq (watch_distancePreset (watch_pure h))
  · exact WatchLeads.seq (watch_distancePreset (watch_pure h))
  · exact WatchLeads.seq (watch_distancePreset (watch_pure h))
  · exact watch_pure h

/-- A period is read, and the macro period calculated from it is not zero. -/
theorem watch_macroPeriod {reg : Index} {rest : Word → Driver Bool}
    {Q : Bool → Globals → Bool → Prop}
    (hreg : reg = rangeConfigVcselPeriodA ∨ reg = rangeConfigVcselPeriodB)
    (hknown : FrequencyKnown store credible)
    (h : ∀ period credible', (credible' = true → credible = true) →
      (credible' = true → period ≠ 0) → WatchLeads (rest period) Q store credible') :
    WatchLeads (do
      let macroPeriodUs ← macroPeriod (← readReg reg)
      rest macroPeriodUs) Q store credible := by
  apply WatchLeads.seq
  apply watch_readReg
  intro v credible' hv
  have hcalc : credible' = true → ∃ period,
      calcMacroPeriod store.fastOscFrequency v = some period ∧ period ≠ 0 := by
    intro htrue
    obtain ⟨hbefore, hdata⟩ := hv htrue
    have hf := hknown hbefore
    obtain ⟨period, hsome, hperiod⟩ := calcMacroPeriod_eq hf (credibleAt_period hreg hdata)
    refine ⟨period, hsome, ?_⟩
    rintro rfl
    exact absurd hperiod (Nat.ne_of_lt (macroPeriodOf_pos hf))
  apply WatchLeads.seq
  apply WatchLeads.seq
  apply watch_load
  apply watch_defined
  · intro period hperiod
    apply h period credible' fun htrue => (hv htrue).1
    intro htrue
    obtain ⟨period', hsome, hne⟩ := hcalc htrue
    rwa [Option.some.inj (hperiod.symm.trans hsome)]
  · intro htrue hnone
    obtain ⟨period, hsome, -⟩ := hcalc htrue
    exact absurd (hnone.symm.trans hsome) nofun

theorem watch_mclks {timeoutUs period : Word} {Q : Word → Globals → Bool → Prop}
    (hperiod : credible = true → period ≠ 0) (h : ∀ mclks, Q mclks store credible) :
    WatchLeads (defined (timeoutMicrosecondsToMclks timeoutUs period)) Q store credible :=
  watch_defined (fun mclks _ => h mclks) fun htrue => by
    rw [timeoutMicrosecondsToMclks, if_neg (hperiod htrue)]
    exact nofun

theorem watch_setMeasurementTimingBudget (budgetUs : Word) {Q : Bool → Globals → Bool → Prop}
    (hknown : FrequencyKnown store credible)
    (h : ∀ done credible', (credible' = true → credible = true) → Q done store credible') :
    WatchLeads (setMeasurementTimingBudget budgetUs) Q store credible := by
  rw [setMeasurementTimingBudget]
  by_cases hguard : budgetUs ≤ timingGuard
  · rw [if_pos hguard]
    exact watch_pure (h _ _ id)
  rw [if_neg hguard]
  by_cases hmax : budgetUs - timingGuard > 1100000
  · rw [if_pos hmax]
    exact watch_pure (h _ _ id)
  rw [if_neg hmax]
  apply watch_macroPeriod (.inl rfl) hknown
  intro period credible' hbefore hperiod
  apply WatchLeads.seq
  apply watch_mclks hperiod
  intro _
  apply WatchLeads.seq
  apply watch_writeReg
  apply WatchLeads.seq
  apply watch_mclks hperiod
  intro _
  apply WatchLeads.seq
  apply watch_writeReg16Bit
  apply WatchLeads.seq
  apply watch_mclks hperiod
  intro _
  apply WatchLeads.seq
  apply watch_writeReg16Bit
  apply watch_macroPeriod (.inr rfl) fun htrue => hknown (hbefore htrue)
  intro period credible'' hbefore' hperiod
  apply WatchLeads.seq
  apply watch_mclks hperiod
  intro _
  apply WatchLeads.seq
  apply watch_writeReg16Bit
  apply WatchLeads.seq
  apply watch_mclks hperiod
  intro _
  apply WatchLeads.seq
  apply watch_writeReg16Bit
  exact watch_pure (h _ _ fun htrue => hbefore (hbefore' htrue))

theorem watch_waitBoot {Q : Unit → Globals → Bool → Prop} (h : ∀ credible', Q () store credible') :
    WatchLeads waitBoot Q store credible := by
  refine watch_loop (fun store' _ => store' = store) ?_ rfl
  rintro _ credible rfl
  apply WatchLeads.seq
  apply watch_readReg
  intro status credible' _
  exact watch_pure ⟨fun _ _ => h credible', fun _ => rfl⟩

section Writes

variable {γ α : Type} {store : γ} {reg : Index} {rest : Firmware γ α} {Q : α → γ → Bool → Prop}

theorem watch_thenWrite {v : BitVec 8} (h : WatchLeads rest Q store credible) :
    WatchLeads (writeReg reg v >>= fun _ => rest) Q store credible :=
  WatchLeads.seq (watch_writeReg h)

theorem watch_thenWrite16 {v : BitVec 16} (h : WatchLeads rest Q store credible) :
    WatchLeads (writeReg16Bit reg v >>= fun _ => rest) Q store credible :=
  WatchLeads.seq (watch_writeReg16Bit h)

end Writes

theorem watch_staticInit {Q : Unit → Globals → Bool → Prop} (hknown : FrequencyKnown store credible)
    (h : ∀ credible', (credible' = true → credible = true) → Q () store credible') :
    WatchLeads staticInit Q store credible := by
  apply watch_thenWrite16
  apply watch_thenWrite
  apply watch_thenWrite
  apply watch_thenWrite
  apply watch_thenWrite
  apply watch_thenWrite
  apply watch_thenWrite
  apply watch_thenWrite
  apply watch_thenWrite16
  apply watch_thenWrite16
  apply watch_thenWrite
  apply watch_thenWrite16
  apply watch_thenWrite16
  apply watch_thenWrite
  apply watch_thenWrite
  apply watch_thenWrite
  apply watch_thenWrite
  apply watch_thenWrite
  apply watch_thenWrite
  apply watch_thenWrite16
  apply watch_thenWrite
  apply WatchLeads.seq
  apply watch_setDistanceMode
  apply WatchLeads.seq
  apply watch_setMeasurementTimingBudget _ hknown
  intro _ credible' hbefore
  exact watch_pure (h credible' hbefore)

/-- The frequency is known when the sensor was found. -/
theorem watch_init (highFirst : Bool) {Q : Bool → Globals → Bool → Prop}
    (hfailed : ∀ credible', Q false store credible')
    (h : ∀ store' credible', FrequencyKnown store' credible' → Q true store' credible') :
    WatchLeads (init highFirst) Q store credible := by
  apply WatchLeads.seq
  apply watch_readReg16Bit
  intro modelId p₁ _
  by_cases hmodel : modelId ≠ 0xEACC
  · rw [if_pos hmodel]
    exact watch_pure (hfailed p₁)
  rw [if_neg hmodel]
  apply watch_thenWrite
  apply WatchLeads.seq
  apply watch_waitMs
  apply watch_thenWrite
  apply WatchLeads.seq
  apply watch_waitMs
  apply WatchLeads.seq
  apply watch_waitBoot
  intro p₂
  apply WatchLeads.seq
  apply watch_readReg
  intro config p₃ _
  apply watch_thenWrite
  apply WatchLeads.seq
  apply watch_readReg16Bit
  intro frequency p₄ hfrequency
  apply WatchLeads.seq
  apply watch_update
  apply WatchLeads.seq
  apply watch_readReg16Bit
  intro calibrate p₅ hcalibrate
  apply WatchLeads.seq
  apply watch_update
  have hknown : FrequencyKnown
      { store with fastOscFrequency := frequency, oscCalibrateVal := calibrate } p₅ := by
    intro htrue
    obtain ⟨-, high, hhigh, hle⟩ := hfrequency (hcalibrate htrue).1
    have hnine := credibleAt_frequency hhigh
    change 2304 ≤ frequency.toNat
    omega
  apply WatchLeads.seq
  apply watch_staticInit hknown
  intro p₆ hstatic
  apply WatchLeads.seq
  apply watch_readReg16Bit
  intro offset p₇ hoffset
  apply watch_thenWrite16
  exact watch_pure (h _ p₇ fun htrue => hknown (hstatic (hoffset htrue).1))

theorem watch_startContinuous (periodMs : Word) {Q : Unit → Globals → Bool → Prop}
    (h : Q () store credible) : WatchLeads (startContinuous periodMs) Q store credible := by
  apply WatchLeads.seq
  apply watch_load
  apply WatchLeads.seq
  apply watch_writeReg32Bit
  apply watch_thenWrite
  exact watch_writeReg h

/-! ### Readings -/

/-- A range as it is returned. -/
def Corrected (range : BitVec 16) : Prop :=
  ∃ measured : BitVec 16, range.toNat = (measured.toNat * 2011 + 1024) / 2048

theorem watch_readResults {Q : Unit → Globals → Bool → Prop}
    (h : ∀ results credible', Q () { store with results := results } credible') :
    WatchLeads readResults Q store credible :=
  fun _ _ => leads_readResults fun _ _ _ _ _ _ => h _ _

theorem watch_calibrate {Q : Unit → Globals → Bool → Prop}
    (h : ∀ store' credible', store'.results = store.results → Q () store' credible') :
    WatchLeads calibrate Q store credible := by
  apply WatchLeads.seq
  apply watch_load
  by_cases hcalibrated : store.calibrated
  · rw [if_pos hcalibrated]
    exact watch_pure (h _ _ rfl)
  rw [if_neg hcalibrated]
  apply WatchLeads.seq
  apply WatchLeads.seq
  apply watch_readReg
  intro vhvInit p₁ _
  apply WatchLeads.seq
  apply watch_update
  apply WatchLeads.seq
  apply watch_readReg
  intro vhvTimeout p₂ _
  apply WatchLeads.seq
  apply watch_update
  apply watch_thenWrite
  apply watch_thenWrite
  apply watch_thenWrite
  apply WatchLeads.seq
  apply watch_readReg
  intro vcselStart p₃ _
  apply watch_writeReg
  exact watch_update (h _ _ rfl)

theorem watch_takeReading {Q : BitVec 16 → Globals → Bool → Prop}
    (h : ∀ range store' credible', Corrected range → Q range store' credible') :
    WatchLeads takeReading Q store credible := by
  apply WatchLeads.seq
  apply watch_readResults
  intro results p₁
  apply WatchLeads.seq
  apply watch_calibrate
  intro store' p₂ _
  apply WatchLeads.seq
  apply WatchLeads.seq
  apply watch_load
  apply watch_writeReg16Bit
  apply WatchLeads.seq
  apply watch_update
  apply watch_thenWrite
  apply WatchLeads.seq
  apply watch_load
  exact watch_pure (h _ _ _ ⟨_, rangeMm_toNat _⟩)

theorem watch_dataReady {Q : Bool → Globals → Bool → Prop}
    (h : ∀ ready credible', Q ready store credible') :
    WatchLeads dataReady Q store credible := by
  apply WatchLeads.seq
  apply watch_readReg
  intro status credible' _
  exact watch_pure (h _ credible')

theorem watch_checkTimeoutExpired {highFirst : Bool} {Q : Bool → Globals → Bool → Prop}
    (h : ∀ expired, Q expired store credible) :
    WatchLeads (checkTimeoutExpired highFirst) Q store credible := by
  apply WatchLeads.seq
  apply watch_load
  by_cases htimeout : store.ioTimeout > 0
  · rw [if_pos htimeout]
    apply WatchLeads.seq
    apply watch_getTimeMs
    exact fun _ => watch_pure (h _)
  · rw [if_neg htimeout]
    exact watch_pure (h _)

theorem watch_waitData (highFirst : Bool) {Q : Bool → Globals → Bool → Prop}
    (h : ∀ expired credible', Q expired store credible') :
    WatchLeads (waitData highFirst) Q store credible := by
  refine watch_loop (fun store' _ => store' = store) ?_ rfl
  rintro _ credible rfl
  apply WatchLeads.seq
  apply watch_dataReady
  intro ready p₁
  cases ready with
  | true => exact watch_pure ⟨fun expired _ => h expired p₁, nofun⟩
  | false =>
      apply WatchLeads.seq
      apply watch_checkTimeoutExpired
      intro expired
      cases expired with
      | true => exact watch_pure ⟨fun expired _ => h expired p₁, nofun⟩
      | false => exact watch_pure ⟨nofun, fun _ => rfl⟩

theorem watch_read (highFirst blocking : Bool) {Q : BitVec 16 → Globals → Bool → Prop}
    (h : ∀ range store' credible', Corrected range → Q range store' credible') :
    WatchLeads (read highFirst blocking) Q store credible := by
  cases blocking with
  | false => exact watch_takeReading h
  | true =>
      apply WatchLeads.seq
      apply WatchLeads.seq
      apply watch_getTimeMs
      intro now
      apply watch_update
      apply WatchLeads.seq
      apply watch_waitData
      intro expired p₁
      cases expired with
      | true =>
          apply WatchLeads.seq
          apply watch_update
          exact watch_pure (h 0 _ _ ⟨0, rfl⟩)
      | false => exact watch_takeReading h

end Driver

end KyogenRV.VL53L1X
