import KyogenRV.Sw.TimingBudget

/-!
# The configuration of the sensor

`VL53L1X_init` resets the sensor, waits for its boot, and then writes one
register after the other.  Until the sensor has settled, its registers may
change; after that those that it leaves alone keep what the driver has last
written, so in the end the static configuration, the timeouts and the range offset
are there.
-/

namespace KyogenRV.VL53L1X

open Dialogue Firmware QsysI2c BigEndian

/-! ## A sensor that is reset -/

/-- The registers, and whether the sensor has settled after its reset. -/
structure Booting where
  file : Registers
  settled : Bool

/-- Until it has settled, the registers of `resets` may change, too.  It reports
the end of its boot only when it has, with the frequency of its oscillator. -/
def bootingFile (resets volatile : Set Index) : Slave Booting where
  start isRead t t' :=
    (registerFile (if t.settled then volatile else volatile ∪ resets)).start isRead t.file t'.file ∧
      (t.settled = true → t'.settled = true)
  write data t t' := (registerFile volatile).write data t.file t'.file ∧ t'.settled = t.settled
  read data t t' :=
    (registerFile volatile).read data t.file t'.file ∧ t'.settled = t.settled ∧
      (t.file.index = firmwareSystemStatus → data.getLsbD 0 = true →
        t.settled = true ∧ 2304 ≤ field t.file.memory oscMeasuredFastOscFrequency 2)
  stop t t' := (registerFile volatile).stop t.file t'.file ∧ t'.settled = t.settled

section Simulation

variable {resets volatile : Set Index}

theorem simulated_booting :
    (bootingFile resets volatile).SimulatedBy (registerFile (volatile ∪ resets))
      fun t r => t.file = r where
  start := by
    rintro t _ isRead t' rfl ⟨⟨hdrift, hindex⟩, -⟩
    refine ⟨t'.file, ⟨?_, hindex⟩, rfl⟩
    split at hdrift
    · exact hdrift.mono Set.subset_union_left
    · exact hdrift
  write := by
    rintro t _ data t' rfl ⟨hwrite, -⟩
    exact ⟨t'.file, hwrite, rfl⟩
  read := by
    rintro t _ data t' rfl ⟨hread, -⟩
    exact ⟨t'.file, hread, rfl⟩
  stop := by
    rintro t _ t' rfl ⟨hstop, -⟩
    exact ⟨t'.file, hstop, rfl⟩

theorem simulated_settled :
    (bootingFile resets volatile).SimulatedBy (registerFile volatile)
      fun t r => t.settled = true ∧ t.file = r where
  start := by
    rintro t _ isRead t' ⟨hsettled, rfl⟩ ⟨hstart, hkeeps⟩
    rw [if_pos hsettled] at hstart
    exact ⟨t'.file, hstart, hkeeps hsettled, rfl⟩
  write := by
    rintro t _ data t' ⟨hsettled, rfl⟩ ⟨hwrite, hkeeps⟩
    exact ⟨t'.file, hwrite, hkeeps ▸ hsettled, rfl⟩
  read := by
    rintro t _ data t' ⟨hsettled, rfl⟩ ⟨hread, hkeeps, -⟩
    exact ⟨t'.file, hread, hkeeps ▸ hsettled, rfl⟩
  stop := by
    rintro t _ t' ⟨hsettled, rfl⟩ ⟨hstop, hkeeps⟩
    exact ⟨t'.file, hstop, hkeeps ▸ hsettled, rfl⟩

end Simulation

/-- The bus of that sensor. -/
def bootingBus (resets volatile : Set Index) : Bus Booting :=
  sensorBus (bootingFile resets volatile) fun _ => False

section Transfer

variable {γ α : Type} {resets volatile : Set Index} {store : γ} {t : Booting}
variable {m : Firmware γ α} {Q : α → γ → Memory 16 → Prop}

theorem leads_of_simulated {volatile' : Set Index} {rel : Booting → Registers → Prop}
    (hsim : (bootingFile resets volatile).SimulatedBy (registerFile volatile') rel)
    (hrel : rel t t.file) (hfile : ∀ t r, rel t r → t.file = r)
    (h : FileLeads volatile' m Q store t.file.memory) :
    (bootingBus resets volatile).Leads .idle m .idle
      (fun value store t' => rel t' t'.file ∧ Q value store t'.file.memory) store t := by
  intro s hs
  have hbus : SimulatedBy (bootingBus resets volatile).contract
      (sensorBus (registerFile volatile') fun _ => False).contract
        fun s r => s.1 = r.1 ∧ rel s.2 r.2 :=
    contract_simulated hsim rfl rfl fun _ _ _ => id
  apply wp_mono (wp_of_simulated hbus ⟨rfl, hrel⟩ (h t.file rfl s hs))
  rintro value store ⟨s', t'⟩ ⟨⟨s'', r⟩, ⟨rfl, hrel'⟩, hs', hQ⟩
  obtain rfl := hfile t' r hrel'
  exact ⟨hs', hrel', hQ⟩

/-- As long as nothing is known of its boot. -/
theorem leads_booting (h : FileLeads (volatile ∪ resets) m Q store t.file.memory) :
    (bootingBus resets volatile).Leads .idle m .idle
      (fun value store t' => Q value store t'.file.memory) store t :=
  (leads_of_simulated simulated_booting rfl (fun _ _ => id) h).mono fun _ _ _ hQ => hQ.2

/-- When it has settled. -/
theorem leads_settled (hsettled : t.settled = true)
    (h : FileLeads volatile m Q store t.file.memory) :
    (bootingBus resets volatile).Leads .idle m .idle
      (fun value store t' => Q value store t'.file.memory) store t :=
  (leads_of_simulated simulated_settled ⟨hsettled, rfl⟩ (fun _ _ => And.right) h).mono
    fun _ _ _ hQ => hQ.2

end Transfer

/-- After the loop it has settled. -/
theorem leads_waitBoot {resets volatile : Set Index} {store : Globals} {t : Booting}
    {Q : Unit → Globals → Booting → Prop}
    (h : ∀ t', t'.settled = true → 2304 ≤ field t'.file.memory oscMeasuredFastOscFrequency 2 →
      Q () store t') :
    (bootingBus resets volatile).Leads .idle waitBoot .idle Q store t := by
  refine leads_loop (fun store' _ => store' = store) ?_ rfl
  rintro _ t rfl
  apply Bus.Leads.seq
  apply leads_readReg
  intro data t₁ t' hsends hreceives
  apply leads_pure
  refine ⟨fun _ hsome => ?_, fun _ => rfl⟩
  obtain ⟨r, hr, rfl⟩ := simulated_booting.sends rfl hsends
  obtain ⟨mem, -, -, hindex⟩ := of_sends hr
  obtain ⟨t₃, ⟨t₂, hstart, _, hread, rfl⟩, hstop⟩ := hreceives
  obtain ⟨⟨-, hfile⟩, hkeeps, hstatus⟩ := hread
  have hbit : data.getLsbD 0 = true := by
    apply Decidable.byContradiction
    intro hzero
    have hlow : (data.setWidth 8).getLsbD 0 = false := by simpa using hzero
    have hnone : data.setWidth 8 &&& 0x01 = (0 : BitVec 8) := by
      calc data.setWidth 8 &&& 0x01 = (BitVec.ofBool ((data.setWidth 8).getLsbD 0)).setWidth 8 :=
            BitVec.and_one_eq_setWidth_ofBool_getLsbD
        _ = 0 := by rw [hlow]; rfl
    rw [if_pos hnone] at hsome
    cases hsome
  obtain ⟨hsettled, hfrequency⟩ := hstatus (hstart.1.2.1.trans (hindex rfl)) hbit
  apply h t' (hstop.2.trans (hkeeps.trans hsettled))
  rw [hstop.1, hfile]
  exact hfrequency

/-! ## The static configuration -/

/-- A field, and the value that it gets. -/
structure Setting where
  reg : Index
  size : ℕ
  value : ℕ

/-- What `staticInit` writes, but for the timeouts. -/
def configuration : List Setting := [
  ⟨dssConfigTargetTotalRateMcps, 2, 0x0A00⟩,
  ⟨gpioTioHvStatus, 1, 0x02⟩,
  ⟨sigmaEstimatorEffectivePulseWidthNs, 1, 8⟩,
  ⟨sigmaEstimatorEffectiveAmbientWidthNs, 1, 16⟩,
  ⟨algoCrosstalkCompensationValidHeightMm, 1, 0x01⟩,
  ⟨algoRangeIgnoreValidHeightMm, 1, 0xFF⟩,
  ⟨algoRangeMinClip, 1, 0⟩,
  ⟨algoConsistencyCheckTolerance, 1, 2⟩,
  ⟨systemThreshRateHigh, 2, 0x0000⟩,
  ⟨systemThreshRateLow, 2, 0x0000⟩,
  ⟨dssConfigApertureAttenuation, 1, 0x38⟩,
  ⟨rangeConfigSigmaThresh, 2, 360⟩,
  ⟨rangeConfigMinCountRateRtnLimitMcps, 2, 192⟩,
  ⟨systemGroupedParameterHold0, 1, 0x01⟩,
  ⟨systemGroupedParameterHold1, 1, 0x01⟩,
  ⟨sdConfigQuantifier, 1, 2⟩,
  ⟨systemGroupedParameterHold, 1, 0x00⟩,
  ⟨systemSeedConfig, 1, 1⟩,
  ⟨systemSequenceConfig, 1, 0x8B⟩,
  ⟨dssConfigManualEffectiveSpadsSelect, 2, 200 * 256⟩,
  ⟨dssConfigRoiModeControl, 1, 2⟩,
  ⟨rangeConfigVcselPeriodA, 1, 0x0F⟩,
  ⟨rangeConfigVcselPeriodB, 1, 0x0D⟩,
  ⟨rangeConfigValidPhaseHigh, 1, 0xB8⟩,
  ⟨sdConfigWoiSd0, 1, 0x0F⟩,
  ⟨sdConfigWoiSd1, 1, 0x0D⟩,
  ⟨sdConfigInitialPhaseSd0, 1, 14⟩,
  ⟨sdConfigInitialPhaseSd1, 1, 14⟩]

/-- The sensor does not change the field by itself. -/
def Stable (volatile : Set Index) (reg : Index) (n : ℕ) : Prop :=
  ∀ k < n, reg + BitVec.ofNat 16 k ∉ volatile

/-- After these settings, of which none overwrites another: the stable ones are
there, and other fields are as before. -/
structure Written (volatile : Set Index) (settings : List Setting) (mem₀ mem : Memory 16) :
    Prop where
  values : ∀ s ∈ settings, Stable volatile s.reg s.size → field mem s.reg s.size = s.value
  others : ∀ reg n, Stable volatile reg n → (∀ s ∈ settings, Apart reg n s.reg s.size) →
    field mem reg n = field mem₀ reg n

section Static

variable {volatile : Set Index} {settings : List Setting} {mem₀ mem mem' : Memory 16}

theorem written_nil : Written volatile [] mem mem where
  values _ hs := absurd hs List.not_mem_nil
  others _ _ _ _ := rfl

/-- One setting more. -/
theorem Written.snoc (h : Written volatile settings mem₀ mem) {s : Setting}
    (hapart : ∀ r ∈ settings, Apart r.reg r.size s.reg s.size)
    (hdrift : Drift (volatile ∪ span s.reg s.size) mem mem')
    (hfield : field mem' s.reg s.size = s.value) :
    Written volatile (settings ++ [s]) mem₀ mem' where
  values := by
    intro r hr hstable
    obtain hr | hr := List.mem_append.mp hr
    · rw [field_keep hstable hdrift (hapart r hr)]
      exact h.values r hr hstable
    · obtain rfl := List.mem_singleton.mp hr
      exact hfield
  others := by
    intro reg n hstable hreg
    rw [field_keep hstable hdrift (hreg s List.mem_concat_self)]
    exact h.others reg n hstable fun r hr => hreg r (List.mem_append_left _ hr)

/-- A program that goes on behind these settings. -/
def Configures {γ α : Type} (volatile : Set Index) (settings : List Setting) (mem₀ : Memory 16)
    (m : Firmware γ α) (Q : α → γ → Memory 16 → Prop) (store : γ) : Prop :=
  ∀ mem, Written volatile settings mem₀ mem → FileLeads volatile m Q store mem

variable {γ α β : Type} {store : γ} {reg : Index}

theorem Configures.seq {m : Firmware γ α} {f : α → Firmware γ β} {Q : β → γ → Memory 16 → Prop}
    (h : Configures volatile settings mem₀ m
      (fun value store mem => FileLeads volatile (f value) Q store mem) store) :
    Configures volatile settings mem₀ (m >>= f) Q store :=
  fun mem hmem => FileLeads.seq (h mem hmem)

theorem configures_write {v : BitVec 8} {Q : Unit → γ → Memory 16 → Prop}
    (hapart : ∀ r ∈ settings, Apart r.reg r.size reg 1)
    (h : ∀ mem, Written volatile (settings ++ [⟨reg, 1, v.toNat⟩]) mem₀ mem → Q () store mem) :
    Configures volatile settings mem₀ (writeReg reg v) Q store := by
  intro mem hmem
  apply file_set8
  intro mem' hdrift hfield
  exact h mem' (hmem.snoc (s := ⟨reg, 1, v.toNat⟩) hapart hdrift hfield)

theorem configures_write16 {v : BitVec 16} {Q : Unit → γ → Memory 16 → Prop}
    (hapart : ∀ r ∈ settings, Apart r.reg r.size reg 2)
    (h : ∀ mem, Written volatile (settings ++ [⟨reg, 2, v.toNat⟩]) mem₀ mem → Q () store mem) :
    Configures volatile settings mem₀ (writeReg16Bit reg v) Q store := by
  intro mem hmem
  apply file_set16
  intro mem' hdrift hfield
  exact h mem' (hmem.snoc (s := ⟨reg, 2, v.toNat⟩) hapart hdrift hfield)

variable {rest : Firmware γ α} {Q : α → γ → Memory 16 → Prop}

theorem configures_thenWrite {v : BitVec 8} (hapart : ∀ r ∈ settings, Apart r.reg r.size reg 1)
    (h : Configures volatile (settings ++ [⟨reg, 1, v.toNat⟩]) mem₀ rest Q store) :
    Configures volatile settings mem₀ (writeReg reg v >>= fun _ => rest) Q store :=
  Configures.seq (configures_write hapart h)

theorem configures_thenWrite16 {v : BitVec 16}
    (hapart : ∀ r ∈ settings, Apart r.reg r.size reg 2)
    (h : Configures volatile (settings ++ [⟨reg, 2, v.toNat⟩]) mem₀ rest Q store) :
    Configures volatile settings mem₀ (writeReg16Bit reg v >>= fun _ => rest) Q store :=
  Configures.seq (configures_write16 hapart h)

end Static

/-! ### The timeouts -/

/-- The fields of `timeoutRegisters`. -/
def timeoutFields : List (Index × ℕ) := [
  (phasecalConfigTimeoutMacrop, 1),
  (mmConfigTimeoutMacropA, 2),
  (rangeConfigTimeoutMacropA, 2),
  (mmConfigTimeoutMacropB, 2),
  (rangeConfigTimeoutMacropB, 2)]

section Timeouts

variable {volatile : Set Index} {mem mem' : Memory 16} {reg : Index} {n : ℕ}

theorem mem_timeoutRegisters {i : Index} :
    i ∈ timeoutRegisters ↔ ∃ f ∈ timeoutFields, i ∈ span f.1 f.2 := by
  simp [timeoutRegisters, timeoutFields, or_assoc]

theorem field_keepTimeouts (hstable : Stable volatile reg n)
    (hdrift : Drift (volatile ∪ timeoutRegisters) mem mem')
    (hapart : ∀ f ∈ timeoutFields, Apart reg n f.1 f.2) :
    field mem' reg n = field mem reg n := by
  apply field_drift hdrift
  rintro k hk (hmem | hmem)
  · exact hstable k hk hmem
  · obtain ⟨f, hf, hspan⟩ := mem_timeoutRegisters.mp hmem
    exact absurd hspan (Nat.not_lt_of_le (hapart f hf k hk))

theorem TimeoutsSet.keep {rangeUs periodA periodB : ℕ}
    (h : TimeoutsSet rangeUs periodA periodB mem) (hvolatile : Disjoint timeoutRegisters volatile)
    (hdrift : Drift (volatile ∪ span reg n) mem mem')
    (hapart : ∀ f ∈ timeoutFields, Apart f.1 f.2 reg n) :
    TimeoutsSet rangeUs periodA periodB mem' := by
  have hsize : ∀ f ∈ timeoutFields, f.2 ≤ 2 := by decide
  have hkeep : ∀ f ∈ timeoutFields, field mem' f.1 f.2 = field mem f.1 f.2 := by
    intro f hf
    apply field_keep _ hdrift (hapart f hf)
    intro k hk
    apply Set.disjoint_left.mp hvolatile
    exact mem_timeoutRegisters.mpr ⟨f, hf, mem_span (hsize f hf) hk⟩
  simp only [timeoutFields, List.forall_mem_cons] at hkeep
  obtain ⟨hphasecal, hmmA, hrangeA, hmmB, hrangeB, -⟩ := hkeep
  constructor
  · rw [hphasecal]
    exact h.phasecal
  · rw [hmmA]
    exact h.mmA
  · rw [hrangeA]
    exact h.rangeA
  · rw [hmmB]
    exact h.mmB
  · rw [hrangeB]
    exact h.rangeB

end Timeouts

/-- After `staticInit`, with this frequency. -/
structure StaticSet (volatile : Set Index) (frequency : ℕ) (mem₀ mem : Memory 16) : Prop where
  values : ∀ s ∈ configuration, Stable volatile s.reg s.size → field mem s.reg s.size = s.value
  timeouts : TimeoutsSet 22736 (macroPeriodOf frequency 0x0F) (macroPeriodOf frequency 0x0D) mem
  others : ∀ reg n, Stable volatile reg n → (∀ s ∈ configuration, Apart reg n s.reg s.size) →
    (∀ f ∈ timeoutFields, Apart reg n f.1 f.2) → field mem reg n = field mem₀ reg n

section StaticInit

variable {volatile : Set Index} {store : Globals} {mem : Memory 16}

/-- The last settings are those of the distance mode. -/
theorem configures_setDistanceMode {Q : Bool → Globals → Memory 16 → Prop}
    (h : ∀ mem', Written volatile configuration mem mem' → Q false store mem') :
    Configures volatile (configuration.take 21) mem (setDistanceMode long) Q store := by
  rw [setDistanceMode, if_neg (by decide), if_neg (by decide), if_pos rfl]
  intro m₀ hm₀
  apply FileLeads.seq
  have hpreset : Configures volatile (configuration.take 21) mem
      (distancePreset 0x0F 0x0D 0xB8 14) (fun _ => FileLeads volatile (pure false) Q) store := by
    apply configures_thenWrite (by decide)
    apply configures_thenWrite (by decide)
    apply configures_thenWrite (by decide)
    apply configures_thenWrite (by decide)
    apply configures_thenWrite (by decide)
    apply configures_thenWrite (by decide)
    apply configures_write (by decide)
    intro mem' hmem'
    exact file_pure (h mem' hmem')
  exact hpreset m₀ hm₀

theorem file_staticInit (hf : 2304 ≤ store.fastOscFrequency.toNat)
    (hvolatile : Disjoint (timeoutRegisters ∪ span rangeConfigVcselPeriodA 1 ∪
      span rangeConfigVcselPeriodB 1) volatile) :
    FileLeads volatile staticInit
      (fun _ store' mem' => store' = store ∧
        StaticSet volatile store.fastOscFrequency.toNat mem mem') store mem := by
  have hA : Stable volatile rangeConfigVcselPeriodA 1 := fun k hk =>
    Set.disjoint_left.mp hvolatile (Or.inl (Or.inr (mem_span (by decide) hk)))
  have hB : Stable volatile rangeConfigVcselPeriodB 1 := fun k hk =>
    Set.disjoint_left.mp hvolatile (Or.inr (mem_span (by decide) hk))
  have hconfigures : Configures volatile [] mem staticInit (fun _ store' mem' => store' = store ∧
      StaticSet volatile store.fastOscFrequency.toNat mem mem') store := by
    apply configures_thenWrite16 (by decide)
    apply configures_thenWrite (by decide)
    apply configures_thenWrite (by decide)
    apply configures_thenWrite (by decide)
    apply configures_thenWrite (by decide)
    apply configures_thenWrite (by decide)
    apply configures_thenWrite (by decide)
    apply configures_thenWrite (by decide)
    apply configures_thenWrite16 (by decide)
    apply configures_thenWrite16 (by decide)
    apply configures_thenWrite (by decide)
    apply configures_thenWrite16 (by decide)
    apply configures_thenWrite16 (by decide)
    apply configures_thenWrite (by decide)
    apply configures_thenWrite (by decide)
    apply configures_thenWrite (by decide)
    apply configures_thenWrite (by decide)
    apply configures_thenWrite (by decide)
    apply configures_thenWrite (by decide)
    apply configures_thenWrite16 (by decide)
    apply configures_thenWrite (by decide)
    apply Configures.seq
    apply configures_setDistanceMode
    intro mem₁ hwritten
    have ha : field mem₁ rangeConfigVcselPeriodA 1 = 0x0F :=
      hwritten.values ⟨rangeConfigVcselPeriodA, 1, 0x0F⟩ (by simp [configuration]) hA
    have hb : field mem₁ rangeConfigVcselPeriodB 1 = 0x0D :=
      hwritten.values ⟨rangeConfigVcselPeriodB, 1, 0x0D⟩ (by simp [configuration]) hB
    apply FileLeads.seq
    apply (file_setMeasurementTimingBudget 50000 hf (by omega) (by omega) hvolatile).mono
    rintro done _ mem₂ ⟨rfl, hlimits, hframe, htimeouts⟩
    have hdone : done = true := hlimits.mpr ⟨by decide, by decide⟩
    rw [if_pos hdone] at hframe
    have hset := htimeouts hdone
    rw [ha, hb] at hset
    apply file_pure
    refine ⟨rfl, ⟨?_, hset, ?_⟩⟩
    · intro s hs hstable
      have hapart : ∀ s ∈ configuration, ∀ f ∈ timeoutFields, Apart s.reg s.size f.1 f.2 := by
        decide
      rw [field_keepTimeouts hstable hframe (hapart s hs)]
      exact hwritten.values s hs hstable
    · intro reg n hstable hsettings htimeouts
      rw [field_keepTimeouts hstable hframe htimeouts]
      exact hwritten.others reg n hstable hsettings
  exact hconfigures mem written_nil

end StaticInit

/-! ## The whole set-up -/

/-- The registers on which the set-up itself relies. -/
def setupRegisters : Set Index :=
  timeoutRegisters ∪ span rangeConfigVcselPeriodA 1 ∪ span rangeConfigVcselPeriodB 1 ∪
    span oscMeasuredFastOscFrequency 2

/-- A sensor that is set up, and what the driver knows of it. -/
structure Configured (volatile : Set Index) (store : Globals) (mem : Memory 16) : Prop where
  values : ∀ s ∈ configuration, Stable volatile s.reg s.size → field mem s.reg s.size = s.value
  timeouts : TimeoutsSet 22736 (macroPeriodOf store.fastOscFrequency.toNat 0x0F)
    (macroPeriodOf store.fastOscFrequency.toNat 0x0D) mem
  frequency : store.fastOscFrequency.toNat = field mem oscMeasuredFastOscFrequency 2
  calibrate : Stable volatile resultOscCalibrateVal 2 →
    store.oscCalibrateVal.toNat = field mem resultOscCalibrateVal 2
  supply : Stable volatile padI2cHvExtsupConfig 1 → field mem padI2cHvExtsupConfig 1 % 2 = 1
  offset : Stable volatile mmConfigOuterOffsetMm 2 → Stable volatile algoPartToPartRangeOffsetMm 2 →
    field mem algoPartToPartRangeOffsetMm 2 = field mem mmConfigOuterOffsetMm 2 * 4 % 2 ^ 16

/-- What `VL53L1X_init` has done.  With another model there, no variable has changed
and no register outside `volatile ∪ resets`. -/
structure Initialized (resets volatile : Set Index) (store : Globals) (mem : Memory 16)
    (found : Bool) (store' : Globals) (mem' : Memory 16) : Prop where
  model : found = true ↔ field mem identificationModelId 2 = 0xEACC
  globals : store' = { store with
    fastOscFrequency := store'.fastOscFrequency, oscCalibrateVal := store'.oscCalibrateVal }
  missing : found = false → store' = store ∧ Drift (volatile ∪ resets) mem mem'
  configured : found = true → Configured volatile store' mem'

section Setup

variable {resets volatile : Set Index} {store : Globals} {mem : Memory 16}

theorem low_bit_or (config : BitVec 8) : (config ||| 0x01).toNat % 2 = 1 := by
  rw [BitVec.toNat_or]
  change (config.toNat ||| 1) % 2 = 1
  rw [Nat.or_mod_two_eq_one]
  exact Or.inr rfl

/-- Behind `staticInit` only the range offset is written. -/
theorem StaticSet.others_written {frequency : ℕ} {mem₀ mem₁ mem' : Memory 16} {reg : Index} {n : ℕ}
    (h : StaticSet volatile frequency mem₀ mem) (hread : Drift volatile mem mem₁)
    (hwrite : Drift (volatile ∪ span algoPartToPartRangeOffsetMm 2) mem₁ mem')
    (hstable : Stable volatile reg n) (hpart : Apart reg n algoPartToPartRangeOffsetMm 2)
    (hsettings : ∀ s ∈ configuration, Apart reg n s.reg s.size)
    (htimeouts : ∀ f ∈ timeoutFields, Apart reg n f.1 f.2) :
    field mem' reg n = field mem₀ reg n := by
  rw [field_keep hstable hwrite hpart, field_drift hread hstable]
  exact h.others reg n hstable hsettings htimeouts

/-- With the range offset written, the sensor is configured. -/
theorem StaticSet.configured {mem₀ mem₁ mem' : Memory 16} {offset : BitVec 16}
    (h : StaticSet volatile store.fastOscFrequency.toNat mem₀ mem)
    (hvolatile : Disjoint setupRegisters volatile)
    (hfrequency : store.fastOscFrequency.toNat = field mem₀ oscMeasuredFastOscFrequency 2)
    (hcalibrate : store.oscCalibrateVal.toNat = field mem₀ resultOscCalibrateVal 2)
    (hsupply : Stable volatile padI2cHvExtsupConfig 1 → field mem₀ padI2cHvExtsupConfig 1 % 2 = 1)
    (hread : Drift volatile mem mem₁) (hoffset : offset.toNat = field mem₁ mmConfigOuterOffsetMm 2)
    (hwrite : Drift (volatile ∪ span algoPartToPartRangeOffsetMm 2) mem₁ mem')
    (hpart : field mem' algoPartToPartRangeOffsetMm 2 = (offset * 4).toNat) :
    Configured volatile store mem' := by
  have hosc : Stable volatile oscMeasuredFastOscFrequency 2 := fun k hk =>
    Set.disjoint_left.mp hvolatile (Or.inr (mem_span (by decide) hk))
  have htimeouts : Disjoint timeoutRegisters volatile :=
    hvolatile.mono_left fun i hi => Or.inl (Or.inl (Or.inl hi))
  constructor
  · intro s hs hstable
    have hapart : ∀ s ∈ configuration, Apart s.reg s.size algoPartToPartRangeOffsetMm 2 := by decide
    rw [field_keep hstable hwrite (hapart s hs), field_drift hread hstable]
    exact h.values s hs hstable
  · exact h.timeouts.keep htimeouts ((hread.widen _).trans hwrite) (by decide)
  · rw [h.others_written hread hwrite hosc (by decide) (by decide) (by decide)]
    exact hfrequency
  · intro hstable
    rw [h.others_written hread hwrite hstable (by decide) (by decide) (by decide)]
    exact hcalibrate
  · intro hstable
    rw [h.others_written hread hwrite hstable (by decide) (by decide) (by decide)]
    exact hsupply hstable
  · intro houter _
    rw [hpart, field_keep houter hwrite (by decide), ← hoffset, BitVec.toNat_mul]
    rfl

/-- `VL53L1X_init` from the end of the boot on. -/
theorem file_booted (hfrequency : 2304 ≤ field mem oscMeasuredFastOscFrequency 2)
    (hvolatile : Disjoint setupRegisters volatile) :
    FileLeads volatile (do
      let config ← readReg padI2cHvExtsupConfig
      writeReg padI2cHvExtsupConfig (config ||| 0x01)
      let frequency ← readReg16Bit oscMeasuredFastOscFrequency
      update fun globals => { globals with fastOscFrequency := frequency }
      let calibrate ← readReg16Bit resultOscCalibrateVal
      update fun globals => { globals with oscCalibrateVal := calibrate }
      staticInit
      let offset ← readReg16Bit mmConfigOuterOffsetMm
      writeReg16Bit algoPartToPartRangeOffsetMm (offset * 4)
      return true)
      (fun found store' mem' => found = true ∧
        store' = { store with
          fastOscFrequency := store'.fastOscFrequency, oscCalibrateVal := store'.oscCalibrateVal } ∧
        Configured volatile store' mem') store mem := by
  have hosc : Stable volatile oscMeasuredFastOscFrequency 2 := fun k hk =>
    Set.disjoint_left.mp hvolatile (Or.inr (mem_span (by decide) hk))
  apply FileLeads.seq
  apply file_readReg
  intro m₁ config d₁ _
  apply FileLeads.seq
  apply file_set8
  intro m₂ d₂ hpad
  apply FileLeads.seq
  apply file_readReg16Bit
  intro m₃ frequency d₃ hread
  apply FileLeads.seq
  apply file_update
  apply FileLeads.seq
  apply file_readReg16Bit
  intro m₄ calibrate d₄ hcalibrate
  apply FileLeads.seq
  apply file_update
  apply FileLeads.seq
  have hf : 2304 ≤ frequency.toNat := by
    calc 2304 ≤ field mem oscMeasuredFastOscFrequency 2 := hfrequency
      _ = field m₃ oscMeasuredFastOscFrequency 2 := by
        rw [field_drift d₃ hosc, field_keep hosc d₂ (by decide), field_drift d₁ hosc]
      _ = frequency.toNat := hread.symm
  apply (file_staticInit hf (hvolatile.mono_left Set.subset_union_left)).mono
  rintro _ _ m₅ ⟨rfl, hstatic⟩
  apply FileLeads.seq
  apply file_readReg16Bit
  intro m₆ offset d₆ hoffset
  apply FileLeads.seq
  apply file_set16
  intro m₇ d₇ hpart
  apply file_pure
  refine ⟨rfl, rfl, hstatic.configured hvolatile ?_ hcalibrate ?_ d₆ hoffset d₇ hpart⟩
  · exact hread.trans (field_drift d₄ hosc).symm
  · intro hstable
    rw [field_drift d₄ hstable, field_drift d₃ hstable, hpad]
    exact low_bit_or config

/-- In every run, whatever the controller answers and whatever the reset does to
the sensor, the result says whether the right model is there.  If it is, the values
of `configuration`, the timeouts, the supply bit and the range offset are in the
registers in the end: no later step has overwritten what an earlier one has set. -/
theorem init_configures (highFirst : Bool) {s : Controller} (hs : s.At .idle) (t : Booting)
    (hmodel : Disjoint (span identificationModelId 2) (volatile ∪ resets))
    (hvolatile : Disjoint setupRegisters volatile) :
    wp (bootingBus resets volatile).contract (init highFirst)
      (fun found store' st => st.1.At .idle ∧
        Initialized resets volatile store t.file.memory found store' st.2.file.memory)
      store (s, t) := by
  have hleads : (bootingBus resets volatile).Leads .idle (init highFirst) .idle
      (fun found store' t' =>
        Initialized resets volatile store t.file.memory found store' t'.file.memory) store t := by
    have hid : Stable (volatile ∪ resets) identificationModelId 2 := fun k hk =>
      Set.disjoint_left.mp hmodel (mem_span (by decide) hk)
    have hread : FileLeads (volatile ∪ resets) (readReg16Bit identificationModelId)
        (fun modelId store' mem' => store' = store ∧ Drift (volatile ∪ resets) t.file.memory mem' ∧
          modelId.toNat = field t.file.memory identificationModelId 2) store t.file.memory := by
      apply file_readReg16Bit
      intro mem' modelId hdrift hvalue
      exact ⟨rfl, hdrift, hvalue.trans (field_drift hdrift hid)⟩
    apply Bus.Leads.seq
    apply (leads_booting hread).mono
    rintro modelId _ t₁ ⟨rfl, hdrift, hvalue⟩
    have hfound : modelId = 0xEACC ↔ field t.file.memory identificationModelId 2 = 0xEACC := by
      rw [← hvalue]
      exact ⟨congrArg BitVec.toNat, BitVec.eq_of_toNat_eq (y := 0xEACC)⟩
    by_cases hmodelId : modelId ≠ 0xEACC
    · rw [if_pos hmodelId]
      apply leads_pure
      exact {
        model := iff_of_false Bool.false_ne_true fun h => hmodelId (hfound.mpr h)
        globals := rfl
        missing := fun _ => ⟨rfl, hdrift⟩
        configured := fun h => absurd h Bool.false_ne_true }
    rw [if_neg hmodelId]
    apply Bus.Leads.seq
    apply leads_writeReg
    intro t₂ _
    apply Bus.Leads.seq
    apply leads_waitMs
    apply Bus.Leads.seq
    apply leads_writeReg
    intro t₃ _
    apply Bus.Leads.seq
    apply leads_waitMs
    apply Bus.Leads.seq
    apply leads_waitBoot
    intro t₄ hsettled hfrequency
    apply (leads_settled hsettled (file_booted hfrequency hvolatile)).mono
    rintro _ store' t' ⟨rfl, hglobals, hconfigured⟩
    exact {
      model := iff_of_true rfl (hfound.mp (Decidable.not_not.mp hmodelId))
      globals := hglobals
      missing := fun h => absurd h.symm Bool.false_ne_true
      configured := fun _ => hconfigured }
  exact hleads s hs

/-- A sensor with the right model. -/
def vl53l1x : Registers :=
  ⟨fun i => if i = identificationModelId then 0xEA
    else if i = identificationModelId + 1 then 0xCC else 0, 0, 0⟩

/-- The status of the interrupt pin is volatile, and the reset leaves nothing but
the model as it was. -/
theorem init_configures_reset :
    wp (bootingBus (Set.compl (span identificationModelId 2)) {gpioTioHvStatus}).contract
      (init true)
      (fun found store' st => st.1.At .idle ∧
        Initialized (Set.compl (span identificationModelId 2)) {gpioTioHvStatus} Globals.start
          vl53l1x.memory found store' st.2.file.memory) Globals.start
      (⟨true, .idle, false, false⟩, ⟨vl53l1x, false⟩) := by
  apply init_configures true ⟨rfl, rfl⟩ ⟨vl53l1x, false⟩
  · apply Set.disjoint_union_right.mpr
    refine ⟨?_, disjoint_compl_right⟩
    apply Set.disjoint_singleton_right.mpr
    exact Nat.not_lt_of_le (by decide)
  · apply Set.disjoint_singleton_right.mpr
    simp only [setupRegisters, timeoutRegisters, span, Set.mem_union, Set.mem_ofPred_eq]
    decide

end Setup

end KyogenRV.VL53L1X
