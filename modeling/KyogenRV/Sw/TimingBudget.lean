import KyogenRV.Mantissa
import KyogenRV.Sw.RegisterFile

/-!
# The timing budget

A timeout is a number of macro periods, and a register holds it as eight bits
shifted up.  `VL53L1X_encodeTimeout` rounds down to the next such number,
`VL53L1X_timeoutMicrosecondsToMclks` to the closest number of periods, and
`VL53L1X_setMeasurementTimingBudget` leaves these in the registers of the sensor
without a wrap-around or a division by zero.
-/

namespace KyogenRV.VL53L1X

open Dialogue Firmware QsysI2c BigEndian Mantissa

/-! ## Encoded timeouts -/

/-- `(LSByte * 2^MSByte) + 1`. -/
def decodeTimeout (encoded : ℕ) : ℕ := encoded % 256 * 2 ^ (encoded / 256) + 1

theorem mask_pos (x : Word) : x &&& 0xFFFFFF00 > 0 ↔ 2 ^ 8 ≤ x.toNat := by
  have hmask : ∀ i < 32, (0xFFFFFF00 : Word).getLsbD i = decide (8 ≤ i) := by decide
  have hshift : x &&& (0xFFFFFF00 : Word) = (x >>> 8) <<< 8 := by
    apply BitVec.eq_of_getLsbD_eq
    intro i hi
    rw [BitVec.getLsbD_and, hmask i hi, BitVec.getLsbD_shiftLeft, BitVec.getLsbD_ushiftRight]
    by_cases h : 8 ≤ i
    · simp [h, hi, Nat.not_lt_of_le h, Nat.add_sub_cancel' h]
    · simp [h, Nat.lt_of_not_le h]
  have hx := x.isLt
  have hvalue : ((x >>> 8) <<< 8).toNat = x.toNat / 256 * 256 := by
    rw [BitVec.toNat_shiftLeft, BitVec.toNat_ushiftRight, Nat.shiftLeft_eq,
      Nat.shiftRight_eq_div_pow]
    omega
  rw [hshift, gt_iff_lt, BitVec.lt_def, hvalue]
  change 0 < _ ↔ _
  omega

/-- The loop shifts until eight bits are left. -/
theorem shiftDown_eq (lsByte : Word) (msByte : BitVec 16) :
    ∃ k, Fits 8 lsByte.toNat k ∧
      shiftDown lsByte msByte = (lsByte >>> k, msByte + BitVec.ofNat 16 k) := by
  fun_induction shiftDown lsByte msByte with
  | case1 lsByte msByte h ih =>
      obtain ⟨k, hfits, heq⟩ := ih
      have hhalf : (lsByte >>> 1).toNat = lsByte.toNat / 2 := by
        rw [BitVec.toNat_ushiftRight, Nat.shiftRight_eq_div_pow, pow_one]
      rw [hhalf] at hfits
      refine ⟨k + 1, hfits.succ ((mask_pos lsByte).mp h), ?_⟩
      rw [heq, ← BitVec.shiftRight_add, Nat.add_comm 1 k, BitVec.ofNat_add, add_assoc,
        add_comm (1 : BitVec 16)]
      rfl
  | case2 lsByte msByte h =>
      refine ⟨0, fits_zero ?_, ?_⟩
      · exact Nat.lt_of_not_le fun hle => h ((mask_pos lsByte).mpr hle)
      · simp

/-- A number that is shifted down to eight bits is not shifted far. -/
theorem le_24_of_fits {x : Word} {k : ℕ} (h : Fits 8 x.toNat k) : k ≤ 24 := by
  obtain rfl | hleast := h.least
  · exact Nat.zero_le _
  · apply Nat.le_of_not_lt
    intro hk
    have hpow : 2 ^ 24 ≤ 2 ^ (k - 1) := Nat.pow_le_pow_right (by decide) (by omega)
    have hdiv : x.toNat / 2 ^ (k - 1) ≤ x.toNat / 2 ^ 24 := Nat.div_le_div_left hpow (by decide)
    have hx := x.isLt
    omega

theorem encodeTimeout_toNat {t : Word} (ht : 0 < t.toNat) :
    ∃ k, Fits 8 (t.toNat - 1) k ∧
      (encodeTimeout t).toNat = k * 256 + (t.toNat - 1) / 2 ^ k := by
  have hsub : (t - 1).toNat = t.toNat - 1 := by
    have hlt := t.isLt
    rw [BitVec.toNat_sub]
    change (2 ^ 32 - 1 + t.toNat) % 2 ^ 32 = _
    omega
  obtain ⟨k, hfits, heq⟩ := shiftDown_eq (t - 1) 0
  have hk : k ≤ 24 := le_24_of_fits hfits
  have hpos : t > 0 := by
    rw [gt_iff_lt, BitVec.lt_def]
    exact ht
  rw [hsub] at hfits
  refine ⟨k, hfits, ?_⟩
  rw [encodeTimeout, if_pos hpos, heq]
  have hlow : (((t - 1) >>> k &&& 0xFF).setWidth 16).toNat = (t.toNat - 1) / 2 ^ k := by
    have hlt := hfits.lt
    rw [BitVec.toNat_setWidth, BitVec.toNat_and]
    change (_ &&& (2 ^ 8 - 1)) % _ = _
    rw [Nat.and_two_pow_sub_one_eq_mod, BitVec.toNat_ushiftRight, Nat.shiftRight_eq_div_pow,
      hsub, Nat.mod_eq_of_lt hlt, Nat.mod_eq_of_lt (hlt.trans (by decide))]
  have hhigh : ((0 + BitVec.ofNat 16 k) <<< 8).toNat = k * 2 ^ 8 := by
    rw [BitVec.toNat_shiftLeft, BitVec.toNat_add, BitVec.toNat_ofNat, Nat.shiftLeft_eq]
    change (0 + k % 2 ^ 16) % 2 ^ 16 * 2 ^ 8 % 2 ^ 16 = _
    omega
  exact toNat_or_low hhigh hlow hfits.lt

theorem decode_encodeTimeout {t : Word} {k : ℕ} (hfits : Fits 8 (t.toNat - 1) k)
    (hcode : (encodeTimeout t).toNat = k * 256 + (t.toNat - 1) / 2 ^ k) :
    decodeTimeout (encodeTimeout t).toNat = (t.toNat - 1) / 2 ^ k * 2 ^ k + 1 := by
  have hsplit : ∀ s < 2 ^ 8, (k * 256 + s) % 256 = s ∧ (k * 256 + s) / 256 = k := by omega
  obtain ⟨hmod, hdiv⟩ := hsplit _ hfits.lt
  rw [decodeTimeout, hcode, hmod, hdiv]

/-- The register value stands for the greatest timeout that can be encoded and
is not longer. -/
theorem isGreatest_encodeTimeout (t : Word) :
    IsGreatest {timeout | (∃ encoded : BitVec 16, timeout = decodeTimeout encoded.toNat) ∧
      timeout ≤ max 1 t.toNat} (decodeTimeout (encodeTimeout t).toNat) := by
  obtain hzero | hpos := Nat.eq_zero_or_pos t.toNat
  · obtain rfl : t = 0 := BitVec.eq_of_toNat_eq hzero
    refine ⟨⟨⟨_, rfl⟩, by decide⟩, ?_⟩
    rintro _ ⟨-, hle⟩
    exact hle
  · obtain ⟨k, hfits, hcode⟩ := encodeTimeout_toNat hpos
    obtain ⟨⟨-, hle⟩, hgreatest⟩ := isGreatest_round hfits
    refine ⟨⟨⟨_, rfl⟩, ?_⟩, ?_⟩
    · rw [decode_encodeTimeout hfits hcode]
      omega
    · rintro _ ⟨⟨encoded, rfl⟩, hencoded⟩
      have hshifted : Shifted 8 (encoded.toNat % 256 * 2 ^ (encoded.toNat / 256)) :=
        ⟨_, _, Nat.mod_lt _ (by decide), rfl⟩
      have hbound := hgreatest ⟨hshifted, by rw [decodeTimeout] at hencoded; omega⟩
      rw [decode_encodeTimeout hfits hcode, decodeTimeout]
      exact Nat.succ_le_succ hbound

/-- Less than one part in 128 is cut off. -/
theorem lt_decode_encodeTimeout {t : Word} (ht : 0 < t.toNat) :
    128 * (t.toNat - decodeTimeout (encodeTimeout t).toNat) < t.toNat := by
  obtain ⟨k, hfits, hcode⟩ := encodeTimeout_toNat ht
  rw [decode_encodeTimeout hfits hcode]
  have hrest : (t.toNat - 1) / 2 ^ k * 2 ^ k + (t.toNat - 1) % 2 ^ k = t.toNat - 1 :=
    Nat.div_add_mod' _ _
  obtain rfl | hhalf := hfits.half_le
  · rw [pow_zero, Nat.div_one, Nat.mul_one]
    omega
  · have hcut : (t.toNat - 1) % 2 ^ k < 2 ^ k := Nat.mod_lt _ (by positivity)
    have hmantissa : 128 * 2 ^ k ≤ (t.toNat - 1) / 2 ^ k * 2 ^ k :=
      Nat.mul_le_mul_right _ (by omega)
    omega

/-- The encoding rounds down to a timeout that a register can hold, and by less
than one part in 128. -/
theorem encodeTimeout_rounds_down (t : Word) :
    IsGreatest {timeout | (∃ encoded : BitVec 16, timeout = decodeTimeout encoded.toNat) ∧
      timeout ≤ max 1 t.toNat} (decodeTimeout (encodeTimeout t).toNat) ∧
        128 * (t.toNat - decodeTimeout (encodeTimeout t).toNat) < max 1 t.toNat := by
  refine ⟨isGreatest_encodeTimeout t, ?_⟩
  obtain hzero | hpos := Nat.eq_zero_or_pos t.toNat
  · rw [hzero, Nat.zero_sub]
    decide
  · exact (lt_decode_encodeTimeout hpos).trans_le (Nat.le_max_right _ _)

/-! ## Macro periods -/

/-- The macro period in microseconds, with twelve bits after the point. -/
def macroPeriodOf (fastOscFrequency vcselPeriod : ℕ) : ℕ :=
  2304 * (2 ^ 30 / fastOscFrequency) / 64 * (2 * (vcselPeriod + 1)) / 64

/-- The number of macro periods that comes closest to a time. -/
def Nearest (timeoutUs macroPeriodUs mclks : ℕ) : Prop :=
  2 * (timeoutUs * 2 ^ 12) ≤ 2 * (mclks * macroPeriodUs) + macroPeriodUs ∧
    2 * (mclks * macroPeriodUs) ≤ 2 * (timeoutUs * 2 ^ 12) + macroPeriodUs

section MacroPeriod

variable {frequency : BitVec 16} {vcselPeriod : BitVec 8}

theorem pllPeriod_le (hf : 2304 ≤ frequency.toNat) : 2 ^ 30 / frequency.toNat ≤ 466033 :=
  (Nat.div_le_div_left hf (by decide)).trans (by decide)

/-- The number of macro periods before the last shift. -/
theorem macroProduct_lt (hf : 2304 ≤ frequency.toNat) (hv : vcselPeriod.toNat < 127) :
    2304 * (2 ^ 30 / frequency.toNat) / 64 * (2 * (vcselPeriod.toNat + 1)) < 2 ^ 32 := by
  have hpll := pllPeriod_le hf
  calc 2304 * (2 ^ 30 / frequency.toNat) / 64 * (2 * (vcselPeriod.toNat + 1))
      ≤ 16777188 * 254 := Nat.mul_le_mul (by omega) (by omega)
    _ < 2 ^ 32 := by decide

/-- From this frequency on and for these periods no step of the calculation
wraps around. -/
theorem calcMacroPeriod_eq (hf : 2304 ≤ frequency.toNat) (hv : vcselPeriod.toNat < 127) :
    ∃ period, calcMacroPeriod frequency vcselPeriod = some period ∧
      period.toNat = macroPeriodOf frequency.toNat vcselPeriod.toNat := by
  have hne : frequency ≠ 0 := by
    rintro rfl
    exact absurd hf (by decide)
  refine ⟨_, if_neg hne, ?_⟩
  have hfreq := frequency.isLt
  have hpll := pllPeriod_le hf
  have hproduct := macroProduct_lt hf hv
  have hdiv : (((0x01 : Word) <<< 30) / frequency.setWidth 32).toNat =
      2 ^ 30 / frequency.toNat := by
    rw [BitVec.toNat_udiv, BitVec.toNat_setWidth, Nat.mod_eq_of_lt (by omega)]
    rfl
  have hpclks : ((((vcselPeriod.setWidth 32 + 1) <<< 1).setWidth 8 : BitVec 8).setWidth
      32 : Word).toNat = 2 * (vcselPeriod.toNat + 1) := by
    simp only [BitVec.toNat_setWidth, BitVec.toNat_shiftLeft, BitVec.toNat_add, Nat.shiftLeft_eq]
    change ((vcselPeriod.toNat % 2 ^ 32 + 1) % 2 ^ 32 * 2 ^ 1 % 2 ^ 32 % 2 ^ 8) % 2 ^ 32 = _
    omega
  have hscaled : ((2304 : Word) * (((0x01 : Word) <<< 30) / frequency.setWidth 32)).toNat =
      2304 * (2 ^ 30 / frequency.toNat) := by
    rw [BitVec.toNat_mul, hdiv]
    change 2304 * (2 ^ 30 / frequency.toNat) % 2 ^ 32 = _
    exact Nat.mod_eq_of_lt (by omega)
  rw [BitVec.toNat_ushiftRight, BitVec.toNat_mul, BitVec.toNat_ushiftRight, hscaled, hpclks,
    Nat.shiftRight_eq_div_pow, Nat.shiftRight_eq_div_pow, Nat.mod_eq_of_lt hproduct]
  rfl

theorem macroPeriodOf_pos (hf : 2304 ≤ frequency.toNat) :
    0 < macroPeriodOf frequency.toNat vcselPeriod.toNat := by
  have hpll : 2 ^ 30 / 2 ^ 16 ≤ 2 ^ 30 / frequency.toNat :=
    Nat.div_le_div_left frequency.isLt.le (by omega)
  have hproduct : 589824 * 2 ≤
      2304 * (2 ^ 30 / frequency.toNat) / 64 * (2 * (vcselPeriod.toNat + 1)) :=
    Nat.mul_le_mul (by omega) (by omega)
  rw [macroPeriodOf]
  omega

theorem macroPeriodOf_lt (hf : 2304 ≤ frequency.toNat) (hv : vcselPeriod.toNat < 127) :
    macroPeriodOf frequency.toNat vcselPeriod.toNat < 2 ^ 26 := by
  have hproduct := macroProduct_lt hf hv
  rw [macroPeriodOf]
  omega

end MacroPeriod

/-- The times that the driver asks for do not wrap around. -/
theorem timeoutMicrosecondsToMclks_nearest {timeoutUs period : Word}
    (ht : timeoutUs.toNat ≤ 550000) (hpos : 0 < period.toNat) (hlt : period.toNat < 2 ^ 26) :
    ∃ mclks, timeoutMicrosecondsToMclks timeoutUs period = some mclks ∧
      Nearest timeoutUs.toNat period.toNat mclks.toNat := by
  have hne : period ≠ 0 := by
    rintro rfl
    exact absurd hpos (by decide)
  refine ⟨_, if_neg hne, ?_⟩
  have hmclks : (((timeoutUs <<< 12) + (period >>> 1)) / period).toNat =
      (timeoutUs.toNat * 2 ^ 12 + period.toNat / 2) / period.toNat := by
    rw [BitVec.toNat_udiv, BitVec.toNat_add, BitVec.toNat_shiftLeft, BitVec.toNat_ushiftRight,
      Nat.shiftLeft_eq, Nat.shiftRight_eq_div_pow]
    congr 1
    omega
  rw [hmclks]
  have hdiv := Nat.div_add_mod' (timeoutUs.toNat * 2 ^ 12 + period.toNat / 2) period.toNat
  have hmod := Nat.mod_lt (timeoutUs.toNat * 2 ^ 12 + period.toNat / 2) hpos
  exact ⟨by omega, by omega⟩

/-! ## The registers -/

/-- A register value that stands for a time: for the greatest number of macro
periods that can be encoded and is not above the closest one. -/
def Encodes (timeoutUs macroPeriodUs encoded : ℕ) : Prop :=
  ∃ mclks, Nearest timeoutUs macroPeriodUs mclks ∧
    IsGreatest {timeout | (∃ code : BitVec 16, timeout = decodeTimeout code.toNat) ∧
      timeout ≤ max 1 mclks} (decodeTimeout encoded)

/-- The five timeouts. -/
structure TimeoutsSet (rangeUs periodA periodB : ℕ) (mem : Memory 16) : Prop where
  phasecal : ∃ mclks, Nearest 1000 periodA mclks ∧
    field mem phasecalConfigTimeoutMacrop 1 = min 0xFF mclks
  mmA : Encodes 1 periodA (field mem mmConfigTimeoutMacropA 2)
  rangeA : Encodes rangeUs periodA (field mem rangeConfigTimeoutMacropA 2)
  mmB : Encodes 1 periodB (field mem mmConfigTimeoutMacropB 2)
  rangeB : Encodes rangeUs periodB (field mem rangeConfigTimeoutMacropB 2)

/-- Their registers. -/
def timeoutRegisters : Set Index :=
  span phasecalConfigTimeoutMacrop 1 ∪ span mmConfigTimeoutMacropA 2 ∪
    span rangeConfigTimeoutMacropA 2 ∪ span mmConfigTimeoutMacropB 2 ∪
      span rangeConfigTimeoutMacropB 2

/-- What `VL53L1X_setMeasurementTimingBudget` has done: within its limits a budget
sets the five timeouts, and beyond them it changes nothing.  No other register
is touched. -/
structure BudgetSet (volatile : Set Index) (budgetUs : Word) (store : Globals) (mem : Memory 16)
    (done : Bool) (store' : Globals) (mem' : Memory 16) : Prop where
  globals : store' = store
  limits : done = true ↔ 4528 < budgetUs.toNat ∧ budgetUs.toNat ≤ 1104528
  frame : Drift (volatile ∪ if done then timeoutRegisters else ∅) mem mem'
  timeouts : done = true → TimeoutsSet ((budgetUs.toNat - 4528) / 2)
    (macroPeriodOf store.fastOscFrequency.toNat (field mem rangeConfigVcselPeriodA 1))
    (macroPeriodOf store.fastOscFrequency.toNat (field mem rangeConfigVcselPeriodB 1)) mem'

section Budget

variable {volatile : Set Index} {store : Globals} {mem : Memory 16}

theorem file_macroPeriod {vcselPeriod : BitVec 8} {Q : Word → Globals → Memory 16 → Prop}
    (hf : 2304 ≤ store.fastOscFrequency.toNat) (hv : vcselPeriod.toNat < 127)
    (h : ∀ period, period.toNat = macroPeriodOf store.fastOscFrequency.toNat vcselPeriod.toNat →
      0 < period.toNat → period.toNat < 2 ^ 26 → Q period store mem) :
    FileLeads volatile (macroPeriod vcselPeriod) Q store mem := by
  obtain ⟨period, hcalc, hperiod⟩ := calcMacroPeriod_eq hf hv
  apply FileLeads.seq
  apply file_load
  apply file_defined hcalc
  apply h period hperiod
  · rw [hperiod]
    exact macroPeriodOf_pos hf
  · rw [hperiod]
    exact macroPeriodOf_lt hf hv

theorem file_mclks {timeoutUs period : Word} {Q : Word → Globals → Memory 16 → Prop}
    (ht : timeoutUs.toNat ≤ 550000) (hpos : 0 < period.toNat) (hlt : period.toNat < 2 ^ 26)
    (h : ∀ mclks, Nearest timeoutUs.toNat period.toNat mclks.toNat → Q mclks store mem) :
    FileLeads volatile (defined (timeoutMicrosecondsToMclks timeoutUs period)) Q store mem := by
  obtain ⟨mclks, hmclks, hnearest⟩ := timeoutMicrosecondsToMclks_nearest ht hpos hlt
  exact file_defined hmclks (h mclks hnearest)

/-- A timeout is calculated, encoded and written. -/
theorem file_setTimeout {timeoutUs period : Word} {reg : Index}
    {rest : Firmware Globals Bool} {Q : Bool → Globals → Memory 16 → Prop}
    (ht : timeoutUs.toNat ≤ 550000) (hpos : 0 < period.toNat) (hlt : period.toNat < 2 ^ 26)
    (h : ∀ mem', Drift (volatile ∪ span reg 2) mem mem' →
      Encodes timeoutUs.toNat period.toNat (field mem' reg 2) →
        FileLeads volatile rest Q store mem') :
    FileLeads volatile (do
      let mclks ← defined (timeoutMicrosecondsToMclks timeoutUs period)
      writeReg16Bit reg (encodeTimeout mclks)
      rest) Q store mem := by
  apply FileLeads.seq
  apply file_mclks ht hpos hlt
  intro mclks hnearest
  apply FileLeads.seq
  apply file_set16
  intro mem' hdrift hfield
  apply h mem' hdrift
  rw [hfield]
  exact ⟨mclks.toNat, hnearest, isGreatest_encodeTimeout mclks⟩

/-- A register is read that the sensor does not change by itself. -/
theorem file_readStable {reg : Index} {Q : BitVec 8 → Globals → Memory 16 → Prop}
    (hreg : ∀ k < 1, reg + BitVec.ofNat 16 k ∉ volatile)
    (h : ∀ mem' v, Drift volatile mem mem' → v.toNat = field mem reg 1 → Q v store mem') :
    FileLeads volatile (readReg reg) Q store mem :=
  file_readReg fun mem' v hdrift hv => h mem' v hdrift (hv.trans (field_drift hdrift hreg))

theorem clip_phasecal (mclks : Word) :
    ((if mclks > 0xFF then 0xFF else mclks : Word).setWidth 8).toNat = min 0xFF mclks.toNat := by
  by_cases h : mclks > 0xFF
  · rw [if_pos h]
    rw [gt_iff_lt, BitVec.lt_def] at h
    exact (Nat.min_eq_left h.le).symm
  · rw [if_neg h, BitVec.toNat_setWidth]
    rw [gt_iff_lt, BitVec.lt_def] at h
    change ¬255 < mclks.toNat at h
    omega

theorem mem_span {reg : Index} {n k : ℕ} (hn : n ≤ 2) (hk : k < n) :
    reg + BitVec.ofNat 16 k ∈ span reg n := by
  rw [span, Set.mem_ofPred_eq, offset_add (by omega)]
  exact hk

/-- A field apart from two others stays when these are written. -/
theorem field_keepTwo {mem' : Memory 16} {reg r₁ r₂ : Index} {n n₁ n₂ : ℕ}
    (hstable : ∀ k < n, reg + BitVec.ofNat 16 k ∉ volatile)
    (h : Drift (volatile ∪ (span r₁ n₁ ∪ span r₂ n₂)) mem mem') (h₁ : Apart reg n r₁ n₁)
    (h₂ : Apart reg n r₂ n₂) : field mem' reg n = field mem reg n := by
  apply field_drift h
  rintro k hk (hmem | hmem | hmem)
  · exact hstable k hk hmem
  · exact absurd hmem (Nat.not_lt_of_le (h₁ k hk))
  · exact absurd hmem (Nat.not_lt_of_le (h₂ k hk))

/-- A macro period is calculated from a register. -/
theorem file_readPeriod {reg : Index} {rest : Word → Firmware Globals Bool}
    {Q : Bool → Globals → Memory 16 → Prop} (hf : 2304 ≤ store.fastOscFrequency.toNat)
    (hreg : ∀ k < 1, reg + BitVec.ofNat 16 k ∉ volatile) (hv : field mem reg 1 < 127)
    (h : ∀ period mem', Drift volatile mem mem' →
      period.toNat = macroPeriodOf store.fastOscFrequency.toNat (field mem reg 1) →
        0 < period.toNat → period.toNat < 2 ^ 26 →
          FileLeads volatile (rest period) Q store mem') :
    FileLeads volatile (do
      let vcselPeriod ← readReg reg
      let period ← macroPeriod vcselPeriod
      rest period) Q store mem := by
  apply FileLeads.seq
  apply file_readStable hreg
  intro mem' vcselPeriod hdrift hvcsel
  rw [← hvcsel] at hv h
  apply FileLeads.seq
  apply file_macroPeriod hf hv
  intro period hperiod hpos hlt
  exact h period mem' hdrift hperiod hpos hlt

theorem file_setPhasecal {period : Word} {rest : Firmware Globals Bool}
    {Q : Bool → Globals → Memory 16 → Prop} (hpos : 0 < period.toNat) (hlt : period.toNat < 2 ^ 26)
    (h : ∀ mem', Drift (volatile ∪ span phasecalConfigTimeoutMacrop 1) mem mem' →
      (∃ mclks, Nearest 1000 period.toNat mclks ∧
        field mem' phasecalConfigTimeoutMacrop 1 = min 0xFF mclks) →
          FileLeads volatile rest Q store mem') :
    FileLeads volatile (do
      let mclks ← defined (timeoutMicrosecondsToMclks 1000 period)
      writeReg phasecalConfigTimeoutMacrop
        ((if mclks > 0xFF then 0xFF else mclks : Word).setWidth 8)
      rest) Q store mem := by
  apply FileLeads.seq
  apply file_mclks (by decide) hpos hlt
  intro mclks hnearest
  apply FileLeads.seq
  apply file_set8
  intro mem' hdrift hphasecal
  exact h mem' hdrift ⟨mclks.toNat, hnearest, by rw [hphasecal, clip_phasecal]⟩

/-- The two timeouts of one period. -/
theorem file_setTimeouts {rangeUs period : Word} {mmReg rangeReg : Index}
    {rest : Firmware Globals Bool} {Q : Bool → Globals → Memory 16 → Prop}
    (hrange : rangeUs.toNat ≤ 550000) (hpos : 0 < period.toNat) (hlt : period.toNat < 2 ^ 26)
    (hmm : ∀ k < 2, mmReg + BitVec.ofNat 16 k ∉ volatile) (hapart : Apart mmReg 2 rangeReg 2)
    (h : ∀ mem', Drift (volatile ∪ (span mmReg 2 ∪ span rangeReg 2)) mem mem' →
      Encodes 1 period.toNat (field mem' mmReg 2) →
        Encodes rangeUs.toNat period.toNat (field mem' rangeReg 2) →
          FileLeads volatile rest Q store mem') :
    FileLeads volatile (do
      let mclks ← defined (timeoutMicrosecondsToMclks 1 period)
      writeReg16Bit mmReg (encodeTimeout mclks)
      let mclks ← defined (timeoutMicrosecondsToMclks rangeUs period)
      writeReg16Bit rangeReg (encodeTimeout mclks)
      rest) Q store mem := by
  apply file_setTimeout (by decide) hpos hlt
  intro m₁ d₁ hmmSet
  apply file_setTimeout hrange hpos hlt
  intro m₂ d₂ hrangeSet
  apply h m₂ _ _ hrangeSet
  · exact (d₁.within Set.subset_union_left).trans (d₂.within Set.subset_union_right)
  · rw [field_keep hmm d₂ hapart]
    exact hmmSet

/-- The sensor changes none of the registers that are read or set here by itself. -/
structure TimingStable (volatile : Set Index) : Prop where
  periodA : ∀ k < 1, rangeConfigVcselPeriodA + BitVec.ofNat 16 k ∉ volatile
  periodB : ∀ k < 1, rangeConfigVcselPeriodB + BitVec.ofNat 16 k ∉ volatile
  phasecal : ∀ k < 1, phasecalConfigTimeoutMacrop + BitVec.ofNat 16 k ∉ volatile
  mmA : ∀ k < 2, mmConfigTimeoutMacropA + BitVec.ofNat 16 k ∉ volatile
  rangeA : ∀ k < 2, rangeConfigTimeoutMacropA + BitVec.ofNat 16 k ∉ volatile
  mmB : ∀ k < 2, mmConfigTimeoutMacropB + BitVec.ofNat 16 k ∉ volatile

theorem timingStable (hvolatile : Disjoint (timeoutRegisters ∪ span rangeConfigVcselPeriodA 1 ∪
    span rangeConfigVcselPeriodB 1) volatile) : TimingStable volatile := by
  have hstable : ∀ reg n, n ≤ 2 → span reg n ⊆ timeoutRegisters ∪
      span rangeConfigVcselPeriodA 1 ∪ span rangeConfigVcselPeriodB 1 →
        ∀ k < n, reg + BitVec.ofNat 16 k ∉ volatile :=
    fun reg n hn hsub k hk => Set.disjoint_left.mp hvolatile (hsub (mem_span hn hk))
  exact {
    periodA := hstable _ 1 (by decide) fun i hi => Or.inl (Or.inr hi)
    periodB := hstable _ 1 (by decide) fun i hi => Or.inr hi
    phasecal := hstable _ 1 (by decide) fun i hi =>
      Or.inl (Or.inl (Or.inl (Or.inl (Or.inl (Or.inl hi)))))
    mmA := hstable _ 2 (by decide) fun i hi =>
      Or.inl (Or.inl (Or.inl (Or.inl (Or.inl (Or.inr hi)))))
    rangeA := hstable _ 2 (by decide) fun i hi =>
      Or.inl (Or.inl (Or.inl (Or.inl (Or.inr hi))))
    mmB := hstable _ 2 (by decide) fun i hi => Or.inl (Or.inl (Or.inl (Or.inr hi))) }

/-- The phase calibration and the timeouts of period A. -/
theorem file_setTimingA {rangeUs : Word} {rest : Firmware Globals Bool}
    {Q : Bool → Globals → Memory 16 → Prop} (hstable : TimingStable volatile)
    (hf : 2304 ≤ store.fastOscFrequency.toNat) (hrange : rangeUs.toNat ≤ 550000)
    (ha : field mem rangeConfigVcselPeriodA 1 < 127)
    (h : ∀ period mem', Drift (volatile ∪ timeoutRegisters) mem mem' →
      field mem' rangeConfigVcselPeriodB 1 = field mem rangeConfigVcselPeriodB 1 →
      period = macroPeriodOf store.fastOscFrequency.toNat (field mem rangeConfigVcselPeriodA 1) →
      (∃ mclks, Nearest 1000 period mclks ∧
        field mem' phasecalConfigTimeoutMacrop 1 = min 0xFF mclks) →
      Encodes 1 period (field mem' mmConfigTimeoutMacropA 2) →
      Encodes rangeUs.toNat period (field mem' rangeConfigTimeoutMacropA 2) →
        FileLeads volatile rest Q store mem') :
    FileLeads volatile (do
      let macroPeriodUs ← macroPeriod (← readReg rangeConfigVcselPeriodA)
      let phasecalTimeoutMclks ← defined (timeoutMicrosecondsToMclks 1000 macroPeriodUs)
      let phasecalTimeoutMclks := if phasecalTimeoutMclks > 0xFF then 0xFF else phasecalTimeoutMclks
      writeReg phasecalConfigTimeoutMacrop (phasecalTimeoutMclks.setWidth 8)
      let mclks ← defined (timeoutMicrosecondsToMclks 1 macroPeriodUs)
      writeReg16Bit mmConfigTimeoutMacropA (encodeTimeout mclks)
      let mclks ← defined (timeoutMicrosecondsToMclks rangeUs macroPeriodUs)
      writeReg16Bit rangeConfigTimeoutMacropA (encodeTimeout mclks)
      rest) Q store mem := by
  apply file_readPeriod hf hstable.periodA ha
  intro period m₁ d₁ hperiod hpos hlt
  apply file_setPhasecal hpos hlt
  intro m₂ d₂ hphasecal
  apply file_setTimeouts hrange hpos hlt hstable.mmA (by decide)
  intro m₃ d₃ hmm hrangeA
  refine h _ m₃ ?_ ?_ hperiod ?_ hmm hrangeA
  · exact (d₁.widen _).trans ((d₂.within fun i hi => Or.inl (Or.inl (Or.inl (Or.inl hi)))).trans
      (d₃.within (Set.union_subset (fun i hi => Or.inl (Or.inl (Or.inl (Or.inr hi))))
        fun i hi => Or.inl (Or.inl (Or.inr hi)))))
  · rw [field_keepTwo hstable.periodB d₃ (by decide) (by decide),
      field_keep hstable.periodB d₂ (by decide), field_drift d₁ hstable.periodB]
  · rw [field_keepTwo hstable.phasecal d₃ (by decide) (by decide)]
    exact hphasecal

/-- With the time known, the five timeouts are set. -/
theorem file_setTiming {rangeUs : Word} (hstable : TimingStable volatile)
    (hf : 2304 ≤ store.fastOscFrequency.toNat) (hrange : rangeUs.toNat ≤ 550000)
    (ha : field mem rangeConfigVcselPeriodA 1 < 127)
    (hb : field mem rangeConfigVcselPeriodB 1 < 127) :
    FileLeads volatile (do
      let macroPeriodUs ← macroPeriod (← readReg rangeConfigVcselPeriodA)
      let phasecalTimeoutMclks ← defined (timeoutMicrosecondsToMclks 1000 macroPeriodUs)
      let phasecalTimeoutMclks := if phasecalTimeoutMclks > 0xFF then 0xFF else phasecalTimeoutMclks
      writeReg phasecalConfigTimeoutMacrop (phasecalTimeoutMclks.setWidth 8)
      let mclks ← defined (timeoutMicrosecondsToMclks 1 macroPeriodUs)
      writeReg16Bit mmConfigTimeoutMacropA (encodeTimeout mclks)
      let mclks ← defined (timeoutMicrosecondsToMclks rangeUs macroPeriodUs)
      writeReg16Bit rangeConfigTimeoutMacropA (encodeTimeout mclks)
      let macroPeriodUs ← macroPeriod (← readReg rangeConfigVcselPeriodB)
      let mclks ← defined (timeoutMicrosecondsToMclks 1 macroPeriodUs)
      writeReg16Bit mmConfigTimeoutMacropB (encodeTimeout mclks)
      let mclks ← defined (timeoutMicrosecondsToMclks rangeUs macroPeriodUs)
      writeReg16Bit rangeConfigTimeoutMacropB (encodeTimeout mclks)
      return true)
      (fun done store' mem' => done = true ∧ store' = store ∧
        Drift (volatile ∪ timeoutRegisters) mem mem' ∧
        TimeoutsSet rangeUs.toNat
          (macroPeriodOf store.fastOscFrequency.toNat (field mem rangeConfigVcselPeriodA 1))
          (macroPeriodOf store.fastOscFrequency.toNat (field mem rangeConfigVcselPeriodB 1)) mem')
      store mem := by
  apply file_setTimingA hstable hf hrange ha
  rintro _ m₃ d₃ hperiodB rfl hphasecal hmmA hrangeA
  rw [← hperiodB] at hb ⊢
  apply file_readPeriod hf hstable.periodB hb
  intro period m₄ d₄ hperiod hpos hlt
  apply file_setTimeouts hrange hpos hlt hstable.mmB (by decide)
  intro m₅ d₅ hmmB hrangeB
  rw [hperiod] at hmmB hrangeB
  apply file_pure
  refine ⟨rfl, rfl, ?_, ?_, ?_, ?_, hmmB, hrangeB⟩
  · exact d₃.trans ((d₄.widen _).trans (d₅.within
      (Set.union_subset (fun i hi => Or.inl (Or.inr hi)) fun i hi => Or.inr hi)))
  · rw [field_keepTwo hstable.phasecal d₅ (by decide) (by decide), field_drift d₄ hstable.phasecal]
    exact hphasecal
  · rw [field_keepTwo hstable.mmA d₅ (by decide) (by decide), field_drift d₄ hstable.mmA]
    exact hmmA
  · rw [field_keepTwo hstable.rangeA d₅ (by decide) (by decide), field_drift d₄ hstable.rangeA]
    exact hrangeA

/-- The guard is taken off without a wrap-around. -/
theorem sub_timingGuard {budgetUs : Word} (hguard : ¬budgetUs ≤ timingGuard) :
    4528 < budgetUs.toNat ∧ (budgetUs - timingGuard).toNat = budgetUs.toNat - 4528 := by
  rw [BitVec.le_def] at hguard
  change ¬budgetUs.toNat ≤ 4528 at hguard
  have hlt := budgetUs.isLt
  refine ⟨Nat.lt_of_not_le hguard, ?_⟩
  rw [BitVec.toNat_sub]
  change (2 ^ 32 - 4528 + budgetUs.toNat) % 2 ^ 32 = _
  omega

theorem budgetSet_refused {budgetUs : Word} {mem' : Memory 16}
    (hlimits : ¬(4528 < budgetUs.toNat ∧ budgetUs.toNat ≤ 1104528))
    (hdrift : Drift volatile mem mem') :
    BudgetSet volatile budgetUs store mem false store mem' where
  globals := rfl
  limits := iff_of_false Bool.false_ne_true hlimits
  frame := hdrift.mono Set.subset_union_left
  timeouts h := absurd h Bool.false_ne_true

theorem file_setMeasurementTimingBudget (budgetUs : Word)
    (hf : 2304 ≤ store.fastOscFrequency.toNat)
    (ha : field mem rangeConfigVcselPeriodA 1 < 127)
    (hb : field mem rangeConfigVcselPeriodB 1 < 127)
    (hvolatile : Disjoint (timeoutRegisters ∪ span rangeConfigVcselPeriodA 1 ∪
      span rangeConfigVcselPeriodB 1) volatile) :
    FileLeads volatile (setMeasurementTimingBudget budgetUs)
      (BudgetSet volatile budgetUs store mem) store mem := by
  rw [setMeasurementTimingBudget]
  by_cases hguard : budgetUs ≤ timingGuard
  · rw [if_pos hguard]
    rw [BitVec.le_def] at hguard
    exact file_pure (budgetSet_refused (fun h => absurd h.1 (Nat.not_lt_of_le hguard)) Drift.refl)
  rw [if_neg hguard]
  obtain ⟨hlow, hsub⟩ := sub_timingGuard hguard
  by_cases hmax : budgetUs - timingGuard > 1100000
  · rw [if_pos hmax]
    rw [gt_iff_lt, BitVec.lt_def, hsub] at hmax
    change 1100000 < budgetUs.toNat - 4528 at hmax
    exact file_pure (budgetSet_refused (by omega) Drift.refl)
  rw [if_neg hmax]
  rw [gt_iff_lt, BitVec.lt_def, hsub] at hmax
  change ¬1100000 < budgetUs.toNat - 4528 at hmax
  have hus : ((budgetUs - timingGuard) / 2).toNat = (budgetUs.toNat - 4528) / 2 := by
    rw [BitVec.toNat_udiv, hsub]
    rfl
  have hrange : ((budgetUs - timingGuard) / 2).toNat ≤ 550000 := by omega
  apply (file_setTiming (timingStable hvolatile) hf hrange ha hb).mono
  rintro _ _ mem' ⟨rfl, rfl, hframe, htimeouts⟩
  rw [hus] at htimeouts
  refine ⟨rfl, iff_of_true rfl ⟨hlow, by omega⟩, ?_, fun _ => htimeouts⟩
  rw [if_pos rfl]
  exact hframe

/-- In every run, whatever the controller answers, a budget within the limits
sets the five timeouts to the greatest that can be encoded and are not above the
closest number of macro periods, and one beyond them changes nothing.  No step
wraps around or divides by zero. -/
theorem setMeasurementTimingBudget_sets (budgetUs : Word) {s : Controller} (hs : s.At .idle)
    (t : Registers) (hf : 2304 ≤ store.fastOscFrequency.toNat)
    (ha : field t.memory rangeConfigVcselPeriodA 1 < 127)
    (hb : field t.memory rangeConfigVcselPeriodB 1 < 127)
    (hvolatile : Disjoint (timeoutRegisters ∪ span rangeConfigVcselPeriodA 1 ∪
      span rangeConfigVcselPeriodB 1) volatile) :
    wp (sensorBus (registerFile volatile) fun _ => False).contract
      (setMeasurementTimingBudget budgetUs)
      (fun done store' st => st.1.At .idle ∧
        BudgetSet volatile budgetUs store t.memory done store' st.2.memory) store (s, t) :=
  file_setMeasurementTimingBudget budgetUs hf ha hb hvolatile t rfl s hs

/-- The registers after `VL53L1X_setDistanceMode(VL53L1X_Long)`. -/
def longPeriods : Registers :=
  ⟨fun i => if i = rangeConfigVcselPeriodA then 0x0F
    else if i = rangeConfigVcselPeriodB then 0x0D else 0, 0, 0⟩

theorem setMeasurementTimingBudget_sets_long :
    wp (sensorBus (registerFile ∅) fun _ => False).contract (setMeasurementTimingBudget 50000)
      (fun done store' st => st.1.At .idle ∧
        BudgetSet ∅ 50000 { Globals.start with fastOscFrequency := 48332 } longPeriods.memory
          done store' st.2.memory) { Globals.start with fastOscFrequency := 48332 }
      (⟨true, .idle, false, false⟩, longPeriods) :=
  setMeasurementTimingBudget_sets 50000 ⟨rfl, rfl⟩ longPeriods (by decide) (by decide)
    (by decide) (Set.disjoint_empty _)

end Budget

end KyogenRV.VL53L1X
