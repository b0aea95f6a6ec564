import KyogenRV.Sw.AnySensor
import KyogenRV.Sw.SdramTest

/-!
# `main.c`

The firmware as a whole, on hardware of which nothing is known: a sensor behind
its I2C controller, a UART, LEDs and a memory that answer what they like.  Every
access is one that its peripheral allows in its state, what is shown begins one
of the stories below, and `main` does not return.
-/

namespace KyogenRV.Board

open Dialogue Firmware Xprintf QsysI2c

/-! ## `main` -/

section Program

open VL53L1X (Driver i2c0Base long setDistanceMode setMeasurementTimingBudget startContinuous)

/-- The part under `USE_VL53L1X` behind `i2c_init`. -/
def useVL53L1X (highFirst : Bool) : Driver Unit := do
  i2cDisableIsr i2c0Base
  if ← VL53L1X.init highFirst then do
    xprintf "VL5351X init OK.\r\n" []
    let _ ← setDistanceMode long
    let _ ← setMeasurementTimingBudget 50000
    startContinuous 50
  else xprintf "VL5351X init failed.\r\n" []

/-- The part under `USE_SDRAM`. -/
def useSdram : Driver Unit := do
  if 0 = (← sdramTest) then xprintf "SDRAM r/w test OK!\r\n" []
  else xprintf "SDRAM r/w test fail......\r\n" []

/-- The body of `while(1)`. -/
def round (highFirst : Bool) : Driver (Option Word) := do
  waitMs highFirst 500
  put32 pio0Base 0x55
  waitMs highFirst 500
  put32 pio0Base 0xAA
  let data ← VL53L1X.read highFirst true
  xprintf "value = %d\r\n" [.int (data.setWidth 32)]
  pure none

def main (highFirst : Bool) : Driver Word := do
  xprintf "I2C init\r\n" []
  i2cInit i2c0Base
  useVL53L1X highFirst
  useSdram
  xprintf "KyogenRV (RV32I) Start...\r\n" []
  loop (round highFirst)

end Program

/-! ## What is shown -/

/-- What the firmware has met. -/
structure Story where
  sensor : Bool
  fault : Option Fault
  ranges : List (BitVec 16)

def sensorText (sensor : Bool) : List Xprintf.Byte :=
  literalText (if sensor then "VL5351X init OK.\r\n" else "VL5351X init failed.\r\n")

def memoryText (fault : Option Fault) : List Xprintf.Byte :=
  literalText (if fault.isNone then "SDRAM r/w test OK!\r\n" else "SDRAM r/w test fail......\r\n")

def rangeText (range : BitVec 16) : List Xprintf.Byte :=
  literalText "value = " ++ (signedText (range.setWidth 32) ++ literalText "\r\n")

def roundSigns (range : BitVec 16) : List Sign :=
  .leds 0x55 :: .leds 0xAA :: said (rangeText range)

/-- Up to the loop. -/
def Story.start (story : Story) : List Sign :=
  said (literalText "I2C init\r\n") ++ said (sensorText story.sensor) ++
    testSigns story.fault ++ said (memoryText story.fault) ++
      said (literalText "KyogenRV (RV32I) Start...\r\n")

def Story.signs (story : Story) : List Sign :=
  story.start ++ story.ranges.flatMap roundSigns

/-- The stories in which the test of the memory can end so, and all ranges are
corrected ones. -/
def Told (found : Option Fault → Prop) (signs : List Sign) : Prop :=
  ∃ story : Story, found story.fault ∧ (∀ range ∈ story.ranges, VL53L1X.Corrected range) ∧
    signs = story.signs

/-! ## The hardware -/

def toController : Access → Bool
  | .get32 register => register < uart0Base
  | .put32 register _ => register < uart0Base
  | .getTimel => true
  | .getTimeh => true

/-- The controller with the sensor, the console and the memory. -/
def board {ρ : Type} (found : Option Fault → Prop) (ram : Ram ρ) :
    Contract Access Word ((Controller × VL53L1X.Watched) × (Console × ρ)) :=
  VL53L1X.watchedBus.contract.beside toController (outputs (Told found) ram)

section Rules

variable {γ ρ α : Type} {found : Option Fault → Prop} {ram : Ram ρ} {store : γ}
variable {s : Controller × VL53L1X.Watched} {o : Console × ρ}

theorem toController_of_bus (s : Controller × VL53L1X.Watched) (access : Access)
    (h : VL53L1X.watchedBus.contract.allowed s access) : toController access = true := by
  cases access with
  | get32 register =>
      obtain rfl | rfl | ⟨rfl, -⟩ | ⟨rfl, -⟩ := h
      all_goals rfl
  | put32 register data =>
      obtain ⟨rfl, -⟩ | ⟨rfl, -⟩ | ⟨rfl, -⟩ | ⟨rfl | rfl | rfl, -⟩ := h
      all_goals rfl
  | getTimel => rfl
  | getTimeh => rfl

theorem not_toController (o : Console × ρ) (access : Access)
    (h : (outputs (Told found) ram).allowed o access) : toController access = false := by
  rw [outputs, Contract.beside] at h
  have hcases : (Console.contract (Told found)).allowed o.1 access ∨
      ram.contract.allowed o.2 access := by
    cases hside : belowSdram access with
    | true => exact Or.inl (by simpa [hside] using h)
    | false => exact Or.inr (by simpa [hside] using h)
  have hbase : uart0Base ≤ sdram0Base := by decide
  cases access with
  | get32 register =>
      obtain rfl | hram := hcases
      · rfl
      · exact decide_eq_false (BitVec.not_lt.mpr (BitVec.le_trans hbase hram.1))
  | put32 register data =>
      obtain (⟨rfl, -⟩ | ⟨rfl, -⟩) | hram := hcases
      · rfl
      · rfl
      · exact decide_eq_false (BitVec.not_lt.mpr (BitVec.le_trans hbase hram.1))
  | getTimel => exact hcases.elim False.elim False.elim
  | getTimeh => exact hcases.elim False.elim False.elim

theorem wp_onBus {m : Firmware γ α}
    {Q : α → γ → (Controller × VL53L1X.Watched) × Console × ρ → Prop}
    (h : wp VL53L1X.watchedBus.contract m (fun value store s => Q value store (s, o)) store s) :
    wp (board found ram) m Q store (s, o) :=
  wp_left toController_of_bus h

theorem wp_onOutputs {m : Firmware γ α}
    {Q : α → γ → (Controller × VL53L1X.Watched) × Console × ρ → Prop}
    (h : wp (outputs (Told found) ram) m (fun value store o => Q value store (s, o)) store o) :
    wp (board found ram) m Q store (s, o) :=
  wp_right not_toController h

/-- Between two frames: over whether the sensor's answers were credible, what is
shown and the memory. -/
def Runs (found : Option Fault → Prop) (ram : Ram ρ) (m : Firmware γ α)
    (Q : α → γ → Bool → List Sign → ρ → Prop) (store : γ) (credible : Bool)
    (shown : List Sign) (r : ρ) : Prop :=
  ∀ (s : Controller) (t : VL53L1X.Watched) (ready : Bool), s.At .idle → t.credible = credible →
    wp (board found ram) m
      (fun value store st => st.1.1.At .idle ∧ Q value store st.1.2.credible st.2.1.shown st.2.2)
      store ((s, t), (⟨ready, shown⟩, r))

variable {β : Type} {credible : Bool} {shown : List Sign} {r : ρ}

theorem Runs.seq {m : Firmware γ α} {f : α → Firmware γ β}
    {Q : β → γ → Bool → List Sign → ρ → Prop}
    (h : Runs found ram m (fun value => Runs found ram (f value) Q) store credible shown r) :
    Runs found ram (m >>= f) Q store credible shown r := by
  intro s t ready hs ht
  apply wp_seq (h s t ready hs ht)
  rintro value store ⟨⟨s, t⟩, ⟨ready, shown⟩, r⟩ ⟨hs, hf⟩
  exact hf s t ready hs rfl

theorem runs_pure {Q : α → γ → Bool → List Sign → ρ → Prop} {value : α}
    (h : Q value store credible shown r) :
    Runs found ram (pure value) Q store credible shown r :=
  fun _ _ _ hs ht => wp_pure ⟨hs, ht ▸ h⟩

/-- The sensor's driver. -/
theorem runs_watched {m : Firmware γ α} {Q : α → γ → Bool → List Sign → ρ → Prop}
    (h : VL53L1X.WatchLeads m (fun value store credible => Q value store credible shown r)
      store credible) : Runs found ram m Q store credible shown r :=
  fun s t _ hs ht => wp_onBus (h t ht s hs)

/-- What does not end, from a controller that is on. -/
theorem wp_of_runs {m : Firmware γ α} {t : VL53L1X.Watched} {ready : Bool} {s : Controller}
    (hs : s.At .idle)
    (h : Runs found ram m (fun _ _ _ _ _ => False) store t.credible shown r) :
    wp (board found ram) m (fun _ _ _ => False) store ((s, t), (⟨ready, shown⟩, r)) :=
  wp_mono (h s t ready hs rfl) fun _ _ _ hst => hst.2

theorem runs_xprintf {fmt : String} {arp : List Arg} {text : List Xprintf.Byte}
    {Q : Unit → γ → Bool → List Sign → ρ → Prop} (hmeans : Means (literal fmt) arp text)
    (hlog : Begins (Told found) (shown ++ said text))
    (h : Q () store credible (shown ++ said text) r) :
    Runs found ram (xprintf fmt arp) Q store credible shown r := by
  intro s t ready hs ht
  apply wp_onOutputs
  apply wp_onConsole
  apply wp_xprintf hmeans hlog
  exact fun ready => ⟨hs, ht ▸ h⟩

theorem runs_leds {value : Word} {Q : Unit → γ → Bool → List Sign → ρ → Prop}
    (hlog : Begins (Told found) (shown ++ [.leds value]))
    (h : Q () store credible (shown ++ [.leds value]) r) :
    Runs found ram (put32 pio0Base value) Q store credible shown r := by
  intro s t ready hs ht
  apply wp_onOutputs
  apply wp_onConsole
  exact wp_leds hlog ⟨hs, ht ▸ h⟩

theorem runs_loop {body : Firmware γ (Option α)} {Q : α → γ → Bool → List Sign → ρ → Prop}
    (I : List Sign → Prop)
    (hbody : ∀ store credible shown r, I shown →
      Runs found ram body (fun result _ _ shown _ => result = none ∧ I shown)
        store credible shown r)
    (h : I shown) : Runs found ram (loop body) Q store credible shown r := by
  intro s t ready hs ht
  refine wp_loop (fun _ st => st.1.1.At .idle ∧ I st.2.1.shown) ?_ ⟨hs, h⟩
  rintro store ⟨⟨s, t⟩, ⟨ready, shown⟩, r⟩ ⟨hs, hI⟩
  apply wp_mono (hbody store _ shown r hI s t ready hs rfl)
  rintro result store st ⟨hs, rfl, hI⟩
  exact ⟨nofun, fun _ => ⟨hs, hI⟩⟩

end Rules

/-! ## Every run -/

section Stories

variable {found : Option Fault → Prop} {shown : List Sign}

theorem told_start (story : Story) (hfound : found story.fault) :
    Told found story.start :=
  ⟨{ story with ranges := [] }, hfound, nofun, (List.append_nil _).symm⟩

theorem Told.begins (h : Told found shown) : Begins (Told found) shown :=
  ⟨shown, h, List.prefix_rfl⟩

theorem Told.round (h : Told found shown) {range : BitVec 16}
    (hrange : VL53L1X.Corrected range) : Told found (shown ++ roundSigns range) := by
  obtain ⟨story, hfound, hranges, rfl⟩ := h
  refine ⟨{ story with ranges := story.ranges ++ [range] }, hfound, ?_, ?_⟩
  · intro range' hmem
    obtain hmem | hmem := List.mem_append.mp hmem
    · exact hranges range' hmem
    · exact List.mem_singleton.mp hmem ▸ hrange
  · simp only [Story.signs, Story.start, List.flatMap_append, List.flatMap_singleton,
      List.append_assoc]

theorem means_rangeText (range : BitVec 16) :
    Means (literal "value = %d\r\n") [.int (range.setWidth 32)] (rangeText range) := by
  have hfmt : literal "value = %d\r\n" =
      literalText "value = " ++ (chr '%' :: chr 'd' :: literal "\r\n") := by
    decide +kernel
  rw [hfmt]
  apply means_append _ (by decide +kernel)
  apply means_d
  exact means_literal _ (by decide +kernel)

end Stories

section Main

variable {ρ : Type} {found : Option Fault → Prop} {ram : Ram ρ} {W R : ℕ → ρ → Prop}
variable {store : VL53L1X.Globals} {credible : Bool} {shown : List Sign} {r : ρ}

theorem runs_round (highFirst : Bool) (h : Told found shown) :
    Runs found ram (round highFirst) (fun result _ _ shown _ => result = none ∧ Told found shown)
      store credible shown r := by
  have hzero : VL53L1X.Corrected 0 := ⟨0, rfl⟩
  have hany : Begins (Told found) (shown ++ [.leds 0x55] ++ [.leds 0xAA]) := by
    refine ⟨_, h.round hzero, said (rangeText 0), ?_⟩
    simp [roundSigns]
  apply Runs.seq
  apply runs_watched
  apply VL53L1X.watch_waitMs
  apply Runs.seq
  apply runs_leds hany.append_left
  apply Runs.seq
  apply runs_watched
  apply VL53L1X.watch_waitMs
  apply Runs.seq
  apply runs_leds hany
  apply Runs.seq
  apply runs_watched
  apply VL53L1X.watch_read
  intro range store' credible' hrange
  have hround := h.round hrange
  rw [roundSigns, List.append_cons, List.append_cons] at hround
  apply Runs.seq
  apply runs_xprintf (means_rangeText range) hround.begins
  exact runs_pure ⟨rfl, hround⟩

theorem runs_sdramTest (h : Tested ram W R found) (hstart : W 0 r)
    {Q : Word → VL53L1X.Globals → Bool → List Sign → ρ → Prop}
    (hlog : ∀ fault, found fault → Begins (Told found) (shown ++ testSigns fault))
    (hQ : ∀ fault r, found fault →
      Q (testResult fault) store credible (shown ++ testSigns fault) r) :
    Runs found ram sdramTest Q store credible shown r := by
  intro s t ready hs ht
  apply wp_onOutputs
  apply wp_mono (wp_sdramTest h hstart hlog)
  rintro _ _ ⟨⟨ready, _⟩, r⟩ ⟨rfl, fault, hfound, rfl, rfl⟩
  exact ⟨hs, ht ▸ hQ fault r hfound⟩

theorem watch_i2cDisableIsr {Q : Unit → VL53L1X.Globals → Bool → Prop}
    (h : Q () store credible) :
    VL53L1X.WatchLeads (i2cDisableIsr VL53L1X.i2c0Base) Q store credible :=
  fun _ ht => leads_i2cDisableIsr (ht ▸ h)

theorem runs_useVL53L1X (highFirst : Bool)
    {Q : Unit → VL53L1X.Globals → Bool → List Sign → ρ → Prop}
    (hlog : ∀ sensor, Begins (Told found) (shown ++ said (sensorText sensor)))
    (hQ : ∀ sensor store credible, Q () store credible (shown ++ said (sensorText sensor)) r) :
    Runs found ram (useVL53L1X highFirst) Q store credible shown r := by
  apply Runs.seq
  apply runs_watched
  apply watch_i2cDisableIsr
  apply Runs.seq
  apply runs_watched
  apply VL53L1X.watch_init
  · intro credible'
    exact runs_xprintf (means_literal _ (by decide +kernel)) (hlog false) (hQ false _ _)
  · intro store' credible' hknown
    apply Runs.seq
    apply runs_xprintf (means_literal _ (by decide +kernel)) (hlog true)
    apply runs_watched
    apply VL53L1X.WatchLeads.seq
    apply VL53L1X.watch_setDistanceMode
    apply VL53L1X.WatchLeads.seq
    apply VL53L1X.watch_setMeasurementTimingBudget _ hknown
    intro done credible'' _
    exact VL53L1X.watch_startContinuous _ (hQ true _ _)

theorem runs_useSdram (h : Tested ram W R found) (hstart : W 0 r)
    {Q : Unit → VL53L1X.Globals → Bool → List Sign → ρ → Prop}
    (hlog : ∀ fault, found fault →
      Begins (Told found) (shown ++ testSigns fault ++ said (memoryText fault)))
    (hQ : ∀ fault r, found fault →
      Q () store credible (shown ++ testSigns fault ++ said (memoryText fault)) r) :
    Runs found ram useSdram Q store credible shown r := by
  apply Runs.seq
  apply runs_sdramTest h hstart fun fault hfault => (hlog fault hfault).append_left
  intro fault r hfault
  cases fault with
  | none =>
      exact runs_xprintf (means_literal _ (by decide +kernel)) (hlog none hfault) (hQ none r hfault)
  | some fault =>
      exact runs_xprintf (means_literal _ (by decide +kernel)) (hlog _ hfault) (hQ _ r hfault)

/-- From a controller between frames `main` does what it is allowed to, and never
ends. -/
theorem wp_main (h : Tested ram W R found) (hstart : W 0 r) (highFirst : Bool) {s : Controller}
    (hs : s.phase = .idle) (t : VL53L1X.Watched) (ready : Bool) :
    wp (board found ram) (main highFirst) (fun _ _ _ => False) store
      ((s, t), (⟨ready, []⟩, r)) := by
  have hstory : ∀ sensor fault, found fault → Told found
      (said (literalText "I2C init\r\n") ++ said (sensorText sensor) ++ testSigns fault ++
        said (memoryText fault) ++ said (literalText "KyogenRV (RV32I) Start...\r\n")) :=
    fun sensor fault hfound => told_start ⟨sensor, fault, []⟩ hfound
  obtain ⟨fault₀, hfound₀⟩ := h.possible
  have hsensor : ∀ sensor, Begins (Told found)
      (said (literalText "I2C init\r\n") ++ said (sensorText sensor)) :=
    fun sensor => (hstory sensor fault₀ hfound₀).begins.append_left.append_left.append_left
  apply wp_bind
  apply wp_onOutputs
  apply wp_onConsole
  apply wp_xprintf (means_literal _ (by decide +kernel)) (hsensor true).append_left
  intro ready
  apply wp_bind
  apply wp_onBus
  apply wp_i2cInit hs
  intro s hs
  apply wp_of_runs hs
  apply Runs.seq
  apply runs_useVL53L1X highFirst hsensor
  intro sensor store credible
  apply Runs.seq
  apply runs_useSdram h hstart
  · exact fun fault hfault => (hstory sensor fault hfault).begins.append_left
  intro fault r hfault
  apply Runs.seq
  apply runs_xprintf (means_literal _ (by decide +kernel)) (hstory sensor fault hfault).begins
  exact runs_loop (Told found) (fun _ _ _ _ => runs_round highFirst) (hstory sensor fault hfault)

/-- In every run, whatever the sensor, the UART and the memory answer, `main`
makes only accesses that the peripherals allow, shows the beginning of a story
and never ends, and what is undefined can happen only after an answer of the
sensor that was not credible. -/
theorem main_safe (ram : Ram ρ) (highFirst : Bool) (store : VL53L1X.Globals) {s : Controller}
    (hs : s.phase = .idle) (index : VL53L1X.Index) (left : ℕ) (ready : Bool) (r : ρ) :
    wp (board (fun _ => True) ram) (main highFirst) (fun _ _ _ => False) store
      ((s, ⟨index, left, true⟩), (⟨ready, []⟩, r)) :=
  wp_main (tested_any ram) trivial highFirst hs _ ready

theorem main_safe_reset :
    wp (board (fun _ => True) (⟨fun _ _ _ _ => True, fun _ _ _ _ => True⟩ : Ram Unit)) (main true)
      (fun _ _ _ => False) VL53L1X.Globals.start
      ((⟨false, .idle, false, false⟩, ⟨0, 0, true⟩), (⟨false, []⟩, ())) :=
  main_safe _ true _ rfl 0 0 false ()

/-- And with a memory of cells what is shown of its test is true. -/
theorem main_tells {κ : Type} [DecidableEq κ] (decode : Word → κ) (latch : κ → Word → Word)
    (highFirst : Bool) (store : VL53L1X.Globals) {s : Controller} (hs : s.phase = .idle)
    (index : VL53L1X.Index) (left : ℕ) (ready : Bool) (cell : κ → Word) :
    wp (board (Diagnosed decode latch) (cells decode latch)) (main highFirst)
      (fun _ _ _ => False) store ((s, ⟨index, left, true⟩), (⟨ready, []⟩, cell)) :=
  wp_main (tested_cells decode latch) nofun highFirst hs _ ready

theorem main_tells_wired :
    wp (board (Diagnosed (fun address : Word => address) fun _ data => data)
        (cells (fun address : Word => address) fun _ data => data)) (main true)
      (fun _ _ _ => False) VL53L1X.Globals.start
      ((⟨false, .idle, false, false⟩, ⟨0, 0, true⟩), (⟨false, []⟩, fun _ => 0)) :=
  main_tells _ _ true _ rfl 0 0 false _

end Main

end KyogenRV.Board
