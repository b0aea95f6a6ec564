import KyogenRV.Sw.Firmware

/-!
# `qsys_i2c.c`

The driver of the I2C controller.  Every function is a program of loads from and
stores to the controller's registers.  `Controller` is what the driver may rely
on and has to obey: a command is stored only when `TX_READY` was seen since the
last one, data is fetched only when `RX_READY` was, and commands form frames
from START to STOP.  Behind the controller is a slave, in any of its states.
-/

namespace KyogenRV.QsysI2c

open Dialogue Firmware

abbrev Byte := BitVec 8

/-! ## Registers -/

def tfrCmdOffset : Word := 0x0 * 4
def rxDataOffset : Word := 0x1 * 4
def ctrlOffset : Word := 0x2 * 4
def iserOffset : Word := 0x3 * 4
def isrOffset : Word := 0x4 * 4
def statusOffset : Word := 0x5 * 4
def sclLowOffset : Word := 0x8 * 4
def sclHighOffset : Word := 0x9 * 4
def sdaHoldOffset : Word := 0xA * 4

/-- `I2C_0_FREQ`. -/
def i2c0Freq : ℕ := 70000000

/-! ## The driver -/

section Driver

variable {γ : Type} (i2cBase : Word)

/-- `0xFFFFFFFFE` has nine digits, so the conjunction has 64 bits. -/
def i2cInit : Firmware γ Unit := do
  let ctrlParam ← get32 (i2cBase + ctrlOffset)
  let ctrlParam := (ctrlParam.setWidth 64 &&& 0xFFFFFFFFE#64).setWidth 32
  put32 (i2cBase + ctrlOffset) ctrlParam
  let period := BitVec.ofNat 32 (i2c0Freq / 400000 / 2) - 1
  put32 (i2cBase + sclLowOffset) period
  put32 (i2cBase + sclHighOffset) period
  put32 (i2cBase + sdaHoldOffset) 0x0F
  let ctrlParam ← get32 (i2cBase + ctrlOffset)
  let ctrlParam := ctrlParam ||| 0x03
  put32 (i2cBase + ctrlOffset) ctrlParam

def i2cDisableIsr : Firmware γ Unit :=
  put32 (i2cBase + iserOffset) 0x00000000

/-- `while(!(get32(isr) & 0x0001));` -/
def waitTxReady : Firmware γ Unit :=
  poll (i2cBase + isrOffset) fun isr => isr &&& 0x0001 != 0

/-- `while(0 == (get32(isr) & 0x0002));` -/
def waitRxReady : Firmware γ Unit :=
  poll (i2cBase + isrOffset) fun isr => isr &&& 0x0002 != 0

/-- `while(0 == get32(status));` -/
def waitStatus : Firmware γ Unit :=
  poll (i2cBase + statusOffset) fun status => status != 0

def i2cStartTransmit (i2cSlaveAddress isRead : Byte) : Firmware γ Unit := do
  let isRead := if 1 ≠ isRead then 0 else isRead
  waitTxReady i2cBase
  if isRead ≠ 0 then
    put32 (i2cBase + tfrCmdOffset)
      ((1#32 <<< 9) + (0#32 <<< 8) + (i2cSlaveAddress.setWidth 32 <<< 1) + 1)
  else
    put32 (i2cBase + tfrCmdOffset)
      ((1#32 <<< 9) + (0#32 <<< 8) + (i2cSlaveAddress.setWidth 32 <<< 1) + 0)

/-- The result is always 0 and nothing reads it. -/
def i2cWrite (data : Byte) (sendStopBit : Bool) : Firmware γ Unit := do
  waitTxReady i2cBase
  if sendStopBit then
    put32 (i2cBase + tfrCmdOffset) ((0#32 <<< 9) + (1#32 <<< 8) + data.setWidth 32)
    waitStatus i2cBase
  else
    put32 (i2cBase + tfrCmdOffset) ((0#32 <<< 9) + (0#32 <<< 8) + data.setWidth 32)

def i2cRead (sendStopBit : Bool) : Firmware γ Word := do
  waitTxReady i2cBase
  if sendStopBit then
    put32 (i2cBase + tfrCmdOffset) ((0#32 <<< 9) + (1#32 <<< 8) + 0x00)
    waitRxReady i2cBase
    let recvData ← get32 (i2cBase + rxDataOffset)
    waitStatus i2cBase
    pure recvData
  else
    put32 (i2cBase + tfrCmdOffset) ((0#32 <<< 9) + (0#32 <<< 8) + 0x00)
    waitRxReady i2cBase
    get32 (i2cBase + rxDataOffset)

end Driver

/-! ## The controller -/

/-- Where the driver is in a frame: `fetching` has a read command out, its last
one or not, `stopping` has sent STOP. -/
inductive Phase where
  | idle
  | writing
  | reading
  | fetching (last : Bool)
  | stopping
  deriving DecidableEq

/-- `[9]STA` of a command. -/
def sta (command : Word) : Bool := command.getLsbD 9

/-- `[8]STO` of a command. -/
def sto (command : Word) : Bool := command.getLsbD 8

/-- `[7:1]AD` and `[0]RW_D` after START, otherwise the data. -/
def ad (command : Word) : Byte := command.extractLsb' 0 8

/-- What was last told to and by the controller. -/
structure Controller where
  enabled : Bool
  phase : Phase
  txReady : Bool
  rxReady : Bool
  deriving DecidableEq

/-- The first byte of a frame. -/
def addressByte (address : Byte) (isRead : Bool) : Byte :=
  (address <<< 1) + if isRead then 1 else 0

/-- A frame opens with START and the address, without STOP.  In it there is no
other START, and a read command has no data. -/
def CommandAllowed (address : Byte) (command : Word) : Phase → Prop
  | .idle => command >>> 10 = 0 ∧ sta command ∧ !sto command ∧
      ∃ isRead, ad command = addressByte address isRead
  | .writing => command >>> 10 = 0 ∧ !sta command
  | .reading => command >>> 10 = 0 ∧ !sta command ∧ ad command = 0
  | .fetching _ => False
  | .stopping => False

/-- The accesses that the driver may make. -/
def Allowed (i2cBase : Word) (address : Byte) (s : Controller) : Access → Prop
  | .get32 register =>
      register = i2cBase + isrOffset ∨ register = i2cBase + statusOffset ∨
        register = i2cBase + ctrlOffset ∧ s.phase = .idle ∨
        register = i2cBase + rxDataOffset ∧ s.rxReady ∧ ∃ last, s.phase = .fetching last
  | .put32 register data =>
      register = i2cBase + tfrCmdOffset ∧ s.enabled ∧ s.txReady ∧
          CommandAllowed address data s.phase ∨
        register = i2cBase + ctrlOffset ∧ s.phase = .idle ∨
        register = i2cBase + iserOffset ∧ s.phase = .idle ∨
        (register = i2cBase + sclLowOffset ∨ register = i2cBase + sclHighOffset ∨
          register = i2cBase + sdaHoldOffset) ∧ s.phase = .idle ∧ !s.enabled
  | .getTimel => True
  | .getTimeh => True

/-- A slave on the bus: how its state moves when a frame starts, with a byte
that it gets, with a byte that it gives as the word in `RX_DATA`, and when the
frame stops. -/
structure Slave (τ : Type) where
  start : Bool → τ → τ → Prop
  write : Byte → τ → τ → Prop
  read : Word → τ → τ → Prop
  stop : τ → τ → Prop

namespace Slave

variable {τ : Type} (S : Slave τ)

/-- The slave gets these bytes. -/
def Writes : List Byte → τ → τ → Prop
  | [], t, t' => t' = t
  | data :: bytes, t, t' => ∃ t₁, S.write data t t₁ ∧ Writes bytes t₁ t'

/-- The slave gives these words. -/
def Reads : List Word → τ → τ → Prop
  | [], t, t' => t' = t
  | data :: words, t, t' => ∃ t₁, S.read data t t₁ ∧ Reads words t₁ t'

/-- The frame that started at `t` has written these bytes so far. -/
def Writing (bytes : List Byte) (t t' : τ) : Prop :=
  ∃ t₁, S.start false t t₁ ∧ S.Writes bytes t₁ t'

/-- The frame that started at `t` has read these words so far. -/
def Reading (words : List Word) (t t' : τ) : Prop :=
  ∃ t₁, S.start true t t₁ ∧ S.Reads words t₁ t'

/-- A whole frame to the slave. -/
def Sends (bytes : List Byte) (t t' : τ) : Prop :=
  ∃ t₁, S.Writing bytes t t₁ ∧ S.stop t₁ t'

/-- A whole frame from the slave. -/
def Receives (words : List Word) (t t' : τ) : Prop :=
  ∃ t₁, S.Reading words t t₁ ∧ S.stop t₁ t'

variable {S} {t₀ t t₁ t' : τ}

theorem Writes.snoc {bytes : List Byte} {data : Byte} (h : S.Writes bytes t t₁)
    (hdata : S.write data t₁ t') : S.Writes (bytes ++ [data]) t t' := by
  induction bytes generalizing t with
  | nil =>
      obtain rfl : t₁ = t := h
      exact ⟨t', hdata, rfl⟩
  | cons first bytes ih =>
      obtain ⟨t₂, hfirst, hbytes⟩ := h
      exact ⟨t₂, hfirst, ih hbytes⟩

theorem Reads.snoc {words : List Word} {data : Word} (h : S.Reads words t t₁)
    (hdata : S.read data t₁ t') : S.Reads (words ++ [data]) t t' := by
  induction words generalizing t with
  | nil =>
      obtain rfl : t₁ = t := h
      exact ⟨t', hdata, rfl⟩
  | cons first words ih =>
      obtain ⟨t₂, hfirst, hwords⟩ := h
      exact ⟨t₂, hfirst, ih hwords⟩

theorem Writing.snoc {bytes : List Byte} {data : Byte} (h : S.Writing bytes t₀ t)
    (hdata : S.write data t t') : S.Writing (bytes ++ [data]) t₀ t' := by
  obtain ⟨t₁, hstart, hbytes⟩ := h
  exact ⟨t₁, hstart, hbytes.snoc hdata⟩

theorem Reading.snoc {words : List Word} {data : Word} (h : S.Reading words t₀ t)
    (hdata : S.read data t t') : S.Reading (words ++ [data]) t₀ t' := by
  obtain ⟨t₁, hstart, hwords⟩ := h
  exact ⟨t₁, hstart, hwords.snoc hdata⟩

end Slave

section Contract

variable {τ : Type} (S : Slave τ)

/-- A command goes to the slave. -/
def commandStep (command : Word) (s : Controller) (t : τ) (s' : Controller) (t' : τ) : Prop :=
  let sent (phase : Phase) : Controller := ⟨s.enabled, phase, false, false⟩
  match s.phase with
  | .idle =>
      s' = sent (if (ad command).getLsbD 0 then .reading else .writing) ∧
        S.start ((ad command).getLsbD 0) t t'
  | .writing =>
      if sto command then
        s' = sent .stopping ∧ ∃ t₁, S.write (ad command) t t₁ ∧ S.stop t₁ t'
      else s' = sent .writing ∧ S.write (ad command) t t'
  | .reading => s' = sent (.fetching (sto command)) ∧ t' = t
  | .fetching last => s' = sent (.fetching last) ∧ t' = t
  | .stopping => s' = sent .stopping ∧ t' = t

/-- `RX_DATA` is loaded. -/
def fetchStep (data : Word) (s : Controller) (t : τ) (s' : Controller) (t' : τ) : Prop :=
  match s.phase with
  | .fetching true =>
      s' = { s with phase := .stopping } ∧ ∃ t₁, S.read data t t₁ ∧ S.stop t₁ t'
  | .fetching false => s' = { s with phase := .reading } ∧ S.read data t t'
  | _ => s' = s ∧ t' = t

/-- The controller and the slave answer an access. -/
def step (i2cBase : Word) :
    Controller × τ → Access → Word → Controller × τ → Prop
  | (s, t), .get32 register, value, (s', t') =>
      if register = i2cBase + isrOffset then
        s' = { s with txReady := value.getLsbD 0, rxReady := value.getLsbD 1 } ∧ t' = t
      else if register = i2cBase + statusOffset then
        s' = (if s.phase = .stopping ∧ value ≠ 0 then { s with phase := .idle } else s) ∧ t' = t
      else if register = i2cBase + rxDataOffset then fetchStep S value s t s' t'
      else s' = s ∧ t' = t
  | (s, t), .put32 register data, _, (s', t') =>
      if register = i2cBase + tfrCmdOffset then commandStep S data s t s' t'
      else if register = i2cBase + ctrlOffset then
        s' = { s with enabled := data.getLsbD 0 } ∧ t' = t
      else s' = s ∧ t' = t
  | (s, t), .getTimel, _, (s', t') => s' = s ∧ t' = t
  | (s, t), .getTimeh, _, (s', t') => s' = s ∧ t' = t

end Contract

/-- A controller, the address of the slave that the driver talks to, and the
slave.  `mayFail` says in which of its states the driver may do what is
undefined. -/
structure Bus (τ : Type) where
  i2cBase : Word
  address : Byte
  address_lt : address.toNat < 128
  slave : Slave τ
  mayFail : τ → Prop

/-- The contract between the driver and the other side of its bus. -/
def Bus.contract {τ : Type} (bus : Bus τ) : Contract Access Word (Controller × τ) where
  allowed s := Allowed bus.i2cBase bus.address s.1
  step := step bus.slave bus.i2cBase
  mayFail s := bus.mayFail s.2

/-! ### Another slave -/

/-- Seen through `rel`, every move of the slave `S` is one of `R`. -/
structure Slave.SimulatedBy {τ ρ : Type} (S : Slave τ) (R : Slave ρ) (rel : τ → ρ → Prop) :
    Prop where
  start : ∀ t r isRead t', rel t r → S.start isRead t t' → ∃ r', R.start isRead r r' ∧ rel t' r'
  write : ∀ t r data t', rel t r → S.write data t t' → ∃ r', R.write data r r' ∧ rel t' r'
  read : ∀ t r data t', rel t r → S.read data t t' → ∃ r', R.read data r r' ∧ rel t' r'
  stop : ∀ t r t', rel t r → S.stop t t' → ∃ r', R.stop r r' ∧ rel t' r'

section Simulation

variable {τ ρ : Type} {S : Slave τ} {R : Slave ρ} {rel : τ → ρ → Prop}

theorem Slave.SimulatedBy.writes (h : S.SimulatedBy R rel) {bytes : List Byte} {t t' : τ} {r : ρ}
    (hrel : rel t r) (hwrites : S.Writes bytes t t') : ∃ r', R.Writes bytes r r' ∧ rel t' r' := by
  induction bytes generalizing t r with
  | nil =>
      obtain rfl : t' = t := hwrites
      exact ⟨r, rfl, hrel⟩
  | cons data bytes ih =>
      obtain ⟨t₁, hwrite, hrest⟩ := hwrites
      obtain ⟨r₁, hr₁, hrel₁⟩ := h.write _ _ _ _ hrel hwrite
      obtain ⟨r', hr', hrel'⟩ := ih hrel₁ hrest
      exact ⟨r', ⟨r₁, hr₁, hr'⟩, hrel'⟩

theorem Slave.SimulatedBy.sends (h : S.SimulatedBy R rel) {bytes : List Byte} {t t' : τ} {r : ρ}
    (hrel : rel t r) (hsends : S.Sends bytes t t') : ∃ r', R.Sends bytes r r' ∧ rel t' r' := by
  obtain ⟨t₂, ⟨t₁, hstart, hwrites⟩, hstop⟩ := hsends
  obtain ⟨r₁, hr₁, hrel₁⟩ := h.start _ _ _ _ hrel hstart
  obtain ⟨r₂, hr₂, hrel₂⟩ := h.writes hrel₁ hwrites
  obtain ⟨r', hr', hrel'⟩ := h.stop _ _ _ hrel₂ hstop
  exact ⟨r', ⟨r₂, ⟨r₁, hr₁, hr₂⟩, hr'⟩, hrel'⟩

theorem commandStep_simulated (h : S.SimulatedBy R rel) {command : Word} {s s' : Controller}
    {t t' : τ} {r : ρ} (hrel : rel t r) (hstep : commandStep S command s t s' t') :
    ∃ r', commandStep R command s r s' r' ∧ rel t' r' := by
  cases hphase : s.phase with
  | idle =>
      simp only [commandStep, hphase] at hstep ⊢
      obtain ⟨hs, hstart⟩ := hstep
      obtain ⟨r', hr', hrel'⟩ := h.start _ _ _ _ hrel hstart
      exact ⟨r', ⟨hs, hr'⟩, hrel'⟩
  | writing =>
      simp only [commandStep, hphase] at hstep ⊢
      by_cases hsto : sto command = true
      · rw [if_pos hsto] at hstep
        obtain ⟨hs, t₁, hwrite, hstop⟩ := hstep
        obtain ⟨r₁, hr₁, hrel₁⟩ := h.write _ _ _ _ hrel hwrite
        obtain ⟨r', hr', hrel'⟩ := h.stop _ _ _ hrel₁ hstop
        exact ⟨r', by rw [if_pos hsto]; exact ⟨hs, r₁, hr₁, hr'⟩, hrel'⟩
      · rw [if_neg hsto] at hstep
        obtain ⟨hs, hwrite⟩ := hstep
        obtain ⟨r', hr', hrel'⟩ := h.write _ _ _ _ hrel hwrite
        exact ⟨r', by rw [if_neg hsto]; exact ⟨hs, hr'⟩, hrel'⟩
  | _ =>
      simp only [commandStep, hphase] at hstep ⊢
      exact ⟨r, ⟨hstep.1, rfl⟩, hstep.2 ▸ hrel⟩

theorem fetchStep_simulated (h : S.SimulatedBy R rel) {data : Word} {s s' : Controller}
    {t t' : τ} {r : ρ} (hrel : rel t r) (hstep : fetchStep S data s t s' t') :
    ∃ r', fetchStep R data s r s' r' ∧ rel t' r' := by
  cases hphase : s.phase with
  | fetching last =>
      cases last with
      | true =>
          simp only [fetchStep, hphase] at hstep ⊢
          obtain ⟨hs, t₁, hread, hstop⟩ := hstep
          obtain ⟨r₁, hr₁, hrel₁⟩ := h.read _ _ _ _ hrel hread
          obtain ⟨r', hr', hrel'⟩ := h.stop _ _ _ hrel₁ hstop
          exact ⟨r', ⟨hs, r₁, hr₁, hr'⟩, hrel'⟩
      | false =>
          simp only [fetchStep, hphase] at hstep ⊢
          obtain ⟨hs, hread⟩ := hstep
          obtain ⟨r', hr', hrel'⟩ := h.read _ _ _ _ hrel hread
          exact ⟨r', ⟨hs, hr'⟩, hrel'⟩
  | _ =>
      simp only [fetchStep, hphase] at hstep ⊢
      exact ⟨r, ⟨hstep.1, rfl⟩, hstep.2 ▸ hrel⟩

/-- The bus seen as one with another slave. -/
theorem contract_simulated {bus : Bus τ} {bus' : Bus ρ}
    (hslave : bus.slave.SimulatedBy bus'.slave rel) (hbase : bus'.i2cBase = bus.i2cBase)
    (haddress : bus'.address = bus.address)
    (hfail : ∀ t r, rel t r → bus'.mayFail r → bus.mayFail t) :
    SimulatedBy bus.contract bus'.contract fun s r => s.1 = r.1 ∧ rel s.2 r.2 where
  allowed := by
    rintro ⟨s, t⟩ ⟨_, r⟩ access ⟨rfl, -⟩ h
    rw [Bus.contract, hbase, haddress] at h
    exact h
  step := by
    rintro ⟨s, t⟩ ⟨_, r⟩ access answer ⟨s', t'⟩ ⟨rfl, hrel⟩ hstep
    have hstay : t' = t → rel t' r := fun ht => ht ▸ hrel
    cases access with
    | get32 register =>
        simp only [Bus.contract, step, hbase] at hstep ⊢
        by_cases hisr : register = bus.i2cBase + isrOffset
        · simp only [if_pos hisr] at hstep ⊢
          exact ⟨(s', r), ⟨hstep.1, rfl⟩, rfl, hstay hstep.2⟩
        simp only [if_neg hisr] at hstep ⊢
        by_cases hstatus : register = bus.i2cBase + statusOffset
        · simp only [if_pos hstatus] at hstep ⊢
          exact ⟨(s', r), ⟨hstep.1, rfl⟩, rfl, hstay hstep.2⟩
        simp only [if_neg hstatus] at hstep ⊢
        by_cases hrx : register = bus.i2cBase + rxDataOffset
        · simp only [if_pos hrx] at hstep ⊢
          obtain ⟨r', hr', hrel'⟩ := fetchStep_simulated hslave hrel hstep
          exact ⟨(s', r'), hr', rfl, hrel'⟩
        · simp only [if_neg hrx] at hstep ⊢
          exact ⟨(s', r), ⟨hstep.1, rfl⟩, rfl, hstay hstep.2⟩
    | put32 register data =>
        simp only [Bus.contract, step, hbase] at hstep ⊢
        by_cases hcommand : register = bus.i2cBase + tfrCmdOffset
        · simp only [if_pos hcommand] at hstep ⊢
          obtain ⟨r', hr', hrel'⟩ := commandStep_simulated hslave hrel hstep
          exact ⟨(s', r'), hr', rfl, hrel'⟩
        simp only [if_neg hcommand] at hstep ⊢
        by_cases hctrl : register = bus.i2cBase + ctrlOffset
        · simp only [if_pos hctrl] at hstep ⊢
          exact ⟨(s', r), ⟨hstep.1, rfl⟩, rfl, hstay hstep.2⟩
        · simp only [if_neg hctrl] at hstep ⊢
          exact ⟨(s', r), ⟨hstep.1, rfl⟩, rfl, hstay hstep.2⟩
    | getTimel => exact ⟨(s', r), ⟨hstep.1, rfl⟩, rfl, hstay hstep.2⟩
    | getTimeh => exact ⟨(s', r), ⟨hstep.1, rfl⟩, rfl, hstay hstep.2⟩
  mayFail := fun s r hrel => hfail s.2 r.2 hrel.2

end Simulation

/-! ## Commands -/

/-- The fields of a command that is their sum. -/
theorem command_fields {command : Word} {start stop : Bool} {data : Byte}
    (h : command.toNat = 512 * start.toNat + 256 * stop.toNat + data.toNat) :
    command >>> 10 = 0 ∧ sta command = start ∧ sto command = stop ∧ ad command = data := by
  have hdata := data.isLt
  have hstart : start.toNat ≤ 1 := Bool.toNat_le start
  have hstop : stop.toNat ≤ 1 := Bool.toNat_le stop
  refine ⟨?_, ?_, ?_, ?_⟩
  · apply BitVec.eq_of_toNat_eq
    rw [BitVec.toNat_ushiftRight, h, Nat.shiftRight_eq_div_pow]
    change _ = 0
    omega
  · rw [sta, BitVec.getLsbD, h, Nat.testBit_eq_decide_div_mod_eq]
    cases start <;> simp only [Bool.toNat_true, Bool.toNat_false, decide_eq_true_eq,
      decide_eq_false_iff_not] <;> omega
  · rw [sto, BitVec.getLsbD, h, Nat.testBit_eq_decide_div_mod_eq]
    cases stop <;> simp only [Bool.toNat_true, Bool.toNat_false, decide_eq_true_eq,
      decide_eq_false_iff_not] <;> omega
  · apply BitVec.eq_of_toNat_eq
    rw [ad, BitVec.extractLsb'_toNat, h, Nat.shiftRight_zero]
    omega

theorem start_fields {address : Byte} (haddress : address.toNat < 128) (isRead : Bool) :
    let command : Word :=
      (1#32 <<< 9) + (0#32 <<< 8) + (address.setWidth 32 <<< 1) + if isRead then 1 else 0
    command >>> 10 = 0 ∧ sta command = true ∧ sto command = false ∧
      ad command = addressByte address isRead := by
  apply command_fields
  have hbyte : (addressByte address isRead).toNat = 2 * address.toNat + isRead.toNat := by
    cases isRead
    · simp [addressByte, BitVec.toNat_shiftLeft, Nat.shiftLeft_eq]
      omega
    · simp [addressByte, BitVec.toNat_add, BitVec.toNat_shiftLeft, Nat.shiftLeft_eq]
      omega
  rw [hbyte]
  cases isRead
  · simp [BitVec.toNat_add, BitVec.toNat_shiftLeft, Nat.shiftLeft_eq]
    omega
  · simp [BitVec.toNat_add, BitVec.toNat_shiftLeft, Nat.shiftLeft_eq]
    omega

theorem data_fields (data : Byte) :
    let command : Word := (0#32 <<< 9) + (0#32 <<< 8) + data.setWidth 32
    command >>> 10 = 0 ∧ sta command = false ∧ sto command = false ∧ ad command = data := by
  apply command_fields
  have hdata := data.isLt
  simp [BitVec.toNat_setWidth]
  omega

theorem stop_fields (data : Byte) :
    let command : Word := (0#32 <<< 9) + (1#32 <<< 8) + data.setWidth 32
    command >>> 10 = 0 ∧ sta command = false ∧ sto command = true ∧ ad command = data := by
  apply command_fields
  have hdata := data.isLt
  simp [BitVec.toNat_add, BitVec.toNat_setWidth]
  omega

theorem addressByte_read (address : Byte) (isRead : Bool) :
    (addressByte address isRead).getLsbD 0 = isRead := by
  have heven : (address <<< 1).toNat % 2 = 0 := by
    rw [BitVec.toNat_shiftLeft, Nat.shiftLeft_eq]
    omega
  cases isRead
  · simp [addressByte]
  · rw [addressByte, BitVec.getLsbD, BitVec.toNat_add, Nat.testBit_zero, decide_eq_true_eq]
    simp only [if_true]
    change ((address <<< 1).toNat + 1) % 256 % 2 = 1
    omega

/-! ## Rules -/

/-- The controller is on, and the frame is at this place. -/
def Controller.At (phase : Phase) (s : Controller) : Prop :=
  s.enabled = true ∧ s.phase = phase

section Rules

variable {γ τ α β : Type} {bus : Bus τ} {store : γ} {t : τ} {s : Controller}

theorem timed_contract (bus : Bus τ) : Timed bus.contract :=
  fun _ => ⟨⟨trivial, fun _ _ h => Prod.ext h.1 h.2⟩, trivial, fun _ _ h => Prod.ext h.1 h.2⟩

theorem tx_bit (value : Word) : (value &&& 0x0001 != 0) = value.getLsbD 0 := by
  rw [show (0x0001 : Word) = BitVec.twoPow 32 0 from rfl, BitVec.and_twoPow]
  cases value.getLsbD 0 <;> rfl

theorem rx_bit (value : Word) : (value &&& 0x0002 != 0) = value.getLsbD 1 := by
  rw [show (0x0002 : Word) = BitVec.twoPow 32 1 from rfl, BitVec.and_twoPow]
  cases value.getLsbD 1 <;> rfl

theorem step_isr {value : Word} {s' : Controller × τ}
    (h : bus.contract.step (s, t) (.get32 (bus.i2cBase + isrOffset)) value s') :
    s' = ({ s with txReady := value.getLsbD 0, rxReady := value.getLsbD 1 }, t) := by
  obtain ⟨hs, ht⟩ : _ ∧ _ := by simpa [Bus.contract, step] using h
  exact Prod.ext hs ht

theorem step_status {value : Word} {s' : Controller × τ}
    (h : bus.contract.step (s, t) (.get32 (bus.i2cBase + statusOffset)) value s') :
    s' = (if s.phase = .stopping ∧ value ≠ 0 then { s with phase := .idle } else s, t) := by
  obtain ⟨hs, ht⟩ : _ ∧ _ := by simpa [Bus.contract, step, statusOffset, isrOffset] using h
  exact Prod.ext hs ht

theorem step_command {command answer : Word} {s' : Controller × τ}
    (h : bus.contract.step (s, t) (.put32 (bus.i2cBase + tfrCmdOffset) command) answer s') :
    commandStep bus.slave command s t s'.1 s'.2 := by
  simpa [Bus.contract, step] using h

theorem step_fetch {value : Word} {s' : Controller × τ}
    (h : bus.contract.step (s, t) (.get32 (bus.i2cBase + rxDataOffset)) value s') :
    fetchStep bus.slave value s t s'.1 s'.2 := by
  simpa [Bus.contract, step, statusOffset, isrOffset, rxDataOffset] using h

theorem wp_waitTxReady {phase : Phase} {Q : Unit → γ → Controller × τ → Prop}
    (hs : s.At phase) (h : ∀ s' : Controller, s'.At phase → s'.txReady → Q () store (s', t)) :
    wp bus.contract (waitTxReady bus.i2cBase) Q store (s, t) := by
  apply wp_poll (fun st => st.1.At phase ∧ st.2 = t) ⟨hs, rfl⟩
  · exact fun _ _ => Or.inl rfl
  · rintro ⟨s, _⟩ value s' ⟨hs, rfl⟩ hstep
    rw [step_isr hstep, tx_bit]
    split
    case isTrue hready => exact h _ hs hready
    case isFalse => exact ⟨hs, rfl⟩

theorem wp_waitRxReady {phase : Phase} {Q : Unit → γ → Controller × τ → Prop}
    (hs : s.At phase) (h : ∀ s' : Controller, s'.At phase → s'.rxReady → Q () store (s', t)) :
    wp bus.contract (waitRxReady bus.i2cBase) Q store (s, t) := by
  apply wp_poll (fun st => st.1.At phase ∧ st.2 = t) ⟨hs, rfl⟩
  · exact fun _ _ => Or.inl rfl
  · rintro ⟨s, _⟩ value s' ⟨hs, rfl⟩ hstep
    rw [step_isr hstep, rx_bit]
    split
    case isTrue hready => exact h _ hs hready
    case isFalse => exact ⟨hs, rfl⟩

theorem wp_waitStatus {Q : Unit → γ → Controller × τ → Prop}
    (hs : s.At .stopping) (h : ∀ s' : Controller, s'.At .idle → Q () store (s', t)) :
    wp bus.contract (waitStatus bus.i2cBase) Q store (s, t) := by
  apply wp_poll (fun st => st.1.At .stopping ∧ st.2 = t) ⟨hs, rfl⟩
  · exact fun _ _ => Or.inr (Or.inl rfl)
  · rintro ⟨s, _⟩ value s' ⟨hs, rfl⟩ hstep
    rw [step_status hstep]
    split
    case isTrue hvalue =>
      have hmove : s.phase = .stopping ∧ value ≠ 0 := ⟨hs.2, by simpa using hvalue⟩
      rw [if_pos hmove]
      exact h _ ⟨hs.1, rfl⟩
    case isFalse hvalue =>
      have hstay : ¬(s.phase = .stopping ∧ value ≠ 0) := by simpa using fun _ => hvalue
      rw [if_neg hstay]
      exact ⟨hs, rfl⟩

/-- From this phase the program comes to that one, with `Q`. -/
def Bus.Leads (bus : Bus τ) (phase : Phase) (m : Firmware γ α) (phase' : Phase)
    (Q : α → γ → τ → Prop) (store : γ) (t : τ) : Prop :=
  ∀ s : Controller, s.At phase →
    wp bus.contract m (fun value store st => st.1.At phase' ∧ Q value store st.2) store (s, t)

theorem Bus.Leads.seq {phase phase' phase'' : Phase} {m : Firmware γ α}
    {f : α → Firmware γ β} {Q : β → γ → τ → Prop}
    (h : bus.Leads phase m phase' (fun value store t =>
      bus.Leads phase' (f value) phase'' Q store t) store t) :
    bus.Leads phase (m >>= f) phase'' Q store t :=
  fun s hs => wp_seq (h s hs) fun _ _ st hst => hst.2 st.1 hst.1

theorem Bus.Leads.mono {phase phase' : Phase} {m : Firmware γ α} {Q R : α → γ → τ → Prop}
    (h : bus.Leads phase m phase' Q store t)
    (hQR : ∀ value store t, Q value store t → R value store t) :
    bus.Leads phase m phase' R store t :=
  fun s hs => wp_mono (h s hs) fun _ _ _ hst => ⟨hst.1, hQR _ _ _ hst.2⟩

theorem leads_pure {phase : Phase} {Q : α → γ → τ → Prop} {value : α} (h : Q value store t) :
    bus.Leads phase (pure value) phase Q store t :=
  fun _ hs => wp_pure ⟨hs, h⟩

theorem leads_load {phase : Phase} {Q : γ → γ → τ → Prop} (h : Q store store t) :
    bus.Leads phase load phase Q store t :=
  fun _ hs => wp_load ⟨hs, h⟩

theorem leads_update {phase : Phase} {f : γ → γ} {Q : Unit → γ → τ → Prop}
    (h : Q () (f store) t) : bus.Leads phase (update f) phase Q store t :=
  fun _ hs => wp_update ⟨hs, h⟩

theorem leads_defined {phase : Phase} {o : Option α} {Q : α → γ → τ → Prop}
    (hsome : ∀ value, o = some value → Q value store t) (hnone : o = none → bus.mayFail t) :
    bus.Leads phase (defined o) phase Q store t :=
  fun _ hs => wp_defined (fun value hvalue => ⟨hs, hsome value hvalue⟩) hnone

theorem leads_getTimeMs {phase : Phase} {highFirst : Bool} {Q : BitVec 64 → γ → τ → Prop}
    (h : ∀ time, Q time store t) : bus.Leads phase (getTimeMs highFirst) phase Q store t :=
  fun _ hs => wp_getTimeMs (timed_contract bus) fun time => ⟨hs, h time⟩

theorem leads_waitMs {phase : Phase} {highFirst : Bool} {msec : BitVec 64}
    {Q : Unit → γ → τ → Prop} (h : Q () store t) :
    bus.Leads phase (waitMs highFirst msec) phase Q store t :=
  fun _ hs => wp_waitMs (timed_contract bus) ⟨hs, h⟩

/-- A loop between frames. -/
theorem leads_loop {phase : Phase} {body : Firmware γ (Option α)} {Q : α → γ → τ → Prop}
    (I : γ → τ → Prop)
    (hbody : ∀ store t, I store t →
      bus.Leads phase body phase (fun result store t =>
        (∀ value, result = some value → Q value store t) ∧ (result = none → I store t)) store t)
    (h : I store t) : bus.Leads phase (loop body) phase Q store t := by
  intro s hs
  refine wp_loop (fun store st => st.1.At phase ∧ I store st.2) ?_ ⟨hs, h⟩
  rintro store ⟨s, t⟩ ⟨hs, hI⟩
  apply wp_mono (hbody store t hI s hs)
  rintro result store ⟨s, t⟩ ⟨hs, hresult⟩
  exact ⟨fun value hvalue => ⟨hs, hresult.1 value hvalue⟩, fun hnone => ⟨hs, hresult.2 hnone⟩⟩

/-- A command that is allowed at its place is stored. -/
theorem wp_command {phase : Phase} {command : Word} {Q : Unit → γ → Controller × τ → Prop}
    (hs : s.At phase) (hready : s.txReady) (hallowed : CommandAllowed bus.address command phase)
    (hstep : ∀ s' t', commandStep bus.slave command s t s' t' → Q () store (s', t')) :
    wp bus.contract (put32 (bus.i2cBase + tfrCmdOffset) command) Q store (s, t) :=
  wp_put32 (Or.inl ⟨rfl, hs.1, hready, hs.2 ▸ hallowed⟩)
    fun _ s' h => hstep s'.1 s'.2 (step_command h)

theorem leads_startTransmit (isRead : Bool) {Q : Unit → γ → τ → Prop}
    (h : ∀ t', bus.slave.start isRead t t' → Q () store t') :
    bus.Leads .idle (i2cStartTransmit bus.i2cBase bus.address (if isRead then 1 else 0))
      (if isRead then .reading else .writing) Q store t := by
  have hcommand : ∀ s : Controller, s.At .idle → s.txReady →
      wp bus.contract (put32 (bus.i2cBase + tfrCmdOffset)
          ((1#32 <<< 9) + (0#32 <<< 8) + (bus.address.setWidth 32 <<< 1) + if isRead then 1 else 0))
        (fun value store st => st.1.At (if isRead then .reading else .writing) ∧
          Q value store st.2) store (s, t) := by
    intro s hs hready
    obtain ⟨hhigh, hsta, hsto, had⟩ := start_fields bus.address_lt isRead
    apply wp_command hs hready ⟨hhigh, hsta, by rw [hsto]; rfl, isRead, had⟩
    intro s' t' hstep
    simp only [commandStep, hs.2, had, addressByte_read] at hstep
    obtain ⟨rfl, hslave⟩ := hstep
    exact ⟨⟨hs.1, rfl⟩, h t' hslave⟩
  intro s hs
  apply wp_bind
  apply wp_waitTxReady hs
  intro s' hs' hready
  cases isRead
  · exact hcommand s' hs' hready
  · exact hcommand s' hs' hready

theorem leads_write (data : Byte) {Q : Unit → γ → τ → Prop}
    (h : ∀ t', bus.slave.write data t t' → Q () store t') :
    bus.Leads .writing (i2cWrite bus.i2cBase data false) .writing Q store t := by
  intro s hs
  apply wp_bind
  apply wp_waitTxReady hs
  intro s' hs' hready
  obtain ⟨hhigh, hsta, hsto, had⟩ := data_fields data
  apply wp_command hs' hready ⟨hhigh, by rw [hsta]; rfl⟩
  intro s'' t' hstep
  simp only [commandStep, hs'.2, hsto, had] at hstep
  obtain ⟨rfl, hslave⟩ := hstep
  exact ⟨⟨hs'.1, rfl⟩, h t' hslave⟩

theorem leads_writeStop (data : Byte) {Q : Unit → γ → τ → Prop}
    (h : ∀ t₁ t', bus.slave.write data t t₁ → bus.slave.stop t₁ t' → Q () store t') :
    bus.Leads .writing (i2cWrite bus.i2cBase data true) .idle Q store t := by
  intro s hs
  apply wp_bind
  apply wp_waitTxReady hs
  intro s' hs' hready
  apply wp_bind
  obtain ⟨hhigh, hsta, hsto, had⟩ := stop_fields data
  apply wp_command hs' hready ⟨hhigh, by rw [hsta]; rfl⟩
  intro s'' t' hstep
  simp only [commandStep, hs'.2, hsto, had, if_true] at hstep
  obtain ⟨rfl, t₁, hwrite, hstop⟩ := hstep
  exact wp_waitStatus ⟨hs'.1, rfl⟩ fun s hs => ⟨hs, h t₁ t' hwrite hstop⟩

/-- A read command is stored, and its data is waited for and fetched. -/
theorem wp_readByte {command : Word} {last : Bool} {Q : Word → γ → Controller × τ → Prop}
    (hs : s.At .reading) (hready : s.txReady)
    (hfields : command >>> 10 = 0 ∧ sta command = false ∧ sto command = last ∧ ad command = 0)
    (h : ∀ (s' s'' : Controller) data t', s'.At (.fetching last) →
      fetchStep bus.slave data s' t s'' t' → Q data store (s'', t')) :
    wp bus.contract (put32 (bus.i2cBase + tfrCmdOffset) command)
      (fun _ => wp bus.contract (waitRxReady bus.i2cBase)
        (fun _ => wp bus.contract (get32 (bus.i2cBase + rxDataOffset)) Q)) store (s, t) := by
  obtain ⟨hhigh, hsta, hsto, had⟩ := hfields
  apply wp_command hs hready ⟨hhigh, by rw [hsta]; rfl, had⟩
  intro s' t' hstep
  simp only [commandStep, hs.2, hsto] at hstep
  obtain ⟨rfl, rfl⟩ := hstep
  refine wp_waitRxReady ⟨hs.1, rfl⟩ ?_
  intro s' hs' hrx
  apply wp_get32 (Or.inr (Or.inr (Or.inr ⟨rfl, hrx, last, hs'.2⟩)))
  intro data s'' hstep
  exact h s' s''.1 data s''.2 hs' (step_fetch hstep)

theorem leads_read {Q : Word → γ → τ → Prop}
    (h : ∀ data t', bus.slave.read data t t' → Q data store t') :
    bus.Leads .reading (i2cRead bus.i2cBase false) .reading Q store t := by
  intro s hs
  apply wp_bind
  apply wp_waitTxReady hs
  intro s hs hready
  apply wp_bind
  refine wp_mono (wp_readByte hs hready (data_fields 0) ?_) fun _ _ _ => wp_bind
  intro s' s'' data t' hs' hfetch
  simp only [fetchStep, hs'.2] at hfetch
  obtain ⟨rfl, hread⟩ := hfetch
  exact ⟨⟨hs'.1, rfl⟩, h data t' hread⟩

theorem leads_readStop {Q : Word → γ → τ → Prop}
    (h : ∀ data t₁ t', bus.slave.read data t t₁ → bus.slave.stop t₁ t' → Q data store t') :
    bus.Leads .reading (i2cRead bus.i2cBase true) .idle Q store t := by
  intro s hs
  apply wp_bind
  apply wp_waitTxReady hs
  intro s hs hready
  apply wp_bind
  refine wp_mono (wp_readByte hs hready (stop_fields 0) ?_)
    fun _ _ _ hrx => wp_bind (wp_mono hrx fun _ _ _ => wp_bind)
  intro s' s'' data t' hs' hfetch
  simp only [fetchStep, hs'.2] at hfetch
  obtain ⟨rfl, t₁, hread, hstop⟩ := hfetch
  apply wp_bind
  refine wp_waitStatus ⟨hs'.1, rfl⟩ ?_
  intro s hs
  exact wp_pure ⟨hs, h data t₁ t' hread hstop⟩

/-! ### Frames -/

section Frames

variable {phase : Phase} {t₀ : τ}

theorem leads_openWrite {rest : Firmware γ α} {Q : α → γ → τ → Prop}
    (h : ∀ t', bus.slave.Writing [] t t' → bus.Leads .writing rest phase Q store t') :
    bus.Leads .idle (i2cStartTransmit bus.i2cBase bus.address 0 >>= fun _ => rest) phase
      Q store t :=
  Bus.Leads.seq (leads_startTransmit false fun t' hstart => h t' ⟨t', hstart, rfl⟩)

theorem leads_openRead {rest : Firmware γ α} {Q : α → γ → τ → Prop}
    (h : ∀ t', bus.slave.Reading [] t t' → bus.Leads .reading rest phase Q store t') :
    bus.Leads .idle (i2cStartTransmit bus.i2cBase bus.address 1 >>= fun _ => rest) phase
      Q store t :=
  Bus.Leads.seq (leads_startTransmit true fun t' hstart => h t' ⟨t', hstart, rfl⟩)

theorem leads_put {bytes : List Byte} {data : Byte} {rest : Firmware γ α} {Q : α → γ → τ → Prop}
    (hframe : bus.slave.Writing bytes t₀ t)
    (h : ∀ t', bus.slave.Writing (bytes ++ [data]) t₀ t' →
      bus.Leads .writing rest phase Q store t') :
    bus.Leads .writing (i2cWrite bus.i2cBase data false >>= fun _ => rest) phase Q store t :=
  Bus.Leads.seq (leads_write data fun t' hwrite => h t' (hframe.snoc hwrite))

theorem leads_putLast {bytes : List Byte} {data : Byte} {Q : Unit → γ → τ → Prop}
    (hframe : bus.slave.Writing bytes t₀ t)
    (h : ∀ t', bus.slave.Sends (bytes ++ [data]) t₀ t' → Q () store t') :
    bus.Leads .writing (i2cWrite bus.i2cBase data true) .idle Q store t :=
  leads_writeStop data fun t₁ t' hwrite hstop => h t' ⟨t₁, hframe.snoc hwrite, hstop⟩

theorem leads_get {words : List Word} {rest : Word → Firmware γ α} {Q : α → γ → τ → Prop}
    (hframe : bus.slave.Reading words t₀ t)
    (h : ∀ data t', bus.slave.Reading (words ++ [data]) t₀ t' →
      bus.Leads .reading (rest data) phase Q store t') :
    bus.Leads .reading (i2cRead bus.i2cBase false >>= rest) phase Q store t :=
  Bus.Leads.seq (leads_read fun data t' hread => h data t' (hframe.snoc hread))

theorem leads_getLast {words : List Word} {rest : Word → Firmware γ α} {Q : α → γ → τ → Prop}
    (hframe : bus.slave.Reading words t₀ t)
    (h : ∀ data t', bus.slave.Receives (words ++ [data]) t₀ t' →
      bus.Leads .idle (rest data) phase Q store t') :
    bus.Leads .reading (i2cRead bus.i2cBase true >>= rest) phase Q store t :=
  Bus.Leads.seq
    (leads_readStop fun data t₁ t' hread hstop => h data t' ⟨t₁, hframe.snoc hread, hstop⟩)

end Frames

/-! ### Set-up -/

/-- A store to a register other than `TFR_CMD` and `CTRL`. -/
theorem wp_setup {register data : Word} {Q : Unit → γ → Controller × τ → Prop}
    (hs : s.phase = .idle)
    (hregister : register = bus.i2cBase + iserOffset ∨
      (register = bus.i2cBase + sclLowOffset ∨ register = bus.i2cBase + sclHighOffset ∨
        register = bus.i2cBase + sdaHoldOffset) ∧ s.enabled = false)
    (h : Q () store (s, t)) : wp bus.contract (put32 register data) Q store (s, t) := by
  apply wp_put32
  · apply Or.inr
    apply Or.inr
    rcases hregister with hiser | ⟨htiming, hoff⟩
    · exact Or.inl ⟨hiser, hs⟩
    · exact Or.inr ⟨htiming, hs, by simp [hoff]⟩
  · rintro answer ⟨s', t'⟩ hstep
    obtain ⟨rfl, rfl⟩ : s' = s ∧ t' = t := by
      rcases hregister with rfl | ⟨rfl | rfl | rfl, -⟩ <;>
        simpa [Bus.contract, step, tfrCmdOffset, ctrlOffset, iserOffset, sclLowOffset,
          sclHighOffset, sdaHoldOffset] using hstep
    exact h

theorem wp_getCtrl {Q : Word → γ → Controller × τ → Prop} (hs : s.phase = .idle)
    (h : ∀ value, Q value store (s, t)) :
    wp bus.contract (get32 (bus.i2cBase + ctrlOffset)) Q store (s, t) := by
  apply wp_get32 (Or.inr (Or.inr (Or.inl ⟨rfl, hs⟩)))
  rintro value ⟨s', t'⟩ hstep
  obtain ⟨rfl, rfl⟩ : s' = s ∧ t' = t := by
    simpa [Bus.contract, step, isrOffset, statusOffset, rxDataOffset, ctrlOffset] using hstep
  exact h value

theorem wp_putCtrl {data : Word} {Q : Unit → γ → Controller × τ → Prop} (hs : s.phase = .idle)
    (h : Q () store ({ s with enabled := data.getLsbD 0 }, t)) :
    wp bus.contract (put32 (bus.i2cBase + ctrlOffset) data) Q store (s, t) := by
  apply wp_put32 (Or.inr (Or.inl ⟨rfl, hs⟩))
  rintro answer ⟨s', t'⟩ hstep
  obtain ⟨rfl, rfl⟩ : s' = { s with enabled := data.getLsbD 0 } ∧ t' = t := by
    simpa [Bus.contract, step, tfrCmdOffset, ctrlOffset] using hstep
  exact h

/-- From any state between frames the timing is set while the controller is off,
and then it is on. -/
theorem wp_i2cInit {Q : Unit → γ → Controller × τ → Prop} (hs : s.phase = .idle)
    (h : ∀ s' : Controller, s'.At .idle → Q () store (s', t)) :
    wp bus.contract (i2cInit bus.i2cBase) Q store (s, t) := by
  apply wp_bind
  apply wp_getCtrl hs
  intro ctrl
  apply wp_bind
  apply wp_putCtrl hs
  have hoff : ((ctrl.setWidth 64 &&& 0xFFFFFFFFE#64).setWidth 32).getLsbD 0 = false := by simp
  rw [hoff]
  apply wp_bind
  refine wp_setup hs (Or.inr ⟨Or.inl rfl, rfl⟩) ?_
  apply wp_bind
  refine wp_setup hs (Or.inr ⟨Or.inr (Or.inl rfl), rfl⟩) ?_
  apply wp_bind
  refine wp_setup hs (Or.inr ⟨Or.inr (Or.inr rfl), rfl⟩) ?_
  apply wp_bind
  refine wp_getCtrl hs fun ctrl => ?_
  refine wp_putCtrl hs ?_
  have hon : (ctrl ||| 0x03).getLsbD 0 = true := by simp
  rw [hon]
  exact h _ ⟨rfl, hs⟩

theorem leads_i2cDisableIsr {Q : Unit → γ → τ → Prop} (h : Q () store t) :
    bus.Leads .idle (i2cDisableIsr bus.i2cBase) .idle Q store t :=
  fun _ hs => wp_setup hs.2 (Or.inl rfl) ⟨hs, h⟩

end Rules

end KyogenRV.QsysI2c
