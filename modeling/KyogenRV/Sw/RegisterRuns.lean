import KyogenRV.Sw.RegisterFile

/-!
# Every run of the register file happens

The other direction of `runAll_refines`: a controller that is always ready lets
the driver make every run of the register file.  So its functions neither block
nor leave out anything that the sensor can do.
-/

namespace KyogenRV.QsysI2c

open Dialogue Firmware

/-! ## A ready controller -/

section Rules

variable {γ τ α β : Type} {bus : Bus τ} {store : γ} {t t₁ t' : τ} {s : Controller}

theorem can_get32 {σ : Type} {C : Contract Access Word σ} {s s' : σ} {address value : Word}
    {Q : Word → γ → σ → Prop} (hstep : C.step s (.get32 address) value s')
    (h : Q value store s') : Can C (get32 address) Q store s :=
  can_call hstep h

theorem can_put32 {σ : Type} {C : Contract Access Word σ} {s s' : σ} {address data : Word}
    {Q : Unit → γ → σ → Prop} (hstep : C.step s (.put32 address data) 0 s')
    (h : Q () store s') : Can C (put32 address data) Q store s :=
  can_bind (can_call hstep (can_pure h))

/-- A poll that is ready at once. -/
theorem can_poll {σ : Type} {C : Contract Access Word σ} {s s' : σ} {address value : Word}
    {ready : Word → Bool} {Q : Unit → γ → σ → Prop} (hready : ready value = true)
    (hstep : C.step s (.get32 address) value s') (h : Q () store s') :
    Can C (poll address ready) Q store s := by
  have hbody : Asks (pollBody address ready : Firmware γ _) :=
    (asks_call _).bind fun _ => takes_pure _
  apply can_loop hbody
  apply can_bind
  apply can_get32 hstep
  exact can_pure ⟨(), by rw [if_pos hready], h⟩

theorem can_waitTxReady {phase : Phase} {Q : Unit → γ → Controller × τ → Prop} (hs : s.At phase)
    (h : ∀ s' : Controller, s'.At phase → Q () store (s', t)) :
    Can bus.contract (waitTxReady bus.i2cBase) Q store (s, t) := by
  have hstep : bus.contract.step (s, t) (.get32 (bus.i2cBase + isrOffset)) 1
      ({ s with txReady := true, rxReady := false }, t) := by
    simp [Bus.contract, step]
  exact can_poll rfl hstep (h _ hs)

theorem can_waitRxReady {phase : Phase} {Q : Unit → γ → Controller × τ → Prop} (hs : s.At phase)
    (h : ∀ s' : Controller, s'.At phase → Q () store (s', t)) :
    Can bus.contract (waitRxReady bus.i2cBase) Q store (s, t) := by
  have hstep : bus.contract.step (s, t) (.get32 (bus.i2cBase + isrOffset)) 2
      ({ s with txReady := false, rxReady := true }, t) := by
    simp [Bus.contract, step]
  exact can_poll rfl hstep (h _ hs)

theorem can_waitStatus {Q : Unit → γ → Controller × τ → Prop} (hs : s.At .stopping)
    (h : ∀ s' : Controller, s'.At .idle → Q () store (s', t)) :
    Can bus.contract (waitStatus bus.i2cBase) Q store (s, t) := by
  have hstep : bus.contract.step (s, t) (.get32 (bus.i2cBase + statusOffset)) 1
      ({ s with phase := .idle }, t) := by
    simp [Bus.contract, step, isrOffset, statusOffset, hs.2]
  exact can_poll rfl hstep (h _ ⟨hs.1, rfl⟩)

/-- From this phase the program can come to that one, with `Q`. -/
def Bus.CanLead (bus : Bus τ) (phase : Phase) (m : Firmware γ α) (phase' : Phase)
    (Q : α → γ → τ → Prop) (store : γ) (t : τ) : Prop :=
  ∀ s : Controller, s.At phase →
    Can bus.contract m (fun value store st => st.1.At phase' ∧ Q value store st.2) store (s, t)

theorem Bus.CanLead.seq {phase phase' phase'' : Phase} {m : Firmware γ α}
    {f : α → Firmware γ β} {Q : β → γ → τ → Prop}
    (h : bus.CanLead phase m phase' (fun value store t =>
      bus.CanLead phase' (f value) phase'' Q store t) store t) :
    bus.CanLead phase (m >>= f) phase'' Q store t :=
  fun s hs => can_seq (h s hs) fun _ _ st hst => hst.2 st.1 hst.1

theorem Bus.CanLead.mono {phase phase' : Phase} {m : Firmware γ α} {Q R : α → γ → τ → Prop}
    (h : bus.CanLead phase m phase' Q store t)
    (hQR : ∀ value store t, Q value store t → R value store t) :
    bus.CanLead phase m phase' R store t :=
  fun s hs => (h s hs).mono fun _ _ _ hst => ⟨hst.1, hQR _ _ _ hst.2⟩

theorem canLead_pure {phase : Phase} {Q : α → γ → τ → Prop} {value : α} (h : Q value store t) :
    bus.CanLead phase (pure value) phase Q store t :=
  fun _ hs => can_pure ⟨hs, h⟩

theorem can_command {command : Word} {Q : Unit → γ → Controller × τ → Prop} {s' : Controller}
    (hstep : commandStep bus.slave command s t s' t') (h : Q () store (s', t')) :
    Can bus.contract (put32 (bus.i2cBase + tfrCmdOffset) command) Q store (s, t) :=
  can_put32 (by simpa [Bus.contract, step] using hstep) h

theorem can_fetch {data : Word} {Q : Word → γ → Controller × τ → Prop} {s' : Controller}
    (hstep : fetchStep bus.slave data s t s' t') (h : Q data store (s', t')) :
    Can bus.contract (get32 (bus.i2cBase + rxDataOffset)) Q store (s, t) :=
  can_get32 (by
    simpa [Bus.contract, step, isrOffset, statusOffset, rxDataOffset] using hstep) h

theorem canLead_startTransmit (isRead : Bool) {Q : Unit → γ → τ → Prop}
    (hstart : bus.slave.start isRead t t') (h : Q () store t') :
    bus.CanLead .idle (i2cStartTransmit bus.i2cBase bus.address (if isRead then 1 else 0))
      (if isRead then .reading else .writing) Q store t := by
  have hcommand : ∀ s : Controller, s.At .idle →
      Can bus.contract (put32 (bus.i2cBase + tfrCmdOffset)
          ((1#32 <<< 9) + (0#32 <<< 8) + (bus.address.setWidth 32 <<< 1) + if isRead then 1 else 0))
        (fun value store st => st.1.At (if isRead then .reading else .writing) ∧
          Q value store st.2) store (s, t) := by
    intro s hs
    obtain ⟨-, -, -, had⟩ := start_fields bus.address_lt isRead
    have hstep : commandStep bus.slave
        ((1#32 <<< 9) + (0#32 <<< 8) + (bus.address.setWidth 32 <<< 1) + if isRead then 1 else 0)
        s t ⟨s.enabled, if isRead then .reading else .writing, false, false⟩ t' := by
      simp only [commandStep, hs.2, had, addressByte_read]
      exact ⟨trivial, hstart⟩
    exact can_command hstep ⟨⟨hs.1, rfl⟩, h⟩
  intro s hs
  apply can_bind
  apply can_waitTxReady hs
  intro s' hs'
  cases isRead
  · exact hcommand s' hs'
  · exact hcommand s' hs'

theorem canLead_write {data : Byte} {Q : Unit → γ → τ → Prop}
    (hwrite : bus.slave.write data t t') (h : Q () store t') :
    bus.CanLead .writing (i2cWrite bus.i2cBase data false) .writing Q store t := by
  intro s hs
  apply can_bind
  apply can_waitTxReady hs
  intro s' hs'
  obtain ⟨-, -, hsto, had⟩ := data_fields data
  have hstep : commandStep bus.slave ((0#32 <<< 9) + (0#32 <<< 8) + data.setWidth 32) s' t
      ⟨s'.enabled, .writing, false, false⟩ t' := by
    simp only [commandStep, hs'.2, hsto, had]
    exact ⟨trivial, hwrite⟩
  exact can_command hstep ⟨⟨hs'.1, rfl⟩, h⟩

theorem canLead_writeStop {data : Byte} {Q : Unit → γ → τ → Prop}
    (hwrite : bus.slave.write data t t₁) (hstop : bus.slave.stop t₁ t') (h : Q () store t') :
    bus.CanLead .writing (i2cWrite bus.i2cBase data true) .idle Q store t := by
  intro s hs
  apply can_bind
  apply can_waitTxReady hs
  intro s' hs'
  apply can_bind
  obtain ⟨-, -, hsto, had⟩ := stop_fields data
  have hstep : commandStep bus.slave ((0#32 <<< 9) + (1#32 <<< 8) + data.setWidth 32) s' t
      ⟨s'.enabled, .stopping, false, false⟩ t' := by
    simp only [commandStep, hs'.2, hsto, had, if_true]
    exact ⟨trivial, t₁, hwrite, hstop⟩
  apply can_command hstep
  exact can_waitStatus ⟨hs'.1, rfl⟩ fun _ hs => ⟨hs, h⟩

theorem canLead_read {data : Word} {Q : Word → γ → τ → Prop}
    (hread : bus.slave.read data t t') (h : Q data store t') :
    bus.CanLead .reading (i2cRead bus.i2cBase false) .reading Q store t := by
  intro s hs
  apply can_bind
  apply can_waitTxReady hs
  intro s hs
  apply can_bind
  obtain ⟨-, -, hsto, -⟩ := data_fields 0
  have hstep : commandStep bus.slave ((0#32 <<< 9) + (0#32 <<< 8) + 0x00) s t
      ⟨s.enabled, .fetching false, false, false⟩ t := by
    simp only [commandStep, hs.2]
    exact ⟨by rw [← hsto]; rfl, trivial⟩
  apply can_command hstep
  apply can_bind
  refine can_waitRxReady ⟨hs.1, rfl⟩ ?_
  intro s hs
  have hfetch : fetchStep bus.slave data s t { s with phase := .reading } t' := by
    simp only [fetchStep, hs.2]
    exact ⟨trivial, hread⟩
  exact can_fetch hfetch ⟨⟨hs.1, rfl⟩, h⟩

theorem canLead_readStop {data : Word} {Q : Word → γ → τ → Prop}
    (hread : bus.slave.read data t t₁) (hstop : bus.slave.stop t₁ t') (h : Q data store t') :
    bus.CanLead .reading (i2cRead bus.i2cBase true) .idle Q store t := by
  intro s hs
  apply can_bind
  apply can_waitTxReady hs
  intro s hs
  apply can_bind
  obtain ⟨-, -, hsto, -⟩ := stop_fields 0
  have hstep : commandStep bus.slave ((0#32 <<< 9) + (1#32 <<< 8) + 0x00) s t
      ⟨s.enabled, .fetching true, false, false⟩ t := by
    simp only [commandStep, hs.2]
    exact ⟨by rw [← hsto]; rfl, trivial⟩
  apply can_command hstep
  apply can_bind
  refine can_waitRxReady ⟨hs.1, rfl⟩ ?_
  intro s hs
  apply can_bind
  have hfetch : fetchStep bus.slave data s t { s with phase := .stopping } t' := by
    simp only [fetchStep, hs.2]
    exact ⟨trivial, t₁, hread, hstop⟩
  apply can_fetch hfetch
  apply can_bind
  refine can_waitStatus ⟨hs.1, rfl⟩ fun s hs => ?_
  exact can_pure ⟨hs, h⟩

theorem canLead_openWrite {phase : Phase} {rest : Firmware γ α} {Q : α → γ → τ → Prop}
    (hstart : bus.slave.start false t t') (h : bus.CanLead .writing rest phase Q store t') :
    bus.CanLead .idle (i2cStartTransmit bus.i2cBase bus.address 0 >>= fun _ => rest) phase
      Q store t :=
  Bus.CanLead.seq (canLead_startTransmit false hstart h)

theorem canLead_openRead {phase : Phase} {rest : Firmware γ α} {Q : α → γ → τ → Prop}
    (hstart : bus.slave.start true t t') (h : bus.CanLead .reading rest phase Q store t') :
    bus.CanLead .idle (i2cStartTransmit bus.i2cBase bus.address 1 >>= fun _ => rest) phase
      Q store t :=
  Bus.CanLead.seq (canLead_startTransmit true hstart h)

end Rules

end KyogenRV.QsysI2c

namespace KyogenRV.VL53L1X

open Dialogue Firmware QsysI2c BigEndian

/-! ## Frames -/

section Frames

variable {γ τ α : Type} {slave : Slave τ} {mayFail : τ → Prop} {store : γ} {t t₁ t' : τ}
variable {reg : Index}

theorem canLead_writeReg {value : BitVec 8} {Q : Unit → γ → τ → Prop}
    (hsends : slave.Sends [byte reg 8, byte reg 0, value] t t') (h : Q () store t') :
    (sensorBus slave mayFail).CanLead .idle (writeReg reg value) .idle Q store t := by
  obtain ⟨_, ⟨_, hstart, _, hhigh, _, hlow, _, hvalue, rfl⟩, hstop⟩ := hsends
  apply canLead_openWrite hstart
  apply Bus.CanLead.seq
  apply canLead_write hhigh
  apply Bus.CanLead.seq
  apply canLead_write hlow
  exact canLead_writeStop hvalue hstop h

theorem canLead_writeReg16Bit {value : BitVec 16} {Q : Unit → γ → τ → Prop}
    (hsends : slave.Sends [byte reg 8, byte reg 0, byte value 8, byte value 0] t t')
    (h : Q () store t') :
    (sensorBus slave mayFail).CanLead .idle (writeReg16Bit reg value) .idle Q store t := by
  obtain ⟨_, ⟨_, hstart, _, hhigh, _, hlow, _, h₁, _, h₀, rfl⟩, hstop⟩ := hsends
  apply canLead_openWrite hstart
  apply Bus.CanLead.seq
  apply canLead_write hhigh
  apply Bus.CanLead.seq
  apply canLead_write hlow
  apply Bus.CanLead.seq
  apply canLead_write h₁
  exact canLead_writeStop h₀ hstop h

theorem canLead_writeReg32Bit {value : BitVec 32} {Q : Unit → γ → τ → Prop}
    (hsends : slave.Sends [byte reg 8, byte reg 0, byte value 24, byte value 16, byte value 8,
      byte value 0] t t') (h : Q () store t') :
    (sensorBus slave mayFail).CanLead .idle (writeReg32Bit reg value) .idle Q store t := by
  obtain ⟨_, ⟨_, hstart, _, hhigh, _, hlow, _, h₃, _, h₂, _, h₁, _, h₀, rfl⟩, hstop⟩ := hsends
  apply canLead_openWrite hstart
  apply Bus.CanLead.seq
  apply canLead_write hhigh
  apply Bus.CanLead.seq
  apply canLead_write hlow
  apply Bus.CanLead.seq
  apply canLead_write h₃
  apply Bus.CanLead.seq
  apply canLead_write h₂
  apply Bus.CanLead.seq
  apply canLead_write h₁
  exact canLead_writeStop h₀ hstop h

/-- The frame that every reading starts with. -/
theorem canLead_index {phase : Phase} {rest : Firmware γ α} {Q : α → γ → τ → Prop}
    (hsends : slave.Sends [byte reg 8, byte reg 0] t t₁) (hstart : slave.start true t₁ t')
    (h : (sensorBus slave mayFail).CanLead .reading rest phase Q store t') :
    (sensorBus slave mayFail).CanLead .idle (do
      i2cStartTransmit i2c0Base hardwareAddress 0
      i2cWrite i2c0Base (byte reg 8) false
      i2cWrite i2c0Base (byte reg 0) true
      i2cStartTransmit i2c0Base hardwareAddress 1
      rest) phase Q store t := by
  obtain ⟨_, ⟨_, hopen, _, hhigh, _, hlow, rfl⟩, hstop⟩ := hsends
  apply canLead_openWrite hopen
  apply Bus.CanLead.seq
  apply canLead_write hhigh
  apply Bus.CanLead.seq
  apply canLead_writeStop hlow hstop
  exact canLead_openRead hstart h

theorem canLead_readReg {data : Word} {Q : BitVec 8 → γ → τ → Prop}
    (hsends : slave.Sends [byte reg 8, byte reg 0] t t₁) (hreceives : slave.Receives [data] t₁ t')
    (h : Q (data.setWidth 8) store t') :
    (sensorBus slave mayFail).CanLead .idle (readReg reg) .idle Q store t := by
  obtain ⟨_, ⟨_, hstart, _, hdata, rfl⟩, hstop⟩ := hreceives
  apply canLead_index hsends hstart
  apply Bus.CanLead.seq
  apply canLead_readStop hdata hstop
  exact canLead_pure h

theorem canLead_readReg16Bit {high low : Word} {Q : BitVec 16 → γ → τ → Prop}
    (hsends : slave.Sends [byte reg 8, byte reg 0] t t₁)
    (hreceives : slave.Receives [high, low] t₁ t')
    (h : Q ((high <<< 8).setWidth 16 ||| low.setWidth 16) store t') :
    (sensorBus slave mayFail).CanLead .idle (readReg16Bit reg) .idle Q store t := by
  obtain ⟨_, ⟨_, hstart, _, hhigh, _, hlow, rfl⟩, hstop⟩ := hreceives
  apply canLead_index hsends hstart
  apply Bus.CanLead.seq
  apply canLead_read hhigh
  apply Bus.CanLead.seq
  apply canLead_readStop hlow hstop
  exact canLead_pure h

theorem canLead_readReg32Bit {highest higher lower lowest : Word} {Q : BitVec 32 → γ → τ → Prop}
    (hsends : slave.Sends [byte reg 8, byte reg 0] t t₁)
    (hreceives : slave.Receives [highest, higher, lower, lowest] t₁ t')
    (h : Q (highest <<< 24 ||| higher <<< 16 ||| ((lower <<< 8).setWidth 16).setWidth 32 ||| lowest)
      store t') :
    (sensorBus slave mayFail).CanLead .idle (readReg32Bit reg) .idle Q store t := by
  obtain ⟨_, ⟨_, hstart, _, h₃, _, h₂, _, h₁, _, h₀, rfl⟩, hstop⟩ := hreceives
  apply canLead_index hsends hstart
  apply Bus.CanLead.seq
  apply canLead_read h₃
  apply Bus.CanLead.seq
  apply canLead_read h₂
  apply Bus.CanLead.seq
  apply canLead_read h₁
  apply Bus.CanLead.seq
  apply canLead_readStop h₀ hstop
  exact canLead_pure h

end Frames

/-! ## The register file -/

section File

variable {volatile : Set Index} {t : Registers} {mem : Memory 16} {reg : Index}

theorem exists_writes (volatile : Set Index) (bytes : List Byte) (hleft : t.indexLeft = 0) :
    ∃ t', (registerFile volatile).Writes bytes t t' ∧
      t'.memory = storeBytes t.memory t.index bytes := by
  induction bytes generalizing t with
  | nil => exact ⟨t, rfl, rfl⟩
  | cons data bytes ih =>
      have htake : t.take data = { t with
          memory := Function.update t.memory t.index data, index := t.index + 1 } := by
        rw [Registers.take, hleft]
      have hleft' : (t.take data).indexLeft = 0 := by rw [htake, hleft]
      obtain ⟨t', hwrites, hmem⟩ := ih hleft'
      refine ⟨t', ⟨t.take data, rfl, hwrites⟩, ?_⟩
      rw [hmem, htake]
      rfl

/-- The registers may change, and then a frame stores its bytes. -/
theorem exists_sends (reg : Index) (bytes : List Byte) (hdrift : Drift volatile t.memory mem) :
    ∃ t', (registerFile volatile).Sends (byte reg 8 :: byte reg 0 :: bytes) t t' ∧
      t'.memory = storeBytes mem reg bytes ∧ (bytes = [] → t'.index = reg) := by
  have htake : ((⟨mem, t.index, 2⟩ : Registers).take (byte reg 8)).take (byte reg 0) =
      ⟨mem, reg, 0⟩ := by
    simp only [Registers.take, index_bytes]
  obtain ⟨t', hwrites, hmem⟩ := exists_writes volatile bytes (t := ⟨mem, reg, 0⟩) rfl
  rw [← htake] at hwrites
  refine ⟨t', ⟨t', ⟨⟨mem, t.index, 2⟩, ⟨hdrift, rfl, rfl⟩, _, rfl, _, rfl, hwrites⟩, rfl⟩, hmem, ?_⟩
  rintro rfl
  obtain rfl : t' = _ := hwrites
  rw [htake]

theorem exists_reads (volatile : Set Index) (t : Registers) (n : ℕ) :
    ∃ t', (registerFile volatile).Reads ((loadBytes t.memory t.index n).map (BitVec.setWidth 32))
      t t' ∧ t'.memory = t.memory := by
  induction n generalizing t with
  | zero => exact ⟨t, rfl, rfl⟩
  | succ n ih =>
      obtain ⟨t', hreads, hmem⟩ := ih { t with index := t.index + 1 }
      exact ⟨t', ⟨_, ⟨rfl, rfl⟩, hreads⟩, hmem⟩

/-- A frame loads without a change. -/
theorem exists_receives (volatile : Set Index) (t : Registers) (n : ℕ) :
    ∃ t', (registerFile volatile).Receives
      ((loadBytes t.memory t.index n).map (BitVec.setWidth 32)) t t' ∧ t'.memory = t.memory := by
  obtain ⟨t', hreads, hmem⟩ := exists_reads volatile { t with indexLeft := 2 } n
  exact ⟨t', ⟨t', ⟨{ t with indexLeft := 2 }, ⟨Drift.refl, rfl, rfl⟩, hreads⟩, rfl⟩, hmem⟩

/-- The two frames of a reading. -/
theorem exists_reading (reg : Index) (n : ℕ) (hdrift : Drift volatile t.memory mem) :
    ∃ t₁ t', (registerFile volatile).Sends [byte reg 8, byte reg 0] t t₁ ∧
      (registerFile volatile).Receives ((loadBytes mem reg n).map (BitVec.setWidth 32)) t₁ t' ∧
        t'.memory = mem := by
  obtain ⟨t₁, hsends, hmem, hindex⟩ := exists_sends reg [] hdrift
  obtain ⟨t', hreceives, hmem'⟩ := exists_receives volatile t₁ n
  rw [hmem, hindex rfl] at hreceives
  exact ⟨t₁, t', hsends, hreceives, hmem'.trans hmem⟩

end File

namespace RegisterCall

variable {γ : Type} {volatile : Set Index} {mayFail : Registers → Prop} {store : γ} {t : Registers}

/-- What a call can do to the file, it does in some run. -/
theorem canLead_run {call : RegisterCall} {result : Option ℕ} {mem' : Memory 16}
    (hdoes : call.Does volatile t.memory result mem') :
    (sensorBus (registerFile volatile) mayFail).CanLead .idle call.run .idle
      (fun result' store' t' => result' = result ∧ store' = store ∧ t'.memory = mem') store t := by
  obtain ⟨mem, hdrift, hmove⟩ := hdoes
  cases call with
  | writeReg reg v =>
      obtain ⟨rfl, rfl⟩ := hmove
      obtain ⟨t', hsends, hmem, -⟩ := exists_sends reg [v] hdrift
      apply Bus.CanLead.seq
      apply canLead_writeReg hsends
      exact canLead_pure ⟨rfl, rfl, by rw [hmem, ← spell_byte8]; rfl⟩
  | writeReg16Bit reg v =>
      obtain ⟨rfl, rfl⟩ := hmove
      obtain ⟨t', hsends, hmem, -⟩ := exists_sends reg [byte v 8, byte v 0] hdrift
      apply Bus.CanLead.seq
      apply canLead_writeReg16Bit hsends
      exact canLead_pure ⟨rfl, rfl, by rw [hmem, ← spell_byte16]; rfl⟩
  | writeReg32Bit reg v =>
      obtain ⟨rfl, rfl⟩ := hmove
      obtain ⟨t', hsends, hmem, -⟩ :=
        exists_sends reg [byte v 24, byte v 16, byte v 8, byte v 0] hdrift
      apply Bus.CanLead.seq
      apply canLead_writeReg32Bit hsends
      exact canLead_pure ⟨rfl, rfl, by rw [hmem, ← spell_byte32]; rfl⟩
  | readReg reg =>
      obtain ⟨rfl, rfl⟩ := hmove
      obtain ⟨t₁, t', hsends, hreceives, hmem⟩ := exists_reading reg 1 hdrift
      apply Bus.CanLead.seq
      apply canLead_readReg hsends hreceives
      refine canLead_pure ⟨congrArg some ?_, rfl, hmem⟩
      simp [RegisterCall.reg, size, field, loadBytes, value]
  | readReg16Bit reg =>
      obtain ⟨rfl, rfl⟩ := hmove
      obtain ⟨t₁, t', hsends, hreceives, hmem⟩ := exists_reading reg 2 hdrift
      apply Bus.CanLead.seq
      apply canLead_readReg16Bit hsends hreceives
      refine canLead_pure ⟨congrArg some ?_, rfl, hmem⟩
      rw [join16]
      simp [RegisterCall.reg, size, field, loadBytes, value]
  | readReg32Bit reg =>
      obtain ⟨rfl, rfl⟩ := hmove
      obtain ⟨t₁, t', hsends, hreceives, hmem⟩ := exists_reading reg 4 hdrift
      apply Bus.CanLead.seq
      apply canLead_readReg32Bit hsends hreceives
      refine canLead_pure ⟨congrArg some ?_, rfl, hmem⟩
      rw [join32]
      simp only [RegisterCall.reg, size, field, loadBytes, value, List.foldl_cons, List.foldl_nil]
      omega

theorem canLead_runAll {calls : List RegisterCall} {results : List (Option ℕ)} {mem' : Memory 16}
    (hdoes : DoesAll volatile calls t.memory results mem') :
    (sensorBus (registerFile volatile) mayFail).CanLead .idle (runAll calls) .idle
      (fun results' store' t' => results' = results ∧ store' = store ∧ t'.memory = mem')
      store t := by
  induction calls generalizing t results with
  | nil =>
      obtain ⟨rfl, rfl⟩ := hdoes
      exact canLead_pure ⟨rfl, rfl, rfl⟩
  | cons call calls ih =>
      obtain ⟨result, mem₁, rest, hcall, hcalls, rfl⟩ := hdoes
      apply Bus.CanLead.seq
      apply (canLead_run hcall).mono
      rintro _ _ t₁ ⟨rfl, rfl, rfl⟩
      apply Bus.CanLead.seq
      apply (ih hcalls).mono
      rintro _ _ t' ⟨rfl, rfl, rfl⟩
      exact canLead_pure ⟨rfl, rfl, rfl⟩

/-- The register functions do exactly what the register file does: on the bus a
list of calls can read these values and leave this memory if and only if it can
on the file. -/
theorem runAll_exact (calls : List RegisterCall) (store : γ) {s : Controller} (hs : s.At .idle)
    (t : Registers) (results : List (Option ℕ)) (mem' : Memory 16) :
    Can (sensorBus (registerFile volatile) fun _ => False).contract (runAll calls)
        (fun results' _ st => results' = results ∧ st.2.memory = mem') store (s, t) ↔
      DoesAll volatile calls t.memory results mem' := by
  constructor
  · intro hcan
    obtain ⟨_, _, st, ⟨-, -, hall⟩, rfl, rfl⟩ :=
      (hcan.and_wp (file_runAll calls t rfl s hs)).result
    exact hall
  · intro hdoes
    exact (canLead_runAll hdoes s hs).mono fun _ _ _ hst => ⟨hst.2.1, hst.2.2.2⟩

theorem runAll_exact_threshold :
    Can (sensorBus (registerFile ∅) fun _ => False).contract
        (runAll [writeReg16Bit rangeConfigSigmaThresh 360, readReg rangeConfigSigmaThresh])
        (fun results' _ st => results' = [none, some 1] ∧
          st.2.memory = storeBytes (fun _ => 0) rangeConfigSigmaThresh (spell 2 360))
        () (⟨true, .idle, false, false⟩, ⟨fun _ => 0, 0, 0⟩) ↔
      DoesAll ∅ [writeReg16Bit rangeConfigSigmaThresh 360, readReg rangeConfigSigmaThresh]
        (fun _ => 0) [none, some 1]
        (storeBytes (fun _ => 0) rangeConfigSigmaThresh (spell 2 360)) :=
  runAll_exact _ () ⟨rfl, rfl⟩ ⟨fun _ => 0, 0, 0⟩ _ _

end RegisterCall

end KyogenRV.VL53L1X
