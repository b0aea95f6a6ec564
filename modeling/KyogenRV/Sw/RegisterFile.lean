import KyogenRV.Mem.BigEndian
import KyogenRV.Sw.VL53L1X
import Mathlib.Data.Set.Lattice
import Mathlib.Order.CompletePartialOrder

/-!
# The registers of the sensor

Behind the bus is a file of byte registers: a frame to it names an index, high
byte first, and stores the bytes that follow, and a frame from it loads from the
index on.  Between frames the sensor may change its volatile registers.  The
functions for registers of one, two and four bytes then are loads and stores of
big-endian values, in any order of calls and whatever else the controller
answers.
-/

namespace KyogenRV.VL53L1X

open Dialogue Firmware QsysI2c

/-! ## Frames -/

/-- The bus of the sensor, with a slave at its address. -/
def sensorBus {τ : Type} (slave : Slave τ) (mayFail : τ → Prop) : Bus τ where
  i2cBase := i2c0Base
  address := hardwareAddress
  address_lt := by decide
  slave := slave
  mayFail := mayFail

section Frames

variable {γ τ α : Type} {slave : Slave τ} {mayFail : τ → Prop} {store : γ} {t : τ}
variable {reg : Index}

theorem leads_writeReg {value : BitVec 8} {Q : Unit → γ → τ → Prop}
    (h : ∀ t', slave.Sends [byte reg 8, byte reg 0, value] t t' → Q () store t') :
    (sensorBus slave mayFail).Leads .idle (writeReg reg value) .idle Q store t := by
  apply leads_openWrite
  intro _ hopen
  apply leads_put hopen
  intro _ hhigh
  apply leads_put hhigh
  intro _ hlow
  exact leads_putLast hlow h

theorem leads_writeReg16Bit {value : BitVec 16} {Q : Unit → γ → τ → Prop}
    (h : ∀ t', slave.Sends [byte reg 8, byte reg 0, byte value 8, byte value 0] t t' →
      Q () store t') :
    (sensorBus slave mayFail).Leads .idle (writeReg16Bit reg value) .idle Q store t := by
  apply leads_openWrite
  intro _ hopen
  apply leads_put hopen
  intro _ hhigh
  apply leads_put hhigh
  intro _ hlow
  apply leads_put hlow
  intro _ hvalue
  exact leads_putLast hvalue h

theorem leads_writeReg32Bit {value : BitVec 32} {Q : Unit → γ → τ → Prop}
    (h : ∀ t', slave.Sends [byte reg 8, byte reg 0, byte value 24, byte value 16, byte value 8,
      byte value 0] t t' → Q () store t') :
    (sensorBus slave mayFail).Leads .idle (writeReg32Bit reg value) .idle Q store t := by
  apply leads_openWrite
  intro _ hopen
  apply leads_put hopen
  intro _ hhigh
  apply leads_put hhigh
  intro _ hlow
  apply leads_put hlow
  intro _ hhighest
  apply leads_put hhighest
  intro _ hhigher
  apply leads_put hhigher
  intro _ hlower
  exact leads_putLast hlower h

/-- The frame that every reading starts with. -/
theorem leads_index {phase : Phase} {rest : Firmware γ α} {Q : α → γ → τ → Prop}
    (h : ∀ t₁ t', slave.Sends [byte reg 8, byte reg 0] t t₁ → slave.Reading [] t₁ t' →
      (sensorBus slave mayFail).Leads .reading rest phase Q store t') :
    (sensorBus slave mayFail).Leads .idle (do
      i2cStartTransmit i2c0Base hardwareAddress 0
      i2cWrite i2c0Base (byte reg 8) false
      i2cWrite i2c0Base (byte reg 0) true
      i2cStartTransmit i2c0Base hardwareAddress 1
      rest) phase Q store t := by
  apply leads_openWrite
  intro _ hopen
  apply leads_put hopen
  intro _ hhigh
  apply Bus.Leads.seq
  apply leads_putLast hhigh
  intro t₁ hsends
  exact leads_openRead fun t' hreading => h t₁ t' hsends hreading

theorem leads_readReg {Q : BitVec 8 → γ → τ → Prop}
    (h : ∀ data t₁ t', slave.Sends [byte reg 8, byte reg 0] t t₁ → slave.Receives [data] t₁ t' →
      Q (data.setWidth 8) store t') :
    (sensorBus slave mayFail).Leads .idle (readReg reg) .idle Q store t := by
  apply leads_index
  intro t₁ _ hsends hopen
  apply leads_getLast hopen
  intro data t' hreceives
  exact leads_pure (h data t₁ t' hsends hreceives)

theorem leads_readReg16Bit {Q : BitVec 16 → γ → τ → Prop}
    (h : ∀ high low t₁ t', slave.Sends [byte reg 8, byte reg 0] t t₁ →
      slave.Receives [high, low] t₁ t' →
        Q ((high <<< 8).setWidth 16 ||| low.setWidth 16) store t') :
    (sensorBus slave mayFail).Leads .idle (readReg16Bit reg) .idle Q store t := by
  apply leads_index
  intro t₁ _ hsends hopen
  apply leads_get hopen
  intro high _ hhigh
  apply leads_getLast hhigh
  intro low t' hreceives
  exact leads_pure (h high low t₁ t' hsends hreceives)

theorem leads_readReg32Bit {Q : BitVec 32 → γ → τ → Prop}
    (h : ∀ highest higher lower lowest t₁ t', slave.Sends [byte reg 8, byte reg 0] t t₁ →
      slave.Receives [highest, higher, lower, lowest] t₁ t' →
        Q (highest <<< 24 ||| higher <<< 16 ||| ((lower <<< 8).setWidth 16).setWidth 32 ||| lowest)
          store t') :
    (sensorBus slave mayFail).Leads .idle (readReg32Bit reg) .idle Q store t := by
  apply leads_index
  intro t₁ _ hsends hopen
  apply leads_get hopen
  intro highest _ hhighest
  apply leads_get hhighest
  intro higher _ hhigher
  apply leads_get hhigher
  intro lower _ hlower
  apply leads_getLast hlower
  intro lowest t' hreceives
  exact leads_pure (h highest higher lower lowest t₁ t' hsends hreceives)

end Frames

/-! ## The register file -/

open BigEndian

/-- The registers, the index of the next byte, and how many bytes of an index
are still to come. -/
structure Registers where
  memory : Memory 16
  index : Index
  indexLeft : ℕ

/-- A byte of a frame to the file. -/
def Registers.take (t : Registers) (data : Byte) : Registers :=
  match t.indexLeft with
  | 0 => { t with memory := Function.update t.memory t.index data, index := t.index + 1 }
  | 1 => { t with index := t.index ||| data.setWidth 16, indexLeft := 0 }
  | _ + 2 => { t with index := data.setWidth 16 <<< 8, indexLeft := 1 }

/-- Only volatile registers change. -/
def Drift (volatile : Set Index) (mem mem' : Memory 16) : Prop :=
  ∀ i ∉ volatile, mem' i = mem i

def registerFile (volatile : Set Index) : Slave Registers where
  start _ t t' := Drift volatile t.memory t'.memory ∧ t'.index = t.index ∧ t'.indexLeft = 2
  write data t t' := t' = t.take data
  read data t t' :=
    data = (t.memory t.index).setWidth 32 ∧ t' = { t with index := t.index + 1 }
  stop t t' := t' = t

section Bytes

theorem toNat_byte {w : ℕ} (v : BitVec w) (shift : ℕ) (hw : 8 ≤ w) :
    (byte v shift).toNat = v.toNat / 2 ^ shift % 256 := by
  have hpow : 256 ≤ 2 ^ w := Nat.pow_le_pow_right (n := 2) (by decide) hw
  have hmask : (0xFF : BitVec w).toNat = 2 ^ 8 - 1 := by
    change 255 % 2 ^ w = 255
    exact Nat.mod_eq_of_lt (by omega)
  rw [byte, BitVec.toNat_setWidth, BitVec.toNat_and, hmask, Nat.and_two_pow_sub_one_eq_mod,
    BitVec.toNat_ushiftRight, Nat.shiftRight_eq_div_pow]
  omega

/-- Bytes that are spelled are those that are sent. -/
theorem ofNat_toNat_div {w : ℕ} (v : BitVec w) (shift : ℕ) (hw : 8 ≤ w) :
    BitVec.ofNat 8 (v.toNat / 2 ^ shift) = byte v shift := by
  apply BitVec.eq_of_toNat_eq
  rw [toNat_byte v shift hw, BitVec.toNat_ofNat]

theorem spell_byte8 (v : BitVec 8) : spell 1 v.toNat = [v] := by
  simp [spell]

theorem spell_byte16 (v : BitVec 16) : spell 2 v.toNat = [byte v 8, byte v 0] := by
  rw [← ofNat_toNat_div v 8 (by decide), ← ofNat_toNat_div v 0 (by decide)]
  simp [spell]

theorem spell_byte32 (v : BitVec 32) :
    spell 4 v.toNat = [byte v 24, byte v 16, byte v 8, byte v 0] := by
  rw [← ofNat_toNat_div v 24 (by decide), ← ofNat_toNat_div v 16 (by decide),
    ← ofNat_toNat_div v 8 (by decide), ← ofNat_toNat_div v 0 (by decide)]
  simp [spell, Nat.div_div_eq_div_mul]

/-- Bits below the others. -/
theorem toNat_or_low {w k a b : ℕ} {high low : BitVec w} (hhigh : high.toNat = a * 2 ^ k)
    (hlow : low.toNat = b) (hb : b < 2 ^ k) : (high ||| low).toNat = a * 2 ^ k + b := by
  rw [BitVec.toNat_or, hhigh, hlow, ← Nat.shiftLeft_eq, Nat.shiftLeft_add_eq_or_of_lt hb]

/-- A byte at its place. -/
theorem toNat_shifted (a : Byte) (k : ℕ) (hk : k ≤ 24) :
    ((a.setWidth 32 : Word) <<< k).toNat = a.toNat * 2 ^ k := by
  have ha := a.isLt
  have hpow : 2 ^ k ≤ 2 ^ 24 := Nat.pow_le_pow_right (by decide) hk
  have hlt : a.toNat * 2 ^ k < 2 ^ 32 := by
    calc a.toNat * 2 ^ k < 2 ^ 8 * 2 ^ k := Nat.mul_lt_mul_of_pos_right ha (by positivity)
      _ ≤ 2 ^ 8 * 2 ^ 24 := Nat.mul_le_mul_left _ hpow
      _ = 2 ^ 32 := by decide
  rw [BitVec.toNat_shiftLeft, BitVec.toNat_setWidth, Nat.shiftLeft_eq,
    Nat.mod_eq_of_lt (by omega : a.toNat < 2 ^ 32), Nat.mod_eq_of_lt hlt]

/-- `readReg16Bit` puts two bytes together. -/
theorem join16 (a b : Byte) :
    (((a.setWidth 32 : Word) <<< 8).setWidth 16 |||
      (b.setWidth 32 : Word).setWidth 16).toNat = a.toNat * 256 + b.toNat := by
  have ha := a.isLt
  have hb := b.isLt
  have hhigh : (((a.setWidth 32 : Word) <<< 8).setWidth 16).toNat = a.toNat * 256 := by
    rw [BitVec.toNat_setWidth, toNat_shifted a 8 (by decide)]
    omega
  have hlow : ((b.setWidth 32 : Word).setWidth 16).toNat = b.toNat := by
    simp only [BitVec.toNat_setWidth]
    omega
  exact toNat_or_low hhigh hlow hb

/-- `readReg32Bit` puts four bytes together. -/
theorem join32 (a b c d : Byte) :
    ((a.setWidth 32 : Word) <<< 24 ||| (b.setWidth 32 : Word) <<< 16 |||
      (((c.setWidth 32 : Word) <<< 8).setWidth 16).setWidth 32 ||| d.setWidth 32).toNat =
        a.toNat * 2 ^ 24 + b.toNat * 2 ^ 16 + c.toNat * 2 ^ 8 + d.toNat := by
  have hb := b.isLt
  have hc := c.isLt
  have hd := d.isLt
  have ha' := toNat_shifted a 24 (by decide)
  have hb' := toNat_shifted b 16 (by decide)
  have hc' : ((((c.setWidth 32 : Word) <<< 8).setWidth 16).setWidth 32).toNat =
      c.toNat * 2 ^ 8 := by
    rw [BitVec.toNat_setWidth, BitVec.toNat_setWidth, toNat_shifted c 8 (by decide)]
    omega
  have hd' : (d.setWidth 32 : Word).toNat = d.toNat := by
    rw [BitVec.toNat_setWidth]
    omega
  have hab : ((a.setWidth 32 : Word) <<< 24 ||| (b.setWidth 32 : Word) <<< 16).toNat =
      (a.toNat * 2 ^ 8 + b.toNat) * 2 ^ 16 := by
    rw [toNat_or_low ha' hb' (by omega)]
    omega
  have habc : ((a.setWidth 32 : Word) <<< 24 ||| (b.setWidth 32 : Word) <<< 16 |||
      (((c.setWidth 32 : Word) <<< 8).setWidth 16).setWidth 32).toNat =
        ((a.toNat * 2 ^ 8 + b.toNat) * 2 ^ 8 + c.toNat) * 2 ^ 8 := by
    rw [toNat_or_low hab hc' (by omega)]
    omega
  rw [toNat_or_low habc hd' hd]
  omega

end Bytes

section Slave

variable {volatile : Set Index} {t t' : Registers} {mem : Memory 16}

theorem Drift.refl : Drift volatile mem mem := fun _ _ => rfl

theorem Drift.trans {mem' mem'' : Memory 16} (h : Drift volatile mem mem')
    (h' : Drift volatile mem' mem'') : Drift volatile mem mem'' :=
  fun i hi => (h' i hi).trans (h i hi)

theorem index_bytes (reg : Index) :
    (byte reg 8).setWidth 16 <<< 8 ||| (byte reg 0).setWidth 16 = reg := by
  have hreg := reg.isLt
  have hhigh : ((byte reg 8).setWidth 16 <<< 8).toNat = reg.toNat / 256 * 256 := by
    rw [BitVec.toNat_shiftLeft, BitVec.toNat_setWidth, toNat_byte reg 8 (by decide),
      Nat.shiftLeft_eq]
    omega
  have hlow : ((byte reg 0).setWidth 16).toNat = reg.toNat % 256 := by
    rw [BitVec.toNat_setWidth, toNat_byte reg 0 (by decide)]
    omega
  apply BitVec.eq_of_toNat_eq
  rw [toNat_or_low (k := 8) hhigh hlow (by omega)]
  omega

/-- After its index, a frame stores its bytes. -/
theorem memory_of_writes {bytes : List Byte} (hleft : t.indexLeft = 0)
    (h : (registerFile volatile).Writes bytes t t') :
    t'.memory = storeBytes t.memory t.index bytes ∧
      (bytes = [] → t'.index = t.index) := by
  induction bytes generalizing t with
  | nil =>
      obtain rfl : t' = t := h
      exact ⟨rfl, fun _ => rfl⟩
  | cons data bytes ih =>
      obtain ⟨t₁, rfl, hbytes⟩ := h
      have htake : t.take data = { t with
          memory := Function.update t.memory t.index data, index := t.index + 1 } := by
        rw [Registers.take, hleft]
      rw [htake] at hbytes
      have hnext := ih (t := { t with
        memory := Function.update t.memory t.index data, index := t.index + 1 }) hleft hbytes
      exact ⟨hnext.1, fun hnil => by cases hnil⟩

/-- A frame to the file. -/
theorem of_sends {reg : Index} {bytes : List Byte}
    (h : (registerFile volatile).Sends (byte reg 8 :: byte reg 0 :: bytes) t t') :
    ∃ mem, Drift volatile t.memory mem ∧ t'.memory = storeBytes mem reg bytes ∧
      (bytes = [] → t'.index = reg) := by
  obtain ⟨t₂, ⟨t₁, ⟨hdrift, -, hleft⟩, _, rfl, _, rfl, hbytes⟩, rfl⟩ := h
  have htake : (t₁.take (byte reg 8)).take (byte reg 0) =
      { t₁ with index := reg, indexLeft := 0 } := by
    simp only [Registers.take, hleft, index_bytes]
  rw [htake] at hbytes
  exact ⟨t₁.memory, hdrift, memory_of_writes rfl hbytes⟩

theorem of_reads {words : List Word} (h : (registerFile volatile).Reads words t t') :
    t'.memory = t.memory ∧
      words = (loadBytes t.memory t.index words.length).map (BitVec.setWidth 32) := by
  induction words generalizing t with
  | nil =>
      obtain rfl : t' = t := h
      exact ⟨rfl, rfl⟩
  | cons data words ih =>
      obtain ⟨_, ⟨hdata, rfl⟩, hwords⟩ := h
      obtain ⟨hmem, heq⟩ := ih hwords
      refine ⟨hmem, ?_⟩
      rw [List.length_cons, loadBytes, List.map_cons, ← hdata]
      exact congrArg _ heq

/-- A frame from the file. -/
theorem of_receives {words : List Word} (h : (registerFile volatile).Receives words t t') :
    Drift volatile t.memory t'.memory ∧
      words = (loadBytes t'.memory t.index words.length).map (BitVec.setWidth 32) := by
  obtain ⟨t₂, ⟨t₁, ⟨hdrift, hindex, -⟩, hwords⟩, rfl⟩ := h
  obtain ⟨hmem, heq⟩ := of_reads hwords
  rw [hmem, ← hindex]
  exact ⟨hdrift, heq⟩

/-- The two frames of a reading. -/
theorem of_reading {reg : Index} {words : List Word} {t₁ : Registers}
    (hsends : (registerFile volatile).Sends [byte reg 8, byte reg 0] t t₁)
    (hreceives : (registerFile volatile).Receives words t₁ t') :
    Drift volatile t.memory t'.memory ∧
      words = (loadBytes t'.memory reg words.length).map (BitVec.setWidth 32) := by
  obtain ⟨mem, hdrift, hmem, hindex⟩ := of_sends hsends
  obtain ⟨hdrift', hwords⟩ := of_receives hreceives
  rw [hmem] at hdrift'
  rw [hindex rfl] at hwords
  exact ⟨hdrift.trans hdrift', hwords⟩

end Slave

/-! ## Rules -/

/-- Between two frames, over the memory of the file. -/
def FileLeads {γ α : Type} (volatile : Set Index) (m : Firmware γ α)
    (Q : α → γ → Memory 16 → Prop) (store : γ) (mem : Memory 16) : Prop :=
  ∀ t : Registers, t.memory = mem →
    (sensorBus (registerFile volatile) fun _ => False).Leads .idle m .idle
      (fun value store t => Q value store t.memory) store t

section Rules

variable {γ α β : Type} {volatile : Set Index} {store : γ} {mem : Memory 16} {reg : Index}

theorem FileLeads.mono {m : Firmware γ α} {Q R : α → γ → Memory 16 → Prop}
    (h : FileLeads volatile m Q store mem)
    (hQR : ∀ value store mem, Q value store mem → R value store mem) :
    FileLeads volatile m R store mem :=
  fun t ht => (h t ht).mono fun value store t => hQR value store t.memory

theorem FileLeads.seq {m : Firmware γ α} {f : α → Firmware γ β} {Q : β → γ → Memory 16 → Prop}
    (h : FileLeads volatile m (fun value store mem => FileLeads volatile (f value) Q store mem)
      store mem) : FileLeads volatile (m >>= f) Q store mem :=
  fun t ht => Bus.Leads.seq ((h t ht).mono fun _ _ t hf => hf t rfl)

theorem file_pure {Q : α → γ → Memory 16 → Prop} {value : α} (h : Q value store mem) :
    FileLeads volatile (pure value) Q store mem :=
  fun _ ht => leads_pure (ht ▸ h)

theorem file_load {Q : γ → γ → Memory 16 → Prop} (h : Q store store mem) :
    FileLeads volatile load Q store mem :=
  fun _ ht => leads_load (ht ▸ h)

theorem file_update {f : γ → γ} {Q : Unit → γ → Memory 16 → Prop} (h : Q () (f store) mem) :
    FileLeads volatile (update f) Q store mem :=
  fun _ ht => leads_update (ht ▸ h)

theorem file_defined {o : Option α} {value : α} {Q : α → γ → Memory 16 → Prop}
    (ho : o = some value) (h : Q value store mem) : FileLeads volatile (defined o) Q store mem := by
  subst ho
  exact file_pure h

theorem file_getTimeMs {highFirst : Bool} {Q : BitVec 64 → γ → Memory 16 → Prop}
    (h : ∀ time, Q time store mem) : FileLeads volatile (getTimeMs highFirst) Q store mem :=
  fun _ ht => leads_getTimeMs fun time => ht ▸ h time

theorem file_loop {body : Firmware γ (Option α)} {Q : α → γ → Memory 16 → Prop}
    (I : γ → Memory 16 → Prop)
    (hbody : ∀ store mem, I store mem →
      FileLeads volatile body (fun result store mem =>
        (∀ value, result = some value → Q value store mem) ∧ (result = none → I store mem))
        store mem)
    (h : I store mem) : FileLeads volatile (loop body) Q store mem :=
  fun _ ht => leads_loop (fun store t => I store t.memory)
    (fun store t hI => hbody store t.memory hI t rfl) (ht ▸ h)

theorem file_write {Q : Unit → γ → Memory 16 → Prop} {bytes : List Byte} {t t' : Registers}
    (ht : t.memory = mem)
    (h : ∀ mem', Drift volatile mem mem' → Q () store (storeBytes mem' reg bytes))
    (hsends : (registerFile volatile).Sends (byte reg 8 :: byte reg 0 :: bytes) t t') :
    Q () store t'.memory := by
  obtain ⟨mem', hdrift, hmem, -⟩ := of_sends hsends
  rw [hmem]
  exact h mem' (ht ▸ hdrift)

theorem file_writeReg {v : BitVec 8} {Q : Unit → γ → Memory 16 → Prop}
    (h : ∀ mem', Drift volatile mem mem' → Q () store (storeBytes mem' reg (spell 1 v.toNat))) :
    FileLeads volatile (writeReg reg v) Q store mem := by
  rw [spell_byte8] at h
  exact fun t ht => leads_writeReg fun t' hsends => file_write ht h hsends

theorem file_writeReg16Bit {v : BitVec 16} {Q : Unit → γ → Memory 16 → Prop}
    (h : ∀ mem', Drift volatile mem mem' → Q () store (storeBytes mem' reg (spell 2 v.toNat))) :
    FileLeads volatile (writeReg16Bit reg v) Q store mem := by
  rw [spell_byte16] at h
  exact fun t ht => leads_writeReg16Bit fun t' hsends => file_write ht h hsends

theorem file_writeReg32Bit {v : BitVec 32} {Q : Unit → γ → Memory 16 → Prop}
    (h : ∀ mem', Drift volatile mem mem' → Q () store (storeBytes mem' reg (spell 4 v.toNat))) :
    FileLeads volatile (writeReg32Bit reg v) Q store mem := by
  rw [spell_byte32] at h
  exact fun t ht => leads_writeReg32Bit fun t' hsends => file_write ht h hsends

theorem file_readReg {Q : BitVec 8 → γ → Memory 16 → Prop}
    (h : ∀ mem' v, Drift volatile mem mem' → v.toNat = value (loadBytes mem' reg 1) →
      Q v store mem') : FileLeads volatile (readReg reg) Q store mem := by
  intro t ht
  apply leads_readReg
  intro data t₁ t' hsends hreceives
  obtain ⟨hdrift, hwords⟩ := of_reading hsends hreceives
  obtain rfl : data = (t'.memory reg).setWidth 32 := by simpa [loadBytes] using hwords
  apply h _ _ (ht ▸ hdrift)
  simp [loadBytes, value]

theorem file_readReg16Bit {Q : BitVec 16 → γ → Memory 16 → Prop}
    (h : ∀ mem' v, Drift volatile mem mem' → v.toNat = value (loadBytes mem' reg 2) →
      Q v store mem') : FileLeads volatile (readReg16Bit reg) Q store mem := by
  intro t ht
  apply leads_readReg16Bit
  intro high low t₁ t' hsends hreceives
  obtain ⟨hdrift, hwords⟩ := of_reading hsends hreceives
  obtain ⟨rfl, rfl⟩ : high = (t'.memory reg).setWidth 32 ∧
      low = (t'.memory (reg + 1)).setWidth 32 := by simpa [loadBytes] using hwords
  apply h _ _ (ht ▸ hdrift)
  rw [join16]
  simp [loadBytes, value]

theorem file_readReg32Bit {Q : BitVec 32 → γ → Memory 16 → Prop}
    (h : ∀ mem' v, Drift volatile mem mem' → v.toNat = value (loadBytes mem' reg 4) →
      Q v store mem') : FileLeads volatile (readReg32Bit reg) Q store mem := by
  intro t ht
  apply leads_readReg32Bit
  intro highest higher lower lowest t₁ t' hsends hreceives
  obtain ⟨hdrift, hwords⟩ := of_reading hsends hreceives
  obtain ⟨rfl, rfl, rfl, rfl⟩ : highest = (t'.memory reg).setWidth 32 ∧
      higher = (t'.memory (reg + 1)).setWidth 32 ∧
      lower = (t'.memory (reg + 1 + 1)).setWidth 32 ∧
      lowest = (t'.memory (reg + 1 + 1 + 1)).setWidth 32 := by simpa [loadBytes] using hwords
  apply h _ _ (ht ▸ hdrift)
  rw [join32]
  simp only [loadBytes, value, List.foldl_cons, List.foldl_nil]
  omega

/-! ### Fields -/

/-- The value of a register of `n` bytes. -/
def field (mem : Memory 16) (reg : Index) (n : ℕ) : ℕ := value (loadBytes mem reg n)

/-- The registers of a field. -/
def span (reg : Index) (n : ℕ) : Set Index := {i | offset reg i < n}

/-- Two fields without a common register. -/
def Apart (reg : Index) (n : ℕ) (reg' : Index) (n' : ℕ) : Prop :=
  ∀ k < n, n' ≤ offset reg' (reg + BitVec.ofNat 16 k)

instance (reg : Index) (n : ℕ) (reg' : Index) (n' : ℕ) : Decidable (Apart reg n reg' n') :=
  Nat.decidableBallLT n fun k _ => n' ≤ offset reg' (reg + BitVec.ofNat 16 k)

variable {mem' : Memory 16} {n n' : ℕ} {reg' : Index}

theorem Drift.mono {volatile' : Set Index} (h : Drift volatile mem mem')
    (hsub : volatile ⊆ volatile') : Drift volatile' mem mem' :=
  fun i hi => h i fun hmem => hi (hsub hmem)

theorem Drift.widen (S : Set Index) (h : Drift volatile mem mem') :
    Drift (volatile ∪ S) mem mem' :=
  h.mono Set.subset_union_left

theorem Drift.within {T S : Set Index} (h : Drift (volatile ∪ T) mem mem') (hsub : T ⊆ S) :
    Drift (volatile ∪ S) mem mem' :=
  h.mono (Set.union_subset_union_right _ hsub)

theorem field_drift (h : Drift volatile mem mem')
    (hreg : ∀ k < n, reg + BitVec.ofNat 16 k ∉ volatile) : field mem' reg n = field mem reg n :=
  congrArg value (loadBytes_congr fun k hk => h _ (hreg k hk))

/-- A field that the sensor does not change and that is not written stays. -/
theorem field_keep (hvolatile : ∀ k < n, reg + BitVec.ofNat 16 k ∉ volatile)
    (h : Drift (volatile ∪ span reg' n') mem mem') (hapart : Apart reg n reg' n') :
    field mem' reg n = field mem reg n := by
  apply field_drift h
  rintro k hk (hmem | hmem)
  · exact hvolatile k hk hmem
  · exact absurd hmem (Nat.not_lt_of_le (hapart k hk))

theorem drift_store {bytes : List Byte} (h : Drift volatile mem mem') :
    Drift (volatile ∪ span reg bytes.length) mem (storeBytes mem' reg bytes) := by
  intro i hi
  have hout : ¬offset reg i < bytes.length := fun hlt => hi (Or.inr hlt)
  rw [storeBytes_of_outside (Nat.le_of_not_lt hout)]
  exact h i fun hmem => hi (Or.inl hmem)

theorem field_store {bytes : List Byte} (hlen : bytes.length ≤ 2 ^ 16) :
    field (storeBytes mem reg bytes) reg bytes.length = value bytes := by
  rw [field, loadBytes_storeBytes hlen]

/-- What is known after a field was written. -/
theorem file_set {Q : Unit → γ → Memory 16 → Prop} {v : ℕ} (hn : n ≤ 4) (hv : v < 256 ^ n)
    (h : ∀ mem', Drift (volatile ∪ span reg n) mem mem' → field mem' reg n = v →
      Q () store mem') (hdrift : Drift volatile mem mem') :
    Q () store (storeBytes mem' reg (spell n v)) := by
  have hlen : (spell n v).length = n := length_spell
  have hframe : Drift (volatile ∪ span reg (spell n v).length) mem
      (storeBytes mem' reg (spell n v)) := drift_store hdrift
  have hfield : field (storeBytes mem' reg (spell n v)) reg (spell n v).length =
      value (spell n v) := field_store (by omega)
  rw [hlen] at hframe hfield
  exact h _ hframe (by rw [hfield, value_spell, Nat.mod_eq_of_lt hv])

theorem file_set8 {v : BitVec 8} {Q : Unit → γ → Memory 16 → Prop}
    (h : ∀ mem', Drift (volatile ∪ span reg 1) mem mem' → field mem' reg 1 = v.toNat →
      Q () store mem') : FileLeads volatile (writeReg reg v) Q store mem :=
  file_writeReg fun _ hdrift => file_set (by decide) v.isLt h hdrift

theorem file_set16 {v : BitVec 16} {Q : Unit → γ → Memory 16 → Prop}
    (h : ∀ mem', Drift (volatile ∪ span reg 2) mem mem' → field mem' reg 2 = v.toNat →
      Q () store mem') : FileLeads volatile (writeReg16Bit reg v) Q store mem :=
  file_writeReg16Bit fun _ hdrift => file_set (by decide) v.isLt h hdrift

end Rules

/-! ## Any sequence of calls -/

inductive RegisterCall where
  | writeReg (reg : Index) (value : BitVec 8)
  | writeReg16Bit (reg : Index) (value : BitVec 16)
  | writeReg32Bit (reg : Index) (value : BitVec 32)
  | readReg (reg : Index)
  | readReg16Bit (reg : Index)
  | readReg32Bit (reg : Index)

namespace RegisterCall

variable {γ : Type}

/-- The call, with the value that it reads. -/
def run : RegisterCall → Firmware γ (Option ℕ)
  | writeReg reg value => do
      VL53L1X.writeReg reg value
      pure none
  | writeReg16Bit reg value => do
      VL53L1X.writeReg16Bit reg value
      pure none
  | writeReg32Bit reg value => do
      VL53L1X.writeReg32Bit reg value
      pure none
  | readReg reg => do
      let value ← VL53L1X.readReg reg
      pure (some value.toNat)
  | readReg16Bit reg => do
      let value ← VL53L1X.readReg16Bit reg
      pure (some value.toNat)
  | readReg32Bit reg => do
      let value ← VL53L1X.readReg32Bit reg
      pure (some value.toNat)

def runAll : List RegisterCall → Firmware γ (List (Option ℕ))
  | [] => pure []
  | call :: calls => do
      let result ← call.run
      let results ← runAll calls
      pure (result :: results)

/-- The first register of a call. -/
def reg : RegisterCall → Index
  | writeReg reg _ => reg
  | writeReg16Bit reg _ => reg
  | writeReg32Bit reg _ => reg
  | readReg reg => reg
  | readReg16Bit reg => reg
  | readReg32Bit reg => reg

/-- The number of its registers. -/
def size : RegisterCall → ℕ
  | writeReg _ _ => 1
  | writeReg16Bit _ _ => 2
  | writeReg32Bit _ _ => 4
  | readReg _ => 1
  | readReg16Bit _ => 2
  | readReg32Bit _ => 4

/-- The value that a call writes. -/
def written : RegisterCall → Option ℕ
  | writeReg _ value => some value.toNat
  | writeReg16Bit _ value => some value.toNat
  | writeReg32Bit _ value => some value.toNat
  | readReg _ => none
  | readReg16Bit _ => none
  | readReg32Bit _ => none

/-- What a call does to a file of big-endian registers. -/
def Does (volatile : Set Index) (call : RegisterCall) (mem : Memory 16) (result : Option ℕ)
    (mem' : Memory 16) : Prop :=
  ∃ mem₁, Drift volatile mem mem₁ ∧
    match call.written with
    | some v => result = none ∧ mem' = storeBytes mem₁ call.reg (spell call.size v)
    | none => result = some (field mem₁ call.reg call.size) ∧ mem' = mem₁

def DoesAll (volatile : Set Index) :
    List RegisterCall → Memory 16 → List (Option ℕ) → Memory 16 → Prop
  | [], mem, results, mem' => results = [] ∧ mem' = mem
  | call :: calls, mem, results, mem' =>
      ∃ result mem₁ rest, call.Does volatile mem result mem₁ ∧
        DoesAll volatile calls mem₁ rest mem' ∧ results = result :: rest

section Refinement

variable {volatile : Set Index} {store : γ} {mem : Memory 16}

theorem file_run (call : RegisterCall) :
    FileLeads volatile call.run
      (fun result store' mem' => store' = store ∧ call.Does volatile mem result mem')
      store mem := by
  cases call with
  | writeReg reg v =>
      apply FileLeads.seq
      apply file_writeReg
      intro mem₁ hdrift
      exact file_pure ⟨rfl, mem₁, hdrift, rfl, rfl⟩
  | writeReg16Bit reg v =>
      apply FileLeads.seq
      apply file_writeReg16Bit
      intro mem₁ hdrift
      exact file_pure ⟨rfl, mem₁, hdrift, rfl, rfl⟩
  | writeReg32Bit reg v =>
      apply FileLeads.seq
      apply file_writeReg32Bit
      intro mem₁ hdrift
      exact file_pure ⟨rfl, mem₁, hdrift, rfl, rfl⟩
  | readReg reg =>
      apply FileLeads.seq
      apply file_readReg
      intro mem₁ v hdrift hv
      exact file_pure ⟨rfl, mem₁, hdrift, congrArg some hv, rfl⟩
  | readReg16Bit reg =>
      apply FileLeads.seq
      apply file_readReg16Bit
      intro mem₁ v hdrift hv
      exact file_pure ⟨rfl, mem₁, hdrift, congrArg some hv, rfl⟩
  | readReg32Bit reg =>
      apply FileLeads.seq
      apply file_readReg32Bit
      intro mem₁ v hdrift hv
      exact file_pure ⟨rfl, mem₁, hdrift, congrArg some hv, rfl⟩

theorem file_runAll (calls : List RegisterCall) :
    FileLeads volatile (runAll calls)
      (fun results store' mem' => store' = store ∧ DoesAll volatile calls mem results mem')
      store mem := by
  induction calls generalizing mem with
  | nil => exact file_pure ⟨rfl, rfl, rfl⟩
  | cons call calls ih =>
      apply FileLeads.seq
      apply (file_run call).mono
      rintro result _ mem₁ ⟨rfl, hcall⟩
      apply FileLeads.seq
      apply ih.mono
      rintro results _ mem' ⟨rfl, hcalls⟩
      exact file_pure ⟨rfl, result, mem₁, results, hcall, hcalls, rfl⟩

/-- Every run of register functions, whatever the controller answers, is a run of
the register file: the same values are read, and the same memory is left. -/
theorem runAll_refines (calls : List RegisterCall) (store : γ) {s : Controller}
    (hs : s.At .idle) (t : Registers) :
    wp (sensorBus (registerFile volatile) fun _ => False).contract (runAll calls)
      (fun results store' st => st.1.At .idle ∧ store' = store ∧
        DoesAll volatile calls t.memory results st.2.memory) store (s, t) :=
  file_runAll calls t rfl s hs

theorem runAll_refines_threshold :
    wp (sensorBus (registerFile {resultRangeStatus}) fun _ => False).contract
      (runAll [writeReg16Bit rangeConfigSigmaThresh 360, readReg rangeConfigSigmaThresh])
      (fun results store' st => st.1.At .idle ∧ store' = () ∧
        DoesAll {resultRangeStatus}
          [writeReg16Bit rangeConfigSigmaThresh 360, readReg rangeConfigSigmaThresh]
          (fun _ => 0) results st.2.memory) ()
      (⟨true, .idle, false, false⟩, ⟨fun _ => 0, 0, 0⟩) :=
  runAll_refines _ () ⟨rfl, rfl⟩ ⟨fun _ => 0, 0, 0⟩

/-! ### Reading back -/

/-- The registers that a call is about. -/
def registers (call : RegisterCall) : Set Index := span call.reg call.size

theorem size_le (call : RegisterCall) : call.size ≤ 4 := by
  cases call <;> simp [size]

theorem written_lt {call : RegisterCall} {v : ℕ} (h : call.written = some v) :
    v < 256 ^ call.size := by
  cases call <;> simp only [written, Option.some.injEq, reduceCtorEq] at h
  case writeReg reg value => exact h ▸ value.isLt
  case writeReg16Bit reg value => exact h ▸ value.isLt
  case writeReg32Bit reg value => exact h ▸ value.isLt

variable {call other : RegisterCall} {v : ℕ} {mem' : Memory 16} {result : Option ℕ}

/-- The field of a call stays where its registers do. -/
theorem field_congr (hmem : ∀ i ∈ call.registers, mem' i = mem i) :
    field mem' call.reg call.size = field mem call.reg call.size := by
  apply congrArg value
  apply loadBytes_congr
  intro k hk
  apply hmem
  have hsize := size_le call
  rw [registers, span, Set.mem_ofPred_eq, offset_add (by omega)]
  exact hk

theorem field_of_write (hwritten : call.written = some v)
    (hdoes : call.Does volatile mem result mem') : field mem' call.reg call.size = v := by
  obtain ⟨mem₁, -, hmove⟩ := hdoes
  rw [hwritten] at hmove
  have hsize := size_le call
  have hfield : field (storeBytes mem₁ call.reg (spell call.size v)) call.reg
      (spell call.size v).length = value (spell call.size v) :=
    field_store (by rw [length_spell]; omega)
  rw [length_spell, value_spell, Nat.mod_eq_of_lt (written_lt hwritten)] at hfield
  rw [hmove.2, hfield]

/-- A call elsewhere leaves it alone. -/
theorem field_does (hvolatile : Disjoint call.registers volatile)
    (hother : other.written ≠ none → Disjoint call.registers other.registers)
    (hdoes : other.Does volatile mem result mem') :
    field mem' call.reg call.size = field mem call.reg call.size := by
  obtain ⟨mem₁, hdrift, hmove⟩ := hdoes
  have h₁ : field mem₁ call.reg call.size = field mem call.reg call.size :=
    field_congr fun i hi => hdrift i (Set.disjoint_left.mp hvolatile hi)
  cases hwritten : other.written with
  | none =>
      rw [hwritten] at hmove
      exact hmove.2 ▸ h₁
  | some w =>
      rw [hwritten] at hmove
      rw [← h₁]
      apply field_congr
      intro i hi
      have hout : i ∉ other.registers :=
        Set.disjoint_left.mp (hother (by rw [hwritten]; simp)) hi
      rw [hmove.2]
      apply storeBytes_of_outside
      rw [length_spell]
      exact Nat.le_of_not_lt hout

theorem doesAll_append {calls calls' : List RegisterCall} {results : List (Option ℕ)}
    (h : DoesAll volatile (calls ++ calls') mem results mem') :
    ∃ first rest mem₁, DoesAll volatile calls mem first mem₁ ∧
      DoesAll volatile calls' mem₁ rest mem' ∧ results = first ++ rest := by
  induction calls generalizing mem results with
  | nil => exact ⟨[], results, mem, ⟨rfl, rfl⟩, h, rfl⟩
  | cons call calls ih =>
      obtain ⟨result, mem₁, tail, hcall, htail, rfl⟩ := h
      obtain ⟨first, rest, mem₂, hfirst, hrest, rfl⟩ := ih htail
      exact ⟨result :: first, rest, mem₂, ⟨result, mem₁, first, hcall, hfirst, rfl⟩, hrest, rfl⟩

theorem field_doesAll {calls : List RegisterCall} {results : List (Option ℕ)}
    (hvolatile : Disjoint call.registers volatile)
    (hcalls : ∀ other ∈ calls, other.written ≠ none → Disjoint call.registers other.registers)
    (hdoes : DoesAll volatile calls mem results mem') :
    field mem' call.reg call.size = field mem call.reg call.size := by
  induction calls generalizing mem results with
  | nil => rw [hdoes.2]
  | cons other calls ih =>
      obtain ⟨result, mem₁, rest, hother, hrest, -⟩ := hdoes
      have h₁ : field mem₁ call.reg call.size = field mem call.reg call.size :=
        field_does hvolatile (hcalls other List.mem_cons_self) hother
      rw [← h₁]
      exact ih (fun other hmem => hcalls other (List.mem_cons_of_mem _ hmem)) hrest

/-- A value that was written is read back, whatever was called before, and after
it for other registers, as long as the sensor does not change these by itself. -/
theorem read_back (earlier later : List RegisterCall) (write read : RegisterCall)
    (hwritten : write.written = some v) (hread : read.written = none)
    (hreg : read.reg = write.reg) (hsize : read.size = write.size)
    (hvolatile : Disjoint write.registers volatile)
    (hlater : ∀ other ∈ later, other.written ≠ none →
      Disjoint write.registers other.registers)
    (store : γ) {s : Controller} (hs : s.At .idle) (t : Registers) :
    wp (sensorBus (registerFile volatile) fun _ => False).contract
      (runAll (earlier ++ write :: (later ++ [read])))
      (fun results _ _ => results.getLast? = some (some v)) store (s, t) := by
  apply wp_mono (file_runAll (earlier ++ write :: (later ++ [read])) t rfl s hs)
  rintro results _ ⟨_, t'⟩ ⟨-, -, hall⟩
  obtain ⟨first, rest, mem₁, -, hafter, rfl⟩ := doesAll_append hall
  obtain ⟨result, mem₂, rest, hwrite, hafter, rfl⟩ := hafter
  obtain ⟨between, last, mem₃, hbetween, hlast, rfl⟩ := doesAll_append hafter
  obtain ⟨result', mem₄, rest, ⟨mem₅, hdrift, hmove⟩, ⟨rfl, -⟩, rfl⟩ := hlast
  rw [hread] at hmove
  have hresult : result' = some v := by
    rw [hmove.1, hreg, hsize,
      field_congr fun i hi => hdrift i (Set.disjoint_left.mp hvolatile hi),
      field_doesAll hvolatile hlater hbetween, field_of_write hwritten hwrite]
  rw [hresult, ← List.cons_append, ← List.append_assoc, List.getLast?_concat]

theorem read_back_threshold :
    wp (sensorBus (registerFile {resultRangeStatus}) fun _ => False).contract
      (runAll ([readReg resultRangeStatus] ++ writeReg16Bit rangeConfigSigmaThresh 360 ::
        ([writeReg sdConfigQuantifier 2] ++ [readReg16Bit rangeConfigSigmaThresh])))
      (fun results _ _ => results.getLast? = some (some 360)) ()
      (⟨true, .idle, false, false⟩, ⟨fun _ => 0, 0, 0⟩) := by
  apply read_back [readReg resultRangeStatus] [writeReg sdConfigQuantifier 2]
    (writeReg16Bit rangeConfigSigmaThresh 360) (readReg16Bit rangeConfigSigmaThresh)
    rfl rfl rfl rfl
  · apply Set.disjoint_singleton_right.mpr
    exact Nat.not_lt_of_le (by decide)
  · intro other hother _
    rw [List.mem_singleton.mp hother]
    apply Set.disjoint_left.mpr
    intro i hi hi'
    change (i - rangeConfigSigmaThresh).toNat < 2 at hi
    change (i - sdConfigQuantifier).toNat < 1 at hi'
    simp only [rangeConfigSigmaThresh, sdConfigQuantifier] at hi hi'
    bv_omega
  · exact ⟨rfl, rfl⟩

end Refinement

end RegisterCall

end KyogenRV.VL53L1X
