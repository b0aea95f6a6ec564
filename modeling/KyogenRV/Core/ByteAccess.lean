import Mathlib.Tactic.IntervalCases
import KyogenRV.Core.Access
import KyogenRV.Core.Release
import KyogenRV.Mem.Bytes

/-!
# Loads and stores as accesses to a byte memory

The four banks of the data memory hold the bytes of a flat memory.  The lanes
that a store drives write the bytes that it names, and the lanes that a load
picks are its bytes.  The data memory answers a load one cycle later, with the
byte enables of that cycle: behind a load that is answered, the next access
must be no store of a part of a word, and no load if the answer is made wait.
-/

namespace KyogenRV

open ScalarOpConstants MemoryOpConstants

/-! ## The banks as bytes -/

namespace Banks

variable (m : Banks)

/-- The byte at an address of the banks. -/
def bytes : ByteMem := fun addr =>
  (m.word (BitVec.ofNat 14 (addr / 4))).extractLsb' (8 * (addr % 4)) 8

/-- The size of the banks in bytes. -/
abbrev size : ℕ := 0x10000

end Banks

/-- The number of bytes that an access names. -/
def accessSize (maskType : BitVec 3) : ℕ :=
  if maskType = mtB ∨ maskType = mtBu then 1
  else if maskType = mtH ∨ maskType = mtHu then 2
  else 4

theorem accessSize_b : accessSize mtB = 1 := rfl
theorem accessSize_bu : accessSize mtBu = 1 := rfl
theorem accessSize_h : accessSize mtH = 2 := rfl
theorem accessSize_hu : accessSize mtHu = 2 := rfl
theorem accessSize_w : accessSize mtW = 4 := rfl

/-- The value of a load: its bytes, sign- or zero-extended. -/
def flatLoad (mem : ByteMem) (maskType : BitVec 3) (addr : Word) : Word :=
  if maskType == mtB then (mem.load addr.toNat 1).signExtend 32
  else if maskType == mtBu then (mem.load addr.toNat 1).setWidth 32
  else if maskType == mtH then (mem.load addr.toNat 2).signExtend 32
  else if maskType == mtHu then (mem.load addr.toNat 2).setWidth 32
  else mem.load addr.toNat 4

/-- The memory after a store. -/
def flatStore (mem : ByteMem) (maskType : BitVec 3) (addr data : Word) : ByteMem :=
  mem.store addr.toNat (accessSize maskType) (data.setWidth (8 * accessSize maskType))

section Lanes

variable {m : Banks} {maskType : BitVec 3} {addr : Word}

/-- The access sizes of the instruction set. -/
def IsSize (maskType : BitVec 3) : Prop :=
  maskType = mtB ∨ maskType = mtBu ∨ maskType = mtH ∨ maskType = mtHu ∨ maskType = mtW

theorem isSize_of_access (inst : Word) (hacc : (idDecode inst).memWr ≠ mX) :
    IsSize (idDecode inst).maskType :=
  idDecode_of_ctrlRows (P := fun ctrl => ctrl.memWr ≠ mX → IsSize ctrl.maskType)
    (by unfold IsSize; decide) inst hacc

theorem toNat_lane (addr : Word) : (addr.extractLsb' 0 2).toNat = addr.toNat % 4 := by
  rw [BitVec.extractLsb'_toNat, Nat.shiftRight_zero]

theorem addrAlign_eq (addr : Word) : Banks.addrAlign addr = BitVec.ofNat 14 (addr.toNat / 4) := by
  apply BitVec.eq_of_toNat_eq
  rw [Banks.addrAlign, BitVec.toNat_setWidth, BitVec.toNat_ushiftRight, BitVec.toNat_ofNat,
    Nat.shiftRight_eq_div_pow]

/-- An aligned access stays within its word. -/
theorem lane_add_size (hsize : IsSize maskType) (haligned : Aligned maskType addr) :
    addr.toNat % 4 + accessSize maskType ≤ 4 := by
  have hlane := toNat_lane addr
  obtain ⟨hword, heven⟩ := haligned
  rcases hsize with rfl | rfl | rfl | rfl | rfl
  · rw [accessSize_b]
    omega
  · rw [accessSize_bu]
    omega
  · rcases lane_of_even (heven (Or.inl rfl)) with h | h <;> rw [h] at hlane <;>
      simp only [accessSize_h, ← hlane] <;> decide
  · rcases lane_of_even (heven (Or.inr rfl)) with h | h <;> rw [h] at hlane <;>
      simp only [accessSize_hu, ← hlane] <;> decide
  · have hzero := hword rfl
    rw [Csr.misaligned, bne_eq_false_iff_eq] at hzero
    rw [hzero] at hlane
    simp only [← hlane]
    decide

/-- Bytes within a word. -/
theorem load_bytes {addr n : ℕ} (hword : addr % 4 + n ≤ 4) :
    m.bytes.load addr n =
      (m.word (BitVec.ofNat 14 (addr / 4))).extractLsb' (8 * (addr % 4)) (8 * n) := by
  refine BitVec.eq_of_getLsbD_eq fun i hi => ?_
  have hdiv : (addr + i / 8) / 4 = addr / 4 := by omega
  have hbit : 8 * ((addr + i / 8) % 4) + i % 8 = 8 * (addr % 4) + i := by omega
  rw [ByteMem.getLsbD_load hi, Banks.bytes, hdiv, BitVec.getLsbD_extractLsb',
    BitVec.getLsbD_extractLsb', hbit, decide_eq_true hi, decide_eq_true (Nat.mod_lt i (by decide))]

/-- The lanes that a load picks are its bytes. -/
theorem loadValue_eq_flatLoad (hsize : IsSize maskType) (haligned : Aligned maskType addr) :
    loadValue maskType addr (m.word (Banks.addrAlign addr)) =
      flatLoad m.bytes maskType addr := by
  have hlane := lane_add_size hsize haligned
  rw [addrAlign_eq, loadValue, toNat_lane]
  simp only [BitVec.setWidth_ushiftRight_eq_extractLsb]
  obtain ⟨hword, _⟩ := haligned
  rcases hsize with rfl | rfl | rfl | rfl | rfl
  · exact congrArg (BitVec.signExtend 32) (load_bytes (n := 1) hlane).symm
  · exact congrArg (BitVec.setWidth 32) (load_bytes (n := 1) hlane).symm
  · exact congrArg (BitVec.signExtend 32) (load_bytes (n := 2) hlane).symm
  · exact congrArg (BitVec.setWidth 32) (load_bytes (n := 2) hlane).symm
  · have hzero : addr.toNat % 4 = 0 := by
      rw [accessSize_w] at hlane
      omega
    have hload := load_bytes (m := m) (n := 4) hlane
    rw [hzero] at hload
    exact (hload.trans BitVec.extractLsb'_eq_self).symm

theorem extractLsb'_word (m : Banks) (index : BitVec 14) :
    (m.word index).extractLsb' 0 8 = m.mem0 index ∧
      (m.word index).extractLsb' 8 8 = m.mem1 index ∧
      (m.word index).extractLsb' 16 8 = m.mem2 index ∧
      (m.word index).extractLsb' 24 8 = m.mem3 index := by
  refine ⟨?_, ?_, ?_, ?_⟩ <;>
    refine BitVec.eq_of_getLsbD_eq fun i hi => ?_ <;>
    simp only [Banks.word, BitVec.getLsbD_extractLsb', BitVec.getLsbD_append, hi, decide_true,
      Bool.true_and] <;>
    interval_cases i <;> rfl

theorem writeBank_apply (bank : BitVec 14 → BitVec 8) (enable : Bool) (index other : BitVec 14)
    (value : BitVec 8) :
    Banks.writeBank bank enable index value other =
      if other = index ∧ enable = true then value else bank other := by
  cases enable with
  | false => simp [Banks.writeBank]
  | true => simp [Banks.writeBank, Function.update_apply]

/-- A write replaces the enabled bytes of the addressed word. -/
theorem bytes_step_of_write {req : MemReq} (hread : Banks.acceptRead req = false)
    (hwrite : Banks.acceptWrite req = true) {byte : ℕ} (hbyte : byte < Banks.size) :
    (m.step req).bytes byte =
      if byte / 4 = req.addr.toNat / 4 ∧ req.byteenable.getLsbD (byte % 4) = true then
        req.data.extractLsb' (8 * (byte % 4)) 8
      else m.bytes byte := by
  have haddr : req.addr.toNat ≤ 0x3000 := by
    rw [Banks.acceptWrite, Bool.and_eq_true, Banks.validAddress, decide_eq_true_eq] at hwrite
    exact hwrite.2
  have hindex : BitVec.ofNat 14 (byte / 4) = Banks.addrAlign req.addr ↔
      byte / 4 = req.addr.toNat / 4 := by
    have hsize : byte < 0x10000 := hbyte
    rw [addrAlign_eq, ← BitVec.toNat_inj, BitVec.toNat_ofNat, BitVec.toNat_ofNat]
    omega
  obtain ⟨h0, h1, h2, h3⟩ := extractLsb'_word m (BitVec.ofNat 14 (byte / 4))
  obtain ⟨h0', h1', h2', h3'⟩ := extractLsb'_word (m.step req) (BitVec.ofNat 14 (byte / 4))
  have hlane : byte % 4 < 4 := Nat.mod_lt _ (by decide)
  simp only [Banks.bytes, ← hindex]
  generalize byte % 4 = lane at hlane
  have hstep : m.step req = { m with
      rAck := false
      wAck := true
      mem3 := Banks.writeBank m.mem3 (req.byteenable.getLsbD 3) (Banks.addrAlign req.addr)
        (req.data.extractLsb' 24 8)
      mem2 := Banks.writeBank m.mem2 (req.byteenable.getLsbD 2) (Banks.addrAlign req.addr)
        (req.data.extractLsb' 16 8)
      mem1 := Banks.writeBank m.mem1 (req.byteenable.getLsbD 1) (Banks.addrAlign req.addr)
        (req.data.extractLsb' 8 8)
      mem0 := Banks.writeBank m.mem0 (req.byteenable.getLsbD 0) (Banks.addrAlign req.addr)
        (req.data.extractLsb' 0 8) } := by
    rw [Banks.step, hread, hwrite, if_neg Bool.false_ne_true, if_pos rfl]
  rw [hstep] at h0' h1' h2' h3' ⊢
  interval_cases lane
  · exact h0'.trans ((writeBank_apply ..).trans (by rw [h0]))
  · exact h1'.trans ((writeBank_apply ..).trans (by rw [h1]))
  · exact h2'.trans ((writeBank_apply ..).trans (by rw [h2]))
  · exact h3'.trans ((writeBank_apply ..).trans (by rw [h3]))

/-- A load depends on the bytes it names only. -/
theorem flatLoad_congr {mem mem' : ByteMem} {size : ℕ} (h : mem.AgreeBelow mem' size)
    (hsize : addr.toNat + 4 ≤ size) : flatLoad mem maskType addr = flatLoad mem' maskType addr := by
  rw [flatLoad, flatLoad, ByteMem.load_congr h (by omega : addr.toNat + 1 ≤ size),
    ByteMem.load_congr h (by omega : addr.toNat + 2 ≤ size), ByteMem.load_congr h hsize]

theorem storeWrite_addr (maskType : BitVec 3) (addr data : Word) :
    (storeWrite maskType addr data).addr = addr := by
  rw [storeWrite]
  split_ifs <;> rfl

/-- The lanes that a store drives are those of its bytes. -/
theorem storeWrite_byteenable (hsize : maskType = mtB ∨ maskType = mtH ∨ maskType = mtW)
    (hlane : addr.toNat % 4 + accessSize maskType ≤ 4) (data : Word) {k : ℕ} (hk : k < 4) :
    (storeWrite maskType addr data).byteenable.getLsbD k =
      decide (addr.toNat % 4 ≤ k ∧ k < addr.toNat % 4 + accessSize maskType) := by
  rw [storeWrite, toNat_lane]
  generalize addr.toNat % 4 = lane at hlane
  rcases hsize with rfl | rfl | rfl
  · rw [accessSize_b] at hlane ⊢
    have hle : lane ≤ 3 := by omega
    change ((1 <<< lane : ℕ) : BitVec 4).getLsbD k = _
    interval_cases lane <;> interval_cases k <;> decide
  · rw [accessSize_h] at hlane ⊢
    have hle : lane ≤ 2 := by omega
    change ((3 <<< lane : ℕ) : BitVec 4).getLsbD k = _
    interval_cases lane <;> interval_cases k <;> decide
  · rw [accessSize_w] at hlane ⊢
    obtain rfl : lane = 0 := by omega
    change (15 : BitVec 4).getLsbD k = _
    interval_cases k <;> decide

/-- Each of its bytes is driven in its lane. -/
theorem storeWrite_data (hsize : maskType = mtB ∨ maskType = mtH ∨ maskType = mtW)
    (hlane : addr.toNat % 4 + accessSize maskType ≤ 4) (data : Word) {k : ℕ} (hk : k < 4)
    (hle : addr.toNat % 4 ≤ k) :
    (storeWrite maskType addr data).data.extractLsb' (8 * k) 8 =
      data.extractLsb' (8 * (k - addr.toNat % 4)) 8 := by
  have hshift : (storeWrite maskType addr data).data = data <<< (8 * (addr.toNat % 4)) := by
    rw [storeWrite, toNat_lane]
    rcases hsize with rfl | rfl | rfl
    · rfl
    · rfl
    · rw [accessSize_w] at hlane
      have hzero : addr.toNat % 4 = 0 := by omega
      rw [hzero]
      exact (BitVec.shiftLeft_zero data).symm
  rw [hshift]
  refine BitVec.eq_of_getLsbD_eq fun i hi => ?_
  have hin : 8 * k + i < 32 := by omega
  have habove : ¬8 * k + i < 8 * (addr.toNat % 4) := by omega
  have hbit : 8 * k + i - 8 * (addr.toNat % 4) = 8 * (k - addr.toNat % 4) + i := by omega
  rw [BitVec.getLsbD_extractLsb', BitVec.getLsbD_extractLsb', BitVec.getLsbD_shiftLeft,
    decide_eq_true hin, decide_eq_false habove, hbit]
  rfl

/-- The bus write of a store writes the bytes that it names. -/
theorem bytes_step_of_store {req : MemReq} {data : Word}
    (hsize : maskType = mtB ∨ maskType = mtH ∨ maskType = mtW)
    (haligned : Aligned maskType addr) (hread : Banks.acceptRead req = false)
    (hwrite : Banks.acceptWrite req = true)
    (hbus : (⟨req.addr, req.byteenable, req.data⟩ : Write) = storeWrite maskType addr data) :
    (m.step req).bytes.AgreeBelow (flatStore m.bytes maskType addr data) Banks.size := by
  intro byte hbyte
  have hany : IsSize maskType := by
    rcases hsize with h | h | h
    · exact Or.inl h
    · exact Or.inr (Or.inr (Or.inl h))
    · exact Or.inr (Or.inr (Or.inr (Or.inr h)))
  have hlane := lane_add_size hany haligned
  have hk : byte % 4 < 4 := Nat.mod_lt _ (by decide)
  have haddr : req.addr = addr := (congrArg Write.addr hbus).trans (storeWrite_addr ..)
  have henable : req.byteenable.getLsbD (byte % 4) =
      decide (addr.toNat % 4 ≤ byte % 4 ∧ byte % 4 < addr.toNat % 4 + accessSize maskType) :=
    (congrArg (fun w => w.byteenable.getLsbD (byte % 4)) hbus).trans
      (storeWrite_byteenable hsize hlane data hk)
  rw [bytes_step_of_write hread hwrite hbyte, haddr, henable, flatStore]
  by_cases hin : addr.toNat ≤ byte ∧ byte < addr.toNat + accessSize maskType
  · have hlow : addr.toNat % 4 ≤ byte % 4 ∧ byte % 4 < addr.toNat % 4 + accessSize maskType := by
      omega
    have hvalue : req.data.extractLsb' (8 * (byte % 4)) 8 =
        data.extractLsb' (8 * (byte % 4 - addr.toNat % 4)) 8 :=
      (congrArg (fun w => w.data.extractLsb' (8 * (byte % 4)) 8) hbus).trans
        (storeWrite_data hsize hlane data hk hlow.1)
    have hoffset : byte % 4 - addr.toNat % 4 = byte - addr.toNat := by omega
    rw [if_pos ⟨by omega, decide_eq_true hlow⟩, hvalue, hoffset, ByteMem.store, if_pos hin]
    refine BitVec.eq_of_getLsbD_eq fun i hi => ?_
    have hbit : 8 * (byte - addr.toNat) + i < 8 * accessSize maskType := by omega
    rw [BitVec.getLsbD_extractLsb', BitVec.getLsbD_extractLsb', BitVec.getLsbD_setWidth,
      decide_eq_true hbit, Bool.true_and]
  · rw [ByteMem.store_of_outside _ (by omega), if_neg]
    rw [decide_eq_true_eq]
    omega

end Lanes

/-! ## The core on a byte memory -/

/-- The simulation top next to a flat memory. -/
structure FlatBus where
  bus : CpuBus
  flat : ByteMem

namespace FlatBus

section Model

variable (f : FlatBus) (sw : TestIf)

/-- The pipeline waits. -/
def waits : Bool := f.bus.cpu.waitrequest (f.bus.hostIf sw)

/-- The flat memory after the store in MEM. -/
def stored : ByteMem :=
  flatStore f.flat f.bus.cpu.mem.ctrl.maskType f.bus.cpu.mem.aluOut f.bus.cpu.mem.rs2

/-- A store that leaves MEM updates the flat memory. -/
def step : FlatBus where
  bus := f.bus.step sw
  flat := if f.bus.cpu.mem.ctrl.memWr == mXwr && !f.waits sw then f.stored else f.flat

/-- The flat memory starts with the bytes of the banks. -/
def start (b : CpuBus) : FlatBus := ⟨b, b.dmem.bytes⟩

/-- A load that leaves WB has written what the flat memory holds, and after the
edge the banks hold its bytes; a store that is still in MEM is in the banks
already. -/
structure Matches : Prop where
  loads : f.bus.cpu.wb.ctrl.memWr = mXrd → f.waits sw = false → f.bus.cpu.wb.regWaddr ≠ 0 →
    (f.step sw).bus.cpu.rv32iReg f.bus.cpu.wb.regWaddr =
      flatLoad f.flat f.bus.cpu.wb.ctrl.maskType f.bus.cpu.wb.aluOut
  banks : (f.step sw).bus.dmem.bytes.AgreeBelow
    (if f.bus.cpu.mem.ctrl.memWr = mXwr then f.stored else f.flat) Banks.size

/-- The access in MEM is one that the data memory accepts. -/
def Accepted : Prop := f.bus.cpu.mem.ctrl.memWr ≠ mX → f.bus.cpu.mem.aluOut ≤ 0x3000

/-- While the load in WB waits no load is in MEM, and when it leaves no store of
a part of a word is. -/
def AnswerKept : Prop :=
  f.bus.cpu.wb.ctrl.memWr = mXrd →
    (f.waits sw = true → f.bus.cpu.mem.ctrl.memWr ≠ mXrd) ∧
    (f.waits sw = false → f.bus.cpu.mem.ctrl.memWr = mXwr → f.bus.cpu.mem.ctrl.maskType = mtW)

/-- The banks hold the flat memory, but for the store in MEM, and an answer to
the load in WB is its word. -/
structure Inv : Prop where
  running : f.bus.Running
  banks : f.bus.dmem.bytes.AgreeBelow f.flat Banks.size ∨
    f.bus.cpu.mem.ctrl.memWr = mXwr ∧ f.bus.dmem.bytes.AgreeBelow f.stored Banks.size
  answer : f.bus.cpu.wb.ctrl.memWr = mXrd → f.bus.dmem.rAck = true →
    f.bus.dmem.rAddr = Banks.addrAlign f.bus.cpu.wb.aluOut ∧
      f.bus.dmem.bytes.AgreeBelow f.flat Banks.size
  range : f.bus.cpu.wb.ctrl.memWr = mXrd → f.bus.cpu.wb.aluOut ≤ 0x3000

end Model

end FlatBus

namespace CpuBus

section Port

variable {b : CpuBus} {sw : TestIf}

theorem store_size (inst : Word) (hstore : (idDecode inst).memWr = mXwr) :
    (idDecode inst).maskType = mtB ∨ (idDecode inst).maskType = mtH ∨
      (idDecode inst).maskType = mtW :=
  idDecode_of_ctrlRows (P := fun ctrl => ctrl.memWr = mXwr →
    ctrl.maskType = mtB ∨ ctrl.maskType = mtH ∨ ctrl.maskType = mtW) (by decide) inst
    hstore

theorem dmem_step : (b.step sw).dmem = b.dmem.step (b.dmemReq sw) := rfl

/-- The data memory takes the read of a load. -/
theorem dmem_of_load (sw : TestIf) (hhalt : b.swHalt = false) (hload : b.cpu.mem.ctrl.memWr = mXrd)
    (haddr : b.cpu.mem.aluOut ≤ 0x3000) :
    (b.step sw).dmem.bytes = b.dmem.bytes ∧ (b.step sw).dmem.rAck = true ∧
      (b.step sw).dmem.rAddr = Banks.addrAlign b.cpu.mem.aluOut := by
  have hreq : b.dmemReq sw =
      ⟨b.cpu.mem.aluOut, true, false, b.cpu.wDmemData (b.hostIf sw), 15⟩ := by
    have hhalt' : (b.hostIf sw).halt = false := hhalt
    simp [dmemReq, KyogenRVCpu.dmemAddr, KyogenRVCpu.rDmemReq, KyogenRVCpu.wDmemReq,
      KyogenRVCpu.wDmemByteenable, hhalt', hload]
  have hread : Banks.acceptRead (b.dmemReq sw) = true := by
    rw [hreq]
    exact decide_eq_true haddr
  rw [dmem_step, Banks.step, hread, if_pos rfl, hreq]
  exact ⟨rfl, rfl, rfl⟩

/-- The data memory takes the write of a store. -/
theorem dmem_of_store (sw : TestIf) (hb : b.Running) (hstore : b.cpu.mem.ctrl.memWr = mXwr)
    (haddr : b.cpu.mem.aluOut ≤ 0x3000) :
    (b.step sw).dmem.rAck = false ∧
      (b.step sw).dmem.bytes.AgreeBelow
        (flatStore b.dmem.bytes b.cpu.mem.ctrl.maskType b.cpu.mem.aluOut b.cpu.mem.rs2)
        Banks.size := by
  have hhalt : (b.hostIf sw).halt = false := hb.swHalt
  have haligned := hb.reachable.accessesAligned.mem (by rw [hstore]; decide)
  have hbus := KyogenRVCpu.busWrite_eq_storeWrite (b.hostIf sw) hhalt hstore haligned
  have haddr' : (b.dmemReq sw).addr = b.cpu.mem.aluOut := by
    simp [dmemReq, KyogenRVCpu.dmemAddr, hhalt]
  have hread : Banks.acceptRead (b.dmemReq sw) = false := by
    simp [Banks.acceptRead, dmemReq, KyogenRVCpu.rDmemReq, hstore]
  have hwrite : Banks.acceptWrite (b.dmemReq sw) = true := by
    rw [Banks.acceptWrite, Banks.validAddress, haddr', decide_eq_true haddr, Bool.and_true]
    simp [dmemReq, KyogenRVCpu.wDmemReq, hhalt, hstore]
  have hsize : b.cpu.mem.ctrl.maskType = mtB ∨ b.cpu.mem.ctrl.maskType = mtH ∨
      b.cpu.mem.ctrl.maskType = mtW := by
    obtain ⟨inst, hctrl, _⟩ := hb.reachable.coherent.mem
    rw [hctrl] at hstore ⊢
    exact store_size inst hstore
  refine ⟨?_, ?_⟩
  · rw [dmem_step, Banks.step, hread, hwrite]
    rfl
  · rw [dmem_step]
    exact bytes_step_of_store hsize haligned hread hwrite hbus

/-- Without an access nothing happens. -/
theorem dmem_of_none (sw : TestIf) (hhalt : b.swHalt = false) (hload : b.cpu.mem.ctrl.memWr ≠ mXrd)
    (hstore : b.cpu.mem.ctrl.memWr ≠ mXwr) :
    (b.step sw).dmem.rAck = false ∧ (b.step sw).dmem.bytes = b.dmem.bytes := by
  have hhalt' : (b.hostIf sw).halt = false := hhalt
  have hread : Banks.acceptRead (b.dmemReq sw) = false := by
    have hreq : (b.dmemReq sw).rReq = (!(b.hostIf sw).halt && b.cpu.mem.ctrl.memWr == mXrd) := rfl
    rw [Banks.acceptRead, hreq, beq_eq_false_iff_ne.mpr hload, Bool.and_false, Bool.false_and]
  have hwrite : Banks.acceptWrite (b.dmemReq sw) = false := by
    have hreq : (b.dmemReq sw).wReq = (b.cpu.mem.ctrl.memWr == mXwr) := if_neg (by simp [hhalt'])
    rw [Banks.acceptWrite, hreq, beq_eq_false_iff_ne.mpr hstore, Bool.false_and]
  rw [dmem_step, Banks.step, hread, hwrite]
  exact ⟨rfl, rfl⟩

end Port

end CpuBus

namespace FlatBus

section Step

variable {f : FlatBus} {sw : TestIf}

/-- The banks after an edge. -/
theorem banks_step (sw : TestIf) (hinv : f.Inv) (haccepted : f.Accepted) :
    (f.step sw).bus.dmem.bytes.AgreeBelow
      (if f.bus.cpu.mem.ctrl.memWr = mXwr then f.stored else f.flat) Banks.size := by
  by_cases hstore : f.bus.cpu.mem.ctrl.memWr = mXwr
  · have hwrite := (CpuBus.dmem_of_store sw hinv.running hstore
      (haccepted (by rw [hstore]; decide))).2
    rw [if_pos hstore]
    refine hwrite.trans ?_
    rcases hinv.banks with hflat | ⟨_, hstored⟩
    · exact hflat.store _
    · have hagain : (flatStore f.bus.dmem.bytes f.bus.cpu.mem.ctrl.maskType
          f.bus.cpu.mem.aluOut f.bus.cpu.mem.rs2).AgreeBelow
          (flatStore f.stored f.bus.cpu.mem.ctrl.maskType f.bus.cpu.mem.aluOut
            f.bus.cpu.mem.rs2) Banks.size := hstored.store _
      rwa [stored, flatStore, flatStore, flatStore, ByteMem.store_idem] at hagain
  · have hflat := hinv.banks.resolve_right fun h => hstore h.1
    rw [if_neg hstore]
    by_cases hload : f.bus.cpu.mem.ctrl.memWr = mXrd
    · have hread := (CpuBus.dmem_of_load sw hinv.running.swHalt hload
        (haccepted (by rw [hload]; decide))).1
      exact hread ▸ hflat
    · have hnone := (CpuBus.dmem_of_none sw hinv.running.swHalt hload hstore).2
      exact hnone ▸ hflat

/-- The step lemma. -/
theorem inv_step (hinv : f.Inv) (hhalt : sw.halt = false) (haccepted : f.Accepted)
    (hkept : f.AnswerKept sw) : (f.step sw).Inv := by
  have hbanks := banks_step sw hinv haccepted
  have hrunning : (f.step sw).bus.Running := CpuBus.running_step hinv.running hhalt
  have hwaits : f.bus.cpu.waitrequest (f.bus.hostIf sw) = f.waits sw := rfl
  cases hwait : f.waits sw with
  | true =>
      obtain ⟨_, hmem, hwb⟩ := KyogenRVCpu.stages_of_wait (hwaits.trans hwait)
      have hmem' : (f.step sw).bus.cpu.mem = f.bus.cpu.mem := hmem
      have hwb' : (f.step sw).bus.cpu.wb = f.bus.cpu.wb := hwb
      have hflat : (f.step sw).flat = f.flat := if_neg (by simp [hwait])
      have hstored : (f.step sw).stored = f.stored := by rw [stored, stored, hmem', hflat]
      refine ⟨hrunning, ?_, ?_, by rw [hwb']; exact hinv.range⟩
      · rw [hmem', hflat, hstored]
        split_ifs at hbanks with hstore
        · exact Or.inr ⟨hstore, hbanks⟩
        · exact Or.inl hbanks
      · rw [hwb']
        intro hload hack
        -- only a read is acknowledged, and no load is in MEM behind the waiting one
        have hnoload := (hkept hload).1 hwait
        by_cases hstore : f.bus.cpu.mem.ctrl.memWr = mXwr
        · have hnoack := (CpuBus.dmem_of_store sw hinv.running hstore
            (haccepted (by rw [hstore]; decide))).1
          exact absurd (hnoack.symm.trans hack) Bool.false_ne_true
        · have hnoack :=
            (CpuBus.dmem_of_none sw hinv.running.swHalt hnoload hstore).1
          exact absurd (hnoack.symm.trans hack) Bool.false_ne_true
  | false =>
      have hwb : (f.step sw).bus.cpu.wb = f.bus.cpu.wbIssue := by
        rw [FlatBus.step, CpuBus.step_cpu, KyogenRVCpu.step_wb, KyogenRVCpu.wbNext, hwaits, hwait]
        rfl
      have hctrl : (f.step sw).bus.cpu.wb.ctrl = f.bus.cpu.mem.ctrl := by rw [hwb]; rfl
      have haddr : (f.step sw).bus.cpu.wb.aluOut = f.bus.cpu.mem.aluOut := by rw [hwb]; rfl
      have hflat : (f.step sw).flat =
          if f.bus.cpu.mem.ctrl.memWr = mXwr then f.stored else f.flat := by
        rw [FlatBus.step, hwait]
        simp only [Bool.not_false, Bool.and_true, beq_iff_eq]
      rw [← hflat] at hbanks
      refine ⟨hrunning, Or.inl hbanks, ?_, ?_⟩
      · rw [hctrl, haddr]
        intro hload _
        refine ⟨?_, hbanks⟩
        exact (CpuBus.dmem_of_load sw hinv.running.swHalt hload
          (haccepted (by rw [hload]; decide))).2.2
      · rw [hctrl, haddr]
        intro hload
        exact haccepted (by rw [hload]; decide)

/-- A load that leaves WB. -/
theorem load_of_inv (hinv : f.Inv) (hkept : f.AnswerKept sw)
    (hload : f.bus.cpu.wb.ctrl.memWr = mXrd) (hwait : f.waits sw = false)
    (hrd : f.bus.cpu.wb.regWaddr ≠ 0) :
    (f.step sw).bus.cpu.rv32iReg f.bus.cpu.wb.regWaddr =
      flatLoad f.flat f.bus.cpu.wb.ctrl.maskType f.bus.cpu.wb.aluOut := by
  have hreach := hinv.running.reachable
  have haligned := hreach.accessesAligned.wb (by rw [hload]; decide)
  have hack : f.bus.dmem.rAck = true := by
    have hwaits : f.bus.cpu.waitrequest (f.bus.hostIf sw) = false := hwait
    rw [KyogenRVCpu.waitrequest, Bool.or_eq_false_iff, KyogenRVCpu.dmemRdWait, hload] at hwaits
    simpa [CpuBus.hostIf] using hwaits.2
  obtain ⟨haddr, hbanks⟩ := hinv.answer hload hack
  have henable : f.bus.cpu.wDmemByteenable = 15 := by
    rw [KyogenRVCpu.wDmemByteenable]
    by_cases hstore : f.bus.cpu.mem.ctrl.memWr = mXwr
    · rw [hstore, (hkept hload).2 hwait hstore]
      rfl
    · rw [if_neg (by simpa using hstore)]
  have hdata : (f.bus.hostIf sw).rDmemData =
      f.bus.dmem.word (Banks.addrAlign f.bus.cpu.wb.aluOut) := by
    have hport : (f.bus.hostIf sw).rDmemData = f.bus.dmem.rData f.bus.cpu.wDmemByteenable := rfl
    rw [hport, henable, Banks.rData, haddr]
    rfl
  have hsize : IsSize f.bus.cpu.wb.ctrl.maskType := by
    obtain ⟨inst, hctrl, _⟩ := hreach.coherent.wb
    rw [hctrl] at hload ⊢
    exact isSize_of_access inst (by rw [hload]; decide)
  have hvalue : (f.step sw).bus.cpu.rv32iReg f.bus.cpu.wb.regWaddr =
      loadValue f.bus.cpu.wb.ctrl.maskType f.bus.cpu.wb.aluOut (f.bus.hostIf sw).rDmemData :=
    KyogenRVCpu.rv32iReg_of_load hreach.coherent hload haligned hrd
  have hrange : f.bus.cpu.wb.aluOut.toNat + 4 ≤ Banks.size := by
    have hle : f.bus.cpu.wb.aluOut.toNat ≤ 0x3000 := hinv.range hload
    have hsize : Banks.size = 0x10000 := rfl
    omega
  rw [hvalue, hdata, loadValue_eq_flatLoad hsize haligned, flatLoad_congr hbanks hrange]

end Step

/-- In every run after release with halt low whose accesses the data memory
accepts, and whose cycles meet `AnswerKept`, loads and stores are those of a flat
byte memory. -/
theorem byte_memory {b : CpuBus} {inputs : List TestIf} (hb : b.Released)
    (hrun : Machine.Along step
      (fun f sw => sw.halt = false ∧ f.Accepted ∧ f.AnswerKept sw) (start b) inputs) :
    Machine.Along step Matches (start b) inputs := by
  have hstart : (start b).Inv := by
    obtain ⟨hidle, hhalt, hreq⟩ := hb.idle
    have hnone : b.cpu.wb.ctrl.memWr ≠ mXrd := by
      rw [hidle.wb.1]
      decide
    exact ⟨⟨hhalt, hreq, hidle.reachable, hidle.boot⟩, Or.inl .refl, fun h => absurd h hnone,
      fun h => absurd h hnone⟩
  refine Machine.along_of_invariant (I := Inv) ?_ ?_ hstart hrun
  · rintro f sw hinv ⟨hhalt, haccepted, hkept⟩
    exact inv_step hinv hhalt haccepted hkept
  · rintro f sw hinv ⟨_, haccepted, hkept⟩
    exact ⟨load_of_inv hinv hkept, banks_step sw hinv haccepted⟩

/-! ### Sample programs -/

/-- `lw x1, 0(x0)` in front of the given instruction, and NOPs. -/
def lwBefore (inst : Word) (index : BitVec 14) : Word :=
  if index = 0 then 0x00002083 else if index = 1 then inst else 0x00000013

/-- A word is copied. -/
theorem byte_memory_sw :
    Machine.Along step Matches (start (CpuBus.loaded (lwBefore 0x00102223)))
      (List.replicate 24 (CpuBus.go false)) :=
  byte_memory (CpuBus.released_loaded _)
    (by unfold Accepted AnswerKept; decide +kernel)

/-- With the store of a byte behind it, the load leaves 0 in x1 although the
word at 0 is the load itself. -/
theorem load_behind_sb :
    ¬∀ (b : CpuBus) (inputs : List TestIf), b.Released →
      Machine.Along step (fun f sw => sw.halt = false ∧ f.Accepted) (start b) inputs →
      Machine.Along step Matches (start b) inputs := by
  intro h
  have hmatches := h (CpuBus.loaded (lwBefore 0x00200223))
    (List.replicate 14 (CpuBus.go false) ++ [CpuBus.go false]) (CpuBus.released_loaded _)
    (by unfold Accepted; decide +kernel)
  have hload := (Machine.along_append.mp hmatches).2.1.loads (by decide +kernel)
    (by decide +kernel) (by decide +kernel)
  revert hload
  decide +kernel

end FlatBus

end KyogenRV
