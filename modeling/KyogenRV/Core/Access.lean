import KyogenRV.Core.Pipeline

/-!
# Alignment of data accesses

A load or store whose address is not aligned to its size traps in EX.  Beyond
EX every access is aligned, and the byte lanes that the core picks and drives
are those of the address.
-/

namespace KyogenRV

open ScalarOpConstants MemoryOpConstants

/-- Naturally aligned for the access size. -/
def Aligned (maskType : BitVec 3) (addr : Word) : Prop :=
  (maskType = mtW → Csr.misaligned addr = false) ∧
    (maskType = mtH ∨ maskType = mtHu → addr.getLsbD 0 = false)

/-- The value a load extracts from the addressed word. -/
def loadValue (maskType : BitVec 3) (addr data : Word) : Word :=
  let lane := data >>> (8 * (addr.extractLsb' 0 2).toNat)
  if maskType == mtB then (lane.setWidth 8).signExtend 32
  else if maskType == mtBu then (lane.setWidth 8).setWidth 32
  else if maskType == mtH then (lane.setWidth 16).signExtend 32
  else if maskType == mtHu then (lane.setWidth 16).setWidth 32
  else data

/-- A write on the data bus. -/
structure Write where
  addr : Word
  byteenable : BitVec 4
  data : Word
  deriving DecidableEq

/-- The bus write of a store: one enable for each byte stored, and the data
shifted to its lane. -/
def storeWrite (maskType : BitVec 3) (addr data : Word) : Write :=
  let lane := (addr.extractLsb' 0 2).toNat
  if maskType == mtB then ⟨addr, 0b0001 <<< lane, data <<< (8 * lane)⟩
  else if maskType == mtH then ⟨addr, 0b0011 <<< lane, data <<< (8 * lane)⟩
  else ⟨addr, 0b1111, data⟩

theorem lane_of_even {addr : Word} (heven : addr.getLsbD 0 = false) :
    addr.extractLsb' 0 2 = 0 ∨ addr.extractLsb' 0 2 = 2 := by
  have hbit : (addr.extractLsb' 0 2).getLsbD 0 = false := by simpa using heven
  generalize addr.extractLsb' 0 2 = lane at *
  revert lane
  decide

namespace KyogenRVCpu

/-! ## Accesses beyond EX are aligned -/

/-- Accesses in MEM and WB have passed the alignment check in EX. -/
structure AccessesAligned (s : KyogenRVCpu) : Prop where
  mem : s.mem.ctrl.memWr ≠ mX → Aligned s.mem.ctrl.maskType s.mem.aluOut
  wb : s.wb.ctrl.memWr ≠ mX → Aligned s.wb.ctrl.maskType s.wb.aluOut

section Aligned

variable {s : KyogenRVCpu} {io : HostIf}

/-- An access is a load or a store, no store extends its data, and the address
is a sum. -/
theorem access_ctrl (inst : Word) (hacc : (idDecode inst).memWr ≠ mX) :
    ((idDecode inst).memWr = mXrd ∨
      (idDecode inst).memWr = mXwr ∧ (idDecode inst).maskType ≠ mtHu) ∧
    (idDecode inst).aluFunc = ALU.aluAdd :=
  idDecode_of_ctrlRows (P := fun ctrl => ctrl.memWr ≠ mX →
    (ctrl.memWr = mXrd ∨ ctrl.memWr = mXwr ∧ ctrl.maskType ≠ mtHu) ∧
      ctrl.aluFunc = ALU.aluAdd) (by decide) inst hacc

/-- Loads write the extended data to `rd`. -/
theorem load_ctrl (inst : Word) (hload : (idDecode inst).memWr = mXrd) :
    (idDecode inst).rfWen = true ∧ (idDecode inst).wbSel = wbMem :=
  idDecode_of_ctrlRows (P := fun ctrl =>
    ctrl.memWr = mXrd → ctrl.rfWen = true ∧ ctrl.wbSel = wbMem) (by decide) inst hload

/-- The alignment checks of EX are those of the access size. -/
theorem aligned_iff (hex : s.ex.Coherent) (hacc : s.ex.ctrl.memWr ≠ mX) :
    Aligned s.ex.ctrl.maskType (s.aluOut io) ↔
      Csr.laddrInvalid (s.csrPorts io) = false ∧ Csr.saddrInvalid (s.csrPorts io) = false := by
  obtain ⟨hkind, hadd⟩ := access_ctrl s.ex.inst (by rw [← hex.ctrl]; exact hacc)
  rw [← hex.ctrl] at hkind hadd
  have haddr : s.aluOut io = Csr.aluCalcAddr (s.csrPorts io) := by
    rw [aluOut, hadd, ALU.out_add]
    rfl
  have hmemWr : (s.csrPorts io).memWr = s.ex.ctrl.memWr := rfl
  have hmask : (s.csrPorts io).maskType = s.ex.ctrl.maskType := rfl
  rw [haddr, Aligned, Csr.laddrInvalid, Csr.saddrInvalid, hmemWr, hmask]
  generalize Csr.misaligned (Csr.aluCalcAddr (s.csrPorts io)) = word at *
  generalize (Csr.aluCalcAddr (s.csrPorts io)).getLsbD 0 = odd at *
  generalize s.ex.ctrl.memWr = memWr at *
  generalize s.ex.ctrl.maskType = maskType at *
  clear hmemWr hmask haddr hadd hacc
  revert memWr maskType word odd
  decide

/-- An access in EX without an exception is aligned. -/
theorem aligned_of_not_expt (hex : s.ex.Coherent) (hexpt : s.expt io = false)
    (hacc : s.ex.ctrl.memWr ≠ mX) : Aligned s.ex.ctrl.maskType (s.aluOut io) := by
  simp only [expt, Csr.expt, Bool.or_eq_false_iff] at hexpt
  exact (aligned_iff hex hacc).mpr ⟨hexpt.1.2, hexpt.2⟩

theorem accessesAligned_reset (hs : s.IsReset) : s.AccessesAligned := by
  obtain ⟨_, _, _, _, _, _, _, rfl⟩ := hs
  exact ⟨fun h => absurd nop_noAccess h, fun h => absurd nop_noAccess h⟩

theorem accessesAligned_step (hs : s.AccessesAligned) (hco : s.Coherent) (io : HostIf) :
    (s.step io).AccessesAligned := by
  have hissue (hkill : s.instKill io = false) (hacc : (s.memIssue io).ctrl.memWr ≠ mX) :
      Aligned (s.memIssue io).ctrl.maskType (s.memIssue io).aluOut := by
    simp only [instKill, Bool.or_eq_false_iff] at hkill
    exact aligned_of_not_expt hco.ex hkill.2 hacc
  constructor
  · exact mem_step_forall
      (P := fun mem => mem.ctrl.memWr ≠ mX → Aligned mem.ctrl.maskType mem.aluOut)
      (fun h => absurd nop_noAccess h) hissue hs.mem
  · exact wb_step_forall
      (P := fun wb => wb.ctrl.memWr ≠ mX → Aligned wb.ctrl.maskType wb.aluOut) hs.mem hs.wb

theorem Reachable.accessesAligned (hs : s.Reachable) : s.AccessesAligned :=
  (Machine.Reachable.invariant (I := fun s => s.Coherent ∧ s.AccessesAligned)
    (fun _ h => ⟨coherent_reset h, accessesAligned_reset h⟩)
    (fun _ io h => ⟨coherent_step h.1 io, accessesAligned_step h.2 h.1 io⟩) hs).2

end Aligned

/-! ## Byte lanes -/

section Lanes

variable {s : KyogenRVCpu} {io : HostIf}

/-- The byte lanes that the write-back stage picks are those of the address. -/
theorem dmemData_eq_loadValue (hload : s.wb.ctrl.memWr = mXrd)
    (haligned : Aligned s.wb.ctrl.maskType s.wb.aluOut) :
    s.dmemData io = loadValue s.wb.ctrl.maskType s.wb.aluOut io.rDmemData := by
  simp only [dmemData, loadValue, BitVec.setWidth_ushiftRight_eq_extractLsb, hload,
    beq_self_eq_true, if_true]
  by_cases hb : s.wb.ctrl.maskType = mtB
  · simp [hb]
  by_cases hbu : s.wb.ctrl.maskType = mtBu
  · simp [hbu]
  by_cases hh : s.wb.ctrl.maskType = mtH
  · rcases lane_of_even (haligned.2 (Or.inl hh)) with hlane | hlane <;> simp [hh, hlane]
  by_cases hhu : s.wb.ctrl.maskType = mtHu
  · rcases lane_of_even (haligned.2 (Or.inr hhu)) with hlane | hlane <;> simp [hhu, hlane]
  simp only [beq_eq_false_iff_ne.mpr hb, beq_eq_false_iff_ne.mpr hbu,
    beq_eq_false_iff_ne.mpr hh, beq_eq_false_iff_ne.mpr hhu, Bool.false_eq_true, if_false]

/-- A load that leaves WB leaves its data in `rd`. -/
theorem rv32iReg_of_load (hco : s.Coherent) (hload : s.wb.ctrl.memWr = mXrd)
    (haligned : Aligned s.wb.ctrl.maskType s.wb.aluOut) (hrd : s.wb.regWaddr ≠ 0) :
    (s.step io).rv32iReg s.wb.regWaddr =
      loadValue s.wb.ctrl.maskType s.wb.aluOut io.rDmemData := by
  obtain ⟨inst, hctrl, _⟩ := hco.wb
  obtain ⟨hwen, hsel⟩ := load_ctrl inst (by rw [← hctrl]; exact hload)
  rw [← hctrl] at hwen hsel
  rw [step_rv32iReg, rv32iRegNext, ← dmemData_eq_loadValue hload haligned,
    if_pos (by rw [hwen, Bool.true_and]; exact bne_iff_ne.mpr hrd), Function.update_self]
  simp [rfWdata, hsel]

/-- The write that the core drives onto the data bus. -/
def busWrite (s : KyogenRVCpu) (io : HostIf) : Write :=
  ⟨s.dmemAddr io, s.wDmemByteenable, s.wDmemData io⟩

/-- The byte lanes that the memory stage drives are those of the address. -/
theorem busWrite_eq_storeWrite (io : HostIf) (hhalt : io.halt = false)
    (hstore : s.mem.ctrl.memWr = mXwr) (haligned : Aligned s.mem.ctrl.maskType s.mem.aluOut) :
    s.busWrite io = storeWrite s.mem.ctrl.maskType s.mem.aluOut s.mem.rs2 := by
  simp only [busWrite, storeWrite, dmemAddr, hhalt, Bool.false_eq_true, if_false,
    wDmemByteenable, wDmemData, memLane, hstore, beq_self_eq_true, if_true]
  by_cases hb : s.mem.ctrl.maskType = mtB
  · simp [hb]
  by_cases hh : s.mem.ctrl.maskType = mtH
  · rcases lane_of_even (haligned.2 (Or.inl hh)) with hlane | hlane <;> simp [hh, hlane]
  simp only [beq_eq_false_iff_ne.mpr hb, beq_eq_false_iff_ne.mpr hh, Bool.false_eq_true,
    if_false]

end Lanes

/-! ## Nothing misaligned is on the bus -/

/-- The access in MEM, the requests it makes and the lanes of halfwords in MEM
and WB. -/
structure BusAligned (s : KyogenRVCpu) (io : HostIf) : Prop where
  mem : s.mem.ctrl.memWr = mXrd ∨ s.mem.ctrl.memWr = mXwr →
    (s.mem.ctrl.maskType = mtW → s.mem.aluOut.extractLsb' 0 2 = 0) ∧
      (s.mem.ctrl.maskType = mtH ∨ s.mem.ctrl.maskType = mtHu → s.mem.aluOut.getLsbD 0 = false)
  request : s.rDmemReq io = true ∨ s.wDmemReq io = true →
    Aligned s.mem.ctrl.maskType (s.dmemAddr io)
  storeLane : s.mem.ctrl.memWr = mXwr → s.mem.ctrl.maskType = mtH →
    s.memLane = 0 ∨ s.memLane = 2
  loadLane : s.wb.ctrl.memWr = mXrd → s.wb.ctrl.maskType = mtH ∨ s.wb.ctrl.maskType = mtHu →
    s.wb.aluOut.extractLsb' 0 2 = 0 ∨ s.wb.aluOut.extractLsb' 0 2 = 2

section Bus

variable {s : KyogenRVCpu} {io : HostIf}

/-- With halt low only an access in MEM requests the data bus. -/
theorem access_of_request (hhalt : io.halt = false)
    (hreq : s.rDmemReq io = true ∨ s.wDmemReq io = true) : s.mem.ctrl.memWr ≠ mX := by
  rw [rDmemReq, wDmemReq, hhalt, if_neg Bool.false_ne_true, Bool.not_false, Bool.true_and,
    beq_iff_eq, beq_iff_eq] at hreq
  rcases hreq with hread | hwrite
  · rw [hread]
    decide
  · rw [hwrite]
    decide

/-- No misaligned access ever reaches the data bus. -/
theorem busAligned (hs : s.Reachable) (hhalt : io.halt = false) : s.BusAligned io where
  mem := by
    intro hacc
    have hne : s.mem.ctrl.memWr ≠ mX := by
      rcases hacc with hread | hwrite
      · rw [hread]
        decide
      · rw [hwrite]
        decide
    obtain ⟨hword, hhalf⟩ := hs.accessesAligned.mem hne
    exact ⟨fun hw => bne_eq_false_iff_eq.mp (hword hw), hhalf⟩
  request := by
    intro hreq
    rw [dmemAddr, hhalt, if_neg Bool.false_ne_true]
    exact hs.accessesAligned.mem (access_of_request hhalt hreq)
  storeLane := by
    intro hstore hhalf
    have haligned := hs.accessesAligned.mem (by rw [hstore]; decide)
    exact lane_of_even (haligned.2 (Or.inl hhalf))
  loadLane := by
    intro hload hhalf
    have haligned := hs.accessesAligned.wb (by rw [hload]; decide)
    exact lane_of_even (haligned.2 hhalf)

/-- `sh x0, 2(x0)` is in MEM on the upper lane; `sh x0, 1(x0)` does not get there. -/
theorem busAligned_sh :
    (sample [.fetch 0x00001123, .fetch 0x00000013, .idle]).BusAligned .idle ∧
      (sample [.fetch 0x00001123, .fetch 0x00000013, .idle]).memLane = 2 ∧
      (sample [.fetch 0x000010a3, .fetch 0x00000013, .idle]).mem = .bubble :=
  ⟨busAligned (reachable_sample _) rfl, by decide +kernel, by decide +kernel⟩

end Bus

end KyogenRVCpu

end KyogenRV
