import KyogenRV.Core.Csr
import KyogenRV.Machine

/-!
# The pipeline

`KyogenRVCpu`: its registers, the combinational signals of one clock cycle and
the state after the clock edge.  Registers are grouped by stage; each signal
and each next-state function has the name it has in `core.scala`.

Registers that nothing reads (`r_req`, `w_ack`, `mem_csr_addr`, `wb_csr_addr`,
`wb_dmem_read_ack`) are left out.  `RegNext` of a constant is that constant,
and `RegNext` of `imem_read_sig` is a register of its own that no `when`
guards.  Signals that the source leaves undriven take the value the generated
Verilog gives them.
-/

namespace KyogenRV

open ScalarOpConstants MemoryOpConstants

/-- An instruction word with the pc it was fetched from. -/
structure Slot where
  pc : Word
  npc : Word
  inst : Word
  deriving DecidableEq

/-- The empty slot: `inst_nop` at `pc_ini`. -/
def Slot.bubble : Slot := ⟨pcStart, pcStart + 4, Instructions.nop⟩

def idDecode (inst : Word) : IntCtrlSigs := .decode inst IDecode.table

/-- `nop_ctrl`. -/
def nopCtrl : IntCtrlSigs := idDecode Instructions.nop

structure ExStage where
  pc : Word
  npc : Word
  inst : Word
  ctrl : IntCtrlSigs
  regRaddr1 : BitVec 5
  regRaddr2 : BitVec 5
  regWaddr : BitVec 5
  rs1 : Word
  rs2 : Word
  csrAddr : BitVec 12
  csrCmd : BitVec 3
  bCheck : Bool
  jCheck : Bool
  deriving DecidableEq

def ExStage.bubble : ExStage where
  pc := pcStart
  npc := pcStart + 4
  inst := Instructions.nop
  ctrl := nopCtrl
  regRaddr1 := 0
  regRaddr2 := 0
  regWaddr := 0
  rs1 := 0
  rs2 := 0
  csrAddr := 0
  csrCmd := 0
  bCheck := false
  jCheck := false

structure MemStage where
  pc : Word
  npc : Word
  ctrl : IntCtrlSigs
  regWaddr : BitVec 5
  imm : Word
  rs1 : Word
  rs2 : Word
  aluOut : Word
  aluCmpOut : Bool
  csrData : Word
  deriving DecidableEq

def MemStage.bubble : MemStage where
  pc := pcStart
  npc := pcStart + 4
  ctrl := nopCtrl
  regWaddr := 0
  imm := 0
  rs1 := 0
  rs2 := 0
  aluOut := 0
  aluCmpOut := false
  csrData := 0

structure WbStage where
  npc : Word
  ctrl : IntCtrlSigs
  regWaddr : BitVec 5
  aluOut : Word
  csrData : Word
  deriving DecidableEq

def WbStage.bubble : WbStage where
  npc := pcStart + 4
  ctrl := nopCtrl
  regWaddr := 0
  aluOut := 0
  csrData := 0

/-- The core's inputs in one clock cycle. -/
structure HostIf where
  rImemAck : Bool
  rImemData : Word
  rDmemAck : Bool
  rDmemData : Word
  halt : Bool
  wAdd : Word
  wDat : Word
  wPc : Word
  wInterruptSig : Bool
  wWaitrequestSig : Bool
  wDatawaitreqSig : Bool

/-- A cycle in which nothing answers and nothing waits. -/
def HostIf.idle : HostIf where
  rImemAck := false
  rImemData := 0
  rDmemAck := false
  rDmemData := 0
  halt := false
  wAdd := 0
  wDat := 0
  wPc := 0
  wInterruptSig := false
  wWaitrequestSig := false
  wDatawaitreqSig := false

/-- A cycle in which the instruction port answers with `inst`. -/
def HostIf.fetch (inst : Word) : HostIf :=
  { HostIf.idle with rImemAck := true, rImemData := inst }

/-- The registers of the core. -/
structure KyogenRVCpu where
  ifPc : Word
  ifNpc : Word
  id : Slot
  idTemp : Slot
  id2Temp : Slot
  tempLock : Bool
  ex : ExStage
  mem : MemStage
  wb : WbStage
  pcCntr : Word
  wReq : Bool
  wAddr : Word
  wData : Word
  imemReadSig : Bool
  imemReadSigFetch : Bool -- RegNext(imem_read_sig) of the fetch branch
  imemReadSigKill : Bool -- RegNext(imem_read_sig) of the kill branch
  delayStall : BitVec 4
  validImem : Bool
  imemReq : Bool
  inLoadstore : Bool
  rv32iReg : BitVec 5 → Word
  interruptSig : Bool
  csr : Csr

namespace KyogenRVCpu

/-- The registers after reset; those without a reset value are given. -/
def reset (csr : Csr) (readSigFetch readSigKill : Bool) : KyogenRVCpu where
  ifPc := pcStart
  ifNpc := pcStart + 4
  id := .bubble
  idTemp := .bubble
  id2Temp := .bubble
  tempLock := false
  ex := .bubble
  mem := .bubble
  wb := .bubble
  pcCntr := 0
  wReq := true
  wAddr := 0
  wData := 0
  imemReadSig := false
  imemReadSigFetch := readSigFetch
  imemReadSigKill := readSigKill
  delayStall := 0
  validImem := true
  imemReq := false
  inLoadstore := false
  rv32iReg := fun _ => 0
  interruptSig := false
  csr := csr

/-- The core is in a state that reset can leave it in. -/
def IsReset (s : KyogenRVCpu) : Prop :=
  ∃ mtimecmp mscratch mepc mcause mfromhost readSigFetch readSigKill,
    s = reset (.reset mtimecmp mscratch mepc mcause mfromhost) readSigFetch readSigKill

/-! ## Signals -/

section Signals

variable (s : KyogenRVCpu) (io : HostIf)

def dmemRdWait : Bool := s.wb.ctrl.memWr == mXrd && !io.rDmemAck

def waitrequest : Bool :=
  io.wWaitrequestSig || io.wDatawaitreqSig || s.dmemRdWait io

def loadstoreInPipe : Bool := s.ex.ctrl.memWr != mX || s.mem.ctrl.memWr != mX
def loadstoreProc : Bool := s.mem.ctrl.memWr != mX || s.wb.ctrl.memWr != mX

def validIdInst : Bool := s.validImem && io.rImemAck

/-! ### Decode -/

def idCtrl : IntCtrlSigs := idDecode s.id.inst
def idRaddr1 : BitVec 5 := IDModule.rs1 s.id.inst
def idRaddr2 : BitVec 5 := IDModule.rs2 s.id.inst

/-- `Mux(raddr === 0.U, 0.U, rv32i_reg(raddr))`. -/
def readReg (raddr : BitVec 5) : Word := if raddr == 0 then 0 else s.rv32iReg raddr

/-! ### Execute -/

/-- The forwarding multiplexer of one source operand. -/
def exRegBypass (raddr : BitVec 5) (rs : Word) : Word :=
  muxCase rs [
    (raddr != 0 && raddr == s.mem.regWaddr && s.mem.ctrl.csrCmd != CSR.n, s.mem.csrData),
    (raddr != 0 && raddr == s.mem.regWaddr && s.mem.ctrl.rfWen, s.mem.aluOut),
    (raddr != 0 && raddr == s.wb.regWaddr && s.wb.ctrl.rfWen && s.wb.ctrl.memEn &&
      s.wb.ctrl.csrCmd == CSR.n, io.rDmemData),
    (raddr != 0 && raddr == s.wb.regWaddr && s.wb.ctrl.rfWen && !s.wb.ctrl.memEn &&
      s.wb.ctrl.csrCmd == CSR.n, s.wb.aluOut),
    (raddr != 0 && raddr == s.wb.regWaddr && s.wb.ctrl.rfWen &&
      s.wb.ctrl.csrCmd != CSR.n, s.wb.csrData)]

def exRegRs1Bypass : Word := s.exRegBypass io s.ex.regRaddr1 s.ex.rs1
def exRegRs2Bypass : Word := s.exRegBypass io s.ex.regRaddr2 s.ex.rs2

def exImm : Word := ImmGen.apply s.ex.ctrl.immType s.ex.inst

def exOp1 : Word :=
  muxCase 0 [
    (s.ex.ctrl.aluOp1 == op1Rs1, s.exRegRs1Bypass io),
    (s.ex.ctrl.aluOp1 == op1Pc, s.ex.pc),
    (s.ex.ctrl.aluOp1 == op1X, 0)]

def exOp2 : Word :=
  muxCase 0 [
    (s.ex.ctrl.aluOp2 == op2Rs2, s.exRegRs2Bypass io),
    (s.ex.ctrl.aluOp2 == op2Imm, s.exImm),
    (s.ex.ctrl.aluOp2 == op2X, 0)]

def aluOut : Word := ALU.out s.ex.ctrl.aluFunc (s.exOp1 io) (s.exOp2 io)
def aluCmpOut : Bool := ALU.cmpOut s.ex.ctrl.aluFunc (s.exOp1 io) (s.exOp2 io)

def csrIn : Word :=
  if s.ex.ctrl.immType == immZ then s.exImm
  else if s.ex.regRaddr1 == s.mem.regWaddr then
    if s.mem.ctrl.csrCmd != CSR.n then s.mem.csrData else s.mem.aluOut
  else if s.ex.regRaddr1 == s.wb.regWaddr then
    if s.wb.ctrl.csrCmd != CSR.n then s.wb.csrData else s.wb.aluOut
  else s.exRegRs1Bypass io

/-! ### Memory access -/

def instKillBranch : Bool :=
  decide (s.mem.ctrl.brType > 3) && s.mem.aluCmpOut || s.mem.ctrl.brType == brJr ||
    s.mem.ctrl.brType == brJ || s.mem.ctrl.brType == brRet

def pcInvalid : Bool := s.instKillBranch || s.ex.pc == pcStart

def csrPorts : CsrIO where
  addr := s.ex.csrAddr
  csrIn := s.csrIn io
  cmd := s.ex.csrCmd
  rs1Addr := IDModule.rs1 s.ex.inst
  legal := s.ex.ctrl.legal
  interruptSig := s.interruptSig
  pc := s.ex.pc
  pcInvalid := s.pcInvalid
  jCheck := s.ex.jCheck
  bCheck := s.ex.bCheck
  inst := s.ex.inst
  memWr := s.ex.ctrl.memWr
  maskType := s.ex.ctrl.maskType
  aluOp1 := s.exOp1 io
  aluOp2 := s.exOp2 io

/-- `csr.io.expt`. -/
def expt : Bool := s.csr.expt (s.csrPorts io)

def instKill : Bool := s.instKillBranch || s.expt io

def stall : Bool :=
  (s.ex.regWaddr == s.idRaddr1 || s.ex.regWaddr == s.idRaddr2) &&
      (s.mem.ctrl.memWr == mXrd || s.ex.ctrl.memWr == mXrd) && !s.instKill io ||
    (s.idRaddr1 != 0 && s.idRaddr1 == s.wb.regWaddr) && !s.instKill io ||
    (s.idRaddr2 != 0 && s.idRaddr2 == s.wb.regWaddr) && !s.instKill io ||
    (s.idCtrl.brType != brN && s.ex.ctrl.brType != brN) && !s.instKill io ||
    (s.ex.ctrl.memWr != mX || s.mem.ctrl.memWr != mX) && s.idCtrl.brType != brN &&
      !s.instKill io ||
    s.delayStall != 7

/-! ### Write back -/

/-- The addressed part of the data bus word, sign- or zero-extended. -/
def dmemData : Word :=
  if s.wb.ctrl.memWr == mXrd then
    if s.wb.ctrl.maskType == mtB then
      (io.rDmemData.extractLsb' (8 * (s.wb.aluOut.extractLsb' 0 2).toNat) 8).signExtend 32
    else if s.wb.ctrl.maskType == mtBu then
      (io.rDmemData.extractLsb' (8 * (s.wb.aluOut.extractLsb' 0 2).toNat) 8).setWidth 32
    else if s.wb.ctrl.maskType == mtH then
      if s.wb.aluOut.extractLsb' 0 2 == 0 then (io.rDmemData.extractLsb' 0 16).signExtend 32
      else if s.wb.aluOut.extractLsb' 0 2 == 2 then
        (io.rDmemData.extractLsb' 16 16).signExtend 32
      else 0
    else if s.wb.ctrl.maskType == mtHu then
      if s.wb.aluOut.extractLsb' 0 2 == 0 then (io.rDmemData.extractLsb' 0 16).setWidth 32
      else if s.wb.aluOut.extractLsb' 0 2 == 2 then (io.rDmemData.extractLsb' 16 16).setWidth 32
      else 0
    else io.rDmemData
  else io.rDmemData

def rfWdata : Word :=
  muxCase s.wb.aluOut [
    (s.wb.ctrl.wbSel == wbAlu, s.wb.aluOut),
    (s.wb.ctrl.wbSel == wbPc4, s.wb.npc),
    (s.wb.ctrl.wbSel == wbCsr, s.wb.csrData),
    (s.wb.ctrl.wbSel == wbMem, s.dmemData io)]

end Signals

/-! ## Bus outputs -/

section Outputs

variable (s : KyogenRVCpu) (io : HostIf)

def imemAddr : Word := if s.wReq then s.wAddr else s.pcCntr

def dmemAddr : Word := if io.halt then io.wAdd else s.mem.aluOut
def rDmemReq : Bool := !io.halt && s.mem.ctrl.memWr == mXrd
def wDmemReq : Bool := if io.halt then true else s.mem.ctrl.memWr == mXwr

def memLane : BitVec 2 := s.mem.aluOut.extractLsb' 0 2

def wDmemByteenable : BitVec 4 :=
  if s.mem.ctrl.memWr == mXwr then
    if s.mem.ctrl.maskType == mtB then 1 <<< s.memLane.toNat
    else if s.mem.ctrl.maskType == mtH then if s.memLane == 0 then 0b0011 else 0b1100
    else 0b1111
  else 0b1111

def wDmemData : Word :=
  if s.mem.ctrl.memWr == mXwr then
    if s.mem.ctrl.maskType == mtB then s.mem.rs2 <<< (8 * s.memLane.toNat)
    else if s.mem.ctrl.maskType == mtH then
      if s.memLane == 0 then s.mem.rs2
      else if s.memLane == 2 then s.mem.rs2 <<< 16
      else io.wDat
    else s.mem.rs2
  else io.wDat

end Outputs

/-! ## The clock edge -/

section Edge

variable (s : KyogenRVCpu) (io : HostIf)

/-- The word on the instruction port with the pc of the fetch stage. -/
def fetched : Slot := ⟨s.ifPc, s.ifNpc, io.rImemData⟩

/-- The instruction put back from the save registers.  When both saved pcs
coincide the first one is taken to be one word further. -/
def restored : Slot :=
  if s.id2Temp.pc == s.idTemp.pc && s.idTemp.pc != pcStart then
    ⟨s.idTemp.pc + 4, s.idTemp.npc + 4, s.idTemp.inst⟩
  else s.idTemp

/-- The registers that the IF stage assigns. -/
structure IfStage where
  ifPc : Word
  ifNpc : Word
  imemReq : Bool
  validImem : Bool

def ifStage : IfStage :=
  if !s.stall io && !s.instKill io && !s.waitrequest io && !s.loadstoreInPipe then
    ⟨s.pcCntr, s.pcCntr + 4, s.imemReadSigFetch, true⟩
  else if s.instKill io && !s.waitrequest io then
    ⟨pcStart, pcStart + 4, s.imemReadSigKill, false⟩
  else
    ⟨s.ifPc, s.ifNpc, if s.loadstoreInPipe then false else s.imemReq, false⟩

/-- The registers that the ID stage assigns. -/
structure IdStage where
  id : Slot
  idTemp : Slot
  id2Temp : Slot
  tempLock : Bool

/-- The save block of a data access, ahead of the main `when` chain. -/
def idSave : IdStage :=
  if !s.instKill io && !s.imemReq && io.rImemAck && !s.tempLock then
    ⟨.bubble, s.fetched io, s.id, true⟩
  else
    ⟨s.id, s.idTemp, s.id2Temp, s.tempLock && !(s.imemReq && io.rImemAck)⟩

def idStage : IdStage :=
  if (s.stall io || s.waitrequest io) && !s.instKill io && s.validIdInst io && s.imemReq &&
      !s.tempLock then
    { s.idSave io with tempLock := true, idTemp := s.fetched io, id2Temp := s.id }
  else if s.validIdInst io && !s.stall io && !s.waitrequest io && !s.instKill io &&
      s.imemReq then
    { s.idSave io with id := s.fetched io }
  else if s.instKill io && !s.waitrequest io && s.imemReq then
    { s.idSave io with id := .bubble, idTemp := .bubble, id2Temp := .bubble }
  else if !s.instKill io && !s.stall io && !s.validIdInst io && s.imemReq then
    if s.inLoadstore then { s.idSave io with id := s.id2Temp, tempLock := false }
    else if !s.waitrequest io then
      { s.idSave io with id := s.restored, idTemp := .bubble, id2Temp := .bubble }
    else s.idSave io
  else
    { s.idSave io with id := s.id } -- undoes the bubble of the save block

def inLoadstoreNext : Bool :=
  if s.mem.ctrl.memWr != mX then true
  else if s.imemReq then false
  else s.inLoadstore

/-- EX takes the decoded instruction of ID. -/
def exIssue : ExStage where
  pc := s.id.pc
  npc := s.id.npc
  inst := s.id.inst
  ctrl := s.idCtrl
  regRaddr1 := s.idRaddr1
  regRaddr2 := s.idRaddr2
  regWaddr := IDModule.rd s.id.inst
  rs1 := s.readReg s.idRaddr1
  rs2 := s.readReg s.idRaddr2
  csrAddr := IDModule.csr s.id.inst
  csrCmd := s.idCtrl.csrCmd
  bCheck := decide (s.idCtrl.brType > 3)
  jCheck := s.idCtrl.brType == brJ || s.idCtrl.brType == brJr

def exNext : ExStage :=
  if !s.stall io && !s.instKill io && !s.waitrequest io && !s.loadstoreProc &&
      !s.inLoadstore then s.exIssue
  else if (s.stall io || s.instKill io || s.loadstoreProc || s.inLoadstore) &&
      !s.waitrequest io then .bubble
  else s.ex

/-- MEM takes the results of EX. -/
def memIssue : MemStage where
  pc := s.ex.pc
  npc := s.ex.npc
  ctrl := s.ex.ctrl
  regWaddr := s.ex.regWaddr
  imm := s.exImm
  rs1 := s.exRegRs1Bypass io
  rs2 := s.exRegRs2Bypass io
  aluOut := s.aluOut io
  aluCmpOut := s.aluCmpOut io
  csrData := s.csr.out s.ex.csrAddr

def memNext : MemStage :=
  if !s.instKill io && !s.waitrequest io then s.memIssue io
  else if s.instKill io && !s.waitrequest io then .bubble
  else s.mem

/-- WB takes the contents of MEM. -/
def wbIssue : WbStage where
  npc := s.mem.npc
  ctrl := s.mem.ctrl
  regWaddr := s.mem.regWaddr
  aluOut := s.mem.aluOut
  csrData := s.mem.csrData

def wbNext : WbStage := if !s.waitrequest io then s.wbIssue else s.wb

def rv32iRegNext : BitVec 5 → Word :=
  if s.wb.ctrl.rfWen && s.wb.regWaddr != 0 then
    Function.update s.rv32iReg s.wb.regWaddr (s.rfWdata io)
  else s.rv32iReg

/-- Where the fetch goes on when `pc_cntr` moves. -/
def pcTarget : Word :=
  if s.expt io then s.csr.mtvec
  else if s.mem.ctrl.brType == brRet then s.csr.mepc
  else if decide (s.mem.ctrl.brType > 3) && s.mem.aluCmpOut then s.mem.pc + s.mem.imm
  else if s.mem.ctrl.brType == brJ then s.mem.aluOut
  else if s.mem.ctrl.brType == brJr then s.mem.aluOut
  else s.pcCntr + 4

def pcCntrNext : Word :=
  if io.halt then io.wPc
  else if !s.stall io && !s.waitrequest io && s.imemReq then s.pcTarget io
  else s.pcCntr

def delayStallNext : BitVec 4 :=
  if s.imemReadSig then if s.delayStall != 7 then s.delayStall + 1 else s.delayStall
  else 0

def step : KyogenRVCpu where
  ifPc := (s.ifStage io).ifPc
  ifNpc := (s.ifStage io).ifNpc
  id := (s.idStage io).id
  idTemp := (s.idStage io).idTemp
  id2Temp := (s.idStage io).id2Temp
  tempLock := (s.idStage io).tempLock
  ex := s.exNext io
  mem := s.memNext io
  wb := s.wbNext io
  pcCntr := s.pcCntrNext io
  wReq := io.halt
  wAddr := if io.halt then io.wAdd else s.wAddr
  wData := if io.halt then io.wDat else s.wData
  imemReadSig := !s.wReq
  imemReadSigFetch := s.imemReadSig
  imemReadSigKill := s.imemReadSig
  delayStall := s.delayStallNext
  validImem := (s.ifStage io).validImem
  imemReq := (s.ifStage io).imemReq
  inLoadstore := s.inLoadstoreNext
  rv32iReg := s.rv32iRegNext io
  interruptSig := io.wInterruptSig
  csr := s.csr.next (s.csrPorts io) (s.stall io)

end Edge

/-- Reachable from reset under any inputs. -/
abbrev Reachable (s : KyogenRVCpu) : Prop := Machine.Reachable step IsReset s

/-! ## Sample runs -/

/-- Reset with every register at 0 that has no reset value. -/
def zeroReset : KyogenRVCpu := reset (.reset 0 0 0 0 0) false false

theorem isReset_zeroReset : zeroReset.IsReset := ⟨0, 0, 0, 0, 0, false, false, rfl⟩

/-- The state after the start-up delay, when the answer to the first fetch is
due, and the given further cycles. -/
def sample (inputs : List HostIf) : KyogenRVCpu :=
  Machine.run step zeroReset (List.replicate 11 .idle ++ inputs)

theorem reachable_sample (inputs : List HostIf) : (sample inputs).Reachable :=
  ⟨zeroReset, _, isReset_zeroReset, rfl⟩

end KyogenRVCpu

end KyogenRV
