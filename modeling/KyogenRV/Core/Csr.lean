import KyogenRV.Core.Control

/-!
# Control and status registers

The CSR module: the register file with its read port, the exception sources,
and the update at a clock edge.  The update first advances the counters and the
pin and pc samplers, then either records a trap or performs a software write.

The registers `satp` and `misa` are never assigned and stand for their reset
values.  `addr`, `cmd` and `rs1_addr` carry zero-extended 12-, 3- and 5-bit
values on 32-bit wires and are kept at those widths.
-/

namespace KyogenRV

namespace CsrAddr

abbrev cycle : BitVec 12 := 0xc00
abbrev time : BitVec 12 := 0xc01
abbrev instret : BitVec 12 := 0xc02
abbrev cycleh : BitVec 12 := 0xc80
abbrev timeh : BitVec 12 := 0xc81
abbrev instreth : BitVec 12 := 0xc82

abbrev satp : BitVec 12 := 0x180
abbrev cyclew : BitVec 12 := 0x900
abbrev timew : BitVec 12 := 0x901
abbrev instretw : BitVec 12 := 0x902
abbrev cyclehw : BitVec 12 := 0x980
abbrev timehw : BitVec 12 := 0x981
abbrev instrethw : BitVec 12 := 0x982

abbrev mcpuid : BitVec 12 := 0xf00
abbrev mimpid : BitVec 12 := 0xf13
abbrev mhartid : BitVec 12 := 0xf14

abbrev mstatus : BitVec 12 := 0x300
abbrev misa : BitVec 12 := 0x301
abbrev medeleg : BitVec 12 := 0x302
abbrev mie : BitVec 12 := 0x304
abbrev mtvec : BitVec 12 := 0x305
abbrev mtimecmp : BitVec 12 := 0x321

abbrev mtime : BitVec 12 := 0x701
abbrev mtimeh : BitVec 12 := 0x741

abbrev mscratch : BitVec 12 := 0x340
abbrev mepc : BitVec 12 := 0x341
abbrev mcause : BitVec 12 := 0x342
abbrev mtval : BitVec 12 := 0x343
abbrev mip : BitVec 12 := 0x344

abbrev mtohost : BitVec 12 := 0x780
abbrev mfromhost : BitVec 12 := 0x781

end CsrAddr

namespace Cause

abbrev instAddrMisaligned : Word := 0
abbrev illegalInst : Word := 2
abbrev breakpoint : Word := 3
abbrev loadAddrMisaligned : Word := 4
abbrev storeAddrMisaligned : Word := 6
abbrev ecall : Word := 8
abbrev extInterrupt : Word := 8

end Cause

/-- Machine mode. -/
abbrev privM : BitVec 2 := 3

/-- The inputs of the CSR module, `stall` apart. -/
structure CsrIO where
  addr : BitVec 12
  csrIn : Word
  cmd : BitVec 3
  rs1Addr : BitVec 5
  legal : Bool
  interruptSig : Bool
  pc : Word
  pcInvalid : Bool
  jCheck : Bool
  bCheck : Bool
  inst : Word
  memWr : BitVec 2
  maskType : BitVec 3
  aluOp1 : Word
  aluOp2 : Word

/-- The registers of the CSR module. -/
structure Csr where
  time : Word
  timeh : Word
  cycle : Word
  cycleh : Word
  instret : Word
  instreth : Word
  prv : BitVec 2
  prv1 : BitVec 2
  ie : Bool
  ie1 : Bool
  mtvec : Word
  mtip : Bool
  meie : Bool
  mtie : Bool
  meip : Bool
  msip : Bool
  msie : Bool
  mtimecmp : Word
  mscratch : Word
  mepc : Word
  mcause : Word
  mtohost : Word
  mfromhost : Word
  mtval : Word
  validPc : Word
  preMepc : Word
  preMtval : Word
  preCalcAddr : Word
  deriving DecidableEq

namespace Csr

open MemoryOpConstants

/-- The registers after reset; those without a reset value are given. -/
def reset (mtimecmp mscratch mepc mcause mfromhost : Word) : Csr where
  time := 0
  timeh := 0
  cycle := 0
  cycleh := 0
  instret := 0
  instreth := 0
  prv := privM
  prv1 := privM
  ie := false
  ie1 := false
  mtvec := pcEvec
  mtip := false
  meie := false
  mtie := false
  meip := false
  msip := false
  msie := false
  mtimecmp := mtimecmp
  mscratch := mscratch
  mepc := mepc
  mcause := mcause
  mtohost := 0
  mfromhost := mfromhost
  mtval := Instructions.nop
  validPc := 0
  preMepc := 0
  preMtval := Instructions.nop
  preCalcAddr := 0

/-! ## Read port -/

section Read

variable (c : Csr)

def mcpuid : Word := 0x00100100
def mimpid : Word := 0
def mhartid : Word := 0
def medeleg : Word := 0
def satp : Word := 0
def misa : Word := 0x40000000

/-- `Cat(SD, 0, VM, MPRV, XS, FS, PRV3, IE3, PRV2, IE2, PRV1, IE1, PRV, IE)`;
everything above `PRV1` is tied to 0. -/
def mstatus : Word :=
  (0 : BitVec 26) ++ c.prv1 ++ BitVec.ofBool c.ie1 ++ c.prv ++ BitVec.ofBool c.ie

def mip : Word :=
  (0 : BitVec 20) ++ BitVec.ofBool c.meip ++ (0 : BitVec 3) ++ BitVec.ofBool c.mtip ++
    (0 : BitVec 3) ++ BitVec.ofBool c.msip ++ (0 : BitVec 3)

def mie : Word :=
  (0 : BitVec 20) ++ BitVec.ofBool c.meie ++ (0 : BitVec 3) ++ BitVec.ofBool c.mtie ++
    (0 : BitVec 3) ++ BitVec.ofBool c.msie ++ (0 : BitVec 3)

def csrFile : List (BitVec 12 × Word) := [
  (CsrAddr.cycle, c.cycle),
  (CsrAddr.time, c.time),
  (CsrAddr.instret, c.instret),
  (CsrAddr.cycleh, c.cycleh),
  (CsrAddr.timeh, c.timeh),
  (CsrAddr.instreth, c.instreth),
  (CsrAddr.cyclew, c.cycle),
  (CsrAddr.satp, satp),
  (CsrAddr.timew, c.time),
  (CsrAddr.instretw, c.instret),
  (CsrAddr.cyclehw, c.cycleh),
  (CsrAddr.timehw, c.timeh),
  (CsrAddr.instrethw, c.instreth),
  (CsrAddr.mcpuid, mcpuid),
  (CsrAddr.mimpid, mimpid),
  (CsrAddr.mhartid, mhartid),
  (CsrAddr.mtvec, c.mtvec),
  (CsrAddr.medeleg, medeleg),
  (CsrAddr.mie, c.mie),
  (CsrAddr.mtimecmp, c.mtimecmp),
  (CsrAddr.mtime, c.time),
  (CsrAddr.mtimeh, c.timeh),
  (CsrAddr.mscratch, c.mscratch),
  (CsrAddr.mepc, c.mepc),
  (CsrAddr.mcause, c.mcause),
  (CsrAddr.mip, c.mip),
  (CsrAddr.mstatus, c.mstatus),
  (CsrAddr.misa, misa),
  (CsrAddr.mtval, c.mtval)]

/-- `io.out`: the addressed register, or 0. -/
def out (addr : BitVec 12) : Word :=
  muxCase 0 (c.csrFile.map fun entry => (addr == entry.1, entry.2))

end Read

/-! ## Exception sources -/

section Sources

variable (c : Csr) (io : CsrIO)

def wdata : Word :=
  muxCase 0 [
    (io.cmd == CSR.w, io.csrIn),
    (io.cmd == CSR.s, c.out io.addr ||| io.csrIn),
    (io.cmd == CSR.c, c.out io.addr &&& ~~~io.csrIn)]

def aluCalcAddr : Word := io.aluOp1 + io.aluOp2

def privInst : Bool := io.cmd == CSR.p

def isExtInt : Bool := c.meip && c.meie
def isEcall : Bool := privInst io && !io.addr.getLsbD 0 && !io.addr.getLsbD 8
def isEbreak : Bool := privInst io && io.addr.getLsbD 0 && !io.addr.getLsbD 8

def wen : Bool := io.cmd == CSR.w || io.cmd.getLsbD 1 && io.rs1Addr != 0

def isIllegal : Bool := !io.legal && !io.pcInvalid

/-- `x(1,0).orR`. -/
def misaligned (addr : Word) : Bool := addr.extractLsb' 0 2 != 0

def iaddrInvalidB : Bool := misaligned io.pc
def iaddrInvalidJ : Bool := io.jCheck && misaligned (aluCalcAddr io)

def laddrInvalid : Bool :=
  muxCase false [
    (io.memWr == mXrd && io.maskType == mtW, misaligned (aluCalcAddr io)),
    (io.memWr == mXrd && io.maskType == mtH, (aluCalcAddr io).getLsbD 0),
    (io.memWr == mXrd && io.maskType == mtHu, (aluCalcAddr io).getLsbD 0)]

def saddrInvalid : Bool :=
  muxCase false [
    (io.memWr == mXwr && io.maskType == mtW, misaligned (aluCalcAddr io)),
    (io.memWr == mXwr && io.maskType == mtH, (aluCalcAddr io).getLsbD 0)]

def expt : Bool :=
  isEcall io || isEbreak io || isIllegal io || c.isExtInt || iaddrInvalidJ io ||
    iaddrInvalidB io || laddrInvalid io || saddrInvalid io

def isInstRet (stall : Bool) : Bool :=
  io.inst != Instructions.nop && (!c.expt io || isEcall io || isEbreak io) && !stall

end Sources

/-! ## The clock edge -/

section Edge

variable (c : Csr) (io : CsrIO)

/-- `x >> 2 << 2`. -/
def clearLow2 (x : Word) : Word := x >>> 2 <<< 2

theorem clearLow2_of_aligned {x : Word} (hx : x.extractLsb' 0 2 = 0) : clearLow2 x = x := by
  ext i hi
  rw [clearLow2, BitVec.getElem_shiftLeft]
  by_cases hlow : i < 2
  · have hbit := congrArg (BitVec.getLsbD · i) hx
    simp only [BitVec.getLsbD_extractLsb', hlow] at hbit
    simpa [hlow, BitVec.getLsbD_eq_getElem hi] using hbit
  · simp [hlow, BitVec.getElem_ushiftRight, Nat.add_sub_cancel' (Nat.le_of_not_lt hlow),
      BitVec.getLsbD_eq_getElem hi]

/-- `x >> 1 << 1`. -/
def clearLow1 (x : Word) : Word := x >>> 1 <<< 1

/-- The assignments made on every edge: counters, the interrupt pin, the last
branch or jump in EX, and the pc of the last valid instruction in EX. -/
def tick (stall : Bool) : Csr :=
  { c with
    time := c.time + 1
    timeh := if c.time == BitVec.allOnes 32 then c.timeh + 1 else c.timeh
    cycle := c.cycle + 1
    cycleh := if c.cycle == BitVec.allOnes 32 then c.cycleh + 1 else c.cycleh
    meip := io.interruptSig
    preMepc := if io.bCheck || io.jCheck then io.pc else c.preMepc
    preMtval := if io.bCheck || io.jCheck then io.inst else c.preMtval
    preCalcAddr := if io.bCheck || io.jCheck then aluCalcAddr io else c.preCalcAddr
    instret := if c.isInstRet io stall then c.instret + 1 else c.instret
    instreth :=
      if c.isInstRet io stall && c.instret == BitVec.allOnes 32 then c.instreth + 1
      else c.instreth
    validPc := if !io.pcInvalid then clearLow2 io.pc else c.validPc }

def trapMepc : Word :=
  if c.isExtInt then c.validPc
  else if iaddrInvalidB io then c.preMepc
  else io.pc

def trapMtval : Word :=
  if c.isExtInt then io.inst
  else if iaddrInvalidB io then c.preCalcAddr
  else if laddrInvalid io || saddrInvalid io then aluCalcAddr io
  else if iaddrInvalidJ io then
    if (aluCalcAddr io).getLsbD 0 && !(aluCalcAddr io).getLsbD 1 then
      clearLow1 (aluCalcAddr io) + 2 -- 16-bit address misalignment
    else clearLow1 (aluCalcAddr io)
  else io.inst

def trapMcause : Word :=
  if isEcall io then Cause.ecall + c.prv.setWidth 32
  else if c.isExtInt then 0x80000000 ||| (Cause.extInterrupt + c.prv.setWidth 32)
  else if isEbreak io then Cause.breakpoint
  else if iaddrInvalidJ io || iaddrInvalidB io then Cause.instAddrMisaligned
  else if isIllegal io then Cause.illegalInst
  else if laddrInvalid io then Cause.loadAddrMisaligned
  else if saddrInvalid io then Cause.storeAddrMisaligned
  else Cause.instAddrMisaligned

/-- Trap entry, on top of the registers `d` of the edge. -/
def trap (d : Csr) : Csr :=
  { d with
    mepc := c.trapMepc io
    mtval := c.trapMtval io
    mcause := c.trapMcause io
    prv := privM
    ie := false
    prv1 := c.prv
    ie1 := c.ie }

/-- The software write of `wdata`, on top of the registers `d` of the edge. -/
def write (addr : BitVec 12) (wdata : Word) (d : Csr) : Csr :=
  muxCase d [
    (addr == CsrAddr.mstatus,
      { d with
        prv1 := wdata.extractLsb' 4 2
        ie1 := wdata.getLsbD 3
        ie := wdata.getLsbD 0 }),
    (addr == CsrAddr.mip, { d with mtip := wdata.getLsbD 7, msip := wdata.getLsbD 3 }),
    (addr == CsrAddr.mie,
      { d with
        meie := wdata.getLsbD 11
        mtie := wdata.getLsbD 7
        msie := wdata.getLsbD 3 }),
    (addr == CsrAddr.mtime, { d with time := wdata }),
    (addr == CsrAddr.mtimeh, { d with timeh := wdata }),
    (addr == CsrAddr.mtvec, { d with mtvec := wdata }),
    (addr == CsrAddr.mscratch, { d with mscratch := wdata }),
    (addr == CsrAddr.mepc, { d with mepc := clearLow2 wdata }),
    (addr == CsrAddr.mcause, { d with mcause := wdata &&& 0x8000000f }),
    (addr == CsrAddr.mtohost, { d with mtohost := wdata }),
    (addr == CsrAddr.mfromhost, { d with mfromhost := wdata }),
    (addr == CsrAddr.cyclew, { d with cycle := wdata }),
    (addr == CsrAddr.timew, { d with time := wdata }),
    (addr == CsrAddr.instretw, { d with instret := wdata }),
    (addr == CsrAddr.cyclehw, { d with cycleh := wdata }),
    (addr == CsrAddr.timehw, { d with timeh := wdata }),
    (addr == CsrAddr.instrethw, { d with instreth := wdata })]

def next (stall : Bool) : Csr :=
  if stall then c.tick io stall
  else if c.expt io then c.trap io (c.tick io stall)
  else if wen io then write io.addr (c.wdata io) (c.tick io stall)
  else c.tick io stall

end Edge

/-! ## What the edge leaves alone -/

section Frame

variable (c d : Csr) (io : CsrIO) (addr : BitVec 12) (wdata : Word)

theorem next_of_not_expt {stall : Bool} (hexpt : c.expt io = false) :
    c.next io stall =
      if !stall && wen io then write io.addr (c.wdata io) (c.tick io stall)
      else c.tick io stall := by
  cases stall <;> simp [next, hexpt]

/-- What every edge samples, whether the instruction in EX traps, writes a
register or is stalled: the interrupt pin, the last valid pc, and the last
branch or jump. -/
structure Sampled where
  meip : Bool
  validPc : Word
  preMepc : Word
  preMtval : Word
  preCalcAddr : Word

def sampled : Sampled := ⟨c.meip, c.validPc, c.preMepc, c.preMtval, c.preCalcAddr⟩

theorem write_sampled : (write addr wdata d).sampled = d.sampled := by
  refine muxCase_of_forall (P := fun c : Csr => c.sampled = d.sampled) rfl ?_
  simp only [List.forall_mem_cons, List.not_mem_nil, false_imp_iff, implies_true, and_true,
    sampled]

theorem next_sampled (stall : Bool) : (c.next io stall).sampled = (c.tick io stall).sampled := by
  rw [next]
  split_ifs
  · rfl
  · rfl
  · exact write_sampled ..
  · rfl

theorem next_meip (stall : Bool) : (c.next io stall).meip = io.interruptSig :=
  congrArg Sampled.meip (c.next_sampled io stall)

/-- Only a valid instruction in EX moves `valid_pc`. -/
theorem next_validPc (stall : Bool) :
    (c.next io stall).validPc = if !io.pcInvalid then clearLow2 io.pc else c.validPc :=
  congrArg Sampled.validPc (c.next_sampled io stall)

/-- Only a branch or jump in EX moves `pre_mepc`. -/
theorem next_preMepc (stall : Bool) :
    (c.next io stall).preMepc = if io.bCheck || io.jCheck then io.pc else c.preMepc :=
  congrArg Sampled.preMepc (c.next_sampled io stall)

theorem next_preCalcAddr (stall : Bool) :
    (c.next io stall).preCalcAddr =
      if io.bCheck || io.jCheck then aluCalcAddr io else c.preCalcAddr :=
  congrArg Sampled.preCalcAddr (c.next_sampled io stall)

theorem write_instretw : write CsrAddr.instretw wdata d = { d with instret := wdata } := by
  simp [write]

theorem write_instret (haddr : addr ≠ CsrAddr.instretw) :
    (write addr wdata d).instret = d.instret := by
  refine muxCase_of_forall (P := fun c : Csr => c.instret = d.instret) rfl ?_
  simp only [List.forall_mem_cons, List.not_mem_nil, false_imp_iff, implies_true, and_true,
    beq_iff_eq, haddr]

end Frame

end Csr

end KyogenRV
