import KyogenRV.Core.ByteAccess
import KyogenRV.Core.Immediate
import KyogenRV.Core.WriteBack
import KyogenRV.Isa.Memory

/-!
# Execution with a data memory

What an instruction of RV32I takes along from EX to MEM, loads and stores
included, and what the instructions in MEM and WB are about to do to the
registers and to a byte memory.
-/

namespace KyogenRV

open ScalarOpConstants MemoryOpConstants

open Rv32i (MemInstr MemState)

/-! ## Decoding -/

def maskOfLoad : Rv32i.LoadOp → BitVec 3
  | .lb => mtB
  | .lh => mtH
  | .lw => mtW
  | .lbu => mtBu
  | .lhu => mtHu

def maskOfStore : Rv32i.StoreOp → BitVec 3
  | .sb => mtB
  | .sh => mtH
  | .sw => mtW

/-- An access to the sum of the first operand and an immediate. -/
def accessCtrl (immType : BitVec 3) (memWr : BitVec 2) (maskType : BitVec 3) : IntCtrlSigs :=
  { aluCtrl op1Rs1 op2Imm immType ALU.aluAdd with
    wbSel := 0
    rfWen := false
    memEn := true
    memWr := memWr
    maskType := maskType }

/-- An instruction without effect. -/
def fenceCtrl : IntCtrlSigs := { aluCtrl 0 0 0 0 with wbSel := 0, rfWen := false }

def ctrlOfMem : MemInstr → IntCtrlSigs
  | .reg instr => ctrlOf instr
  | .load op .. =>
      { accessCtrl immI mXrd (maskOfLoad op) with wbSel := wbMem, rfWen := true }
  | .store op .. => accessCtrl immS mXwr (maskOfStore op)
  | .fence => { fenceCtrl with memEn := true }
  | .fenceI => fenceCtrl

theorem masks_of_access : ∀ opcode ∈ [0x03, 0x23, (0x0f : BitVec 7)],
    ∀ row ∈ rowsOf opcode, 0x0000707f &&& row.1.mask = row.1.mask := by
  decide

theorem selected_load (f7 : BitVec 7) (f3 : BitVec 3) : ∀ op ∈ Rv32i.loadOf f3,
    selected f7 f3 0x03 = ctrlOfMem (.load op 0 0 0) := by
  rw [selected_eq_zero (masks_of_access 0x03 (by decide))]
  revert f3
  decide

theorem selected_store (f7 : BitVec 7) (f3 : BitVec 3) : ∀ op ∈ Rv32i.storeOf f3,
    selected f7 f3 0x23 = ctrlOfMem (.store op 0 0 0) := by
  rw [selected_eq_zero (masks_of_access 0x23 (by decide))]
  revert f3
  decide

theorem selected_fence (f7 : BitVec 7) :
    selected f7 0 0x0f = ctrlOfMem .fence ∧ selected f7 1 0x0f = ctrlOfMem .fenceI := by
  rw [selected_eq_zero (masks_of_access 0x0f (by decide)) f7 0,
    selected_eq_zero (masks_of_access 0x0f (by decide)) f7 1]
  decide

/-- The decoder gives every instruction the bundle of its kind. -/
theorem idDecode_of_decodeMem {w : Word} {instr : MemInstr}
    (hinstr : Rv32i.decodeMem w = some instr) : idDecode w = ctrlOfMem instr := by
  have hselect {opcode : BitVec 7} (hop : Rv32i.opcode w = opcode) (hne : opcode ≠ 0x73) :
      idDecode w = selected (Rv32i.funct7 w) (Rv32i.funct3 w) opcode :=
    hop ▸ idDecode_eq_selected (hop ▸ hne)
  cases Rv32i.memEncodes_of_decodeMem hinstr with
  | reg hreg => exact idDecode_of_decode hreg
  | load hop hload => exact (hselect hop (by decide)).trans (selected_load _ _ _ hload)
  | store hop hstore => exact (hselect hop (by decide)).trans (selected_store _ _ _ hstore)
  | fence hop hf3 =>
      rw [hselect hop (by decide), hf3]
      exact (selected_fence _).1
  | fenceI hop hf3 =>
      rw [hselect hop (by decide), hf3]
      exact (selected_fence _).2

/-- Instructions without a CSR command; none returns from a trap. -/
theorem ctrlOfMem_plain (instr : MemInstr) :
    (ctrlOfMem instr).legal = true ∧ (ctrlOfMem instr).csrCmd = CSR.n ∧
      (ctrlOfMem instr).brType ≠ brRet := by
  cases instr with
  | reg instr =>
      obtain ⟨hlegal, _, hcmd, _, hret⟩ := ctrlOf_plain instr
      exact ⟨hlegal, hcmd, hret⟩
  | load | store | fence | fenceI => exact ⟨rfl, rfl, (by decide : brN ≠ brRet)⟩

/-- Only loads take their result from the data port. -/
theorem wbSel_of_not_load {ctrl : IntCtrlSigs} {rd : BitVec 5} (hctrl : DecodedFrom ctrl rd)
    (hload : ctrl.memWr ≠ mXrd) : ctrl.wbSel ≠ wbMem := by
  obtain ⟨inst, rfl, _⟩ := hctrl
  exact idDecode_of_ctrlRows (P := fun ctrl => ctrl.memWr ≠ mXrd → ctrl.wbSel ≠ wbMem)
    (by decide) inst hload

/-! ## Loads and stores of the instruction set -/

theorem flatLoad_maskOfLoad (op : Rv32i.LoadOp) (mem : ByteMem) (addr : Word) :
    flatLoad mem (maskOfLoad op) addr = op.value mem addr := by
  cases op <;> rfl

theorem flatStore_maskOfStore (op : Rv32i.StoreOp) (mem : ByteMem) (addr data : Word) :
    flatStore mem (maskOfStore op) addr data = op.apply mem addr data := by
  cases op <;> rfl

/-- An address that the size of the access divides is aligned. -/
theorem aligned_of_dvd {maskType : BitVec 3} {addr : Word} (hsize : IsSize maskType)
    (hdvd : accessSize maskType ∣ addr.toNat) : Aligned maskType addr := by
  have hlow : addr.getLsbD 0 = decide (addr.toNat % 2 = 1) := by
    rw [BitVec.getLsbD, Nat.testBit_zero]
  refine ⟨fun hw => ?_, fun hh => ?_⟩
  · rw [hw, accessSize_w] at hdvd
    rw [Csr.misaligned, bne_eq_false_iff_eq]
    apply BitVec.eq_of_toNat_eq
    rw [toNat_lane]
    exact Nat.mod_eq_zero_of_dvd hdvd
  · have htwo : 2 ∣ addr.toNat := by
      rcases hh with rfl | rfl
      · exact hdvd
      · exact hdvd
    rw [hlow, decide_eq_false]
    omega

theorem accessSize_maskOfLoad (op : Rv32i.LoadOp) : accessSize (maskOfLoad op) = op.size := by
  cases op <;> rfl

theorem accessSize_maskOfStore (op : Rv32i.StoreOp) :
    accessSize (maskOfStore op) = op.size := by
  cases op <;> rfl

theorem isSize_maskOfLoad (op : Rv32i.LoadOp) : IsSize (maskOfLoad op) := by
  cases op <;> simp [IsSize, maskOfLoad]

theorem isSize_maskOfStore (op : Rv32i.StoreOp) : IsSize (maskOfStore op) := by
  cases op <;> simp [IsSize, maskOfStore]

namespace KyogenRVCpu

/-! ## What is on its way -/

section Pending

variable (s : KyogenRVCpu) (mem : ByteMem) (r : BitVec 5)

/-- The result that the instruction in MEM will write back, a load that of the
given memory. -/
def memValue : Word :=
  if s.mem.ctrl.memWr == mXrd then flatLoad mem s.mem.ctrl.maskType s.mem.aluOut
  else s.memResult.getD 0

/-- The result that the instruction in WB writes back. -/
def wbValue : Word :=
  if s.wb.ctrl.memWr == mXrd then flatLoad mem s.wb.ctrl.maskType s.wb.aluOut
  else s.rfWdata .idle

/-- The memory behind the instruction in MEM. -/
def memStored : ByteMem :=
  if s.mem.ctrl.memWr = mXwr then
    flatStore mem s.mem.ctrl.maskType s.mem.aluOut s.mem.rs2
  else mem

/-- The value of register `r` after the instructions in WB and MEM have written
back. -/
def flatReg : Word :=
  if s.memWrites r then s.memValue mem
  else if s.wbWrites r then s.wbValue mem
  else s.rv32iReg r

/-- The register write of the instruction in WB. -/
def wbWriting : List (BitVec 5 × Word) :=
  if s.wb.ctrl.rfWen && s.wb.regWaddr != 0 then [(s.wb.regWaddr, s.wbValue mem)] else []

/-- The register write of the instruction in MEM. -/
def memWriting : List (BitVec 5 × Word) :=
  if s.mem.ctrl.rfWen && s.mem.regWaddr != 0 then [(s.mem.regWaddr, s.memValue mem)] else []

end Pending

section Moves

variable {s t : KyogenRVCpu} {io : HostIf} {mem : ByteMem}

/-- Unless a load is in WB, what is announced in MEM and WB is pending. -/
theorem flatReg_of_pendingReg (hco : s.Coherent) (hwb : s.wb.ctrl.memWr ≠ mXrd) {r : BitVec 5}
    {value : Word} (hvalue : s.pendingReg io r = some value) : s.flatReg mem r = value := by
  have hload : (s.wb.ctrl.memWr == mXrd) = false := beq_eq_false_iff_ne.mpr hwb
  rw [pendingReg] at hvalue
  rw [flatReg]
  split_ifs at hvalue ⊢
  · have hmem : s.mem.ctrl.memWr ≠ mXrd := by
      intro hmem
      obtain ⟨inst, hctrl, _⟩ := hco.mem
      have hsel := (load_ctrl inst (by rw [← hctrl]; exact hmem)).2
      rw [← hctrl] at hsel
      rw [memResult, hsel] at hvalue
      exact absurd hvalue (by simp)
    rw [memValue, beq_eq_false_iff_ne.mpr hmem, if_neg Bool.false_ne_true, hvalue]
    rfl
  · rw [wbValue, hload, if_neg Bool.false_ne_true, ← Option.some.inj hvalue]
    exact rfWdata_of_not_load (wbSel_of_not_load hco.wb hwb) rfl io .idle
  · exact Option.some.inj hvalue

/-- Unless a taken transfer is in MEM, the operands of EX are the pending values
of their registers. -/
theorem ForwardInv.flatReg (hs : s.ForwardInv) (hco : s.Coherent)
    (hbranch : s.instKillBranch = false) (io : HostIf) (mem : ByteMem) :
    (s.ex.regRaddr1 ≠ 0 → s.flatReg mem s.ex.regRaddr1 = s.exRegRs1Bypass io) ∧
      (s.ex.regRaddr2 ≠ 0 → s.flatReg mem s.ex.regRaddr2 = s.exRegRs2Bypass io) := by
  obtain ⟨hop1, hop2⟩ := hs.operands hco hbranch io
  rcases hs with hbubble | hready
  · simp [hbubble, ExStage.bubble]
  · have hwb : s.wb.ctrl.memWr ≠ mXrd := by
      rw [hready.noAccess]
      decide
    exact ⟨fun h => flatReg_of_pendingReg hco hwb (hop1 h),
      fun h => flatReg_of_pendingReg hco hwb (hop2 h)⟩

/-- In WB the instruction writes what it announced in MEM. -/
theorem wbValue_of_wbIssue (hco : s.Coherent) (hwb : t.wb = s.wbIssue) :
    t.wbValue (s.memStored mem) = s.memValue mem := by
  have hctrl : t.wb.ctrl = s.mem.ctrl := by rw [hwb]; rfl
  have haddr : t.wb.aluOut = s.mem.aluOut := by rw [hwb]; rfl
  rw [wbValue, memValue, hctrl, haddr]
  by_cases hload : s.mem.ctrl.memWr = mXrd
  · have hstore : s.mem.ctrl.memWr ≠ mXwr := by
      rw [hload]
      decide
    rw [memStored, if_neg hstore]
    simp only [hload, beq_self_eq_true, if_true]
  · obtain ⟨value, hvalue⟩ := memResult_of_not_load (wbSel_of_not_load hco.mem hload)
    rw [beq_eq_false_iff_ne.mpr hload, if_neg Bool.false_ne_true, if_neg Bool.false_ne_true,
      rfWdata_of_memResult hvalue hwb, hvalue]
    rfl

theorem wbWriting_of_wbIssue (hco : s.Coherent) (hwb : t.wb = s.wbIssue) :
    t.wbWriting (s.memStored mem) = s.memWriting mem := by
  rw [wbWriting, memWriting, wbValue_of_wbIssue hco hwb, hwb]
  rfl

/-- When the pipeline moves, the instruction that enters MEM comes on top. -/
theorem flatReg_of_moved (hco : s.Coherent) (hwb : (s.step io).wb = s.wbIssue)
    (hdata : s.wb.ctrl.rfWen = true → s.wb.regWaddr ≠ 0 → s.rfWdata io = s.wbValue mem)
    {r : BitVec 5} (hr : r ≠ 0) :
    (s.step io).flatReg (s.memStored mem) r =
      if (s.step io).memWrites r then (s.step io).memValue (s.memStored mem)
      else s.flatReg mem r := by
  have hwrites : (s.step io).wbWrites r = s.memWrites r := by
    rw [wbWrites, hwb, memWrites]
    rfl
  rw [flatReg, hwrites, wbValue_of_wbIssue hco hwb, rv32iReg_step hr, flatReg]
  split_ifs with _ _ hwb'
  · rfl
  · rfl
  · simp only [wbWrites, Bool.and_eq_true, beq_iff_eq] at hwb'
    exact hdata hwb'.1 (by rw [hwb'.2]; exact hr)
  · rfl

theorem wbValue_of_held (hco : s.Coherent) (hwb : t.wb = s.wb) :
    t.wbValue mem = s.wbValue mem := by
  rw [wbValue, wbValue, hwb]
  by_cases hload : s.wb.ctrl.memWr = mXrd
  · simp only [hload, beq_self_eq_true, if_true]
  · rw [rfWdata_of_not_load (wbSel_of_not_load hco.wb hload) hwb .idle .idle]

/-- While the pipeline waits, the pending registers stay. -/
theorem flatReg_of_held (hco : s.Coherent) (hmem : (s.step io).mem = s.mem)
    (hwb : (s.step io).wb = s.wb) {r : BitVec 5} (hr : r ≠ 0) :
    (s.step io).flatReg mem r = s.flatReg mem r := by
  have hwrites : (s.step io).wbWrites r = s.wbWrites r := by rw [wbWrites, hwb, wbWrites]
  have hvalue : (s.step io).wbValue mem = s.wbValue mem := wbValue_of_held hco hwb
  rw [flatReg, hwrites, hvalue, memWrites, memValue, memResult, hmem, rv32iReg_step hr, flatReg,
    memWrites, memValue, memResult]
  split_ifs <;> rfl

end Moves

/-! ## Executed instructions -/

/-- EX holds an instruction at the pc of `σ` with its operands of `σ`. -/
structure MemExecutes (s : KyogenRVCpu) (io : HostIf) (σ : MemState) (instr : MemInstr) :
    Prop where
  coherent : s.ex.Coherent
  instr : Rv32i.decodeMem s.ex.inst = some instr
  pc : s.ex.pc = σ.pc
  npc : s.ex.npc = σ.pc + 4
  rs1 : s.exRegRs1Bypass io = σ.read (Rv32i.rs1 s.ex.inst)
  rs2 : s.exRegRs2Bypass io = σ.read (Rv32i.rs2 s.ex.inst)

section Execute

variable {s t : KyogenRVCpu} {io : HostIf} {σ : MemState} {instr : MemInstr}

theorem MemExecutes.ctrl (hs : s.MemExecutes io σ instr) : s.ex.ctrl = ctrlOfMem instr :=
  hs.coherent.ctrl.trans (idDecode_of_decodeMem hs.instr)

/-- A register instruction executes as in a program without accesses. -/
theorem MemExecutes.register {reg : Rv32i.Instr} (hs : s.MemExecutes io σ (.reg reg)) :
    s.Executes io σ.toState reg where
  coherent := hs.coherent
  instr := by
    cases Rv32i.memEncodes_of_decodeMem hs.instr with
    | reg hreg => exact hreg
  pc := hs.pc
  npc := hs.npc
  rs1 := hs.rs1
  rs2 := hs.rs2

/-- The ALU computes the address of an access. -/
theorem MemExecutes.aluOut_of_access (hs : s.MemExecutes io σ instr) {addr : Word} {size : ℕ}
    (haccess : instr.access? σ.toState = some (addr, size)) : s.aluOut io = addr := by
  have hctrl := hs.ctrl
  have hsum (hop1 : s.ex.ctrl.aluOp1 = op1Rs1) (hop2 : s.ex.ctrl.aluOp2 = op2Imm)
      (hadd : s.ex.ctrl.aluFunc = ALU.aluAdd) :
      s.aluOut io = σ.read (Rv32i.rs1 s.ex.inst) + s.exImm := by
    rw [aluOut, s.exOp1_rs1 io hop1, s.exOp2_imm io hop2, hadd, ALU.out_add, hs.rs1]
  cases Rv32i.memEncodes_of_decodeMem hs.instr with
  | load =>
      have himm : s.exImm = Rv32i.immI s.ex.inst := by
        rw [exImm, hctrl]
        exact (immGen_apply _).1
      rw [hsum (by rw [hctrl]; rfl) (by rw [hctrl]; rfl) (by rw [hctrl]; rfl), himm]
      exact congrArg Prod.fst (Option.some.inj haccess)
  | store =>
      have himm : s.exImm = Rv32i.immS s.ex.inst := by
        rw [exImm, hctrl]
        exact (immGen_stores _).1
      rw [hsum (by rw [hctrl]; rfl) (by rw [hctrl]; rfl) (by rw [hctrl]; rfl), himm]
      exact congrArg Prod.fst (Option.some.inj haccess)
  | reg | fence | fenceI => exact absurd haccess (by simp [MemInstr.access?])

/-- The destination in MEM of an executed instruction. -/
theorem MemExecutes.memDest (hs : s.MemExecutes io σ instr) (hmem : t.mem = s.memIssue io) :
    instr.dest = if t.mem.ctrl.rfWen then t.mem.regWaddr else 0 := by
  have hctrl : t.mem.ctrl = ctrlOfMem instr := by rw [hmem]; exact hs.ctrl
  have hrd : t.mem.regWaddr = IDModule.rd s.ex.inst := by rw [hmem]; exact hs.coherent.regWaddr
  cases Rv32i.memEncodes_of_decodeMem hs.instr with
  | reg => exact hs.register.memDest hmem
  | load => rw [hctrl, hrd]; rfl
  | store | fence | fenceI => rw [hctrl]; rfl

/-- The result in MEM of an executed instruction that writes a register. -/
theorem MemExecutes.memValue (hs : s.MemExecutes io σ instr) (hmem : t.mem = s.memIssue io)
    (hwen : t.mem.ctrl.rfWen = true) : t.memValue σ.mem = instr.value σ := by
  have hctrl : t.mem.ctrl = ctrlOfMem instr := by rw [hmem]; exact hs.ctrl
  cases instr with
  | reg reg =>
      have hacc : (t.mem.ctrl.memWr == mXrd) = false := by
        rw [hctrl, ctrlOfMem, (ctrlOf_plain reg).2.1]
        rfl
      rw [KyogenRVCpu.memValue, hacc, if_neg Bool.false_ne_true, hs.register.memValue hmem hwen]
      rfl
  | load op rd rs1 imm =>
      have haddr : t.mem.aluOut = σ.read rs1 + imm := by
        rw [hmem]
        exact hs.aluOut_of_access rfl
      rw [KyogenRVCpu.memValue, hctrl, haddr]
      exact flatLoad_maskOfLoad op _ _
  | store | fence | fenceI =>
      rw [hctrl] at hwen
      exact absurd hwen Bool.false_ne_true

/-- The memory behind an executed instruction. -/
theorem MemExecutes.memStored (hs : s.MemExecutes io σ instr) (hmem : t.mem = s.memIssue io) :
    t.memStored σ.mem = instr.memory σ := by
  have hctrl : t.mem.ctrl = ctrlOfMem instr := by rw [hmem]; exact hs.ctrl
  rw [KyogenRVCpu.memStored, hctrl]
  cases instr with
  | store op rs1 rs2 imm =>
      have haddr : t.mem.aluOut = σ.read rs1 + imm := by
        rw [hmem]
        exact hs.aluOut_of_access rfl
      have hdata : t.mem.rs2 = σ.read rs2 := by
        rw [hmem]
        cases Rv32i.memEncodes_of_decodeMem hs.instr with
        | store => exact hs.rs2
      rw [haddr, hdata]
      exact flatStore_maskOfStore op _ _ _
  | reg reg =>
      rw [ctrlOfMem, (ctrlOf_plain reg).2.1]
      rfl
  | load | fence | fenceI => rfl

/-- In MEM an executed instruction is about to make the write that the
instruction set prescribes. -/
theorem MemExecutes.memWriting (hs : s.MemExecutes io σ instr) (hmem : t.mem = s.memIssue io) :
    t.memWriting σ.mem = instr.writes σ := by
  rw [KyogenRVCpu.memWriting, MemInstr.writes, hs.memDest hmem]
  cases hwen : t.mem.ctrl.rfWen with
  | false => rfl
  | true =>
      rw [hs.memValue hmem hwen, if_pos rfl, Bool.true_and]
      by_cases hrd : t.mem.regWaddr = 0
      · rw [if_pos hrd, if_neg (by simp [hrd])]
      · rw [if_neg hrd, if_pos (bne_iff_ne.mpr hrd)]

/-- With an executed instruction in MEM on top, the registers are those behind
it. -/
theorem MemExecutes.regs (hs : s.MemExecutes io σ instr) (hmem : t.mem = s.memIssue io)
    {r : BitVec 5} (hr : r ≠ 0) :
    (if t.memWrites r then t.memValue σ.mem else σ.regs r) = (instr.exec σ).regs r := by
  rw [MemInstr.exec_regs σ instr hr, hs.memDest hmem, memWrites]
  cases hwen : t.mem.ctrl.rfWen with
  | false => rw [if_neg Bool.false_ne_true, if_neg (Ne.symm hr)]; rfl
  | true =>
      rw [hs.memValue hmem hwen, if_pos rfl, Bool.true_and]
      by_cases hrd : t.mem.regWaddr = r
      · rw [if_pos (beq_iff_eq.mpr hrd), if_pos hrd]
      · rw [if_neg (by simpa using hrd), if_neg hrd]

/-- In MEM it redirects the fetch exactly if it jumps, and then to its target. -/
theorem MemExecutes.transfer (hs : s.MemExecutes io σ instr) (hmem : t.mem = s.memIssue io) :
    t.instKillBranch = (instr.target? σ.toState).isSome ∧
      ∀ target, instr.target? σ.toState = some target → t.transferTarget = target := by
  have hctrl : t.mem.ctrl = ctrlOfMem instr := by rw [hmem]; exact hs.ctrl
  cases instr with
  | reg => exact hs.register.transfer hmem
  | load | store | fence | fenceI =>
      rw [instKillBranch, hctrl]
      exact ⟨rfl, fun _ h => absurd h (by simp [MemInstr.target?])⟩

/-- A jump to an aligned target passes the check of EX. -/
theorem MemExecutes.jumpValid (hs : s.MemExecutes io σ instr)
    (hjump : ∀ target, instr.target? σ.toState = some target → target.extractLsb' 0 2 = 0) :
    Csr.iaddrInvalidJ (s.csrPorts io) = false := by
  have hctrl := hs.ctrl
  cases instr with
  | reg reg =>
      rw [Csr.iaddrInvalidJ, Bool.and_eq_false_iff]
      refine Classical.or_iff_not_imp_left.mpr fun hcheck => ?_
      have hjump' : (ctrlOf reg).brType = brJ ∨ (ctrlOf reg).brType = brJr := by
        rw [← hs.register.ctrl]
        have hcheck : s.ex.jCheck = true := Bool.eq_true_of_not_eq_false hcheck
        rw [hs.coherent.jCheck] at hcheck
        simpa using hcheck
      rw [misaligned_eq_false_iff]
      exact hjump _ (hs.register.jumpSum hjump')
  | load | store | fence | fenceI =>
      exact iaddrInvalidJ_of_noTransfer io hs.coherent (by rw [hctrl]; rfl)

/-- An aligned access passes the checks of EX. -/
theorem MemExecutes.accessValid (hs : s.MemExecutes io σ instr)
    (haccess : ∀ addr size, instr.access? σ.toState = some (addr, size) → size ∣ addr.toNat) :
    Csr.laddrInvalid (s.csrPorts io) = false ∧ Csr.saddrInvalid (s.csrPorts io) = false := by
  have hctrl := hs.ctrl
  have hdata {memWr : BitVec 2} (hacc : s.ex.ctrl.memWr = memWr) (hne : memWr ≠ mX)
      (haligned : Aligned s.ex.ctrl.maskType (s.aluOut io)) :=
    (aligned_iff hs.coherent (hacc ▸ hne)).mp haligned
  cases instr with
  | reg reg => exact addrInvalid_of_noAccess io (by rw [hctrl]; exact (ctrlOf_plain reg).2.1)
  | load op rd rs1 imm =>
      have hdvd := haccess _ _ rfl
      rw [← hs.aluOut_of_access rfl, ← accessSize_maskOfLoad] at hdvd
      refine hdata (hctrl ▸ rfl : _ = mXrd) (by decide) ?_
      rw [hctrl]
      exact aligned_of_dvd (isSize_maskOfLoad op) hdvd
  | store op rs1 rs2 imm =>
      have hdvd := haccess _ _ rfl
      rw [← hs.aluOut_of_access rfl, ← accessSize_maskOfStore] at hdvd
      refine hdata (hctrl ▸ rfl : _ = mXwr) (by decide) ?_
      rw [hctrl]
      exact aligned_of_dvd (isSize_maskOfStore op) hdvd
  | fence | fenceI => exact addrInvalid_of_noAccess io (by rw [hctrl]; rfl)

/-- An instruction that jumps to an aligned target and makes an aligned access,
if at all, does not trap. -/
theorem MemExecutes.expt (hs : s.MemExecutes io σ instr)
    (hpc : Csr.misaligned σ.pc = false) (hmeie : s.csr.meie = false)
    (hjump : ∀ target, instr.target? σ.toState = some target → target.extractLsb' 0 2 = 0)
    (haccess : ∀ addr size, instr.access? σ.toState = some (addr, size) → size ∣ addr.toNat) :
    s.expt io = false := by
  obtain ⟨hlegal, hcmd, _⟩ := ctrlOfMem_plain instr
  rw [← hs.ctrl] at hlegal hcmd
  obtain ⟨hload, hstore⟩ := hs.accessValid haccess
  rw [expt_of_plain io hlegal (hs.coherent.csrCmd.trans hcmd) (by rw [hs.pc]; exact hpc) hmeie,
    hs.jumpValid hjump, hload, hstore]
  rfl

end Execute

end KyogenRVCpu

end KyogenRV
