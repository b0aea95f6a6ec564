import KyogenRV.Core.DecodeRv32i
import KyogenRV.Core.Forwarding
import KyogenRV.Core.Kill

/-!
# Execution of one instruction

An RV32I instruction that moves from EX to MEM with up-to-date operands takes
along the value, the destination and the jump that the instruction set
prescribes.
-/

namespace KyogenRV

open ScalarOpConstants MemoryOpConstants

/-- RV32I register instructions are legal, access no memory and no CSR. -/
theorem ctrlOf_plain (instr : Rv32i.Instr) :
    (ctrlOf instr).legal = true ∧ (ctrlOf instr).memWr = mX ∧ (ctrlOf instr).csrCmd = CSR.n ∧
      (ctrlOf instr).wbSel ≠ wbMem ∧ (ctrlOf instr).brType ≠ brRet := by
  cases instr with
  | branch cond => cases cond <;> simp [ctrlOf, branchCtrl, aluCtrl, brOf]
  | _ => simp [ctrlOf, aluCtrl]

/-- All but the branches write a register. -/
theorem ctrlOf_rfWen {w : Word} {instr : Rv32i.Instr} (hw : Rv32i.Encodes w instr) :
    instr.dest = if (ctrlOf instr).rfWen then Rv32i.rd w else 0 := by
  cases hw <;> rfl

namespace KyogenRVCpu

/-- EX holds an instruction at the pc of `σ` with its operands of `σ`. -/
structure Executes (s : KyogenRVCpu) (io : HostIf) (σ : Rv32i.State) (instr : Rv32i.Instr) :
    Prop where
  coherent : s.ex.Coherent
  instr : Rv32i.decode s.ex.inst = some instr
  pc : s.ex.pc = σ.pc
  npc : s.ex.npc = σ.pc + 4
  rs1 : s.exRegRs1Bypass io = σ.read (Rv32i.rs1 s.ex.inst)
  rs2 : s.exRegRs2Bypass io = σ.read (Rv32i.rs2 s.ex.inst)

section Operands

variable (s : KyogenRVCpu) (io : HostIf)

theorem exOp1_rs1 (hsel : s.ex.ctrl.aluOp1 = op1Rs1) : s.exOp1 io = s.exRegRs1Bypass io := by
  simp [exOp1, hsel]

theorem exOp1_pc (hsel : s.ex.ctrl.aluOp1 = op1Pc) : s.exOp1 io = s.ex.pc := by
  simp [exOp1, hsel]

theorem exOp2_rs2 (hsel : s.ex.ctrl.aluOp2 = op2Rs2) : s.exOp2 io = s.exRegRs2Bypass io := by
  simp [exOp2, hsel]

theorem exOp2_imm (hsel : s.ex.ctrl.aluOp2 = op2Imm) : s.exOp2 io = s.exImm := by
  simp [exOp2, hsel]

end Operands

section Execute

variable {s : KyogenRVCpu} {io : HostIf} {σ : Rv32i.State} {instr : Rv32i.Instr}

theorem Executes.ctrl (hs : s.Executes io σ instr) : s.ex.ctrl = ctrlOf instr :=
  hs.coherent.ctrl.trans (idDecode_of_decode hs.instr)

/-- The sum of the operands of a jump is its target. -/
theorem Executes.jumpSum (hs : s.Executes io σ instr)
    (hjump : (ctrlOf instr).brType = brJ ∨ (ctrlOf instr).brType = brJr) :
    instr.target? σ = some (s.exOp1 io + s.exOp2 io) := by
  obtain ⟨himmI, _, _, himmJ⟩ := immGen_apply s.ex.inst
  have hctrl := hs.ctrl
  cases Rv32i.encodes_of_decode hs.instr with
  | jal =>
      rw [s.exOp1_pc io (by rw [hctrl]; rfl), s.exOp2_imm io (by rw [hctrl]; rfl), hs.pc, exImm,
        hctrl]
      exact congrArg (fun imm => some (σ.pc + imm)) himmJ.symm
  | jalr =>
      rw [s.exOp1_rs1 io (by rw [hctrl]; rfl), s.exOp2_imm io (by rw [hctrl]; rfl), hs.rs1, exImm,
        hctrl]
      exact congrArg (fun imm => some (σ.read _ + imm)) himmI.symm
  | branch cond =>
      cases cond <;> simp [ctrlOf, branchCtrl, aluCtrl, brOf] at hjump
  | lui | auipc | opImm | opReg => simp [ctrlOf, aluCtrl] at hjump

/-- The ALU result of an instruction that writes it. -/
theorem Executes.aluOut_eq_value (hs : s.Executes io σ instr)
    (hsel : (ctrlOf instr).wbSel = wbAlu) (hwen : (ctrlOf instr).rfWen = true) :
    s.aluOut io = instr.value σ := by
  obtain ⟨himmI, _, himmU, _⟩ := immGen_apply s.ex.inst
  have hctrl := hs.ctrl
  rw [aluOut]
  cases Rv32i.encodes_of_decode hs.instr with
  | lui =>
      rw [s.exOp2_imm io (by rw [hctrl]; rfl), exImm, hctrl]
      exact himmU
  | auipc =>
      rw [s.exOp1_pc io (by rw [hctrl]; rfl), s.exOp2_imm io (by rw [hctrl]; rfl), exImm, hctrl,
        hs.pc]
      exact (ALU.out_add _ _).trans (congrArg (σ.pc + ·) himmU)
  | opImm op =>
      rw [s.exOp1_rs1 io (by rw [hctrl]; rfl), s.exOp2_imm io (by rw [hctrl]; rfl), exImm, hctrl,
        hs.rs1]
      exact (ALU.out_ofAluOp op _ _).trans (congrArg (op.eval _) himmI)
  | opReg op =>
      rw [s.exOp1_rs1 io (by rw [hctrl]; rfl), s.exOp2_rs2 io (by rw [hctrl]; rfl), hctrl,
        hs.rs1, hs.rs2]
      exact ALU.out_ofAluOp op _ _
  | jal | jalr => simp [ctrlOf, aluCtrl] at hsel
  | branch cond => simp [ctrlOf, branchCtrl] at hwen

/-- A branch is decided by its condition. -/
theorem Executes.branch_taken (hs : s.Executes io σ instr) {cond : Rv32i.Cond}
    {rs1 rs2 : BitVec 5} {imm : Word} (hbranch : instr = .branch cond rs1 rs2 imm) :
    s.aluCmpOut io = cond.holds (σ.read rs1) (σ.read rs2) ∧ s.exImm = imm := by
  have hctrl := hs.ctrl
  have himm := (immGen_apply s.ex.inst).2.1
  cases Rv32i.encodes_of_decode hs.instr with
  | branch cond' =>
      obtain ⟨rfl, rfl, rfl, rfl⟩ := Rv32i.Instr.branch.inj hbranch
      refine ⟨?_, ?_⟩
      · rw [aluCmpOut, s.exOp1_rs1 io (by rw [hctrl]; rfl), s.exOp2_rs2 io (by rw [hctrl]; rfl),
          hctrl, hs.rs1, hs.rs2]
        exact ALU.cmpOut_ofCond cond' _ _
      · rw [exImm, hctrl]
        exact himm
  | _ => exact absurd hbranch (by simp)

/-! ## In MEM -/

variable {t : KyogenRVCpu}

/-- In MEM the instruction has the result to write back. -/
theorem Executes.memResult (hs : s.Executes io σ instr) (hmem : t.mem = s.memIssue io)
    (hwen : (ctrlOf instr).rfWen = true) : t.memResult = some (instr.value σ) := by
  have hctrl : t.mem.ctrl = ctrlOf instr := by rw [hmem]; exact hs.ctrl
  have halu : t.mem.aluOut = s.aluOut io := by rw [hmem]; rfl
  have hnpc : t.mem.npc = σ.pc + 4 := by rw [hmem]; exact hs.npc
  rw [KyogenRVCpu.memResult, hctrl, halu, hnpc]
  cases instr with
  | jal | jalr => rfl
  | branch => simp [ctrlOf, branchCtrl] at hwen
  | lui | auipc | opImm | opReg => exact congrArg some (hs.aluOut_eq_value rfl rfl)

/-- In MEM it redirects the fetch exactly if it jumps, and then to its target. -/
theorem Executes.transfer (hs : s.Executes io σ instr) (hmem : t.mem = s.memIssue io) :
    t.instKillBranch = (instr.target? σ).isSome ∧
      ∀ target, instr.target? σ = some target → t.transferTarget = target := by
  have hctrl : t.mem.ctrl = ctrlOf instr := by rw [hmem]; exact hs.ctrl
  have halu : t.mem.aluOut = s.aluOut io := by rw [hmem]; rfl
  have hcmp : t.mem.aluCmpOut = s.aluCmpOut io := by rw [hmem]; rfl
  have hpc : t.mem.pc = σ.pc := by rw [hmem]; exact hs.pc
  have himm : t.mem.imm = s.exImm := by rw [hmem]; rfl
  have hjump (hbr : (ctrlOf instr).brType = brJ ∨ (ctrlOf instr).brType = brJr)
      (hadd : (ctrlOf instr).aluFunc = ALU.aluAdd) : instr.target? σ = some (s.aluOut io) := by
    rw [hs.jumpSum hbr, aluOut, hs.ctrl, hadd, ALU.out_add]
  rw [instKillBranch, transferTarget, hctrl, halu, hcmp, hpc, himm]
  cases instr with
  | lui | auipc | opImm | opReg => exact ⟨rfl, fun _ h => absurd h (by simp [Rv32i.Instr.target?])⟩
  | jal =>
      rw [hjump (Or.inl rfl) rfl]
      exact ⟨rfl, fun _ h => Option.some.inj h⟩
  | jalr =>
      rw [hjump (Or.inr rfl) rfl]
      exact ⟨rfl, fun _ h => Option.some.inj h⟩
  | branch cond rs1 rs2 imm =>
      obtain ⟨htaken, himm⟩ := hs.branch_taken rfl
      rw [htaken, himm, Rv32i.Instr.target?]
      cases htaken : cond.holds (σ.read rs1) (σ.read rs2) with
      | false =>
          refine ⟨?_, fun _ h => absurd h (by simp)⟩
          cases cond <;> rfl
      | true =>
          refine ⟨?_, fun _ h => ?_⟩
          · cases cond <;> rfl
          · obtain rfl := Option.some.inj h
            cases cond <;> rfl

end Execute

end KyogenRVCpu

end KyogenRV
