import KyogenRV.Core.Pipeline

/-!
# Forwarding

The operand that EX uses is the value its register will hold when the two
older instructions have written back.  The five bypass cases do not cover
loads and links; they are sound because the interlocks never let an instruction
issue right behind one that it reads, and empty EX behind a data access or a
jump.
-/

namespace KyogenRV

open ScalarOpConstants MemoryOpConstants

namespace KyogenRVCpu

/-! ## The architectural value of a register -/

section Pending

variable (s : KyogenRVCpu) (io : HostIf) (r : BitVec 5)

def wbWrites : Bool := s.wb.ctrl.rfWen && s.wb.regWaddr == r
def memWrites : Bool := s.mem.ctrl.rfWen && s.mem.regWaddr == r

/-- The result that the instruction in MEM will write back.  A load has none
before its data has arrived. -/
def memResult : Option Word :=
  if s.mem.ctrl.wbSel == wbMem then none
  else if s.mem.ctrl.wbSel == wbPc4 then some s.mem.npc
  else if s.mem.ctrl.wbSel == wbCsr then some s.mem.csrData
  else some s.mem.aluOut

/-- The value of register `r` after the instruction in WB and then the
instruction in MEM have written back. -/
def pendingReg : Option Word :=
  if s.memWrites r then s.memResult
  else if s.wbWrites r then some (s.rfWdata io)
  else some (s.rv32iReg r)

end Pending

/-- Once in WB, the instruction writes the result announced in MEM. -/
theorem rfWdata_of_memResult {s t : KyogenRVCpu} {v : Word} (hv : s.memResult = some v)
    (hwb : t.wb = s.wbIssue) (io : HostIf) : t.rfWdata io = v := by
  simp only [memResult] at hv
  split_ifs at hv with hmem hpc4 hcsr
  all_goals
    simp only [Option.some.injEq] at hv
    subst hv
    simp_all [rfWdata, wbIssue]

/-! ## What stands ahead of an instruction in EX -/

/-- One source operand of EX is up to date: a load in MEM writes another
register, and the captured value is the one in the register file unless WB is
about to replace it. -/
structure OperandReady (s : KyogenRVCpu) (raddr : BitVec 5) (rs : Word) : Prop where
  load : s.mem.ctrl.memWr = mXrd → s.mem.regWaddr ≠ raddr
  value : raddr ≠ 0 → s.wbWrites raddr = true ∨ rs = s.rv32iReg raddr

/-- An instruction in EX never has a data access or a jump in WB, and both of
its operands are up to date. -/
structure ExReady (s : KyogenRVCpu) : Prop where
  noAccess : s.wb.ctrl.memWr = mX
  noJump : s.wb.ctrl.brType ≠ brJ ∧ s.wb.ctrl.brType ≠ brJr
  operand1 : s.OperandReady s.ex.regRaddr1 s.ex.rs1
  operand2 : s.OperandReady s.ex.regRaddr2 s.ex.rs2

/-- The forwarding invariant: EX is empty or ready. -/
def ForwardInv (s : KyogenRVCpu) : Prop := s.ex = .bubble ∨ s.ExReady

theorem forwardInv_reset {s : KyogenRVCpu} (hs : s.IsReset) : s.ForwardInv := by
  obtain ⟨_, _, _, _, _, _, _, rfl⟩ := hs
  exact Or.inl rfl

section Step

variable {s : KyogenRVCpu} {io : HostIf}

/-- While the pipeline waits only the register that WB writes can change. -/
theorem OperandReady.held {raddr : BitVec 5} {rs : Word} (hs : s.OperandReady raddr rs)
    (hmem : (s.step io).mem = s.mem) (hwb : (s.step io).wb = s.wb) :
    (s.step io).OperandReady raddr rs where
  load := by rw [hmem]; exact hs.load
  value := by
    intro hraddr
    simp only [wbWrites, hwb, step_rv32iReg]
    rcases hs.value hraddr with hwrites | hvalue
    · exact Or.inl hwrites
    · cases hwrites : s.wb.ctrl.rfWen && s.wb.regWaddr == raddr with
      | true => exact Or.inl rfl
      | false =>
          refine Or.inr ?_
          rw [hvalue, rv32iRegNext]
          split_ifs with hwen
          · have hne : raddr ≠ s.wb.regWaddr := by
              rintro rfl
              simp_all
            rw [Function.update_of_ne hne]
          · rfl

/-- The value read in ID is up to date when no instruction in WB names the
register. -/
theorem operandReady_issue {raddr : BitVec 5}
    (hload : s.ex.ctrl.memWr = mXrd → s.ex.regWaddr ≠ raddr)
    (hwb : raddr ≠ 0 → raddr ≠ s.wb.regWaddr)
    (hmem : (s.step io).mem = s.memIssue io) :
    (s.step io).OperandReady raddr (s.readReg raddr) where
  load := by rw [hmem]; exact hload
  value := by
    intro hraddr
    refine Or.inr ?_
    simp only [readReg, beq_iff_eq, hraddr, if_false, step_rv32iReg, rv32iRegNext]
    split_ifs with hwen
    · rw [Function.update_of_ne (hwb hraddr)]
    · rfl

theorem stall_false_operands (hstall : s.stall io = false) (hkill : s.instKill io = false) :
    (s.ex.ctrl.memWr = mXrd → s.ex.regWaddr ≠ s.idRaddr1 ∧ s.ex.regWaddr ≠ s.idRaddr2) ∧
      (s.idRaddr1 ≠ 0 → s.idRaddr1 ≠ s.wb.regWaddr) ∧
      (s.idRaddr2 ≠ 0 → s.idRaddr2 ≠ s.wb.regWaddr) := by
  simp only [stall, hkill, Bool.not_false, Bool.and_true, Bool.or_eq_false_iff,
    Bool.and_eq_false_iff, beq_eq_false_iff_ne, bne_eq_false_iff_eq] at hstall
  obtain ⟨⟨⟨⟨⟨hload, hraddr1⟩, hraddr2⟩, _⟩, _⟩, _⟩ := hstall
  refine ⟨fun h => ?_, fun h => ?_, fun h => ?_⟩
  · exact hload.resolve_right fun h' => h'.2 h
  · exact hraddr1.resolve_left h
  · exact hraddr2.resolve_left h

theorem forwardInv_step (hs : s.ForwardInv) : (s.step io).ForwardInv := by
  cases s.stageStep io with
  | held _ hex hmem hwb =>
      rcases hs with hbubble | hready
      · exact Or.inl (hex.trans hbubble)
      · refine Or.inr ⟨?_, ?_, ?_, ?_⟩
        · rw [hwb]; exact hready.noAccess
        · rw [hwb]; exact hready.noJump
        · rw [hex]; exact hready.operand1.held hmem hwb
        · rw [hex]; exact hready.operand2.held hmem hwb
  | killed _ _ hex _ _ => exact Or.inl hex
  | drained _ _ _ hex _ _ => exact Or.inl hex
  | issued hwait hkill hhold hex hmem hwb =>
      simp only [holdIssue, Bool.or_eq_false_iff] at hhold
      obtain ⟨⟨hstall, hproc⟩, _⟩ := hhold
      obtain ⟨hload, hwb1, hwb2⟩ := stall_false_operands hstall hkill
      refine Or.inr ⟨?_, ?_, ?_, ?_⟩
      · rw [hwb]
        simp only [loadstoreProc, Bool.or_eq_false_iff, bne_eq_false_iff_eq] at hproc
        exact hproc.1
      · rw [hwb]
        simp only [instKill, instKillBranch, Bool.or_eq_false_iff, beq_eq_false_iff_ne] at hkill
        exact ⟨hkill.1.1.2, hkill.1.1.1.2⟩
      · rw [hex]
        exact operandReady_issue (fun h => (hload h).1) hwb1 hmem
      · rw [hex]
        exact operandReady_issue (fun h => (hload h).2) hwb2 hmem

end Step

theorem Reachable.forwardInv {s : KyogenRVCpu} (hs : s.Reachable) : s.ForwardInv :=
  Machine.Reachable.invariant (fun _ => forwardInv_reset) (fun _ _ h => forwardInv_step h) hs

/-! ## Soundness of the bypass -/

section Bypass

variable {s : KyogenRVCpu} {io : HostIf} {raddr : BitVec 5} {rs : Word}

theorem exRegBypass_eq (hraddr : raddr ≠ 0) :
    s.exRegBypass io raddr rs =
      if raddr = s.mem.regWaddr ∧ s.mem.ctrl.csrCmd ≠ CSR.n then s.mem.csrData
      else if raddr = s.mem.regWaddr ∧ s.mem.ctrl.rfWen = true then s.mem.aluOut
      else if raddr = s.wb.regWaddr ∧ s.wb.ctrl.rfWen = true then
        if s.wb.ctrl.csrCmd ≠ CSR.n then s.wb.csrData
        else if s.wb.ctrl.memEn = true then io.rDmemData
        else s.wb.aluOut
      else rs := by
  have hraddr' : (raddr != 0) = true := by simpa using hraddr
  simp only [exRegBypass, muxCase_cons, muxCase_nil, hraddr', Bool.true_and, Bool.and_eq_true,
    beq_iff_eq, bne_iff_ne, Bool.not_eq_true']
  split_ifs <;> simp_all

/-- The instruction in MEM writes the operand: it is neither a load nor a jump,
and the first two bypass cases take its CSR or ALU result. -/
theorem exRegBypass_of_memWrites (hs : s.Coherent) (hkill : s.instKillBranch = false)
    (hop : s.OperandReady raddr rs) (hraddr : raddr ≠ 0) (hmem : s.memWrites raddr = true) :
    s.memResult = some (s.exRegBypass io raddr rs) := by
  obtain ⟨inst, hctrl, _⟩ := hs.mem
  simp only [memWrites, Bool.and_eq_true, beq_iff_eq] at hmem
  obtain ⟨hwen, rfl⟩ := hmem
  have hload : s.mem.ctrl.memWr ≠ mXrd := fun h => hop.load h rfl
  rw [exRegBypass_eq hraddr]
  by_cases hcsr : s.mem.ctrl.csrCmd = CSR.n
  · have hjump : s.mem.ctrl.brType ≠ brJ ∧ s.mem.ctrl.brType ≠ brJr := by
      simp only [instKillBranch, Bool.or_eq_false_iff, beq_eq_false_iff_ne] at hkill
      exact ⟨hkill.1.2, hkill.1.1.2⟩
    have halu : s.mem.ctrl.wbSel = wbAlu := by
      rw [hctrl] at hwen hcsr hload hjump ⊢
      exact (idDecode_wbSel_of_alu inst hwen hcsr hload hjump.1 hjump.2).1
    simp [memResult, halu, hcsr, hwen]
  · have hsel : s.mem.ctrl.wbSel = wbCsr := by
      rw [hctrl] at hwen hcsr ⊢
      exact idDecode_wbSel_of_csr inst hcsr hwen
    rw [if_pos ⟨rfl, hcsr⟩]
    simp [memResult, hsel]

/-- If MEM does not write the operand, neither of its bypass cases applies: a
CSR command without a register write has destination zero. -/
theorem exRegBypass_of_not_memWrites (hs : s.Coherent) (hraddr : raddr ≠ 0)
    (hmem : s.memWrites raddr = false) :
    s.exRegBypass io raddr rs =
      if raddr = s.wb.regWaddr ∧ s.wb.ctrl.rfWen = true then
        if s.wb.ctrl.csrCmd ≠ CSR.n then s.wb.csrData
        else if s.wb.ctrl.memEn = true then io.rDmemData
        else s.wb.aluOut
      else rs := by
  obtain ⟨inst, hctrl, hrd⟩ := hs.mem
  have hwen : raddr = s.mem.regWaddr → s.mem.ctrl.rfWen = false := by
    rintro rfl
    simpa [memWrites] using hmem
  have hcsr : raddr = s.mem.regWaddr → s.mem.ctrl.csrCmd = CSR.n := by
    intro hmatch
    by_contra hcsr
    have hnoWen := hwen hmatch
    rw [hctrl] at hcsr hnoWen
    exact hraddr (by rw [hmatch, hrd, rd_eq_zero_of_csr hcsr hnoWen])
  rw [exRegBypass_eq hraddr, if_neg fun h => h.2 (hcsr h.1),
    if_neg fun h => by simp [hwen h.1] at h]

/-- The instruction in WB writes the operand and MEM does not. -/
theorem exRegBypass_of_wbWrites (rs : Word) (hs : s.Coherent) (hready : s.ExReady)
    (hraddr : raddr ≠ 0) (hmem : s.memWrites raddr = false)
    (hwb : s.wbWrites raddr = true) :
    s.rfWdata io = s.exRegBypass io raddr rs := by
  obtain ⟨inst, hctrl, _⟩ := hs.wb
  rw [exRegBypass_of_not_memWrites hs hraddr hmem]
  simp only [wbWrites, Bool.and_eq_true, beq_iff_eq] at hwb
  obtain ⟨hwen, rfl⟩ := hwb
  rw [if_pos ⟨rfl, hwen⟩]
  by_cases hcsr : s.wb.ctrl.csrCmd = CSR.n
  · have hload : s.wb.ctrl.memWr ≠ mXrd := by rw [hready.noAccess]; decide
    obtain ⟨hjump, hlink⟩ := hready.noJump
    have halu : s.wb.ctrl.wbSel = wbAlu ∧ s.wb.ctrl.memEn = false := by
      rw [hctrl] at hwen hcsr hload hjump hlink ⊢
      exact idDecode_wbSel_of_alu inst hwen hcsr hload hjump hlink
    simp [rfWdata, halu, hcsr]
  · have hsel : s.wb.ctrl.wbSel = wbCsr := by
      rw [hctrl] at hwen hcsr ⊢
      exact idDecode_wbSel_of_csr inst hcsr hwen
    rw [if_pos hcsr]
    simp [rfWdata, hsel]

/-- Behind EX the data port is not read. -/
theorem ExReady.memEn (hready : s.ExReady) (hs : s.Coherent) (hwen : s.wb.ctrl.rfWen = true)
    (hcsr : s.wb.ctrl.csrCmd = CSR.n) : s.wb.ctrl.memEn = false := by
  obtain ⟨inst, hctrl, _⟩ := hs.wb
  have hload : s.wb.ctrl.memWr ≠ mXrd := by rw [hready.noAccess]; decide
  obtain ⟨hjump, hlink⟩ := hready.noJump
  rw [hctrl] at hwen hcsr hload hjump hlink ⊢
  exact (idDecode_wbSel_of_alu inst hwen hcsr hload hjump hlink).2

/-- The operand depends on the stages only. -/
theorem exRegBypass_congr {t : KyogenRVCpu} (hs : s.Coherent) (hready : s.ExReady)
    (hmem : t.mem = s.mem) (hwb : t.wb = s.wb) (io io' : HostIf) (raddr : BitVec 5) (rs : Word) :
    t.exRegBypass io' raddr rs = s.exRegBypass io raddr rs := by
  by_cases hzero : raddr = 0
  · rw [hzero]
    rfl
  · rw [exRegBypass_eq hzero, exRegBypass_eq hzero, hmem, hwb]
    split_ifs with _ _ hwrites hcsr hen
    · rfl
    · rfl
    · rfl
    · rw [hready.memEn hs hwrites.2 (not_not.mp hcsr)] at hen
      exact absurd hen Bool.false_ne_true
    · rfl
    · rfl

theorem pendingReg_eq_bypass (hs : s.Coherent) (hkill : s.instKillBranch = false)
    (hready : s.ExReady) (hop : s.OperandReady raddr rs) (hraddr : raddr ≠ 0) :
    s.pendingReg io raddr = some (s.exRegBypass io raddr rs) := by
  cases hmem : s.memWrites raddr with
  | true =>
      simpa [pendingReg, hmem] using exRegBypass_of_memWrites hs hkill hop hraddr hmem
  | false =>
      cases hwb : s.wbWrites raddr with
      | true =>
          simpa [pendingReg, hmem, hwb] using
            exRegBypass_of_wbWrites rs hs hready hraddr hmem hwb
      | false =>
          have hvalue := (hop.value hraddr).resolve_left (by simp [hwb])
          have hnone : ¬(raddr = s.wb.regWaddr ∧ s.wb.ctrl.rfWen = true) := by
            rintro ⟨rfl, hwen⟩
            simp [wbWrites, hwen] at hwb
          rw [exRegBypass_of_not_memWrites hs hraddr hmem, if_neg hnone, hvalue]
          simp [pendingReg, hmem, hwb]

end Bypass

/-- Unless a taken transfer is in MEM, the forwarded operands are pending. -/
theorem ForwardInv.operands {s : KyogenRVCpu} (hs : s.ForwardInv) (hco : s.Coherent)
    (hbranch : s.instKillBranch = false) (io : HostIf) :
    (s.ex.regRaddr1 ≠ 0 →
      s.pendingReg io s.ex.regRaddr1 = some (s.exRegRs1Bypass io)) ∧
    (s.ex.regRaddr2 ≠ 0 →
      s.pendingReg io s.ex.regRaddr2 = some (s.exRegRs2Bypass io)) := by
  rcases hs with hbubble | hready
  · simp [hbubble, ExStage.bubble]
  · exact ⟨pendingReg_eq_bypass hco hbranch hready hready.operand1,
      pendingReg_eq_bypass hco hbranch hready hready.operand2⟩

/-- In every reachable state without a kill, each nonzero source operand of EX
is forwarded as the value its register will hold after the instructions in WB
and MEM have written back. -/
theorem bypass_sound {s : KyogenRVCpu} (hs : s.Reachable) (io : HostIf)
    (hkill : s.instKill io = false) :
    (s.ex.regRaddr1 ≠ 0 →
      s.pendingReg io s.ex.regRaddr1 = some (s.exRegRs1Bypass io)) ∧
    (s.ex.regRaddr2 ≠ 0 →
      s.pendingReg io s.ex.regRaddr2 = some (s.exRegRs2Bypass io)) := by
  simp only [instKill, Bool.or_eq_false_iff] at hkill
  exact hs.forwardInv.operands hs.coherent hkill.1 io

/-- An `addi x2, x1, 1` in EX behind an `addi x1, x0, 5` in MEM. -/
theorem bypass_sound_addi :
    let s := sample [.fetch 0x00500093, .fetch 0x00108113, .idle]
    s.ex.regRaddr1 = 1 ∧ s.pendingReg .idle 1 = some (s.exRegRs1Bypass .idle) := by
  intro s
  have hraddr : s.ex.regRaddr1 = 1 := by decide +kernel
  refine ⟨hraddr, ?_⟩
  have hsound := (bypass_sound (reachable_sample _) .idle (s := s) (by decide +kernel)).1
  rw [← hraddr]
  exact hsound (by rw [hraddr]; decide)

end KyogenRVCpu

end KyogenRV
