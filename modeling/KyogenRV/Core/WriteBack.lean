import KyogenRV.Core.Execute

/-!
# Writing back

The register writes of the instructions in WB and MEM, and how they reach the
register file.  An instruction writes its register in each cycle it stays in
WB; what counts is the write of the cycle in which it leaves.
-/

namespace KyogenRV

open ScalarOpConstants MemoryOpConstants

namespace KyogenRVCpu

section Pending

variable (s : KyogenRVCpu) (io : HostIf)

/-- The register write of the instruction in WB. -/
def wbPending : List (BitVec 5 × Word) :=
  if s.wb.ctrl.rfWen && s.wb.regWaddr != 0 then [(s.wb.regWaddr, s.rfWdata io)] else []

/-- The register write of the instruction in MEM. -/
def memPending : List (BitVec 5 × Word) :=
  if s.mem.ctrl.rfWen && s.mem.regWaddr != 0 then
    s.memResult.toList.map fun value => (s.mem.regWaddr, value)
  else []

/-- An instruction passes through WB at this edge and writes a register. -/
def written : List (BitVec 5 × Word) := if s.waitrequest io then [] else s.wbPending io

end Pending

section Step

variable {s t : KyogenRVCpu} {io : HostIf}

/-- Unless it is a load, what WB writes depends on WB alone. -/
theorem rfWdata_of_not_load (hsel : s.wb.ctrl.wbSel ≠ wbMem) (hwb : t.wb = s.wb)
    (io io' : HostIf) : t.rfWdata io' = s.rfWdata io := by
  simp only [rfWdata, muxCase_cons, muxCase_nil, hwb, beq_eq_false_iff_ne.mpr hsel,
    Bool.false_eq_true, if_false]

theorem wbPending_of_not_load (hsel : s.wb.ctrl.wbSel ≠ wbMem) (hwb : t.wb = s.wb)
    (io io' : HostIf) : t.wbPending io' = s.wbPending io := by
  rw [wbPending, wbPending, rfWdata_of_not_load hsel hwb io io', hwb]

theorem memResult_of_not_load (hsel : s.mem.ctrl.wbSel ≠ wbMem) :
    ∃ value, s.memResult = some value := by
  rw [memResult, if_neg (by simpa using hsel)]
  split_ifs <;> exact ⟨_, rfl⟩

/-- What MEM is about to write, it writes in WB. -/
theorem wbPending_of_wbIssue (hsel : s.mem.ctrl.wbSel ≠ wbMem) (hwb : t.wb = s.wbIssue)
    (io : HostIf) : t.wbPending io = s.memPending := by
  obtain ⟨value, hvalue⟩ := memResult_of_not_load hsel
  rw [wbPending, memPending, rfWdata_of_memResult hvalue hwb, hwb, hvalue]
  rfl

/-- The register file behind WB. -/
theorem rv32iReg_step {r : BitVec 5} (hr : r ≠ 0) :
    (s.step io).rv32iReg r = if s.wbWrites r then s.rfWdata io else s.rv32iReg r := by
  rw [step_rv32iReg, rv32iRegNext, wbWrites]
  by_cases hmatch : s.wb.regWaddr = r
  · subst hmatch
    rw [beq_self_eq_true, bne_iff_ne.mpr hr]
    split_ifs
    · exact Function.update_self ..
    · rfl
  · rw [beq_eq_false_iff_ne.mpr hmatch, Bool.and_false, if_neg Bool.false_ne_true]
    split_ifs
    · exact Function.update_of_ne (Ne.symm hmatch) ..
    · rfl

/-- While the pipeline waits, the pending registers stay. -/
theorem pendingReg_of_held (hsel : s.wb.ctrl.wbSel ≠ wbMem) (hmem : (s.step io).mem = s.mem)
    (hwb : (s.step io).wb = s.wb) {r : BitVec 5} (hr : r ≠ 0) (io' : HostIf) :
    (s.step io).pendingReg io' r = s.pendingReg io r := by
  have hdata := rfWdata_of_not_load hsel hwb io io'
  have hwrites : (s.step io).wbWrites r = s.wbWrites r := by rw [wbWrites, hwb, wbWrites]
  rw [pendingReg, pendingReg, memWrites, memResult, hmem, hdata, hwrites, rv32iReg_step hr,
    memWrites, memResult]
  split_ifs <;> rfl

/-- When it moves, the instruction that enters MEM comes on top. -/
theorem pendingReg_of_moved (hsel : s.mem.ctrl.wbSel ≠ wbMem)
    (hwb : (s.step io).wb = s.wbIssue) {r : BitVec 5} (hr : r ≠ 0) (io' : HostIf) :
    (s.step io).pendingReg io' r =
      if (s.step io).memWrites r then (s.step io).memResult else s.pendingReg io r := by
  obtain ⟨value, hvalue⟩ := memResult_of_not_load hsel
  have hdata := rfWdata_of_memResult hvalue hwb io'
  have hwrites : (s.step io).wbWrites r = s.memWrites r := by
    rw [wbWrites, hwb, memWrites]
    rfl
  rw [pendingReg, hdata, hwrites, rv32iReg_step hr, pendingReg, hvalue]
  split_ifs <;> rfl

/-! ## The writes of one instruction -/

theorem memWrites_of_zero (hrd : s.mem.regWaddr = 0) {r : BitVec 5} (hr : r ≠ 0) :
    s.memWrites r = false := by
  rw [memWrites, hrd, beq_eq_false_iff_ne.mpr (Ne.symm hr), Bool.and_false]

theorem memPending_of_zero (hrd : s.mem.regWaddr = 0) : s.memPending = [] := by
  rw [memPending, hrd, bne_self_eq_false, Bool.and_false, if_neg Bool.false_ne_true]

variable {σ : Rv32i.State} {instr : Rv32i.Instr}

/-- The destination in MEM of an executed instruction. -/
theorem Executes.memDest (hs : s.Executes io σ instr) (hmem : t.mem = s.memIssue io) :
    instr.dest = if t.mem.ctrl.rfWen then t.mem.regWaddr else 0 := by
  rw [hmem, ctrlOf_rfWen (Rv32i.encodes_of_decode hs.instr), ← hs.ctrl]
  exact congrArg (fun rd => if s.ex.ctrl.rfWen then rd else 0) hs.coherent.regWaddr.symm

/-- The result in MEM of an executed instruction that writes a register. -/
theorem Executes.memValue (hs : s.Executes io σ instr) (hmem : t.mem = s.memIssue io)
    (hwen : t.mem.ctrl.rfWen = true) : t.memResult = some (instr.value σ) := by
  refine hs.memResult hmem ?_
  rw [← hs.ctrl, ← hwen, hmem]
  rfl

/-- In MEM an executed instruction is about to make the write that the
instruction set prescribes. -/
theorem Executes.memPending (hs : s.Executes io σ instr) (hmem : t.mem = s.memIssue io) :
    t.memPending = instr.writes σ := by
  have hdest := hs.memDest hmem
  rw [KyogenRVCpu.memPending, Rv32i.Instr.writes, hdest]
  cases hwen : t.mem.ctrl.rfWen with
  | false => rfl
  | true =>
      rw [hs.memValue hmem hwen, if_pos rfl, Bool.true_and]
      by_cases hrd : t.mem.regWaddr = 0
      · rw [if_pos hrd, if_neg (by simp [hrd])]
      · rw [if_neg hrd, if_pos (bne_iff_ne.mpr hrd)]
        rfl

/-- With an executed instruction in MEM on top, the registers are those behind
it. -/
theorem Executes.regs (hs : s.Executes io σ instr) (hmem : t.mem = s.memIssue io) {r : BitVec 5}
    (hr : r ≠ 0) :
    (if t.memWrites r then t.memResult else some (σ.regs r)) = some ((instr.exec σ).regs r) := by
  rw [Rv32i.Instr.exec_regs σ instr hr, hs.memDest hmem, memWrites]
  cases hwen : t.mem.ctrl.rfWen with
  | false => rw [if_neg Bool.false_ne_true, if_neg (Ne.symm hr)]; rfl
  | true =>
      rw [hs.memValue hmem hwen, if_pos rfl, Bool.true_and]
      by_cases hrd : t.mem.regWaddr = r
      · rw [if_pos (beq_iff_eq.mpr hrd), if_pos hrd]
      · rw [if_neg (by simpa using hrd), if_neg hrd]

end Step

end KyogenRVCpu

end KyogenRV
