import Mathlib.Tactic.IntervalCases
import KyogenRV.Core.Execute
import KyogenRV.Core.Trap
import KyogenRV.Core.TrapCause

/-!
# Jumps to a register

The CSR module checks both low bits of a jump target, and the fetch takes the
sum of the ALU as it is: nothing clears bit 0 of the target of a JALR.  An odd
target with bit 1 clear traps; all others trap or redirect the fetch as the
instruction set prescribes, if the fetch follows when the jump leaves MEM.
-/

namespace KyogenRV

open ScalarOpConstants MemoryOpConstants

namespace KyogenRVCpu

section Jump

variable (s : KyogenRVCpu) (io : HostIf)

/-- Reached with halt low after loading in halt. -/
def Running : Prop :=
  ∃ s₀ inputs, Released s₀ ∧ (∀ io ∈ inputs, io.halt = false) ∧ Machine.run step s₀ inputs = s

/-- The instruction in EX is on the committed path: no older transfer kills it,
no interrupt is pending and its pc is aligned. -/
structure Committed : Prop where
  branch : s.instKillBranch = false
  interrupt : s.csr.isExtInt = false
  aligned : Csr.misaligned s.ex.pc = false

/-- The value of register `r` after the older instructions have written back. -/
def srcReg (r : BitVec 5) : Option Word := if r = 0 then some 0 else s.pendingReg io r

/-- A misaligned instruction address is recorded for the instruction in EX. -/
def RaisesMisaligned : Prop :=
  s.Recorded io ∧ (s.step io).csr.mcause = Cause.instAddrMisaligned ∧
    (s.step io).csr.mepc = s.ex.pc

/-- With a transfer to `target` leaving MEM the fetch gets there: it is requested
and nothing traps, or it comes to stand there by chance. -/
def RedirectHeard (target : Word) : Prop :=
  if s.imemReq then s.expt io = false ∨ s.csr.mtvec = target else s.pcCntr = target

/-- The source registers of EX that are `x0` are read as 0. -/
def ZeroOperands : Prop :=
  (s.ex.regRaddr1 = 0 → s.ex.rs1 = 0) ∧ (s.ex.regRaddr2 = 0 → s.ex.rs2 = 0)

variable (rd rs1 : BitVec 5) (imm base : Word) (holds : List HostIf) (leave : HostIf)
  (waits : List HostIf) (last : HostIf)

/-- A committed JALR with `base` in its source register waits in EX through
`holds`, leaves EX with `leave`, and after `waits` the pipeline moves on with
`last`, halt being low. -/
structure JalrPass : Prop where
  instr : Rv32i.decode s.ex.inst = some (.jalr rd rs1 imm)
  held : Machine.Along step (fun t io => t.waitrequest io = true ∧ t.Committed) s holds
  leaves : (Machine.run step s holds).waitrequest leave = false
  committed : (Machine.run step s holds).Committed
  operand : (Machine.run step s holds).srcReg leave rs1 = some base
  waiting : Machine.Along step (fun t io => t.waitrequest io = true)
    (Machine.run step s (holds ++ [leave])) waits
  moves : (Machine.run step s (holds ++ leave :: waits)).waitrequest last = false
  running : ∀ io ∈ holds ++ leave :: waits ++ [last], io.halt = false

/-- In every cycle in EX it traps exactly if bit 1 of its target is set.
Otherwise the fetch goes on at the target with bit 0 cleared, and `rd` becomes
the pc of the next instruction. -/
structure JalrLaw : Prop where
  raises : Machine.Along step
    (fun t io => t.RaisesMisaligned io ↔ (base + imm).getLsbD 1 = true) s (holds ++ [leave])
  redirects : (base + imm).getLsbD 1 = false →
    (Machine.run step s (holds ++ leave :: waits ++ [last])).pcCntr = (base + imm) &&& ~~~1
  links : (base + imm).getLsbD 1 = false → rd ≠ 0 → ∀ io,
    ((Machine.run step s (holds ++ leave :: waits ++ [last])).step io).rv32iReg rd = s.ex.pc + 4

end Jump

section Running

variable {s : KyogenRVCpu} {io : HostIf}

theorem Running.reachable (hs : s.Running) : s.Reachable := by
  obtain ⟨s₀, inputs, hs₀, _, rfl⟩ := hs
  exact hs₀.reachable.run inputs

theorem Running.boot (hs : s.Running) : s.BootInv := by
  obtain ⟨s₀, inputs, hs₀, hhalt, rfl⟩ := hs
  exact Machine.run_invariant (fun _ io h hlow => bootInv_step h io (Or.inl hlow))
    hs₀.haltInv.boot (Machine.along_of_mem hhalt)

theorem Running.run (hs : s.Running) {inputs : List HostIf}
    (hhalt : ∀ io ∈ inputs, io.halt = false) : (Machine.run step s inputs).Running := by
  obtain ⟨s₀, before, hs₀, hbefore, rfl⟩ := hs
  refine ⟨s₀, before ++ inputs, hs₀, fun io hio => ?_, Machine.run_append⟩
  exact (List.mem_append.mp hio).elim (hbefore io) (hhalt io)

theorem Running.next (hs : s.Running) (hhalt : io.halt = false) : (s.step io).Running := by
  have hrun := hs.run (List.forall_mem_singleton.mpr hhalt)
  exact hrun

theorem Running.stall_of_expt (hs : s.Running) (hexpt : s.expt io = true) :
    s.stall io = false :=
  hs.boot.stall_of_kill (by rw [instKill, hexpt, Bool.or_true])

theorem running_sample {inputs : List HostIf} (hhalt : ∀ io ∈ inputs, io.halt = false) :
    (sample inputs).Running := by
  refine ⟨zeroReset, _, ⟨zeroReset, [], isReset_zeroReset, by simp, rfl⟩, fun io hio => ?_, rfl⟩
  rcases List.mem_append.mp hio with hidle | hinput
  · rw [List.eq_of_mem_replicate hidle]
    rfl
  · exact hhalt io hinput

theorem zeroOperands_step (hs : s.ZeroOperands) (io : HostIf) : (s.step io).ZeroOperands := by
  refine ex_step_forall
    (P := fun ex => (ex.regRaddr1 = 0 → ex.rs1 = 0) ∧ (ex.regRaddr2 = 0 → ex.rs2 = 0)) ?_ ?_ hs
  · exact ⟨fun _ => rfl, fun _ => rfl⟩
  · exact ⟨fun h => if_pos (beq_iff_eq.mpr h), fun h => if_pos (beq_iff_eq.mpr h)⟩

theorem Reachable.zeroOperands (hs : s.Reachable) : s.ZeroOperands := by
  refine hs.invariant (I := ZeroOperands) ?_ fun _ io h => zeroOperands_step h io
  rintro _ ⟨_, _, _, _, _, _, _, rfl⟩
  exact ⟨fun _ => rfl, fun _ => rfl⟩

/-- The operands that EX uses are the values of their registers. -/
theorem srcReg_eq_bypass (hs : s.Reachable) (hbranch : s.instKillBranch = false) (io : HostIf) :
    s.srcReg io s.ex.regRaddr1 = some (s.exRegRs1Bypass io) ∧
      s.srcReg io s.ex.regRaddr2 = some (s.exRegRs2Bypass io) := by
  have hread {raddr : BitVec 5} {rs : Word} (hzero : raddr = 0 → rs = 0)
      (hop : raddr ≠ 0 → s.pendingReg io raddr = some (s.exRegBypass io raddr rs)) :
      s.srcReg io raddr = some (s.exRegBypass io raddr rs) := by
    rw [srcReg]
    split_ifs with hraddr
    · rw [← hzero hraddr, hraddr]
      rfl
    · exact hop hraddr
  obtain ⟨hop1, hop2⟩ := hs.forwardInv.operands hs.coherent hbranch io
  exact ⟨hread hs.zeroOperands.1 hop1, hread hs.zeroOperands.2 hop2⟩

theorem bypass_of_srcReg (hs : s.Reachable) (hbranch : s.instKillBranch = false) :
    (∀ {base}, s.srcReg io s.ex.regRaddr1 = some base → s.exRegRs1Bypass io = base) ∧
      (∀ {base}, s.srcReg io s.ex.regRaddr2 = some base → s.exRegRs2Bypass io = base) := by
  obtain ⟨hop1, hop2⟩ := srcReg_eq_bypass hs hbranch io
  exact ⟨fun hbase => Option.some.inj (hop1.symm.trans hbase),
    fun hbase => Option.some.inj (hop2.symm.trans hbase)⟩

theorem exRegRs1Bypass_congr {t : KyogenRVCpu} (hs : s.Coherent) (hready : s.ExReady)
    (hex : t.ex = s.ex) (hmem : t.mem = s.mem) (hwb : t.wb = s.wb) (io io' : HostIf) :
    t.exRegRs1Bypass io' = s.exRegRs1Bypass io := by
  rw [exRegRs1Bypass, exRegRs1Bypass, hex]
  exact exRegBypass_congr hs hready hmem hwb io io' _ _

end Running

/-! ## A jump in EX -/

section InEx

variable {s t : KyogenRVCpu} {io : HostIf} {instr : Rv32i.Instr} {rd rs1 : BitVec 5}
  {imm base : Word}

theorem misaligned_eq (addr : Word) :
    Csr.misaligned addr = (addr.getLsbD 0 || addr.getLsbD 1) := by
  have hbits : addr.extractLsb' 0 2 =
      BitVec.ofBool (addr.getLsbD 1) ++ BitVec.ofBool (addr.getLsbD 0) := by
    refine BitVec.eq_of_getLsbD_eq fun i hi => ?_
    simp only [BitVec.getLsbD_extractLsb', BitVec.getLsbD_append, BitVec.getLsbD_ofBool]
    interval_cases i <;> simp
  rw [Csr.misaligned, hbits]
  cases addr.getLsbD 0 <;> cases addr.getLsbD 1 <;> decide

theorem iaddrInvalidJ_of_jump (hs : s.Coherent)
    (hjump : s.ex.ctrl.brType = brJ ∨ s.ex.ctrl.brType = brJr) :
    Csr.iaddrInvalidJ (s.csrPorts io) = Csr.misaligned (s.exOp1 io + s.exOp2 io) := by
  have hcheck : (s.csrPorts io).jCheck = true := by
    refine hs.ex.jCheck.trans ?_
    rcases hjump with h | h <;> rw [h] <;> decide
  rw [Csr.iaddrInvalidJ, hcheck, Bool.true_and]
  rfl

/-- A committed jump can only have a misaligned target. -/
theorem expt_of_jump (io : HostIf) (hs : s.Coherent) (hcommitted : s.Committed)
    (hinstr : Rv32i.decode s.ex.inst = some instr)
    (hjump : (ctrlOf instr).brType = brJ ∨ (ctrlOf instr).brType = brJr) :
    s.expt io = Csr.misaligned (s.exOp1 io + s.exOp2 io) := by
  have hctrl : s.ex.ctrl = ctrlOf instr := hs.ex.ctrl.trans (idDecode_of_decode hinstr)
  obtain ⟨hlegal, hacc, hcmd, _⟩ := ctrlOf_plain instr
  rw [← hctrl] at hlegal hacc hcmd
  obtain ⟨hload, hstore⟩ := addrInvalid_of_noAccess io hacc
  rw [expt_of_accepted io hlegal (hs.ex.csrCmd.trans hcmd) hcommitted.aligned
    hcommitted.interrupt, hload, hstore, Bool.or_false, Bool.or_false]
  exact iaddrInvalidJ_of_jump hs (by rwa [hctrl])

/-- A misaligned target is the cause that is recorded. -/
theorem causes_of_jump (hs : s.Coherent) (hcommitted : s.Committed)
    (hinstr : Rv32i.decode s.ex.inst = some instr)
    (hjump : (ctrlOf instr).brType = brJ ∨ (ctrlOf instr).brType = brJr)
    (hmis : Csr.misaligned (s.exOp1 io + s.exOp2 io) = true) :
    s.csr.mcauseCause (s.csrPorts io) = .iaddrInvalidJ ∧
      s.csr.mepcCause (s.csrPorts io) = .iaddrInvalidJ := by
  have hctrl : s.ex.ctrl = ctrlOf instr := hs.ex.ctrl.trans (idDecode_of_decode hinstr)
  obtain ⟨_, hacc, hcmd, _⟩ := ctrlOf_plain instr
  rw [← hctrl] at hacc hcmd
  have hcmd' : (s.csrPorts io).cmd = CSR.n := hs.ex.csrCmd.trans hcmd
  have hpriv : Csr.privInst (s.csrPorts io) = false := by rw [Csr.privInst, hcmd']; rfl
  have hfetch : Csr.iaddrInvalidB (s.csrPorts io) = false := hcommitted.aligned
  have htarget : Csr.iaddrInvalidJ (s.csrPorts io) = true :=
    (iaddrInvalidJ_of_jump hs (by rwa [hctrl])).trans hmis
  obtain ⟨hload, hstore⟩ := addrInvalid_of_noAccess io hacc
  constructor
  · simp [Csr.mcauseCause, Csr.isEcall, Csr.isEbreak, hpriv, hcommitted.interrupt, hfetch, htarget]
  · simp [Csr.mepcCause, hcommitted.interrupt, hfetch, htarget, hload, hstore]

/-- What a recorded trap tells of the cause that both chains select. -/
theorem trapRecord_of_recorded (hrec : s.Recorded io) {cause : TrapCause}
    (hmcause : s.csr.mcauseCause (s.csrPorts io) = cause)
    (hmepc : s.csr.mepcCause (s.csrPorts io) = cause) :
    (s.step io).csr.mcause = s.csr.causeCode cause ∧
      (s.step io).csr.mepc = s.csr.causePc (s.csrPorts io) cause ∧
      (s.step io).csr.mtval = Csr.causeValue s.csr (s.csrPorts io) cause := by
  have htrap := Csr.next_of_trap hrec.2
  rw [hmcause, hmepc] at htrap
  rw [step_csr, hrec.1]
  exact htrap

/-- It is recorded with its own pc. -/
theorem raisesMisaligned_iff (hs : s.Running) (hcommitted : s.Committed)
    (hinstr : Rv32i.decode s.ex.inst = some instr)
    (hjump : (ctrlOf instr).brType = brJ ∨ (ctrlOf instr).brType = brJr) :
    s.RaisesMisaligned io ↔ Csr.misaligned (s.exOp1 io + s.exOp2 io) = true := by
  have hco := hs.reachable.coherent
  have hexpt := expt_of_jump io hco hcommitted hinstr hjump
  constructor
  · rintro ⟨⟨_, hrec⟩, _⟩
    exact hexpt.symm.trans hrec
  · intro hmis
    have hexpt' := hexpt.trans hmis
    have hrec : s.Recorded io := ⟨hs.stall_of_expt hexpt', hexpt'⟩
    obtain ⟨hmcause, hmepc⟩ := causes_of_jump hco hcommitted hinstr hjump hmis
    obtain ⟨hcode, hpc, _⟩ := trapRecord_of_recorded hrec hmcause hmepc
    exact ⟨hrec, hcode, hpc⟩

end InEx

/-! ## The pass of a JALR -/

section Pass

variable {s t : KyogenRVCpu} {io leave last : HostIf} {holds waits : List HostIf}
  {rd rs1 : BitVec 5} {imm base : Word}

/-- The sum of the operands of a JALR. -/
theorem jalr_sum (hs : s.Coherent) (hinstr : Rv32i.decode s.ex.inst = some (.jalr rd rs1 imm)) :
    s.exOp1 io + s.exOp2 io = s.exRegRs1Bypass io + imm := by
  have hctrl : s.ex.ctrl = ctrlOf (.jalr rd rs1 imm) :=
    hs.ex.ctrl.trans (idDecode_of_decode hinstr)
  have himm : Rv32i.immI s.ex.inst = imm := by
    cases Rv32i.encodes_of_decode hinstr
    rfl
  rw [s.exOp1_rs1 io (by rw [hctrl]; rfl), s.exOp2_imm io (by rw [hctrl]; rfl), exImm, hctrl]
  exact congrArg (s.exRegRs1Bypass io + ·) ((immGen_apply s.ex.inst).1.trans himm)

theorem exReady_of_jalr (hs : s.Reachable)
    (hinstr : Rv32i.decode s.ex.inst = some (.jalr rd rs1 imm)) : s.ExReady := by
  refine hs.forwardInv.resolve_left fun hbubble => ?_
  rw [hbubble] at hinstr
  revert hinstr
  have hnop : Rv32i.decode ExStage.bubble.inst = some (.opImm .add 0 0 0) := by decide
  rw [hnop]
  exact fun h => Rv32i.Instr.noConfusion (Option.some.inj h)

/-- The stages while the pipeline waits. -/
theorem stages_of_held (hheld : Machine.Along step (fun t io => t.waitrequest io = true) s holds) :
    (Machine.run step s holds).ex = s.ex ∧ (Machine.run step s holds).mem = s.mem ∧
      (Machine.run step s holds).wb = s.wb := by
  refine Machine.run_invariant (I := fun t => t.ex = s.ex ∧ t.mem = s.mem ∧ t.wb = s.wb)
    (fun t io h hwait => ?_) ⟨rfl, rfl, rfl⟩ hheld
  obtain ⟨hex, hmem, hwb⟩ := stages_of_wait hwait
  exact ⟨hex.trans h.1, hmem.trans h.2.1, hwb.trans h.2.2⟩

theorem JalrPass.held_low (hpass : s.JalrPass rd rs1 imm base holds leave waits last) :
    ∀ io ∈ holds, io.halt = false :=
  fun io hio => hpass.running io (by simp [hio])

/-- While the JALR is in EX its operands sum to its target. -/
theorem sum_of_pass (hs : s.Running)
    (hpass : s.JalrPass rd rs1 imm base holds leave waits last) (hex : t.ex = s.ex)
    (hmem : t.mem = s.mem) (hwb : t.wb = s.wb) (ht : t.Coherent) (io : HostIf) :
    t.exOp1 io + t.exOp2 io = base + imm := by
  have hco := hs.reachable.coherent
  have hready := exReady_of_jalr hs.reachable hpass.instr
  obtain ⟨hex', hmem', hwb'⟩ := stages_of_held (hpass.held.mono fun _ _ h => h.1)
  have hbase : (Machine.run step s holds).exRegRs1Bypass leave = base := by
    refine (bypass_of_srcReg (hs.run hpass.held_low).reachable hpass.committed.branch).1 ?_
    rw [hex', hco.ex.regRaddr1, ← hpass.operand]
    cases Rv32i.encodes_of_decode hpass.instr
    rfl
  have hop : t.exRegRs1Bypass io = base := by
    rw [← hbase, exRegRs1Bypass_congr hco hready hex hmem hwb io io,
      exRegRs1Bypass_congr hco hready hex' hmem' hwb' io leave]
  have hinstr : Rv32i.decode t.ex.inst = some (.jalr rd rs1 imm) := by rw [hex, hpass.instr]
  rw [jalr_sum ht hinstr, hop]

/-- In each cycle in EX the JALR traps exactly if its target is misaligned. -/
theorem raises_of_pass (hs : s.Running)
    (hpass : s.JalrPass rd rs1 imm base holds leave waits last) :
    Machine.Along step (fun t io => t.RaisesMisaligned io ↔ Csr.misaligned (base + imm) = true) s
      (holds ++ [leave]) := by
  -- one cycle of the stay, in a state with the stages of `s`
  have hcycle (t : KyogenRVCpu) (io : HostIf) (ht : t.Running) (hcommitted : t.Committed)
      (hex : t.ex = s.ex) (hmem : t.mem = s.mem) (hwb : t.wb = s.wb) :
      t.RaisesMisaligned io ↔ Csr.misaligned (base + imm) = true := by
    rw [raisesMisaligned_iff ht hcommitted (by rw [hex, hpass.instr]) (Or.inr rfl),
      sum_of_pass hs hpass hex hmem hwb ht.reachable.coherent io]
  obtain ⟨hex, hmem, hwb⟩ := stages_of_held (hpass.held.mono fun _ _ h => h.1)
  rw [Machine.along_append]
  refine ⟨?_, hcycle _ _ (hs.run hpass.held_low) hpass.committed hex hmem hwb, trivial⟩
  refine Machine.along_of_invariant
    (I := fun t => t.Running ∧ t.ex = s.ex ∧ t.mem = s.mem ∧ t.wb = s.wb) ?_ ?_
    ⟨hs, rfl, rfl, rfl⟩ (hpass.held.and (Machine.along_of_mem hpass.held_low))
  · rintro t io ⟨ht, hex', hmem', hwb'⟩ ⟨⟨hwait, _⟩, hlow⟩
    obtain ⟨hex'', hmem'', hwb''⟩ := stages_of_wait hwait
    exact ⟨ht.next hlow, hex''.trans hex', hmem''.trans hmem', hwb''.trans hwb'⟩
  · rintro t io ⟨ht, hex', hmem', hwb'⟩ ⟨⟨_, hcommitted⟩, _⟩
    exact hcycle t io ht hcommitted hex' hmem' hwb'

/-- A jump to a register leaves MEM. -/
theorem pcCntr_of_jalr (hs : s.Running) (hbr : s.mem.ctrl.brType = brJr)
    (hwait : s.waitrequest io = false) (hhalt : io.halt = false) :
    (s.step io).pcCntr = s.mem.aluOut ↔ s.RedirectHeard io s.mem.aluOut := by
  have hkill : s.instKill io = true := by simp [instKill, instKillBranch, hbr]
  have htarget : s.pcTarget io = if s.expt io then s.csr.mtvec else s.mem.aluOut := by
    simp [pcTarget, hbr]
  rw [step_pcCntr, pcCntrNext, hhalt, hs.boot.stall_of_kill hkill, hwait, htarget, RedirectHeard]
  cases s.imemReq <;> cases s.expt io <;> simp

/-- A link leaves MEM: the next edge writes it. -/
theorem rv32iReg_of_link (hbr : s.mem.ctrl.wbSel = wbPc4) (hwen : s.mem.ctrl.rfWen = true)
    (hwait : s.waitrequest io = false) (hrd : s.mem.regWaddr ≠ 0) (io' : HostIf) :
    ((s.step io).step io').rv32iReg s.mem.regWaddr = s.mem.npc := by
  have hwb := wb_of_move hwait
  have hdata : (s.step io).rfWdata io' = s.mem.npc := by
    rw [rfWdata, hwb, wbIssue, hbr]
    rfl
  rw [step_rv32iReg, rv32iRegNext, hdata, hwb]
  have hwrites : (s.mem.ctrl.rfWen && s.mem.regWaddr != 0) = true := by
    rw [hwen, Bool.true_and]
    exact bne_iff_ne.mpr hrd
  exact (congrFun (if_pos hwrites) _).trans (Function.update_self ..)

/-- A JALR with an aligned target moves to MEM and stays there while the
pipeline waits. -/
theorem mem_of_pass (hs : s.Running)
    (hpass : s.JalrPass rd rs1 imm base holds leave waits last)
    (haligned : Csr.misaligned (base + imm) = false) :
    (Machine.run step s (holds ++ leave :: waits)).mem.ctrl = ctrlOf (.jalr rd rs1 imm) ∧
      (Machine.run step s (holds ++ leave :: waits)).mem.regWaddr = rd ∧
      (Machine.run step s (holds ++ leave :: waits)).mem.aluOut = base + imm ∧
      (Machine.run step s (holds ++ leave :: waits)).mem.npc = s.ex.pc + 4 := by
  have hrun : Machine.run step s (holds ++ leave :: waits) =
      Machine.run step ((Machine.run step s holds).step leave) waits := by simp
  have hwaiting := hpass.waiting
  rw [Machine.run_concat] at hwaiting
  rw [hrun, (stages_of_held hwaiting).2.1]
  obtain ⟨hex, hmem, hwb⟩ := stages_of_held (hpass.held.mono fun _ _ h => h.1)
  have hend : (Machine.run step s holds).Running := hs.run hpass.held_low
  have hco := hend.reachable.coherent
  have hinstr : Rv32i.decode (Machine.run step s holds).ex.inst = some (.jalr rd rs1 imm) := by
    rw [hex, hpass.instr]
  have hctrl : (Machine.run step s holds).ex.ctrl = ctrlOf (.jalr rd rs1 imm) :=
    hco.ex.ctrl.trans (idDecode_of_decode hinstr)
  have hsum := sum_of_pass hs hpass hex hmem hwb hco leave
  have hkill : (Machine.run step s holds).instKill leave = false := by
    rw [instKill, hpass.committed.branch, Bool.false_or,
      expt_of_jump leave hco hpass.committed hinstr (Or.inr rfl), hsum, haligned]
  rw [(stages_of_move hpass.leaves hkill).2.1]
  refine ⟨hctrl, ?_, ?_, ?_⟩
  · refine hco.ex.regWaddr.trans ?_
    cases Rv32i.encodes_of_decode hinstr
    rfl
  · have hadd : (Machine.run step s holds).ex.ctrl.aluFunc = ALU.aluAdd := by rw [hctrl]; rfl
    rw [memIssue, aluOut, hadd, ALU.out_add, hsum]
  · exact hend.reachable.pcPaired.ex.trans (by rw [hex])

/-- In every run with halt low, a committed JALR obeys the law exactly if bit 0
of its target is clear or bit 1 is set, and the fetch follows an aligned target
when the JALR leaves MEM. -/
theorem jalr_law_iff (hs : s.Running)
    (hpass : s.JalrPass rd rs1 imm base holds leave waits last) :
    s.JalrLaw rd imm base holds leave waits last ↔
      ((base + imm).getLsbD 0 = true → (base + imm).getLsbD 1 = true) ∧
        (Csr.misaligned (base + imm) = false →
          (Machine.run step s (holds ++ leave :: waits)).RedirectHeard last (base + imm)) := by
  have hraises := raises_of_pass hs hpass
  have hlast : last.halt = false := hpass.running last (by simp)
  have hend : (Machine.run step s (holds ++ leave :: waits)).Running :=
    hs.run fun io hio => hpass.running io (List.mem_append_left _ hio)
  -- an aligned target is that of the transfer that leaves MEM
  have hredirect (haligned : Csr.misaligned (base + imm) = false) :
      (Machine.run step s (holds ++ leave :: waits ++ [last])).pcCntr = base + imm ↔
        (Machine.run step s (holds ++ leave :: waits)).RedirectHeard last (base + imm) := by
    obtain ⟨hctrl, _, halu, _⟩ := mem_of_pass hs hpass haligned
    rw [Machine.run_concat, ← halu]
    exact pcCntr_of_jalr hend (by rw [hctrl]; rfl) hpass.moves hlast
  have hparity (haligned : Csr.misaligned (base + imm) = false) :
      (base + imm).getLsbD 0 = false ∧ (base + imm).getLsbD 1 = false := by
    rwa [misaligned_eq, Bool.or_eq_false_iff] at haligned
  constructor
  · intro hlaw
    constructor
    · intro hodd
      have hboth := (hraises.and hlaw.raises)
      rw [Machine.along_append] at hboth
      obtain ⟨hmis, hbit⟩ := hboth.2.1
      rw [← hbit, hmis, misaligned_eq, hodd, Bool.true_or]
    · intro haligned
      obtain ⟨hbit0, hbit1⟩ := hparity haligned
      rw [← hredirect haligned, hlaw.redirects hbit1, Rv32i.clearBit0 hbit0]
  · rintro ⟨hodd, hfollows⟩
    have hiff : Csr.misaligned (base + imm) = true ↔ (base + imm).getLsbD 1 = true := by
      rw [misaligned_eq, Bool.or_eq_true]
      exact ⟨fun h => h.elim hodd fun h => h, Or.inr⟩
    have haligned (hbit1 : (base + imm).getLsbD 1 = false) :
        Csr.misaligned (base + imm) = false := by
      by_contra hmis
      rw [Bool.not_eq_false, hiff, hbit1] at hmis
      exact absurd hmis Bool.false_ne_true
    constructor
    · exact hraises.mono fun _ _ h => h.trans hiff
    · intro hbit1
      rw [Rv32i.clearBit0 (hparity (haligned hbit1)).1, hredirect (haligned hbit1)]
      exact hfollows (haligned hbit1)
    · intro hbit1 hrd io
      obtain ⟨hctrl, hregWaddr, _, hnpc⟩ := mem_of_pass hs hpass (haligned hbit1)
      have hlink := rv32iReg_of_link (by rw [hctrl]; rfl) (by rw [hctrl]; rfl)
        hpass.moves (by rw [hregWaddr]; exact hrd) io
      rw [hregWaddr, hnpc] at hlink
      rw [Machine.run_concat]
      exact hlink

end Pass

/-- A JALR with x1 = 0x40 as its base is in EX. -/
def jalrBehind (inst : Word) : KyogenRVCpu :=
  sample [.fetch 0x04000093, .fetch inst, .fetch 0x00000013]

theorem running_jalrBehind (inst : Word) : (jalrBehind inst).Running :=
  running_sample (by simp [HostIf.fetch, HostIf.idle])

/-- A link to 4(x1). -/
theorem jalr_law_aligned :
    (jalrBehind 0x004082e7).JalrLaw 5 4 0x40 [] .idle [] .idle := by
  have hpass : (jalrBehind 0x004082e7).JalrPass 5 1 4 0x40 [] .idle [] .idle :=
    ⟨by decide +kernel, trivial, by decide +kernel, by constructor <;> decide +kernel,
      by decide +kernel, trivial, by decide +kernel, by simp [HostIf.idle]⟩
  exact (jalr_law_iff (running_jalrBehind _) hpass).mpr
    ⟨by decide, fun _ => by unfold RedirectHeard; decide +kernel⟩

/-- A link to 5(x1) traps. -/
theorem jalr_odd_traps :
    ¬∀ (s : KyogenRVCpu) (rd rs1 : BitVec 5) (imm base : Word) (holds : List HostIf)
      (leave : HostIf) (waits : List HostIf) (last : HostIf), s.Running →
      s.JalrPass rd rs1 imm base holds leave waits last →
      s.JalrLaw rd imm base holds leave waits last := by
  intro h
  have hlaw := h (jalrBehind 0x005082e7) 5 1 5 0x40 [] .idle [] .idle (running_jalrBehind _)
    ⟨by decide +kernel, trivial, by decide +kernel, by constructor <;> decide +kernel,
      by decide +kernel, trivial, by decide +kernel, by simp [HostIf.idle]⟩
  have hbit := hlaw.raises.1.mp (by unfold RaisesMisaligned Recorded; decide +kernel)
  revert hbit
  decide

end KyogenRVCpu

end KyogenRV
