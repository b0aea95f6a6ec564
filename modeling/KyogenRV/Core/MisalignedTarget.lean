import KyogenRV.Core.CsrOnce
import KyogenRV.Core.Fetch
import KyogenRV.Core.JumpRegister

/-!
# Misaligned branch and jump targets

A JAL with a misaligned target traps in EX.  A branch goes on to its target, and
the trap is raised by whatever instruction reaches EX with the misaligned pc:
its `mepc` and `mtval` are those saved when the branch was in EX.  The saved pc
is that of the branch, but the saved address is the sum of its operands, as if
it were a jump.
-/

namespace KyogenRV

open ScalarOpConstants MemoryOpConstants

/-- No instruction, or one at a misaligned pc. -/
def Slot.Astray (slot : Slot) : Prop := slot = .bubble ∨ Csr.misaligned slot.pc = true

/-- A taken branch leaves EX, waits in MEM and leaves it; EX is empty for some
cycles, and then no longer. -/
structure BranchRun where
  leave : HostIf
  waits : List HostIf
  last : HostIf
  empties : List HostIf
  entry : HostIf

namespace KyogenRVCpu

section Report

variable (s : KyogenRVCpu) (io : HostIf)

/-- The misaligned target of the instruction at `pc` is recorded, as a whole and
once. -/
def ReportsTarget (pc target : Word) : Prop :=
  s.Recorded io ∧ (s.step io).csr.mcause = Cause.instAddrMisaligned ∧
    (s.step io).csr.mepc = pc ∧ (s.step io).csr.mtval = target ∧ s.TrapWhole io

/-- The instruction in EX takes effect: it writes a CSR or moves on to MEM. -/
def Commits : Prop :=
  s.csrWritten io ≠ [] ∨
    s.waitrequest io = false ∧ s.instKill io = false ∧ s.ex ≠ .bubble

/-- Nothing traps and nothing takes effect. -/
def Silent : Prop := ¬s.Recorded io ∧ ¬s.Commits io

variable (r : BranchRun)

/-- The branch leaves MEM. -/
def atLast : KyogenRVCpu := Machine.run step (s.step r.leave) r.waits

/-- The next instruction is in EX. -/
def atEntry : KyogenRVCpu :=
  Machine.run step (s.step r.leave) (r.waits ++ r.last :: r.empties)

variable (cond : Rv32i.Cond) (rs1 rs2 : BitVec 5) (imm v1 v2 : Word)

/-- A committed branch that is taken on the values `v1` and `v2` of its sources,
with a misaligned target, makes the run `r` with halt low, and the fetch is
requested when it leaves MEM. -/
structure BranchPass : Prop where
  instr : Rv32i.decode s.ex.inst = some (.branch cond rs1 rs2 imm)
  committed : s.Committed
  operand1 : s.srcReg r.leave rs1 = some v1
  operand2 : s.srcReg r.leave rs2 = some v2
  taken : cond.holds v1 v2 = true
  misaligned : Csr.misaligned (s.ex.pc + imm) = true
  leaves : s.waitrequest r.leave = false
  waiting : Machine.Along step (fun t io => t.waitrequest io = true) (s.step r.leave) r.waits
  moves : (s.atLast r).waitrequest r.last = false
  followed : (s.atLast r).imemReq = true
  empty : Machine.Along step (fun t _ => t.ex = .bubble) ((s.atLast r).step r.last) r.empties
  filled : (s.atEntry r).ex ≠ .bubble
  running : ∀ io ∈ r.leave :: (r.waits ++ r.last :: (r.empties ++ [r.entry])), io.halt = false

/-- Nothing takes effect before the trap, and the trap is that of the branch. -/
structure BranchReported : Prop where
  silent : Machine.Along step Silent (s.step r.leave) (r.waits ++ r.last :: r.empties)
  report : (s.atEntry r).ReportsTarget r.entry s.ex.pc (s.ex.pc + imm)

/-- The sources of the branch happen to sum to its target; behind it in EX, while
it is in MEM, nothing traps or writes a CSR; no interrupt is pending before the
next instruction, and that is no environment call and does not wait. -/
structure BranchKept : Prop where
  operands : v1 + v2 = s.ex.pc + imm
  behind : Machine.Along step (fun t io => t.expt io = false ∧ t.csrWriteEnabled = false)
    (s.step r.leave) (r.waits ++ [r.last])
  quiet : Machine.Along step (fun t _ => t.csr.isExtInt = false) ((s.atLast r).step r.last)
    (r.empties ++ [r.entry])
  noCall : (s.atEntry r).ex.inst ≠ 0x00000073 ∧ (s.atEntry r).ex.inst ≠ 0x00100073
  moves : (s.atEntry r).waitrequest r.entry = false

/-- Every instruction on its way to EX has a misaligned pc, and the pc and the sum
of the operands of the branch are saved. -/
structure Astray (pc sum : Word) : Prop where
  running : s.Running
  ex : s.ex = .bubble ∨ Csr.misaligned s.ex.pc = true
  mem : s.mem.ctrl = nopCtrl
  id : s.id.Astray
  idTemp : s.idTemp.Astray
  id2Temp : s.id2Temp.Astray
  fetch : s.validImem = true → Csr.misaligned s.ifPc = true
  pcCntr : Csr.misaligned s.pcCntr = true
  imemReq : s.imemReq = true
  inLoadstore : s.inLoadstore = false
  preMepc : s.csr.preMepc = pc
  preCalcAddr : s.csr.preCalcAddr = sum

end Report

/-! ## The saved pc and address -/

section Saved

variable {s : KyogenRVCpu} {io : HostIf}

/-- An instruction that is no transfer leaves what is saved. -/
theorem saved_of_noTransfer (io : HostIf) (hex : s.ex.Coherent) (hbr : s.ex.ctrl.brType = brN) :
    (s.step io).csr.preMepc = s.csr.preMepc ∧
      (s.step io).csr.preCalcAddr = s.csr.preCalcAddr := by
  have hb : (s.csrPorts io).bCheck = false := hex.bCheck.trans (by rw [hbr]; decide)
  have hj : (s.csrPorts io).jCheck = false := hex.jCheck.trans (by rw [hbr]; decide)
  have hpc := Csr.next_preMepc s.csr (s.csrPorts io) (s.stall io)
  have haddr := Csr.next_preCalcAddr s.csr (s.csrPorts io) (s.stall io)
  rw [hb, hj] at hpc haddr
  exact ⟨hpc, haddr⟩

end Saved

/-- The fetch request is up with a transfer in EX. -/
theorem Running.inEx {s : KyogenRVCpu} (hs : s.Running) (hbr : s.ex.ctrl.brType ≠ brN) :
    s.imemReq = true ∧ s.mem.ctrl.memWr = mX := by
  obtain ⟨s₀, inputs, hs₀, hhalt, rfl⟩ := hs
  have hboot := hs₀.haltInv.boot
  obtain ⟨_, hex, _⟩ := hboot.idle (by rw [hs₀.haltInv.delay]; decide)
  have hstart : s₀.ex.ctrl.brType ≠ brN → s₀.imemReq = true ∧ s₀.mem.ctrl.memWr = mX := by
    rw [hex]
    exact fun h => absurd (by decide) h
  have hinv := Machine.run_invariant
    (I := fun t : KyogenRVCpu => t.BootInv ∧ t.Coherent ∧
      (t.ex.ctrl.brType ≠ brN → t.imemReq = true ∧ t.mem.ctrl.memWr = mX))
    (fun _ io ⟨hboot, hco, hinv⟩ hlow =>
      ⟨bootInv_step hboot io (Or.inl hlow), coherent_step hco io,
       inEx_step hinv hboot.signalled hco⟩)
    ⟨hboot, hs₀.reachable.coherent, hstart⟩ (Machine.along_of_mem hhalt)
  exact hinv.2.2 hbr

/-! ## The jump -/

section Jump

variable {s : KyogenRVCpu} {io : HostIf} {rd : BitVec 5} {imm : Word}

theorem jal_sum (io : HostIf) (hs : s.Coherent)
    (hinstr : Rv32i.decode s.ex.inst = some (.jal rd imm)) :
    s.exOp1 io + s.exOp2 io = s.ex.pc + imm := by
  have hctrl : s.ex.ctrl = ctrlOf (.jal rd imm) := hs.ex.ctrl.trans (idDecode_of_decode hinstr)
  have himm : Rv32i.immJ s.ex.inst = imm := by
    cases Rv32i.encodes_of_decode hinstr
    rfl
  rw [s.exOp1_pc io (by rw [hctrl]; rfl), s.exOp2_imm io (by rw [hctrl]; rfl), exImm, hctrl]
  exact congrArg (s.ex.pc + ·) ((immGen_apply s.ex.inst).2.2.2.trans himm)

/-- The target of a JAL at an aligned pc is even, so that clearing its low bit
leaves it as it is. -/
theorem clearLow1_of_jal (hinstr : Rv32i.decode s.ex.inst = some (.jal rd imm))
    (hpc : Csr.misaligned s.ex.pc = false) :
    (s.ex.pc + imm).getLsbD 0 = false ∧ Csr.clearLow1 (s.ex.pc + imm) = s.ex.pc + imm := by
  have himm : imm.getLsbD 0 = false := by
    cases Rv32i.encodes_of_decode hinstr
    rw [Rv32i.immJ, BitVec.getLsbD_signExtend, BitVec.getLsbD_append]
    rfl
  have heven : (s.ex.pc + imm).getLsbD 0 = false := by
    rw [misaligned_eq, Bool.or_eq_false_iff] at hpc
    rw [BitVec.getLsbD_add (by decide), hpc.1, himm, BitVec.carry_zero]
    rfl
  refine ⟨heven, ?_⟩
  refine BitVec.eq_of_getLsbD_eq fun i hi => ?_
  rw [Csr.clearLow1]
  cases i with
  | zero =>
      rw [heven]
      simp
  | succ i => simp [hi, Nat.add_comm]

/-- A committed JAL with a misaligned target reports it exactly if the pipeline
does not wait. -/
theorem jalReported_iff (hs : s.Running)
    (hinstr : Rv32i.decode s.ex.inst = some (.jal rd imm)) (hcommitted : s.Committed)
    (hmis : Csr.misaligned (s.ex.pc + imm) = true) (hhalt : io.halt = false) :
    s.ReportsTarget io s.ex.pc (s.ex.pc + imm) ↔ s.waitrequest io = false := by
  have hco := hs.reachable.coherent
  have hsum := jal_sum io hco hinstr
  have hbr : s.ex.ctrl.brType = brJ := by rw [hco.ex.ctrl, idDecode_of_decode hinstr]; rfl
  have hmis' : Csr.misaligned (s.exOp1 io + s.exOp2 io) = true := by rw [hsum, hmis]
  have hexpt : s.expt io = true :=
    (expt_of_jump io hco hcommitted hinstr (Or.inl rfl)).trans hmis'
  have hrec : s.Recorded io := ⟨hs.stall_of_expt hexpt, hexpt⟩
  constructor
  · rintro ⟨_, _, _, _, hwhole⟩
    by_contra hwait
    rw [Bool.not_eq_false] at hwait
    -- a waiting jump stays in EX
    have hstay : s.ex = .bubble := (stages_of_wait hwait).1.symm.trans (hwhole hrec).1.2.2.1
    rw [hstay] at hbr
    exact absurd hbr (by decide)
  · intro hwait
    obtain ⟨hmcause, hmepc⟩ := causes_of_jump hco hcommitted hinstr (Or.inl rfl) hmis'
    obtain ⟨hcode, hpc, hvalue⟩ := trapRecord_of_recorded hrec hmcause hmepc
    have haddr : Csr.aluCalcAddr (s.csrPorts io) = s.ex.pc + imm := hsum
    obtain ⟨heven, hclear⟩ := clearLow1_of_jal hinstr hcommitted.aligned
    refine ⟨hrec, hcode, hpc, ?_, ?_⟩
    · rw [hvalue, Csr.causeValue, haddr, heven, Bool.false_and, if_neg Bool.false_ne_true, hclear]
    · have hreq : s.imemReq = true := (hs.inEx (by rw [hbr]; decide)).1
      refine trapWhole_of_guards hhalt ⟨fun _ => ⟨hwait, hreq⟩, fun h => ?_⟩
      rw [hcommitted.interrupt] at h
      exact absurd h Bool.false_ne_true

end Jump

/-! ## On the way to the misaligned target -/

section Astray

variable {s : KyogenRVCpu} {io : HostIf} {pc sum : Word}

theorem Astray.restored (hs : s.Astray pc sum) : s.restored.Astray := by
  rw [KyogenRVCpu.restored]
  split_ifs with hsame
  · refine Or.inr ((misaligned_add_four _).trans ?_)
    refine hs.idTemp.resolve_left fun hbubble => ?_
    rw [hbubble, Bool.and_eq_true, bne_iff_ne] at hsame
    exact hsame.2 rfl
  · exact hs.idTemp

theorem Astray.idStage (hs : s.Astray pc sum) (io : HostIf) :
    (s.idStage io).id.Astray ∧ (s.idStage io).idTemp.Astray ∧ (s.idStage io).id2Temp.Astray := by
  obtain ⟨hid, htemp⟩ := idStage_forall (P := Slot.Astray) (s := s) (Or.inl rfl)
    (fun _ hvalid => Or.inr (hs.fetch (hvalid hs.imemReq))) hs.restored hs.id hs.idTemp
    fun _ => hs.id2Temp
  exact ⟨hid, htemp, idStage_id2Temp_forall (Or.inl rfl) hs.id hs.id2Temp⟩

theorem Astray.instKill (io : HostIf) (hs : s.Astray pc sum) (hex : s.ex = .bubble)
    (hint : s.csr.isExtInt = false) : s.instKill io = false := by
  rw [KyogenRVCpu.instKill, instKillBranch_of_nop hs.mem, expt_of_bubble io hex hint,
    Bool.or_false]

/-- The step lemma, while EX is empty. -/
theorem astray_step (hs : s.Astray pc sum) (hex : s.ex = .bubble)
    (hint : s.csr.isExtInt = false) (hhalt : io.halt = false) : (s.step io).Astray pc sum := by
  have hkill := hs.instKill io hex hint
  have hctrl : s.ex.ctrl = nopCtrl := by rw [hex]; rfl
  have hpipe : s.loadstoreInPipe = false := by
    rw [loadstoreInPipe, hctrl, hs.mem, nop_noAccess]
    rfl
  obtain ⟨hid, htemp, htemp2⟩ := hs.idStage io
  obtain ⟨hpc, haddr⟩ := saved_of_noTransfer io hs.running.reachable.coherent.ex
    (by rw [hctrl]; decide)
  constructor
  case running => exact hs.running.next hhalt
  case ex =>
    exact ex_step_forall (P := fun ex => ex = .bubble ∨ Csr.misaligned ex.pc = true)
      (Or.inl rfl) (hs.id.imp exIssue_of_bubble fun hmis => hmis) hs.ex
  case mem =>
    exact mem_step_forall (P := fun mem => mem.ctrl = nopCtrl) rfl (fun _ => hctrl) hs.mem
  case id => rw [step_id]; exact hid
  case idTemp => rw [step_idTemp]; exact htemp
  case id2Temp => rw [step_id2Temp]; exact htemp2
  case inLoadstore =>
    exact inLoadstore_of_noAccess (by rw [hs.mem, nop_noAccess]) (Or.inr hs.imemReq)
  case preMepc => exact hpc.trans hs.preMepc
  case preCalcAddr => exact haddr.trans hs.preCalcAddr
  case pcCntr =>
    cases hhold : s.holdId io with
    | true => rw [pcCntr_of_hold hhalt hhold, hs.pcCntr]
    | false =>
        rw [pcCntr_of_go hhalt hs.imemReq hhold hkill, misaligned_add_four, hs.pcCntr]
  all_goals
    cases hhold : s.holdId io with
    | true => simp [ifStage_of_hold hhold hkill hpipe, hs.imemReq]
    | false =>
        have hfetch := hs.running.boot.readSigFetch (Bool.or_eq_false_iff.mp hhold).1
        simp [ifStage_of_go hhold hkill hpipe, hs.pcCntr, hfetch]

/-- An instruction at the misaligned pc traps in EX. -/
theorem Astray.recorded (io : HostIf) (hs : s.Astray pc sum) (hfilled : s.ex ≠ .bubble) :
    s.Recorded io := by
  have hfetch : Csr.iaddrInvalidB (s.csrPorts io) = true := hs.ex.resolve_left hfilled
  have hexpt : s.expt io = true := by simp [expt, Csr.expt, hfetch]
  exact ⟨hs.running.stall_of_expt hexpt, hexpt⟩

theorem causeCode_ne_zero (c : Csr) (cause : TrapCause)
    (hcause : cause = .ecall ∨ cause = .extInt ∨ cause = .ebreak) : c.causeCode cause ≠ 0 := by
  rcases hcause with rfl | rfl | rfl <;> simp only [Csr.causeCode] <;> generalize c.prv = prv <;>
    revert prv <;> decide

/-- Both chains select the misaligned pc, exactly if the code recorded is its,
and exactly if no interrupt is pending and EX holds no environment call. -/
theorem Astray.causes (hs : s.Astray pc sum) (hfilled : s.ex ≠ .bubble) :
    (s.csr.mcauseCause (s.csrPorts io) = .iaddrInvalidB ∧
        s.csr.mepcCause (s.csrPorts io) = .iaddrInvalidB ↔
      s.csr.isExtInt = false ∧ s.ex.inst ≠ 0x00000073 ∧ s.ex.inst ≠ 0x00100073) ∧
    (s.csr.causeCode (s.csr.mcauseCause (s.csrPorts io)) = Cause.instAddrMisaligned →
      s.csr.mcauseCause (s.csrPorts io) = .iaddrInvalidB ∧
        s.csr.mepcCause (s.csrPorts io) = .iaddrInvalidB) := by
  have hfetch : Csr.iaddrInvalidB (s.csrPorts io) = true := hs.ex.resolve_left hfilled
  have hex := hs.running.reachable.coherent.ex
  have hecall := causeCode_ne_zero s.csr .ecall (by simp)
  have hint := causeCode_ne_zero s.csr .extInt (by simp)
  have hebreak := causeCode_ne_zero s.csr .ebreak (by simp)
  rw [ne_eq, ne_eq, ← isEcall_iff io hex, ← isEbreak_iff io hex, Csr.mcauseCause, Csr.mepcCause,
    hfetch]
  cases Csr.isEcall (s.csrPorts io) <;> cases s.csr.isExtInt <;>
    cases Csr.isEbreak (s.csrPorts io) <;> simp_all

/-- The first instruction in EX reports the saved pc and sum, exactly if it is no
environment call, no interrupt is pending and nothing waits. -/
theorem Astray.reports_iff (hs : s.Astray pc sum) (hfilled : s.ex ≠ .bubble)
    (hhalt : io.halt = false) (target : Word) :
    s.ReportsTarget io pc target ↔
      sum = target ∧ s.csr.isExtInt = false ∧
        (s.ex.inst ≠ 0x00000073 ∧ s.ex.inst ≠ 0x00100073) ∧ s.waitrequest io = false := by
  have hrec := hs.recorded io hfilled
  constructor
  · rintro ⟨_, hmcause, _, hmtval, hwhole⟩
    have hcode : (s.step io).csr.mcause = s.csr.causeCode (s.csr.mcauseCause (s.csrPorts io)) := by
      rw [step_csr, hrec.1]
      exact (Csr.next_of_trap hrec.2).1
    have hcauses := (hs.causes hfilled).2 (hcode.symm.trans hmcause)
    obtain ⟨hint, hcall⟩ := (hs.causes hfilled).1.mp hcauses
    have hvalue := (trapRecord_of_recorded hrec hcauses.1 hcauses.2).2.2
    refine ⟨?_, hint, hcall, ?_⟩
    · exact hs.preCalcAddr.symm.trans (hvalue.symm.trans hmtval)
    · by_contra hwait
      rw [Bool.not_eq_false] at hwait
      exact hfilled ((stages_of_wait hwait).1.symm.trans (hwhole hrec).1.2.2.1)
  · rintro ⟨rfl, hint, hcall, hwait⟩
    obtain ⟨hmcause, hmepc⟩ := (hs.causes hfilled).1.mpr ⟨hint, hcall⟩
    obtain ⟨hcode, hpc, hvalue⟩ := trapRecord_of_recorded hrec hmcause hmepc
    refine ⟨hrec, hcode, hpc.trans hs.preMepc, hvalue.trans hs.preCalcAddr, ?_⟩
    refine trapWhole_of_guards hhalt ⟨fun _ => ⟨hwait, hs.imemReq⟩, fun h => ?_⟩
    rw [hint] at h
    exact absurd h Bool.false_ne_true

end Astray

/-! ## The branch -/

section Branch

variable {s t : KyogenRVCpu} {io : HostIf} {r : BranchRun} {cond : Rv32i.Cond}
  {rs1 rs2 : BitVec 5} {imm v1 v2 : Word}

/-- The state of the program as the branch sees it. -/
def branchState (s : KyogenRVCpu) (io : HostIf) : Rv32i.State :=
  ⟨s.ex.pc, fun r => (s.srcReg io r).getD 0⟩

theorem read_branchState {r : BitVec 5} {v : Word} (hv : s.srcReg io r = some v) :
    (s.branchState io).read r = v := by
  have hregs : (s.branchState io).regs r = (s.srcReg io r).getD 0 := rfl
  rw [Rv32i.State.read, hregs, hv]
  split_ifs with hzero
  · rw [srcReg, if_pos hzero] at hv
    exact Option.some.inj hv
  · rfl

theorem BranchPass.executes (hs : s.Running) (hpass : s.BranchPass r cond rs1 rs2 imm v1 v2) :
    s.Executes r.leave (s.branchState r.leave) (.branch cond rs1 rs2 imm) := by
  have hco := hs.reachable.coherent
  have hfields : Rv32i.rs1 s.ex.inst = rs1 ∧ Rv32i.rs2 s.ex.inst = rs2 := by
    cases Rv32i.encodes_of_decode hpass.instr
    exact ⟨rfl, rfl⟩
  have hraddr1 : s.ex.regRaddr1 = rs1 := hco.ex.regRaddr1.trans hfields.1
  have hraddr2 : s.ex.regRaddr2 = rs2 := hco.ex.regRaddr2.trans hfields.2
  exact {
    coherent := hco.ex
    instr := hpass.instr
    pc := rfl
    npc := hs.reachable.pcPaired.ex
    rs1 := by
      rw [hfields.1, read_branchState hpass.operand1]
      refine (bypass_of_srcReg hs.reachable hpass.committed.branch).1 ?_
      rw [hraddr1, hpass.operand1]
    rs2 := by
      rw [hfields.2, read_branchState hpass.operand2]
      refine (bypass_of_srcReg hs.reachable hpass.committed.branch).2 ?_
      rw [hraddr2, hpass.operand2] }

/-- The branch is in MEM, with its pc and the sum of its operands saved and no
transfer behind it. -/
structure InMem (s t : KyogenRVCpu) (leave : HostIf) (sum : Word) : Prop where
  running : t.Running
  mem : t.mem = s.memIssue leave
  exPlain : t.ex.ctrl.brType = brN
  preMepc : t.csr.preMepc = s.ex.pc
  preCalcAddr : t.csr.preCalcAddr = sum

/-- The ALU adds the two registers that the branch compares. -/
theorem BranchPass.operands (hs : s.Running) (hpass : s.BranchPass r cond rs1 rs2 imm v1 v2) :
    s.exOp1 r.leave = v1 ∧ s.exOp2 r.leave = v2 := by
  have hexec := hpass.executes hs
  have hfields : Rv32i.rs1 s.ex.inst = rs1 ∧ Rv32i.rs2 s.ex.inst = rs2 := by
    cases Rv32i.encodes_of_decode hpass.instr
    exact ⟨rfl, rfl⟩
  constructor
  · rw [s.exOp1_rs1 _ (by rw [hexec.ctrl]; cases cond <;> rfl), hexec.rs1, hfields.1]
    exact read_branchState hpass.operand1
  · rw [s.exOp2_rs2 _ (by rw [hexec.ctrl]; cases cond <;> rfl), hexec.rs2, hfields.2]
    exact read_branchState hpass.operand2

theorem brType_branch (cond : Rv32i.Cond) (rs1 rs2 : BitVec 5) (imm : Word) :
    (ctrlOf (.branch cond rs1 rs2 imm)).brType > 3 := by
  have hcond : brOf cond > 3 := by cases cond <;> decide
  exact hcond

/-- A branch in EX neither kills nor traps. -/
theorem BranchPass.notKilled (hs : s.Running) (hpass : s.BranchPass r cond rs1 rs2 imm v1 v2) :
    s.instKill r.leave = false := by
  have hco := hs.reachable.coherent
  obtain ⟨hlegal, hacc, hcmd, _⟩ := ctrlOf_plain (.branch cond rs1 rs2 imm)
  have hbr := brType_branch cond rs1 rs2 imm
  rw [← (hpass.executes hs).ctrl] at hlegal hacc hcmd hbr
  have hjump : Csr.iaddrInvalidJ (s.csrPorts r.leave) = false := by
    have hcheck : (s.csrPorts r.leave).jCheck = false := by
      refine hco.ex.jCheck.trans ?_
      rw [Bool.or_eq_false_iff, beq_eq_false_iff_ne, beq_eq_false_iff_ne]
      constructor <;> intro h <;> rw [h] at hbr <;> exact absurd hbr (by decide)
    rw [Csr.iaddrInvalidJ, hcheck, Bool.false_and]
  obtain ⟨hload, hstore⟩ := addrInvalid_of_noAccess r.leave hacc
  rw [instKill, hpass.committed.branch, Bool.false_or, expt_of_accepted r.leave hlegal
    (hco.ex.csrCmd.trans hcmd) hpass.committed.aligned hpass.committed.interrupt, hjump, hload,
    hstore]
  rfl

theorem BranchPass.inMem (hs : s.Running) (hpass : s.BranchPass r cond rs1 rs2 imm v1 v2) :
    InMem s (s.step r.leave) r.leave (v1 + v2) := by
  have hbr := brType_branch cond rs1 rs2 imm
  rw [← (hpass.executes hs).ctrl] at hbr
  have hkill := hpass.notKilled hs
  obtain ⟨hop1, hop2⟩ := hpass.operands hs
  obtain ⟨hex, hmem, _⟩ := stages_of_move hpass.leaves hkill
  have hpc := Csr.next_preMepc s.csr (s.csrPorts r.leave) (s.stall r.leave)
  have haddr := Csr.next_preCalcAddr s.csr (s.csrPorts r.leave) (s.stall r.leave)
  have hcheck : (s.csrPorts r.leave).bCheck = true :=
    hs.reachable.coherent.ex.bCheck.trans (decide_eq_true hbr)
  rw [hcheck, Bool.true_or, if_pos rfl] at hpc haddr
  refine ⟨hs.next (hpass.running _ (List.mem_cons_self ..)), hmem, ?_, hpc,
    haddr.trans (congrArg₂ (· + ·) hop1 hop2)⟩
  rw [hex]
  cases hhold : s.holdIssue r.leave with
  | true => exact nop_noTransfer
  | false =>
      -- ID issues no transfer behind another one
      simp only [holdIssue, Bool.or_eq_false_iff] at hhold
      have hstall := hhold.1.1
      simp only [stall, hkill, Bool.not_false, Bool.and_true, Bool.or_eq_false_iff,
        Bool.and_eq_false_iff, bne_eq_false_iff_eq] at hstall
      refine hstall.1.1.2.resolve_right fun hplain => ?_
      rw [hplain] at hbr
      exact absurd hbr (by decide)

variable {leave : HostIf} {sum : Word}

/-- The branch stays in MEM while the pipeline waits. -/
theorem inMem_step (ht : InMem s t leave sum) (hwait : t.waitrequest io = true)
    (hhalt : io.halt = false) : InMem s (t.step io) leave sum := by
  obtain ⟨hex, hmem, _⟩ := stages_of_wait hwait
  obtain ⟨hpc, haddr⟩ := saved_of_noTransfer io ht.running.reachable.coherent.ex ht.exPlain
  exact ⟨ht.running.next hhalt, hmem.trans ht.mem, by rw [hex]; exact ht.exPlain,
    hpc.trans ht.preMepc, haddr.trans ht.preCalcAddr⟩

/-- With a taken transfer in MEM, what is in EX has no effect if it neither traps
nor writes a CSR. -/
theorem silent_iff_of_kill (io : HostIf) (ht : t.Running) (hkill : t.instKillBranch = true) :
    t.Silent io ↔ t.expt io = false ∧ t.csrWriteEnabled = false := by
  have hinst : t.instKill io = true := by rw [instKill, hkill, Bool.true_or]
  have hstall := ht.boot.stall_of_kill hinst
  rw [Silent, Recorded, Commits, csrWritten, hstall, hinst]
  cases t.expt io <;> cases t.csrWriteEnabled <;> simp

/-- With EX empty, only an interrupt has an effect. -/
theorem silent_iff_of_bubble (ht : t.Running) (hex : t.ex = .bubble) :
    t.Silent io ↔ t.csr.isExtInt = false := by
  have henabled : t.csrWriteEnabled = false := by
    rw [csrWriteEnabled, hex]
    decide
  cases hint : t.csr.isExtInt with
  | true =>
      have hexpt : t.expt io = true := expt_of_isExtInt hint
      have hstall := ht.stall_of_expt hexpt
      simp [Silent, Recorded, hstall, hexpt]
  | false =>
      have hexpt := expt_of_bubble io hex hint
      simp [Silent, Recorded, Commits, csrWritten, hexpt, henabled, hex]

/-- In MEM the branch kills what is behind it and sends the fetch to its target. -/
theorem InMem.transfer (hs : s.Running) (hpass : s.BranchPass r cond rs1 rs2 imm v1 v2)
    (ht : InMem s t r.leave sum) :
    t.instKillBranch = true ∧ t.transferTarget = s.ex.pc + imm := by
  obtain ⟨hkill, htarget⟩ := (hpass.executes hs).transfer ht.mem
  have htaken : (Rv32i.Instr.branch cond rs1 rs2 imm).target? (s.branchState r.leave) =
      some (s.ex.pc + imm) := by
    rw [Rv32i.Instr.target?, read_branchState hpass.operand1, read_branchState hpass.operand2,
      hpass.taken]
    rfl
  exact ⟨hkill.trans (by rw [htaken]; rfl), htarget _ htaken⟩

/-- The branch leaves MEM: nothing is left in the pipeline, and the fetch goes to
the misaligned target. -/
theorem astray_of_leaving (hs : s.Running) (hpass : s.BranchPass r cond rs1 rs2 imm v1 v2)
    (ht : InMem s t r.leave sum) (hwait : t.waitrequest io = false) (hreq : t.imemReq = true)
    (hhalt : io.halt = false) (hexpt : t.expt io = false) :
    (t.step io).Astray s.ex.pc sum := by
  obtain ⟨hbranch, htarget⟩ := ht.transfer hs hpass
  have hkill : t.instKill io = true := by rw [instKill, hbranch, Bool.true_or]
  have hstall := ht.running.boot.stall_of_kill hkill
  have hif : t.ifStage io = ⟨pcStart, pcStart + 4, true, false⟩ := by
    simp [ifStage, hstall, hkill, hwait, ht.running.boot.readSigKill hkill]
  have hacc : t.mem.ctrl.memWr = mX :=
    memWr_of_brType ht.running.reachable.coherent.mem (brType_of_instKillBranch hbranch)
  obtain ⟨hex, hmem, _⟩ := stages_of_kill hwait hkill
  obtain ⟨hpc, haddr⟩ := saved_of_noTransfer io ht.running.reachable.coherent.ex ht.exPlain
  constructor
  case running => exact ht.running.next hhalt
  case ex => exact Or.inl hex
  case mem => rw [hmem]; rfl
  case id => exact Or.inl (id_of_kill hkill hwait hreq)
  case idTemp => left; simp [idStage, hkill, hwait, hreq]
  case id2Temp => left; simp [idStage, hkill, hwait, hreq]
  case fetch =>
    rw [step_validImem, hif]
    exact fun h => absurd h Bool.false_ne_true
  case pcCntr =>
    rw [step_pcCntr, pcCntrNext_of_not_expt hbranch hexpt, hhalt, hstall, hwait, hreq, htarget]
    exact hpass.misaligned
  case imemReq => rw [step_imemReq, hif]
  case inLoadstore => exact inLoadstore_of_noAccess hacc (Or.inr hreq)
  case preMepc => exact hpc.trans ht.preMepc
  case preCalcAddr => exact haddr.trans ht.preCalcAddr

theorem BranchPass.waitingLow (hpass : s.BranchPass r cond rs1 rs2 imm v1 v2) :
    Machine.Along step (fun t io => t.waitrequest io = true ∧ io.halt = false) (s.step r.leave)
      r.waits :=
  hpass.waiting.and (Machine.along_of_mem fun io hio => hpass.running io (by simp [hio]))

theorem BranchPass.emptyLow (hpass : s.BranchPass r cond rs1 rs2 imm v1 v2) :
    Machine.Along step (fun t io => t.ex = .bubble ∧ io.halt = false) ((s.atLast r).step r.last)
      r.empties :=
  hpass.empty.and (Machine.along_of_mem fun io hio => hpass.running io (by simp [hio]))

/-- The states in which the branch waits in MEM. -/
theorem inMem_of_waits (hs : s.Running) (hpass : s.BranchPass r cond rs1 rs2 imm v1 v2) :
    InMem s (s.atLast r) r.leave (v1 + v2) := by
  exact Machine.run_invariant (I := fun t => InMem s t r.leave (v1 + v2))
    (fun t io ht h => inMem_step ht h.1 h.2) (hpass.inMem hs) hpass.waitingLow

/-- Up to the cycle in which the branch leaves MEM, nothing takes effect exactly
if the instruction behind it neither traps nor writes a CSR. -/
theorem silent_in_mem (hs : s.Running) (hpass : s.BranchPass r cond rs1 rs2 imm v1 v2) :
    Machine.Along step Silent (s.step r.leave) (r.waits ++ [r.last]) ↔
      Machine.Along step (fun t io => t.expt io = false ∧ t.csrWriteEnabled = false)
        (s.step r.leave) (r.waits ++ [r.last]) := by
  have hcycle (t : KyogenRVCpu) (io : HostIf) (ht : InMem s t r.leave (v1 + v2)) :=
    silent_iff_of_kill io ht.running (ht.transfer hs hpass).1
  have hwaits := Machine.Along.congr (I := fun t => InMem s t r.leave (v1 + v2))
    (fun t io ht h => inMem_step ht h.1 h.2) (fun t io ht _ => hcycle t io ht) (hpass.inMem hs)
    hpass.waitingLow
  have hlast := hcycle _ r.last (inMem_of_waits hs hpass)
  rw [atLast] at hlast
  rw [Machine.along_append, Machine.along_append, Machine.along_cons, Machine.along_cons, hwaits,
    hlast]
  exact Iff.rfl

/-- While EX is empty nothing takes effect exactly if no interrupt is pending. -/
theorem silent_in_gap (hs : s.Running) (hpass : s.BranchPass r cond rs1 rs2 imm v1 v2) :
    Machine.Along step Silent ((s.atLast r).step r.last) r.empties ↔
      Machine.Along step (fun t _ => t.csr.isExtInt = false) ((s.atLast r).step r.last)
        r.empties := by
  have hlast : r.last.halt = false := hpass.running r.last (by simp)
  exact Machine.Along.congr (fun t io ht h => Running.next ht h.2)
    (fun t io ht h => silent_iff_of_bubble ht h.1) ((inMem_of_waits hs hpass).running.next hlast)
    hpass.emptyLow

theorem atEntry_eq (s : KyogenRVCpu) (r : BranchRun) :
    s.atEntry r = Machine.run step ((s.atLast r).step r.last) r.empties := by
  rw [atEntry, atLast, Machine.run_append, Machine.run_cons]

/-- Behind the branch EX stays empty until an instruction with a misaligned pc
gets there. -/
theorem astray_of_pass (hs : s.Running) (hpass : s.BranchPass r cond rs1 rs2 imm v1 v2)
    (hbehind : (s.atLast r).expt r.last = false)
    (hquiet : Machine.Along step (fun t _ => t.csr.isExtInt = false) ((s.atLast r).step r.last)
      r.empties) :
    (s.atEntry r).Astray s.ex.pc (v1 + v2) := by
  rw [atEntry_eq]
  refine Machine.run_invariant (I := fun t => t.Astray s.ex.pc (v1 + v2))
    (fun t io ht h => astray_step ht h.1.1 h.2 h.1.2) ?_ (hpass.emptyLow.and hquiet)
  exact astray_of_leaving hs hpass (inMem_of_waits hs hpass) hpass.moves hpass.followed
    (hpass.running r.last (by simp)) hbehind

/-- The misaligned target of a taken branch is reported, and nothing takes effect
before, exactly under `BranchKept`. -/
theorem branchReported_iff (hs : s.Running) (hpass : s.BranchPass r cond rs1 rs2 imm v1 v2) :
    s.BranchReported r imm ↔ s.BranchKept r imm v1 v2 := by
  have hsplit : r.waits ++ r.last :: r.empties = (r.waits ++ [r.last]) ++ r.empties := by simp
  have hmid : Machine.run step (s.step r.leave) (r.waits ++ [r.last]) =
      (s.atLast r).step r.last := Machine.run_concat
  have hentry : r.entry.halt = false := hpass.running r.entry (by simp)
  -- the instruction behind the branch when that leaves MEM
  have hlast (hbehind : Machine.Along step
      (fun t io => t.expt io = false ∧ t.csrWriteEnabled = false) (s.step r.leave)
      (r.waits ++ [r.last])) : (s.atLast r).expt r.last = false :=
    (Machine.along_append.mp hbehind).2.1.1
  constructor
  · rintro ⟨hsilent, hreport⟩
    rw [hsplit, Machine.along_append, hmid, silent_in_mem hs hpass, silent_in_gap hs hpass]
      at hsilent
    obtain ⟨hbehind, hquiet⟩ := hsilent
    have hastray := astray_of_pass hs hpass (hlast hbehind) hquiet
    obtain ⟨hsum, hint, hcall, hwait⟩ := (hastray.reports_iff hpass.filled hentry _).mp hreport
    refine ⟨hsum, hbehind, ?_, hcall, hwait⟩
    rw [Machine.along_append, ← atEntry_eq]
    exact ⟨hquiet, hint, trivial⟩
  · rintro ⟨hsum, hbehind, hquiet, hcall, hwait⟩
    rw [Machine.along_append, ← atEntry_eq] at hquiet
    obtain ⟨hgap, hint, _⟩ := hquiet
    have hastray := astray_of_pass hs hpass (hlast hbehind) hgap
    refine ⟨?_, (hastray.reports_iff hpass.filled hentry _).mpr ⟨hsum, hint, hcall, hwait⟩⟩
    rw [hsplit, Machine.along_append, hmid, silent_in_mem hs hpass, silent_in_gap hs hpass]
    exact ⟨hbehind, hgap⟩

end Branch

/-- In every run with halt low a committed JAL with a misaligned target reports
it exactly if the pipeline does not wait, and a taken branch exactly under
`BranchKept`. -/
theorem target_reported_iff {s : KyogenRVCpu} (hs : s.Running) :
    (∀ rd imm io, Rv32i.decode s.ex.inst = some (.jal rd imm) → s.Committed →
      Csr.misaligned (s.ex.pc + imm) = true → io.halt = false →
      (s.ReportsTarget io s.ex.pc (s.ex.pc + imm) ↔ s.waitrequest io = false)) ∧
    (∀ r cond rs1 rs2 imm v1 v2, s.BranchPass r cond rs1 rs2 imm v1 v2 →
      (s.BranchReported r imm ↔ s.BranchKept r imm v1 v2)) :=
  ⟨fun _ _ _ hinstr hcommitted hmis hhalt => jalReported_iff hs hinstr hcommitted hmis hhalt,
    fun _ _ _ _ _ _ _ hpass => branchReported_iff hs hpass⟩

/-- A transfer at pc 4 is in EX, behind the given instruction. -/
def transferBehind (first inst : Word) : KyogenRVCpu :=
  sample [.fetch first, .fetch inst, .fetch 0x00000013]

theorem running_transferBehind (first inst : Word) : (transferBehind first inst).Running :=
  running_sample (by simp [HostIf.fetch, HostIf.idle])

/-- The branch does not wait, and NOPs are around it. -/
def nopsAround : BranchRun := ⟨.fetch 0x13, [], .fetch 0x13, [.idle, .fetch 0x13, .idle], .idle⟩

/-- A `jal x1, 6`, and a `bne x1, x0, 6` with the address of its target in x1. -/
theorem target_reported_jal_bne :
    (transferBehind 0x00000013 0x006000ef).ReportsTarget .idle 4 10 ∧
      (transferBehind 0x00a00093 0x00009363).BranchReported nopsAround 6 := by
  have hpass : (transferBehind 0x00a00093 0x00009363).BranchPass nopsAround .ne 1 0 6 10 0 := by
    constructor
    case committed => constructor <;> decide +kernel
    all_goals decide +kernel
  constructor
  · have hreport := ((target_reported_iff (running_transferBehind 0x00000013 0x006000ef)).1 1 6
      .idle (by decide +kernel) (by constructor <;> decide +kernel) (by decide +kernel) rfl).mpr
      (by decide +kernel)
    have hpc : (transferBehind 0x00000013 0x006000ef).ex.pc = 4 := by decide +kernel
    rw [hpc] at hreport
    exact hreport
  · refine ((target_reported_iff (running_transferBehind _ _)).2 _ _ _ _ _ _ _ hpass).mpr ?_
    constructor
    all_goals decide +kernel

/-- A `beq x0, x0, 6` reports 0 as its target. -/
theorem beq_reports_operands :
    ¬∀ (s : KyogenRVCpu) (r : BranchRun) (cond : Rv32i.Cond) (rs1 rs2 : BitVec 5)
      (imm v1 v2 : Word), s.Running → s.BranchPass r cond rs1 rs2 imm v1 v2 →
      s.BranchReported r imm := by
  intro h
  have hreported := h (transferBehind 0x00000013 0x00000363) nopsAround .eq 0 0 6 0 0
    (running_transferBehind _ _) (by
      constructor
      case committed => constructor <;> decide +kernel
      all_goals decide +kernel)
  have hmtval := hreported.report.2.2.2.1
  revert hmtval
  decide +kernel

end KyogenRVCpu

end KyogenRV
