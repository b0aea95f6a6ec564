import KyogenRV.Core.Execute
import KyogenRV.Core.Fetch

/-!
# Pipelines of register instructions

When the memory holds RV32I register instructions only, so does every stage of
the pipeline, on the right path or not.  Nothing in it accesses data or a CSR,
and the only exception left is a jump to a target that is not aligned.
-/

namespace KyogenRV

open ScalarOpConstants MemoryOpConstants

/-- An aligned pc and an RV32I register instruction. -/
def RegisterCode (pc inst : Word) : Prop :=
  Csr.misaligned pc = false ∧ ∃ instr, Rv32i.decode inst = some instr

/-- The control bundle of an RV32I register instruction. -/
def RegisterCtrl (ctrl : IntCtrlSigs) : Prop := ∃ instr, ctrl = ctrlOf instr

theorem registerCode_nop : RegisterCode pcStart Instructions.nop :=
  ⟨by decide, .opImm .add 0 0 0, by decide⟩

theorem RegisterCode.ctrl {pc inst : Word} (h : RegisterCode pc inst) :
    RegisterCtrl (idDecode inst) := by
  obtain ⟨_, instr, hinstr⟩ := h
  exact ⟨instr, idDecode_of_decode hinstr⟩

theorem registerCtrl_nop : RegisterCtrl nopCtrl := registerCode_nop.ctrl

theorem RegisterCtrl.plain {ctrl : IntCtrlSigs} (h : RegisterCtrl ctrl) :
    ctrl.legal = true ∧ ctrl.memWr = mX ∧ ctrl.csrCmd = CSR.n ∧ ctrl.wbSel ≠ wbMem ∧
      ctrl.brType ≠ brRet := by
  obtain ⟨instr, rfl⟩ := h
  exact ctrlOf_plain instr

theorem RegisterCode.add_four {pc inst : Word} (h : RegisterCode pc inst) :
    RegisterCode (pc + 4) inst :=
  ⟨(misaligned_add_four pc).trans h.1, h.2⟩

namespace CpuBus

/-- Every stage holds register instructions at aligned pcs. -/
structure RegisterOnly (b : CpuBus) : Prop where
  ifPc : Csr.misaligned b.cpu.ifPc = false
  pcCntr : Csr.misaligned b.cpu.pcCntr = false
  port : b.imem.rAck = true → ∃ instr, Rv32i.decode (b.imem.word b.imem.rAddr) = some instr
  id : RegisterCode b.cpu.id.pc b.cpu.id.inst
  idTemp : RegisterCode b.cpu.idTemp.pc b.cpu.idTemp.inst
  ex : RegisterCode b.cpu.ex.pc b.cpu.ex.inst
  mem : RegisterCtrl b.cpu.mem.ctrl
  wb : RegisterCtrl b.cpu.wb.ctrl
  inLoadstore : b.cpu.inLoadstore = false
  meie : b.cpu.csr.meie = false

section Step

variable {b : CpuBus} {sw : TestIf}

theorem RegisterOnly.exCtrl (hb : b.RegisterOnly) (hco : b.cpu.Coherent) :
    RegisterCtrl b.cpu.ex.ctrl := by
  rw [hco.ex.ctrl]
  exact hb.ex.ctrl

/-- No data access is around. -/
theorem RegisterOnly.noAccess (hb : b.RegisterOnly) (hco : b.cpu.Coherent) :
    b.cpu.loadstoreInPipe = false ∧ b.cpu.loadstoreProc = false := by
  have hex := (hb.exCtrl hco).plain.2.1
  have hmem := hb.mem.plain.2.1
  have hwb := hb.wb.plain.2.1
  simp [KyogenRVCpu.loadstoreInPipe, KyogenRVCpu.loadstoreProc, hex, hmem, hwb]

/-- The only exception is a jump in EX to a target that is not aligned. -/
theorem RegisterOnly.expt_eq (hb : b.RegisterOnly) (hco : b.cpu.Coherent) (io : HostIf) :
    b.cpu.expt io = Csr.iaddrInvalidJ (b.cpu.csrPorts io) := by
  obtain ⟨hlegal, hacc, hcmd, _, _⟩ := (hb.exCtrl hco).plain
  obtain ⟨hload, hstore⟩ := KyogenRVCpu.addrInvalid_of_noAccess io hacc
  rw [KyogenRVCpu.expt_of_plain io hlegal (hco.ex.csrCmd.trans hcmd) hb.ex.1 hb.meie, hload, hstore,
    Bool.or_false, Bool.or_false]

theorem RegisterOnly.port_step (hb : b.Running)
    (himage : ∀ addr ≤ 0x3000, ∃ instr, Rv32i.decode (b.image addr) = some instr)
    (hack : (b.step sw).imem.rAck = true) :
    ∃ instr, Rv32i.decode ((b.step sw).imem.word (b.step sw).imem.rAddr) = some instr := by
  obtain ⟨hread, hword, haddr⟩ := imem_step hb sw
  rw [hword, haddr hack]
  rw [hread, Bool.and_eq_true, decide_eq_true_iff] at hack
  exact himage _ hack.2

theorem RegisterOnly.pcCntr_step (hb : b.RegisterOnly) (io : HostIf) (hhalt : io.halt = false)
    (hexpt : b.cpu.expt io = false)
    (htarget : b.cpu.instKillBranch = true → Csr.misaligned b.cpu.transferTarget = false) :
    Csr.misaligned (b.cpu.step io).pcCntr = false := by
  rw [KyogenRVCpu.step_pcCntr]
  cases hbranch : b.cpu.instKillBranch with
  | true =>
      rw [KyogenRVCpu.pcCntrNext_of_not_expt hbranch hexpt, hhalt, if_neg Bool.false_ne_true]
      split_ifs
      · exact htarget hbranch
      · exact hb.pcCntr
  | false =>
      have hkill : b.cpu.instKill io = false := by rw [KyogenRVCpu.instKill, hbranch, hexpt]; rfl
      rw [KyogenRVCpu.pcCntrNext, KyogenRVCpu.pcTarget_of_not_kill hkill, hhalt,
        if_neg Bool.false_ne_true]
      split_ifs
      · rw [misaligned_add_four, hb.pcCntr]
      · exact hb.pcCntr

theorem RegisterOnly.fetched (hb : b.RegisterOnly) (hack : (b.hostIf sw).rImemAck = true) :
    RegisterCode (b.cpu.fetched (b.hostIf sw)).pc (b.cpu.fetched (b.hostIf sw)).inst :=
  ⟨hb.ifPc, hb.port hack⟩

theorem RegisterOnly.restored (hb : b.RegisterOnly) :
    RegisterCode b.cpu.restored.pc b.cpu.restored.inst := by
  rw [KyogenRVCpu.restored]
  split_ifs
  · exact hb.idTemp.add_four
  · exact hb.idTemp

/-- As long as nothing traps and transfers go to aligned targets, only register
instructions enter the pipeline. -/
theorem registerOnly_step (hrun : b.Running) (hb : b.RegisterOnly)
    (himage : ∀ addr ≤ 0x3000, ∃ instr, Rv32i.decode (b.image addr) = some instr)
    (hexpt : b.cpu.expt (b.hostIf sw) = false)
    (htarget : b.cpu.instKillBranch = true → Csr.misaligned b.cpu.transferTarget = false) :
    (b.step sw).RegisterOnly := by
  have hco := hrun.reachable.coherent
  obtain ⟨hid, htemp⟩ := KyogenRVCpu.idStage_forall
    (P := fun slot => RegisterCode slot.pc slot.inst) (s := b.cpu)
    registerCode_nop (fun hack _ => hb.fetched hack) hb.restored hb.id hb.idTemp
    fun h => absurd (hb.inLoadstore.symm.trans h) Bool.false_ne_true
  constructor
  case ifPc =>
    rw [step_cpu, KyogenRVCpu.step_ifPc, KyogenRVCpu.ifStage]
    split_ifs
    · exact hb.pcCntr
    · rfl
    · exact hb.ifPc
    · exact hb.ifPc
  case pcCntr => exact hb.pcCntr_step _ hrun.swHalt hexpt htarget
  case port => exact RegisterOnly.port_step hrun himage
  case id => exact hid
  case idTemp => exact htemp
  case ex =>
    exact KyogenRVCpu.ex_step_forall (P := fun ex => RegisterCode ex.pc ex.inst)
      registerCode_nop hb.id hb.ex
  case mem =>
    exact KyogenRVCpu.mem_step_forall (P := fun mem => RegisterCtrl mem.ctrl) registerCtrl_nop
      (fun _ => hb.exCtrl hco) hb.mem
  case wb =>
    exact KyogenRVCpu.wb_step_forall (P := fun wb => RegisterCtrl wb.ctrl) hb.mem hb.wb
  case inLoadstore =>
    exact KyogenRVCpu.inLoadstore_of_noAccess hb.mem.plain.2.1 (Or.inl hb.inLoadstore)
  case meie =>
    have hcmd := hco.ex.csrCmd.trans (hb.exCtrl hco).plain.2.2.1
    exact (KyogenRVCpu.meie_of_plain hcmd hexpt).trans hb.meie

end Step

end CpuBus

end KyogenRV
