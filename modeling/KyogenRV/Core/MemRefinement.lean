import KyogenRV.Core.InOrder
import KyogenRV.Core.MemExecute
import KyogenRV.Core.Refinement

/-!
# Refinement of the instruction set with data memory

The simulation top on a program of RV32I without system instructions against
the execution of one instruction at a time on a byte memory.  Three positions
in that execution are followed: how many instructions have left WB, MEM and EX.
The registers written are those behind the first, the data memory is that
behind the second, and the third is where the fetch has to go on.
-/

namespace KyogenRV

open ScalarOpConstants MemoryOpConstants

open Rv32i (MemInstr MemState)

/-- A program with its data: its execution from address 0 stays in the memory,
jumps to aligned targets and accesses aligned addresses of the data memory. -/
structure MemProgram (image : Word → Word) (mem : ByteMem) : Prop where
  decodes : ∀ addr ≤ 0x3000, ∃ instr, Rv32i.decodeMem (image addr) = some instr
  inRange : ∀ n, (Rv32i.memRun image (.start mem) n).pc ≤ 0x3000
  wellBehaved : ∀ n, Rv32i.WellBehaved image 0x3000 (Rv32i.memRun image (.start mem) n)

/-- The state before the `n`-th instruction executed. -/
def execution (image : Word → Word) (mem : ByteMem) (n : ℕ) : MemState :=
  Rv32i.memRun image (.start mem) n

section Path

variable {image : Word → Word} {mem : ByteMem}

theorem MemProgram.aligned (hprog : MemProgram image mem) (n : ℕ) :
    Csr.misaligned (execution image mem n).pc = false :=
  (misaligned_eq_false_iff _).mpr (Rv32i.memRun_aligned rfl hprog.wellBehaved n)

/-- The `n`-th instruction executed. -/
theorem MemProgram.instr (hprog : MemProgram image mem) (n : ℕ) :
    ∃ instr, Rv32i.decodeMem (image (execution image mem n).pc) = some instr :=
  hprog.decodes _ (hprog.inRange n)

theorem execution_succ {n : ℕ} {instr : MemInstr}
    (hinstr : Rv32i.decodeMem (image (execution image mem n).pc) = some instr) :
    execution image mem (n + 1) = instr.exec (execution image mem n) := by
  rw [execution, Rv32i.memRun_succ]
  exact Rv32i.memStep_of_decode hinstr

theorem memTrace_succ {n : ℕ} {instr : MemInstr}
    (hinstr : Rv32i.decodeMem (image (execution image mem n).pc) = some instr) :
    Rv32i.memTrace image (.start mem) (n + 1) =
      Rv32i.memTrace image (.start mem) n ++ instr.writes (execution image mem n) :=
  congrArg (Rv32i.memTrace image (.start mem) n ++ ·) (Rv32i.memStepWrites_of_decode hinstr)

/-- At `σ` the program is in the memory, behaves well and goes on in `P`. -/
structure MemGoesOnIn (image : Word → Word) (P : Word → Prop) (σ : MemState) : Prop where
  inRange : σ.pc ≤ 0x3000
  wellBehaved : Rv32i.WellBehaved image 0x3000 σ
  next : P (Rv32i.memStep image σ).pc

/-- A program is known by a set of pcs that its execution does not leave. -/
theorem memProgram_of_closed {P : Word → Prop} (hstart : P 0)
    (hdecodes : ∀ addr ≤ 0x3000, ∃ instr, Rv32i.decodeMem (image addr) = some instr)
    (hclosed : ∀ σ : MemState, P σ.pc → MemGoesOnIn image P σ) : MemProgram image mem := by
  have hpath (n : ℕ) : P (Rv32i.memRun image (.start mem) n).pc :=
    Rv32i.memRun_invariant (P := fun σ => P σ.pc) hstart (fun σ hσ => (hclosed σ hσ).next) n
  exact ⟨hdecodes, fun n => (hclosed _ (hpath n)).inRange,
    fun n => (hclosed _ (hpath n)).wellBehaved⟩

/-- An instruction is judged by what it jumps to and what it accesses. -/
theorem memGoesOnIn_of_instr {P : Word → Prop} {σ : MemState} {c : Word} {instr : MemInstr}
    (hpc : σ.pc = c) (hinstr : Rv32i.decodeMem (image c) = some instr) (hrange : c ≤ 0x3000)
    (hjump : ∀ target, instr.target? σ.toState = some target → target.extractLsb' 0 2 = 0)
    (haccess : ∀ addr size, instr.access? σ.toState = some (addr, size) →
      size ∣ addr.toNat ∧ addr ≤ 0x3000)
    (hnext : P (instr.next σ.toState)) : MemGoesOnIn image P σ := by
  subst hpc
  constructor
  case inRange => exact hrange
  case wellBehaved =>
    constructor
    · intro instr' hinstr'
      obtain rfl := Option.some.inj (hinstr.symm.trans hinstr')
      exact hjump
    · intro instr' hinstr'
      obtain rfl := Option.some.inj (hinstr.symm.trans hinstr')
      exact haccess
  case next =>
    rw [Rv32i.memStep_of_decode hinstr]
    exact hnext

end Path

/-! ## What the stages hold -/

/-- The word encodes an instruction of the program. -/
def MemCode (inst : Word) : Prop := ∃ instr, Rv32i.decodeMem inst = some instr

theorem memCode_nop : MemCode Instructions.nop := ⟨.reg (.opImm .add 0 0 0), by decide⟩

theorem MemCode.plain {inst : Word} (h : MemCode inst) :
    (idDecode inst).csrCmd = CSR.n ∧ (idDecode inst).brType ≠ brRet := by
  obtain ⟨instr, hinstr⟩ := h
  rw [idDecode_of_decodeMem hinstr]
  exact (ctrlOfMem_plain instr).2

/-- Register 0 is read as zero. -/
def KyogenRVCpu.ZeroRead (s : KyogenRVCpu) : Prop :=
  (s.ex.regRaddr1 = 0 → s.ex.rs1 = 0) ∧ (s.ex.regRaddr2 = 0 → s.ex.rs2 = 0)

theorem KyogenRVCpu.Reachable.zeroRead {s : KyogenRVCpu} (hs : s.Reachable) : s.ZeroRead := by
  have hread (t : KyogenRVCpu) {r : BitVec 5} (hr : r = 0) : t.readReg r = 0 :=
    if_pos (beq_iff_eq.mpr hr)
  refine Machine.Reachable.invariant (I := ZeroRead) ?_ (fun t io ht => ?_) hs
  · rintro t ⟨_, _, _, _, _, _, _, rfl⟩
    exact ⟨fun _ => rfl, fun _ => rfl⟩
  · exact ex_step_forall (P := fun ex =>
        (ex.regRaddr1 = 0 → ex.rs1 = 0) ∧ (ex.regRaddr2 = 0 → ex.rs2 = 0))
      ⟨fun _ => rfl, fun _ => rfl⟩ ⟨hread t, hread t⟩ ht

namespace CpuBus

/-- Every stage holds instructions of the program, on the right path or not. -/
structure ProgramOnly (b : CpuBus) : Prop where
  port : b.imem.rAck = true → MemCode (b.imem.word b.imem.rAddr)
  id : MemCode b.cpu.id.inst
  idTemp : MemCode b.cpu.idTemp.inst
  id2Temp : MemCode b.cpu.id2Temp.inst
  ex : MemCode b.cpu.ex.inst
  mem : b.cpu.mem.ctrl.brType ≠ brRet
  meie : b.cpu.csr.meie = false

/-- A taken transfer in MEM is not disturbed. -/
structure TransferKept (b : CpuBus) (sw : TestIf) : Prop where
  /-- The pipeline does not wait with a load or store behind it. -/
  request : b.cpu.NoAccessBehindWaiting (b.hostIf sw)
  /-- The instruction behind it does not trap. -/
  wrongPath : b.cpu.instKillBranch = true → b.cpu.expt (b.hostIf sw) = false
  /-- The lock is not left on with the fetch beyond the memory. -/
  lock : b.cpu.instKillBranch = true → b.cpu.waitrequest (b.hostIf sw) = false →
    b.cpu.tempLock = true → b.imem.rAck = false → b.cpu.pcCntr ≤ 0x3000

instance (b : CpuBus) (sw : TestIf) : Decidable (b.TransferKept sw) :=
  decidable_of_iff
    (¬(b.cpu.waitrequest (b.hostIf sw) = true ∧ b.cpu.instKillBranch = true ∧
        b.cpu.ex.ctrl.memWr ≠ mX) ∧
      (b.cpu.instKillBranch = true → b.cpu.expt (b.hostIf sw) = false) ∧
      (b.cpu.instKillBranch = true → b.cpu.waitrequest (b.hostIf sw) = false →
        b.cpu.tempLock = true → b.imem.rAck = false → b.cpu.pcCntr ≤ 0x3000))
    ⟨fun ⟨request, wrongPath, lock⟩ => ⟨request, wrongPath, lock⟩,
      fun h => ⟨h.request, h.wrongPath, h.lock⟩⟩

section Step

variable {b : CpuBus} {sw : TestIf}

theorem ProgramOnly.restored (hb : b.ProgramOnly) : MemCode b.cpu.restored.inst := by
  rw [KyogenRVCpu.restored]
  split_ifs
  · exact hb.idTemp
  · exact hb.idTemp

/-- As long as nothing traps, only instructions of the program enter the
pipeline. -/
theorem programOnly_step (hrun : b.Running) (hb : b.ProgramOnly)
    (himage : ∀ addr ≤ 0x3000, MemCode (b.image addr))
    (hexpt : b.cpu.expt (b.hostIf sw) = false) : (b.step sw).ProgramOnly := by
  have hco := hrun.reachable.coherent.ex
  obtain ⟨hid, htemp⟩ : MemCode (b.cpu.idStage (b.hostIf sw)).id.inst ∧
      MemCode (b.cpu.idStage (b.hostIf sw)).idTemp.inst :=
    KyogenRVCpu.idStage_forall (P := fun slot => MemCode slot.inst) memCode_nop
      (fun hack _ => hb.port hack) hb.restored hb.id hb.idTemp fun _ => hb.id2Temp
  obtain ⟨hcmd, hret⟩ := hb.ex.plain
  rw [← hco.ctrl] at hcmd hret
  constructor
  case port =>
    obtain ⟨hread, hword, haddr⟩ := imem_step hrun sw
    intro hack
    rw [hword, haddr hack]
    rw [hread, Bool.and_eq_true, decide_eq_true_iff] at hack
    exact himage _ hack.2
  case id => exact hid
  case idTemp => exact htemp
  case id2Temp =>
    exact KyogenRVCpu.idStage_id2Temp_forall (P := fun slot => MemCode slot.inst) memCode_nop
      hb.id hb.id2Temp
  case ex =>
    exact KyogenRVCpu.ex_step_forall (P := fun ex => MemCode ex.inst) memCode_nop hb.id hb.ex
  case mem =>
    exact KyogenRVCpu.mem_step_forall (P := fun mem => mem.ctrl.brType ≠ brRet) (by decide)
      (fun _ => hret) hb.mem
  case meie => exact (KyogenRVCpu.meie_of_plain (hco.csrCmd.trans hcmd) hexpt).trans hb.meie

/-- A kill sends the undisturbed fetch to the target. -/
theorem undisturbed_of_kill (hb : b.Running) (hreq : b.cpu.imemReq = true)
    (hbranch : b.cpu.instKillBranch = true) (hexpt : b.cpu.expt (b.hostIf sw) = false)
    (hwait : b.cpu.waitrequest (b.hostIf sw) = false)
    (hlock : b.cpu.tempLock = true → b.imem.rAck = false → b.cpu.pcCntr ≤ 0x3000) :
    (b.step sw).Undisturbed b.cpu.transferTarget := by
  have hkill : b.cpu.instKill (b.hostIf sw) = true := by
    rw [KyogenRVCpu.instKill, hbranch, Bool.true_or]
  have hmem : b.cpu.mem.ctrl.memWr = mX := KyogenRVCpu.memWr_of_brType
    hb.reachable.coherent.mem (KyogenRVCpu.brType_of_instKillBranch hbranch)
  obtain ⟨hex', hmem', hwb'⟩ := KyogenRVCpu.stages_of_kill hwait hkill
  have hack : (b.hostIf sw).rImemAck = b.imem.rAck := rfl
  have hstall := hb.boot.stall_of_kill hkill
  have hvalid' : (b.step sw).cpu.validImem = false := by
    simp [step_cpu, KyogenRVCpu.ifStage, hkill, hwait, hstall]
  constructor
  case fetch => exact (fetchAt_kill hb hreq hbranch hexpt hwait).2
  case inLoadstore => exact KyogenRVCpu.inLoadstore_of_noAccess hmem (Or.inr hreq)
  case lock =>
    intro hlock'
    have hkept : b.cpu.tempLock = true ∧ b.imem.rAck = false := by
      have hsame : (b.step sw).cpu.tempLock = (b.cpu.tempLock && !b.imem.rAck) := by
        simp [step_cpu, KyogenRVCpu.idStage, KyogenRVCpu.idSave, hkill, hwait, hreq, hack]
      rw [hsame, Bool.and_eq_true, Bool.not_eq_true'] at hlock'
      exact hlock'
    exact ⟨by rw [hvalid', Bool.false_and],
      fun _ => rAck_of_req hb hreq (hlock hkept.1 hkept.2)⟩
  case inEx =>
    intro hacc
    rw [step_cpu, hex'] at hacc
    exact absurd KyogenRVCpu.nop_noAccess hacc
  case mem => rw [step_cpu, hmem']; exact KyogenRVCpu.nop_noAccess
  case wb => rw [step_cpu, hwb']; exact hmem

/-- While the pipeline waits, the instruction in EX and what follows it stay. -/
theorem exNext_of_wait {c : Word} (hb : b.Running) (hnext : b.ExNext c) (hkept : b.AccessKept sw)
    (hkill : b.cpu.instKill (b.hostIf sw) = false)
    (hwait : b.cpu.waitrequest (b.hostIf sw) = true) : (b.step sw).ExNext c := by
  have hsame : (b.step sw).cpu.exSlot = b.cpu.exSlot := by
    rw [KyogenRVCpu.exSlot, step_cpu, (KyogenRVCpu.stages_of_wait hwait).1, KyogenRVCpu.exSlot]
  have hissue (h : b.cpu.waitrequest (b.hostIf sw) = false) :
      b.cpu.holdIssue (b.hostIf sw) = true :=
    absurd (hwait.symm.trans h) (by decide)
  rw [ExNext, hsame, slotAt_step hb]
  rcases hnext with ⟨hex, hnext⟩ | ⟨hex, hrange, hnext⟩
  · exact Or.inl ⟨hex, idNext_stay hb hnext hkept hkill hissue
      fun h => absurd (exAccess_of_bubble hb hex) h⟩
  · exact Or.inr ⟨hex, hrange, idNext_stay hb hnext hkept hkill hissue fun _ => by bv_omega⟩

end Step

/-- What the cycles of a run have to meet: the fetch keeps its words around data
accesses and transfers, and the data port its answers. -/
structure Kept (b : CpuBus) (sw : TestIf) : Prop where
  halt : sw.halt = false
  access : b.AccessKept sw
  transfer : b.TransferKept sw
  answer : (FlatBus.start b).AnswerKept sw

instance (b : CpuBus) (sw : TestIf) : Decidable (b.Kept sw) :=
  have : Decidable ((FlatBus.start b).AnswerKept sw) := by
    unfold FlatBus.AnswerKept
    infer_instance
  decidable_of_iff
    (sw.halt = false ∧ b.AccessKept sw ∧ b.TransferKept sw ∧ (FlatBus.start b).AnswerKept sw)
    ⟨fun ⟨halt, access, transfer, answer⟩ => ⟨halt, access, transfer, answer⟩,
      fun h => ⟨h.halt, h.access, h.transfer, h.answer⟩⟩

end CpuBus

/-! ## The simulation -/

namespace FlatBus

/-- The core runs the program with nothing of its state amiss. -/
structure Settled (image : Word → Word) (f : FlatBus) : Prop where
  inv : f.Inv
  image_eq : f.bus.image = image
  transfer : f.bus.cpu.TransferInv
  programOnly : f.bus.ProgramOnly
  accepted : f.Accepted

/-- `w` instructions have left WB, `m` have left MEM and `n` have left EX. -/
structure Simulates (image : Word → Word) (mem : ByteMem) (history : List (BitVec 5 × Word))
    (f : FlatBus) (w m n : ℕ) : Prop extends f.Settled image where
  order : w ≤ m ∧ m ≤ w + 1 ∧ m ≤ n ∧ n ≤ m + 1
  written : history = Rv32i.memTrace image (.start mem) w
  inWb : Rv32i.memTrace image (.start mem) w ++ f.bus.cpu.wbWriting f.flat =
    Rv32i.memTrace image (.start mem) m
  inMem : Rv32i.memTrace image (.start mem) m ++ f.bus.cpu.memWriting f.flat =
    Rv32i.memTrace image (.start mem) n
  regs : ∀ r ≠ 0, f.bus.cpu.flatReg f.flat r = (execution image mem n).regs r
  flat : f.flat = (execution image mem m).mem
  stored : f.bus.cpu.memStored f.flat = (execution image mem n).mem
  target : f.bus.cpu.instKillBranch = true →
    f.bus.cpu.transferTarget = (execution image mem n).pc
  chain : f.bus.cpu.instKillBranch = false → f.bus.ExNext (execution image mem n).pc

section Step

variable {image : Word → Word} {mem : ByteMem} {history : List (BitVec 5 × Word)}
variable {f : FlatBus} {sw : TestIf} {w m n : ℕ}

theorem Settled.coherent (hf : f.Settled image) : f.bus.cpu.Coherent :=
  hf.inv.running.reachable.coherent

/-- The next instruction of the program is in EX. -/
theorem Simulates.executes (hf : f.Simulates image mem history w m n)
    (hprog : MemProgram image mem) (hbranch : f.bus.cpu.instKillBranch = false)
    (hex : f.bus.cpu.exSlot = f.bus.slotAt (execution image mem n).pc) (io : HostIf) :
    ∃ instr, Rv32i.decodeMem (image (execution image mem n).pc) = some instr ∧
      f.bus.cpu.MemExecutes io (execution image mem n) instr := by
  obtain ⟨instr, hinstr⟩ := hprog.instr n
  have hco := hf.coherent
  have hreach := hf.inv.running.reachable
  obtain ⟨hop1, hop2⟩ := hreach.forwardInv.flatReg hco hbranch io f.flat
  have hread {raddr : BitVec 5} {rs : Word} (hzero : raddr = 0 → rs = 0)
      (hop : raddr ≠ 0 → f.bus.cpu.flatReg f.flat raddr = f.bus.cpu.exRegBypass io raddr rs) :
      f.bus.cpu.exRegBypass io raddr rs = (execution image mem n).read raddr := by
    by_cases hraddr : raddr = 0
    · rw [Rv32i.State.read, if_pos hraddr, ← hzero hraddr, hraddr]
      rfl
    · rw [Rv32i.State.read, if_neg hraddr, ← hf.regs raddr hraddr]
      exact (hop hraddr).symm
  have hinst : f.bus.cpu.ex.inst = image (execution image mem n).pc :=
    (congrArg Slot.inst hex).trans (congrFun hf.image_eq _)
  refine ⟨instr, hinstr, ?_⟩
  constructor
  case coherent => exact hco.ex
  case instr => rw [hinst, hinstr]
  case pc => exact congrArg Slot.pc hex
  case npc => exact congrArg Slot.npc hex
  case rs1 => exact (hread hreach.zeroRead.1 hop1).trans (congrArg _ hco.ex.regRaddr1)
  case rs2 => exact (hread hreach.zeroRead.2 hop2).trans (congrArg _ hco.ex.regRaddr2)

/-- Nothing traps: the instruction in EX is that of the program if it is on the
path, and by assumption it does not if it is not. -/
theorem Simulates.expt (hf : f.Simulates image mem history w m n) (hprog : MemProgram image mem)
    (hkept : f.bus.TransferKept sw) : f.bus.cpu.expt (f.bus.hostIf sw) = false := by
  cases hbranch : f.bus.cpu.instKillBranch with
  | true => exact hkept.wrongPath hbranch
  | false =>
      have hex := hf.coherent.ex
      have hmeie := hf.programOnly.meie
      rcases hf.chain hbranch with ⟨hbubble, _⟩ | ⟨hslot, _, _⟩
      · have hnop : f.bus.cpu.ex.inst = Instructions.nop := congrArg Slot.inst hbubble
        have hpc : f.bus.cpu.ex.pc = pcStart := congrArg Slot.pc hbubble
        obtain ⟨hj, hl, hst, _⟩ := KyogenRVCpu.nop_in_ex (f.bus.hostIf sw) hex hnop
        have hctrl : f.bus.cpu.ex.ctrl = nopCtrl := by rw [hex.ctrl, hnop]; rfl
        rw [KyogenRVCpu.expt_of_plain _ (by rw [hctrl]; decide)
          (hex.csrCmd.trans (by rw [hctrl]; decide)) (by rw [hpc]; rfl) hmeie, hj, hl, hst]
        rfl
      · obtain ⟨instr, hinstr, hexec⟩ := hf.executes hprog hbranch hslot (f.bus.hostIf sw)
        have hgood := hprog.wellBehaved n
        exact hexec.expt (hprog.aligned n) hmeie (hgood.jumps instr hinstr)
          fun addr size haccess => (hgood.accesses instr hinstr addr size haccess).1

/-- An access that leaves EX is one of the program. -/
theorem Simulates.accepted_step (hf : f.Simulates image mem history w m n)
    (hprog : MemProgram image mem) : (f.step sw).Accepted := by
  refine KyogenRVCpu.mem_step_forall
    (P := fun mem => mem.ctrl.memWr ≠ mX → mem.aluOut ≤ 0x3000)
    (fun h => absurd KyogenRVCpu.nop_noAccess h) (fun hkill hacc => ?_) hf.accepted
  have hacc' : f.bus.cpu.ex.ctrl.memWr ≠ mX := hacc
  have hbranch : f.bus.cpu.instKillBranch = false := (Bool.or_eq_false_iff.mp hkill).1
  rcases hf.chain hbranch with ⟨hbubble, _⟩ | ⟨hslot, _, _⟩
  · exact absurd (CpuBus.exAccess_of_bubble hf.inv.running hbubble) hacc'
  · obtain ⟨instr, hinstr, hexec⟩ := hf.executes hprog hbranch hslot (f.bus.hostIf sw)
    have haddr (addr : Word) (size : ℕ)
        (haccess : instr.access? (execution image mem n).toState = some (addr, size)) :
        f.bus.cpu.aluOut (f.bus.hostIf sw) ≤ 0x3000 := by
      rw [hexec.aluOut_of_access haccess]
      exact ((hprog.wellBehaved n).accesses instr hinstr addr size haccess).2
    rw [hexec.ctrl] at hacc'
    cases instr with
    | load | store => exact haddr _ _ rfl
    | reg reg => exact absurd (ctrlOf_plain reg).2.1 hacc'
    | fence | fenceI => exact absurd rfl hacc'

theorem Simulates.settled_step (hf : f.Simulates image mem history w m n)
    (hprog : MemProgram image mem) (hkept : f.bus.Kept sw) : (f.step sw).Settled image := by
  have himage : ∀ addr ≤ 0x3000, MemCode (f.bus.image addr) := by
    rw [hf.image_eq]
    exact hprog.decodes
  have hexpt := hf.expt hprog hkept.transfer
  constructor
  case inv => exact inv_step hf.inv hkept.halt hf.accepted hkept.answer
  case image_eq => exact (CpuBus.image_step hf.inv.running sw).trans hf.image_eq
  case transfer =>
    exact KyogenRVCpu.transferInv_step hf.transfer hf.inv.running.boot.signalled hf.coherent
      hkept.transfer.request
  case programOnly => exact CpuBus.programOnly_step hf.inv.running hf.programOnly himage hexpt
  case accepted => exact hf.accepted_step hprog

theorem Simulates.instKill (hf : f.Simulates image mem history w m n)
    (hprog : MemProgram image mem) (hkept : f.bus.TransferKept sw) :
    f.bus.cpu.instKill (f.bus.hostIf sw) = f.bus.cpu.instKillBranch := by
  rw [KyogenRVCpu.instKill, hf.expt hprog hkept, Bool.or_false]

/-- When the instruction in WB leaves, a load has its data. -/
theorem Settled.rfWdata (hf : f.Settled image) (hkept : f.AnswerKept sw)
    (hwait : f.waits sw = false) (hwen : f.bus.cpu.wb.ctrl.rfWen = true)
    (hrd : f.bus.cpu.wb.regWaddr ≠ 0) :
    f.bus.cpu.rfWdata (f.bus.hostIf sw) = f.bus.cpu.wbValue f.flat := by
  rw [KyogenRVCpu.wbValue]
  by_cases hload : f.bus.cpu.wb.ctrl.memWr = mXrd
  · have hwrites : f.bus.cpu.wbWrites f.bus.cpu.wb.regWaddr = true := by
      rw [KyogenRVCpu.wbWrites, hwen, beq_self_eq_true, Bool.and_self]
    have hreg : (f.bus.cpu.step (f.bus.hostIf sw)).rv32iReg f.bus.cpu.wb.regWaddr =
        f.bus.cpu.rfWdata (f.bus.hostIf sw) := by
      rw [KyogenRVCpu.rv32iReg_step hrd, hwrites, if_pos rfl]
    rw [← hreg, beq_iff_eq.mpr hload, if_pos rfl]
    exact load_of_inv hf.inv hkept hload hwait hrd
  · rw [beq_eq_false_iff_ne.mpr hload, if_neg Bool.false_ne_true]
    exact KyogenRVCpu.rfWdata_of_not_load (wbSel_of_not_load hf.coherent.wb hload) rfl _ _

theorem Settled.written (hf : f.Settled image) (hkept : f.AnswerKept sw)
    (hwait : f.waits sw = false) :
    f.bus.cpu.written (f.bus.hostIf sw) = f.bus.cpu.wbWriting f.flat := by
  have hwait' : f.bus.cpu.waitrequest (f.bus.hostIf sw) = false := hwait
  rw [KyogenRVCpu.written, hwait', if_neg Bool.false_ne_true, KyogenRVCpu.wbPending,
    KyogenRVCpu.wbWriting]
  by_cases hwrites : (f.bus.cpu.wb.ctrl.rfWen && f.bus.cpu.wb.regWaddr != 0) = true
  · obtain ⟨hwen, hrd⟩ := Bool.and_eq_true_iff.mp hwrites
    rw [if_pos hwrites, if_pos hwrites, hf.rfWdata hkept hwait hwen (bne_iff_ne.mp hrd)]
  · rw [if_neg hwrites, if_neg hwrites]

/-- The flat memory when the pipeline moves. -/
theorem flat_of_move (hwait : f.waits sw = false) :
    (f.step sw).flat = f.bus.cpu.memStored f.flat := by
  rw [step, hwait, KyogenRVCpu.memStored, stored]
  simp only [Bool.not_false, Bool.and_true, beq_iff_eq]

/-- While the pipeline waits everything stays where it is. -/
theorem Simulates.waits_step (hf : f.Simulates image mem history w m n)
    (hprog : MemProgram image mem) (hkept : f.bus.Kept sw) (hwait : f.waits sw = true) :
    (f.step sw).Simulates image mem (history ++ f.bus.cpu.written (f.bus.hostIf sw)) w m n := by
  have hwait' : f.bus.cpu.waitrequest (f.bus.hostIf sw) = true := hwait
  obtain ⟨_, hmem, hwb⟩ := KyogenRVCpu.stages_of_wait hwait'
  have hmem' : (f.step sw).bus.cpu.mem = f.bus.cpu.mem := hmem
  have hwb' : (f.step sw).bus.cpu.wb = f.bus.cpu.wb := hwb
  have hflat : (f.step sw).flat = f.flat := if_neg (by simp [hwait])
  have hbranch : (f.step sw).bus.cpu.instKillBranch = f.bus.cpu.instKillBranch := by
    rw [KyogenRVCpu.instKillBranch, hmem', KyogenRVCpu.instKillBranch]
  refine { hf.settled_step hprog hkept with
    order := hf.order
    written := ?_
    inWb := ?_
    inMem := ?_
    regs := fun r hr => ?_
    flat := hflat.trans hf.flat
    stored := ?_
    target := fun htaken => ?_
    chain := fun hnone => ?_ }
  · rw [KyogenRVCpu.written, hwait', if_pos rfl, List.append_nil]
    exact hf.written
  · rw [KyogenRVCpu.wbWriting, KyogenRVCpu.wbValue_of_held hf.coherent hwb', hwb', hflat]
    exact hf.inWb
  · rw [KyogenRVCpu.memWriting, KyogenRVCpu.memValue, KyogenRVCpu.memResult, hmem', hflat]
    exact hf.inMem
  · rw [hflat, ← hf.regs r hr]
    exact KyogenRVCpu.flatReg_of_held hf.coherent hmem hwb hr
  · rw [KyogenRVCpu.memStored, hmem', hflat]
    exact hf.stored
  · rw [← hf.target (hbranch.symm.trans htaken), KyogenRVCpu.transferTarget, hmem',
      KyogenRVCpu.transferTarget, beq_eq_false_iff_ne.mpr hf.programOnly.mem]
    rfl
  · have hnone' := hbranch.symm.trans hnone
    exact CpuBus.exNext_of_wait hf.inv.running (hf.chain hnone') hkept.access
      ((hf.instKill hprog hkept.transfer).trans hnone') hwait'

/-- When the pipeline moves, what was on its way in MEM is in WB, and the
instruction that enters MEM comes on top. -/
theorem Simulates.moved (hf : f.Simulates image mem history w m n) (hkept : f.bus.Kept sw)
    (hwait : f.waits sw = false) {n' : ℕ} (hsettled : (f.step sw).Settled image)
    (horder : n ≤ n' ∧ n' ≤ n + 1)
    (hwriting : Rv32i.memTrace image (.start mem) n ++
        (f.step sw).bus.cpu.memWriting (execution image mem n).mem =
      Rv32i.memTrace image (.start mem) n')
    (hregs : ∀ r ≠ 0, (if (f.step sw).bus.cpu.memWrites r then
        (f.step sw).bus.cpu.memValue (execution image mem n).mem
      else (execution image mem n).regs r) = (execution image mem n').regs r)
    (hstored : (f.step sw).bus.cpu.memStored (execution image mem n).mem =
      (execution image mem n').mem)
    (htarget : (f.step sw).bus.cpu.instKillBranch = true →
      (f.step sw).bus.cpu.transferTarget = (execution image mem n').pc)
    (hchain : (f.step sw).bus.cpu.instKillBranch = false →
      (f.step sw).bus.ExNext (execution image mem n').pc) :
    (f.step sw).Simulates image mem (history ++ f.bus.cpu.written (f.bus.hostIf sw)) m n n' := by
  have hwait' : f.bus.cpu.waitrequest (f.bus.hostIf sw) = false := hwait
  have hwb : (f.step sw).bus.cpu.wb = f.bus.cpu.wbIssue := KyogenRVCpu.wb_of_move hwait'
  have hflat : (f.step sw).flat = f.bus.cpu.memStored f.flat := flat_of_move hwait
  have hmem : (f.step sw).flat = (execution image mem n).mem := hflat.trans hf.stored
  have hanswer : f.AnswerKept sw := hkept.answer
  refine { hsettled with
    order := ⟨hf.order.2.2.1, hf.order.2.2.2, horder⟩
    written := ?_
    inWb := ?_
    inMem := by rw [hmem]; exact hwriting
    regs := fun r hr => ?_
    flat := hmem
    stored := by rw [hmem]; exact hstored
    target := htarget
    chain := hchain }
  · rw [hf.written, hf.toSettled.written hanswer hwait]
    exact hf.inWb
  · rw [hflat, KyogenRVCpu.wbWriting_of_wbIssue hf.coherent hwb]
    exact hf.inMem
  · rw [← hregs r hr, ← hf.regs r hr, ← hf.stored, hflat]
    exact KyogenRVCpu.flatReg_of_moved hf.coherent hwb
      (fun hwen hrd => hf.rfWdata hanswer hwait hwen hrd) hr

/-- When it moves and nothing enters MEM, the instruction that executes next
stays the same. -/
theorem Simulates.drains (hf : f.Simulates image mem history w m n) (hprog : MemProgram image mem)
    (hkept : f.bus.Kept sw) (hwait : f.waits sw = false)
    (hzero : (f.step sw).bus.cpu.mem.regWaddr = 0)
    (hctrl : (f.step sw).bus.cpu.mem.ctrl = nopCtrl)
    (hchain : (f.step sw).bus.ExNext (execution image mem n).pc) :
    (f.step sw).Simulates image mem (history ++ f.bus.cpu.written (f.bus.hostIf sw)) m n n := by
  refine hf.moved hkept hwait (hf.settled_step hprog hkept) ⟨Nat.le_refl n, Nat.le_succ n⟩ ?_
    (fun r hr => ?_) ?_ (fun htaken => ?_) fun _ => hchain
  · rw [KyogenRVCpu.memWriting, hzero, bne_self_eq_false, Bool.and_false,
      if_neg Bool.false_ne_true, List.append_nil]
  · rw [KyogenRVCpu.memWrites_of_zero hzero hr, if_neg Bool.false_ne_true]
  · rw [KyogenRVCpu.memStored, hctrl]
    exact if_neg (by decide)
  · rw [KyogenRVCpu.instKillBranch_of_nop hctrl] at htaken
    exact absurd htaken Bool.false_ne_true

/-- A kill leaves nothing behind MEM and sends the fetch to the target. -/
theorem Simulates.kills (hf : f.Simulates image mem history w m n) (hprog : MemProgram image mem)
    (hkept : f.bus.Kept sw) (hwait : f.waits sw = false)
    (hbranch : f.bus.cpu.instKillBranch = true) :
    (f.step sw).Simulates image mem (history ++ f.bus.cpu.written (f.bus.hostIf sw)) m n n := by
  have hwait' : f.bus.cpu.waitrequest (f.bus.hostIf sw) = false := hwait
  have hkill := (hf.instKill hprog hkept.transfer).trans hbranch
  have hreq := hf.transfer.inMem hbranch
  have hnext := CpuBus.undisturbed_of_kill hf.inv.running hreq hbranch
    (hf.expt hprog hkept.transfer) hwait' (hkept.transfer.lock hbranch hwait')
  rw [hf.target hbranch] at hnext
  obtain ⟨hex, hmem, _⟩ := KyogenRVCpu.stages_of_kill hwait' hkill
  have hzero : (f.step sw).bus.cpu.mem.regWaddr = 0 := by
    rw [step, CpuBus.step_cpu, hmem]
    rfl
  have hctrl : (f.step sw).bus.cpu.mem.ctrl = nopCtrl := by
    rw [step, CpuBus.step_cpu, hmem]
    rfl
  have hid : (f.step sw).bus.cpu.id = .bubble := KyogenRVCpu.id_of_kill hkill hwait' hreq
  refine hf.drains hprog hkept hwait hzero hctrl (Or.inl ⟨?_, Or.inl ⟨hid, .undisturbed hnext⟩⟩)
  rw [KyogenRVCpu.exSlot, step, CpuBus.step_cpu, hex]
  rfl

/-- Behind a bubble in EX nothing enters MEM. -/
theorem Simulates.moves_bubble (hf : f.Simulates image mem history w m n)
    (hprog : MemProgram image mem) (hkept : f.bus.Kept sw) (hwait : f.waits sw = false)
    (hbranch : f.bus.cpu.instKillBranch = false) (hbubble : f.bus.cpu.exSlot = .bubble)
    (hid : f.bus.IdNext (execution image mem n).pc) :
    (f.step sw).Simulates image mem (history ++ f.bus.cpu.written (f.bus.hostIf sw)) m n n := by
  have hwait' : f.bus.cpu.waitrequest (f.bus.hostIf sw) = false := hwait
  have hkill := (hf.instKill hprog hkept.transfer).trans hbranch
  have hmem : (f.step sw).bus.cpu.mem = f.bus.cpu.memIssue (f.bus.hostIf sw) :=
    (KyogenRVCpu.stages_of_move hwait' hkill).2.1
  have hco := hf.coherent.ex
  have hnop : f.bus.cpu.ex.inst = Instructions.nop := congrArg Slot.inst hbubble
  have hzero : (f.step sw).bus.cpu.mem.regWaddr = 0 := by
    rw [hmem, KyogenRVCpu.memIssue, hco.regWaddr, hnop]
    exact (by decide : IDModule.rd Instructions.nop = 0)
  have hctrl : (f.step sw).bus.cpu.mem.ctrl = nopCtrl := by
    rw [hmem, KyogenRVCpu.memIssue, hco.ctrl, hnop]
    rfl
  have hnext : (f.step sw).bus.ExNext (execution image mem n).pc :=
    CpuBus.exNext_of_idNext hf.inv.running hid hkept.access hkill hwait'
      fun h => absurd (CpuBus.exAccess_of_bubble hf.inv.running hbubble) h
  exact hf.drains hprog hkept hwait hzero hctrl hnext

/-- When the pipeline moves, the instruction in EX is the next one executed. -/
theorem Simulates.moves_instr (hf : f.Simulates image mem history w m n)
    (hprog : MemProgram image mem) (hkept : f.bus.Kept sw) (hwait : f.waits sw = false)
    (hbranch : f.bus.cpu.instKillBranch = false)
    (hslot : f.bus.cpu.exSlot = f.bus.slotAt (execution image mem n).pc)
    (hid : f.bus.IdNext ((execution image mem n).pc + 4)) :
    (f.step sw).Simulates image mem
      (history ++ f.bus.cpu.written (f.bus.hostIf sw)) m n (n + 1) := by
  have hwait' : f.bus.cpu.waitrequest (f.bus.hostIf sw) = false := hwait
  have hkill := (hf.instKill hprog hkept.transfer).trans hbranch
  have hmem : (f.step sw).bus.cpu.mem = f.bus.cpu.memIssue (f.bus.hostIf sw) :=
    (KyogenRVCpu.stages_of_move hwait' hkill).2.1
  have hrange := hprog.inRange n
  obtain ⟨instr, hinstr, hexec⟩ := hf.executes hprog hbranch hslot (f.bus.hostIf sw)
  have hnext : (f.step sw).bus.ExNext ((execution image mem n).pc + 4) :=
    CpuBus.exNext_of_idNext hf.inv.running hid hkept.access hkill hwait' fun _ => by
      rw [execution]
      bv_omega
  have hgood := hprog.wellBehaved n
  have hrun := execution_succ hinstr
  obtain ⟨htransfer, htarget⟩ := hexec.transfer hmem
  refine hf.moved hkept hwait (hf.settled_step hprog hkept) ⟨Nat.le_succ n, Nat.le_refl _⟩ ?_
    (fun r hr => ?_) ?_ (fun htaken => ?_) fun hnone => ?_
  · rw [hexec.memWriting hmem, memTrace_succ hinstr]
  · rw [hexec.regs hmem hr, hrun]
  · rw [hexec.memStored hmem, hrun]
    rfl
  · obtain ⟨target, hsome⟩ := Option.isSome_iff_exists.mp (htransfer.symm.trans htaken)
    rw [htarget target hsome, hrun]
    exact (MemInstr.next_of_target hsome (hgood.jumps instr hinstr target hsome)).symm
  · have hnone' := Option.not_isSome_iff_eq_none.mp
      (Bool.eq_false_iff.mp (htransfer.symm.trans hnone))
    have hpc : (execution image mem (n + 1)).pc = (execution image mem n).pc + 4 := by
      rw [hrun]
      exact MemInstr.next_of_no_target hnone'
    rw [hpc]
    exact hnext

theorem simulates_step (hf : f.Simulates image mem history w m n) (hprog : MemProgram image mem)
    (hkept : f.bus.Kept sw) :
    ∃ w' m' n', (f.step sw).Simulates image mem
      (history ++ f.bus.cpu.written (f.bus.hostIf sw)) w' m' n' := by
  cases hwait : f.waits sw with
  | true => exact ⟨w, m, n, hf.waits_step hprog hkept hwait⟩
  | false =>
      cases hbranch : f.bus.cpu.instKillBranch with
      | true => exact ⟨m, n, n, hf.kills hprog hkept hwait hbranch⟩
      | false =>
          rcases hf.chain hbranch with ⟨hbubble, hid⟩ | ⟨hslot, _, hid⟩
          · exact ⟨m, n, n, hf.moves_bubble hprog hkept hwait hbranch hbubble hid⟩
          · exact ⟨m, n, n + 1, hf.moves_instr hprog hkept hwait hbranch hslot hid⟩

/-- What a simulation says of the registers written and of the data memory. -/
theorem Simulates.executed (hsim : f.Simulates image mem history w m n) :
    ∃ w m, w ≤ m ∧ m ≤ w + 2 ∧ history = Rv32i.memTrace image (.start mem) w ∧
      f.bus.dmem.bytes.AgreeBelow (execution image mem m).mem Banks.size := by
  obtain ⟨hwm, hmw, hmn, hnm⟩ := hsim.order
  rcases hsim.inv.banks with hbanks | ⟨hstore, hbanks⟩
  · rw [hsim.flat] at hbanks
    exact ⟨w, m, hwm, by omega, hsim.written, hbanks⟩
  · have hstored : f.stored = (execution image mem n).mem := by
      rw [← hsim.stored, KyogenRVCpu.memStored, if_pos hstore]
      rfl
    rw [hstored] at hbanks
    exact ⟨w, n, by omega, by omega, hsim.written, hbanks⟩

end Step

end FlatBus

/-! ## The simulation top against the instruction set -/

namespace CpuBus

section Release

variable {b : CpuBus} {inputs : List TestIf}

theorem id2Temp_step {sw : TestIf} (hb : b.Idle) :
    (b.step sw).cpu.id2Temp = b.cpu.id2Temp := by
  have hreq := (hb.boot.idle (by rw [hb.delay]; decide)).1
  exact (KyogenRVCpu.id_of_frozen (b.hostIf sw) hreq (Or.inl hb.ack)).2.2.1

/-- Nothing has been saved before release. -/
theorem Released.id2Temp (hb : b.Released) : b.cpu.id2Temp = .bubble := by
  obtain ⟨b₀, loads, go₁, go₂, hreset, hloads, hgo₁, hgo₂, rfl⟩ := hb
  have hstart : b₀.cpu.id2Temp = .bubble := by
    obtain ⟨_, _, _, _, ⟨_, _, _, _, _, _, _, hcpu⟩, _⟩ := hreset
    rw [hcpu]
    rfl
  obtain ⟨hloading, hempty⟩ : (Machine.run step b₀ loads).Loading ∧
      (Machine.run step b₀ loads).cpu.id2Temp = .bubble :=
    Machine.run_invariant (I := fun (t : CpuBus) => t.Loading ∧ t.cpu.id2Temp = .bubble)
      (fun _ _ ht hsw => ⟨loading_step ht.1 hsw, (id2Temp_step ht.1.idle).trans ht.2⟩)
      ⟨loading_reset hreset, hstart⟩ (Machine.along_of_mem hloads)
  have hidle := idle_step hloading.idle hloading.wReq go₁
  rw [Machine.run_append, Machine.run_cons, Machine.run_cons, Machine.run_nil,
    id2Temp_step hidle, id2Temp_step hloading.idle, hempty]

/-- After release the core stands before the first instruction. -/
theorem Released.simulates (hb : b.Released) (hpc : b.cpu.pcCntr = 0) :
    (FlatBus.start b).Simulates b.image b.dmem.bytes [] 0 0 0 := by
  obtain ⟨hidle, hhalt, hreq⟩ := hb.idle
  obtain ⟨_, hex, hmem, hmeie⟩ := hidle.boot.idle (by rw [hidle.delay]; decide)
  have hnone := KyogenRVCpu.instKillBranch_of_nop hmem
  have hbr : ExStage.bubble.ctrl.brType = brN := KyogenRVCpu.nop_noTransfer
  have hnoLoad : b.cpu.wb.ctrl.memWr ≠ mXrd := by
    rw [hidle.wb.1]
    decide
  have hnext := hb.delivers.next
  rw [wordAddr, hpc] at hnext
  refine {
    inv := ⟨⟨hhalt, hreq, hidle.reachable, hidle.boot⟩, Or.inl .refl, fun h => absurd h hnoLoad,
      fun h => absurd h hnoLoad⟩
    image_eq := rfl
    transfer := ⟨fun h => absurd (by rw [FlatBus.start, hex, hbr]) h,
      fun h => absurd (hnone.symm.trans h) Bool.false_ne_true⟩
    programOnly := {
      port := fun h => absurd (hidle.ack.symm.trans h) Bool.false_ne_true
      id := by rw [FlatBus.start, hidle.id]; exact memCode_nop
      idTemp := by rw [FlatBus.start, hidle.idTemp]; exact memCode_nop
      id2Temp := by rw [FlatBus.start, hb.id2Temp]; exact memCode_nop
      ex := by rw [FlatBus.start, hex]; exact memCode_nop
      mem := by rw [FlatBus.start, hmem]; decide
      meie := hmeie }
    accepted := fun h => absurd (by rw [FlatBus.start, hmem]; exact KyogenRVCpu.nop_noAccess) h
    order := ⟨Nat.le_refl 0, Nat.zero_le 1, Nat.le_refl 0, Nat.zero_le 1⟩
    written := rfl
    inWb := ?_
    inMem := ?_
    regs := fun r hr => ?_
    flat := rfl
    stored := ?_
    target := fun h => absurd (hnone.symm.trans h) Bool.false_ne_true
    chain := fun _ => hnext }
  · rw [FlatBus.start, KyogenRVCpu.wbWriting, hidle.wb.2, bne_self_eq_false, Bool.and_false]
    rfl
  · rw [FlatBus.start, KyogenRVCpu.memWriting, hidle.mem, bne_self_eq_false, Bool.and_false]
    rfl
  · have hwrites : b.cpu.wbWrites r = false := by
      rw [KyogenRVCpu.wbWrites, hidle.wb.2, beq_eq_false_iff_ne.mpr (Ne.symm hr), Bool.and_false]
    rw [FlatBus.start, KyogenRVCpu.flatReg, KyogenRVCpu.memWrites_of_zero hidle.mem hr, hwrites,
      hidle.regs]
    rfl
  · rw [FlatBus.start, KyogenRVCpu.memStored, hmem]
    exact if_neg (by decide)

/-- Over a run from release the core follows the execution of the program. -/
theorem Released.simulates_run (hb : b.Released) (hpc : b.cpu.pcCntr = 0)
    (hprog : MemProgram b.image b.dmem.bytes) (hrun : Machine.Along step Kept b inputs) :
    ∃ (f : FlatBus) (w m n : ℕ), f.bus = Machine.run step b inputs ∧
      f.Simulates b.image b.dmem.bytes ([] ++ b.writes inputs) w m n := by
  refine Machine.outputs_invariant (H := fun history (t : CpuBus) =>
      ∃ (f : FlatBus) (w m n : ℕ), f.bus = t ∧
        f.Simulates b.image b.dmem.bytes history w m n)
    (fun history t sw ht hkept => ?_) ⟨FlatBus.start b, 0, 0, 0, rfl, hb.simulates hpc⟩ hrun
  obtain ⟨f, w, m, n, rfl, hsim⟩ := ht
  obtain ⟨w', m', n', hstep⟩ := FlatBus.simulates_step hsim hprog hkept
  exact ⟨f.step sw, w', m', n', rfl, hstep⟩

/-- On a program of RV32I without system instructions, in every run from
release whose cycles keep the words of the fetch and the answers of the data
port, the registers written are those of the first `w` instructions executed one
at a time, and the data memory holds the bytes left by them or by at most two
more. -/
theorem executes_program (hb : b.Released) (hpc : b.cpu.pcCntr = 0)
    (hprog : MemProgram b.image b.dmem.bytes) (hrun : Machine.Along step Kept b inputs) :
    ∃ w m, w ≤ m ∧ m ≤ w + 2 ∧
      b.writes inputs = Rv32i.memTrace b.image (.start b.dmem.bytes) w ∧
      (Machine.run step b inputs).dmem.bytes.AgreeBelow
        (execution b.image b.dmem.bytes m).mem Banks.size := by
  obtain ⟨f, _, _, _, hbus, hsim⟩ := hb.simulates_run hpc hprog hrun
  rw [← hbus]
  exact hsim.executed

end Release

/-! ### Sample program -/

/-- `addi x1, x0, 7`, `sw x1, 4(x0)`, `lw x2, 4(x0)`, `addi x3, x2, 1`, and then
`jal x0, 0` for ever. -/
def copyWord (index : BitVec 14) : Word :=
  if index = 0 then 0x00700093
  else if index = 1 then 0x00102223
  else if index = 2 then 0x00402103
  else if index = 3 then 0x00110193
  else 0x0000006f

theorem memProgram_copyWord (mem : ByteMem) : MemProgram (loaded copyWord).image mem := by
  have hinstr (c : Word) (instr : MemInstr)
      (h : Rv32i.decodeMem (copyWord (Banks.addrAlign c)) = some instr) :
      Rv32i.decodeMem ((loaded copyWord).image c) = some instr := by
    rwa [image_loaded]
  refine memProgram_of_closed
    (P := fun pc => pc = 0 ∨ pc = 4 ∨ pc = 8 ∨ pc = 12 ∨ pc = 16) (Or.inl rfl)
    (fun addr _ => ?_) ?_
  · rw [image_loaded, copyWord]
    split_ifs <;> exact ⟨_, rfl⟩
  · have haccess (addr : Word) (size : ℕ) (h : some ((0 : Word) + 4, 4) = some (addr, size)) :
        size ∣ addr.toNat ∧ addr ≤ 0x3000 := by
      obtain ⟨rfl, rfl⟩ := Prod.mk.inj (Option.some.inj h)
      decide
    rintro σ (hpc | hpc | hpc | hpc | hpc)
    · refine memGoesOnIn_of_instr hpc (hinstr 0 (.reg (.opImm .add 1 0 7)) (by decide)) (by decide)
        (fun _ h => absurd h (by simp [MemInstr.target?, Rv32i.Instr.target?]))
        (fun _ _ h => absurd h (by simp [MemInstr.access?])) (Or.inr (Or.inl ?_))
      exact (MemInstr.next_of_no_target rfl).trans (by rw [hpc]; rfl)
    · refine memGoesOnIn_of_instr hpc (hinstr 4 (.store .sw 0 1 4) (by decide)) (by decide)
        (fun _ h => absurd h (by simp [MemInstr.target?])) haccess
        (Or.inr (Or.inr (Or.inl ?_)))
      exact (MemInstr.next_of_no_target rfl).trans (by rw [hpc]; rfl)
    · refine memGoesOnIn_of_instr hpc (hinstr 8 (.load .lw 2 0 4) (by decide)) (by decide)
        (fun _ h => absurd h (by simp [MemInstr.target?])) haccess
        (Or.inr (Or.inr (Or.inr (Or.inl ?_))))
      exact (MemInstr.next_of_no_target rfl).trans (by rw [hpc]; rfl)
    · refine memGoesOnIn_of_instr hpc (hinstr 12 (.reg (.opImm .add 3 2 1)) (by decide)) (by decide)
        (fun _ h => absurd h (by simp [MemInstr.target?, Rv32i.Instr.target?]))
        (fun _ _ h => absurd h (by simp [MemInstr.access?]))
        (Or.inr (Or.inr (Or.inr (Or.inr ?_))))
      exact (MemInstr.next_of_no_target rfl).trans (by rw [hpc]; rfl)
    · have htarget : (MemInstr.reg (.jal 0 0)).target? σ.toState = some 16 :=
        congrArg (fun pc => some (pc + 0)) hpc
      refine memGoesOnIn_of_instr hpc (hinstr 16 (.reg (.jal 0 0)) (by decide)) (by decide)
        (fun target h => ?_) (fun _ _ h => absurd h (by simp [MemInstr.access?]))
        (Or.inr (Or.inr (Or.inr (Or.inr ?_))))
      · obtain rfl := Option.some.inj (htarget.symm.trans h)
        decide
      · exact MemInstr.next_of_target htarget (by decide)

/-- Waiting in the cycle in which the fetch starts again behind the load keeps
every word. -/
theorem executes_program_copyWord :
    let inputs := (List.range 30).map fun cycle => go (cycle == 18)
    (loaded copyWord).writes inputs = [(1, 7), (2, 7), (3, 8)] ∧
      ∃ w m, w ≤ m ∧ m ≤ w + 2 ∧
        (loaded copyWord).writes inputs =
          Rv32i.memTrace (loaded copyWord).image (.start (loaded copyWord).dmem.bytes) w ∧
        (Machine.run step (loaded copyWord) inputs).dmem.bytes.AgreeBelow
          (execution (loaded copyWord).image (loaded copyWord).dmem.bytes m).mem Banks.size :=
  ⟨by decide +kernel, executes_program (released_loaded copyWord) rfl (memProgram_copyWord _)
    (by decide +kernel)⟩

end CpuBus

end KyogenRV
