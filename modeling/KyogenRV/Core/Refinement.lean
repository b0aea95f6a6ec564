import KyogenRV.Core.RegisterOnly
import KyogenRV.Core.Release
import KyogenRV.Core.WriteBack

/-!
# Refinement of the instruction set

The pipeline on a program of RV32I register instructions against the execution
of one instruction at a time.  Followed through the pipeline are the number of
instructions that have moved on to MEM, the registers as they will be when
those have written back, and where the rest of the program stands: in EX, in ID
or still to be fetched.
-/

namespace KyogenRV

open ScalarOpConstants MemoryOpConstants

/-- A program of register instructions: its execution from address 0 stays in
the memory and jumps to aligned targets only. -/
structure RegisterProgram (image : Word → Word) : Prop where
  decodes : ∀ addr ≤ 0x3000, ∃ instr, Rv32i.decode (image addr) = some instr
  inRange : ∀ n, (Rv32i.run image .start n).pc ≤ 0x3000
  aligned : ∀ n, Rv32i.JumpsAligned image (Rv32i.run image .start n)

/-- The address of the `n`-th instruction executed. -/
def path (image : Word → Word) (n : ℕ) : Word := (Rv32i.run image .start n).pc

section Path

variable {image : Word → Word}

theorem RegisterProgram.path_aligned (himage : RegisterProgram image) (n : ℕ) :
    Csr.misaligned (path image n) = false :=
  (misaligned_eq_false_iff _).mpr (Rv32i.run_aligned rfl himage.aligned n)

/-- The `n`-th instruction executed. -/
theorem RegisterProgram.instr (himage : RegisterProgram image) (n : ℕ) :
    ∃ instr, Rv32i.decode (image (path image n)) = some instr :=
  himage.decodes _ (himage.inRange n)

theorem RegisterProgram.path_succ_of_target (himage : RegisterProgram image) {n : ℕ}
    {instr : Rv32i.Instr} {target : Word}
    (hinstr : Rv32i.decode (image (path image n)) = some instr)
    (htarget : instr.target? (Rv32i.run image .start n) = some target) :
    path image (n + 1) = target := by
  rw [path, Rv32i.run_succ]
  exact Rv32i.step_pc_of_target hinstr htarget (himage.aligned n instr hinstr target htarget)

theorem path_succ_of_no_target {n : ℕ} {instr : Rv32i.Instr}
    (hinstr : Rv32i.decode (image (path image n)) = some instr)
    (htarget : instr.target? (Rv32i.run image .start n) = none) :
    path image (n + 1) = path image n + 4 := by
  rw [path, Rv32i.run_succ]
  exact Rv32i.step_pc_of_no_target hinstr htarget

/-- At `σ` the program is in the memory, jumps to an aligned target if at all,
and goes on in `P`. -/
def GoesOnIn (image : Word → Word) (P : Word → Prop) (σ : Rv32i.State) : Prop :=
  σ.pc ≤ 0x3000 ∧ Rv32i.JumpsAligned image σ ∧ P (Rv32i.step image σ).pc

variable {P : Word → Prop} {σ : Rv32i.State} {c : Word}

/-- A program is known by a set of pcs that its execution does not leave. -/
theorem registerProgram_of_closed (hstart : P 0)
    (hdecodes : ∀ addr ≤ 0x3000, ∃ instr, Rv32i.decode (image addr) = some instr)
    (hclosed : ∀ σ : Rv32i.State, P σ.pc → GoesOnIn image P σ) : RegisterProgram image := by
  have hpath (n : ℕ) : P (Rv32i.run image .start n).pc :=
    Rv32i.run_invariant (P := fun σ => P σ.pc) hstart (fun σ hσ => (hclosed σ hσ).2.2) n
  exact ⟨hdecodes, fun n => (hclosed _ (hpath n)).1, fun n => (hclosed _ (hpath n)).2.1⟩

theorem goesOnIn_of_opImm {op : Rv32i.AluOp} {rd rs1 : BitVec 5} {imm : Word} (hpc : σ.pc = c)
    (hinstr : Rv32i.decode (image c) = some (.opImm op rd rs1 imm)) (hrange : c ≤ 0x3000)
    (hnext : P (c + 4)) : GoesOnIn image P σ := by
  subst hpc
  refine ⟨hrange, (Rv32i.jumpsAligned_iff hinstr).mpr fun _ h => ?_, ?_⟩
  · exact absurd h (by simp [Rv32i.Instr.target?])
  · rwa [Rv32i.step_pc_of_no_target hinstr rfl]

theorem goesOnIn_of_jal {rd : BitVec 5} {imm : Word} (hpc : σ.pc = c)
    (hinstr : Rv32i.decode (image c) = some (.jal rd imm)) (hrange : c ≤ 0x3000)
    (haligned : (c + imm).extractLsb' 0 2 = 0) (hnext : P (c + imm)) : GoesOnIn image P σ := by
  subst hpc
  have htarget (target : Word) (h : some (σ.pc + imm) = some target) :
      target.extractLsb' 0 2 = 0 := by
    rw [← Option.some.inj h, haligned]
  refine ⟨hrange, (Rv32i.jumpsAligned_iff hinstr).mpr htarget, ?_⟩
  rwa [Rv32i.step_pc_of_target hinstr rfl haligned]

end Path

namespace CpuBus

/-! ## Where the program stands -/

section Chain

variable (image : Word → Word) (b : CpuBus)

/-- The `m`-th instruction is in ID, with the fetch behind it, or it is the
next one that ID receives. -/
def IdHolds (m : ℕ) : Prop :=
  b.cpu.id = .bubble ∧ b.FetchAt (path image m) ∨
    b.cpu.id = b.slotAt (path image m) ∧
      (path image (m + 1) = path image m + 4 → b.FetchAt (path image (m + 1)))

/-- EX has taken the instruction at `c` from ID. -/
structure ExHolds (c : Word) : Prop where
  pc : b.cpu.ex.pc = c
  npc : b.cpu.ex.npc = c + 4
  inst : b.cpu.ex.inst = b.image c
  rs1 : b.cpu.ex.regRaddr1 = 0 → b.cpu.ex.rs1 = 0
  rs2 : b.cpu.ex.regRaddr2 = 0 → b.cpu.ex.rs2 = 0

/-- The `n`-th instruction is the next one to leave EX.  What follows it is on
its way only if it does not jump. -/
def Chain (n : ℕ) : Prop :=
  b.cpu.ex = .bubble ∧ b.IdHolds image n ∨
    b.ExHolds (path image n) ∧
      (path image (n + 1) = path image n + 4 → b.IdHolds image (n + 1))

/-- The word on the port is not dropped because of the lock, and no wrong-path
jump to a misaligned target traps. -/
def FetchKept (sw : TestIf) : Prop :=
  (b.cpu.instKill (b.hostIf sw) = false → b.cpu.holdId (b.hostIf sw) = true →
    b.cpu.imemReq = true → b.cpu.validIdInst (b.hostIf sw) = true →
      b.cpu.tempLock = false) ∧
  (b.cpu.instKillBranch = true → Csr.iaddrInvalidJ (b.cpu.csrPorts (b.hostIf sw)) = false)

end Chain

section Front

variable {image : Word → Word} {b : CpuBus} {sw : TestIf} {m : ℕ}

/-- When ID is held it keeps its instruction and the fetch stays behind it. -/
theorem idHolds_hold (hb : b.Running) (hid : b.IdHolds image m)
    (hhold : b.cpu.holdId (b.hostIf sw) = true) (hkill : b.cpu.instKill (b.hostIf sw) = false)
    (hpipe : b.cpu.loadstoreInPipe = false) (hls : b.cpu.inLoadstore = false)
    (hkept : b.FetchKept sw) : (b.step sw).IdHolds image m := by
  have hlock := hkept.1 hkill hhold
  rw [IdHolds, slotAt_step hb]
  rcases hid with ⟨hid, hfetch⟩ | ⟨hid, hnext⟩
  · have hstart (hpc : b.cpu.id.pc = path image m) : path image m = 0 := by
      rw [← hpc, hid]
      rfl
    obtain ⟨hid', hfetch'⟩ := fetchAt_hold hb hfetch hhold hkill hpipe hls hlock hstart
    exact Or.inl ⟨hid'.trans hid, hfetch'⟩
  · refine Or.inr ⟨(KyogenRVCpu.id_of_hold hkill hls hhold).trans hid, fun hstraight => ?_⟩
    have hother (hpc : b.cpu.id.pc = path image (m + 1)) : path image (m + 1) = 0 := by
      rw [hid, hstraight] at hpc
      exact absurd hpc (by simp [slotAt])
    exact (fetchAt_hold hb (hnext hstraight) hhold hkill hpipe hls hlock hother).2

/-- When ID can take an instruction, the next one comes from the fetch. -/
theorem idHolds_advance (hb : b.Running) (hfetch : b.FetchAt (path image m))
    (hrange : path image m ≤ 0x3000)
    (hgo : b.cpu.holdId (b.hostIf sw) = false) (hkill : b.cpu.instKill (b.hostIf sw) = false)
    (hpipe : b.cpu.loadstoreInPipe = false) (hls : b.cpu.inLoadstore = false) :
    (b.step sw).IdHolds image m := by
  have hwrap (hbeyond : 0x3000 < path image m) : b.cpu.pcCntr < 0xfffffffc :=
    absurd hrange (BitVec.not_le.mpr hbeyond)
  rw [IdHolds, slotAt_step hb]
  rcases fetchAt_advance hb hfetch hgo hkill hpipe hls hwrap with
    ⟨hid, _, hnext⟩ | ⟨hid, hnext, _⟩
  · exact Or.inr ⟨hid, fun hstraight => hstraight ▸ .streaming hnext⟩
  · exact Or.inl ⟨hid, hnext⟩

/-- When the pipeline moves on, EX takes the instruction that ID holds or stays
empty. -/
theorem chain_of_idHolds (hb : b.Running) (himage : RegisterProgram image)
    (hid : b.IdHolds image m) (hwait : b.cpu.waitrequest (b.hostIf sw) = false)
    (hkill : b.cpu.instKill (b.hostIf sw) = false) (hplain : b.RegisterOnly)
    (hkept : b.FetchKept sw) : (b.step sw).Chain image m := by
  obtain ⟨hpipe, hproc⟩ := hplain.noAccess hb.reachable.coherent
  have hls := hplain.inLoadstore
  have hsame : b.cpu.holdIssue (b.hostIf sw) = b.cpu.holdId (b.hostIf sw) := by
    rw [KyogenRVCpu.holdIssue, KyogenRVCpu.holdId, hproc, hls, hwait]
    simp only [Bool.or_false]
  have hex := (KyogenRVCpu.stages_of_move hwait hkill).1
  cases hhold : b.cpu.holdIssue (b.hostIf sw) with
  | true =>
      rw [hhold, if_pos rfl] at hex
      exact Or.inl ⟨hex, idHolds_hold hb hid (hsame.symm.trans hhold) hkill hpipe hls hkept⟩
  | false =>
      rw [hhold, if_neg Bool.false_ne_true] at hex
      have hgo := hsame.symm.trans hhold
      rcases hid with ⟨hid, hfetch⟩ | ⟨hid, hnext⟩
      · refine Or.inl ⟨hex.trans (KyogenRVCpu.exIssue_of_bubble hid), ?_⟩
        exact idHolds_advance hb hfetch (himage.inRange m) hgo hkill hpipe hls
      · refine Or.inr ⟨⟨?_, ?_, ?_, ?_, ?_⟩, fun hstraight => ?_⟩
        · rw [step_cpu, hex, KyogenRVCpu.exIssue, hid]; rfl
        · rw [step_cpu, hex, KyogenRVCpu.exIssue, hid]; rfl
        · rw [step_cpu, hex, KyogenRVCpu.exIssue, hid, image_step hb]; rfl
        · rw [step_cpu, hex]
          intro hzero
          exact if_pos (beq_iff_eq.mpr hzero)
        · rw [step_cpu, hex]
          intro hzero
          exact if_pos (beq_iff_eq.mpr hzero)
        · exact idHolds_advance hb (hnext hstraight) (himage.inRange (m + 1)) hgo hkill hpipe hls

/-- The instruction in EX is executed on the registers as they will be. -/
theorem ExHolds.executes {σ : Rv32i.State} {instr : Rv32i.Instr} {io : HostIf}
    (hex : b.ExHolds σ.pc) (hb : b.Running) (hinstr : Rv32i.decode (b.image σ.pc) = some instr)
    (hbranch : b.cpu.instKillBranch = false)
    (hregs : ∀ r ≠ 0, b.cpu.pendingReg io r = some (σ.regs r)) :
    b.cpu.Executes io σ instr := by
  have hco := hb.reachable.coherent
  obtain ⟨hop1, hop2⟩ := hb.reachable.forwardInv.operands hco hbranch io
  have hread {raddr : BitVec 5} {rs : Word} (hzero : raddr = 0 → rs = 0)
      (hop : raddr ≠ 0 → b.cpu.pendingReg io raddr = some (b.cpu.exRegBypass io raddr rs)) :
      b.cpu.exRegBypass io raddr rs = σ.read raddr := by
    by_cases hraddr : raddr = 0
    · rw [Rv32i.State.read, if_pos hraddr, ← hzero hraddr, hraddr]
      rfl
    · rw [Rv32i.State.read, if_neg hraddr]
      exact Option.some.inj ((hop hraddr).symm.trans (hregs raddr hraddr))
  exact {
    coherent := hco.ex
    instr := by rw [hex.inst, hinstr]
    pc := hex.pc
    npc := hex.npc
    rs1 := (hread hex.rs1 hop1).trans (congrArg σ.read hco.ex.regRaddr1)
    rs2 := (hread hex.rs2 hop2).trans (congrArg σ.read hco.ex.regRaddr2) }

end Front

/-! ## The simulation -/

/-- The core runs the program with nothing of its state amiss. -/
structure Executing (image : Word → Word) (b : CpuBus) : Prop where
  running : b.Running
  image_eq : b.image = image
  transfer : b.cpu.TransferInv
  registerOnly : b.RegisterOnly

/-- `n` instructions have moved on to MEM.  Their writes are `history` and
those pending in WB and MEM, and the program goes on behind them. -/
structure Follows (image : Word → Word) (history : List (BitVec 5 × Word)) (b : CpuBus)
    (n : ℕ) : Prop extends b.Executing image where
  regs : ∀ io, ∀ r ≠ 0,
    b.cpu.pendingReg io r = some ((Rv32i.run image .start n).regs r)
  trace : ∀ io,
    history ++ b.cpu.wbPending io ++ b.cpu.memPending = Rv32i.trace image .start n
  target : b.cpu.instKillBranch = true → b.cpu.transferTarget = path image n
  chain : b.cpu.instKillBranch = false → b.Chain image n

section Step

variable {image : Word → Word} {b : CpuBus} {sw : TestIf} {n : ℕ}
variable {history : List (BitVec 5 × Word)}

theorem Follows.executes (hb : b.Follows image history n) (himage : RegisterProgram image)
    (hbranch : b.cpu.instKillBranch = false) (hex : b.ExHolds (path image n)) (io : HostIf) :
    ∃ instr, Rv32i.decode (image (path image n)) = some instr ∧
      b.cpu.Executes io (Rv32i.run image .start n) instr := by
  obtain ⟨instr, hinstr⟩ := himage.instr n
  refine ⟨instr, hinstr, hex.executes hb.running ?_ hbranch (hb.regs io)⟩
  rw [hb.image_eq]
  exact hinstr

/-- Nothing traps: the instruction in EX jumps to an aligned target if it is on
the path, and by assumption if it is not. -/
theorem Follows.expt (hb : b.Follows image history n) (himage : RegisterProgram image)
    (hkept : b.FetchKept sw) : b.cpu.expt (b.hostIf sw) = false := by
  have hco := hb.running.reachable.coherent
  cases hbranch : b.cpu.instKillBranch with
  | true =>
      rw [hb.registerOnly.expt_eq hco]
      exact hkept.2 hbranch
  | false =>
      rcases hb.chain hbranch with ⟨hbubble, _⟩ | ⟨hex, _⟩
      · refine KyogenRVCpu.expt_of_bubble _ hbubble ?_
        rw [Csr.isExtInt, hb.registerOnly.meie, Bool.and_false]
      · rw [hb.registerOnly.expt_eq hco, Csr.iaddrInvalidJ, Bool.and_eq_false_iff]
        obtain ⟨instr, hinstr, hexec⟩ := hb.executes himage hbranch hex (b.hostIf sw)
        refine Classical.or_iff_not_imp_left.mpr fun hjump => ?_
        have hjump' : (ctrlOf instr).brType = brJ ∨ (ctrlOf instr).brType = brJr := by
          rw [← hexec.ctrl]
          have hcheck : b.cpu.ex.jCheck = true := Bool.eq_true_of_not_eq_false hjump
          rw [hco.ex.jCheck] at hcheck
          simpa using hcheck
        rw [misaligned_eq_false_iff]
        exact himage.aligned n instr hinstr _ (hexec.jumpSum hjump')

theorem Follows.executing_step (hb : b.Follows image history n) (himage : RegisterProgram image)
    (hhalt : sw.halt = false) (hkept : b.FetchKept sw) : (b.step sw).Executing image := by
  have hco := hb.running.reachable.coherent
  have hacc := (hb.registerOnly.exCtrl hco).plain.2.1
  have hdecodes : ∀ addr ≤ 0x3000, ∃ instr, Rv32i.decode (b.image addr) = some instr := by
    rw [hb.image_eq]
    exact himage.decodes
  exact {
    running := running_step hb.running hhalt
    image_eq := (image_step hb.running sw).trans hb.image_eq
    transfer := KyogenRVCpu.transferInv_step hb.transfer hb.running.boot.signalled hco
      fun hwaiting => hwaiting.2.2 hacc
    registerOnly := registerOnly_step hb.running hb.registerOnly hdecodes (hb.expt himage hkept)
      fun hbranch => by rw [hb.target hbranch]; exact himage.path_aligned n }

theorem Follows.instKill (hb : b.Follows image history n) (himage : RegisterProgram image)
    (hkept : b.FetchKept sw) : b.cpu.instKill (b.hostIf sw) = b.cpu.instKillBranch := by
  rw [KyogenRVCpu.instKill, hb.expt himage hkept, Bool.or_false]

/-- What leaves WB is followed by what was in MEM and what enters it. -/
theorem Follows.trace_moved (hb : b.Follows image history n)
    (hwait : b.cpu.waitrequest (b.hostIf sw) = false)
    (hwb : (b.step sw).cpu.wb = b.cpu.wbIssue) (io : HostIf) :
    history ++ b.cpu.written (b.hostIf sw) ++ (b.step sw).cpu.wbPending io ++
        (b.step sw).cpu.memPending =
      Rv32i.trace image .start n ++ (b.step sw).cpu.memPending := by
  have hwritten : b.cpu.written (b.hostIf sw) = b.cpu.wbPending (b.hostIf sw) := by
    rw [KyogenRVCpu.written, hwait, if_neg Bool.false_ne_true]
  rw [hwritten, KyogenRVCpu.wbPending_of_wbIssue hb.registerOnly.mem.plain.2.2.2.1 hwb io,
    hb.trace]

theorem Follows.regs_moved (hb : b.Follows image history n)
    (hwb : (b.step sw).cpu.wb = b.cpu.wbIssue) (io : HostIf) {r : BitVec 5} (hr : r ≠ 0) :
    (b.step sw).cpu.pendingReg io r =
      if (b.step sw).cpu.memWrites r then (b.step sw).cpu.memResult
      else some ((Rv32i.run image .start n).regs r) :=
  (KyogenRVCpu.pendingReg_of_moved hb.registerOnly.mem.plain.2.2.2.1 hwb hr io).trans
    (congrArg (ite _ _) (hb.regs _ r hr))

/-- While the pipeline waits everything stays where it is. -/
theorem Follows.waits (hb : b.Follows image history n) (himage : RegisterProgram image)
    (hhalt : sw.halt = false) (hkept : b.FetchKept sw)
    (hwait : b.cpu.waitrequest (b.hostIf sw) = true) :
    (b.step sw).Follows image (history ++ b.cpu.written (b.hostIf sw)) n := by
  have hsel := hb.registerOnly.wb.plain.2.2.2.1
  obtain ⟨hex, hmem, hwb⟩ := KyogenRVCpu.stages_of_wait hwait
  have hbranch : (b.step sw).cpu.instKillBranch = b.cpu.instKillBranch := by
    rw [KyogenRVCpu.instKillBranch, step_cpu, hmem, KyogenRVCpu.instKillBranch]
  refine ⟨hb.executing_step himage hhalt hkept, ?_, ?_, ?_, ?_⟩
  · intro io r hr
    exact (KyogenRVCpu.pendingReg_of_held hsel hmem hwb hr io).trans (hb.regs _ r hr)
  · intro io
    have hpending : (b.step sw).cpu.memPending = b.cpu.memPending := by
      rw [KyogenRVCpu.memPending, KyogenRVCpu.memResult, step_cpu, hmem, KyogenRVCpu.memPending,
        KyogenRVCpu.memResult]
    rw [KyogenRVCpu.written, hwait, if_pos rfl, List.append_nil, hpending, step_cpu,
      KyogenRVCpu.wbPending_of_not_load hsel hwb io io]
    exact hb.trace io
  · intro htaken
    rw [← hb.target (hbranch.symm.trans htaken), KyogenRVCpu.transferTarget, step_cpu, hmem,
      KyogenRVCpu.transferTarget]
    have hret := hb.registerOnly.mem.plain.2.2.2.2
    rw [beq_eq_false_iff_ne.mpr hret]
    rfl
  · intro hnone
    have hnone' := hbranch.symm.trans hnone
    have hkill := (hb.instKill himage hkept).trans hnone'
    obtain ⟨hpipe, _⟩ := hb.registerOnly.noAccess hb.running.reachable.coherent
    have hhold : b.cpu.holdId (b.hostIf sw) = true := by
      rw [KyogenRVCpu.holdId, hwait, Bool.or_true]
    have hstay {m : ℕ} (hid : b.IdHolds image m) : (b.step sw).IdHolds image m :=
      idHolds_hold hb.running hid hhold hkill hpipe hb.registerOnly.inLoadstore hkept
    rcases hb.chain hnone' with ⟨hbubble, hid⟩ | ⟨hold, hid⟩
    · exact Or.inl ⟨hex.trans hbubble, hstay hid⟩
    · refine Or.inr ⟨⟨?_, ?_, ?_, ?_, ?_⟩, fun hstraight => hstay (hid hstraight)⟩
      · rw [step_cpu, hex]; exact hold.pc
      · rw [step_cpu, hex]; exact hold.npc
      · rw [step_cpu, hex, image_step hb.running]; exact hold.inst
      · rw [step_cpu, hex]; exact hold.rs1
      · rw [step_cpu, hex]; exact hold.rs2

/-- When the pipeline moves and nothing enters MEM, the instruction that executes
next stays the same. -/
theorem Follows.drains (hb : b.Follows image history n) (himage : RegisterProgram image)
    (hhalt : sw.halt = false) (hkept : b.FetchKept sw)
    (hwait : b.cpu.waitrequest (b.hostIf sw) = false)
    (hwb : (b.step sw).cpu.wb = b.cpu.wbIssue) (hzero : (b.step sw).cpu.mem.regWaddr = 0)
    (hctrl : (b.step sw).cpu.mem.ctrl = nopCtrl) (hchain : (b.step sw).Chain image n) :
    (b.step sw).Follows image (history ++ b.cpu.written (b.hostIf sw)) n := by
  refine ⟨hb.executing_step himage hhalt hkept, ?_, ?_, ?_, fun _ => hchain⟩
  · intro io r hr
    rw [hb.regs_moved hwb io hr, KyogenRVCpu.memWrites_of_zero hzero hr]
    rfl
  · intro io
    rw [hb.trace_moved hwait hwb io, KyogenRVCpu.memPending_of_zero hzero, List.append_nil]
  · intro htaken
    rw [KyogenRVCpu.instKillBranch_of_nop hctrl] at htaken
    exact absurd htaken Bool.false_ne_true

/-- A kill leaves nothing behind MEM and sends the fetch to the target. -/
theorem Follows.kills (hb : b.Follows image history n) (himage : RegisterProgram image)
    (hhalt : sw.halt = false) (hkept : b.FetchKept sw)
    (hwait : b.cpu.waitrequest (b.hostIf sw) = false) (hbranch : b.cpu.instKillBranch = true) :
    (b.step sw).Follows image (history ++ b.cpu.written (b.hostIf sw)) n := by
  have hkill := (hb.instKill himage hkept).trans hbranch
  obtain ⟨hid, hfetch⟩ := fetchAt_kill hb.running (hb.transfer.inMem hbranch) hbranch
    (hb.expt himage hkept) hwait
  rw [hb.target hbranch] at hfetch
  obtain ⟨hex, hmem, hwb⟩ := KyogenRVCpu.stages_of_kill hwait hkill
  have hzero : (b.step sw).cpu.mem.regWaddr = 0 := by rw [step_cpu, hmem]; rfl
  have hctrl : (b.step sw).cpu.mem.ctrl = nopCtrl := by rw [step_cpu, hmem]; rfl
  exact hb.drains himage hhalt hkept hwait hwb hzero hctrl
    (Or.inl ⟨hex, Or.inl ⟨hid, hfetch⟩⟩)

/-- When the pipeline moves, the instruction in EX is the next one executed. -/
theorem Follows.moves (hb : b.Follows image history n) (himage : RegisterProgram image)
    (hhalt : sw.halt = false) (hkept : b.FetchKept sw)
    (hwait : b.cpu.waitrequest (b.hostIf sw) = false) (hbranch : b.cpu.instKillBranch = false) :
    ∃ m, (b.step sw).Follows image (history ++ b.cpu.written (b.hostIf sw)) m := by
  have hkill := (hb.instKill himage hkept).trans hbranch
  obtain ⟨hmem, hwb⟩ : (b.step sw).cpu.mem = b.cpu.memIssue (b.hostIf sw) ∧
      (b.step sw).cpu.wb = b.cpu.wbIssue :=
    (KyogenRVCpu.stages_of_move hwait hkill).2
  have hnext {m : ℕ} (hid : b.IdHolds image m) : (b.step sw).Chain image m :=
    chain_of_idHolds hb.running himage hid hwait hkill hb.registerOnly hkept
  rcases hb.chain hbranch with ⟨hbubble, hid⟩ | ⟨hex, hid⟩
  · have hzero : (b.step sw).cpu.mem.regWaddr = 0 := by
      rw [hmem, KyogenRVCpu.memIssue, hbubble]
      rfl
    have hctrl : (b.step sw).cpu.mem.ctrl = nopCtrl := by
      rw [hmem, KyogenRVCpu.memIssue, hbubble]
      rfl
    exact ⟨n, hb.drains himage hhalt hkept hwait hwb hzero hctrl (hnext hid)⟩
  · obtain ⟨instr, hinstr, hexec⟩ := hb.executes himage hbranch hex (b.hostIf sw)
    have hrun : Rv32i.run image .start (n + 1) = instr.exec (Rv32i.run image .start n) := by
      rw [Rv32i.run_succ, Rv32i.step_of_decode hinstr]
    obtain ⟨htransfer, htarget⟩ := hexec.transfer hmem
    refine ⟨n + 1, hb.executing_step himage hhalt hkept, ?_, ?_, ?_, ?_⟩
    · intro io r hr
      rw [hb.regs_moved hwb io hr, hexec.regs hmem hr, hrun]
    · intro io
      rw [hb.trace_moved hwait hwb io, hexec.memPending hmem, Rv32i.trace,
        Rv32i.stepWrites_of_decode hinstr]
    · intro htaken
      obtain ⟨target, hsome⟩ := Option.isSome_iff_exists.mp (htransfer.symm.trans htaken)
      rw [htarget target hsome, himage.path_succ_of_target hinstr hsome]
    · intro hnone
      have hnone' := Option.not_isSome_iff_eq_none.mp
        (Bool.eq_false_iff.mp (htransfer.symm.trans hnone))
      exact hnext (hid (path_succ_of_no_target hinstr hnone'))

theorem follows_step (hb : b.Follows image history n) (himage : RegisterProgram image)
    (hhalt : sw.halt = false) (hkept : b.FetchKept sw) :
    ∃ m, (b.step sw).Follows image (history ++ b.cpu.written (b.hostIf sw)) m := by
  cases hwait : b.cpu.waitrequest (b.hostIf sw) with
  | true => exact ⟨n, hb.waits himage hhalt hkept hwait⟩
  | false =>
      cases hbranch : b.cpu.instKillBranch with
      | true => exact ⟨n, hb.kills himage hhalt hkept hwait hbranch⟩
      | false => exact hb.moves himage hhalt hkept hwait hbranch

end Step

/-! ## The pipeline against the instruction set -/

section Release

variable {b : CpuBus} {inputs : List TestIf}

/-- After release the core stands before the first instruction. -/
theorem Released.follows (hb : b.Released) (hpc : b.cpu.pcCntr = 0) :
    b.Follows b.image [] 0 := by
  obtain ⟨hidle, hhalt, hreq⟩ := hb.idle
  obtain ⟨hfetch, hex, hmem, hmeie⟩ := hidle.boot.idle (by rw [hidle.delay]; decide)
  have hbr : ExStage.bubble.ctrl.brType = brN := KyogenRVCpu.nop_noTransfer
  have hnone := KyogenRVCpu.instKillBranch_of_nop hmem
  have hwb := hidle.wb.2
  exact {
    running := ⟨hhalt, hreq, hidle.reachable, hidle.boot⟩
    image_eq := rfl
    transfer := ⟨fun h => absurd (by rw [hex, hbr]) h,
      fun h => absurd (hnone.symm.trans h) Bool.false_ne_true⟩
    registerOnly := {
      ifPc := by rw [hidle.ifPc]; rfl
      pcCntr := by rw [hpc]; rfl
      port := fun h => absurd (hidle.ack.symm.trans h) Bool.false_ne_true
      id := by rw [hidle.id]; exact registerCode_nop
      idTemp := by rw [hidle.idTemp]; exact registerCode_nop
      ex := by rw [hex]; exact registerCode_nop
      mem := by rw [hmem]; exact registerCtrl_nop
      wb := by rw [hidle.wb.1]; exact registerCtrl_nop
      inLoadstore := hidle.inLoadstore
      meie := hmeie }
    regs := by
      intro io r hr
      have hwrites : b.cpu.wbWrites r = false := by
        rw [KyogenRVCpu.wbWrites, hwb, beq_eq_false_iff_ne.mpr (Ne.symm hr), Bool.and_false]
      rw [KyogenRVCpu.pendingReg, KyogenRVCpu.memWrites_of_zero hidle.mem hr, hwrites, hidle.regs]
      rfl
    trace := by
      intro io
      have hpending : b.cpu.wbPending io = [] := by
        rw [KyogenRVCpu.wbPending, hwb, bne_self_eq_false, Bool.and_false,
          if_neg Bool.false_ne_true]
      rw [hpending, KyogenRVCpu.memPending_of_zero hidle.mem]
      rfl
    target := fun h => absurd (hnone.symm.trans h) Bool.false_ne_true
    chain := fun _ =>
      Or.inl ⟨hex, Or.inl ⟨hidle.id, .boot hfetch hidle.ack hidle.id hidle.idTemp hpc⟩⟩ }

/-- The pairs of register and value that the instructions passing through WB
write. -/
def writes (b : CpuBus) (inputs : List TestIf) : List (BitVec 5 × Word) :=
  Machine.outputs step (fun t sw => t.cpu.written (t.hostIf sw)) b inputs

/-- On a program of register instructions, in every run from release with halt
low in which the fetch keeps every word, whatever the wait pins do, the
registers are written as by one instruction at a time. -/
theorem writes_in_order (hb : b.Released)
    (hpc : b.cpu.pcCntr = 0) (himage : RegisterProgram b.image)
    (hrun : Machine.Along step (fun t sw => sw.halt = false ∧ t.FetchKept sw) b inputs) :
    ∃ n, b.writes inputs <+: Rv32i.trace b.image .start n := by
  obtain ⟨n, hfollows⟩ := Machine.outputs_invariant
    (H := fun history (t : CpuBus) => ∃ n, t.Follows b.image history n)
    (fun history t sw ⟨n, ht⟩ ⟨hhalt, hkept⟩ => follows_step ht himage hhalt hkept)
    ⟨0, hb.follows hpc⟩ hrun
  refine ⟨n, ?_⟩
  rw [← hfollows.trace .idle, List.append_assoc, List.nil_append]
  exact List.prefix_append ..

end Release

/-! ### Sample programs -/

/-- `addi x1, x0, 1`, and then `jal x0, 0` for ever. -/
def addiLoop (index : BitVec 14) : Word := if index = 0 then 0x00100093 else 0x0000006f

theorem registerProgram_addiLoop : RegisterProgram (loaded addiLoop).image := by
  have haddi : Rv32i.decode ((loaded addiLoop).image 0) = some (.opImm .add 1 0 1) := by
    rw [image_loaded]
    decide
  have hloop : Rv32i.decode ((loaded addiLoop).image 4) = some (.jal 0 0) := by
    rw [image_loaded]
    decide
  refine registerProgram_of_closed (P := fun pc => pc = 0 ∨ pc = 4) (Or.inl rfl)
    (fun addr _ => ?_) ?_
  · rw [image_loaded, addiLoop]
    split_ifs <;> exact ⟨_, rfl⟩
  · rintro σ (hpc | hpc)
    · exact goesOnIn_of_opImm hpc haddi (by decide) (Or.inr rfl)
    · exact goesOnIn_of_jal hpc hloop (by decide) (by decide) (Or.inr rfl)

theorem writes_in_order_addiLoop :
    ∃ n, (loaded addiLoop).writes (List.replicate 20 (go false)) <+:
      Rv32i.trace (loaded addiLoop).image .start n :=
  writes_in_order (released_loaded addiLoop) rfl registerProgram_addiLoop
    (by unfold FetchKept; decide +kernel)

/-- `jal x0, 0x3000` at 0, a jump back to 4 at 0x3000, and there
`addi x1, x0, 1`, `addi x2, x0, 2` and `jal x0, 0`. -/
def jumpBack (index : BitVec 14) : Word :=
  if index = 0 then 0x0000306f
  else if index = 1 then 0x00100093
  else if index = 2 then 0x00200113
  else if index = 0xc00 then 0x804fd06f
  else 0x0000006f

theorem registerProgram_jumpBack : RegisterProgram (loaded jumpBack).image := by
  have hinstr (c : Word) (instr : Rv32i.Instr)
      (h : Rv32i.decode (jumpBack (Banks.addrAlign c)) = some instr) :
      Rv32i.decode ((loaded jumpBack).image c) = some instr := by
    rwa [image_loaded]
  refine registerProgram_of_closed
    (P := fun pc => pc = 0 ∨ pc = 0x3000 ∨ pc = 4 ∨ pc = 8 ∨ pc = 12) (Or.inl rfl)
    (fun addr _ => ?_) ?_
  · rw [image_loaded, jumpBack]
    split_ifs <;> exact ⟨_, rfl⟩
  · rintro σ (hpc | hpc | hpc | hpc | hpc)
    · exact goesOnIn_of_jal hpc (hinstr 0 (.jal 0 0x3000) (by decide)) (by decide) (by decide)
        (by decide)
    · exact goesOnIn_of_jal hpc (hinstr 0x3000 (.jal 0 (4 - 0x3000)) (by decide)) (by decide)
        (by decide) (by decide)
    · exact goesOnIn_of_opImm hpc (hinstr 4 (.opImm .add 1 0 1) (by decide)) (by decide)
        (by decide)
    · exact goesOnIn_of_opImm hpc (hinstr 8 (.opImm .add 2 0 2) (by decide)) (by decide)
        (by decide)
    · exact goesOnIn_of_jal hpc (hinstr 12 (.jal 0 0) (by decide)) (by decide) (by decide)
        (by decide)

/-- Waiting at two cycles loses the word at 4: the save of a word on the wrong
path left the lock on. -/
theorem writes_lost :
    ¬∀ (b : CpuBus) (inputs : List TestIf), b.Released → b.cpu.pcCntr = 0 →
      RegisterProgram b.image →
      Machine.Along step (fun _ sw => sw.halt = false ∧ sw.wInterruptSig = false) b inputs →
      ∃ n, b.writes inputs <+: Rv32i.trace b.image .start n := by
  intro h
  let inputs := (List.range 34).map fun cycle => go (cycle == 15 || cycle == 21)
  obtain ⟨n, hprefix⟩ := h (loaded jumpBack) inputs (released_loaded jumpBack) rfl
    registerProgram_jumpBack (by decide)
  have hwrites : (loaded jumpBack).writes inputs = [(2, 2)] := by decide +kernel
  have htrace : Rv32i.trace (loaded jumpBack).image .start 3 = [(1, 1)] := by
    rw [funext (image_loaded jumpBack)]
    decide
  rw [hwrites] at hprefix
  have hlong := Rv32i.trace_mono (loaded jumpBack).image .start (Nat.le_max_right n 3)
  have hrun := hprefix.trans
    (Rv32i.trace_mono (loaded jumpBack).image .start (Nat.le_max_left n 3))
  rw [htrace] at hlong
  have hsame := List.prefix_or_prefix_of_prefix hlong hrun
  revert hsame
  decide

end CpuBus

end KyogenRV
