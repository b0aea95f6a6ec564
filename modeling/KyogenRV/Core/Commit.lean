import KyogenRV.Core.CsrOnce
import KyogenRV.Core.FetchPaired
import KyogenRV.Core.Trap

/-!
# The committed program

What leaves EX, raises an exception or is interrupted is recorded in order next to
the core and its instruction port, and so is all that the core writes: CSRs, stores
that the data port accepts, registers.  As long as fetches, kills, traps and waits
keep clear of each other, the record is the program in its order, and each
instruction in it has made its writes exactly once.
-/

namespace KyogenRV

open ScalarOpConstants MemoryOpConstants

/-- An instruction has moved on to MEM or raised an exception, or an interrupt is
taken. -/
inductive Commit.Event
  | executed
  | excepted
  | interrupted
  deriving DecidableEq

/-- An entry of the record.  An interrupt stands at the pc that it interrupts, with a
NOP for its instruction. -/
structure Commit where
  pc : Word
  inst : Word
  event : Commit.Event
  /-- Where the program goes on. -/
  next : Word
  deriving DecidableEq

namespace Commit

variable (c : Commit)

def writesCsr : Bool :=
  c.event == .executed && ((idDecode c.inst).csrCmd == CSR.w ||
    (idDecode c.inst).csrCmd.getLsbD 1 && IDModule.rs1 c.inst != 0)

def stores : Bool := c.event == .executed && (idDecode c.inst).memWr == mXwr

def writesReg : Bool :=
  c.event == .executed && (idDecode c.inst).rfWen && IDModule.rd c.inst != 0

end Commit

namespace KyogenRVCpu

section Ports

variable (s : KyogenRVCpu) (io : HostIf)

/-- The pc that follows the instruction in MEM. -/
def successor : Word := if s.instKillBranch then s.transferTarget else s.mem.pc + 4

/-- A CSR is written at this edge: the pc of the instruction. -/
def csrWrittenPc : List Word := (s.csrWritten io).map fun _ => s.ex.pc

/-- The store in MEM, and a write that the data port accepts. -/
def memStore : List Word := if s.mem.ctrl.memWr == mXwr then [s.mem.pc] else []
def storeAccepted : List Word :=
  if s.wDmemReq io && !io.wDatawaitreqSig then [s.mem.pc] else []

/-- The instructions in MEM and WB that write a register, by the pc behind them, and
the one that leaves WB with its register written. -/
def memReg : List Word := if s.mem.ctrl.rfWen && s.mem.regWaddr != 0 then [s.mem.npc] else []
def wbReg : List Word := if s.wb.ctrl.rfWen && s.wb.regWaddr != 0 then [s.wb.npc] else []
def regWritten : List Word := if s.waitrequest io then [] else s.wbReg

end Ports

end KyogenRVCpu

/-- The core and its instruction port with a record of the run. -/
structure Recorder where
  trace : FetchTrace
  log : List Commit
  /-- The pc that follows the log. -/
  resume : Word
  /-- What the log has gained since EX last held a valid instruction, that one
  included. -/
  since : Option (List Commit)
  csrs : List Word
  stores : List Word
  regs : List Word

namespace Recorder

section Record

variable (memory : Word → Word) (h : Recorder) (io : HostIf)

def cpu : KyogenRVCpu := h.trace.port.cpu
def hostIf : HostIf := h.trace.port.hostIf memory io

/-- The next instruction in program order: behind a transfer in MEM its target,
else the one in EX, else the one that follows the log. -/
def due : Word :=
  if h.cpu.instKillBranch then h.cpu.transferTarget
  else if h.cpu.exSlot != .bubble then h.cpu.ex.pc
  else h.resume

/-- What the log gains at this edge. -/
def commits : List Commit :=
  if !h.cpu.stall (h.hostIf memory io) && h.cpu.expt (h.hostIf memory io) then
    if h.cpu.csr.isExtInt then [⟨h.due, Instructions.nop, .interrupted, h.cpu.csr.mtvec⟩]
    else [⟨h.cpu.ex.pc, h.cpu.ex.inst, .excepted, h.cpu.csr.mtvec⟩]
  else
    (h.cpu.leaving (h.hostIf memory io)).map fun slot =>
      ⟨slot.pc, slot.inst, .executed, (h.cpu.step (h.hostIf memory io)).successor⟩

def step : Recorder where
  trace := h.trace.step memory io
  log := h.log ++ h.commits memory io
  resume := ((h.commits memory io).getLast?.map Commit.next).getD h.resume
  since :=
    if h.cpu.pcInvalid then h.since.map (· ++ h.commits memory io)
    else some (h.commits memory io)
  csrs := h.csrs ++ h.cpu.csrWrittenPc (h.hostIf memory io)
  stores := h.stores ++ h.cpu.storeAccepted (h.hostIf memory io)
  regs := h.regs ++ h.cpu.regWritten (h.hostIf memory io)

/-- The record begins empty. -/
def start (t : FetchTrace) : Recorder := ⟨t, [], t.port.cpu.pcCntr, none, [], [], []⟩

/-- The program goes on from `a` at `b`.  A NOP at address 0 cannot be told from an
empty stage. -/
def Leads (a b : Word) : Prop := b = a ∨ Slot.fetch memory a = .bubble ∧ b = a + 4

instance (a b : Word) : Decidable (Leads memory a b) := inferInstanceAs (Decidable (_ ∨ _))

/-- From `pc` on the program goes on with this entry: an interrupt, or the instruction
that the memory holds at its pc. -/
structure GoesOn (pc : Word) (c : Commit) : Prop where
  leads : Leads memory pc c.pc
  inst : c.event ≠ .interrupted → c.inst = memory c.pc

/-- The entries follow one another in program order from `origin` on, and the program
goes on at the given pc behind them. -/
inductive InOrder (origin : Word) : List Commit → Word → Prop
  | nil : InOrder origin [] origin
  | snoc {log : List Commit} {pc : Word} {c : Commit} (hlog : InOrder origin log pc)
      (hnext : GoesOn memory pc c) : InOrder origin (log ++ [c]) c.next

/-- The core has made the writes of these instructions, in their order and each once;
stores in MEM and registers in MEM and WB are yet to be written. -/
structure Wrote (log : List Commit) : Prop where
  csrs : h.csrs = (log.filter Commit.writesCsr).map Commit.pc
  stores : h.stores ++ h.cpu.memStore = (log.filter Commit.stores).map Commit.pc
  regs : h.regs ++ h.cpu.wbReg ++ h.cpu.memReg = (log.filter Commit.writesReg).map (·.pc + 4)

/-- Fetches, kills, traps and waits keep clear of each other. -/
structure Orderly : Prop where
  halt : io.halt = false
  admits : h.trace.Admits memory io
  /-- Nothing issues from ID while the fetch request is down, unless ID is empty. -/
  once : h.cpu.imemReq = false → h.cpu.waitrequest (h.hostIf memory io) = false →
    h.cpu.instKill (h.hostIf memory io) = false →
    h.cpu.holdIssue (h.hostIf memory io) = false → h.cpu.id = .bubble
  /-- Behind a taken transfer EX neither raises an exception nor writes a CSR. -/
  killed : h.cpu.instKillBranch = true →
    h.cpu.raises (h.hostIf memory io) = false ∧ h.cpu.csrWriteEnabled = false
  /-- No exception or interrupt meets a wait. -/
  moving : h.cpu.expt (h.hostIf memory io) = true → h.cpu.waitrequest (h.hostIf memory io) = false
  /-- A CSR instruction with an enabled write is stalled exactly while it waits. -/
  csr : h.cpu.csrWriteEnabled = true →
    h.cpu.stall (h.hostIf memory io) = h.cpu.waitrequest (h.hostIf memory io)
  /-- A store is accepted when it leaves MEM and not before. -/
  store : h.cpu.mem.ctrl.memWr = mXwr → io.wDatawaitreqSig = false →
    h.cpu.waitrequest (h.hostIf memory io) = false

set_option synthInstance.maxSize 400 in
instance : Decidable (h.Orderly memory io) :=
  decidable_of_iff
    (io.halt = false ∧ h.trace.Admits memory io ∧
      (h.cpu.imemReq = false → h.cpu.waitrequest (h.hostIf memory io) = false →
        h.cpu.instKill (h.hostIf memory io) = false →
        h.cpu.holdIssue (h.hostIf memory io) = false → h.cpu.id = .bubble) ∧
      (h.cpu.instKillBranch = true →
        h.cpu.raises (h.hostIf memory io) = false ∧ h.cpu.csrWriteEnabled = false) ∧
      (h.cpu.expt (h.hostIf memory io) = true →
        h.cpu.waitrequest (h.hostIf memory io) = false) ∧
      (h.cpu.csrWriteEnabled = true →
        h.cpu.stall (h.hostIf memory io) = h.cpu.waitrequest (h.hostIf memory io)) ∧
      (h.cpu.mem.ctrl.memWr = mXwr → io.wDatawaitreqSig = false →
        h.cpu.waitrequest (h.hostIf memory io) = false))
    ⟨fun ⟨halt, admits, once, killed, moving, csr, store⟩ =>
        ⟨halt, admits, once, killed, moving, csr, store⟩,
      fun h => ⟨h.halt, h.admits, h.once, h.killed, h.moving, h.csr, h.store⟩⟩

end Record

/-! ## Where the program is -/

section Place

variable (memory : Word → Word) (h : Recorder) (c : Word)

/-- The word at `c` is the next one that ID receives, and the program goes on from
`pc` with the instruction in ID, or with that word. -/
def IdNext (pc : Word) : Prop :=
  h.cpu.id = .bubble ∧ Leads memory pc c ∨ h.cpu.id ≠ .bubble ∧ Leads memory pc h.cpu.id.pc

/-- It goes on with the instruction in EX, or behind an empty EX with that in ID. -/
def ExNext (pc : Word) : Prop :=
  h.cpu.exSlot = .bubble ∧ h.IdNext memory c pc ∨
    h.cpu.exSlot ≠ .bubble ∧ Leads memory pc h.cpu.ex.pc ∧ h.IdNext memory c (h.cpu.ex.pc + 4)

end Place

/-- The log is in program order, and the program goes on at the target of the
transfer in MEM, or with what is in EX. -/
structure Follows (memory : Word → Word) (origin : Word) (h : Recorder) (n : ℕ) : Prop where
  delivers : h.trace.Delivers memory n
  coherent : h.cpu.Coherent
  order : InOrder memory origin h.log h.resume
  transfer : h.cpu.instKillBranch = true → h.resume = h.cpu.transferTarget
  next : h.cpu.instKillBranch = false →
    h.ExNext memory (CpuBus.wordAddr h.trace.start n) h.resume

section Edge

variable {memory : Word → Word} {origin : Word} {h : Recorder} {io : HostIf} {n : ℕ}

@[simp] theorem step_cpu : (h.step memory io).cpu = h.cpu.step (h.hostIf memory io) := rfl
@[simp] theorem step_trace : (h.step memory io).trace = h.trace.step memory io := by
  simp only [step]
@[simp] theorem step_log : (h.step memory io).log = h.log ++ h.commits memory io := by
  simp only [step]
@[simp] theorem step_resume : (h.step memory io).resume =
    ((h.commits memory io).getLast?.map Commit.next).getD h.resume := by
  simp only [step]
@[simp] theorem step_since : (h.step memory io).since =
    if h.cpu.pcInvalid then h.since.map (· ++ h.commits memory io)
    else some (h.commits memory io) := by
  simp only [step]
@[simp] theorem step_csrs : (h.step memory io).csrs =
    h.csrs ++ h.cpu.csrWrittenPc (h.hostIf memory io) := by
  simp only [step]
@[simp] theorem step_stores : (h.step memory io).stores =
    h.stores ++ h.cpu.storeAccepted (h.hostIf memory io) := by
  simp only [step]
@[simp] theorem step_regs : (h.step memory io).regs =
    h.regs ++ h.cpu.regWritten (h.hostIf memory io) := by
  simp only [step]

theorem Leads.refl (a : Word) : Leads memory a a := Or.inl rfl

/-- What the log gains continues it. -/
theorem inOrder_step (horder : InOrder memory origin h.log h.resume)
    (hcommits : h.commits memory io = [] ∨
      ∃ c, h.commits memory io = [c] ∧ GoesOn memory h.resume c) :
    InOrder memory origin (h.step memory io).log (h.step memory io).resume := by
  rw [step_log, step_resume]
  rcases hcommits with hnone | ⟨c, hcommit, hnext⟩
  · rw [hnone, List.append_nil]
    exact horder
  · rw [hcommit]
    exact .snoc horder hnext

/-! ## One clock edge -/

/-- While the pipeline waits the log stays. -/
theorem commits_of_wait (hwait : h.cpu.waitrequest (h.hostIf memory io) = true)
    (hexpt : h.cpu.expt (h.hostIf memory io) = false) : h.commits memory io = [] := by
  rw [commits, hexpt, Bool.and_false, if_neg Bool.false_ne_true, KyogenRVCpu.leaving, hwait]
  rfl

/-- A killed instruction is not recorded. -/
theorem commits_of_branch (hbranch : h.cpu.instKillBranch = true)
    (hexpt : h.cpu.expt (h.hostIf memory io) = false) : h.commits memory io = [] := by
  rw [commits, hexpt, Bool.and_false, if_neg Bool.false_ne_true, KyogenRVCpu.leaving,
    KyogenRVCpu.instKill, hbranch, Bool.true_or, Bool.or_true]
  rfl

theorem commits_of_trap (hstall : h.cpu.stall (h.hostIf memory io) = false)
    (hexpt : h.cpu.expt (h.hostIf memory io) = true) : h.commits memory io =
      if h.cpu.csr.isExtInt then [⟨h.due, Instructions.nop, .interrupted, h.cpu.csr.mtvec⟩]
      else [⟨h.cpu.ex.pc, h.cpu.ex.inst, .excepted, h.cpu.csr.mtvec⟩] := by
  rw [commits, hstall, hexpt]
  rfl

/-- The instruction that leaves EX is recorded. -/
theorem commits_of_move (hwait : h.cpu.waitrequest (h.hostIf memory io) = false)
    (hkill : h.cpu.instKill (h.hostIf memory io) = false) : h.commits memory io =
      if h.cpu.exSlot = .bubble then []
      else [⟨h.cpu.ex.pc, h.cpu.ex.inst, .executed,
        (h.cpu.step (h.hostIf memory io)).successor⟩] := by
  have hexpt : h.cpu.expt (h.hostIf memory io) = false := (Bool.or_eq_false_iff.mp hkill).2
  rw [commits, hexpt, Bool.and_false, if_neg Bool.false_ne_true, KyogenRVCpu.leaving, hwait, hkill,
    Bool.or_self, if_neg Bool.false_ne_true]
  by_cases hbubble : h.cpu.exSlot = .bubble
  · rw [if_pos hbubble, hbubble]
    rfl
  · rw [if_neg hbubble, List.filter_cons_of_pos (by simpa using hbubble)]
    rfl

/-- A kill that is not delayed by a wait finds the fetch request up and no stall. -/
theorem guards_of_kill (hboot : h.cpu.BootInv) (ho : h.Orderly memory io)
    (hkill : h.cpu.instKill (h.hostIf memory io) = true)
    (hwait : h.cpu.waitrequest (h.hostIf memory io) = false) :
    h.cpu.imemReq = true ∧ h.cpu.stall (h.hostIf memory io) = false := by
  refine ⟨?_, hboot.stall_of_kill hkill⟩
  by_contra hreq
  rw [Bool.not_eq_true] at hreq
  exact absurd (hwait.symm.trans (ho.admits.2.1.requested hreq hkill).1) Bool.false_ne_true

theorem Orderly.expt_of_wait (ho : h.Orderly memory io)
    (hwait : h.cpu.waitrequest (h.hostIf memory io) = true) :
    h.cpu.expt (h.hostIf memory io) = false := by
  by_contra hexpt
  rw [Bool.not_eq_false] at hexpt
  exact absurd (hwait.symm.trans (ho.moving hexpt)) (by decide)

/-- EX is empty when its slot is. -/
theorem ctrl_of_bubble (hco : h.cpu.Coherent) (hbubble : h.cpu.exSlot = .bubble) :
    h.cpu.ex.ctrl = nopCtrl := by
  have hinst : h.cpu.ex.inst = Instructions.nop := congrArg Slot.inst hbubble
  rw [hco.ex.ctrl, hinst]
  rfl

/-- An empty EX raises no exception. -/
theorem expt_of_exBubble (hh : h.Follows memory origin n) (hslot : h.cpu.exSlot = .bubble)
    (hint : h.cpu.csr.isExtInt = false) : h.cpu.expt (h.hostIf memory io) = false := by
  have hctrl := ctrl_of_bubble hh.coherent hslot
  have hpc : h.cpu.ex.pc = pcStart := congrArg Slot.pc hslot
  have hcmd : h.cpu.ex.csrCmd = CSR.n := by
    rw [hh.coherent.ex.csrCmd, hctrl]
    decide
  have hquiet : h.cpu.expt (h.hostIf memory io) =
      (Csr.iaddrInvalidJ (h.cpu.csrPorts (h.hostIf memory io)) ||
        Csr.laddrInvalid (h.cpu.csrPorts (h.hostIf memory io)) ||
        Csr.saddrInvalid (h.cpu.csrPorts (h.hostIf memory io))) :=
    KyogenRVCpu.expt_of_accepted _ (by rw [hctrl]; decide) hcmd (by rw [hpc]; decide) hint
  obtain ⟨hload, hstore⟩ := KyogenRVCpu.addrInvalid_of_noAccess (h.hostIf memory io)
    (by rw [hctrl]; exact KyogenRVCpu.nop_noAccess)
  rw [hquiet, hload, hstore, KyogenRVCpu.iaddrInvalidJ_of_noTransfer _ hh.coherent.ex
    (by rw [hctrl]; exact KyogenRVCpu.nop_noTransfer)]
  rfl

/-! ### The order -/

/-- A wait leaves the log, and the instructions in EX and MEM. -/
theorem kept_of_wait (ho : h.Orderly memory io)
    (hwait : h.cpu.waitrequest (h.hostIf memory io) = true) :
    h.commits memory io = [] ∧ (h.step memory io).resume = h.resume ∧
      (h.step memory io).cpu.instKillBranch = h.cpu.instKillBranch ∧
      (h.step memory io).cpu.exSlot = h.cpu.exSlot := by
  have hcommits := commits_of_wait hwait (ho.expt_of_wait hwait)
  obtain ⟨hex, hmem, _⟩ := KyogenRVCpu.stages_of_wait hwait
  refine ⟨hcommits, ?_, ?_, ?_⟩
  · rw [step_resume, hcommits]
    rfl
  · rw [step_cpu, KyogenRVCpu.instKillBranch, hmem, KyogenRVCpu.instKillBranch]
  · rw [step_cpu, KyogenRVCpu.exSlot, hex, KyogenRVCpu.exSlot]

/-- While a taken transfer waits in MEM its target stays, since the wrong-path
instruction in EX does not write mepc. -/
theorem transferTarget_of_wait (ho : h.Orderly memory io) (hkill : h.cpu.instKillBranch = true)
    (hwait : h.cpu.waitrequest (h.hostIf memory io) = true) :
    (h.step memory io).cpu.transferTarget = h.cpu.transferTarget := by
  obtain ⟨_, hmem, _⟩ := KyogenRVCpu.stages_of_wait hwait
  have hmepc : (h.step memory io).cpu.csr.mepc = h.cpu.csr.mepc := by
    rw [step_cpu, KyogenRVCpu.next_csr_of_csrWritten, if_neg, ho.expt_of_wait hwait, Bool.and_false,
      if_neg Bool.false_ne_true]
    · rfl
    · exact not_not.mpr (KyogenRVCpu.csrWritten_of_not_enabled (ho.killed hkill).2)
  rw [KyogenRVCpu.transferTarget, KyogenRVCpu.transferTarget, hmepc, step_cpu, hmem]

theorem follows_of_killWait (hh : h.Follows memory origin n) (ho : h.Orderly memory io)
    (hkill : h.cpu.instKillBranch = true)
    (hwait : h.cpu.waitrequest (h.hostIf memory io) = true) :
    (h.step memory io).Follows memory origin n := by
  obtain ⟨hcommits, hresume, hbranch, _⟩ := kept_of_wait ho hwait
  have hkills : h.trace.port.kills memory io = true := Bool.or_eq_true_iff.mpr (Or.inl hkill)
  have hdelivers := FetchTrace.delivers_of_killWait hh.delivers ho.halt ho.admits.2.1 hkills hwait
  refine ⟨hdelivers, KyogenRVCpu.coherent_step hh.coherent _,
    inOrder_step hh.order (Or.inl hcommits), fun _ => ?_, fun h' => ?_⟩
  · rw [hresume, hh.transfer hkill, transferTarget_of_wait ho hkill hwait]
  · exact absurd (h'.symm.trans (hbranch.trans hkill)) Bool.false_ne_true

theorem follows_of_quietWait (hh : h.Follows memory origin n) (ho : h.Orderly memory io)
    (hkill : h.cpu.instKillBranch = false)
    (hwait : h.cpu.waitrequest (h.hostIf memory io) = true) :
    (h.step memory io).Follows memory origin n := by
  obtain ⟨hcommits, hresume, hbranch, hslot⟩ := kept_of_wait ho hwait
  have hkills : h.trace.port.kills memory io = false :=
    Bool.or_eq_false_iff.mpr ⟨hkill, ho.expt_of_wait hwait⟩
  have hlost := ho.admits.lost hkills
  obtain ⟨hid, hnext⟩ := (hh.delivers.nextAt hlost).stay ho.halt hkills hh.delivers.boot
    ho.admits.1 ho.admits.2.1 (hh.delivers.idPc_ne hlost)
    fun h' => absurd (hwait.symm.trans h') (by decide)
  have hdelivers := FetchTrace.delivers_of_keeps hh.delivers ho.halt hlost hkills hid hnext
  refine ⟨hdelivers, KyogenRVCpu.coherent_step hh.coherent _,
    inOrder_step hh.order (Or.inl hcommits), fun h' => ?_, fun _ => ?_⟩
  · exact absurd (h'.symm.trans (hbranch.trans hkill)) (by decide)
  · have hid' : (h.step memory io).cpu.id = h.cpu.id := hid
    have hpc : (h.step memory io).cpu.ex.pc = h.cpu.ex.pc := congrArg Slot.pc hslot
    rw [step_trace, FetchTrace.start_of_noKill hkills, hresume, ExNext, IdNext, IdNext, hslot, hid',
      hpc]
    exact hh.next hkill

/-- A wait leaves everything where it is. -/
theorem follows_of_wait (hh : h.Follows memory origin n) (ho : h.Orderly memory io)
    (hwait : h.cpu.waitrequest (h.hostIf memory io) = true) :
    (h.step memory io).Follows memory origin n := by
  cases hkill : h.cpu.instKillBranch with
  | true => exact follows_of_killWait hh ho hkill hwait
  | false => exact follows_of_quietWait hh ho hkill hwait

/-- EX holds a word of the memory. -/
theorem Follows.exInst (hh : h.Follows memory origin n) (hslot : h.cpu.exSlot ≠ .bubble) :
    h.cpu.ex.inst = memory h.cpu.ex.pc :=
  congrArg Slot.inst (hh.delivers.ex.resolve_left hslot)

theorem Follows.leads_ex (hh : h.Follows memory origin n)
    (hbranch : h.cpu.instKillBranch = false) (hslot : h.cpu.exSlot ≠ .bubble) :
    Leads memory h.resume h.cpu.ex.pc := by
  rcases hh.next hbranch with ⟨hbubble, _⟩ | ⟨_, hlead, _⟩
  · exact absurd hbubble hslot
  · exact hlead

/-- An interrupt stands where the program goes on. -/
theorem Follows.leads_due (hh : h.Follows memory origin n) : Leads memory h.resume h.due := by
  rw [due]
  cases hbranch : h.cpu.instKillBranch with
  | true =>
      rw [if_pos rfl, ← hh.transfer hbranch]
      exact .refl _
  | false =>
      rw [if_neg Bool.false_ne_true]
      by_cases hslot : h.cpu.exSlot = .bubble
      · rw [if_neg (by simpa using hslot)]
        exact .refl _
      · rw [if_pos (by simpa using hslot)]
        exact hh.leads_ex hbranch hslot

/-- An exception that is no interrupt is one of the instruction in EX, which is on
the right path. -/
theorem valid_of_expt (hh : h.Follows memory origin n) (ho : h.Orderly memory io)
    (hexpt : h.cpu.expt (h.hostIf memory io) = true) (hint : h.cpu.csr.isExtInt = false) :
    h.cpu.instKillBranch = false ∧ h.cpu.exSlot ≠ .bubble := by
  have hraises : h.cpu.raises (h.hostIf memory io) = true := by
    rwa [KyogenRVCpu.expt_eq, hint, Bool.false_or] at hexpt
  refine ⟨?_, fun hbubble => ?_⟩
  · by_contra hbranch
    rw [Bool.not_eq_false] at hbranch
    exact absurd ((ho.killed hbranch).1.symm.trans hraises) Bool.false_ne_true
  · exact absurd (expt_of_exBubble hh hbubble hint) (by rw [hexpt]; decide)

/-- A trap is recorded where the program goes on. -/
theorem goesOn_of_trap (hh : h.Follows memory origin n) (ho : h.Orderly memory io)
    (hstall : h.cpu.stall (h.hostIf memory io) = false)
    (hexpt : h.cpu.expt (h.hostIf memory io) = true) :
    ∃ c, h.commits memory io = [c] ∧ GoesOn memory h.resume c ∧ c.next = h.cpu.csr.mtvec := by
  have hcommits := commits_of_trap hstall hexpt
  cases hint : h.cpu.csr.isExtInt with
  | true =>
      rw [hint, if_pos rfl] at hcommits
      exact ⟨_, hcommits, ⟨hh.leads_due, fun hevent => absurd rfl hevent⟩, rfl⟩
  | false =>
      rw [hint, if_neg Bool.false_ne_true] at hcommits
      obtain ⟨hbranch, hslot⟩ := valid_of_expt hh ho hexpt hint
      exact ⟨_, hcommits, ⟨hh.leads_ex hbranch hslot, fun _ => hh.exInst hslot⟩, rfl⟩

/-- What the log gains at a kill follows it, and the program goes on at the pc that the
fetch is sent to. -/
theorem commits_of_kill (hh : h.Follows memory origin n) (ho : h.Orderly memory io)
    (hkill : h.cpu.instKill (h.hostIf memory io) = true)
    (hwait : h.cpu.waitrequest (h.hostIf memory io) = false) :
    (h.commits memory io = [] ∨ ∃ c, h.commits memory io = [c] ∧ GoesOn memory h.resume c) ∧
      (h.step memory io).resume = (h.step memory io).cpu.pcCntr := by
  obtain ⟨hreq, hstall⟩ := guards_of_kill hh.delivers.boot ho hkill hwait
  have hhalt : (h.hostIf memory io).halt = false := ho.halt
  rw [step_resume, step_cpu]
  cases hexpt : h.cpu.expt (h.hostIf memory io) with
  | true =>
      have hpc := (KyogenRVCpu.redirect_of_recorded hhalt ⟨hstall, hexpt⟩ hwait hreq).1
      obtain ⟨c, hcommits, hnext, hmtvec⟩ := goesOn_of_trap hh ho hstall hexpt
      rw [hcommits, hpc]
      exact ⟨Or.inr ⟨c, rfl, hnext⟩, hmtvec⟩
  | false =>
      have hbranch : h.cpu.instKillBranch = true := by
        rwa [KyogenRVCpu.instKill, hexpt, Bool.or_false] at hkill
      have hcommits := commits_of_branch hbranch hexpt
      rw [hcommits, KyogenRVCpu.step_pcCntr, KyogenRVCpu.pcCntrNext_of_not_expt hbranch hexpt,
        hhalt, hstall, hwait, hreq]
      exact ⟨Or.inl rfl, hh.transfer hbranch⟩

/-- A kill that is heard empties the pipeline. -/
theorem follows_of_kill (hh : h.Follows memory origin n) (ho : h.Orderly memory io)
    (hkill : h.cpu.instKill (h.hostIf memory io) = true)
    (hwait : h.cpu.waitrequest (h.hostIf memory io) = false) :
    (h.step memory io).Follows memory origin 0 := by
  obtain ⟨hreq, _⟩ := guards_of_kill hh.delivers.boot ho hkill hwait
  obtain ⟨hcommits, hresume⟩ := commits_of_kill hh ho hkill hwait
  obtain ⟨hex, hmem, _⟩ := KyogenRVCpu.stages_of_kill hwait hkill
  have hredirect : h.trace.port.redirects memory io = true := by
    rw [FetchPort.redirects, Bool.and_eq_true, Bool.and_eq_true]
    exact ⟨⟨hkill, by rw [Bool.not_eq_true']; exact hwait⟩, hreq⟩
  have hid : (h.step memory io).cpu.id = .bubble := KyogenRVCpu.id_of_kill hkill hwait hreq
  have hbranch' : (h.step memory io).cpu.instKillBranch = false := by
    rw [step_cpu, KyogenRVCpu.instKillBranch, hmem]
    decide
  refine ⟨FetchTrace.delivers_of_redirect hh.delivers ho.halt hredirect,
    KyogenRVCpu.coherent_step hh.coherent _, inOrder_step hh.order hcommits,
    fun h' => absurd (hbranch'.symm.trans h') Bool.false_ne_true, fun _ => ?_⟩
  have hstart : (h.step memory io).trace.start = (h.step memory io).cpu.pcCntr := by
    rw [step_trace, FetchTrace.step, hredirect, if_pos rfl]
    rfl
  refine Or.inl ⟨?_, Or.inl ⟨hid, ?_⟩⟩
  · rw [step_cpu, KyogenRVCpu.exSlot, hex]
    rfl
  · rw [hresume, hstart, CpuBus.wordAddr]
    exact Or.inl (by simp)

/-- The word at `c` comes into ID, unless it is a NOP at address 0. -/
theorem idNext_of_takes {h' : Recorder} {c pc : Word} (hid : h'.cpu.id = .fetch memory c)
    (hlead : Leads memory pc c) : h'.IdNext memory (c + 4) pc := by
  by_cases hbubble : h'.cpu.id = .bubble
  · refine Or.inl ⟨hbubble, ?_⟩
    have hfetch := hid.symm.trans hbubble
    have hzero : c = pcStart := congrArg Slot.pc hfetch
    rcases hlead with rfl | ⟨hskip, hc⟩
    · exact Or.inr ⟨hfetch, rfl⟩
    · -- a NOP at 0 would be followed by another one
      have hpc : pc = pcStart := congrArg Slot.pc hskip
      rw [hzero, hpc] at hc
      exact absurd hc (by decide)
  · refine Or.inr ⟨hbubble, ?_⟩
    rw [hid]
    exact hlead

/-- Behind what leaves EX the program goes on with ID, or at the target of a transfer. -/
theorem resume_of_move (hh : h.Follows memory origin n)
    (hwait : h.cpu.waitrequest (h.hostIf memory io) = false)
    (hkill : h.cpu.instKill (h.hostIf memory io) = false) :
    (h.commits memory io = [] ∨ ∃ c, h.commits memory io = [c] ∧ GoesOn memory h.resume c) ∧
      if (h.step memory io).cpu.instKillBranch then
        (h.step memory io).resume = (h.step memory io).cpu.transferTarget
      else h.IdNext memory (CpuBus.wordAddr h.trace.start n) (h.step memory io).resume := by
  have hbranch : h.cpu.instKillBranch = false := (Bool.or_eq_false_iff.mp hkill).1
  have hcommits := commits_of_move hwait hkill
  have hmem := (KyogenRVCpu.stages_of_move hwait hkill).2.1
  rcases hh.next hbranch with ⟨hslot, hnext⟩ | ⟨hslot, hlead, hnext⟩
  · rw [if_pos hslot] at hcommits
    have hbranch' : (h.step memory io).cpu.instKillBranch = false := by
      by_contra hbranch'
      rw [Bool.not_eq_false] at hbranch'
      refine KyogenRVCpu.brType_of_instKillBranch hbranch' ?_
      rw [step_cpu, hmem]
      change h.cpu.ex.ctrl.brType = brN
      rw [ctrl_of_bubble hh.coherent hslot]
      exact KyogenRVCpu.nop_noTransfer
    rw [step_resume, hcommits, hbranch', if_neg Bool.false_ne_true]
    exact ⟨Or.inl rfl, hnext⟩
  · rw [if_neg hslot] at hcommits
    rw [step_resume, hcommits]
    refine ⟨Or.inr ⟨_, rfl, hlead, fun _ => hh.exInst hslot⟩, ?_⟩
    change if (h.step memory io).cpu.instKillBranch then
        (h.step memory io).cpu.successor = (h.step memory io).cpu.transferTarget
      else h.IdNext memory _ (h.step memory io).cpu.successor
    rw [KyogenRVCpu.successor]
    cases hbranch' : (h.step memory io).cpu.instKillBranch with
    | true => rw [if_pos rfl, if_pos rfl]
    | false =>
        rw [if_neg Bool.false_ne_true, if_neg Bool.false_ne_true, step_cpu, hmem]
        exact hnext

/-- When the pipeline moves on, the program is known by what ID and EX receive. -/
theorem follows_of_next {m : ℕ} (hh : h.Follows memory origin n)
    (hwait : h.cpu.waitrequest (h.hostIf memory io) = false)
    (hkill : h.cpu.instKill (h.hostIf memory io) = false)
    (hdelivers : (h.step memory io).trace.Delivers memory m)
    (hnext : ∀ pc, h.IdNext memory (CpuBus.wordAddr h.trace.start n) pc →
      (h.step memory io).ExNext memory (CpuBus.wordAddr h.trace.start m) pc) :
    (h.step memory io).Follows memory origin m := by
  obtain ⟨hcommits, hresume⟩ := resume_of_move hh hwait hkill
  refine ⟨hdelivers, KyogenRVCpu.coherent_step hh.coherent _, inOrder_step hh.order hcommits,
    fun h' => ?_, fun h' => ?_⟩
  · rwa [h', if_pos rfl] at hresume
  · rw [h', if_neg Bool.false_ne_true] at hresume
    rw [step_trace, FetchTrace.start_of_noKill (by exact hkill)]
    exact hnext _ hresume

/-- While ID is held, EX is emptied. -/
theorem follows_of_hold (hh : h.Follows memory origin n) (ho : h.Orderly memory io)
    (hwait : h.cpu.waitrequest (h.hostIf memory io) = false)
    (hkill : h.cpu.instKill (h.hostIf memory io) = false)
    (hhold : h.cpu.holdIssue (h.hostIf memory io) = true) :
    (h.step memory io).Follows memory origin n := by
  have hkills : h.trace.port.kills memory io = false := hkill
  have hlost := ho.admits.lost hkills
  obtain ⟨hid, hplace'⟩ := (hh.delivers.nextAt hlost).stay ho.halt hkills hh.delivers.boot
    ho.admits.1 ho.admits.2.1 (hh.delivers.idPc_ne hlost) fun _ => hhold
  have hex := (KyogenRVCpu.stages_of_move hwait hkill).1
  rw [hhold, if_pos rfl] at hex
  refine follows_of_next hh hwait hkill
    (FetchTrace.delivers_of_keeps hh.delivers ho.halt hlost hkills hid hplace')
    fun pc hnext => Or.inl ⟨?_, ?_⟩
  · rw [step_cpu, KyogenRVCpu.exSlot, hex]
    rfl
  · have hid' : (h.step memory io).cpu.id = h.cpu.id := hid
    rw [IdNext, hid']
    exact hnext

/-- When ID issues, its instruction is in EX, and its successor is on the way to ID. -/
theorem exNext_of_issue {c pc : Word} (hh : h.Follows memory origin n)
    (hwait : h.cpu.waitrequest (h.hostIf memory io) = false)
    (hkill : h.cpu.instKill (h.hostIf memory io) = false) (hlost : h.trace.lost = false)
    (hhold : h.cpu.holdIssue (h.hostIf memory io) = false)
    (hid : ∀ pc, Leads memory pc (CpuBus.wordAddr h.trace.start n) →
      (h.step memory io).IdNext memory c pc)
    (hnext : h.IdNext memory (CpuBus.wordAddr h.trace.start n) pc) :
    (h.step memory io).ExNext memory c pc := by
  have hex := (KyogenRVCpu.stages_of_move hwait hkill).1
  rw [hhold, if_neg Bool.false_ne_true] at hex
  have hslot' : (h.step memory io).cpu.exSlot = h.cpu.id := by
    rw [step_cpu, KyogenRVCpu.exSlot, hex]
    rfl
  have hpc' : (h.step memory io).cpu.ex.pc = h.cpu.id.pc := congrArg Slot.pc hslot'
  rw [ExNext, hslot', hpc']
  rcases hnext with ⟨hbubble, hlead⟩ | ⟨hbubble, hlead⟩
  · exact Or.inl ⟨hbubble, hid _ hlead⟩
  · refine Or.inr ⟨hbubble, hlead, hid _ (Or.inl ?_)⟩
    exact (hh.delivers.behind hlost).resolve_left hbubble

/-- When ID issues, it takes the next word or none. -/
theorem follows_of_issue (hh : h.Follows memory origin n) (ho : h.Orderly memory io)
    (hwait : h.cpu.waitrequest (h.hostIf memory io) = false)
    (hkill : h.cpu.instKill (h.hostIf memory io) = false)
    (hhold : h.cpu.holdIssue (h.hostIf memory io) = false) :
    ∃ m, (h.step memory io).Follows memory origin m := by
  have hkills : h.trace.port.kills memory io = false := hkill
  have hlost := ho.admits.lost hkills
  rcases (hh.delivers.nextAt hlost).issue ho.halt hkills hh.delivers.boot ho.admits.1 ho.admits.2.1
    hwait hhold (fun hreq => ho.once hreq hwait hkill hhold) with ⟨hid, hplace'⟩ | ⟨hid, hplace'⟩
  · refine ⟨n, follows_of_next hh hwait hkill
      (FetchTrace.delivers_of_empties hh.delivers ho.halt hkills hid hplace') fun pc hnext => ?_⟩
    exact exNext_of_issue hh hwait hkill hlost hhold (fun _ hlead => Or.inl ⟨hid, hlead⟩) hnext
  · refine ⟨n + 1, follows_of_next hh hwait hkill
      (FetchTrace.delivers_of_takes hh.delivers ho.halt hlost hkills hid hplace')
      fun pc hnext => ?_⟩
    refine exNext_of_issue hh hwait hkill hlost hhold (fun _ hlead => ?_) hnext
    rw [CpuBus.wordAddr_succ]
    exact idNext_of_takes hid hlead

theorem follows_step (hh : h.Follows memory origin n) (ho : h.Orderly memory io) :
    ∃ m, (h.step memory io).Follows memory origin m := by
  cases hwait : h.cpu.waitrequest (h.hostIf memory io) with
  | true => exact ⟨n, follows_of_wait hh ho hwait⟩
  | false =>
      cases hkill : h.cpu.instKill (h.hostIf memory io) with
      | true => exact ⟨0, follows_of_kill hh ho hkill hwait⟩
      | false =>
          cases hhold : h.cpu.holdIssue (h.hostIf memory io) with
          | true => exact ⟨n, follows_of_hold hh ho hwait hkill hhold⟩
          | false => exact follows_of_issue hh ho hwait hkill hhold

/-! ### The writes -/

/-- Only an executed instruction writes. -/
theorem filter_of_trap {log : List Commit} (hlog : ∀ c ∈ log, c.event ≠ .executed) :
    log.filter Commit.writesCsr = [] ∧ log.filter Commit.stores = [] ∧
      log.filter Commit.writesReg = [] := by
  have hevent (c : Commit) (hc : c ∈ log) : (c.event == .executed) = false :=
    beq_eq_false_iff_ne.mpr (hlog c hc)
  refine ⟨?_, ?_, ?_⟩ <;> rw [List.filter_eq_nil_iff] <;> intro c hc
  · rw [Commit.writesCsr, hevent c hc, Bool.false_and]
    exact Bool.false_ne_true
  · rw [Commit.stores, hevent c hc, Bool.false_and]
    exact Bool.false_ne_true
  · rw [Commit.writesReg, hevent c hc, Bool.false_and, Bool.false_and]
    exact Bool.false_ne_true

/-- What an executed instruction writes, its word says. -/
theorem filter_of_executed (pc inst next : Word) :
    (([⟨pc, inst, .executed, next⟩].filter Commit.writesCsr).map Commit.pc =
      if (idDecode inst).csrCmd == CSR.w ||
        (idDecode inst).csrCmd.getLsbD 1 && IDModule.rs1 inst != 0 then [pc] else []) ∧
    (([⟨pc, inst, .executed, next⟩].filter Commit.stores).map Commit.pc =
      if (idDecode inst).memWr == mXwr then [pc] else []) ∧
    (([⟨pc, inst, .executed, next⟩].filter Commit.writesReg).map (·.pc + 4) =
      if (idDecode inst).rfWen && IDModule.rd inst != 0 then [pc + 4] else []) := by
  have hself : (Commit.Event.executed == Commit.Event.executed) = true := rfl
  refine ⟨?_, ?_, ?_⟩ <;> rw [List.filter_cons]
  · rw [Commit.writesCsr, hself, Bool.true_and]
    split_ifs <;> rfl
  · rw [Commit.stores, hself, Bool.true_and]
    split_ifs <;> rfl
  · rw [Commit.writesReg, hself, Bool.true_and]
    split_ifs <;> rfl

/-- A kill records no executed instruction. -/
theorem commits_of_instKill (hkill : h.cpu.instKill (h.hostIf memory io) = true) :
    ∀ c ∈ h.commits memory io, c.event ≠ .executed := by
  rw [commits]
  split_ifs
  · simp
  · simp
  · simp [KyogenRVCpu.leaving, hkill]

/-- What the edge writes and what the stages behind EX gain is what the log gains. -/
structure Gains (memory : Word → Word) (h : Recorder) (io : HostIf) : Prop where
  csrs : h.cpu.csrWrittenPc (h.hostIf memory io) =
    ((h.commits memory io).filter Commit.writesCsr).map Commit.pc
  stores : h.cpu.storeAccepted (h.hostIf memory io) ++ (h.step memory io).cpu.memStore =
    h.cpu.memStore ++ ((h.commits memory io).filter Commit.stores).map Commit.pc
  regs : h.cpu.regWritten (h.hostIf memory io) ++ (h.step memory io).cpu.wbReg ++
      (h.step memory io).cpu.memReg =
    h.cpu.wbReg ++ h.cpu.memReg ++
      ((h.commits memory io).filter Commit.writesReg).map (·.pc + 4)

theorem gains_of_wait (ho : h.Orderly memory io)
    (hwait : h.cpu.waitrequest (h.hostIf memory io) = true) : h.Gains memory io := by
  have hcommits := commits_of_wait hwait (ho.expt_of_wait hwait)
  obtain ⟨_, hmem, hwb⟩ := KyogenRVCpu.stages_of_wait hwait
  have haccepted : h.cpu.storeAccepted (h.hostIf memory io) = [] := by
    have hhalt : (h.hostIf memory io).halt = false := ho.halt
    have hready : (h.hostIf memory io).wDatawaitreqSig = io.wDatawaitreqSig := rfl
    rw [KyogenRVCpu.storeAccepted, KyogenRVCpu.wDmemReq, hhalt, if_neg Bool.false_ne_true, hready,
      if_neg]
    intro haccepts
    rw [Bool.and_eq_true, beq_iff_eq, Bool.not_eq_true'] at haccepts
    exact absurd (hwait.symm.trans (ho.store haccepts.1 haccepts.2)) (by decide)
  constructor
  · rw [hcommits, KyogenRVCpu.csrWrittenPc]
    cases henabled : h.cpu.csrWriteEnabled with
    | false => rw [KyogenRVCpu.csrWritten_of_not_enabled henabled]; rfl
    | true =>
        rw [KyogenRVCpu.csrWritten_of_stall ((ho.csr henabled).trans hwait)]
        rfl
  · rw [hcommits, haccepted, KyogenRVCpu.memStore, KyogenRVCpu.memStore, step_cpu, hmem]
    exact (List.append_nil _).symm
  · rw [hcommits, KyogenRVCpu.regWritten, hwait, if_pos rfl, List.nil_append,
      KyogenRVCpu.wbReg, KyogenRVCpu.memReg, KyogenRVCpu.wbReg, KyogenRVCpu.memReg, step_cpu,
      hmem, hwb]
    exact (List.append_nil _).symm

/-- When nothing waits, the store in MEM is accepted and WB takes MEM. -/
theorem passed_of_move (ho : h.Orderly memory io)
    (hwait : h.cpu.waitrequest (h.hostIf memory io) = false) :
    h.cpu.storeAccepted (h.hostIf memory io) = h.cpu.memStore ∧
      h.cpu.regWritten (h.hostIf memory io) = h.cpu.wbReg ∧
      (h.step memory io).cpu.wbReg = h.cpu.memReg := by
  have hhalt : (h.hostIf memory io).halt = false := ho.halt
  have hready : (h.hostIf memory io).wDatawaitreqSig = false := by
    simp only [KyogenRVCpu.waitrequest, Bool.or_eq_false_iff] at hwait
    exact hwait.1.2
  refine ⟨?_, ?_, ?_⟩
  · rw [KyogenRVCpu.storeAccepted, KyogenRVCpu.wDmemReq, hhalt, if_neg Bool.false_ne_true, hready,
      Bool.not_false, Bool.and_true, KyogenRVCpu.memStore]
  · rw [KyogenRVCpu.regWritten, hwait, if_neg Bool.false_ne_true]
  · rw [KyogenRVCpu.wbReg, step_cpu, KyogenRVCpu.wb_of_move hwait, KyogenRVCpu.memReg]
    rfl

theorem gains_of_kill (ho : h.Orderly memory io)
    (hkill : h.cpu.instKill (h.hostIf memory io) = true)
    (hwait : h.cpu.waitrequest (h.hostIf memory io) = false) : h.Gains memory io := by
  obtain ⟨haccepted, hwritten, hwb⟩ := passed_of_move ho hwait
  have hevents : ∀ c ∈ h.commits memory io, c.event ≠ .executed := commits_of_instKill hkill
  obtain ⟨hcsrs, hstores, hregs⟩ := filter_of_trap hevents
  have hmem := (KyogenRVCpu.stages_of_kill hwait hkill).2.1
  have hnone : (h.step memory io).cpu.memStore = [] ∧ (h.step memory io).cpu.memReg = [] := by
    rw [KyogenRVCpu.memStore, KyogenRVCpu.memReg, step_cpu, hmem]
    exact ⟨by decide, by decide⟩
  constructor
  · rw [hcsrs, KyogenRVCpu.csrWrittenPc]
    cases hexpt : h.cpu.expt (h.hostIf memory io) with
    | true =>
        rw [KyogenRVCpu.csrWritten, hexpt, Bool.not_true, Bool.and_false, Bool.false_and]
        rfl
    | false =>
        have hbranch : h.cpu.instKillBranch = true := by
          rwa [KyogenRVCpu.instKill, hexpt, Bool.or_false] at hkill
        rw [KyogenRVCpu.csrWritten_of_not_enabled (ho.killed hbranch).2]
        rfl
  · rw [hstores, haccepted, hnone.1]
    rfl
  · rw [hregs, hwritten, hwb, hnone.2]
    rfl

/-- What leaves EX writes its CSR, and its store and its register are in MEM. -/
theorem reaches_of_move (ho : h.Orderly memory io)
    (hwait : h.cpu.waitrequest (h.hostIf memory io) = false)
    (hkill : h.cpu.instKill (h.hostIf memory io) = false) :
    h.cpu.csrWrittenPc (h.hostIf memory io) =
        (if h.cpu.csrWriteEnabled then [h.cpu.ex.pc] else []) ∧
      (h.step memory io).cpu.memStore =
        (if h.cpu.ex.ctrl.memWr == mXwr then [h.cpu.ex.pc] else []) ∧
      (h.step memory io).cpu.memReg =
        if h.cpu.ex.ctrl.rfWen && h.cpu.ex.regWaddr != 0 then [h.cpu.ex.npc] else [] := by
  have hmem := (KyogenRVCpu.stages_of_move hwait hkill).2.1
  have hexpt : h.cpu.expt (h.hostIf memory io) = false := (Bool.or_eq_false_iff.mp hkill).2
  refine ⟨?_, ?_, ?_⟩
  · rw [KyogenRVCpu.csrWrittenPc]
    cases henabled : h.cpu.csrWriteEnabled with
    | false => rw [KyogenRVCpu.csrWritten_of_not_enabled henabled]; rfl
    | true =>
        rw [KyogenRVCpu.csrWritten, (ho.csr henabled).trans hwait, hexpt, henabled]
        rfl
  · rw [KyogenRVCpu.memStore, step_cpu, hmem]
    rfl
  · rw [KyogenRVCpu.memReg, step_cpu, hmem]
    rfl

/-- The NOP of an empty EX writes nothing. -/
theorem gains_of_exBubble (hh : h.Follows memory origin n) (ho : h.Orderly memory io)
    (hwait : h.cpu.waitrequest (h.hostIf memory io) = false)
    (hkill : h.cpu.instKill (h.hostIf memory io) = false)
    (hslot : h.cpu.exSlot = .bubble) : h.Gains memory io := by
  obtain ⟨haccepted, hwritten, hwb⟩ := passed_of_move ho hwait
  obtain ⟨hcsr, hstore, hreg⟩ := reaches_of_move ho hwait hkill
  have hctrl := ctrl_of_bubble hh.coherent hslot
  have hcmd : h.cpu.ex.csrCmd = CSR.n := by
    rw [hh.coherent.ex.csrCmd, hctrl]
    decide
  have hdest : h.cpu.ex.regWaddr = 0 := by
    have hinst : h.cpu.ex.inst = Instructions.nop := congrArg Slot.inst hslot
    rw [hh.coherent.ex.regWaddr, hinst]
    decide
  have hcommits := commits_of_move hwait hkill
  rw [if_pos hslot] at hcommits
  constructor
  · rw [hcommits, hcsr, KyogenRVCpu.csrWriteEnabled, hcmd]
    rfl
  · rw [hcommits, haccepted, hstore, hctrl]
    rfl
  · rw [hcommits, hwritten, hwb, hreg, hdest, bne_self_eq_false, Bool.and_false]
    rfl

theorem gains_of_move (hh : h.Follows memory origin n) (ho : h.Orderly memory io)
    (hwait : h.cpu.waitrequest (h.hostIf memory io) = false)
    (hkill : h.cpu.instKill (h.hostIf memory io) = false) : h.Gains memory io := by
  by_cases hslot : h.cpu.exSlot = .bubble
  · exact gains_of_exBubble hh ho hwait hkill hslot
  · obtain ⟨haccepted, hwritten, hwb⟩ := passed_of_move ho hwait
    obtain ⟨hcsr, hstore, hreg⟩ := reaches_of_move ho hwait hkill
    obtain ⟨hcsrs, hstores, hregs⟩ := filter_of_executed h.cpu.ex.pc h.cpu.ex.inst
      (h.cpu.step (h.hostIf memory io)).successor
    have hex := hh.coherent.ex
    have hnpc : h.cpu.ex.npc = h.cpu.ex.pc + 4 :=
      congrArg Slot.npc (hh.delivers.ex.resolve_left hslot)
    have hcommits := commits_of_move hwait hkill
    rw [if_neg hslot] at hcommits
    constructor
    · rw [hcommits, hcsrs, hcsr, KyogenRVCpu.csrWriteEnabled, hex.csrCmd, hex.ctrl]
    · rw [hcommits, hstores, haccepted, hstore, hex.ctrl]
    · rw [hcommits, hregs, hwritten, hwb, hreg, hex.ctrl, hex.regWaddr, hnpc]

theorem wrote_step (hgains : h.Gains memory io) (hwrote : h.Wrote h.log) :
    (h.step memory io).Wrote (h.step memory io).log where
  csrs := by
    rw [step_log, List.filter_append, List.map_append, step_csrs, hwrote.csrs, hgains.csrs]
  stores := by
    rw [step_log, List.filter_append, List.map_append, step_stores, ← hwrote.stores,
      List.append_assoc, List.append_assoc, hgains.stores]
  regs := by
    rw [step_log, List.filter_append, List.map_append, step_regs, ← hwrote.regs]
    simpa only [List.append_assoc] using congrArg (h.regs ++ ·) hgains.regs

end Edge

/-! ## Runs -/

/-- The log is the program in its order, and what it says has been written. -/
structure Ordered (memory : Word → Word) (origin : Word) (h : Recorder) : Prop where
  follows : ∃ n, h.Follows memory origin n
  wrote : h.Wrote h.log

section Run

variable {memory : Word → Word} {origin : Word} {h : Recorder} {io : HostIf}

theorem ordered_step (hh : h.Ordered memory origin) (ho : h.Orderly memory io) :
    (h.step memory io).Ordered memory origin := by
  obtain ⟨⟨n, hfollows⟩, hwrote⟩ := hh
  refine ⟨follows_step hfollows ho, wrote_step ?_ hwrote⟩
  cases hwait : h.cpu.waitrequest (h.hostIf memory io) with
  | true => exact gains_of_wait ho hwait
  | false =>
      cases hkill : h.cpu.instKill (h.hostIf memory io) with
      | true => exact gains_of_kill ho hkill hwait
      | false => exact gains_of_move hfollows ho hwait hkill

/-- In halt the stages hold nothing that writes. -/
structure Blank (p : FetchPort) : Prop where
  idle : FetchTrace.Idle p
  coherent : p.cpu.Coherent
  mem : p.cpu.mem.regWaddr = 0
  wb : p.cpu.wb.regWaddr = 0

theorem blank_step {p : FetchPort} (hp : Blank p) (hhalt : io.halt = true) :
    Blank (p.step memory io) where
  idle := FetchTrace.idle_step hp.idle hhalt
  coherent := KyogenRVCpu.coherent_step hp.coherent _
  mem := by
    refine KyogenRVCpu.mem_step_forall (P := fun mem => mem.regWaddr = 0) rfl (fun _ => ?_) hp.mem
    change p.cpu.ex.regWaddr = 0
    rw [hp.idle.down.2.1]
    rfl
  wb := KyogenRVCpu.wb_step_forall (P := fun wb => wb.regWaddr = 0) hp.mem hp.wb

theorem blank_reset {p : FetchPort} (hcpu : p.cpu.IsReset) (hpending : p.pending = []) :
    Blank p := by
  refine ⟨FetchTrace.idle_reset hcpu hpending, KyogenRVCpu.coherent_reset hcpu, ?_, ?_⟩
  all_goals
    obtain ⟨_, _, _, _, _, _, _, hcpu⟩ := hcpu
    rw [hcpu]
    rfl

/-- After release nothing is recorded, and the program begins at `pc_cntr`. -/
theorem ordered_start {t : FetchTrace} (ht : t.Released memory) :
    (start t).Ordered memory t.port.cpu.pcCntr := by
  have hdelivers := ht.delivers
  obtain ⟨p₀, loads, hcpu, hpending, hloads, rfl⟩ := ht
  have hblank : Blank (Machine.run (FetchPort.step memory) p₀ loads) :=
    Machine.run_invariant (fun _ _ => blank_step) (blank_reset hcpu hpending)
      (Machine.along_of_mem hloads)
  generalize Machine.run (FetchPort.step memory) p₀ loads = p at *
  obtain ⟨_, hex, hmem⟩ := hblank.idle.down
  have hbranch : p.cpu.instKillBranch = false := KyogenRVCpu.instKillBranch_of_nop hmem
  have hnone : nopCtrl.memWr ≠ mXwr := by decide
  constructor
  · refine ⟨0, hdelivers, hblank.coherent, .nil, fun h' => ?_, fun _ => Or.inl ⟨?_, ?_⟩⟩
    · exact absurd (hbranch.symm.trans h') Bool.false_ne_true
    · change p.cpu.exSlot = .bubble
      rw [KyogenRVCpu.exSlot, hex]
      rfl
    · exact Or.inl ⟨hblank.idle.id, Or.inl (by simp [CpuBus.wordAddr, start])⟩
  · constructor
    · rfl
    · change [] ++ p.cpu.memStore = []
      rw [KyogenRVCpu.memStore, hmem, beq_eq_false_iff_ne.mpr hnone]
      rfl
    · change [] ++ p.cpu.wbReg ++ p.cpu.memReg = []
      rw [KyogenRVCpu.wbReg, KyogenRVCpu.memReg, hblank.wb, hblank.mem, bne_self_eq_false,
        Bool.and_false, Bool.and_false]
      rfl

/-- In every orderly run from release the log is the program in its order, and each of
its instructions has made its writes once. -/
theorem ordered_run {t : FetchTrace} {inputs : List HostIf} (ht : t.Released memory)
    (hrun : Machine.Along (step memory) (Orderly memory) (start t) inputs) :
    (Machine.run (step memory) (start t) inputs).Ordered memory t.port.cpu.pcCntr :=
  Machine.run_invariant (fun _ _ hh ho => ordered_step hh ho) (ordered_start ht) hrun

end Run

end Recorder

end KyogenRV
