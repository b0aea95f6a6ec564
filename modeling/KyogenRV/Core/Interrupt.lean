import KyogenRV.Core.Commit

/-!
# Precise interrupts

An external interrupt records `valid_pc`, the pc of the instruction that EX
held, as a valid one, in the last cycle before this one that had any.  When
that instruction has left EX in the meantime, it is executed again on return.
An interrupt is precise if all that precedes the recorded pc in program order
has been written once, and nothing from there on.
-/

namespace KyogenRV

open ScalarOpConstants MemoryOpConstants

/-- An instruction at an aligned pc that writes nothing, has nothing to do with the
CSRs, and has raised no exception. -/
def Commit.Harmless (c : Commit) : Prop :=
  c.event ≠ .excepted ∧ Csr.misaligned c.pc = false ∧
    ((idDecode c.inst).rfWen = false ∨ IDModule.rd c.inst = 0) ∧
    (idDecode c.inst).memWr ≠ mXwr ∧ (idDecode c.inst).csrCmd = CSR.n

instance (c : Commit) : Decidable c.Harmless := inferInstanceAs (Decidable (_ ∧ _))

namespace Recorder

section Interrupt

variable (memory : Word → Word) (origin : Word) (h : Recorder) (io : HostIf)

/-- An enabled external interrupt is recorded at this edge. -/
def InterruptTaken : Prop :=
  h.cpu.Recorded (h.hostIf memory io) ∧ h.cpu.csr.isExtInt = true

/-- The log splits at the recorded `mepc`.  What precedes it is the program in its
order and has been written, each instruction once.  What follows has not, and does
the same when it is executed again: it raised no exception and has nothing to do
with the CSRs. -/
structure Splits (log before after : List Commit) : Prop where
  log_eq : log = before ++ after
  order : ∃ pc, InOrder memory origin before pc ∧ Leads memory pc h.cpu.csr.mepc
  wrote : h.Wrote before
  again : ∀ c ∈ after, c.event ≠ .excepted ∧ (idDecode c.inst).csrCmd = CSR.n

/-- An interrupt taken at this edge is precise: the log splits at its `mepc`, and
nothing of the program is left in the pipeline but what is to write a register. -/
def Precise : Prop :=
  h.InterruptTaken memory io →
    (∃ before after, (h.step memory io).Splits memory origin h.log before after) ∧
    (h.step memory io).cpu.pcCntr = h.cpu.csr.mtvec ∧ (h.step memory io).cpu.id = .bubble ∧
    (h.step memory io).cpu.ex = .bubble ∧ (h.step memory io).cpu.mem = .bubble

/-- With an interrupt pending, EX has held a valid instruction, and what has left EX
since then, with that instruction, is harmless. -/
def ArrivesInTime : Prop :=
  h.cpu.csr.isExtInt = true → ∃ since ∈ h.since, ∀ c ∈ since, c.Harmless

/-! ## The instruction of `valid_pc` -/

/-- The instruction of `valid_pc` is held in EX, or it is the first of these last
entries of the log, provided that they are harmless. -/
structure Since (since : List Commit) : Prop where
  suffix : since <:+ h.log
  held : since = [] → h.cpu.pcInvalid = false ∧ h.cpu.csr.validPc = h.cpu.ex.pc
  head : (∀ c ∈ since, c.Harmless) → ∀ c ∈ since.head?, c.pc = h.cpu.csr.validPc

end Interrupt

section Step

variable {memory : Word → Word} {origin : Word} {h : Recorder} {io : HostIf} {n : ℕ}

/-- An instruction in EX without an exception stands at an aligned pc. -/
theorem aligned_of_not_expt (hexpt : h.cpu.expt (h.hostIf memory io) = false) :
    Csr.clearLow2 h.cpu.ex.pc = h.cpu.ex.pc := by
  simp only [KyogenRVCpu.expt, Csr.expt, Bool.or_eq_false_iff] at hexpt
  have hpc : Csr.misaligned h.cpu.ex.pc = false := hexpt.1.1.2
  exact Csr.clearLow2_of_aligned (by simpa [Csr.misaligned] using hpc)

theorem validPc_step : (h.step memory io).cpu.csr.validPc =
    if h.cpu.pcInvalid then h.cpu.csr.validPc else Csr.clearLow2 h.cpu.ex.pc := by
  rw [step_cpu, KyogenRVCpu.step_csr, Csr.next_validPc]
  change (if !h.cpu.pcInvalid then Csr.clearLow2 h.cpu.ex.pc else _) = _
  cases h.cpu.pcInvalid <;> rfl

theorem slot_of_valid (hvalid : h.cpu.pcInvalid = false) :
    h.cpu.instKillBranch = false ∧ h.cpu.exSlot ≠ .bubble := by
  simp only [KyogenRVCpu.pcInvalid, Bool.or_eq_false_iff, beq_eq_false_iff_ne] at hvalid
  exact ⟨hvalid.1, fun hslot => hvalid.2 (congrArg Slot.pc hslot)⟩

/-- A valid instruction that does not wait is recorded at `valid_pc`, or it is not
harmless. -/
theorem commits_of_valid (hboot : h.cpu.BootInv) (hvalid : h.cpu.pcInvalid = false)
    (hwait : h.cpu.waitrequest (h.hostIf memory io) = false) :
    ∃ c, h.commits memory io = [c] ∧
      (c.Harmless → c.pc = Csr.clearLow2 h.cpu.ex.pc) := by
  obtain ⟨hbranch, hslot⟩ := slot_of_valid hvalid
  cases hexpt : h.cpu.expt (h.hostIf memory io) with
  | true =>
      have hkill : h.cpu.instKill (h.hostIf memory io) = true := by
        rw [KyogenRVCpu.instKill, hexpt, Bool.or_true]
      rw [commits_of_trap (hboot.stall_of_kill hkill) hexpt]
      cases hint : h.cpu.csr.isExtInt with
      | true =>
          refine ⟨_, if_pos rfl, fun hharmless => ?_⟩
          have hdue : h.due = h.cpu.ex.pc := by
            rw [due, hbranch, if_neg Bool.false_ne_true, if_pos (by simpa using hslot)]
          have haligned : Csr.misaligned h.cpu.ex.pc = false := hdue ▸ hharmless.2.1
          exact hdue.trans
            (Csr.clearLow2_of_aligned (by simpa [Csr.misaligned] using haligned)).symm
      | false => exact ⟨_, if_neg Bool.false_ne_true, fun hharmless => absurd rfl hharmless.1⟩
  | false =>
      have hkill : h.cpu.instKill (h.hostIf memory io) = false := by
        rw [KyogenRVCpu.instKill, hbranch, hexpt]
        rfl
      rw [commits_of_move hwait hkill, if_neg hslot]
      exact ⟨_, rfl, fun _ => (aligned_of_not_expt hexpt).symm⟩

/-- A wait leaves EX and MEM, and with them `pc_invalid`. -/
theorem pcInvalid_of_wait (hwait : h.cpu.waitrequest (h.hostIf memory io) = true) :
    (h.step memory io).cpu.pcInvalid = h.cpu.pcInvalid ∧
      (h.step memory io).cpu.ex = h.cpu.ex := by
  obtain ⟨hex, hmem, _⟩ := KyogenRVCpu.stages_of_wait hwait
  refine ⟨?_, hex⟩
  rw [step_cpu, KyogenRVCpu.pcInvalid, KyogenRVCpu.instKillBranch, hex, hmem,
    KyogenRVCpu.pcInvalid, KyogenRVCpu.instKillBranch]

theorem since_step (hboot : h.cpu.BootInv) (ho : h.Orderly memory io)
    (hsince : ∀ since ∈ h.since, h.Since since) :
    ∀ since ∈ (h.step memory io).since, (h.step memory io).Since since := by
  intro since hmem
  rw [step_since] at hmem
  cases hvalid : h.cpu.pcInvalid with
  | true =>
      rw [hvalid, if_pos rfl] at hmem
      obtain ⟨earlier, hearlier, rfl⟩ := Option.mem_map.mp hmem
      obtain ⟨hsuffix, hheld, hhead⟩ := hsince earlier hearlier
      have hne : earlier ≠ [] := fun hnil =>
        absurd (hvalid.symm.trans (hheld hnil).1) (by decide)
      obtain ⟨c, rest, rfl⟩ := List.exists_cons_of_ne_nil hne
      refine ⟨?_, fun hnil => absurd hnil (by simp), fun hharmless => ?_⟩
      · rw [step_log]
        exact List.suffix_append_self_iff.mpr hsuffix
      · rw [validPc_step, hvalid, if_pos rfl]
        exact hhead fun d hd => hharmless d (List.mem_append_left _ hd)
  | false =>
      rw [hvalid, if_neg Bool.false_ne_true] at hmem
      obtain rfl : h.commits memory io = since := Option.some.inj hmem
      have hvalidPc : (h.step memory io).cpu.csr.validPc = Csr.clearLow2 h.cpu.ex.pc := by
        rw [validPc_step, hvalid, if_neg Bool.false_ne_true]
      refine ⟨by rw [step_log]; exact List.suffix_append _ _, fun hnil => ?_, fun hharmless => ?_⟩
      · -- the instruction of `valid_pc` waits
        have hwait : h.cpu.waitrequest (h.hostIf memory io) = true := by
          by_contra hwait
          rw [Bool.not_eq_true] at hwait
          obtain ⟨c, hcommits, _⟩ := commits_of_valid hboot hvalid hwait
          exact absurd (hcommits.symm.trans hnil) (by simp)
        obtain ⟨hsame, hex⟩ := pcInvalid_of_wait hwait
        refine ⟨hsame.trans hvalid, ?_⟩
        rw [hvalidPc, hex]
        exact aligned_of_not_expt (ho.expt_of_wait hwait)
      · rw [hvalidPc]
        cases hwait : h.cpu.waitrequest (h.hostIf memory io) with
        | true =>
            rw [commits_of_wait hwait (ho.expt_of_wait hwait)]
            simp
        | false =>
            obtain ⟨c, hcommits, hpc⟩ := commits_of_valid hboot hvalid hwait
            rw [hcommits] at hharmless ⊢
            rintro d hd
            obtain rfl : c = d := Option.some.inj hd
            exact hpc (hharmless c (List.mem_singleton_self c))

/-! ## Where the log splits -/

theorem inOrder_concat {log : List Commit} {c : Commit} {stop : Word}
    (horder : InOrder memory origin (log ++ [c]) stop) :
    (∃ pc, InOrder memory origin log pc ∧ Leads memory pc c.pc) ∧ stop = c.next := by
  generalize hlog : log ++ [c] = all at horder
  cases horder with
  | nil => exact absurd hlog (by simp)
  | snoc horder hnext =>
      obtain ⟨rfl, hc⟩ := List.append_inj' hlog rfl
      obtain rfl : c = _ := List.head_eq_of_cons_eq hc
      exact ⟨⟨_, horder, hnext.leads⟩, rfl⟩

/-- What precedes an entry is in order up to its pc. -/
theorem inOrder_split {before after : List Commit} {c : Commit} {stop : Word}
    (horder : InOrder memory origin (before ++ c :: after) stop) :
    ∃ pc, InOrder memory origin before pc ∧ Leads memory pc c.pc := by
  induction after using List.reverseRecOn generalizing stop with
  | nil => exact (inOrder_concat horder).1
  | append_singleton after d ih =>
      rw [← List.cons_append, ← List.append_assoc] at horder
      obtain ⟨⟨pc, horder', _⟩, _⟩ := inOrder_concat horder
      exact ih horder'

/-- Harmless entries write nothing. -/
theorem filter_of_harmless {log : List Commit} (hlog : ∀ c ∈ log, c.Harmless) :
    log.filter Commit.writesCsr = [] ∧ log.filter Commit.stores = [] ∧
      log.filter Commit.writesReg = [] := by
  refine ⟨?_, ?_, ?_⟩ <;> rw [List.filter_eq_nil_iff] <;> intro c hc <;>
    obtain ⟨_, _, hreg, hstore, hcsr⟩ := hlog c hc
  · rw [Commit.writesCsr, hcsr]
    simp
  · rw [Commit.stores, beq_eq_false_iff_ne.mpr hstore, Bool.and_false]
    exact Bool.false_ne_true
  · rw [Commit.writesReg]
    rcases hreg with hreg | hreg
    · rw [hreg, Bool.and_false, Bool.false_and]
      exact Bool.false_ne_true
    · rw [hreg, bne_self_eq_false, Bool.and_false]
      exact Bool.false_ne_true

/-- Entries that write nothing can be left out. -/
theorem Wrote.of_append {before after : List Commit} (hwrote : h.Wrote (before ++ after))
    (hafter : after.filter Commit.writesCsr = [] ∧ after.filter Commit.stores = [] ∧
      after.filter Commit.writesReg = []) : h.Wrote before where
  csrs := by rw [hwrote.csrs, List.filter_append, hafter.1, List.append_nil]
  stores := by rw [hwrote.stores, List.filter_append, hafter.2.1, List.append_nil]
  regs := by rw [hwrote.regs, List.filter_append, hafter.2.2, List.append_nil]

theorem precise_of_inTime (hh : h.Ordered memory origin) (ho : h.Orderly memory io)
    (hsince : ∀ since ∈ h.since, h.Since since) (htime : h.ArrivesInTime) :
    h.Precise memory origin io := by
  rintro ⟨hrec, hint⟩
  obtain ⟨since, hmem, hharmless⟩ := htime hint
  obtain ⟨⟨before, hlog⟩, hheld, hhead⟩ := hsince since hmem
  obtain ⟨n, hfollows⟩ := hh.follows
  have hwait := ho.moving hrec.2
  have hkill : h.cpu.instKill (h.hostIf memory io) = true := by
    rw [KyogenRVCpu.instKill, hrec.2, Bool.or_true]
  have hreq := (guards_of_kill hfollows.delivers.boot ho hkill hwait).1
  have hmepc : (h.step memory io).cpu.csr.mepc = h.cpu.csr.validPc := by
    rw [step_cpu, KyogenRVCpu.csr_of_recorded hrec]
    simp [Csr.trap, Csr.trapMepc, hint]
  refine ⟨⟨before, since, hlog.symm, ?_, ?_, ?_⟩,
    KyogenRVCpu.redirect_of_recorded ho.halt hrec hwait hreq⟩
  · rw [hmepc]
    have horder := hfollows.order
    cases since with
    | nil =>
        -- the instruction of `valid_pc` is still in EX
        obtain ⟨hvalid, hpc⟩ := hheld rfl
        obtain ⟨hbranch, hslot⟩ := slot_of_valid hvalid
        rw [List.append_nil] at hlog
        rw [hlog, hpc]
        exact ⟨h.resume, horder, hfollows.leads_ex hbranch hslot⟩
    | cons c after =>
        rw [← hlog] at horder
        rw [← hhead hharmless c rfl]
        exact inOrder_split horder
  · have hwrote := (ordered_step hh ho).wrote
    rw [step_log, ← hlog] at hwrote
    exact (hwrote.of_append (filter_of_trap (commits_of_instKill hkill))).of_append
      (filter_of_harmless hharmless)
  · intro c hc
    obtain ⟨hevent, _, _, _, hcsr⟩ := hharmless c hc
    exact ⟨hevent, hcsr⟩

/-- Behind an instruction that has its register written, the only place to split is
the end. -/
theorem Splits.leads {log before after : List Commit} {c : Commit}
    (hsplits : h.Splits memory origin (log ++ [c]) before after) (hwrote : h.Wrote (log ++ [c]))
    (hc : c.writesReg = true) : Leads memory c.next h.cpu.csr.mepc := by
  obtain ⟨hlog, ⟨pc, horder, hlead⟩, hbefore, _⟩ := hsplits
  have hnone : after.filter Commit.writesReg = [] := by
    have hregs := hbefore.regs.symm.trans hwrote.regs
    rw [hlog, List.filter_append, List.map_append] at hregs
    exact List.map_eq_nil_iff.mp (List.self_eq_append_right.mp hregs)
  rcases List.eq_nil_or_concat' after with rfl | ⟨rest, last, rfl⟩
  · rw [List.append_nil] at hlog
    rw [← hlog] at horder
    rw [← (inOrder_concat horder).2]
    exact hlead
  · rw [← List.append_assoc] at hlog
    obtain ⟨_, hlast⟩ := List.append_inj' hlog rfl
    obtain rfl : c = last := List.head_eq_of_cons_eq hlast
    rw [List.filter_append, List.append_eq_nil_iff, List.filter_cons_of_pos hc] at hnone
    exact absurd hnone.2 (by simp)

end Step

/-! ## Runs -/

/-- In every orderly run from release in which interrupts arrive in time, every
interrupt taken is precise. -/
theorem interrupt_precise {memory : Word → Word} {t : FetchTrace} {inputs : List HostIf}
    (ht : t.Released memory)
    (hrun : Machine.Along (step memory) (fun h io => h.Orderly memory io ∧ h.ArrivesInTime)
      (start t) inputs) :
    Machine.Along (step memory) (Precise memory t.port.cpu.pcCntr) (start t) inputs := by
  refine Machine.along_of_invariant (I := fun h => h.Ordered memory t.port.cpu.pcCntr ∧
    ∀ since ∈ h.since, h.Since since) ?_ ?_ ⟨ordered_start ht, nofun⟩ hrun
  · rintro h io ⟨hh, hsince⟩ ⟨ho, _⟩
    obtain ⟨_, hfollows⟩ := hh.follows
    exact ⟨ordered_step hh ho, since_step hfollows.delivers.boot ho hsince⟩
  · rintro h io ⟨hh, hsince⟩ ⟨ho, htime⟩
    exact precise_of_inTime hh ho hsince htime

/-- `addi x1, x0, -1` and `csrrw x0, mie, x1` in front of `addi x2, x2, 1`. -/
def enableAddi (addr : Word) : Word :=
  if addr = 0 then 0xfff00093 else if addr = 4 then 0x30409073 else 0x00110113

/-- The interrupt pin is high for one cycle, and in the next one the data port may
wait. -/
def pulse (wait : Bool) (cycle : ℕ) : HostIf :=
  { FetchTrace.answering (wait && cycle == 19) with wInterruptSig := cycle == 18 }

/-- An addition is held in EX when the interrupt becomes visible. -/
theorem interrupt_precise_held :
    Machine.Along (step enableAddi) (Precise enableAddi 0) (start FetchTrace.resetTrace)
      ((List.range 24).map (pulse true)) :=
  interrupt_precise (FetchTrace.released_resetTrace _) (by unfold ArrivesInTime; decide +kernel)

/-- Without that wait `mepc` is the pc of an addition in MEM, which has its result
written and is executed again on return. -/
theorem interrupt_repeats_addi :
    ¬∀ (memory : Word → Word) (t : FetchTrace) (inputs : List HostIf), t.Released memory →
      Machine.Along (step memory) (fun _ io => io.halt = false) (start t) inputs →
      Machine.Along (step memory) (Precise memory t.port.cpu.pcCntr) (start t) inputs := by
  intro h
  have hprecise := h enableAddi FetchTrace.resetTrace
    ((List.range 20).map (pulse false) ++ [pulse false 20])
    (FetchTrace.released_resetTrace _) (by decide)
  obtain ⟨⟨before, after, hsplits⟩, _⟩ := (Machine.along_append.mp hprecise).2.1
    (by unfold InterruptTaken KyogenRVCpu.Recorded; decide +kernel)
  have hlog : (Machine.run (step enableAddi) (start FetchTrace.resetTrace)
      ((List.range 20).map (pulse false))).log =
        [⟨0, 0xfff00093, .executed, 4⟩, ⟨4, 0x30409073, .executed, 8⟩,
          ⟨8, 0x00110113, .executed, 12⟩, ⟨12, 0x00110113, .executed, 16⟩] ++
        [⟨16, 0x00110113, .executed, 20⟩] := by
    decide +kernel
  rw [hlog] at hsplits
  have hlead := hsplits.leads (by constructor <;> decide +kernel) rfl
  revert hlead
  decide +kernel

end Recorder

end KyogenRV
