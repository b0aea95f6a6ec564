import KyogenRV.Core.CsrAccess
import KyogenRV.Core.Trap

/-!
# Return from a trap

MRET sends the fetch back to `mepc` and does nothing else: the enable stack that
trap entry pushed is never popped.  The return undoes the entry if `IE` was
clear before it, provided that the fetch request is up when MRET leaves MEM.
-/

namespace KyogenRV

open ScalarOpConstants MemoryOpConstants

namespace Csr

/-- Writes to the other registers keep what the return needs. -/
theorem write_return {addr : BitVec 12} (wdata : Word) (d : Csr)
    (haddr : addr ∉ [CsrAddr.mstatus, CsrAddr.mepc]) :
    (write addr wdata d).mepc = d.mepc ∧ (write addr wdata d).ie = d.ie ∧
      (write addr wdata d).prv = d.prv := by
  simp only [List.mem_cons, List.not_mem_nil, or_false, not_or] at haddr
  refine muxCase_of_forall
    (P := fun c : Csr => c.mepc = d.mepc ∧ c.ie = d.ie ∧ c.prv = d.prv) ⟨rfl, rfl, rfl⟩ ?_
  simp only [List.forall_mem_cons, beq_iff_eq, haddr, false_imp_iff, List.not_mem_nil,
    implies_true, and_self]

end Csr

namespace KyogenRVCpu

section Return

variable (s : KyogenRVCpu) (io : HostIf)

/-- The instruction in EX writes `mstatus` or `mepc`. -/
def WritesReturn : Prop :=
  s.stall io = false ∧ Csr.wen (s.csrPorts io) = true ∧
    s.ex.csrAddr ∈ [CsrAddr.mstatus, CsrAddr.mepc]

/-- A cycle with halt low that neither records a trap nor writes `mstatus` or
`mepc`. -/
def HandlerCycle : Prop := io.halt = false ∧ ¬s.Recorded io ∧ ¬s.WritesReturn io

/-- MRET leaves MEM. -/
def MretLeaves : Prop := s.mem.ctrl.brType = brRet ∧ s.waitrequest io = false

/-- The fetch follows a transfer that leaves MEM, or is at `target` already. -/
def FetchFollows (target : Word) : Prop :=
  s.delayStall = 7 ∧ s.imemReq = true ∨ s.pcCntr = target

/-- The state `t` is back where the trap recorded in `s` was taken. -/
def TrapUndone (t : KyogenRVCpu) : Prop :=
  t.pcCntr = (s.step io).csr.mepc ∧ t.csr.ie = s.csr.ie ∧ t.csr.prv = s.csr.prv

/-- What trap entry leaves for the return. -/
structure EntryKept (mepc : Word) (s : KyogenRVCpu) : Prop where
  mepc : s.csr.mepc = mepc
  ie : s.csr.ie = false
  prv : s.csr.prv = privM

end Return

variable {s t : KyogenRVCpu} {io : HostIf} {mepc : Word}

theorem entryKept_of_recorded (hrec : s.Recorded io) :
    EntryKept (s.step io).csr.mepc (s.step io) := by
  refine ⟨rfl, ?_, ?_⟩ <;> rw [csr_of_recorded hrec] <;> rfl

/-- The step lemma of a handler. -/
theorem entryKept_step (hs : EntryKept mepc s) (hcycle : s.HandlerCycle io) :
    EntryKept mepc (s.step io) := by
  obtain ⟨_, hrec, hwrites⟩ := hcycle
  have hkept : (s.step io).csr.mepc = s.csr.mepc ∧ (s.step io).csr.ie = s.csr.ie ∧
      (s.step io).csr.prv = s.csr.prv := by
    rw [step_csr]
    cases hstall : s.stall io with
    | true => exact ⟨rfl, rfl, rfl⟩
    | false =>
        have hexpt : s.csr.expt (s.csrPorts io) = false := by
          by_contra hexpt
          exact hrec ⟨hstall, Bool.not_eq_false _ |>.mp hexpt⟩
        rw [Csr.next_of_not_expt _ _ hexpt]
        split_ifs with hwen
        · refine Csr.write_return _ _ fun haddr => hwrites ⟨hstall, ?_, haddr⟩
          simpa using hwen
        · exact ⟨rfl, rfl, rfl⟩
  exact ⟨hkept.1.trans hs.mepc, hkept.2.1.trans hs.ie, hkept.2.2.trans hs.prv⟩

/-- Where the fetch is after MRET has left MEM. -/
theorem pcCntr_of_mret (hcycle : t.HandlerCycle io) (hmret : t.MretLeaves io) :
    (t.step io).pcCntr = t.csr.mepc ↔ t.FetchFollows t.csr.mepc := by
  obtain ⟨hhalt, hrec, _⟩ := hcycle
  obtain ⟨hret, hwait⟩ := hmret
  have hbranch : t.instKillBranch = true := by simp [instKillBranch, hret]
  have hstall : t.stall io = (t.delayStall != 7) :=
    stall_of_kill (by rw [instKill, hbranch, Bool.true_or])
  rw [step_pcCntr, pcCntrNext, hhalt, hwait, hstall, if_neg Bool.false_ne_true, FetchFollows,
    Bool.not_false, Bool.and_true]
  by_cases hdelay : t.delayStall = 7
  · have hexpt : t.expt io = false := by
      by_contra hexpt
      exact hrec ⟨by simp [hstall, hdelay], Bool.not_eq_false _ |>.mp hexpt⟩
    have htarget : t.pcTarget io = t.csr.mepc := by simp [pcTarget, hexpt, hret]
    rw [htarget]
    cases t.imemReq <;> simp [hdelay]
  · have hcounting : (t.delayStall != 7) = true := bne_iff_ne.mpr hdelay
    rw [hcounting, Bool.not_true, Bool.false_and, if_neg Bool.false_ne_true]
    exact ⟨Or.inr, fun h => h.resolve_left fun hready => hdelay hready.1⟩

/-- From every reachable state, after a trap and a handler that takes no trap,
writes neither `mstatus` nor `mepc` and ends in MRET, the trap is undone exactly
if `IE` was clear before it and the fetch follows the MRET. -/
theorem mret_undoes_trap_iff {entry last : HostIf} {handler : List HostIf} (hs : s.Reachable)
    (hentry : s.Recorded entry)
    (hrun : Machine.Along step HandlerCycle (s.step entry) (handler ++ [last]))
    (hmret : (Machine.run step (s.step entry) handler).MretLeaves last) :
    s.TrapUndone entry (Machine.run step (s.step entry) (handler ++ [last])) ↔
      s.csr.ie = false ∧
        (Machine.run step (s.step entry) handler).FetchFollows (s.step entry).csr.mepc := by
  obtain ⟨hhandler, hlast, _⟩ := Machine.along_append.mp hrun
  have hkept : EntryKept (s.step entry).csr.mepc (Machine.run step (s.step entry) handler) :=
    Machine.run_invariant (fun _ _ h hcycle => entryKept_step h hcycle)
      (entryKept_of_recorded hentry) hhandler
  have hreturned := entryKept_step hkept hlast
  have hpc := pcCntr_of_mret hlast hmret
  rw [hkept.mepc] at hpc
  rw [Machine.run_concat, TrapUndone, hpc, hreturned.ie, hreturned.prv,
    Csr.prv_of_reachable hs.csr]
  constructor
  · rintro ⟨hfollows, hie, _⟩
    exact ⟨hie.symm, hfollows⟩
  · rintro ⟨hie, hfollows⟩
    exact ⟨hfollows, hie.symm, rfl⟩

/-- An ecall in EX with `mtvec` at 0x40, behind the instruction `inst`. -/
def ecallBehind (inst : Word) : KyogenRVCpu :=
  sample [.fetch 0x04000093, .fetch 0x30509073, .fetch inst, .fetch 0x00000073,
    .fetch 0x00000013]

/-- The handler is a single MRET. -/
def mretHandler : List HostIf :=
  [.idle, .fetch 0x30200073, .fetch 0x00000013, .fetch 0x00000013]

/-- An ecall with `IE` clear. -/
theorem mret_undoes_trap_nop :
    (ecallBehind 0x00000013).TrapUndone .idle
      (Machine.run step ((ecallBehind 0x00000013).step .idle) (mretHandler ++ [.idle])) :=
  (mret_undoes_trap_iff (reachable_sample _) (by unfold Recorded; decide +kernel)
      (by unfold HandlerCycle Recorded WritesReturn; decide +kernel)
      (by unfold MretLeaves; decide +kernel)).mpr (by unfold FetchFollows; decide +kernel)

/-- An ecall behind a CSRRSI that sets `IE`: MRET leaves it clear. -/
theorem mret_leaves_ie :
    ¬∀ (s : KyogenRVCpu) (entry last : HostIf) (handler : List HostIf), s.Reachable →
      s.Recorded entry →
      Machine.Along step HandlerCycle (s.step entry) (handler ++ [last]) →
      (Machine.run step (s.step entry) handler).MretLeaves last →
      s.TrapUndone entry (Machine.run step (s.step entry) (handler ++ [last])) := by
  intro h
  have hundone := h (ecallBehind 0x3000e073) .idle .idle mretHandler (reachable_sample _)
    (by unfold Recorded; decide +kernel)
    (by unfold HandlerCycle Recorded WritesReturn; decide +kernel)
    (by unfold MretLeaves; decide +kernel)
  have hie := hundone.2.1
  revert hie
  decide +kernel

end KyogenRVCpu

end KyogenRV
