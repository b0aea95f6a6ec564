import KyogenRV.Core.Forwarding
import KyogenRV.Core.Redirect

/-!
# Trap entry

The CSR module records a trap whenever an exception is present and the hazard
stall is low; the pipeline is flushed only when nothing waits, and the fetch is
redirected only when besides the fetch request is up.  An instruction that
traps finds the request up unless it directly follows a load or store or has
waited, so the three guards agree in every run in which exceptions and
interrupts arrive in time, and each is then recorded exactly once.
-/

namespace KyogenRV

open ScalarOpConstants MemoryOpConstants

namespace KyogenRVCpu

section Trap

variable (s : KyogenRVCpu) (io : HostIf)

/-- The CSR module records a trap at this edge. -/
def Recorded : Prop := s.stall io = false ∧ s.expt io = true

/-- A recorded trap redirects the fetch to `mtvec`, empties ID, EX and MEM, and
pushes the enable stack once: a record at the very next edge is that of an
interrupt that was not pending here. -/
def TrapWhole : Prop :=
  s.Recorded io →
    ((s.step io).pcCntr = s.csr.mtvec ∧ (s.step io).id = .bubble ∧
      (s.step io).ex = .bubble ∧ (s.step io).mem = .bubble) ∧
    ((s.step io).csr.prv1 = s.csr.prv ∧ (s.step io).csr.ie1 = s.csr.ie) ∧
    ∀ io', (s.step io).Recorded io' →
      s.csr.isExtInt = false ∧ (s.step io).csr.isExtInt = true

/-- With an exception present nothing waits and the fetch request is up, and no
further interrupt is on its way behind a pending one. -/
def TrapGuardsAgree : Prop :=
  (s.expt io = true → s.waitrequest io = false ∧ s.imemReq = true) ∧
    (s.csr.isExtInt = true → s.interruptSig = false)

/-- With halt low an exception is recorded in the cycle in which it is present,
and taken as a whole.  The trapping instruction leaves EX at this edge. -/
def TrapTaken : Prop :=
  io.halt = false → (s.expt io = true → s.Recorded io) ∧ s.TrapWhole io

/-- The instruction in EX raises an exception of its own. -/
def raises : Bool :=
  Csr.isEcall (s.csrPorts io) || Csr.isEbreak (s.csrPorts io) || Csr.isIllegal (s.csrPorts io) ||
    Csr.iaddrInvalidJ (s.csrPorts io) || Csr.iaddrInvalidB (s.csrPorts io) ||
    Csr.laddrInvalid (s.csrPorts io) || Csr.saddrInvalid (s.csrPorts io)

/-- No exception meets a wait.  With halt low none meets the start-up delay, none
of an instruction's own comes right behind a load or store, and an interrupt
finds the fetch request up and no other interrupt behind it. -/
def TrapInTime : Prop :=
  (s.expt io = true → s.waitrequest io = false) ∧
    (io.halt = false →
      (s.expt io = true → s.delayStall = 7) ∧
      (s.csr.isExtInt = false → s.raises io = true → s.mem.ctrl.memWr = mX) ∧
      (s.csr.isExtInt = true → s.imemReq = true ∧ s.interruptSig = false))

end Trap

variable {s : KyogenRVCpu} {io : HostIf}

/-- At a recorded trap the CSR module enters the trap. -/
theorem csr_of_recorded (hrec : s.Recorded io) :
    (s.step io).csr = s.csr.trap (s.csrPorts io) (s.csr.tick (s.csrPorts io) false) := by
  have hexpt : s.csr.expt (s.csrPorts io) = true := hrec.2
  rw [step_csr, Csr.next, hrec.1, hexpt]
  rfl

theorem isExtInt_of_recorded (hrec : s.Recorded io) :
    (s.step io).csr.isExtInt = (s.interruptSig && s.csr.meie) := by
  rw [csr_of_recorded hrec]
  rfl

theorem expt_of_isExtInt (hint : s.csr.isExtInt = true) : s.expt io = true := by
  simp [expt, Csr.expt, hint]

/-- With nothing waiting and the fetch request up, a recorded trap redirects
the fetch and empties ID, EX and MEM. -/
theorem redirect_of_recorded (hhalt : io.halt = false) (hrec : s.Recorded io)
    (hwait : s.waitrequest io = false) (hreq : s.imemReq = true) :
    (s.step io).pcCntr = s.csr.mtvec ∧ (s.step io).id = .bubble ∧
      (s.step io).ex = .bubble ∧ (s.step io).mem = .bubble := by
  have hkill : s.instKill io = true := by rw [instKill, hrec.2, Bool.or_true]
  obtain ⟨hex, hmem, _⟩ := stages_of_kill hwait hkill
  refine ⟨?_, id_of_kill hkill hwait hreq, hex, hmem⟩
  simp [pcCntrNext, pcTarget, hhalt, hrec.1, hrec.2, hwait, hreq]

theorem trapWhole_of_guards (hhalt : io.halt = false)
    (hcond : s.TrapGuardsAgree io) : s.TrapWhole io := by
  intro hrec
  obtain ⟨hwait, hreq⟩ := hcond.1 hrec.2
  have hredirect := redirect_of_recorded hhalt hrec hwait hreq
  have hex := hredirect.2.2.1
  refine ⟨hredirect, ?_, ?_⟩
  · rw [csr_of_recorded hrec]
    exact ⟨rfl, rfl⟩
  · intro io' hagain
    have hint : (s.step io).csr.isExtInt = true := by
      by_contra hint
      rw [Bool.not_eq_true] at hint
      have hquiet := expt_of_bubble io' hex hint
      rw [hagain.2] at hquiet
      exact absurd hquiet (by decide)
    refine ⟨?_, hint⟩
    by_contra hpending
    rw [Bool.not_eq_false] at hpending
    rw [isExtInt_of_recorded hrec, hcond.2 hpending, Bool.false_and] at hint
    exact absurd hint Bool.false_ne_true

/-! ## The fetch request at a trap -/

theorem expt_eq (s : KyogenRVCpu) (io : HostIf) :
    s.expt io = (s.csr.isExtInt || s.raises io) := by
  rw [expt, Csr.expt, raises]
  cases s.csr.isExtInt <;> simp

/-- While EX, MEM and WB keep their contents, so does the exception. -/
theorem raises_congr {t : KyogenRVCpu} (hs : s.Coherent) (hready : s.ExReady)
    (hex : t.ex = s.ex) (hmem : t.mem = s.mem) (hwb : t.wb = s.wb) (io io' : HostIf) :
    t.raises io' = s.raises io := by
  have hop1 : t.exOp1 io' = s.exOp1 io := by
    rw [exOp1, exOp1, exRegRs1Bypass, exRegRs1Bypass, hex,
      exRegBypass_congr hs hready hmem hwb io io']
  have hop2 : t.exOp2 io' = s.exOp2 io := by
    rw [exOp2, exOp2, exRegRs2Bypass, exRegRs2Bypass, exImm, exImm, hex,
      exRegBypass_congr hs hready hmem hwb io io']
  have hinvalid : t.pcInvalid = s.pcInvalid := by
    rw [pcInvalid, pcInvalid, instKillBranch, instKillBranch, hex, hmem]
  have hports : t.csrPorts io' = { s.csrPorts io with
      csrIn := t.csrIn io', interruptSig := t.interruptSig } := by
    rw [csrPorts, csrPorts, hop1, hop2, hinvalid, hex]
  rw [raises, raises, hports]
  rfl

/-- An instruction in EX without an access in MEM has the request up, or it has
waited without an exception. -/
def TrapRequest (s : KyogenRVCpu) : Prop :=
  s.ex ≠ .bubble → s.mem.ctrl.memWr = mX → s.imemReq = true ∨ ∀ io, s.raises io = false

theorem trapRequest_reset (hs : s.IsReset) : s.TrapRequest := by
  obtain ⟨_, _, _, _, _, _, _, rfl⟩ := hs
  exact fun hex => absurd rfl hex

theorem trapRequest_step (hs : s.Reachable) (hcond : s.TrapInTime io) :
    (s.step io).TrapRequest := by
  intro hnone hacc
  cases s.stageStep io with
  | held hwait hex hmem hwb =>
      rw [hex] at hnone
      have hready := hs.forwardInv.resolve_left hnone
      have hquiet : s.raises io = false := by
        by_contra hraises
        rw [Bool.not_eq_false] at hraises
        have hmoves := hcond.1 (by rw [expt_eq, hraises, Bool.or_true])
        exact absurd (hwait.symm.trans hmoves) (by decide)
      exact Or.inr fun io' => (raises_congr hs.coherent hready hex hmem hwb io io').trans hquiet
  | killed _ _ hex _ _ | drained _ _ _ hex _ _ => exact absurd hex hnone
  | issued hwait hkill hhold _ hmem _ =>
      -- the fetch advances with the instruction
      rw [hmem] at hacc
      simp only [holdIssue, loadstoreProc, Bool.or_eq_false_iff, bne_eq_false_iff_eq] at hhold
      obtain ⟨⟨hstall, hmemAcc, _⟩, _⟩ := hhold
      have hsig := (hs.signalled (by rw [delayStall_of_stall hstall]; decide)).1
      have hexAcc : s.ex.ctrl.memWr = mX := hacc
      left
      simp [ifStage, hstall, hkill, hwait, loadstoreInPipe, hexAcc, hmemAcc, hsig]

theorem guards_of_inTime (hs : s.TrapRequest) (hhalt : io.halt = false)
    (hcond : s.TrapInTime io) : s.TrapGuardsAgree io := by
  obtain ⟨hmoving, hinTime⟩ := hcond
  obtain ⟨_, halone, hint⟩ := hinTime hhalt
  refine ⟨fun hexpt => ⟨hmoving hexpt, ?_⟩, fun h => (hint h).2⟩
  cases hpending : s.csr.isExtInt with
  | true => exact (hint hpending).1
  | false =>
      have hraises : s.raises io = true := by
        rw [expt_eq, hpending, Bool.false_or] at hexpt
        exact hexpt
      have hex : s.ex ≠ .bubble := by
        intro hbubble
        rw [expt_of_bubble io hbubble hpending] at hexpt
        exact absurd hexpt Bool.false_ne_true
      refine (hs hex (halone hpending hraises)).resolve_right fun hquiet => ?_
      rw [hquiet io] at hraises
      exact absurd hraises Bool.false_ne_true

theorem trapTaken_of_inTime (hs : s.TrapRequest) (hcond : s.TrapInTime io) :
    s.TrapTaken io := by
  intro hhalt
  refine ⟨fun hexpt => ⟨?_, hexpt⟩, trapWhole_of_guards hhalt (guards_of_inTime hs hhalt hcond)⟩
  rw [stall_of_kill (by rw [instKill, hexpt, Bool.or_true]), (hcond.2 hhalt).1 hexpt]
  rfl

/-! ## The guards are needed -/

/-- While an access is in MEM the request is down. -/
theorem Reachable.imemReq_of_access (hs : s.Reachable) (hacc : s.mem.ctrl.memWr ≠ mX) :
    s.imemReq = false := by
  refine Machine.Reachable.invariant (I := fun s => s.mem.ctrl.memWr ≠ mX → s.imemReq = false)
    (fun s hreset => ?_) (fun s io ih hacc => ?_) hs hacc
  · obtain ⟨_, _, _, _, _, _, _, rfl⟩ := hreset
    exact fun _ => rfl
  · have hpipe (hkill : s.waitrequest io = true ∨ s.instKill io = false)
        (h : s.loadstoreInPipe = true) : (s.step io).imemReq = false := by
      rw [step_imemReq, ifStage]
      obtain hwait | hnone := hkill
      · simp [hwait, h]
      · simp [hnone, h]
    cases s.stageStep io with
    | held hwait _ hmem _ =>
        rw [hmem] at hacc
        exact hpipe (Or.inl hwait) (by simpa [loadstoreInPipe] using Or.inr hacc)
    | killed _ _ _ hmem _ =>
        rw [hmem] at hacc
        exact absurd nop_noAccess hacc
    | drained _ hkill _ _ hmem _ | issued _ hkill _ _ hmem _ =>
        rw [hmem] at hacc
        have hex : s.ex.ctrl.memWr ≠ mX := hacc
        exact hpipe (Or.inr hkill) (by simpa [loadstoreInPipe] using Or.inl hex)

/-- Each guard is needed: a recorded trap that is taken as a whole meets them
all, unless the fetch happens to stand at `mtvec`. -/
theorem guards_of_trapWhole (hboot : s.BootInv) (hhalt : io.halt = false)
    (hpc : s.pcCntr ≠ s.csr.mtvec) (hrec : s.Recorded io) (hwhole : s.TrapWhole io) :
    s.TrapGuardsAgree io := by
  obtain ⟨⟨htarget, _⟩, _, honce⟩ := hwhole hrec
  have hguards : s.waitrequest io = false ∧ s.imemReq = true := by
    by_contra hcon
    simp only [step_pcCntr, pcCntrNext, hhalt, hrec.1, Bool.false_eq_true, if_false,
      Bool.not_false, Bool.true_and] at htarget
    rw [if_neg (by simpa using hcon)] at htarget
    exact hpc htarget
  refine ⟨fun _ => hguards, fun hpending => ?_⟩
  by_contra hpin
  rw [Bool.not_eq_false] at hpin
  -- the next pending interrupt is recorded as well
  have hint : (s.step io).csr.isExtInt = true := by
    rw [isExtInt_of_recorded hrec, hpin, Bool.true_and]
    simp only [Csr.isExtInt, Bool.and_eq_true] at hpending
    exact hpending.2
  have hexpt : (s.step io).expt io = true := expt_of_isExtInt hint
  have hstall : (s.step io).stall io = false :=
    (bootInv_step hboot io (Or.inl hhalt)).stall_of_kill (by rw [instKill, hexpt, Bool.or_true])
  rw [(honce io ⟨hstall, hexpt⟩).1] at hpending
  exact absurd hpending Bool.false_ne_true

/-- A cycle that takes its exception as a whole meets the condition, unless the
fetch happens to stand at `mtvec`. -/
theorem inTime_of_trapTaken (hs : s.Reachable) (hboot : s.BootInv) (hhalt : io.halt = false)
    (hpc : s.expt io = true → s.pcCntr ≠ s.csr.mtvec) (htaken : s.TrapTaken io) :
    s.TrapInTime io := by
  obtain ⟨hrec, hwhole⟩ := htaken hhalt
  have hguards (hexpt : s.expt io = true) : s.TrapGuardsAgree io :=
    guards_of_trapWhole hboot hhalt (hpc hexpt) (hrec hexpt) hwhole
  refine ⟨fun hexpt => ((hguards hexpt).1 hexpt).1, fun _ => ⟨fun hexpt => ?_, ?_, ?_⟩⟩
  · exact delayStall_of_stall (hrec hexpt).1
  · intro _ hraises
    have hexpt : s.expt io = true := by rw [expt_eq, hraises, Bool.or_true]
    by_contra hacc
    have hdown := hs.imemReq_of_access hacc
    exact absurd (hdown.symm.trans ((hguards hexpt).1 hexpt).2) Bool.false_ne_true
  · intro hint
    have hexpt : s.expt io = true := expt_of_isExtInt hint
    exact ⟨((hguards hexpt).1 hexpt).2, (hguards hexpt).2 hint⟩

/-! ## Runs -/

variable {inputs : List HostIf}

theorem trapTaken_along (hs : s.Reachable) (hrequest : s.TrapRequest)
    (hrun : Machine.Along step TrapInTime s inputs) : Machine.Along step TrapTaken s inputs := by
  refine Machine.along_of_invariant (I := fun t => t.Reachable ∧ t.TrapRequest) ?_ ?_
    ⟨hs, hrequest⟩ hrun
  · rintro t io ⟨hreach, _⟩ hcond
    exact ⟨hreach.next io, trapRequest_step hreach hcond⟩
  · rintro t io ⟨_, hrequest⟩ hcond
    exact trapTaken_of_inTime hrequest hcond

/-- In a run with halt low in which no exception finds the fetch at `mtvec` the
condition is exact. -/
theorem trapTaken_iff_inTime (hs : s.Released)
    (hrun : Machine.Along step (fun t io => io.halt = false ∧
      (t.expt io = true → t.pcCntr ≠ t.csr.mtvec)) s inputs) :
    Machine.Along step TrapTaken s inputs ↔ Machine.Along step TrapInTime s inputs := by
  have hboot := hs.haltInv.boot
  have hex := (hboot.idle (by rw [hs.haltInv.delay]; decide)).2.1
  refine ⟨fun htaken => ?_, trapTaken_along hs.reachable fun hnone => absurd hex hnone⟩
  refine Machine.along_of_invariant (I := fun t => t.Reachable ∧ t.BootInv) ?_ ?_
    ⟨hs.reachable, hboot⟩ (hrun.and htaken)
  · rintro t io ⟨hreach, hboot⟩ ⟨⟨hhalt, _⟩, _⟩
    exact ⟨hreach.next io, bootInv_step hboot io (Or.inl hhalt)⟩
  · rintro t io ⟨hreach, hboot⟩ ⟨⟨hhalt, hpc⟩, htaken⟩
    exact inTime_of_trapTaken hreach hboot hhalt hpc htaken

/-- In every run from reset, whatever the halt pin does, in which exceptions and
interrupts arrive in time, every exception is recorded and taken as a whole and
once. -/
theorem trap_whole (hs : s.IsReset) (hrun : Machine.Along step TrapInTime s inputs) :
    Machine.Along step TrapTaken s inputs :=
  trapTaken_along (.of_init hs) (trapRequest_reset hs) hrun

/-- An ecall behind a NOP. -/
theorem trap_whole_ecall :
    Machine.Along step TrapTaken zeroReset
      (List.replicate 11 .idle ++
        [.fetch 0x00000013, .fetch 0x00000073, .fetch 0x00000013, .fetch 0x00000013]) :=
  trap_whole isReset_zeroReset (by unfold TrapInTime; decide)

/-- An ecall right behind a load: the trap is recorded, but the fetch goes on
behind it. -/
theorem trap_half_taken :
    ¬∀ (s : KyogenRVCpu) (inputs : List HostIf), s.IsReset →
      Machine.Along step TrapTaken s inputs := by
  intro h
  have hwhole := h zeroReset (List.replicate 11 .idle ++
      [.fetch 0x00002083, .fetch 0x00000073, .fetch 0x00000013, .fetch 0x00000013])
    isReset_zeroReset
  have hpc := (((Machine.along_append.mp hwhole).2.2.2.2.1 rfl).2
    (by unfold Recorded; decide +kernel)).1.1
  revert hpc
  decide +kernel

end KyogenRVCpu

end KyogenRV
