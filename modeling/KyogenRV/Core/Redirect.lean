import KyogenRV.Core.Kill

/-!
# Control transfers

The redirect of the fetch and the flush of ID happen only while `imem_req` is
up, and the redirect only once the start-up delay is over.  The request is up
whenever a transfer is in MEM, unless the pipeline waited with the transfer in
MEM and a load or store in EX: that cycle drops the request, and the transfer
later leaves MEM without effect.  The delay runs again after every halt, with
whatever the pipeline holds by then.
-/

namespace KyogenRV

open ScalarOpConstants MemoryOpConstants

namespace KyogenRVCpu

/-- Reset, followed by any number of cycles in halt. -/
def Released (s : KyogenRVCpu) : Prop :=
  ∃ s₀ loads, IsReset s₀ ∧ (∀ io ∈ loads, io.halt = true) ∧ Machine.run step s₀ loads = s

/-! ## Start-up -/

/-- Until the start-up delay is over nothing is fetched and the pipeline is
empty; afterwards the fetch signal is up for good. -/
structure BootInv (s : KyogenRVCpu) : Prop where
  readSig : s.imemReadSig = true → s.wReq = false
  counting : s.delayStall ≠ 0 →
    s.imemReadSig = true ∧ s.imemReadSigFetch = true ∧ s.imemReadSigKill = true
  idle : s.delayStall ≠ 7 →
    s.imemReq = false ∧ s.ex = .bubble ∧ s.mem.ctrl = nopCtrl ∧ s.csr.meie = false

theorem bootInv_reset {s : KyogenRVCpu} (hs : s.IsReset) : s.BootInv := by
  obtain ⟨_, _, _, _, _, _, _, rfl⟩ := hs
  exact ⟨fun h => Bool.noConfusion h, fun h => absurd rfl h, fun _ => ⟨rfl, rfl, rfl, rfl⟩⟩

section Boot

variable {s : KyogenRVCpu} {io : HostIf}

theorem instKillBranch_of_nop (hmem : s.mem.ctrl = nopCtrl) : s.instKillBranch = false := by
  simp [instKillBranch, hmem, nop_noTransfer]

theorem expt_of_bubble (io : HostIf) (hex : s.ex = .bubble)
    (hint : s.csr.isExtInt = false) :
    s.expt io = false := by
  have hbubble : ExStage.bubble.csrCmd = CSR.n ∧ ExStage.bubble.ctrl.legal = true ∧
      ExStage.bubble.jCheck = false ∧ Csr.misaligned ExStage.bubble.pc = false ∧
      ExStage.bubble.ctrl.memWr = mX := by decide
  obtain ⟨hcmd, hlegal, hj, hpc, hacc⟩ := hbubble
  simp [expt, Csr.expt, Csr.isEcall, Csr.isEbreak, Csr.privInst, Csr.isIllegal,
    Csr.iaddrInvalidJ, Csr.iaddrInvalidB, Csr.laddrInvalid, Csr.saddrInvalid, csrPorts, hex, hint,
    hcmd, hlegal, hj, hpc, hacc]

/-- During the start-up delay nothing is killed and ID is held. -/
theorem BootInv.quiet (io : HostIf) (hs : s.BootInv) (hdelay : s.delayStall ≠ 7) :
    s.instKill io = false ∧ s.stall io = true := by
  obtain ⟨_, hex, hmem, hmeie⟩ := hs.idle hdelay
  have hkill : s.instKill io = false := by
    rw [instKill, instKillBranch_of_nop hmem, expt_of_bubble io hex (by simp [Csr.isExtInt, hmeie]),
      Bool.or_false]
  have hwait : (s.delayStall != 7) = true := by simpa using hdelay
  exact ⟨hkill, by rw [stall, hwait, Bool.or_true]⟩

theorem BootInv.delayStall_of_kill (hs : s.BootInv) (hkill : s.instKill io = true) :
    s.delayStall = 7 := by
  by_contra hdelay
  rw [(hs.quiet io hdelay).1] at hkill
  exact absurd hkill Bool.false_ne_true

theorem BootInv.stall_of_kill (hs : s.BootInv) (hkill : s.instKill io = true) :
    s.stall io = false := by
  rw [KyogenRVCpu.stall_of_kill hkill, hs.delayStall_of_kill hkill]
  rfl

/-- A kill finds the fetch signal up, and so does an edge at which ID is not held. -/
theorem BootInv.readSigKill (hs : s.BootInv) (hkill : s.instKill io = true) :
    s.imemReadSigKill = true := by
  have hdelay := hs.delayStall_of_kill hkill
  exact (hs.counting (by rw [hdelay]; decide)).2.2

theorem BootInv.readSigFetch (hs : s.BootInv) (hstall : s.stall io = false) :
    s.imemReadSigFetch = true := by
  have hdelay : s.delayStall = 7 := by
    by_contra hdelay
    rw [(hs.quiet io hdelay).2] at hstall
    exact absurd hstall (by decide)
  exact (hs.counting (by rw [hdelay]; decide)).2.1

/-- Before the delay is over EX and MEM stay empty and no request is made. -/
theorem BootInv.idle_step (hs : s.BootInv) (hdelay : s.delayStall ≠ 7) :
    (s.step io).imemReq = false ∧ (s.step io).ex = .bubble ∧
      (s.step io).mem.ctrl = nopCtrl ∧ (s.step io).csr.meie = false := by
  obtain ⟨hreq, hex, hmem, hmeie⟩ := hs.idle hdelay
  obtain ⟨hkill, hstall⟩ := hs.quiet io hdelay
  have hhold : s.holdIssue io = true := by rw [holdIssue, hstall]; rfl
  have hstages : (s.step io).ex = .bubble ∧ (s.step io).mem.ctrl = nopCtrl := by
    cases hwait : s.waitrequest io with
    | true =>
        obtain ⟨hex', hmem', _⟩ := stages_of_wait hwait
        rw [hex', hmem']
        exact ⟨hex, hmem⟩
    | false =>
        obtain ⟨hex', hmem', _⟩ := stages_of_move hwait hkill
        rw [hex', hmem', hhold, memIssue, hex]
        exact ⟨rfl, rfl⟩
  refine ⟨?_, hstages.1, hstages.2, ?_⟩
  · simp [ifStage, hkill, hstall, hreq]
  · rw [step_csr, hstall]
    exact hmeie

theorem bootInv_step (hs : s.BootInv) (io : HostIf)
    (hhalt : io.halt = false ∨ s.wReq = true) : (s.step io).BootInv where
  readSig := by
    intro h
    simp only [step_imemReadSig, Bool.not_eq_true'] at h
    simpa [h] using hhalt
  counting := by
    intro hdelay
    have hsig : s.imemReadSig = true := by
      by_contra hsig
      simp [delayStallNext, hsig] at hdelay
    simp [hsig, hs.readSig hsig]
  idle := by
    intro hdelay
    refine hs.idle_step fun hseven => ?_
    have hsig := (hs.counting (by rw [hseven]; decide)).1
    simp [delayStallNext, hsig, hseven] at hdelay

end Boot

/-- While in halt after reset the fetch signal stays down. -/
structure HaltInv (s : KyogenRVCpu) : Prop where
  boot : s.BootInv
  wReq : s.wReq = true
  readSig : s.imemReadSig = false
  delay : s.delayStall = 0

theorem haltInv_step {s : KyogenRVCpu} {io : HostIf} (hs : s.HaltInv)
    (hhalt : io.halt = true) : (s.step io).HaltInv where
  boot := bootInv_step hs.boot io (Or.inr hs.wReq)
  wReq := by simp [hhalt]
  readSig := by simp [hs.wReq]
  delay := by simp [delayStallNext, hs.readSig]

theorem Released.haltInv {s : KyogenRVCpu} (hs : s.Released) : s.HaltInv := by
  obtain ⟨s₀, loads, hs₀, hhalt, rfl⟩ := hs
  have hinv : s₀.HaltInv := by
    refine ⟨bootInv_reset hs₀, ?_, ?_, ?_⟩ <;> obtain ⟨_, _, _, _, _, _, _, rfl⟩ := hs₀ <;> rfl
  exact Machine.run_invariant (fun _ _ => haltInv_step) hinv (Machine.along_of_mem hhalt)

/-! ## The fetch request behind a transfer -/

/-- A started delay counter means that the fetch signal has been up, whatever
the halt pin has done. -/
def Signalled (s : KyogenRVCpu) : Prop :=
  s.delayStall ≠ 0 → s.imemReadSigFetch = true ∧ s.imemReadSigKill = true

/-- A transfer in EX has no data access around it and the fetch request is up;
a taken transfer in MEM has the request up. -/
structure TransferInv (s : KyogenRVCpu) : Prop where
  inEx : s.ex.ctrl.brType ≠ brN → s.imemReq = true ∧ s.mem.ctrl.memWr = mX
  inMem : s.instKillBranch = true → s.imemReq = true

/-- The pipeline does not wait with a taken transfer in MEM and a load or store
in EX. -/
def NoAccessBehindWaiting (s : KyogenRVCpu) (io : HostIf) : Prop :=
  ¬(s.waitrequest io = true ∧ s.instKillBranch = true ∧ s.ex.ctrl.memWr ≠ mX)

/-- A taken transfer leaves MEM at this edge. -/
def TransferLeaves (s : KyogenRVCpu) (io : HostIf) : Prop :=
  io.halt = false ∧ s.instKillBranch = true ∧ s.expt io = false ∧ s.waitrequest io = false

/-- A transfer that leaves MEM redirects the fetch to its target and empties
ID, EX and MEM. -/
def TransferTaken (s : KyogenRVCpu) (io : HostIf) : Prop :=
  s.TransferLeaves io →
    (s.step io).pcCntr = s.transferTarget ∧ (s.step io).id = .bubble ∧
      (s.step io).ex = .bubble ∧ (s.step io).mem = .bubble

/-- No access drops the request behind a waiting transfer, and no transfer
leaves MEM during the start-up delay. -/
def TransferInTime (s : KyogenRVCpu) (io : HostIf) : Prop :=
  s.NoAccessBehindWaiting io ∧ (s.TransferLeaves io → s.delayStall = 7)

section Transfer

variable {s : KyogenRVCpu} {io : HostIf}

/-- No instruction is both a transfer and a data access. -/
theorem memWr_of_brType {ctrl : IntCtrlSigs} {regWaddr : BitVec 5}
    (hctrl : DecodedFrom ctrl regWaddr) (hbr : ctrl.brType ≠ brN) : ctrl.memWr = mX := by
  obtain ⟨inst, rfl, _⟩ := hctrl
  exact idDecode_of_ctrlRows (P := fun ctrl => ctrl.brType ≠ brN → ctrl.memWr = mX)
    (by decide) inst hbr

theorem brType_of_instKillBranch (hkill : s.instKillBranch = true) :
    s.mem.ctrl.brType ≠ brN := by
  intro hbr
  simp [instKillBranch, hbr] at hkill

theorem BootInv.signalled (hs : s.BootInv) : s.Signalled := fun hdelay =>
  (hs.counting hdelay).2

theorem signalled_step (s : KyogenRVCpu) (io : HostIf) : (s.step io).Signalled := by
  intro hdelay
  have hsig : s.imemReadSig = true := by
    by_contra hsig
    simp [delayStallNext, hsig] at hdelay
  exact ⟨hsig, hsig⟩

theorem Reachable.signalled (hs : s.Reachable) : s.Signalled := by
  refine Machine.Reachable.invariant (fun _ hreset => ?_) (fun s io _ => signalled_step s io) hs
  obtain ⟨_, _, _, _, _, _, _, rfl⟩ := hreset
  exact fun hdelay => absurd rfl hdelay

/-- ID issues only after the start-up delay. -/
theorem delayStall_of_stall (hstall : s.stall io = false) : s.delayStall = 7 := by
  simp only [stall, Bool.or_eq_false_iff, bne_eq_false_iff_eq] at hstall
  exact hstall.2

/-- With neither an access in EX or MEM nor a kill the request is kept, and it
is raised when the fetch advances. -/
theorem imemReq_kept (hreq : s.imemReq = true) (hsig : s.Signalled)
    (hex : s.ex.ctrl.memWr = mX) (hmem : s.mem.ctrl.memWr = mX)
    (hkill : s.waitrequest io = true ∨ s.instKill io = false) :
    (s.step io).imemReq = true := by
  have hpipe : s.loadstoreInPipe = false := by simp [loadstoreInPipe, hex, hmem]
  simp only [step_imemReq, ifStage, hpipe, Bool.false_eq_true, if_false]
  split_ifs with hgo hredirect
  · simp only [Bool.and_eq_true, Bool.not_eq_true'] at hgo
    exact (hsig (by rw [delayStall_of_stall hgo.1.1.1]; decide)).1
  · simp only [Bool.and_eq_true, Bool.not_eq_true'] at hredirect
    obtain hwait | hnone := hkill
    · exact absurd (hwait.symm.trans hredirect.2) (by decide)
    · exact absurd (hnone.symm.trans hredirect.1) (by decide)
  · exact hreq

/-- A transfer issues only when no access is in EX or MEM. -/
theorem noAccess_of_issue (hstall : s.stall io = false) (hkill : s.instKill io = false)
    (hbr : s.idCtrl.brType ≠ brN) : s.ex.ctrl.memWr = mX ∧ s.mem.ctrl.memWr = mX := by
  simp only [stall, hkill, Bool.not_false, Bool.and_true, Bool.or_eq_false_iff,
    Bool.and_eq_false_iff, bne_eq_false_iff_eq] at hstall
  exact hstall.1.2.resolve_right hbr

/-- The request stays up with a transfer in EX, whatever is in MEM. -/
theorem inEx_step
    (hs : s.ex.ctrl.brType ≠ brN → s.imemReq = true ∧ s.mem.ctrl.memWr = mX)
    (hsig : s.Signalled) (hco : s.Coherent) (hbr : (s.step io).ex.ctrl.brType ≠ brN) :
    (s.step io).imemReq = true ∧ (s.step io).mem.ctrl.memWr = mX := by
  have hbubble : ExStage.bubble.ctrl.brType = brN := nop_noTransfer
  cases s.stageStep io with
  | held hwait hex hmem _ =>
      rw [hex] at hbr
      obtain ⟨hreq, hacc⟩ := hs hbr
      rw [hmem]
      exact ⟨imemReq_kept hreq hsig (memWr_of_brType hco.ex.decodedFrom hbr) hacc (Or.inl hwait),
        hacc⟩
  | killed _ _ hex _ _ | drained _ _ _ hex _ _ =>
      rw [hex] at hbr
      exact absurd hbubble hbr
  | issued hwait hkill hhold hex hmem _ =>
      rw [hex] at hbr
      simp only [holdIssue, Bool.or_eq_false_iff] at hhold
      obtain ⟨⟨hstall, _⟩, _⟩ := hhold
      obtain ⟨hexAcc, hmemAcc⟩ := noAccess_of_issue hstall hkill hbr
      refine ⟨?_, by rw [hmem]; exact hexAcc⟩
      have hfetch := (hsig (by rw [delayStall_of_stall hstall]; decide)).1
      simp [ifStage, hstall, hkill, hwait, loadstoreInPipe, hexAcc, hmemAcc, hfetch]

theorem transferInv_step (hs : s.TransferInv) (hsig : s.Signalled) (hco : s.Coherent)
    (hcond : s.NoAccessBehindWaiting io) : (s.step io).TransferInv := by
  refine ⟨fun hbr => inEx_step hs.inEx hsig hco hbr, fun hkill => ?_⟩
  -- a transfer moving from EX to MEM keeps the request
  have hmove (hnone : s.instKill io = false) (hmem : (s.step io).mem = s.memIssue io) :
      (s.step io).imemReq = true := by
    have hbr : s.ex.ctrl.brType ≠ brN := by
      have hbr := brType_of_instKillBranch hkill
      rwa [hmem] at hbr
    obtain ⟨hreq, hacc⟩ := hs.inEx hbr
    exact imemReq_kept hreq hsig (memWr_of_brType hco.ex.decodedFrom hbr) hacc (Or.inr hnone)
  cases s.stageStep io with
  | held hwait _ hmem _ =>
      have hkill' : s.instKillBranch = true := by
        simpa only [instKillBranch, hmem] using hkill
      have hacc := memWr_of_brType hco.mem (brType_of_instKillBranch hkill')
      have hexAcc : s.ex.ctrl.memWr = mX := by
        by_contra hne
        exact hcond ⟨hwait, hkill', hne⟩
      exact imemReq_kept (hs.inMem hkill') hsig hexAcc hacc (Or.inl hwait)
  | killed _ _ _ hmem _ =>
      have hnop := instKillBranch_of_nop (s := s.step io) (by rw [hmem]; rfl)
      rw [hnop] at hkill
      exact absurd hkill Bool.false_ne_true
  | drained _ hnone _ _ hmem _ | issued _ hnone _ _ hmem _ => exact hmove hnone hmem

/-- With the request up, a kill without a wait empties ID. -/
theorem id_of_kill (hkill : s.instKill io = true) (hwait : s.waitrequest io = false)
    (hreq : s.imemReq = true) : (s.step io).id = .bubble := by
  simp [idStage, hkill, hwait, hreq]

theorem transferInv_reset (hs : s.IsReset) : s.TransferInv := by
  obtain ⟨_, _, _, _, _, _, _, rfl⟩ := hs
  refine ⟨fun hbr => absurd nop_noTransfer hbr, fun hkill => ?_⟩
  rw [instKillBranch_of_nop rfl] at hkill
  exact absurd hkill Bool.false_ne_true

theorem transferTaken_of_inv (hs : s.TransferInv)
    (hstarted : s.TransferLeaves io → s.delayStall = 7) : s.TransferTaken io := by
  intro hleaves
  have hdelay := hstarted hleaves
  obtain ⟨hhalt, hbranch, hexpt, hwait⟩ := hleaves
  have hkill : s.instKill io = true := by rw [instKill, hbranch, Bool.true_or]
  have hstall : s.stall io = false := by
    rw [stall_of_kill hkill, hdelay]
    rfl
  have hreq := hs.inMem hbranch
  obtain ⟨hex, hmem, _⟩ := stages_of_kill hwait hkill
  refine ⟨?_, id_of_kill hkill hwait hreq, hex, hmem⟩
  have hpc := pcCntrNext_of_not_expt hbranch hexpt
  simpa [hhalt, hstall, hwait, hreq] using hpc

/-- Both guards are needed: a transfer that redirects the fetch finds the
request up and the delay over, unless the fetch happens to stand at its target. -/
theorem guards_of_transferTaken (hleaves : s.TransferLeaves io)
    (hpc : s.pcCntr ≠ s.transferTarget) (htaken : s.TransferTaken io) :
    s.delayStall = 7 ∧ s.imemReq = true := by
  obtain ⟨htarget, _⟩ := htaken hleaves
  obtain ⟨hhalt, hbranch, hexpt, hwait⟩ := hleaves
  have hkill : s.instKill io = true := by rw [instKill, hbranch, Bool.true_or]
  have hnext := @pcCntrNext_of_not_expt s io hbranch hexpt
  rw [step_pcCntr, hnext, hhalt, if_neg Bool.false_ne_true] at htarget
  by_contra hguards
  have hclosed : (!s.stall io && !s.waitrequest io && s.imemReq) = false := by
    rw [stall_of_kill hkill, hwait]
    cases hreq : s.imemReq with
    | false => rw [Bool.and_false]
    | true =>
        have hdelay : (s.delayStall != 7) = true := by
          rw [bne_iff_ne]
          exact fun h => hguards ⟨h, hreq⟩
        rw [hdelay]
        rfl
  rw [hclosed, if_neg Bool.false_ne_true] at htarget
  exact hpc htarget

end Transfer

theorem Released.reachable {s : KyogenRVCpu} (hs : s.Released) : s.Reachable := by
  obtain ⟨s₀, loads, hs₀, _, rfl⟩ := hs
  exact ⟨s₀, loads, hs₀, rfl⟩

/-- In every run from reset, whatever the halt pin does, in which the pipeline
never waits with a taken transfer in MEM and a load or store in EX, and no taken
transfer leaves MEM during the start-up delay, every transfer that leaves MEM
redirects the fetch to its target and empties ID, EX and MEM. -/
theorem transfer_taken {s : KyogenRVCpu} {inputs : List HostIf} (hs : s.IsReset)
    (hrun : Machine.Along step TransferInTime s inputs) :
    Machine.Along step TransferTaken s inputs := by
  refine Machine.along_of_invariant (I := fun t => t.Signalled ∧ t.Coherent ∧ t.TransferInv) ?_ ?_
    ⟨Reachable.signalled (.of_init hs), coherent_reset hs, transferInv_reset hs⟩ hrun
  · rintro t io ⟨hsig, hco, hinv⟩ ⟨hcond, _⟩
    exact ⟨signalled_step t io, coherent_step hco io, transferInv_step hinv hsig hco hcond⟩
  · rintro t io ⟨_, _, hinv⟩ ⟨_, hstarted⟩
    exact transferTaken_of_inv hinv hstarted

/-- A jump that moves through the pipeline without waiting. -/
theorem transfer_taken_jal :
    let inputs := List.replicate 11 .idle ++
      [.fetch 0x0080006f, .fetch 0x00000013, .fetch 0x00000013, .fetch 0x00000013]
    Machine.Along step TransferTaken zeroReset inputs :=
  transfer_taken isReset_zeroReset
    (by unfold TransferInTime TransferLeaves NoAccessBehindWaiting; decide)

/-- A jump with a load in EX waits for one cycle in MEM: it leaves without
redirecting the fetch. -/
theorem transfer_lost :
    ¬∀ (s : KyogenRVCpu) (inputs : List HostIf), s.IsReset →
      Machine.Along step TransferTaken s inputs := by
  intro h
  have htaken := h zeroReset (List.replicate 11 .idle ++
      [.fetch 0x0080006f, .fetch 0x00002083, .fetch 0x00000013,
        { HostIf.fetch 0x00000013 with wWaitrequestSig := true }, .fetch 0x00000013])
    isReset_zeroReset
  revert htaken
  unfold TransferTaken TransferLeaves
  decide

end KyogenRVCpu

end KyogenRV
