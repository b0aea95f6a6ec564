import KyogenRV.Core.Pipeline

/-!
# Killed instructions

While a taken branch, a jump or an mret is in MEM, the instruction in EX is on
the wrong path.  Of the exception sources only the illegal-instruction check
looks at the kill, and neither the software write nor the instret counter does:
the wrong-path instruction is without effect only under a condition on its word
and address, which this file makes exact.
-/

namespace KyogenRV

open ScalarOpConstants MemoryOpConstants

/-- Nothing but the time and cycle counters and the internal pc and branch
samplers differs between two clock edges. -/
def Csr.OnlyCountersTick (c c' : Csr) : Prop :=
  c' = { c with
    time := c.time + 1
    timeh := if c.time == BitVec.allOnes 32 then c.timeh + 1 else c.timeh
    cycle := c.cycle + 1
    cycleh := if c.cycle == BitVec.allOnes 32 then c.cycleh + 1 else c.cycleh
    validPc := c'.validPc
    preMepc := c'.preMepc
    preMtval := c'.preMtval
    preCalcAddr := c'.preCalcAddr }

namespace Csr

theorem OnlyCountersTick.meip {c c' : Csr} (h : c.OnlyCountersTick c') :
    c'.meip = c.meip := by
  rw [h]

theorem OnlyCountersTick.instret {c c' : Csr} (h : c.OnlyCountersTick c') :
    c'.instret = c.instret ∧ c'.instreth = c.instreth := by
  rw [h]
  exact ⟨rfl, rfl⟩

theorem onlyCountersTick_tick {c : Csr} {io : CsrIO} {stall : Bool}
    (hret : c.isInstRet io stall = false) (hmeip : io.interruptSig = c.meip) :
    c.OnlyCountersTick (c.tick io stall) := by
  simp [OnlyCountersTick, tick, hret, hmeip]

end Csr

namespace KyogenRVCpu

section Killed

variable (s : KyogenRVCpu) (io : HostIf)

/-- The target of the control transfer in MEM. -/
def transferTarget : Word :=
  if s.mem.ctrl.brType == brRet then s.csr.mepc
  else if decide (s.mem.ctrl.brType > 3) && s.mem.aluCmpOut then s.mem.pc + s.mem.imm
  else s.mem.aluOut

/-- The instruction in EX neither traps, nor redirects the fetch, nor changes a
CSR at this edge. -/
structure NoEffect : Prop where
  expt : s.expt io = false
  pcCntr : (s.step io).pcCntr =
    if io.halt then io.wPc
    else if !s.stall io && !s.waitrequest io && s.imemReq then s.transferTarget
    else s.pcCntr
  csr : s.csr.OnlyCountersTick (s.step io).csr

/-- EX holds an enabled CSR instruction that stores into instret the value it
has already. -/
def RewritesInstret : Prop :=
  Csr.wen (s.csrPorts io) = true ∧ s.ex.csrAddr = CsrAddr.instretw ∧
    s.csr.wdata (s.csrPorts io) = s.csr.instret ∧ s.csr.instret ≠ BitVec.allOnes 32

/-- The interrupt pin is steady, the pc in EX is aligned, and EX holds the NOP
word, or during the start-up delay an instruction without an exception, or a
write that makes up for the instret increment. -/
def HarmlessInEx : Prop :=
  s.interruptSig = s.csr.meip ∧ Csr.misaligned s.ex.pc = false ∧
    (s.ex.inst = Instructions.nop ∨
      s.delayStall ≠ 7 ∧ s.ex.inst ≠ 0x00000073 ∧ s.ex.inst ≠ 0x00100073 ∧
        Csr.iaddrInvalidJ (s.csrPorts io) = false ∧ Csr.laddrInvalid (s.csrPorts io) = false ∧
        Csr.saddrInvalid (s.csrPorts io) = false ∨
      s.RewritesInstret io)

end Killed

section Sources

variable {s : KyogenRVCpu} {io : HostIf}

theorem csrCmd_of_coherent (io : HostIf) (hex : s.ex.Coherent) :
    (s.csrPorts io).cmd = (idDecode s.ex.inst).csrCmd := by
  rw [csrPorts, hex.csrCmd, hex.ctrl]

/-- Two bits of the CSR address tell the environment calls from the other
privileged instructions. -/
theorem privInst_bits_iff (io : HostIf) (hex : s.ex.Coherent) (low : Bool) :
    Csr.privInst (s.csrPorts io) = true ∧ (s.csrPorts io).addr.getLsbD 0 = low ∧
        (s.csrPorts io).addr.getLsbD 8 = false ↔
      s.ex.inst = if low then 0x00100073 else 0x00000073 := by
  have haddr : (s.csrPorts io).addr = IDModule.csr s.ex.inst := hex.csrAddr
  rw [Csr.privInst, csrCmd_of_coherent io hex, haddr, beq_iff_eq]
  constructor
  · rintro ⟨hp, hlow, h8⟩
    have hword := inst_of_csrCmd_p hp
    simp only [List.mem_cons, List.not_mem_nil, or_false] at hword
    rcases hword with h | h | h | h <;> rw [h] at hlow h8 ⊢ <;> revert hlow h8 <;>
      cases low <;> decide
  · intro h
    rw [h]
    cases low <;> decide

theorem isEcall_iff (io : HostIf) (hex : s.ex.Coherent) :
    Csr.isEcall (s.csrPorts io) = true ↔ s.ex.inst = 0x00000073 := by
  have hbits := privInst_bits_iff io hex false
  rw [if_neg Bool.false_ne_true] at hbits
  rw [← hbits, Csr.isEcall]
  simp only [Bool.and_eq_true, Bool.not_eq_true', and_assoc]

theorem isEbreak_iff (io : HostIf) (hex : s.ex.Coherent) :
    Csr.isEbreak (s.csrPorts io) = true ↔ s.ex.inst = 0x00100073 := by
  have hbits := privInst_bits_iff io hex true
  rw [if_pos rfl] at hbits
  rw [← hbits, Csr.isEbreak]
  simp only [Bool.and_eq_true, Bool.not_eq_true', and_assoc]

theorem expt_eq_false_iff_of_killed (io : HostIf) (hkill : s.instKillBranch = true)
    (hint : s.csr.isExtInt = false) (hex : s.ex.Coherent) :
    s.expt io = false ↔
      s.ex.inst ≠ 0x00000073 ∧ s.ex.inst ≠ 0x00100073 ∧
        Csr.iaddrInvalidJ (s.csrPorts io) = false ∧ Csr.misaligned s.ex.pc = false ∧
        Csr.laddrInvalid (s.csrPorts io) = false ∧ Csr.saddrInvalid (s.csrPorts io) = false := by
  have hillegal : Csr.isIllegal (s.csrPorts io) = false := by
    simp [Csr.isIllegal, csrPorts, pcInvalid, hkill]
  have hpc : Csr.iaddrInvalidB (s.csrPorts io) = Csr.misaligned s.ex.pc := rfl
  rw [expt, Csr.expt, hillegal, hint, hpc, ne_eq, ne_eq, ← isEcall_iff io hex,
    ← isEbreak_iff io hex]
  simp only [Bool.or_false, Bool.or_eq_false_iff, Bool.not_eq_true, and_assoc]

/-- An accepted instruction without a CSR command, at an aligned pc and with no
interrupt pending, can only have a misaligned address. -/
theorem expt_of_accepted (io : HostIf) (hlegal : s.ex.ctrl.legal = true)
    (hcmd : s.ex.csrCmd = CSR.n) (hpc : Csr.misaligned s.ex.pc = false)
    (hint : s.csr.isExtInt = false) :
    s.expt io = (Csr.iaddrInvalidJ (s.csrPorts io) || Csr.laddrInvalid (s.csrPorts io) ||
      Csr.saddrInvalid (s.csrPorts io)) := by
  have hcmd' : (s.csrPorts io).cmd = CSR.n := hcmd
  have hlegal' : (s.csrPorts io).legal = true := hlegal
  have hecall : Csr.isEcall (s.csrPorts io) = false := by
    rw [Csr.isEcall, Csr.privInst, hcmd']
    rfl
  have hebreak : Csr.isEbreak (s.csrPorts io) = false := by
    rw [Csr.isEbreak, Csr.privInst, hcmd']
    rfl
  have hillegal : Csr.isIllegal (s.csrPorts io) = false := by
    rw [Csr.isIllegal, hlegal']
    rfl
  have hpc' : Csr.iaddrInvalidB (s.csrPorts io) = false := hpc
  rw [expt, Csr.expt, hecall, hebreak, hillegal, hint, hpc']
  simp only [Bool.false_or, Bool.or_false]

/-- With interrupts off no interrupt is pending. -/
theorem expt_of_plain (io : HostIf) (hlegal : s.ex.ctrl.legal = true)
    (hcmd : s.ex.csrCmd = CSR.n) (hpc : Csr.misaligned s.ex.pc = false)
    (hmeie : s.csr.meie = false) :
    s.expt io = (Csr.iaddrInvalidJ (s.csrPorts io) || Csr.laddrInvalid (s.csrPorts io) ||
      Csr.saddrInvalid (s.csrPorts io)) :=
  expt_of_accepted io hlegal hcmd hpc (by rw [Csr.isExtInt, hmeie, Bool.and_false])

/-- Without a data access no data address is checked. -/
theorem addrInvalid_of_noAccess (io : HostIf) (hacc : s.ex.ctrl.memWr = mX) :
    Csr.laddrInvalid (s.csrPorts io) = false ∧ Csr.saddrInvalid (s.csrPorts io) = false := by
  have hacc' : (s.csrPorts io).memWr = mX := hacc
  constructor
  · rw [Csr.laddrInvalid, hacc']
    rfl
  · rw [Csr.saddrInvalid, hacc']
    rfl

/-- Without a transfer no target is checked. -/
theorem iaddrInvalidJ_of_noTransfer (io : HostIf) (hex : s.ex.Coherent)
    (hbr : s.ex.ctrl.brType = brN) : Csr.iaddrInvalidJ (s.csrPorts io) = false := by
  have hjump : (s.csrPorts io).jCheck = false := by
    have hcheck := hex.jCheck
    rw [hbr] at hcheck
    exact hcheck
  rw [Csr.iaddrInvalidJ, hjump, Bool.false_and]

/-- An instruction without a CSR command leaves the interrupt enable alone. -/
theorem meie_of_plain (hcmd : s.ex.csrCmd = CSR.n) (hexpt : s.expt io = false) :
    (s.step io).csr.meie = s.csr.meie := by
  have hcmd' : (s.csrPorts io).cmd = CSR.n := hcmd
  have hwen : Csr.wen (s.csrPorts io) = false := by
    rw [Csr.wen, hcmd']
    rfl
  rw [step_csr, Csr.next_of_not_expt _ _ hexpt, hwen, Bool.and_false, if_neg Bool.false_ne_true]
  rfl

/-- A kill overrides every hazard, so ID is held only by the start-up delay. -/
theorem stall_of_kill (hkill : s.instKill io = true) :
    s.stall io = (s.delayStall != 7) := by
  simp only [stall, hkill, Bool.not_true, Bool.and_false, Bool.false_or]

/-- The NOP word raises no exception of its own and carries no CSR command. -/
theorem nop_in_ex (io : HostIf) (hex : s.ex.Coherent) (hnop : s.ex.inst = Instructions.nop) :
    Csr.iaddrInvalidJ (s.csrPorts io) = false ∧ Csr.laddrInvalid (s.csrPorts io) = false ∧
      Csr.saddrInvalid (s.csrPorts io) = false ∧ Csr.wen (s.csrPorts io) = false := by
  have hcmd := csrCmd_of_coherent io hex
  have hctrl : s.ex.ctrl = nopCtrl := by rw [hex.ctrl, hnop]; rfl
  have hj := iaddrInvalidJ_of_noTransfer io hex (by rw [hctrl]; decide)
  obtain ⟨hl, hst⟩ := addrInvalid_of_noAccess io (by rw [hctrl]; decide)
  refine ⟨hj, hl, hst, ?_⟩
  have hnone : (idDecode Instructions.nop).csrCmd = CSR.n := by decide
  rw [Csr.wen, hcmd, hnop, hnone]
  rfl

/-- A CSR read-modify-write is no branch and no data access. -/
theorem wen_in_ex (hex : s.ex.Coherent) (hwen : Csr.wen (s.csrPorts io) = true) :
    s.ex.inst ≠ 0x00000073 ∧ s.ex.inst ≠ 0x00100073 ∧
      Csr.iaddrInvalidJ (s.csrPorts io) = false ∧ Csr.laddrInvalid (s.csrPorts io) = false ∧
      Csr.saddrInvalid (s.csrPorts io) = false := by
  have hcmd := csrCmd_of_coherent io hex
  have hsystem : (idDecode s.ex.inst).csrCmd ≠ CSR.p := by
    intro hp
    rw [Csr.wen, hcmd, hp] at hwen
    simp at hwen
  have hnotN : (idDecode s.ex.inst).csrCmd ≠ CSR.n := by
    intro hn
    rw [Csr.wen, hcmd, hn] at hwen
    simp at hwen
  have hplain : (idDecode s.ex.inst).brType = brN ∧ (idDecode s.ex.inst).memWr = mX :=
    idDecode_of_ctrlRows (P := fun ctrl => ctrl.csrCmd ≠ CSR.n → ctrl.csrCmd ≠ CSR.p →
      ctrl.brType = brN ∧ ctrl.memWr = mX) (by decide) s.ex.inst hnotN hsystem
  refine ⟨?_, ?_, ?_⟩
  · intro h; exact hsystem (by rw [h]; decide)
  · intro h; exact hsystem (by rw [h]; decide)
  · exact ⟨iaddrInvalidJ_of_noTransfer io hex (by rw [hex.ctrl]; exact hplain.1),
      addrInvalid_of_noAccess io (by rw [hex.ctrl]; exact hplain.2)⟩

theorem pcCntrNext_of_not_expt (hkill : s.instKillBranch = true) (hexpt : s.expt io = false) :
    s.pcCntrNext io =
      if io.halt then io.wPc
      else if !s.stall io && !s.waitrequest io && s.imemReq then s.transferTarget
      else s.pcCntr := by
  have htarget : s.pcTarget io = s.transferTarget := by
    simp only [instKillBranch, Bool.or_eq_true, beq_iff_eq] at hkill
    simp only [pcTarget, transferTarget, hexpt, Bool.false_eq_true, if_false, beq_iff_eq]
    split_ifs with hret hbranch hj hjr
    all_goals first
      | rfl
      | simp_all
  rw [pcCntrNext, htarget]

/-- Without an exception the CSRs only tick, and a CSR instruction writes one. -/
theorem step_csr_of_not_expt (hexpt : s.expt io = false) :
    (s.step io).csr =
      if !s.stall io && Csr.wen (s.csrPorts io) then
        Csr.write s.ex.csrAddr (s.csr.wdata (s.csrPorts io))
          (s.csr.tick (s.csrPorts io) (s.stall io))
      else s.csr.tick (s.csrPorts io) (s.stall io) := by
  rw [step_csr, Csr.next_of_not_expt _ _ hexpt]
  rfl

/-- An instruction that retires and leaves instret as it was has written it back. -/
theorem rewritesInstret_of_retire (hexpt : s.expt io = false)
    (hinst : s.ex.inst ≠ Instructions.nop) (hstall : s.stall io = false)
    (hinstret : (s.step io).csr.instret = s.csr.instret)
    (hinstreth : (s.step io).csr.instreth = s.csr.instreth) : s.RewritesInstret io := by
  have hret : s.csr.isInstRet (s.csrPorts io) (s.stall io) = true := by
    have hne : ((s.csrPorts io).inst != Instructions.nop) = true := by
      simpa [csrPorts] using hinst
    rw [Csr.isInstRet, hne, hstall, show s.csr.expt (s.csrPorts io) = false from hexpt]
    rfl
  have htick : (s.csr.tick (s.csrPorts io) (s.stall io)).instret ≠ s.csr.instret := by
    simp only [Csr.tick, hret, if_true]
    bv_omega
  rw [step_csr_of_not_expt hexpt, hstall, Bool.not_false, Bool.true_and] at hinstret hinstreth
  by_cases hwen : Csr.wen (s.csrPorts io) = true
  · rw [if_pos hwen] at hinstret hinstreth
    by_cases haddr : s.ex.csrAddr = CsrAddr.instretw
    · rw [haddr, Csr.write_instretw] at hinstret hinstreth
      refine ⟨hwen, haddr, hinstret, fun hones => ?_⟩
      simp only [Csr.tick, ← hstall, hret, hones, beq_self_eq_true, Bool.and_self,
        if_true] at hinstreth
      bv_omega
    · rw [Csr.write_instret _ _ _ haddr, ← hstall] at hinstret
      exact absurd hinstret htick
  · rw [if_neg hwen, ← hstall] at hinstret
    exact absurd hinstret htick

/-- At an edge without exception the CSRs are left alone exactly if nothing
retires, or if the retiring instruction writes instret back to its old value. -/
theorem onlyCountersTick_next_iff (hexpt : s.expt io = false)
    (hnop : s.ex.inst = Instructions.nop → Csr.wen (s.csrPorts io) = false) :
    s.csr.OnlyCountersTick (s.step io).csr ↔
      s.interruptSig = s.csr.meip ∧
        (s.ex.inst = Instructions.nop ∨ s.stall io = true ∨ s.RewritesInstret io) := by
  constructor
  · intro hframe
    have hmeip : (s.step io).csr.meip = s.interruptSig := by
      rw [step_csr]
      exact Csr.next_meip ..
    refine ⟨hmeip.symm.trans hframe.meip, ?_⟩
    by_contra hcon
    simp only [not_or, Bool.not_eq_true] at hcon
    obtain ⟨hinst, hstall, hrewrite⟩ := hcon
    obtain ⟨hinstret, hinstreth⟩ := hframe.instret
    exact hrewrite (rewritesInstret_of_retire hexpt hinst hstall hinstret hinstreth)
  · rintro ⟨hpin, hcases⟩
    rw [step_csr_of_not_expt hexpt]
    rcases hcases with hinst | hstall | ⟨hwen, haddr, hdata, hones⟩
    · rw [hnop hinst, Bool.and_false, if_neg (by decide)]
      refine Csr.onlyCountersTick_tick ?_ hpin
      simp [Csr.isInstRet, csrPorts, hinst]
    · rw [hstall, Bool.not_true, Bool.false_and, if_neg (by decide)]
      exact Csr.onlyCountersTick_tick (by simp [Csr.isInstRet]) hpin
    · cases hstall : s.stall io with
      | true => exact Csr.onlyCountersTick_tick (by simp [Csr.isInstRet]) hpin
      | false =>
          rw [hwen, Bool.not_false, Bool.and_self, if_pos rfl, haddr, Csr.write_instretw, hdata]
          have hpin' : (s.csrPorts io).interruptSig = s.csr.meip := hpin
          simp only [Csr.OnlyCountersTick, Csr.tick, hpin', beq_eq_false_iff_ne.mpr hones,
            Bool.and_false, Bool.false_eq_true, if_false]

end Sources

/-- In every reachable state with a control transfer in MEM and no enabled
interrupt pending, the wrong-path instruction in EX is without effect exactly
under `HarmlessInEx`. -/
theorem killed_noEffect_iff {s : KyogenRVCpu} (hs : s.Reachable) (io : HostIf)
    (hkill : s.instKillBranch = true) (hint : (s.csr.meip && s.csr.meie) = false) :
    s.NoEffect io ↔ s.HarmlessInEx io := by
  have hex := hs.coherent.ex
  have hexpt := expt_eq_false_iff_of_killed io hkill hint hex
  have hstall : s.stall io = (s.delayStall != 7) :=
    stall_of_kill (by rw [instKill, hkill, Bool.true_or])
  have hnop := fun h => (nop_in_ex io hex h).2.2.2
  constructor
  · intro h
    obtain ⟨hecall, hebreak, hj, hpc, hl, hst⟩ := hexpt.mp h.expt
    obtain ⟨hpin, hcases⟩ := (onlyCountersTick_next_iff h.expt hnop).mp h.csr
    refine ⟨hpin, hpc, hcases.imp_right (Or.imp_left fun hdelay => ?_)⟩
    exact ⟨by simpa [hstall] using hdelay, hecall, hebreak, hj, hl, hst⟩
  · rintro ⟨hpin, hpc, hcases⟩
    have hfree : s.expt io = false := by
      rw [hexpt]
      rcases hcases with hinst | ⟨_, hecall, hebreak, hj, hl, hst⟩ | hrewrite
      · obtain ⟨hj, hl, hst, _⟩ := nop_in_ex io hex hinst
        rw [hinst]
        exact ⟨by decide, by decide, hj, hpc, hl, hst⟩
      · exact ⟨hecall, hebreak, hj, hpc, hl, hst⟩
      · obtain ⟨hecall, hebreak, hj, hl, hst⟩ := wen_in_ex hex hrewrite.1
        exact ⟨hecall, hebreak, hj, hpc, hl, hst⟩
    refine ⟨hfree, pcCntrNext_of_not_expt hkill hfree, ?_⟩
    rw [onlyCountersTick_next_iff hfree hnop]
    refine ⟨hpin, hcases.imp_right (Or.imp_left fun hdelay => ?_)⟩
    simpa [hstall] using hdelay.1

/-- A jump with a NOP behind it. -/
theorem killed_noEffect_iff_nop :
    (sample [.fetch 0x0080006f, .fetch 0x00000013, .idle]).NoEffect .idle :=
  (killed_noEffect_iff (reachable_sample _) _ (by decide +kernel) (by decide +kernel)).mpr
    ⟨by decide +kernel, by decide +kernel, Or.inl (by decide +kernel)⟩

/-- A jump with an ecall behind it: the wrong-path ecall traps. -/
theorem killed_ecall_traps :
    ¬∀ (s : KyogenRVCpu) (io : HostIf), s.Reachable → s.instKillBranch = true →
      (s.csr.meip && s.csr.meie) = false → s.NoEffect io := by
  intro h
  have hexpt := (h (sample [.fetch 0x0080006f, .fetch 0x00000073, .idle]) .idle
    (reachable_sample _) (by decide +kernel) (by decide +kernel)).expt
  revert hexpt
  decide +kernel

end KyogenRVCpu

end KyogenRV
