import KyogenRV.Core.Kill

/-!
# The recorded cause

`mepc` and `mtval` are chosen by one priority chain and `mcause` by another, in
a different order.  They describe the same cause unless an ecall or an ebreak
meets a source that is ahead of it in the first chain, or, with inputs that the
core never presents, a jump or an illegal word is a data access as well.
-/

namespace KyogenRV

open ScalarOpConstants MemoryOpConstants

/-- The exception sources of the CSR module. -/
inductive TrapCause where
  | ecall | extInt | ebreak | iaddrInvalidB | iaddrInvalidJ | illegal | laddrInvalid | saddrInvalid
  deriving DecidableEq

namespace Csr

section Causes

variable (c : Csr) (io : CsrIO)

/-- The source is raised. -/
def raised : TrapCause → Bool
  | .ecall => isEcall io
  | .extInt => c.isExtInt
  | .ebreak => isEbreak io
  | .iaddrInvalidB => iaddrInvalidB io
  | .iaddrInvalidJ => iaddrInvalidJ io
  | .illegal => isIllegal io
  | .laddrInvalid => laddrInvalid io
  | .saddrInvalid => saddrInvalid io

/-- The code of a cause. -/
def causeCode : TrapCause → Word
  | .ecall => Cause.ecall + c.prv.setWidth 32
  | .extInt => 0x80000000 ||| (Cause.extInterrupt + c.prv.setWidth 32)
  | .ebreak => Cause.breakpoint
  | .iaddrInvalidB | .iaddrInvalidJ => Cause.instAddrMisaligned
  | .illegal => Cause.illegalInst
  | .laddrInvalid => Cause.loadAddrMisaligned
  | .saddrInvalid => Cause.storeAddrMisaligned

/-- The pc that goes with a cause. -/
def causePc : TrapCause → Word
  | .extInt => c.validPc
  | .iaddrInvalidB => c.preMepc
  | _ => io.pc

/-- The value that goes with a cause. -/
def causeValue : TrapCause → Word
  | .iaddrInvalidB => c.preCalcAddr
  | .laddrInvalid | .saddrInvalid => aluCalcAddr io
  | .iaddrInvalidJ =>
      if (aluCalcAddr io).getLsbD 0 && !(aluCalcAddr io).getLsbD 1 then
        clearLow1 (aluCalcAddr io) + 2
      else clearLow1 (aluCalcAddr io)
  | _ => io.inst

/-- The cause that the `mcause` chain selects.  It has one branch for both
misaligned instruction addresses. -/
def mcauseCause : TrapCause :=
  if isEcall io then .ecall
  else if c.isExtInt then .extInt
  else if isEbreak io then .ebreak
  else if iaddrInvalidJ io || iaddrInvalidB io then
    if iaddrInvalidB io then .iaddrInvalidB else .iaddrInvalidJ
  else if isIllegal io then .illegal
  else if laddrInvalid io then .laddrInvalid
  else .saddrInvalid

/-- The cause that the `mepc` and `mtval` chain selects.  It has one branch for
both data accesses, and one for what is left. -/
def mepcCause : TrapCause :=
  if c.isExtInt then .extInt
  else if iaddrInvalidB io then .iaddrInvalidB
  else if laddrInvalid io || saddrInvalid io then
    if laddrInvalid io then .laddrInvalid else .saddrInvalid
  else if iaddrInvalidJ io then .iaddrInvalidJ
  else if isEcall io then .ecall
  else if isEbreak io then .ebreak
  else .illegal

/-- One raised cause gives `mcause`, `mepc` and `mtval`. -/
def RecordsOneCause : Prop :=
  ∃ cause, c.raised io cause = true ∧ c.mcauseCause io = cause ∧ c.mepcCause io = cause

/-- An address that is not aligned. -/
def addrInvalid : Bool :=
  iaddrInvalidB io || iaddrInvalidJ io || laddrInvalid io || saddrInvalid io

/-- No ecall is raised with an interrupt or a misaligned address, no ebreak with
a misaligned address but under an interrupt, and no misaligned jump target or
illegal word with a misaligned data address but under an interrupt or at a
misaligned pc. -/
def CausesOrdered : Prop :=
  (isEcall io = true → c.isExtInt = false ∧ addrInvalid io = false) ∧
    (isEbreak io = true → c.isExtInt = true ∨ addrInvalid io = false) ∧
    (iaddrInvalidJ io = true ∨ isIllegal io = true →
      c.isExtInt = true ∨ iaddrInvalidB io = true ∨
        laddrInvalid io = false ∧ saddrInvalid io = false)

end Causes

section Record

variable {c : Csr} {io : CsrIO}

/-- What a trap records is what the selected causes carry. -/
theorem next_of_trap (hexpt : c.expt io = true) :
    (c.next io false).mcause = c.causeCode (c.mcauseCause io) ∧
      (c.next io false).mepc = c.causePc io (c.mepcCause io) ∧
      (c.next io false).mtval = c.causeValue io (c.mepcCause io) := by
  have hnext : c.next io false = c.trap io (c.tick io false) := by
    rw [next, if_neg Bool.false_ne_true, if_pos hexpt]
  have hsome : isEcall io || isEbreak io || isIllegal io || c.isExtInt || iaddrInvalidJ io ||
      iaddrInvalidB io || laddrInvalid io || saddrInvalid io := hexpt
  rw [hnext]
  refine ⟨?_, ?_, ?_⟩
  · rw [show (c.trap io (c.tick io false)).mcause = c.trapMcause io from rfl, trapMcause,
      mcauseCause]
    split_ifs <;> first | rfl | simp_all
  · rw [show (c.trap io (c.tick io false)).mepc = c.trapMepc io from rfl, trapMepc, mepcCause]
    split_ifs <;> rfl
  · rw [show (c.trap io (c.tick io false)).mtval = c.trapMtval io from rfl, trapMtval, mepcCause]
    split_ifs <;> first | rfl | simp_all [causeValue]

/-- The two chains select the same cause exactly if the causes are ordered. -/
theorem causes_eq_iff (hexpt : c.expt io = true) :
    c.mcauseCause io = c.mepcCause io ↔ c.CausesOrdered io := by
  revert hexpt
  rw [mcauseCause, mepcCause, CausesOrdered, addrInvalid, expt]
  generalize isEcall io = ecall
  generalize isEbreak io = ebreak
  generalize isIllegal io = illegal
  generalize c.isExtInt = int
  generalize iaddrInvalidJ io = jump
  generalize iaddrInvalidB io = fetch
  generalize laddrInvalid io = load
  generalize saddrInvalid io = store
  -- the interrupt and the fetch come first in one chain, the ecall and the ebreak in the other
  cases int <;> cases fetch <;> cases ecall <;> cases ebreak <;>
    revert jump illegal load store <;> decide

theorem raised_mcauseCause (hexpt : c.expt io = true) :
    c.raised io (c.mcauseCause io) = true := by
  have hsome : isEcall io || isEbreak io || isIllegal io || c.isExtInt || iaddrInvalidJ io ||
      iaddrInvalidB io || laddrInvalid io || saddrInvalid io := hexpt
  rw [mcauseCause]
  split_ifs <;> simp_all [raised]

theorem recordsOneCause_iff_eq (hexpt : c.expt io = true) :
    c.RecordsOneCause io ↔ c.mcauseCause io = c.mepcCause io := by
  constructor
  · rintro ⟨cause, _, hmcause, hmepc⟩
    exact hmcause.trans hmepc.symm
  · intro heq
    exact ⟨c.mcauseCause io, raised_mcauseCause hexpt, rfl, heq.symm⟩

end Record

/-- A trap records the code of the cause that the `mcause` chain selects, and
the pc and the value of the one that the `mepc` chain selects.  The two are one
raised cause exactly if the causes are ordered. -/
theorem trap_coherent_iff {c : Csr} {io : CsrIO} (hexpt : c.expt io = true) :
    ((c.next io false).mcause = c.causeCode (c.mcauseCause io) ∧
      (c.next io false).mepc = c.causePc io (c.mepcCause io) ∧
      (c.next io false).mtval = c.causeValue io (c.mepcCause io)) ∧
    (c.RecordsOneCause io ↔ c.CausesOrdered io) :=
  ⟨next_of_trap hexpt, (recordsOneCause_iff_eq hexpt).trans (causes_eq_iff hexpt)⟩

end Csr

namespace KyogenRVCpu

/-- Enables the external interrupt, and raises it for an ecall. -/
def interruptedEcall : KyogenRVCpu :=
  sample [.fetch 0xfff00093, .fetch 0x30409073,
    { HostIf.fetch 0x00000073 with wInterruptSig := true }, .fetch 0x00000013]

/-- An ecall without an interrupt. -/
theorem trap_coherent_ecall :
    let s := sample [.fetch 0x00000013, .fetch 0x00000073, .fetch 0x00000013]
    s.csr.RecordsOneCause (s.csrPorts .idle) :=
  (Csr.trap_coherent_iff (by decide +kernel)).2.mpr (by unfold Csr.CausesOrdered; decide +kernel)

/-- An ecall under an interrupt records the code of the ecall with the pc of
the interrupt. -/
theorem trap_incoherent :
    ¬∀ (c : Csr) (io : CsrIO), c.expt io = true → c.RecordsOneCause io := by
  intro h
  obtain ⟨cause, _, hmcause, hmepc⟩ := h interruptedEcall.csr (interruptedEcall.csrPorts .idle)
    (by decide +kernel)
  have heq := hmcause.trans hmepc.symm
  revert heq
  decide +kernel

section Overlap

variable {s : KyogenRVCpu}

/-- An environment call is neither a jump nor a data access. -/
theorem addrInvalid_of_call (io : HostIf) (hex : s.ex.Coherent)
    (hinst : s.ex.inst = 0x00000073 ∨ s.ex.inst = 0x00100073) :
    Csr.addrInvalid (s.csrPorts io) = Csr.misaligned s.ex.pc := by
  have hkind : s.ex.ctrl.brType = brN ∧ s.ex.ctrl.memWr = mX := by
    rw [hex.ctrl]
    rcases hinst with h | h <;> rw [h] <;> decide
  obtain ⟨hload, hstore⟩ := addrInvalid_of_noAccess io hkind.2
  rw [Csr.addrInvalid, iaddrInvalidJ_of_noTransfer io hex hkind.1, hload, hstore]
  simp only [Bool.or_false]
  rfl

/-- Neither a jump nor an illegal word is a data access. -/
theorem noAccess_of_jump (io : HostIf) (hex : s.ex.Coherent)
    (hjump : Csr.iaddrInvalidJ (s.csrPorts io) = true ∨ Csr.isIllegal (s.csrPorts io) = true) :
    s.ex.ctrl.memWr = mX := by
  have hkinds : (idDecode s.ex.inst).brType ≠ brN ∨ (idDecode s.ex.inst).legal = false →
      (idDecode s.ex.inst).memWr = mX :=
    idDecode_of_ctrlRows (P := fun ctrl => ctrl.brType ≠ brN ∨ ctrl.legal = false →
      ctrl.memWr = mX) (by decide) s.ex.inst
  rw [← hex.ctrl] at hkinds
  refine hkinds (hjump.imp (fun hj hbr => ?_) fun hillegal => ?_)
  · rw [iaddrInvalidJ_of_noTransfer io hex hbr] at hj
    exact absurd hj Bool.false_ne_true
  · rw [Csr.isIllegal, Bool.and_eq_true, Bool.not_eq_true'] at hillegal
    exact hillegal.1

/-- In the core only the environment calls meet other sources. -/
theorem causesOrdered_iff (hs : s.Reachable) (io : HostIf) :
    s.csr.CausesOrdered (s.csrPorts io) ↔
      (s.ex.inst = 0x00000073 → s.csr.isExtInt = false ∧ Csr.misaligned s.ex.pc = false) ∧
      (s.ex.inst = 0x00100073 → s.csr.isExtInt = true ∨ Csr.misaligned s.ex.pc = false) := by
  have hex := hs.coherent.ex
  rw [Csr.CausesOrdered, isEcall_iff io hex, isEbreak_iff io hex]
  constructor
  · rintro ⟨hecall, hebreak, _⟩
    refine ⟨fun h => ?_, fun h => ?_⟩
    · rw [← addrInvalid_of_call io hex (Or.inl h)]
      exact hecall h
    · rw [← addrInvalid_of_call io hex (Or.inr h)]
      exact hebreak h
  · rintro ⟨hecall, hebreak⟩
    refine ⟨fun h => ?_, fun h => ?_, fun h => ?_⟩
    · rw [addrInvalid_of_call io hex (Or.inl h)]
      exact hecall h
    · rw [addrInvalid_of_call io hex (Or.inr h)]
      exact hebreak h
    · exact Or.inr (Or.inr (addrInvalid_of_noAccess io (noAccess_of_jump io hex h)))

end Overlap

end KyogenRVCpu

end KyogenRV
