import KyogenRV.Core.Trap

/-!
# Alignment of `mepc`

Software writes and interrupts leave an aligned pc in `mepc`, and so does every
trap of an instruction at an aligned pc.  A trap for a misaligned pc records
the pc of the last branch or jump that was in EX, and that one need not be
aligned: a branch or jump that is itself fetched from a misaligned address
counts, although it traps.
-/

namespace KyogenRV

open ScalarOpConstants MemoryOpConstants

namespace Csr

section Mepc

variable (c d : Csr) (io : CsrIO) (wdata : Word)

theorem misaligned_clearLow2 (x : Word) : misaligned (clearLow2 x) = false := by
  rw [misaligned, bne_eq_false_iff_eq]
  apply BitVec.eq_of_getLsbD_eq
  intro i hi
  rw [BitVec.getLsbD_extractLsb', clearLow2, BitVec.getLsbD_shiftLeft]
  simp [hi]

theorem write_mepc : write CsrAddr.mepc wdata d = { d with mepc := clearLow2 wdata } := by
  simp [write]

theorem write_mepc_of_ne {addr : BitVec 12} (haddr : addr ≠ CsrAddr.mepc) :
    (write addr wdata d).mepc = d.mepc := by
  refine muxCase_of_forall (P := fun c : Csr => c.mepc = d.mepc) rfl ?_
  simp only [List.forall_mem_cons, List.not_mem_nil, false_imp_iff, implies_true, and_true,
    beq_iff_eq, haddr]

end Mepc

end Csr

namespace KyogenRVCpu

/-- `mepc` is assigned at this edge, by a trap or by software. -/
def assignsMepc (s : KyogenRVCpu) (io : HostIf) : Bool :=
  !s.stall io &&
    (s.expt io || Csr.wen (s.csrPorts io) && s.ex.csrAddr == CsrAddr.mepc)

end KyogenRVCpu

/-- The core with a record of what `mepc` depends on. -/
structure MepcTrace where
  cpu : KyogenRVCpu
  /-- `mepc` has been assigned since reset. -/
  assigned : Bool
  /-- The pc of the last branch or jump in EX, 0 before the first one. -/
  lastTransfer : Word

namespace MepcTrace

section Trace

variable (h : MepcTrace) (io : HostIf)

def start (s : KyogenRVCpu) : MepcTrace := ⟨s, false, 0⟩

def step : MepcTrace where
  cpu := h.cpu.step io
  assigned := h.assigned || h.cpu.assignsMepc io
  lastTransfer := if h.cpu.ex.bCheck || h.cpu.ex.jCheck then h.cpu.ex.pc else h.lastTransfer

/-- Once assigned, `mepc` is aligned, and so is the pc that an MRET leaving MEM
installs. -/
def MepcAligned : Prop :=
  h.assigned = true → Csr.misaligned h.cpu.csr.mepc = false ∧
    ∀ io, h.cpu.mem.ctrl.brType = brRet → h.cpu.expt io = false →
      Csr.misaligned (h.cpu.pcTarget io) = false

/-- When a trap for a misaligned pc is recorded, the last branch or jump in EX
was at an aligned one. -/
def TransferAligned : Prop :=
  h.cpu.stall io = false → h.cpu.csr.isExtInt = false → Csr.misaligned h.cpu.ex.pc = true →
    Csr.misaligned h.lastTransfer = false

/-- What the CSR module keeps of the pcs in EX. -/
structure Kept : Prop where
  preMepc : h.cpu.csr.preMepc = h.lastTransfer
  validPc : Csr.misaligned h.cpu.csr.validPc = false

end Trace

variable {h : MepcTrace} {io : HostIf}

theorem kept_start {s : KyogenRVCpu} (hs : s.IsReset) : (start s).Kept := by
  obtain ⟨_, _, _, _, _, _, _, rfl⟩ := hs
  exact ⟨rfl, rfl⟩

theorem kept_step (hkept : h.Kept) (io : HostIf) : (h.step io).Kept where
  preMepc := by
    change (h.cpu.step io).csr.preMepc = _
    rw [KyogenRVCpu.step_csr, Csr.next_preMepc, hkept.preMepc]
    rfl
  validPc := by
    change Csr.misaligned (h.cpu.step io).csr.validPc = false
    rw [KyogenRVCpu.step_csr, Csr.next_validPc]
    split_ifs
    · exact Csr.misaligned_clearLow2 _
    · exact hkept.validPc

/-- What a trap leaves in `mepc`. -/
theorem mepc_of_recorded (hkept : h.Kept) (hrec : h.cpu.Recorded io) :
    (h.cpu.step io).csr.mepc =
      if h.cpu.csr.isExtInt then h.cpu.csr.validPc
      else if Csr.misaligned h.cpu.ex.pc then h.lastTransfer
      else h.cpu.ex.pc := by
  rw [KyogenRVCpu.csr_of_recorded hrec, ← hkept.preMepc]
  rfl

/-- Without a trap `mepc` keeps its value, unless software writes it. -/
theorem mepc_of_not_recorded (hrec : ¬h.cpu.Recorded io) :
    (h.cpu.step io).csr.mepc = h.cpu.csr.mepc ∧ h.cpu.assignsMepc io = false ∨
      Csr.misaligned (h.cpu.step io).csr.mepc = false := by
  rw [KyogenRVCpu.step_csr, KyogenRVCpu.assignsMepc]
  cases hstall : h.cpu.stall io with
  | true => exact Or.inl ⟨rfl, rfl⟩
  | false =>
      have hexpt : h.cpu.expt io = false := by
        rw [← Bool.not_eq_true]
        exact fun hexpt => hrec ⟨hstall, hexpt⟩
      rw [Csr.next_of_not_expt _ _ hexpt, hexpt]
      cases hwen : Csr.wen (h.cpu.csrPorts io) with
      | false => exact Or.inl ⟨rfl, rfl⟩
      | true =>
          have haddr : (h.cpu.csrPorts io).addr = h.cpu.ex.csrAddr := rfl
          simp only [Bool.not_false, Bool.and_true, if_true, haddr]
          by_cases hmepc : h.cpu.ex.csrAddr = CsrAddr.mepc
          · rw [hmepc, Csr.write_mepc]
            exact Or.inr (Csr.misaligned_clearLow2 _)
          · rw [Csr.write_mepc_of_ne _ _ hmepc]
            exact Or.inl ⟨rfl, by rw [beq_eq_false_iff_ne.mpr hmepc]; rfl⟩

/-- An MRET that leaves MEM installs `mepc`. -/
theorem mepcAligned_iff :
    h.MepcAligned ↔ (h.assigned = true → Csr.misaligned h.cpu.csr.mepc = false) := by
  refine forall_congr' fun _ => and_iff_left_of_imp fun haligned io hret hexpt => ?_
  rw [KyogenRVCpu.pcTarget, hexpt, if_neg Bool.false_ne_true, hret]
  exact haligned

theorem mepcAligned_step (hkept : h.Kept) (haligned : h.MepcAligned)
    (htransfer : h.TransferAligned io) : (h.step io).MepcAligned := by
  rw [mepcAligned_iff] at haligned ⊢
  intro hassigned
  change Csr.misaligned (h.cpu.step io).csr.mepc = false
  by_cases hrec : h.cpu.Recorded io
  · rw [mepc_of_recorded hkept hrec]
    split_ifs with hint hpc
    · exact hkept.validPc
    · exact htransfer hrec.1 (by simpa using hint) hpc
    · simpa using hpc
  · rcases mepc_of_not_recorded hrec with ⟨hmepc, hassigns⟩ | hwritten
    · have hbefore : h.assigned = true := by
        have hor : (h.assigned || h.cpu.assignsMepc io) = true := hassigned
        rwa [hassigns, Bool.or_false] at hor
      rw [hmepc]
      exact haligned hbefore
    · exact hwritten

/-- A trap for a misaligned pc shows what `pre_mepc` holds. -/
theorem transferAligned_of_step (hkept : h.Kept) (haligned : (h.step io).MepcAligned) :
    h.TransferAligned io := by
  intro hstall hint hpc
  have hexpt : h.cpu.expt io = true := by
    have hinvalid : Csr.iaddrInvalidB (h.cpu.csrPorts io) = true := hpc
    simp [KyogenRVCpu.expt, Csr.expt, hinvalid]
  have hrec : h.cpu.Recorded io := ⟨hstall, hexpt⟩
  have hassigned : (h.step io).assigned = true := by
    change (h.assigned || h.cpu.assignsMepc io) = true
    simp [KyogenRVCpu.assignsMepc, hstall, hexpt]
  have hmepc : Csr.misaligned (h.cpu.step io).csr.mepc = false := (haligned hassigned).1
  rwa [mepc_of_recorded hkept hrec, hint, if_neg Bool.false_ne_true, if_pos hpc] at hmepc

/-- Over every run from reset, `mepc` is aligned in every state from its first
assignment on, exactly if every recorded trap for a misaligned pc finds the
last branch or jump at an aligned one. -/
theorem mepc_aligned_iff {s : KyogenRVCpu} {inputs : List HostIf} (hs : s.IsReset) :
    Machine.Along step (fun h io => (h.step io).MepcAligned) (start s) inputs ↔
      Machine.Along step TransferAligned (start s) inputs := by
  constructor
  · intro haligned
    exact Machine.along_of_invariant (fun _ io hkept _ => kept_step hkept io)
      (fun _ _ hkept h => transferAligned_of_step hkept h) (kept_start hs) haligned
  · intro htransfer
    have hstart : (start s).MepcAligned := fun h => absurd h Bool.false_ne_true
    exact Machine.along_of_invariant (I := fun h => h.Kept ∧ h.MepcAligned)
      (fun _ io hinv h => ⟨kept_step hinv.1 io, mepcAligned_step hinv.1 hinv.2 h⟩)
      (fun _ _ hinv h => mepcAligned_step hinv.1 hinv.2 h) ⟨kept_start hs, hstart⟩ htransfer

/-- The inputs of an ecall behind which every fetch is answered with `inst`. -/
def ecallThen (inst : Word) : List HostIf :=
  List.replicate 11 .idle ++ .fetch 0x00000073 :: List.replicate 10 (.fetch inst)

/-- An ecall, then NOPs at the misaligned reset value of `mtvec`. -/
theorem mepc_aligned_nop :
    Machine.Along step (fun h io => (h.step io).MepcAligned)
      (start KyogenRVCpu.zeroReset) (ecallThen 0x00000013) :=
  (mepc_aligned_iff KyogenRVCpu.isReset_zeroReset).mpr (by unfold TransferAligned; decide)

/-- An ecall, then branches at the misaligned reset value of `mtvec`: the second
one leaves the pc of the first one in `mepc`. -/
theorem mepc_misaligned :
    ¬∀ (s : KyogenRVCpu) (inputs : List HostIf), s.IsReset →
      Machine.Along step (fun h io => (h.step io).MepcAligned) (start s) inputs := by
  intro h
  have hlast := (Machine.along_append.mp
    (h _ (ecallThen 0x00000063) KyogenRVCpu.isReset_zeroReset)).2.2
  have hmepc := (hlast.2.2.2.2.2.2.2.2.2.1 (by decide)).1
  revert hmepc
  decide +kernel

end MepcTrace

end KyogenRV
