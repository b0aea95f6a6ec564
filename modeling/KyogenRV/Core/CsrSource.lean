import KyogenRV.Core.Immediate
import KyogenRV.Core.JumpRegister

/-!
# The source of a CSR instruction

The operand of the register forms does not come from the bypass network alone:
`csr_in` first compares the bare `rd` bits of MEM and WB with `rs1`.  It is the
value of the register whenever the newest instruction whose `rd` bits agree
writes that register, and otherwise only if its result happens to be that
value.
-/

namespace KyogenRV

open ScalarOpConstants MemoryOpConstants

/-- `CSRRW`, `CSRRS` or `CSRRC`. -/
def IsCsrReg (inst : Word) : Prop :=
  Rv32i.opcode inst = 0x73 ∧
    (Rv32i.funct3 inst = 1 ∨ Rv32i.funct3 inst = 2 ∨ Rv32i.funct3 inst = 3)

instance (inst : Word) : Decidable (IsCsrReg inst) := inferInstanceAs (Decidable (_ ∧ _))

/-- The register forms do not read `zimm`. -/
theorem immType_of_csrReg {inst : Word} (hinst : IsCsrReg inst) :
    (idDecode inst).immType ≠ immZ := by
  intro himm
  have hrows : ∀ row ∈ IDecode.table, (rowSigs row).immType = immZ →
      (∀ i < 3, row.1.mask.testBit (12 + i) = true) ∧
        Rv32i.funct3 (BitVec.ofNat 32 row.1.value) ∉ [1, 2, (3 : BitVec 3)] := by decide
  rcases idDecode_cases inst with hdefault | ⟨row, hrow, hmatch, hsigs⟩
  · rw [hdefault] at himm
    exact absurd himm (by decide)
  · obtain ⟨hmask, hfunct3⟩ := hrows row hrow (hsigs ▸ himm)
    have hsame : Rv32i.funct3 inst = Rv32i.funct3 (BitVec.ofNat 32 row.1.value) :=
      extract_of_match hmask hmatch
    rw [← hsame] at hfunct3
    simp only [List.mem_cons, List.not_mem_nil, or_false] at hfunct3
    exact hfunct3 hinst.2

namespace KyogenRVCpu

section Source

variable (s : KyogenRVCpu) (io : HostIf)

/-- What `csr_in` takes of the instruction in MEM. -/
def memSource : Word := if s.mem.ctrl.csrCmd ≠ CSR.n then s.mem.csrData else s.mem.aluOut

/-- What `csr_in` takes of the instruction in WB. -/
def wbSource : Word := if s.wb.ctrl.csrCmd ≠ CSR.n then s.wb.csrData else s.wb.aluOut

/-- The newest instruction in MEM and WB whose `rd` bits are those of `rs1`:
whether it writes a register, and what `csr_in` takes of it. -/
def rdMatch : Option (Bool × Word) :=
  if s.ex.regRaddr1 = s.mem.regWaddr then some (s.mem.ctrl.rfWen, s.memSource)
  else if s.ex.regRaddr1 = s.wb.regWaddr then some (s.wb.ctrl.rfWen, s.wbSource)
  else none

/-- That instruction, if there is one, writes `rs1`, or what is taken of it is
the value of `rs1`. -/
def SourceCurrent : Prop :=
  ∀ writes value, s.rdMatch = some (writes, value) →
    writes = true ∧ s.ex.regRaddr1 ≠ 0 ∨ s.srcReg io s.ex.regRaddr1 = some value

end Source

section Current

variable {s : KyogenRVCpu} {io : HostIf}

theorem csrIn_eq (hex : s.ex.Coherent) (hinst : IsCsrReg s.ex.inst) :
    s.csrIn io = s.rdMatch.elim (s.exRegRs1Bypass io) Prod.snd := by
  have himm : (s.ex.ctrl.immType == immZ) = false := by
    rw [hex.ctrl, beq_eq_false_iff_ne]
    exact immType_of_csrReg hinst
  simp only [csrIn, himm, rdMatch, memSource, wbSource, beq_iff_eq, bne_iff_ne,
    Bool.false_eq_true, if_false]
  split_ifs <;> rfl

/-- A match that writes `rs1` gives what the bypass gives. -/
theorem rdMatch_of_writes (hco : s.Coherent) (hready : s.ExReady) {value : Word}
    (hzero : s.ex.regRaddr1 ≠ 0) (hmatch : s.rdMatch = some (true, value)) :
    s.exRegRs1Bypass io = value := by
  rw [exRegRs1Bypass, exRegBypass_eq hzero]
  rw [rdMatch] at hmatch
  split_ifs at hmatch with hmem hwb
  · obtain ⟨hwen, rfl⟩ := Prod.mk.inj (Option.some.inj hmatch)
    simp [hmem, hwen, memSource]
  · obtain ⟨hwen, rfl⟩ := Prod.mk.inj (Option.some.inj hmatch)
    rw [if_neg fun h => hmem h.1, if_neg fun h => hmem h.1, if_pos ⟨hwb, hwen⟩, wbSource]
    split_ifs with hcsr hmemEn
    · rfl
    · rw [hready.memEn hco hwen (not_not.mp hcsr)] at hmemEn
      exact absurd hmemEn Bool.false_ne_true
    · rfl

/-- In every cycle of a CSR instruction in EX without a kill the operand is the
value of `rs1` exactly if the match, if any, is current. -/
theorem csrIn_iff (hs : s.Reachable) (hkill : s.instKill io = false)
    (hinst : IsCsrReg s.ex.inst) :
    s.srcReg io (IDModule.rs1 s.ex.inst) = some (s.csrIn io) ↔ s.SourceCurrent io := by
  have hex := hs.coherent.ex
  have hbranch : s.instKillBranch = false := (Bool.or_eq_false_iff.mp hkill).1
  have hready : s.ExReady := by
    refine hs.forwardInv.resolve_left fun hbubble => ?_
    rw [hbubble] at hinst
    exact absurd hinst (by decide)
  have hsrc := (srcReg_eq_bypass hs hbranch io).1
  rw [← hex.regRaddr1, csrIn_eq hex hinst, SourceCurrent]
  cases hmatch : s.rdMatch with
  | none => simp [hsrc]
  | some found =>
      obtain ⟨writes, value⟩ := found
      constructor
      · rintro hvalue _ _ heq
        obtain ⟨rfl, rfl⟩ := Prod.mk.inj (Option.some.inj heq)
        exact Or.inr hvalue
      · intro hcurrent
        rcases hcurrent writes value rfl with ⟨rfl, hzero⟩ | hvalue
        · rw [hsrc, rdMatch_of_writes hs.coherent hready hzero hmatch]
          rfl
        · exact hvalue

/-- `csrrw x2, mscratch, x1` right behind `addi x1, x0, 5`. -/
theorem csrIn_addi :
    let s := sample [.fetch 0x00500093, .fetch 0x34009173, .idle]
    s.srcReg .idle (IDModule.rs1 s.ex.inst) = some (s.csrIn .idle) ∧ s.csrIn .idle = 5 := by
  intro s
  refine ⟨(csrIn_iff (reachable_sample _) (by decide +kernel) (by decide +kernel)).mpr ?_,
    by decide +kernel⟩
  intro writes value hmatch
  have hmem : s.rdMatch = some (true, 5) := by decide +kernel
  rw [hmem] at hmatch
  obtain ⟨rfl, _⟩ := Prod.mk.inj (Option.some.inj hmatch)
  exact Or.inl ⟨rfl, by decide +kernel⟩

/-- `csrrw x2, mscratch, x0` right behind `addi x0, x0, 5` writes 5. -/
theorem csrIn_x0 :
    ¬∀ (s : KyogenRVCpu) (io : HostIf), s.Reachable → s.instKill io = false →
      IsCsrReg s.ex.inst → s.srcReg io (IDModule.rs1 s.ex.inst) = some (s.csrIn io) := by
  intro h
  have hsource := h (sample [.fetch 0x00500013, .fetch 0x34001173, .idle]) .idle
    (reachable_sample _) (by decide +kernel) (by decide +kernel)
  revert hsource
  decide +kernel

end Current

end KyogenRVCpu

end KyogenRV
