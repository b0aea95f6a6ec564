import KyogenRV.Core.DecodeRv32i
import KyogenRV.Core.Pipeline
import KyogenRV.Isa.Encoding

/-!
# Immediates

The immediate generator inverts the encoding of each format, and the decode
table selects the format that the instruction set prescribes wherever the
immediate is an operand or an offset of the target.
-/

namespace KyogenRV

open ScalarOpConstants MemoryOpConstants

open Rv32i (Format)

/-- The selector of a format. -/
def immTypeOf : Format → BitVec 3
  | .i => immI
  | .s => immS
  | .b => immB
  | .u => immU
  | .j => immJ
  | .z => immZ

theorem immGen_stores (w : Word) :
    ImmGen.apply immS w = Rv32i.immS w ∧ ImmGen.apply immZ w = Rv32i.immZ w := by
  refine ⟨?_, ?_⟩ <;>
    refine BitVec.eq_of_getLsbD_eq fun i hi => ?_ <;>
    simp only [ImmGen.apply, ImmGen.sign, ImmGen.b30_20, ImmGen.b19_12, ImmGen.b11,
      ImmGen.b10_5, ImmGen.b4_1, ImmGen.b0, Rv32i.immS, Rv32i.immZ, BitVec.getLsbD_append,
      BitVec.getLsbD_extractLsb', BitVec.getLsbD_signExtend, BitVec.getLsbD_setWidth,
      BitVec.msb_eq_getLsbD_last] <;>
    interval_cases i <;> simp [BitVec.getElem_signExtend, BitVec.msb_eq_getLsbD_last]

/-- The generator returns the immediate that was encoded, whatever the other
bits of the word. -/
theorem immGen_encode (format : Format) (imm : BitVec format.width) (rest : Word) :
    ImmGen.apply (immTypeOf format) (format.encode rest imm) = format.value imm := by
  cases format with
  | i => exact (immGen_apply _).1.trans (Rv32i.immI_encode rest imm)
  | s => exact (immGen_stores _).1.trans (Rv32i.immS_encode rest imm)
  | b => exact (immGen_apply _).2.1.trans (Rv32i.immB_encode rest imm)
  | u => exact (immGen_apply _).2.2.1.trans (Rv32i.immU_encode rest imm)
  | j => exact (immGen_apply _).2.2.2.trans (Rv32i.immJ_encode rest imm)
  | z => exact (immGen_stores _).2.trans (Rv32i.immZ_encode rest imm)

/-! ## The format of a row -/

/-- The immediate is an operand, or the offset of a branch target. -/
def ReadsImm (ctrl : IntCtrlSigs) : Prop := ctrl.aluOp2 = op2Imm ∨ ctrl.brType > 3

instance (ctrl : IntCtrlSigs) : Decidable (ReadsImm ctrl) := inferInstanceAs (Decidable (_ ∨ _))

/-- The bits that a pattern fixes are those of every word it matches. -/
theorem extract_of_match {pattern : BitPat} {w : Word} {start len : ℕ}
    (hmask : ∀ i < len, pattern.mask.testBit (start + i) = true) (heq : pattern.eq w = true) :
    w.extractLsb' start len = (BitVec.ofNat 32 pattern.value).extractLsb' start len := by
  rw [BitPat.eq, beq_iff_eq] at heq
  apply BitVec.eq_of_getLsbD_eq
  intro i hi
  rw [BitVec.getLsbD_extractLsb', BitVec.getLsbD_extractLsb', BitVec.getLsbD_ofNat, ← heq,
    Nat.testBit_and, hmask i hi, Bool.and_true]
  by_cases hlt : start + i < 32
  · simp only [hlt, decide_true, Bool.true_and]
    rfl
  · rw [BitVec.getLsbD_of_ge w (start + i) (Nat.le_of_not_lt hlt)]
    simp [hlt]

/-- The format of a word that a row matches. -/
theorem format_of_row : ∀ row ∈ IDecode.table, ReadsImm (rowSigs row) →
    ∀ w : Word, row.1.eq w = true →
      (Rv32i.formatOf (Rv32i.opcode w) (Rv32i.funct3 w)).map immTypeOf =
        some (rowSigs row).immType := by
  -- The opcode is fixed; `funct3` is where the format depends on it.
  have hrows : ∀ row ∈ IDecode.table, ReadsImm (rowSigs row) →
      (∀ i < 7, row.1.mask.testBit (0 + i) = true) ∧
        ∀ funct3 : BitVec 3, (∀ i < 3, row.1.mask.testBit (12 + i) = true) ∧
            funct3 ≠ Rv32i.funct3 (BitVec.ofNat 32 row.1.value) ∨
          (Rv32i.formatOf (Rv32i.opcode (BitVec.ofNat 32 row.1.value)) funct3).map immTypeOf =
            some (rowSigs row).immType := by
    decide
  intro row hrow hreads w heq
  obtain ⟨hopcode, hfunct3⟩ := hrows row hrow hreads
  have hop : Rv32i.opcode w = Rv32i.opcode (BitVec.ofNat 32 row.1.value) :=
    extract_of_match hopcode heq
  rcases hfunct3 (Rv32i.funct3 w) with ⟨hmask, hne⟩ | hformat
  · exact absurd (extract_of_match hmask heq) hne
  · rw [hop]
    exact hformat

/-- The generator inverts the encoding of every format, and every row that
reads the immediate selects the format of the words it matches. -/
structure ImmediatesCorrect : Prop where
  inverts : ∀ (format : Format) (imm : BitVec format.width) (rest : Word),
    ImmGen.apply (immTypeOf format) (format.encode rest imm) = format.value imm
  selects : ∀ row ∈ IDecode.table, ReadsImm (rowSigs row) → ∀ w : Word, row.1.eq w = true →
    (Rv32i.formatOf (Rv32i.opcode w) (Rv32i.funct3 w)).map immTypeOf = some (rowSigs row).immType

theorem immediates_correct : ImmediatesCorrect := ⟨immGen_encode, format_of_row⟩

/-- EX works on the immediate that its word encodes. -/
theorem KyogenRVCpu.exImm_encode {s : KyogenRVCpu} (hex : s.ex.Coherent)
    (hreads : ReadsImm s.ex.ctrl) {format : Format} {imm : BitVec format.width} {rest : Word}
    (hinst : s.ex.inst = format.encode rest imm)
    (hformat : Rv32i.formatOf (Rv32i.opcode s.ex.inst) (Rv32i.funct3 s.ex.inst) = some format) :
    s.exImm = format.value imm := by
  have htype : s.ex.ctrl.immType = immTypeOf format := by
    rw [hex.ctrl] at hreads ⊢
    rcases idDecode_cases s.ex.inst with hdefault | ⟨row, hrow, hmatch, hsigs⟩
    · rw [hdefault] at hreads
      exact absurd hreads (by decide)
    · rw [hsigs] at hreads ⊢
      have hrow := format_of_row row hrow hreads s.ex.inst hmatch
      rw [hformat] at hrow
      exact (Option.some.inj hrow).symm
  rw [exImm, htype, hinst, immGen_encode]

end KyogenRV
