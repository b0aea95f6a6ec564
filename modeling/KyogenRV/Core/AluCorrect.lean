import KyogenRV.Core.Alu
import KyogenRV.Isa.Rv32i

/-!
# What the ALU computes

The shared adder and the shared right shifter implement the operations and the
branch conditions of RV32I.
-/

namespace KyogenRV.ALU

section Compare

variable (op1 op2 : Word) {aluOp : BitVec 4}

/-- Inverting the second operand with a carry in subtracts it. -/
theorem sum_of_isSub (hsub : isSub aluOp = true) : sum aluOp op1 op2 = op1 - op2 := by
  rw [sum, hsub, BitVec.sub_eq_add_neg, BitVec.neg_eq_not_add, ← BitVec.add_assoc]
  rfl

theorem getLsbD_31 (x : Word) : x.getLsbD 31 = decide (2 ^ 31 ≤ x.toNat) :=
  (BitVec.msb_eq_getLsbD_last x).symm.trans (BitVec.msb_eq_decide x)

theorem slt_of_signed (hsub : isSub aluOp = true) (hsigned : isCmpU aluOp = false) :
    slt aluOp op1 op2 = op1.slt op2 := by
  have h1 := op1.isLt
  have h2 := op2.isLt
  have hslt : op1.slt op2 = decide (op1.toInt < op2.toInt) := rfl
  rw [slt, sum_of_isSub op1 op2 hsub, hsigned, hslt, BitVec.toInt_eq_toNat_cond,
    BitVec.toInt_eq_toNat_cond]
  by_cases hs1 : 2 ^ 31 ≤ op1.toNat <;> by_cases hs2 : 2 ^ 31 ≤ op2.toNat <;>
    simp only [getLsbD_31, hs1, hs2, decide_true, decide_false, BitVec.toNat_sub] <;>
    simp <;> omega

theorem slt_of_unsigned (hsub : isSub aluOp = true) (hunsigned : isCmpU aluOp = true) :
    slt aluOp op1 op2 = op1.ult op2 := by
  have h1 := op1.isLt
  have h2 := op2.isLt
  have hult : op1.ult op2 = decide (op1.toNat < op2.toNat) := rfl
  rw [slt, sum_of_isSub op1 op2 hsub, hunsigned, hult]
  by_cases hs1 : 2 ^ 31 ≤ op1.toNat <;> by_cases hs2 : 2 ^ 31 ≤ op2.toNat <;>
    simp only [getLsbD_31, hs1, hs2, decide_true, decide_false, BitVec.toNat_sub] <;>
    simp <;> omega

theorem cmpOut_of_isSub (hsub : isSub aluOp = true) :
    cmpOut aluOp op1 op2 = (isCmpI aluOp ^^ slt aluOp op1 op2) := by
  have heq : isCmpEq aluOp = false := by rw [isCmpEq, ← isSub, hsub]; rfl
  rw [cmpOut, heq, if_neg Bool.false_ne_true]

end Compare

section Shift

variable (op1 op2 : Word)

/-- Below the fill bit the 33-bit shift fills with that bit. -/
theorem getLsbD_shifted (fill : Bool) (x : Word) (n : ℕ) {i : ℕ} (hi : i < 32) :
    (((BitVec.ofBool fill ++ x).sshiftRight n).extractLsb' 0 32).getLsbD i =
      if n + i < 32 then x.getLsbD (n + i) else fill := by
  have hmsb : (BitVec.ofBool fill ++ x).msb = fill := by
    rw [BitVec.msb_append]
    cases fill <;> rfl
  rw [BitVec.getLsbD_extractLsb', Nat.zero_add, BitVec.getLsbD_sshiftRight, hmsb,
    BitVec.getLsbD_append]
  by_cases hlow : n + i < 32
  · simp [hi, hlow, show ¬33 ≤ i by omega, show n + i < 33 by omega]
  · by_cases htop : n + i < 33
    · obtain rfl : n = 32 - i := by omega
      simp [hi, show ¬33 ≤ i by omega, show 32 - i + i = 32 by omega]
    · simp [hi, hlow, htop, show ¬33 ≤ i by omega]

theorem shiftR_srl : shiftR aluSrl op1 op2 = op1 >>> (shamt op2).toNat := by
  have hshin : shin aluSrl op1 = op1 := by simp [shin]
  refine BitVec.eq_of_getLsbD_eq fun i hi => ?_
  rw [shiftR, hshin, getLsbD_shifted _ _ _ hi, BitVec.getLsbD_ushiftRight]
  split_ifs with hlow
  · rfl
  · rw [BitVec.getLsbD_of_ge _ _ (Nat.le_of_not_lt hlow)]
    simp [isSub]

theorem shiftR_sra : shiftR aluSra op1 op2 = op1.sshiftRight (shamt op2).toNat := by
  have hshin : shin aluSra op1 = op1 := by simp [shin]
  have hfill : (isSub aluSra && op1.getLsbD 31) = op1.msb :=
    (BitVec.msb_eq_getLsbD_last op1).symm
  refine BitVec.eq_of_getLsbD_eq fun i hi => ?_
  rw [shiftR, hshin, getLsbD_shifted _ _ _ hi, BitVec.getLsbD_sshiftRight, hfill]
  simp [hi]

/-- A left shift is a right shift of the reversed word. -/
theorem shiftL_sll : shiftL aluSll op1 op2 = op1 <<< (shamt op2).toNat := by
  have hshin : shin aluSll op1 = op1.reverse := by simp [shin]
  have hsub : isSub aluSll = false := rfl
  refine BitVec.eq_of_getLsbD_eq fun i hi => ?_
  rw [shiftL, shiftR, hshin, BitVec.getLsbD_reverse, BitVec.getMsbD_eq_getLsbD,
    getLsbD_shifted _ _ _ (by omega), BitVec.getLsbD_shiftLeft, hsub, BitVec.getLsbD_reverse,
    BitVec.getMsbD_eq_getLsbD]
  by_cases hlow : i < (shamt op2).toNat
  · simp [hlow]
    omega
  · simp [hi, hlow, show (shamt op2).toNat + (31 - i) < 32 by omega]
    congr 1
    omega

end Shift

/-! ## Operations -/

/-- The ALU operation of an RV32I operation. -/
def ofAluOp : Rv32i.AluOp → BitVec 4
  | .add => aluAdd
  | .sub => aluSub
  | .sll => aluSll
  | .slt => aluSlt
  | .sltu => aluSltu
  | .xor => aluXor
  | .srl => aluSrl
  | .sra => aluSra
  | .or => aluOr
  | .and => aluAnd

theorem out_ofAluOp (op : Rv32i.AluOp) (op1 op2 : Word) :
    out (ofAluOp op) op1 op2 = op.eval op1 op2 := by
  cases op with
  | add => exact out_add op1 op2
  | sub => exact sum_of_isSub op1 op2 rfl
  | sll => exact shiftL_sll op1 op2
  | slt =>
      have hcmp : cmpOut aluSlt op1 op2 = op1.slt op2 := by
        rw [cmpOut_of_isSub op1 op2 rfl, slt_of_signed op1 op2 rfl rfl]
        exact Bool.false_xor _
      change (BitVec.ofBool (cmpOut aluSlt op1 op2)).setWidth 32 = _
      rw [hcmp, Rv32i.AluOp.eval]
      cases op1.slt op2 <;> rfl
  | sltu =>
      have hcmp : cmpOut aluSltu op1 op2 = op1.ult op2 := by
        rw [cmpOut_of_isSub op1 op2 rfl, slt_of_unsigned op1 op2 rfl rfl]
        exact Bool.false_xor _
      change (BitVec.ofBool (cmpOut aluSltu op1 op2)).setWidth 32 = _
      rw [hcmp, Rv32i.AluOp.eval]
      cases op1.ult op2 <;> rfl
  | xor => rfl
  | srl => exact shiftR_srl op1 op2
  | sra => exact shiftR_sra op1 op2
  | or => rfl
  | and => rfl

/-- The ALU operation of a branch condition. -/
def ofCond : Rv32i.Cond → BitVec 4
  | .eq => aluSeq
  | .ne => aluSne
  | .lt => aluSlt
  | .ge => aluSge
  | .ltu => aluSltu
  | .geu => aluSgeu

theorem cmpOut_ofCond (cond : Rv32i.Cond) (op1 op2 : Word) :
    cmpOut (ofCond cond) op1 op2 = cond.holds op1 op2 := by
  have heq : (op1 ^^^ op2 == 0) = (op1 == op2) := by
    rw [Bool.eq_iff_iff, beq_iff_eq, beq_iff_eq]
    exact BitVec.xor_eq_zero_iff
  cases cond with
  | eq => exact (Bool.false_xor _).trans heq
  | ne => exact (Bool.true_xor _).trans (congrArg not heq)
  | lt =>
      rw [ofCond, cmpOut_of_isSub op1 op2 rfl, slt_of_signed op1 op2 rfl rfl]
      exact Bool.false_xor _
  | ge =>
      rw [ofCond, cmpOut_of_isSub op1 op2 rfl, slt_of_signed op1 op2 rfl rfl]
      exact Bool.true_xor _
  | ltu =>
      rw [ofCond, cmpOut_of_isSub op1 op2 rfl, slt_of_unsigned op1 op2 rfl rfl]
      exact Bool.false_xor _
  | geu =>
      rw [ofCond, cmpOut_of_isSub op1 op2 rfl, slt_of_unsigned op1 op2 rfl rfl]
      exact Bool.true_xor _

/-! ## The plain definition -/

section Plain

variable (aluOp : BitVec 4) (op1 op2 : Word)

/-- A comparison as a word. -/
def boolWord (b : Bool) : Word := (BitVec.ofBool b).setWidth 32

/-- `MuxLookup(alu_op, op2, ...)`: every operation by itself. -/
def muxLookup : Word :=
  muxCase op2 [
    (aluOp == aluAdd, op1 + op2),
    (aluOp == aluSll, op1 <<< (shamt op2).toNat),
    (aluOp == aluSeq, boolWord (op1 == op2)),
    (aluOp == aluSne, boolWord (op1 != op2)),
    (aluOp == aluXor, op1 ^^^ op2),
    (aluOp == aluSrl, op1 >>> (shamt op2).toNat),
    (aluOp == aluOr, op1 ||| op2),
    (aluOp == aluAnd, op1 &&& op2),
    (aluOp == aluSub, op1 - op2),
    (aluOp == aluSra, op1.sshiftRight (shamt op2).toNat),
    (aluOp == aluSlt, boolWord (decide (op1.toInt < op2.toInt))),
    (aluOp == aluSge, boolWord (decide (op1.toInt ≥ op2.toInt))),
    (aluOp == aluSltu, boolWord (decide (op1.toNat < op2.toNat))),
    (aluOp == aluSgeu, boolWord (decide (op1.toNat ≥ op2.toNat))),
    (aluOp == aluCopy1, op1),
    (aluOp == aluCopy2, op2)]

/-- The operations that have a result; the other comparisons serve branches. -/
def resultOps : List (BitVec 4) :=
  [aluAdd, aluSub, aluSll, aluSrl, aluSra, aluSlt, aluSltu, aluXor, aluOr, aluAnd, aluCopy1,
    aluCopy2]

/-- The ALU computes what its operations are named for. -/
structure MeetsPlain : Prop where
  out : ∀ aluOp ∈ resultOps, out aluOp op1 op2 = muxLookup aluOp op1 op2
  seq : cmpOut aluSeq op1 op2 = true ↔ op1 = op2
  sne : cmpOut aluSne op1 op2 = true ↔ op1 ≠ op2
  slt : cmpOut aluSlt op1 op2 = true ↔ op1.toInt < op2.toInt
  sge : cmpOut aluSge op1 op2 = true ↔ op1.toInt ≥ op2.toInt
  sltu : cmpOut aluSltu op1 op2 = true ↔ op1.toNat < op2.toNat
  sgeu : cmpOut aluSgeu op1 op2 = true ↔ op1.toNat ≥ op2.toNat

/-- The shared adder and shifter compute every operation as if it were alone. -/
theorem meetsPlain : MeetsPlain op1 op2 where
  out := by
    have hslt : (if op1.slt op2 then 1 else 0 : Word) =
        boolWord (decide (op1.toInt < op2.toInt)) := by
      rw [BitVec.slt]
      by_cases h : op1.toInt < op2.toInt <;> simp [h, boolWord]
    have hsltu : (if op1.ult op2 then 1 else 0 : Word) =
        boolWord (decide (op1.toNat < op2.toNat)) := by
      rw [BitVec.ult]
      by_cases h : op1.toNat < op2.toNat <;> simp [h, boolWord]
    intro aluOp hop
    simp only [resultOps, List.mem_cons, List.not_mem_nil, or_false] at hop
    rcases hop with rfl | rfl | rfl | rfl | rfl | rfl | rfl | rfl | rfl | rfl | rfl | rfl
    · exact out_ofAluOp .add op1 op2
    · exact out_ofAluOp .sub op1 op2
    · exact out_ofAluOp .sll op1 op2
    · exact out_ofAluOp .srl op1 op2
    · exact out_ofAluOp .sra op1 op2
    · exact (out_ofAluOp .slt op1 op2).trans hslt
    · exact (out_ofAluOp .sltu op1 op2).trans hsltu
    · exact out_ofAluOp .xor op1 op2
    · exact out_ofAluOp .or op1 op2
    · exact out_ofAluOp .and op1 op2
    · rfl
    · rfl
  seq := by
    have hcmp : cmpOut aluSeq op1 op2 = (op1 == op2) := cmpOut_ofCond .eq op1 op2
    rw [hcmp, beq_iff_eq]
  sne := by
    have hcmp : cmpOut aluSne op1 op2 = (op1 != op2) := cmpOut_ofCond .ne op1 op2
    rw [hcmp, bne_iff_ne]
  slt := by
    have hcmp : cmpOut aluSlt op1 op2 = op1.slt op2 := cmpOut_ofCond .lt op1 op2
    rw [hcmp, BitVec.slt_iff_toInt_lt]
  sge := by
    have hcmp : cmpOut aluSge op1 op2 = !op1.slt op2 := cmpOut_ofCond .ge op1 op2
    rw [hcmp, Bool.not_eq_true', ← Bool.not_eq_true, BitVec.slt_iff_toInt_lt, not_lt]
  sltu := by
    have hcmp : cmpOut aluSltu op1 op2 = op1.ult op2 := cmpOut_ofCond .ltu op1 op2
    rw [hcmp, BitVec.ult_iff_toNat_lt]
  sgeu := by
    have hcmp : cmpOut aluSgeu op1 op2 = !op1.ult op2 := cmpOut_ofCond .geu op1 op2
    rw [hcmp, Bool.not_eq_true', ← Bool.not_eq_true, BitVec.ult_iff_toNat_lt, not_lt]

end Plain

end KyogenRV.ALU
