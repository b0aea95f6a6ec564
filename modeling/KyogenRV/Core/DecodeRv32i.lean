import KyogenRV.Core.Decode
import KyogenRV.Core.AluCorrect
import Mathlib.Data.List.Find
import Mathlib.Tactic.IntervalCases

/-!
# The decoder on RV32I

Outside the system instructions a row matches by opcode, `funct3` and `funct7`
alone.  With these seventeen bits enumerated class by class, the decoder gives
every RV32I register instruction the control bundle of its kind.
-/

namespace KyogenRV

open ScalarOpConstants MemoryOpConstants

/-! ## The bits that select a row -/

/-- The word with the given selecting bits and zero elsewhere. -/
def selecting (funct7 : BitVec 7) (funct3 : BitVec 3) (opcode : BitVec 7) : Word :=
  funct7 ++ (0 : BitVec 10) ++ funct3 ++ (0 : BitVec 5) ++ opcode

theorem and_selecting (w : Word) :
    w &&& 0xfe00707f = selecting (Rv32i.funct7 w) (Rv32i.funct3 w) (Rv32i.opcode w) := by
  refine BitVec.eq_of_getLsbD_eq fun i hi => ?_
  simp only [selecting, Rv32i.funct7, Rv32i.funct3, Rv32i.opcode, BitVec.getLsbD_and,
    BitVec.getLsbD_append, BitVec.getLsbD_extractLsb']
  interval_cases i <;> simp

theorem eq_selecting_zero {pattern : BitPat} (hmask : 0x0000707f &&& pattern.mask = pattern.mask)
    (f7 : BitVec 7) (f3 : BitVec 3) (op : BitVec 7) :
    pattern.eq (selecting f7 f3 op) = pattern.eq (selecting 0 f3 op) := by
  have hlow : selecting f7 f3 op &&& 0x0000707f = selecting 0 f3 op := by
    refine BitVec.eq_of_getLsbD_eq fun i hi => ?_
    simp only [selecting, BitVec.getLsbD_and, BitVec.getLsbD_append]
    interval_cases i <;> simp
  rw [← hlow, BitPat.eq, BitPat.eq, BitVec.toNat_and, Nat.and_assoc]
  exact congrArg (fun mask => (selecting f7 f3 op).toNat &&& mask == pattern.value) hmask.symm

/-- The rows of one opcode. -/
def rowsOf (opcode : BitVec 7) : List (BitPat × List BitPat) :=
  IDecode.table.filter fun row => row.1.value % 128 == opcode.toNat

/-- The bundle that the decoder selects by opcode, `funct3` and `funct7`. -/
def selected (funct7 : BitVec 7) (funct3 : BitVec 3) (opcode : BitVec 7) : IntCtrlSigs :=
  ((rowsOf opcode).find? fun row => row.1.eq (selecting funct7 funct3 opcode)).elim
    defaultSigs rowSigs

/-! ## The bundle of each kind of instruction -/

/-- An instruction that writes its ALU result. -/
def aluCtrl (aluOp1 aluOp2 : BitVec 2) (immType : BitVec 3) (aluFunc : BitVec 4) :
    IntCtrlSigs where
  legal := true
  brType := brN
  aluOp1 := aluOp1
  aluOp2 := aluOp2
  immType := immType
  aluFunc := aluFunc
  wbSel := wbAlu
  rfWen := true
  memEn := false
  memWr := mX
  maskType := 0
  csrCmd := CSR.n

def brOf : Rv32i.Cond → BitVec 4
  | .eq => brEq
  | .ne => brNe
  | .lt => brLt
  | .ge => brGe
  | .ltu => brLtu
  | .geu => brGeu

def branchCtrl (cond : Rv32i.Cond) : IntCtrlSigs :=
  { aluCtrl op1Rs1 op2Rs2 immB (ALU.ofCond cond) with
    brType := brOf cond
    wbSel := 0
    rfWen := false }

def ctrlOf : Rv32i.Instr → IntCtrlSigs
  | .lui .. => aluCtrl 0 op2Imm immU ALU.aluCopy2
  | .auipc .. => aluCtrl op1Pc op2Imm immU ALU.aluAdd
  | .jal .. => { aluCtrl op1Pc op2Imm immJ ALU.aluAdd with brType := brJ, wbSel := wbPc4 }
  | .jalr .. => { aluCtrl op1Rs1 op2Imm immI ALU.aluAdd with brType := brJr, wbSel := wbPc4 }
  | .branch cond .. => branchCtrl cond
  | .opImm op .. => aluCtrl op1Rs1 op2Imm immI (ALU.ofAluOp op)
  | .opReg op .. => aluCtrl op1Rs1 op2Rs2 0 (ALU.ofAluOp op)

/-- Rows that do not read `funct7` are selected without it. -/
theorem selected_eq_zero {opcode : BitVec 7}
    (hmasks : ∀ row ∈ rowsOf opcode, 0x0000707f &&& row.1.mask = row.1.mask)
    (f7 : BitVec 7) (f3 : BitVec 3) : selected f7 f3 opcode = selected 0 f3 opcode := by
  rw [selected, selected]
  congr 1
  refine List.find?_congr fun row hrow => ?_
  rw [eq_selecting_zero (hmasks row hrow)]

theorem masks_of_plain : ∀ opcode ∈ [0x37, 0x17, 0x6f, 0x67, (0x63 : BitVec 7)],
    ∀ row ∈ rowsOf opcode, 0x0000707f &&& row.1.mask = row.1.mask := by
  decide

theorem selected_of_opcode (f7 : BitVec 7) (f3 : BitVec 3) :
    selected f7 f3 0x37 = aluCtrl 0 op2Imm immU ALU.aluCopy2 ∧
    selected f7 f3 0x17 = aluCtrl op1Pc op2Imm immU ALU.aluAdd ∧
    selected f7 f3 0x6f =
      { aluCtrl op1Pc op2Imm immJ ALU.aluAdd with brType := brJ, wbSel := wbPc4 } := by
  rw [selected_eq_zero (masks_of_plain 0x37 (by decide)),
    selected_eq_zero (masks_of_plain 0x17 (by decide)),
    selected_eq_zero (masks_of_plain 0x6f (by decide))]
  revert f3
  decide

theorem selected_jalr (f7 : BitVec 7) :
    selected f7 0 0x67 =
      { aluCtrl op1Rs1 op2Imm immI ALU.aluAdd with brType := brJr, wbSel := wbPc4 } := by
  rw [selected_eq_zero (masks_of_plain 0x67 (by decide))]
  decide

theorem selected_branch (f7 : BitVec 7) (f3 : BitVec 3) :
    ∀ cond ∈ Rv32i.condOf f3, selected f7 f3 0x63 = branchCtrl cond := by
  rw [selected_eq_zero (masks_of_plain 0x63 (by decide))]
  revert f3
  decide

theorem selected_opImm (f7 : BitVec 7) (f3 : BitVec 3) :
    ∀ op ∈ Rv32i.opImmOf f3 f7,
      selected f7 f3 0x13 = aluCtrl op1Rs1 op2Imm immI (ALU.ofAluOp op) := by
  revert f7 f3
  decide

theorem selected_opReg (f7 : BitVec 7) (f3 : BitVec 3) :
    ∀ op ∈ Rv32i.opRegOf f3 f7,
      selected f7 f3 0x33 = aluCtrl op1Rs1 op2Rs2 0 (ALU.ofAluOp op) := by
  revert f7 f3
  decide

/-! ## Selection by the seventeen bits -/

/-- A row is either read by the selecting bits alone, or is one system word. -/
theorem table_masks : ∀ row ∈ IDecode.table,
    0xfe00707f &&& row.1.mask = row.1.mask ∧ row.1.mask % 128 = 127 ∨
      row.1.mask = 2 ^ 32 - 1 ∧ row.1.value % 128 = 0x73 := by
  decide

theorem opcode_toNat (w : Word) : (Rv32i.opcode w).toNat = w.toNat % 128 := by
  simp [Rv32i.opcode]

theorem eq_selecting {pattern : BitPat} (hmask : 0xfe00707f &&& pattern.mask = pattern.mask)
    (w : Word) : pattern.eq w =
      pattern.eq (selecting (Rv32i.funct7 w) (Rv32i.funct3 w) (Rv32i.opcode w)) := by
  rw [← and_selecting, BitPat.eq, BitPat.eq, BitVec.toNat_and, Nat.and_assoc]
  exact congrArg (fun mask => w.toNat &&& mask == pattern.value) hmask.symm

/-- A matching row that reads the opcode has the opcode of the word. -/
theorem opcode_of_match {pattern : BitPat} {w : Word} (hmask : pattern.mask % 128 = 127)
    (heq : pattern.eq w = true) : w.toNat % 128 = pattern.value % 128 := by
  rw [BitPat.eq, beq_iff_eq] at heq
  have hlow := Nat.and_mod_two_pow (a := w.toNat) (b := pattern.mask) (n := 7)
  rw [heq, show pattern.mask % 2 ^ 7 = 2 ^ 7 - 1 from hmask, Nat.and_two_pow_sub_one_eq_mod,
    Nat.mod_mod] at hlow
  exact hlow.symm

/-- Apart from the system words the selecting bits determine the bundle. -/
theorem idDecode_eq_selected {w : Word} (hop : Rv32i.opcode w ≠ 0x73) :
    idDecode w = selected (Rv32i.funct7 w) (Rv32i.funct3 w) (Rv32i.opcode w) := by
  have hne : w.toNat % 128 ≠ 0x73 := by
    rw [← opcode_toNat]
    exact fun h => hop (BitVec.eq_of_toNat_eq h)
  rw [idDecode_eq, selected, rowsOf, List.find?_filter, opcode_toNat]
  congr 1
  refine List.find?_congr fun row hrow => ?_
  rw [Bool.eq_iff_iff, decide_eq_true_iff, beq_iff_eq]
  rcases table_masks row hrow with ⟨hmask, hopcode⟩ | ⟨hfull, hsystem⟩
  · rw [← eq_selecting hmask w]
    exact ⟨fun heq => ⟨(opcode_of_match hopcode heq).symm, heq⟩, And.right⟩
  · constructor
    · intro heq
      rw [BitPat.eq_of_mask_full hfull heq, BitVec.toNat_ofNat,
        Nat.mod_mod_of_dvd _ (by decide : 128 ∣ 2 ^ 32)] at hne
      exact absurd hsystem hne
    · rintro ⟨heq, _⟩
      exact absurd (heq.symm.trans hsystem) hne

/-- The decoder gives every RV32I register instruction the bundle of its kind. -/
theorem idDecode_of_decode {w : Word} {instr : Rv32i.Instr}
    (hinstr : Rv32i.decode w = some instr) : idDecode w = ctrlOf instr := by
  obtain ⟨hlui, hauipc, hjal⟩ := selected_of_opcode (Rv32i.funct7 w) (Rv32i.funct3 w)
  have hselect {opcode : BitVec 7} (hop : Rv32i.opcode w = opcode) (hne : opcode ≠ 0x73) :
      idDecode w = selected (Rv32i.funct7 w) (Rv32i.funct3 w) opcode :=
    hop ▸ idDecode_eq_selected (hop ▸ hne)
  rw [Rv32i.decode] at hinstr
  split_ifs at hinstr with h h h h hf h h h
  · obtain rfl := Option.some.inj hinstr
    exact (hselect h (by decide)).trans hlui
  · obtain rfl := Option.some.inj hinstr
    exact (hselect h (by decide)).trans hauipc
  · obtain rfl := Option.some.inj hinstr
    exact (hselect h (by decide)).trans hjal
  · obtain rfl := Option.some.inj hinstr
    rw [hselect h (by decide), hf]
    exact selected_jalr _
  · obtain ⟨cond, hcond, rfl⟩ := Option.map_eq_some_iff.mp hinstr
    exact (hselect h (by decide)).trans (selected_branch _ _ cond hcond)
  · obtain ⟨op, hop, rfl⟩ := Option.map_eq_some_iff.mp hinstr
    exact (hselect h (by decide)).trans (selected_opImm _ _ op hop)
  · obtain ⟨op, hop, rfl⟩ := Option.map_eq_some_iff.mp hinstr
    exact (hselect h (by decide)).trans (selected_opReg _ _ op hop)

/-! ## Immediates -/

/-- The immediate generator assembles the immediates of RV32I. -/
theorem immGen_apply (w : Word) :
    ImmGen.apply immI w = Rv32i.immI w ∧ ImmGen.apply immB w = Rv32i.immB w ∧
      ImmGen.apply immU w = Rv32i.immU w ∧ ImmGen.apply immJ w = Rv32i.immJ w := by
  refine ⟨?_, ?_, ?_, ?_⟩ <;>
    refine BitVec.eq_of_getLsbD_eq fun i hi => ?_ <;>
    simp only [ImmGen.apply, ImmGen.sign, ImmGen.b30_20, ImmGen.b19_12, ImmGen.b11,
      ImmGen.b10_5, ImmGen.b4_1, ImmGen.b0, Rv32i.immI, Rv32i.immB, Rv32i.immU, Rv32i.immJ,
      BitVec.getLsbD_append, BitVec.getLsbD_extractLsb', BitVec.getLsbD_signExtend,
      BitVec.msb_eq_getLsbD_last] <;>
    interval_cases i <;> simp [BitVec.getElem_signExtend, BitVec.msb_eq_getLsbD_last]

end KyogenRV
