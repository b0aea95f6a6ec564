import KyogenRV.Core.Instructions
import KyogenRV.Core.Alu

/-!
# Instruction decode

The fields of an instruction word, the decode table with the generic
column-wise decoder that reads it, and the immediate generator.
-/

namespace KyogenRV

/-! ## Instruction fields -/

namespace IDModule

def rd (imem : Word) : BitVec 5 := imem.extractLsb' 7 5
def rs1 (imem : Word) : BitVec 5 := imem.extractLsb' 15 5
def rs2 (imem : Word) : BitVec 5 := imem.extractLsb' 20 5
def csr (imem : Word) : BitVec 12 := imem.extractLsb' 20 12

end IDModule

/-! ## The decode table -/

namespace IDecode

open ScalarOpConstants MemoryOpConstants Instructions
open ALU hiding sum slt out

/-- One line of the table: `pattern -> List(...)`. -/
abbrev row (pattern : BitPat) (values : List BitPat) : BitPat × List BitPat :=
  (pattern, values)

def table : List (BitPat × List BitPat) := [
  row lui [y, brN, op1X, op2Imm, immU, aluCopy2, wbAlu, ren1, men0, mX, mtX, CSR.n],
  row auipc [y, brN, op1Pc, op2Imm, immU, aluAdd, wbAlu, ren1, men0, mX, mtX, CSR.n],
  row jal [y, brJ, op1Pc, op2Imm, immJ, aluAdd, wbPc4, ren1, men0, mX, mtX, CSR.n],
  row jalr [y, brJr, op1Rs1, op2Imm, immI, aluAdd, wbPc4, ren1, men0, mX, mtX, CSR.n],
  row Instructions.beq [y, brEq, op1Rs1, op2Rs2, immB, aluSeq, wbX, ren0, men0, mX, mtX, CSR.n],
  row Instructions.bne [y, brNe, op1Rs1, op2Rs2, immB, aluSne, wbX, ren0, men0, mX, mtX, CSR.n],
  row blt [y, brLt, op1Rs1, op2Rs2, immB, aluSlt, wbX, ren0, men0, mX, mtX, CSR.n],
  row bge [y, brGe, op1Rs1, op2Rs2, immB, aluSge, wbX, ren0, men0, mX, mtX, CSR.n],
  row bltu [y, brLtu, op1Rs1, op2Rs2, immB, aluSltu, wbX, ren0, men0, mX, mtX, CSR.n],
  row bgeu [y, brGeu, op1Rs1, op2Rs2, immB, aluSgeu, wbX, ren0, men0, mX, mtX, CSR.n],
  row lb [y, brN, op1Rs1, op2Imm, immI, aluAdd, wbMem, ren1, men1, mXrd, mtB, CSR.n],
  row lh [y, brN, op1Rs1, op2Imm, immI, aluAdd, wbMem, ren1, men1, mXrd, mtH, CSR.n],
  row lw [y, brN, op1Rs1, op2Imm, immI, aluAdd, wbMem, ren1, men1, mXrd, mtW, CSR.n],
  row lbu [y, brN, op1Rs1, op2Imm, immI, aluAdd, wbMem, ren1, men1, mXrd, mtBu, CSR.n],
  row lhu [y, brN, op1Rs1, op2Imm, immI, aluAdd, wbMem, ren1, men1, mXrd, mtHu, CSR.n],
  row sb [y, brN, op1Rs1, op2Imm, immS, aluAdd, wbX, ren0, men1, mXwr, mtB, CSR.n],
  row sh [y, brN, op1Rs1, op2Imm, immS, aluAdd, wbX, ren0, men1, mXwr, mtH, CSR.n],
  row sw [y, brN, op1Rs1, op2Imm, immS, aluAdd, wbX, ren0, men1, mXwr, mtW, CSR.n],
  row addi [y, brN, op1Rs1, op2Imm, immI, aluAdd, wbAlu, ren1, men0, mX, mtX, CSR.n],
  row slti [y, brN, op1Rs1, op2Imm, immI, aluSlt, wbAlu, ren1, men0, mX, mtX, CSR.n],
  row sltiu [y, brN, op1Rs1, op2Imm, immI, aluSltu, wbAlu, ren1, men0, mX, mtX, CSR.n],
  row xori [y, brN, op1Rs1, op2Imm, immI, aluXor, wbAlu, ren1, men0, mX, mtX, CSR.n],
  row ori [y, brN, op1Rs1, op2Imm, immI, aluOr, wbAlu, ren1, men0, mX, mtX, CSR.n],
  row andi [y, brN, op1Rs1, op2Imm, immI, aluAnd, wbAlu, ren1, men0, mX, mtX, CSR.n],
  row slli [y, brN, op1Rs1, op2Imm, immI, aluSll, wbAlu, ren1, men0, mX, mtX, CSR.n],
  row srli [y, brN, op1Rs1, op2Imm, immI, aluSrl, wbAlu, ren1, men0, mX, mtX, CSR.n],
  row srai [y, brN, op1Rs1, op2Imm, immI, aluSra, wbAlu, ren1, men0, mX, mtX, CSR.n],
  row Instructions.add [y, brN, op1Rs1, op2Rs2, immX, aluAdd, wbAlu, ren1, men0, mX, mtX, CSR.n],
  row Instructions.sub [y, brN, op1Rs1, op2Rs2, immX, aluSub, wbAlu, ren1, men0, mX, mtX, CSR.n],
  row sll [y, brN, op1Rs1, op2Rs2, immX, aluSll, wbAlu, ren1, men0, mX, mtX, CSR.n],
  row slt [y, brN, op1Rs1, op2Rs2, immX, aluSlt, wbAlu, ren1, men0, mX, mtX, CSR.n],
  row sltu [y, brN, op1Rs1, op2Rs2, immX, aluSltu, wbAlu, ren1, men0, mX, mtX, CSR.n],
  row Instructions.xor [y, brN, op1Rs1, op2Rs2, immX, aluXor, wbAlu, ren1, men0, mX, mtX, CSR.n],
  row srl [y, brN, op1Rs1, op2Rs2, immX, aluSrl, wbAlu, ren1, men0, mX, mtX, CSR.n],
  row Instructions.sra [y, brN, op1Rs1, op2Rs2, immX, aluSra, wbAlu, ren1, men0, mX, mtX, CSR.n],
  row Instructions.or [y, brN, op1Rs1, op2Rs2, immX, aluOr, wbAlu, ren1, men0, mX, mtX, CSR.n],
  row Instructions.and [y, brN, op1Rs1, op2Rs2, immX, aluAnd, wbAlu, ren1, men0, mX, mtX, CSR.n],
  row csrrwi [y, brN, op1X, op2Imm, immZ, aluX, wbCsr, ren1, men0, mX, mtX, CSR.w],
  row csrrsi [y, brN, op1X, op2Imm, immZ, aluX, wbCsr, ren1, men0, mX, mtX, CSR.s],
  row csrrci [y, brN, op1X, op2Imm, immZ, aluX, wbCsr, ren1, men0, mX, mtX, CSR.c],
  row csrrw [y, brN, op1Rs1, op2X, immX, aluCopy1, wbCsr, ren1, men0, mX, mtX, CSR.w],
  row csrrs [y, brN, op1Rs1, op2X, immX, aluCopy1, wbCsr, ren1, men0, mX, mtX, CSR.s],
  row csrrc [y, brN, op1Rs1, op2X, immX, aluCopy1, wbCsr, ren1, men0, mX, mtX, CSR.c],
  row ecall [y, brN, op1X, op2X, immX, aluX, wbX, ren0, men0, mX, mtX, CSR.p],
  row mret [y, brRet, op1X, op2X, immX, aluX, wbX, ren0, men0, mX, mtX, CSR.p],
  row eret [y, brN, op1X, op2X, immX, aluX, wbCsr, ren0, men0, mX, mtX, CSR.p],
  row ebreak [y, brN, op1X, op2X, immX, aluX, wbX, ren0, men0, mX, mtX, CSR.p],
  row fenceI [y, brN, op1X, op2X, immX, aluX, wbX, ren0, men0, mX, mtX, CSR.n],
  row fence [y, brN, op1X, op2X, immX, aluX, wbX, ren0, men1, mX, mtX, CSR.n]]

end IDecode

namespace DecodeLogic

/-- One output: the value of the first row whose pattern matches. -/
def applyColumn {w : ℕ} (addr : BitVec w) (default : BitPat)
    (mapping : List (BitPat × BitPat)) : ℕ :=
  muxCase default.value (mapping.map fun row => (row.1.eq addr, row.2.value))

/-- `mapping(i)`: column `i` of the table, keyed by the row patterns. -/
def column (mappingIn : List (BitPat × List BitPat)) (i : ℕ) : List (BitPat × BitPat) :=
  mappingIn.filterMap fun row => row.2[i]?.map fun value => (row.1, value)

def apply {w : ℕ} (addr : BitVec w) (default : List BitPat)
    (mappingIn : List (BitPat × List BitPat)) : List ℕ :=
  default.mapIdx fun i thisDefault => applyColumn addr thisDefault (column mappingIn i)

end DecodeLogic

/-! ## Control signals -/

/-- Internal control signal bundle. -/
structure IntCtrlSigs where
  legal : Bool
  brType : BitVec 4
  aluOp1 : BitVec 2
  aluOp2 : BitVec 2
  immType : BitVec 3
  aluFunc : BitVec 4
  wbSel : BitVec 2
  rfWen : Bool
  memEn : Bool
  memWr : BitVec 2
  maskType : BitVec 3
  csrCmd : BitVec 3
  deriving DecidableEq

namespace IntCtrlSigs

open ScalarOpConstants MemoryOpConstants

def default : List BitPat :=
  [x, brX, op1X, op2X, immX, ALU.aluX, wbX, renX, menX, mX, mtX, CSR.n]

/-- `(sigs zip decoder)`: each signal takes its column. -/
def assign (decoder : List ℕ) : IntCtrlSigs where
  legal := (decoder.getD 0 0).testBit 0
  brType := BitVec.ofNat 4 (decoder.getD 1 0)
  aluOp1 := BitVec.ofNat 2 (decoder.getD 2 0)
  aluOp2 := BitVec.ofNat 2 (decoder.getD 3 0)
  immType := BitVec.ofNat 3 (decoder.getD 4 0)
  aluFunc := BitVec.ofNat 4 (decoder.getD 5 0)
  wbSel := BitVec.ofNat 2 (decoder.getD 6 0)
  rfWen := (decoder.getD 7 0).testBit 0
  memEn := (decoder.getD 8 0).testBit 0
  memWr := BitVec.ofNat 2 (decoder.getD 9 0)
  maskType := BitVec.ofNat 3 (decoder.getD 10 0)
  csrCmd := BitVec.ofNat 3 (decoder.getD 11 0)

def decode (inst : Word) (table : List (BitPat × List BitPat)) : IntCtrlSigs :=
  assign (DecodeLogic.apply inst default table)

end IntCtrlSigs

/-! ## Immediates -/

namespace ImmGen

open ScalarOpConstants

variable (sel : BitVec 3) (inst : Word)

def sign : BitVec 1 := if sel == immZ then 0 else inst.extractLsb' 31 1

def b30_20 : BitVec 11 :=
  if sel == immU then inst.extractLsb' 20 11 else (sign sel inst).signExtend 11

def b19_12 : BitVec 8 :=
  if sel != immU && sel != immJ then (sign sel inst).signExtend 8 else inst.extractLsb' 12 8

def b11 : BitVec 1 :=
  if sel == immU || sel == immZ then 0
  else if sel == immJ then inst.extractLsb' 20 1
  else if sel == immB then inst.extractLsb' 7 1
  else sign sel inst

def b10_5 : BitVec 6 :=
  if sel == immU || sel == immZ then 0 else inst.extractLsb' 25 6

def b4_1 : BitVec 4 :=
  if sel == immU then 0
  else if sel == immS || sel == immB then inst.extractLsb' 8 4
  else if sel == immZ then inst.extractLsb' 16 4
  else inst.extractLsb' 21 4

def b0 : BitVec 1 :=
  if sel == immS then inst.extractLsb' 7 1
  else if sel == immI then inst.extractLsb' 20 1
  else if sel == immZ then inst.extractLsb' 15 1
  else 0

def apply : Word :=
  sign sel inst ++ b30_20 sel inst ++ b19_12 sel inst ++ b11 sel inst ++
    b10_5 sel inst ++ b4_1 sel inst ++ b0 sel inst

end ImmGen

end KyogenRV
