import KyogenRV.Core.Constant

/-!
# Arithmetic logic unit

One adder serves additions, subtractions and comparisons, and one right shifter
serves all shifts: bit 3 of the operation inverts the second operand.
-/

namespace KyogenRV.ALU

abbrev aluAdd : BitVec 4 := 0
abbrev aluSll : BitVec 4 := 1
abbrev aluSeq : BitVec 4 := 2
abbrev aluSne : BitVec 4 := 3
abbrev aluXor : BitVec 4 := 4
abbrev aluSrl : BitVec 4 := 5
abbrev aluOr : BitVec 4 := 6
abbrev aluAnd : BitVec 4 := 7
abbrev aluCopy1 : BitVec 4 := 8
abbrev aluCopy2 : BitVec 4 := 9
abbrev aluSub : BitVec 4 := 10
abbrev aluSra : BitVec 4 := 11
abbrev aluSlt : BitVec 4 := 12
abbrev aluSge : BitVec 4 := 13
abbrev aluSltu : BitVec 4 := 14
abbrev aluSgeu : BitVec 4 := 15
abbrev aluX : BitVec 4 := 0

/-! ## Operation classes -/

def isSub (op : BitVec 4) : Bool := op.getLsbD 3
def isCmpU (op : BitVec 4) : Bool := decide (op ≥ aluSltu)
def isCmpI (op : BitVec 4) : Bool := op.getLsbD 0
def isCmpEq (op : BitVec 4) : Bool := !op.getLsbD 3

section Datapath

variable (aluOp : BitVec 4) (op1 op2 : Word)

def sum : Word :=
  op1 + (if isSub aluOp then ~~~op2 else op2) + (BitVec.ofBool (isSub aluOp)).setWidth 32

def shamt : BitVec 5 := op2.extractLsb' 0 5

def shin : Word :=
  if aluOp == aluSra || aluOp == aluSrl then op1 else op1.reverse

/-- The 33-bit value shifted right carries the fill bit on top. -/
def shiftR : Word :=
  ((BitVec.ofBool (isSub aluOp && (shin aluOp op1).getLsbD 31) ++ shin aluOp op1).sshiftRight
    (shamt op2).toNat).extractLsb' 0 32

def shiftL : Word := (shiftR aluOp op1 op2).reverse

def slt : Bool :=
  if op1.getLsbD 31 == op2.getLsbD 31 then (sum aluOp op1 op2).getLsbD 31
  else if isCmpU aluOp then op2.getLsbD 31 else op1.getLsbD 31

def cmpOut : Bool :=
  isCmpI aluOp ^^ (if isCmpEq aluOp then op1 ^^^ op2 == 0 else slt aluOp op1 op2)

def out : Word :=
  if aluOp == aluAdd || aluOp == aluSub then sum aluOp op1 op2
  else if aluOp == aluSlt || aluOp == aluSltu then
    (BitVec.ofBool (cmpOut aluOp op1 op2)).setWidth 32
  else if aluOp == aluSra || aluOp == aluSrl then shiftR aluOp op1 op2
  else if aluOp == aluSll then shiftL aluOp op1 op2
  else if aluOp == aluAnd then op1 &&& op2
  else if aluOp == aluOr then op1 ||| op2
  else if aluOp == aluXor then op1 ^^^ op2
  else if aluOp == aluCopy1 then op1
  else op2

theorem out_add : out aluAdd op1 op2 = op1 + op2 := by
  simp [out, sum, isSub]

end Datapath

end KyogenRV.ALU
