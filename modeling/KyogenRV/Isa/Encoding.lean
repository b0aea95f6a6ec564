import KyogenRV.Isa.Rv32i
import Mathlib.Tactic.IntervalCases

/-!
# The encodings of the instruction set

The words that encode an instruction of RV32I with the CSR instructions and the
machine-mode returns.  Apart from the system words, which are fixed, the opcode
with `funct3` and `funct7` decides.
-/

namespace Rv32i

/-- The fields select an instruction.  `FENCE` and `FENCE.I` ignore the fields
that are reserved for finer fences. -/
def selects (opcode : BitVec 7) (funct3 : BitVec 3) (funct7 : BitVec 7) : Bool :=
  if opcode = 0x37 ∨ opcode = 0x17 ∨ opcode = 0x6f then true -- LUI, AUIPC, JAL
  else if opcode = 0x67 then funct3 == 0 -- JALR
  else if opcode = 0x63 then (condOf funct3).isSome
  else if opcode = 0x03 then [0, 1, 2, 4, 5].contains funct3 -- LB, LH, LW, LBU, LHU
  else if opcode = 0x23 then [0, 1, 2].contains funct3 -- SB, SH, SW
  else if opcode = 0x13 then (opImmOf funct3 funct7).isSome
  else if opcode = 0x33 then (opRegOf funct3 funct7).isSome
  else if opcode = 0x0f then [0, 1].contains funct3 -- FENCE, FENCE.I
  else if opcode = 0x73 then [1, 2, 3, 5, 6, 7].contains funct3 -- the CSR instructions
  else false

/-- `ECALL`, `EBREAK`, `MRET` and `ERET`. -/
def systemWords : List Word := [0x00000073, 0x00100073, 0x30200073, 0x10000073]

/-- The word encodes an instruction. -/
def Implemented (w : Word) : Prop :=
  selects (opcode w) (funct3 w) (funct7 w) = true ∨ w ∈ systemWords

/-- A shift whose amount does not fit into five bits. -/
def WideShift (w : Word) : Prop :=
  opcode w = 0x13 ∧ funct3 w = 5 ∧ (funct7 w = 0x01 ∨ funct7 w = 0x21)

/-- The register instructions are among the implemented ones. -/
theorem implemented_of_decode {w : Word} {instr : Instr} (hinstr : decode w = some instr) :
    Implemented w := by
  refine Or.inl ?_
  rw [decode] at hinstr
  rw [selects]
  split_ifs at hinstr <;> simp_all [Option.isSome_iff_exists]
  all_goals exact hinstr.imp fun _ h => h.1

theorem not_implemented_of_wideShift {w : Word} (hwide : WideShift w) : ¬Implemented w := by
  obtain ⟨hop, hf3, hf7⟩ := hwide
  rintro (hselects | hword)
  · rw [hop, hf3] at hselects
    rcases hf7 with h | h <;> rw [h] at hselects <;> exact absurd hselects Bool.false_ne_true
  · simp only [systemWords, List.mem_cons, List.not_mem_nil, or_false] at hword
    rcases hword with rfl | rfl | rfl | rfl <;> exact absurd hop (by decide)

/-! ## Immediates -/

/-- The formats that carry an immediate; `z` is the `zimm` of the CSR
instructions. -/
inductive Format where
  | i | s | b | u | j | z
  deriving DecidableEq

def immS (w : Word) : Word := (w.extractLsb' 25 7 ++ w.extractLsb' 7 5).signExtend 32

def immZ (w : Word) : Word := (w.extractLsb' 15 5).setWidth 32

/-! The word `rest` with an immediate in the bits that its format gives it.  The
lowest bit of a branch or jump offset is not encoded. -/

section Encode

variable (rest : Word)

def encodeI (imm : BitVec 12) : Word := imm ++ rest.extractLsb' 0 20

def encodeS (imm : BitVec 12) : Word :=
  imm.extractLsb' 5 7 ++ rest.extractLsb' 12 13 ++ imm.extractLsb' 0 5 ++ rest.extractLsb' 0 7

/-- `imm[12|10:5]` above and `imm[4:1|11]` below. -/
def encodeB (imm : BitVec 12) : Word :=
  imm.extractLsb' 11 1 ++ imm.extractLsb' 4 6 ++ rest.extractLsb' 12 13 ++
    imm.extractLsb' 0 4 ++ imm.extractLsb' 10 1 ++ rest.extractLsb' 0 7

def encodeU (imm : BitVec 20) : Word := imm ++ rest.extractLsb' 0 12

/-- `imm[20|10:1|11|19:12]`. -/
def encodeJ (imm : BitVec 20) : Word :=
  imm.extractLsb' 19 1 ++ imm.extractLsb' 0 10 ++ imm.extractLsb' 10 1 ++
    imm.extractLsb' 11 8 ++ rest.extractLsb' 0 12

def encodeZ (imm : BitVec 5) : Word := rest.extractLsb' 20 12 ++ imm ++ rest.extractLsb' 0 15

theorem immI_encode (imm : BitVec 12) : immI (encodeI rest imm) = imm.signExtend 32 := by
  rw [immI, encodeI, BitVec.extractLsb'_append_eq_left]

theorem immS_encode (imm : BitVec 12) : immS (encodeS rest imm) = imm.signExtend 32 := by
  have hbits : (encodeS rest imm).extractLsb' 25 7 ++ (encodeS rest imm).extractLsb' 7 5 =
      imm := by
    apply BitVec.eq_of_getLsbD_eq
    intro i hi
    simp only [encodeS, BitVec.getLsbD_append, BitVec.getLsbD_extractLsb']
    interval_cases i <;> simp
  exact congrArg (BitVec.signExtend 32) hbits

theorem immB_encode (imm : BitVec 12) :
    immB (encodeB rest imm) = (imm ++ (0 : BitVec 1)).signExtend 32 := by
  refine congrArg (BitVec.signExtend 32) ?_
  apply BitVec.eq_of_getLsbD_eq
  intro i hi
  simp only [encodeB, BitVec.getLsbD_append, BitVec.getLsbD_extractLsb']
  interval_cases i <;> simp

theorem immU_encode (imm : BitVec 20) : immU (encodeU rest imm) = imm ++ (0 : BitVec 12) := by
  rw [immU, encodeU, BitVec.extractLsb'_append_eq_left]

theorem immJ_encode (imm : BitVec 20) :
    immJ (encodeJ rest imm) = (imm ++ (0 : BitVec 1)).signExtend 32 := by
  refine congrArg (BitVec.signExtend 32) ?_
  apply BitVec.eq_of_getLsbD_eq
  intro i hi
  simp only [encodeJ, BitVec.getLsbD_append, BitVec.getLsbD_extractLsb']
  interval_cases i <;> simp

theorem immZ_encode (imm : BitVec 5) : immZ (encodeZ rest imm) = imm.setWidth 32 := by
  refine congrArg (BitVec.setWidth 32) ?_
  apply BitVec.eq_of_getLsbD_eq
  intro i hi
  simp only [encodeZ, BitVec.getLsbD_append, BitVec.getLsbD_extractLsb']
  interval_cases i <;> simp

end Encode

namespace Format

/-- The bits of an immediate that a word encodes. -/
def width : Format → ℕ
  | i => 12
  | s => 12
  | b => 12
  | u => 20
  | j => 20
  | z => 5

def encode (rest : Word) : (format : Format) → BitVec format.width → Word
  | i => encodeI rest
  | s => encodeS rest
  | b => encodeB rest
  | u => encodeU rest
  | j => encodeJ rest
  | z => encodeZ rest

/-- The operand that an immediate stands for. -/
def value : (format : Format) → BitVec format.width → Word
  | i => fun (imm : BitVec 12) => imm.signExtend 32
  | s => fun (imm : BitVec 12) => imm.signExtend 32
  | b => fun (imm : BitVec 12) => (imm ++ (0 : BitVec 1)).signExtend 32
  | u => fun (imm : BitVec 20) => imm ++ (0 : BitVec 12)
  | j => fun (imm : BitVec 20) => (imm ++ (0 : BitVec 1)).signExtend 32
  | z => fun (imm : BitVec 5) => imm.setWidth 32

end Format

/-- The format that the instruction set prescribes.  Of the system instructions
only the CSR instructions with `funct3` from 5 up take an immediate operand. -/
def formatOf (opcode : BitVec 7) (funct3 : BitVec 3) : Option Format :=
  if opcode = 0x37 ∨ opcode = 0x17 then some .u -- LUI, AUIPC
  else if opcode = 0x6f then some .j -- JAL
  else if opcode = 0x63 then some .b -- branches
  else if opcode = 0x23 then some .s -- stores
  else if opcode = 0x67 ∨ opcode = 0x03 ∨ opcode = 0x13 then some .i -- JALR, loads, OP-IMM
  else if opcode = 0x73 then if funct3 = 5 ∨ funct3 = 6 ∨ funct3 = 7 then some .z else none
  else none

end Rv32i
