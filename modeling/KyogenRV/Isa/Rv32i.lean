import Mathlib.Data.List.Basic
import Mathlib.Logic.Function.Iterate

/-!
# RV32I register instructions

The instructions of RV32I that neither access memory nor the system: their
encoding, what each does to the program counter and the registers, and the
one-instruction-at-a-time execution of a program image.
-/

namespace Rv32i

abbrev Word := BitVec 32

/-! ## Instructions -/

inductive AluOp where
  | add | sub | sll | slt | sltu | xor | srl | sra | or | and
  deriving DecidableEq

inductive Cond where
  | eq | ne | lt | ge | ltu | geu
  deriving DecidableEq

inductive Instr where
  | lui (rd : BitVec 5) (imm : Word)
  | auipc (rd : BitVec 5) (imm : Word)
  | jal (rd : BitVec 5) (imm : Word)
  | jalr (rd rs1 : BitVec 5) (imm : Word)
  | branch (cond : Cond) (rs1 rs2 : BitVec 5) (imm : Word)
  | opImm (op : AluOp) (rd rs1 : BitVec 5) (imm : Word)
  | opReg (op : AluOp) (rd rs1 rs2 : BitVec 5)
  deriving DecidableEq

/-! ## Encoding -/

section Fields

variable (w : Word)

def opcode : BitVec 7 := w.extractLsb' 0 7
def rd : BitVec 5 := w.extractLsb' 7 5
def funct3 : BitVec 3 := w.extractLsb' 12 3
def rs1 : BitVec 5 := w.extractLsb' 15 5
def rs2 : BitVec 5 := w.extractLsb' 20 5
def funct7 : BitVec 7 := w.extractLsb' 25 7

def immI : Word := (w.extractLsb' 20 12).signExtend 32

def immB : Word :=
  (w.extractLsb' 31 1 ++ w.extractLsb' 7 1 ++ w.extractLsb' 25 6 ++ w.extractLsb' 8 4 ++
    (0 : BitVec 1)).signExtend 32

def immU : Word := w.extractLsb' 12 20 ++ (0 : BitVec 12)

def immJ : Word :=
  (w.extractLsb' 31 1 ++ w.extractLsb' 12 8 ++ w.extractLsb' 20 1 ++ w.extractLsb' 21 10 ++
    (0 : BitVec 1)).signExtend 32

end Fields

def opImmOf (funct3 : BitVec 3) (funct7 : BitVec 7) : Option AluOp :=
  if funct3 = 0 then some .add
  else if funct3 = 1 then if funct7 = 0 then some .sll else none
  else if funct3 = 2 then some .slt
  else if funct3 = 3 then some .sltu
  else if funct3 = 4 then some .xor
  else if funct3 = 5 then
    if funct7 = 0 then some .srl else if funct7 = 0x20 then some .sra else none
  else if funct3 = 6 then some .or
  else some .and

def opRegOf (funct3 : BitVec 3) (funct7 : BitVec 7) : Option AluOp :=
  if funct7 = 0x20 then
    if funct3 = 0 then some .sub else if funct3 = 5 then some .sra else none
  else if funct7 = 0 then
    if funct3 = 0 then some .add
    else if funct3 = 1 then some .sll
    else if funct3 = 2 then some .slt
    else if funct3 = 3 then some .sltu
    else if funct3 = 4 then some .xor
    else if funct3 = 5 then some .srl
    else if funct3 = 6 then some .or
    else some .and
  else none

def condOf (funct3 : BitVec 3) : Option Cond :=
  if funct3 = 0 then some .eq
  else if funct3 = 1 then some .ne
  else if funct3 = 4 then some .lt
  else if funct3 = 5 then some .ge
  else if funct3 = 6 then some .ltu
  else if funct3 = 7 then some .geu
  else none

/-- The instruction that a word encodes. -/
def decode (w : Word) : Option Instr :=
  if opcode w = 0x37 then some (.lui (rd w) (immU w))
  else if opcode w = 0x17 then some (.auipc (rd w) (immU w))
  else if opcode w = 0x6f then some (.jal (rd w) (immJ w))
  else if opcode w = 0x67 then
    if funct3 w = 0 then some (.jalr (rd w) (rs1 w) (immI w)) else none
  else if opcode w = 0x63 then
    (condOf (funct3 w)).map fun cond => .branch cond (rs1 w) (rs2 w) (immB w)
  else if opcode w = 0x13 then
    (opImmOf (funct3 w) (funct7 w)).map fun op => .opImm op (rd w) (rs1 w) (immI w)
  else if opcode w = 0x33 then
    (opRegOf (funct3 w) (funct7 w)).map fun op => .opReg op (rd w) (rs1 w) (rs2 w)
  else none

/-- The instructions that the fields of a word can make up. -/
inductive Encodes (w : Word) : Instr → Prop
  | lui : Encodes w (.lui (rd w) (immU w))
  | auipc : Encodes w (.auipc (rd w) (immU w))
  | jal : Encodes w (.jal (rd w) (immJ w))
  | jalr : Encodes w (.jalr (rd w) (rs1 w) (immI w))
  | branch (cond : Cond) : Encodes w (.branch cond (rs1 w) (rs2 w) (immB w))
  | opImm (op : AluOp) : Encodes w (.opImm op (rd w) (rs1 w) (immI w))
  | opReg (op : AluOp) : Encodes w (.opReg op (rd w) (rs1 w) (rs2 w))

theorem encodes_of_decode {w : Word} {instr : Instr} (hinstr : decode w = some instr) :
    Encodes w instr := by
  rw [decode] at hinstr
  split_ifs at hinstr
  · obtain rfl := Option.some.inj hinstr
    exact .lui
  · obtain rfl := Option.some.inj hinstr
    exact .auipc
  · obtain rfl := Option.some.inj hinstr
    exact .jal
  · obtain rfl := Option.some.inj hinstr
    exact .jalr
  · obtain ⟨cond, _, rfl⟩ := Option.map_eq_some_iff.mp hinstr
    exact .branch cond
  · obtain ⟨op, _, rfl⟩ := Option.map_eq_some_iff.mp hinstr
    exact .opImm op
  · obtain ⟨op, _, rfl⟩ := Option.map_eq_some_iff.mp hinstr
    exact .opReg op

/-! ## Execution -/

/-- The program counter and the registers; `x0` reads as zero. -/
structure State where
  pc : Word
  regs : BitVec 5 → Word

/-- The state after reset. -/
def State.start : State := ⟨0, fun _ => 0⟩

def State.read (σ : State) (r : BitVec 5) : Word := if r = 0 then 0 else σ.regs r

def AluOp.eval : AluOp → Word → Word → Word
  | .add, a, b => a + b
  | .sub, a, b => a - b
  | .sll, a, b => a <<< (b.extractLsb' 0 5).toNat
  | .slt, a, b => if a.slt b then 1 else 0
  | .sltu, a, b => if a.ult b then 1 else 0
  | .xor, a, b => a ^^^ b
  | .srl, a, b => a >>> (b.extractLsb' 0 5).toNat
  | .sra, a, b => a.sshiftRight (b.extractLsb' 0 5).toNat
  | .or, a, b => a ||| b
  | .and, a, b => a &&& b

def Cond.holds : Cond → Word → Word → Bool
  | .eq, a, b => a == b
  | .ne, a, b => a != b
  | .lt, a, b => a.slt b
  | .ge, a, b => !a.slt b
  | .ltu, a, b => a.ult b
  | .geu, a, b => !a.ult b

namespace Instr

/-- Jumps and branches. -/
def isTransfer : Instr → Bool
  | jal .. | jalr .. | branch .. => true
  | _ => false

/-- The register written, `x0` if none. -/
def dest : Instr → BitVec 5
  | lui rd _ | auipc rd _ | jal rd _ | jalr rd _ _ | opImm _ rd _ _ | opReg _ rd _ _ => rd
  | branch .. => 0

/-- The value written. -/
def value (σ : State) : Instr → Word
  | lui _ imm => imm
  | auipc _ imm => σ.pc + imm
  | jal .. | jalr .. => σ.pc + 4
  | opImm op _ rs1 imm => op.eval (σ.read rs1) imm
  | opReg op _ rs1 rs2 => op.eval (σ.read rs1) (σ.read rs2)
  | branch .. => 0

/-- The target of a jump or a taken branch, before `JALR` clears bit 0. -/
def target? (σ : State) : Instr → Option Word
  | jal _ imm => some (σ.pc + imm)
  | jalr _ rs1 imm => some (σ.read rs1 + imm)
  | branch cond rs1 rs2 imm =>
      if cond.holds (σ.read rs1) (σ.read rs2) then some (σ.pc + imm) else none
  | _ => none

/-- The next program counter. -/
def next (σ : State) (instr : Instr) : Word :=
  match instr.target? σ, instr with
  | none, _ => σ.pc + 4
  | some target, jalr .. => target &&& ~~~1
  | some target, _ => target

def exec (σ : State) (instr : Instr) : State where
  pc := instr.next σ
  regs := if instr.dest = 0 then σ.regs else Function.update σ.regs instr.dest (instr.value σ)

theorem exec_regs (σ : State) (instr : Instr) {r : BitVec 5} (hr : r ≠ 0) :
    (instr.exec σ).regs r = if instr.dest = r then instr.value σ else σ.regs r := by
  rw [exec]
  by_cases hdest : instr.dest = r
  · rw [if_pos hdest, hdest, if_neg hr]
    exact Function.update_self ..
  · rw [if_neg hdest]
    split_ifs
    · rfl
    · exact Function.update_of_ne (Ne.symm hdest) ..

/-- The register write, if it is not to `x0`. -/
def writes (σ : State) (instr : Instr) : List (BitVec 5 × Word) :=
  if instr.dest = 0 then [] else [(instr.dest, instr.value σ)]

end Instr

section Run

variable (image : Word → Word)

/-- One instruction; a word that encodes none is not executed. -/
def step (σ : State) : State := ((decode (image σ.pc)).map (·.exec σ)).getD σ

/-- The register writes of one instruction. -/
def stepWrites (σ : State) : List (BitVec 5 × Word) :=
  ((decode (image σ.pc)).map (·.writes σ)).getD []

/-- The state after `n` instructions. -/
def run (σ : State) (n : ℕ) : State := (step image)^[n] σ

/-- The register writes of the first `n` instructions. -/
def trace (σ : State) : ℕ → List (BitVec 5 × Word)
  | 0 => []
  | n + 1 => trace σ n ++ stepWrites image (run image σ n)

/-- What the next instruction jumps to is aligned to 4 bytes. -/
def JumpsAligned (σ : State) : Prop :=
  ∀ instr, decode (image σ.pc) = some instr →
    ∀ target, instr.target? σ = some target → target.extractLsb' 0 2 = 0

theorem run_succ (σ : State) (n : ℕ) : run image σ (n + 1) = step image (run image σ n) :=
  Function.iterate_succ_apply' _ _ _

variable {image}

theorem step_of_decode {σ : State} {instr : Instr}
    (hinstr : decode (image σ.pc) = some instr) : step image σ = instr.exec σ := by
  rw [step, hinstr]
  rfl

theorem stepWrites_of_decode {σ : State} {instr : Instr}
    (hinstr : decode (image σ.pc) = some instr) : stepWrites image σ = instr.writes σ := by
  rw [stepWrites, hinstr]
  rfl

/-- An even target stays as it is. -/
theorem clearBit0 {target : Word} (heven : target.getLsbD 0 = false) :
    target &&& ~~~1 = target := by
  refine BitVec.eq_of_getLsbD_eq fun i hi => ?_
  rw [BitVec.getLsbD_and, BitVec.getLsbD_not]
  cases i with
  | zero => rw [heven, Bool.false_and]
  | succ i => simp [hi]

/-- Where a jump goes that is aligned. -/
theorem next_of_target {σ : State} {instr : Instr} {target : Word}
    (htarget : instr.target? σ = some target) (haligned : target.extractLsb' 0 2 = 0) :
    instr.next σ = target := by
  cases instr with
  | jalr rd rs1 imm =>
      have hnext : (Instr.jalr rd rs1 imm).next σ = target &&& ~~~1 := by
        simp only [Instr.next, htarget]
      have hbit : target.getLsbD 0 = false := by
        have h := congrArg (BitVec.getLsbD · 0) haligned
        simpa using h
      exact hnext.trans (clearBit0 hbit)
  | _ => simp only [Instr.next, htarget]

theorem next_of_no_target {σ : State} {instr : Instr} (htarget : instr.target? σ = none) :
    instr.next σ = σ.pc + 4 := by
  simp only [Instr.next, htarget]

theorem step_pc_of_target {σ : State} {instr : Instr} {target : Word}
    (hinstr : decode (image σ.pc) = some instr) (htarget : instr.target? σ = some target)
    (haligned : target.extractLsb' 0 2 = 0) : (step image σ).pc = target := by
  rw [step_of_decode hinstr]
  exact next_of_target htarget haligned

theorem step_pc_of_no_target {σ : State} {instr : Instr}
    (hinstr : decode (image σ.pc) = some instr) (htarget : instr.target? σ = none) :
    (step image σ).pc = σ.pc + 4 := by
  rw [step_of_decode hinstr]
  exact next_of_no_target htarget

theorem jumpsAligned_iff {σ : State} {instr : Instr}
    (hinstr : decode (image σ.pc) = some instr) :
    JumpsAligned image σ ↔
      ∀ target, instr.target? σ = some target → target.extractLsb' 0 2 = 0 := by
  simp only [JumpsAligned, hinstr, Option.some.injEq, forall_eq']

theorem add_four_aligned (addr : Word) :
    (addr + 4).extractLsb' 0 2 = addr.extractLsb' 0 2 := by
  apply BitVec.eq_of_toNat_eq
  have hfour : (4 : Word).toNat = 4 := rfl
  simp only [BitVec.extractLsb'_toNat, BitVec.toNat_add, hfour, Nat.shiftRight_zero]
  omega

theorem step_aligned {σ : State} (hσ : σ.pc.extractLsb' 0 2 = 0) (hjumps : JumpsAligned image σ) :
    (step image σ).pc.extractLsb' 0 2 = 0 := by
  cases hinstr : decode (image σ.pc) with
  | none => rwa [step, hinstr]
  | some instr =>
      cases htarget : instr.target? σ with
      | none => rw [step_pc_of_no_target hinstr htarget, add_four_aligned, hσ]
      | some target =>
          have haligned := hjumps instr hinstr target htarget
          rw [step_pc_of_target hinstr htarget haligned, haligned]

/-- What holds at the start and is kept by each instruction holds throughout. -/
theorem run_invariant {P : State → Prop} {σ : State} (hσ : P σ)
    (hstep : ∀ σ, P σ → P (step image σ)) (n : ℕ) : P (run image σ n) := by
  induction n with
  | zero => exact hσ
  | succ n ih =>
      rw [run_succ]
      exact hstep _ ih

/-- A program that only jumps to aligned targets keeps its pc aligned. -/
theorem run_aligned {σ : State} (hσ : σ.pc.extractLsb' 0 2 = 0)
    (hjumps : ∀ n, JumpsAligned image (run image σ n)) (n : ℕ) :
    (run image σ n).pc.extractLsb' 0 2 = 0 := by
  induction n with
  | zero => exact hσ
  | succ n ih =>
      rw [run_succ]
      exact step_aligned ih (hjumps n)

theorem trace_mono (image : Word → Word) (σ : State) {m n : ℕ} (hmn : m ≤ n) :
    trace image σ m <+: trace image σ n := by
  induction hmn with
  | refl => exact List.prefix_rfl
  | step _ ih => exact ih.trans (List.prefix_append ..)

end Run

end Rv32i
