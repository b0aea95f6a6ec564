import KyogenRV.Isa.Encoding
import KyogenRV.Mem.Bytes

/-!
# RV32I with a data memory

The register instructions together with the loads, the stores and the fences,
and the one-instruction-at-a-time execution of a program on a byte memory.  A
fence orders nothing here and does nothing.
-/

namespace Rv32i

open KyogenRV (ByteMem)

/-! ## Instructions -/

inductive LoadOp where
  | lb | lh | lw | lbu | lhu
  deriving DecidableEq

inductive StoreOp where
  | sb | sh | sw
  deriving DecidableEq

/-- The number of bytes loaded. -/
def LoadOp.size : LoadOp → ℕ
  | .lb | .lbu => 1
  | .lh | .lhu => 2
  | .lw => 4

/-- The number of bytes stored. -/
def StoreOp.size : StoreOp → ℕ
  | .sb => 1
  | .sh => 2
  | .sw => 4

/-- The value loaded, sign- or zero-extended. -/
def LoadOp.value (mem : ByteMem) (addr : Word) : LoadOp → Word
  | .lb => (mem.load addr.toNat 1).signExtend 32
  | .lh => (mem.load addr.toNat 2).signExtend 32
  | .lw => mem.load addr.toNat 4
  | .lbu => (mem.load addr.toNat 1).setWidth 32
  | .lhu => (mem.load addr.toNat 2).setWidth 32

/-- The memory after the store. -/
def StoreOp.apply (mem : ByteMem) (addr data : Word) (op : StoreOp) : ByteMem :=
  mem.store addr.toNat op.size (data.setWidth (8 * op.size))

inductive MemInstr where
  | reg (instr : Instr)
  | load (op : LoadOp) (rd rs1 : BitVec 5) (imm : Word)
  | store (op : StoreOp) (rs1 rs2 : BitVec 5) (imm : Word)
  | fence
  | fenceI
  deriving DecidableEq

/-! ## Encoding -/

def loadOf (funct3 : BitVec 3) : Option LoadOp :=
  if funct3 = 0 then some .lb
  else if funct3 = 1 then some .lh
  else if funct3 = 2 then some .lw
  else if funct3 = 4 then some .lbu
  else if funct3 = 5 then some .lhu
  else none

def storeOf (funct3 : BitVec 3) : Option StoreOp :=
  if funct3 = 0 then some .sb
  else if funct3 = 1 then some .sh
  else if funct3 = 2 then some .sw
  else none

/-- The instruction that a word encodes. -/
def decodeMem (w : Word) : Option MemInstr :=
  if opcode w = 0x03 then
    (loadOf (funct3 w)).map fun op => .load op (rd w) (rs1 w) (immI w)
  else if opcode w = 0x23 then
    (storeOf (funct3 w)).map fun op => .store op (rs1 w) (rs2 w) (immS w)
  else if opcode w = 0x0f then
    if funct3 w = 0 then some .fence else if funct3 w = 1 then some .fenceI else none
  else (decode w).map .reg

/-- The instructions that the fields of a word can make up. -/
inductive MemEncodes (w : Word) : MemInstr → Prop
  | reg {instr : Instr} (hinstr : decode w = some instr) : MemEncodes w (.reg instr)
  | load {op : LoadOp} (hop : opcode w = 0x03) (hload : loadOf (funct3 w) = some op) :
      MemEncodes w (.load op (rd w) (rs1 w) (immI w))
  | store {op : StoreOp} (hop : opcode w = 0x23) (hstore : storeOf (funct3 w) = some op) :
      MemEncodes w (.store op (rs1 w) (rs2 w) (immS w))
  | fence (hop : opcode w = 0x0f) (hf3 : funct3 w = 0) : MemEncodes w .fence
  | fenceI (hop : opcode w = 0x0f) (hf3 : funct3 w = 1) : MemEncodes w .fenceI

theorem memEncodes_of_decodeMem {w : Word} {instr : MemInstr}
    (hinstr : decodeMem w = some instr) : MemEncodes w instr := by
  rw [decodeMem] at hinstr
  split_ifs at hinstr with hload hstore hfence h0 h1
  · obtain ⟨op, hop, rfl⟩ := Option.map_eq_some_iff.mp hinstr
    exact .load hload hop
  · obtain ⟨op, hop, rfl⟩ := Option.map_eq_some_iff.mp hinstr
    exact .store hstore hop
  · obtain rfl := Option.some.inj hinstr
    exact .fence hfence h0
  · obtain rfl := Option.some.inj hinstr
    exact .fenceI hfence h1
  · obtain ⟨instr, hreg, rfl⟩ := Option.map_eq_some_iff.mp hinstr
    exact .reg hreg

/-! ## Execution -/

/-- The registers with a memory. -/
structure MemState extends State where
  mem : ByteMem

/-- The state after reset. -/
def MemState.start (mem : ByteMem) : MemState := ⟨.start, mem⟩

namespace MemInstr

/-- The address that a load or store accesses, and the number of its bytes. -/
def access? (σ : State) : MemInstr → Option (Word × ℕ)
  | load op _ rs1 imm => some (σ.read rs1 + imm, op.size)
  | store op rs1 _ imm => some (σ.read rs1 + imm, op.size)
  | _ => none

/-- The register written, `x0` if none. -/
def dest : MemInstr → BitVec 5
  | reg instr => instr.dest
  | load _ rd _ _ => rd
  | _ => 0

/-- The value written. -/
def value (σ : MemState) : MemInstr → Word
  | reg instr => instr.value σ.toState
  | load op _ rs1 imm => op.value σ.mem (σ.read rs1 + imm)
  | _ => 0

/-- The target of a jump or a taken branch. -/
def target? (σ : State) : MemInstr → Option Word
  | reg instr => instr.target? σ
  | _ => none

def next (σ : State) : MemInstr → Word
  | reg instr => instr.next σ
  | _ => σ.pc + 4

/-- The memory behind the instruction. -/
def memory (σ : MemState) : MemInstr → ByteMem
  | store op rs1 rs2 imm => op.apply σ.mem (σ.read rs1 + imm) (σ.read rs2)
  | _ => σ.mem

def exec (σ : MemState) (instr : MemInstr) : MemState where
  pc := instr.next σ.toState
  regs := if instr.dest = 0 then σ.regs else Function.update σ.regs instr.dest (instr.value σ)
  mem := instr.memory σ

theorem exec_regs (σ : MemState) (instr : MemInstr) {r : BitVec 5} (hr : r ≠ 0) :
    (instr.exec σ).regs r = if instr.dest = r then instr.value σ else σ.regs r := by
  rw [exec]
  by_cases hdest : instr.dest = r
  · rw [if_pos hdest, hdest, if_neg hr]
    exact Function.update_self ..
  · rw [if_neg hdest]
    split_ifs
    · rfl
    · exact Function.update_of_ne (Ne.symm hdest) ..

/-- The register write, if it is not to `x0`. -/
def writes (σ : MemState) (instr : MemInstr) : List (BitVec 5 × Word) :=
  if instr.dest = 0 then [] else [(instr.dest, instr.value σ)]

theorem next_of_target {σ : State} {instr : MemInstr} {target : Word}
    (htarget : instr.target? σ = some target) (haligned : target.extractLsb' 0 2 = 0) :
    instr.next σ = target := by
  cases instr with
  | reg instr => exact Rv32i.next_of_target htarget haligned
  | _ => exact absurd htarget (by simp [target?])

theorem next_of_no_target {σ : State} {instr : MemInstr} (htarget : instr.target? σ = none) :
    instr.next σ = σ.pc + 4 := by
  cases instr with
  | reg instr => exact Rv32i.next_of_no_target htarget
  | _ => rfl

end MemInstr

section Run

variable (image : Word → Word)

/-- One instruction; a word that encodes none is not executed. -/
def memStep (σ : MemState) : MemState := ((decodeMem (image σ.pc)).map (·.exec σ)).getD σ

/-- The register writes of one instruction. -/
def memStepWrites (σ : MemState) : List (BitVec 5 × Word) :=
  ((decodeMem (image σ.pc)).map (·.writes σ)).getD []

/-- The state after `n` instructions. -/
def memRun (σ : MemState) (n : ℕ) : MemState := (memStep image)^[n] σ

/-- The register writes of the first `n` instructions. -/
def memTrace (σ : MemState) : ℕ → List (BitVec 5 × Word)
  | 0 => []
  | n + 1 => memTrace σ n ++ memStepWrites image (memRun image σ n)

theorem memRun_succ (σ : MemState) (n : ℕ) :
    memRun image σ (n + 1) = memStep image (memRun image σ n) :=
  Function.iterate_succ_apply' _ _ _

/-- The next instruction jumps to an aligned target and accesses an aligned
address up to `limit`, if at all. -/
structure WellBehaved (limit : Word) (σ : MemState) : Prop where
  jumps : ∀ instr, decodeMem (image σ.pc) = some instr →
    ∀ target, instr.target? σ.toState = some target → target.extractLsb' 0 2 = 0
  accesses : ∀ instr, decodeMem (image σ.pc) = some instr →
    ∀ addr size, instr.access? σ.toState = some (addr, size) → size ∣ addr.toNat ∧ addr ≤ limit

variable {image}

theorem memStep_of_decode {σ : MemState} {instr : MemInstr}
    (hinstr : decodeMem (image σ.pc) = some instr) : memStep image σ = instr.exec σ := by
  rw [memStep, hinstr]
  rfl

theorem memStepWrites_of_decode {σ : MemState} {instr : MemInstr}
    (hinstr : decodeMem (image σ.pc) = some instr) :
    memStepWrites image σ = instr.writes σ := by
  rw [memStepWrites, hinstr]
  rfl

theorem memStep_pc_of_target {σ : MemState} {instr : MemInstr} {target : Word}
    (hinstr : decodeMem (image σ.pc) = some instr)
    (htarget : instr.target? σ.toState = some target)
    (haligned : target.extractLsb' 0 2 = 0) : (memStep image σ).pc = target := by
  rw [memStep_of_decode hinstr]
  exact MemInstr.next_of_target htarget haligned

theorem memStep_pc_of_no_target {σ : MemState} {instr : MemInstr}
    (hinstr : decodeMem (image σ.pc) = some instr)
    (htarget : instr.target? σ.toState = none) : (memStep image σ).pc = σ.pc + 4 := by
  rw [memStep_of_decode hinstr]
  exact MemInstr.next_of_no_target htarget

theorem memStep_aligned {limit : Word} {σ : MemState} (hσ : σ.pc.extractLsb' 0 2 = 0)
    (hgood : WellBehaved image limit σ) : (memStep image σ).pc.extractLsb' 0 2 = 0 := by
  cases hinstr : decodeMem (image σ.pc) with
  | none => rwa [memStep, hinstr]
  | some instr =>
      cases htarget : instr.target? σ.toState with
      | none => rw [memStep_pc_of_no_target hinstr htarget, add_four_aligned, hσ]
      | some target =>
          have haligned := hgood.jumps instr hinstr target htarget
          rw [memStep_pc_of_target hinstr htarget haligned, haligned]

/-- What holds at the start and is kept by each instruction holds throughout. -/
theorem memRun_invariant {P : MemState → Prop} {σ : MemState} (hσ : P σ)
    (hstep : ∀ σ, P σ → P (memStep image σ)) (n : ℕ) : P (memRun image σ n) :=
  Function.Iterate.rec P hσ hstep n

/-- A program that only jumps to aligned targets keeps its pc aligned. -/
theorem memRun_aligned {limit : Word} {σ : MemState} (hσ : σ.pc.extractLsb' 0 2 = 0)
    (hgood : ∀ n, WellBehaved image limit (memRun image σ n)) (n : ℕ) :
    (memRun image σ n).pc.extractLsb' 0 2 = 0 := by
  induction n with
  | zero => exact hσ
  | succ n ih =>
      rw [memRun_succ]
      exact memStep_aligned ih (hgood n)

end Run

end Rv32i
