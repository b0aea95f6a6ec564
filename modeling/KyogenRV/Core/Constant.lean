import Mathlib.Data.BitVec
import Mathlib.Tactic.SplitIfs

/-!
# Control-signal constants

The encodings of the control signals that decode, execute and the CSR module
exchange, the bit patterns that leave a signal open, and the prioritised
multiplexer that selects among them.
-/

namespace KyogenRV

/-- A 32-bit bus word. -/
abbrev Word := BitVec 32

/-- A bit pattern: a word matches it when it agrees with `value` wherever
`mask` is set.  Open positions are clear in both. -/
structure BitPat where
  value : ℕ
  mask : ℕ
  deriving DecidableEq

namespace BitPat

/-- `addr === pattern`. -/
def eq {w : ℕ} (pattern : BitPat) (addr : BitVec w) : Bool :=
  addr.toNat &&& pattern.mask == pattern.value

/-- The implicit conversion `uintToBitPat` of a literal: every bit is significant. -/
def uintToBitPat {w : ℕ} (x : BitVec w) : BitPat :=
  ⟨x.toNat, 2 ^ w - 1⟩

instance {w : ℕ} : CoeOut (BitVec w) BitPat := ⟨uintToBitPat⟩

/-- A pattern of `?` only. -/
def dontCare : BitPat := ⟨0, 0⟩

end BitPat

/-- `MuxCase`: the value of the first condition that holds. -/
def muxCase {A : Type*} (default : A) : List (Bool × A) → A
  | [] => default
  | (condition, value) :: mapping =>
      if condition then value else muxCase default mapping

@[simp]
theorem muxCase_nil {A : Type*} (default : A) : muxCase default [] = default := rfl

@[simp]
theorem muxCase_cons {A : Type*} (default value : A) (condition : Bool)
    (mapping : List (Bool × A)) :
    muxCase default ((condition, value) :: mapping) =
      if condition then value else muxCase default mapping := rfl

/-- A property of the default and of every value whose condition can hold. -/
theorem muxCase_of_forall {A : Type*} {P : A → Prop} {default : A}
    {mapping : List (Bool × A)} (hdefault : P default)
    (hmapping : ∀ entry ∈ mapping, entry.1 = true → P entry.2) :
    P (muxCase default mapping) := by
  induction mapping with
  | nil => exact hdefault
  | cons entry mapping ih =>
      obtain ⟨condition, value⟩ := entry
      rw [muxCase_cons]
      split_ifs with hcondition
      · exact hmapping _ (List.mem_cons_self ..) hcondition
      · exact ih fun entry hentry => hmapping entry (List.mem_cons_of_mem _ hentry)

/-! ## PC initial values -/

abbrev pcStart : Word := 0x000
abbrev pcEvec : Word := 0xDEAD

namespace ScalarOpConstants

abbrev y : BitVec 1 := 1
abbrev n : BitVec 1 := 0
abbrev x : BitPat := .dontCare

/-! ## Branch type -/

abbrev brN : BitVec 4 := 0
abbrev brJ : BitVec 4 := 1
abbrev brJr : BitVec 4 := 2
abbrev brRet : BitVec 4 := 3
abbrev brNe : BitVec 4 := 4
abbrev brEq : BitVec 4 := 5
abbrev brGe : BitVec 4 := 6
abbrev brGeu : BitVec 4 := 7
abbrev brLt : BitVec 4 := 8
abbrev brLtu : BitVec 4 := 9
abbrev brX : BitPat := .dontCare

/-! ## Operand selects -/

abbrev op1Rs1 : BitVec 2 := 1
abbrev op1Pc : BitVec 2 := 2
abbrev op1X : BitVec 2 := 0

abbrev op2Rs2 : BitVec 2 := 1
abbrev op2Imm : BitVec 2 := 2
abbrev op2X : BitVec 2 := 0

/-! ## Register write enable and write-back select -/

abbrev ren0 : BitVec 1 := 0
abbrev ren1 : BitVec 1 := 1
abbrev renX : BitPat := .dontCare

abbrev wbPc4 : BitVec 2 := 0
abbrev wbAlu : BitVec 2 := 1
abbrev wbMem : BitVec 2 := 2
abbrev wbCsr : BitVec 2 := 3
abbrev wbX : BitPat := .dontCare

/-! ## Immediate type -/

abbrev immX : BitPat := .dontCare
abbrev immI : BitVec 3 := 0
abbrev immS : BitVec 3 := 1
abbrev immB : BitVec 3 := 2
abbrev immU : BitVec 3 := 3
abbrev immJ : BitVec 3 := 4
abbrev immZ : BitVec 3 := 5

end ScalarOpConstants

namespace MemoryOpConstants

abbrev men0 : BitVec 1 := 0
abbrev men1 : BitVec 1 := 1
abbrev menX : BitPat := .dontCare

/-! ## Memory mask type -/

abbrev mtX : BitPat := .dontCare
abbrev mtB : BitVec 3 := 1
abbrev mtH : BitVec 3 := 2
abbrev mtW : BitVec 3 := 3
abbrev mtBu : BitVec 3 := 5
abbrev mtHu : BitVec 3 := 6

/-! ## Memory access: none, load, store -/

abbrev mX : BitVec 2 := 0
abbrev mXrd : BitVec 2 := 1
abbrev mXwr : BitVec 2 := 2

end MemoryOpConstants

/-! ## CSR commands -/

namespace CSR

abbrev n : BitVec 3 := 0
abbrev w : BitVec 3 := 1
abbrev s : BitVec 3 := 2
abbrev c : BitVec 3 := 3
abbrev p : BitVec 3 := 4

end CSR

end KyogenRV
