import KyogenRV.Core.DecodeRv32i
import KyogenRV.Isa.Encoding

/-!
# The accepted words

A word is legal when a row of the decode table matches it.  The rows exclude
each other and, fixed words apart, are read by the bits that select an
instruction; they are those of the instruction set, but for two right shifts
that leave the top bit of a six-bit shift amount open.
-/

namespace KyogenRV

open ScalarOpConstants MemoryOpConstants

/-! ## Rows that match -/

/-- A word is legal exactly if a row matches it. -/
theorem legal_iff (w : Word) :
    (idDecode w).legal = true ↔ ∃ row ∈ IDecode.table, row.1.eq w = true := by
  have hrows : ∀ row ∈ IDecode.table, (rowSigs row).legal = true := by decide
  rw [idDecode_eq]
  cases hfind : IDecode.table.find? fun row => row.1.eq w with
  | none =>
      refine iff_of_false (by decide) ?_
      rintro ⟨row, hrow, hmatch⟩
      exact List.find?_eq_none.mp hfind row hrow hmatch
  | some row =>
      have hrow := List.mem_of_find?_eq_some hfind
      have hmatch := List.find?_some hfind
      exact iff_of_true (hrows row hrow) ⟨row, hrow, hmatch⟩

/-- Two patterns that fix a common position differently. -/
def BitPat.Disjoint (left right : BitPat) : Prop :=
  left.value &&& right.mask ≠ right.value &&& left.mask

theorem BitPat.Disjoint.not_both {w : ℕ} {left right : BitPat} (hdisjoint : left.Disjoint right)
    (addr : BitVec w) : ¬(left.eq addr = true ∧ right.eq addr = true) := by
  rintro ⟨hleft, hright⟩
  rw [BitPat.eq, beq_iff_eq] at hleft hright
  refine hdisjoint ?_
  calc left.value &&& right.mask
      = addr.toNat &&& left.mask &&& right.mask := by rw [hleft]
    _ = addr.toNat &&& right.mask &&& left.mask := by
      rw [Nat.and_assoc, Nat.and_comm left.mask, Nat.and_assoc]
    _ = right.value &&& left.mask := by rw [hright]

theorem table_disjoint : IDecode.table.Pairwise fun left right => left.1.Disjoint right.1 := by
  unfold BitPat.Disjoint
  decide

/-- Of rows that exclude each other at most one matches. -/
theorem length_filter_le_one {A : Type*} {p : A → Bool} {rows : List A}
    (hrows : rows.Pairwise fun left right => ¬(p left = true ∧ p right = true)) :
    (rows.filter p).length ≤ 1 := by
  have hmatches : (rows.filter p).Pairwise fun _ _ => False :=
    List.pairwise_filter.mpr (hrows.imp fun hnot hleft hright => hnot ⟨hleft, hright⟩)
  cases hfilter : rows.filter p with
  | nil => exact Nat.zero_le 1
  | cons left rest =>
      rw [hfilter, List.pairwise_cons] at hmatches
      cases rest with
      | nil => exact Nat.le_refl 1
      | cons right rest => exact (hmatches.1 right (List.mem_cons_self ..)).elim

/-! ## The selecting bits of a row -/

/-- Whether a row other than those of the system words is matched. -/
def selectsRow (funct7 : BitVec 7) (funct3 : BitVec 3) (opcode : BitVec 7) : Bool :=
  (rowsOf opcode).any fun row =>
    row.1.mask != 2 ^ 32 - 1 && row.1.eq (selecting funct7 funct3 opcode)

/-- The opcodes whose rows do not read `funct7`. -/
def plainOpcodes : List (BitVec 7) := [0x37, 0x17, 0x6f, 0x67, 0x63, 0x03, 0x23, 0x0f, 0x73]

theorem selectsRow_opImm (f7 : BitVec 7) (f3 : BitVec 3) :
    selectsRow f7 f3 0x13 =
      (Rv32i.selects 0x13 f3 f7 || f3 == 5 && (f7 == 0x01 || f7 == 0x21)) := by
  revert f7 f3
  decide +kernel

theorem selectsRow_opReg (f7 : BitVec 7) (f3 : BitVec 3) :
    selectsRow f7 f3 0x33 = Rv32i.selects 0x33 f3 f7 := by
  revert f7 f3
  decide +kernel

theorem selectsRow_plain (f7 : BitVec 7) (f3 : BitVec 3) {op : BitVec 7} (hop : op ∈ plainOpcodes) :
    selectsRow f7 f3 op = Rv32i.selects op f3 f7 := by
  have hmasks : ∀ op ∈ plainOpcodes, ∀ row ∈ rowsOf op,
      row.1.mask = 2 ^ 32 - 1 ∨ 0x0000707f &&& row.1.mask = row.1.mask := by decide +kernel
  have hzero : ∀ op ∈ plainOpcodes, ∀ f3, selectsRow 0 f3 op = Rv32i.selects op f3 0 := by
    decide +kernel
  have hfree : Rv32i.selects op f3 f7 = Rv32i.selects op f3 0 := by
    simp only [plainOpcodes, List.mem_cons, List.not_mem_nil, or_false] at hop
    rcases hop with rfl | rfl | rfl | rfl | rfl | rfl | rfl | rfl | rfl <;> rfl
  rw [hfree, ← hzero op hop f3, selectsRow, selectsRow, Bool.eq_iff_iff, List.any_eq_true,
    List.any_eq_true]
  refine exists_congr fun row => and_congr_right fun hrow => ?_
  rcases hmasks op hop row hrow with hfull | hmask
  · simp [hfull]
  · rw [eq_selecting_zero hmask]

theorem selectsRow_other (f7 : BitVec 7) (f3 : BitVec 3) {op : BitVec 7}
    (hop : op ∉ 0x13 :: 0x33 :: plainOpcodes) :
    selectsRow f7 f3 op = Rv32i.selects op f3 f7 := by
  have hempty : ∀ op, op ∉ 0x13 :: 0x33 :: plainOpcodes → rowsOf op = [] := by decide
  rw [selectsRow, hempty op hop]
  simp only [plainOpcodes, List.mem_cons, List.not_mem_nil, or_false, not_or,
    BitVec.ofNat_eq_ofNat] at hop
  simp [Rv32i.selects, hop]

/-- The selecting bits of a row are those of an instruction or of a wide shift. -/
theorem selectsRow_iff (f7 : BitVec 7) (f3 : BitVec 3) (op : BitVec 7) :
    selectsRow f7 f3 op = true ↔ Rv32i.selects op f3 f7 = true ∨
      op = 0x13 ∧ f3 = 5 ∧ (f7 = 0x01 ∨ f7 = 0x21) := by
  by_cases himm : op = 0x13
  · subst himm
    rw [selectsRow_opImm]
    simp
  · have hselects : selectsRow f7 f3 op = Rv32i.selects op f3 f7 := by
      by_cases hreg : op = 0x33
      · rw [hreg, selectsRow_opReg]
      · by_cases hplain : op ∈ plainOpcodes
        · exact selectsRow_plain f7 f3 hplain
        · exact selectsRow_other f7 f3 (by simp_all)
    rw [hselects]
    exact (or_iff_left fun hwide => himm hwide.1).symm

/-! ## The accepted words -/

/-- The system rows are matched by one word each. -/
theorem systemRows (w : Word) :
    (∃ row ∈ IDecode.table, row.1.mask = 2 ^ 32 - 1 ∧ row.1.eq w = true) ↔
      w ∈ Rv32i.systemWords := by
  have hvalues : ∀ row ∈ IDecode.table, row.1.mask = 2 ^ 32 - 1 →
      BitVec.ofNat 32 row.1.value ∈ Rv32i.systemWords := by decide
  constructor
  · rintro ⟨row, hrow, hfull, heq⟩
    rw [BitPat.eq_of_mask_full hfull heq]
    exact hvalues row hrow hfull
  · intro hword
    simp only [Rv32i.systemWords, List.mem_cons, List.not_mem_nil, or_false] at hword
    rcases hword with rfl | rfl | rfl | rfl <;> decide

theorem selectsRow_of_word (w : Word) :
    selectsRow (Rv32i.funct7 w) (Rv32i.funct3 w) (Rv32i.opcode w) = true ↔
      ∃ row ∈ IDecode.table, row.1.mask ≠ 2 ^ 32 - 1 ∧ row.1.eq w = true := by
  rw [selectsRow, List.any_eq_true]
  refine exists_congr fun row => ?_
  rw [rowsOf, List.mem_filter, and_assoc, beq_iff_eq, Bool.and_eq_true, bne_iff_ne]
  refine and_congr_right fun hrow => ?_
  rcases table_masks row hrow with ⟨hmask, hopcode⟩ | ⟨hfull, _⟩
  · rw [← eq_selecting hmask w]
    refine ⟨And.right, fun h => ⟨?_, h⟩⟩
    rw [opcode_toNat]
    exact (opcode_of_match hopcode h.2).symm
  · simp [hfull]

/-- The decoder accepts the implemented words and the wide right shifts. -/
theorem legal_iff_implemented (w : Word) :
    (idDecode w).legal = true ↔ Rv32i.Implemented w ∨ Rv32i.WideShift w := by
  have hcases : (∃ row ∈ IDecode.table, row.1.eq w = true) ↔
      (∃ row ∈ IDecode.table, row.1.mask ≠ 2 ^ 32 - 1 ∧ row.1.eq w = true) ∨
        ∃ row ∈ IDecode.table, row.1.mask = 2 ^ 32 - 1 ∧ row.1.eq w = true := by
    rw [← exists_or]
    exact exists_congr fun row => by grind
  rw [legal_iff, hcases, systemRows, ← selectsRow_of_word, selectsRow_iff, Rv32i.Implemented,
    Rv32i.WideShift, or_right_comm]

/-- The decoder accepts the word exactly if it encodes an instruction, at most
one row matches it, and without a row nothing is requested. -/
structure DecodesExactly (w : Word) : Prop where
  legal : (idDecode w).legal = true ↔ Rv32i.Implemented w
  unique : (IDecode.table.filter fun row => row.1.eq w).length ≤ 1
  quiet : (∀ row ∈ IDecode.table, row.1.eq w = false) →
    (idDecode w).rfWen = false ∧ (idDecode w).memEn = false ∧ (idDecode w).memWr = mX ∧
      (idDecode w).csrCmd = CSR.n ∧ (idDecode w).brType = brN

theorem table_unique (w : Word) : (IDecode.table.filter fun row => row.1.eq w).length ≤ 1 :=
  length_filter_le_one (table_disjoint.imp fun hdisjoint => hdisjoint.not_both w)

theorem idDecode_of_no_row {w : Word} (hnone : ∀ row ∈ IDecode.table, row.1.eq w = false) :
    idDecode w = defaultSigs := by
  rcases idDecode_cases w with hdefault | ⟨row, hrow, hmatch, _⟩
  · exact hdefault
  · exact absurd (hmatch.symm.trans (hnone row hrow)) (by decide)

/-- The decoder is exact on every word but the wide right shifts. -/
theorem decodes_exactly_iff (w : Word) : DecodesExactly w ↔ ¬Rv32i.WideShift w := by
  constructor
  · intro hexact hwide
    exact Rv32i.not_implemented_of_wideShift hwide
      (hexact.legal.mp ((legal_iff_implemented w).mpr (Or.inr hwide)))
  · intro hwide
    refine ⟨(legal_iff_implemented w).trans (or_iff_left hwide), table_unique w, fun hnone => ?_⟩
    rw [idDecode_of_no_row hnone]
    decide

/-- `srli x0, x0, 32` is accepted. -/
theorem wide_shift_accepted : ¬∀ w : Word, DecodesExactly w := by
  intro h
  exact Rv32i.not_implemented_of_wideShift (w := 0x02005013) (by unfold Rv32i.WideShift; decide)
    ((h 0x02005013).legal.mp (by decide))

end KyogenRV
