import KyogenRV.Core.Cpu

/-!
# What the decoder can produce

The column-wise decoder returns one whole row of its table.  Hence every
control bundle in the pipeline is a row of `IDecode.table` or the default, and
a fact about all bundles is checked row by row.
-/

namespace KyogenRV

namespace DecodeLogic

variable {w : ℕ} (addr : BitVec w)

/-- The values of the first row whose pattern matches, else the defaults. -/
def firstRow (default : List BitPat) (table : List (BitPat × List BitPat)) : List ℕ :=
  ((table.find? fun row => row.1.eq addr).elim default Prod.snd).map BitPat.value

theorem column_cons {row : BitPat × List BitPat} {i : ℕ} (hi : i < row.2.length)
    (table : List (BitPat × List BitPat)) :
    column (row :: table) i = (row.1, row.2[i]) :: column table i := by
  simp [column, List.getElem?_eq_getElem hi]

theorem applyColumn_cons (default value pattern : BitPat)
    (mapping : List (BitPat × BitPat)) :
    applyColumn addr default ((pattern, value) :: mapping) =
      if pattern.eq addr then value.value else applyColumn addr default mapping := by
  simp [applyColumn]

theorem length_firstRow {default : List BitPat} {table : List (BitPat × List BitPat)}
    (htable : ∀ row ∈ table, row.2.length = default.length) :
    (firstRow addr default table).length = default.length := by
  rw [firstRow]
  cases hfind : table.find? fun row => row.1.eq addr with
  | none => simp
  | some row => simp [htable row (List.mem_of_find?_eq_some hfind)]

theorem applyColumn_column {default : List BitPat} {table : List (BitPat × List BitPat)}
    (htable : ∀ row ∈ table, row.2.length = default.length)
    {i : ℕ} (hi : i < default.length) (hrow : i < (firstRow addr default table).length) :
    applyColumn addr default[i] (column table i) = (firstRow addr default table)[i] := by
  induction table with
  | nil => simp [firstRow, column, applyColumn]
  | cons row table ih =>
      have hlength : i < row.2.length := by simpa [htable row (by simp)] using hi
      have htail : ∀ row ∈ table, row.2.length = default.length :=
        fun row hmem => htable row (List.mem_cons_of_mem _ hmem)
      have hrest := ih htail (by simpa [length_firstRow addr htail] using hi)
      rw [column_cons hlength, applyColumn_cons]
      by_cases hmatch : row.1.eq addr = true
      · simp [firstRow, hmatch]
      · simp [hrest, firstRow, hmatch]

/-- All columns come from the same row. -/
theorem apply_eq_firstRow {default : List BitPat} {table : List (BitPat × List BitPat)}
    (htable : ∀ row ∈ table, row.2.length = default.length) :
    apply addr default table = firstRow addr default table := by
  refine List.ext_getElem (by simp [apply, length_firstRow addr htable]) fun i hi hrow => ?_
  have hlength : i < default.length := by simpa [apply] using hi
  simpa [apply] using applyColumn_column addr htable hlength hrow

end DecodeLogic

open ScalarOpConstants MemoryOpConstants

/-! ## Control bundles -/

/-- The bundle of a table row. -/
def rowSigs (row : BitPat × List BitPat) : IntCtrlSigs :=
  .assign (row.2.map BitPat.value)

/-- The bundle of a word that no row matches. -/
def defaultSigs : IntCtrlSigs := .assign (IntCtrlSigs.default.map BitPat.value)

theorem table_rowLength :
    ∀ row ∈ IDecode.table, row.2.length = IntCtrlSigs.default.length := by decide

theorem idDecode_eq (inst : Word) :
    idDecode inst =
      (IDecode.table.find? fun row => row.1.eq inst).elim defaultSigs rowSigs := by
  rw [idDecode, IntCtrlSigs.decode, DecodeLogic.apply_eq_firstRow _ table_rowLength,
    DecodeLogic.firstRow]
  cases IDecode.table.find? fun row => row.1.eq inst with
  | none => rfl
  | some row => rfl

theorem idDecode_cases (inst : Word) :
    idDecode inst = defaultSigs ∨
      ∃ row ∈ IDecode.table, row.1.eq inst = true ∧ idDecode inst = rowSigs row := by
  rw [idDecode_eq]
  cases hfind : IDecode.table.find? fun row => row.1.eq inst with
  | none => exact Or.inl rfl
  | some row =>
      have hmatch := List.find?_some hfind
      exact Or.inr ⟨row, List.mem_of_find?_eq_some hfind, hmatch, rfl⟩

/-- Every bundle the decoder can produce. -/
def ctrlRows : List IntCtrlSigs := defaultSigs :: IDecode.table.map rowSigs

theorem idDecode_mem_ctrlRows (inst : Word) : idDecode inst ∈ ctrlRows := by
  simp only [ctrlRows, List.mem_cons, List.mem_map]
  rcases idDecode_cases inst with hdefault | ⟨row, hrow, _, hctrl⟩
  · exact Or.inl hdefault
  · exact Or.inr ⟨row, hrow, hctrl.symm⟩

/-- A decidable property of all bundles is checked on the rows. -/
theorem idDecode_of_ctrlRows {P : IntCtrlSigs → Prop}
    (hrows : ∀ ctrl ∈ ctrlRows, P ctrl) (inst : Word) : P (idDecode inst) :=
  hrows _ (idDecode_mem_ctrlRows inst)

/-! ## Facts about all control bundles -/

theorem idDecode_wbSel_of_csr (inst : Word) :
    (idDecode inst).csrCmd ≠ CSR.n → (idDecode inst).rfWen = true →
      (idDecode inst).wbSel = wbCsr :=
  idDecode_of_ctrlRows (P := fun ctrl =>
    ctrl.csrCmd ≠ CSR.n → ctrl.rfWen = true → ctrl.wbSel = wbCsr) (by decide) inst

/-- An instruction that writes a register and is neither a CSR access, nor a
load, nor a jump writes its ALU result. -/
theorem idDecode_wbSel_of_alu (inst : Word) :
    (idDecode inst).rfWen = true → (idDecode inst).csrCmd = CSR.n →
      (idDecode inst).memWr ≠ mXrd → (idDecode inst).brType ≠ brJ →
      (idDecode inst).brType ≠ brJr →
      (idDecode inst).wbSel = wbAlu ∧ (idDecode inst).memEn = false :=
  idDecode_of_ctrlRows (P := fun ctrl =>
    ctrl.rfWen = true → ctrl.csrCmd = CSR.n → ctrl.memWr ≠ mXrd → ctrl.brType ≠ brJ →
      ctrl.brType ≠ brJr → ctrl.wbSel = wbAlu ∧ ctrl.memEn = false) (by decide) inst

/-- A pattern without open positions is matched by its value only. -/
theorem BitPat.eq_of_mask_full {w : ℕ} {pattern : BitPat} {addr : BitVec w}
    (hmask : pattern.mask = 2 ^ w - 1) (hmatch : pattern.eq addr = true) :
    addr = BitVec.ofNat w pattern.value := by
  have hvalue : addr.toNat &&& (2 ^ w - 1) = pattern.value := by
    simpa [BitPat.eq, hmask] using hmatch
  rw [Nat.and_two_pow_sub_one_eq_mod, Nat.mod_eq_of_lt addr.isLt] at hvalue
  rw [← hvalue, BitVec.ofNat_toNat, BitVec.setWidth_eq]

/-- The system instructions are fixed words. -/
theorem inst_of_csrCmd_p {inst : Word} (hcsr : (idDecode inst).csrCmd = CSR.p) :
    inst ∈ [0x00000073, 0x30200073, 0x10000073, (0x00100073 : Word)] := by
  have htable : ∀ row ∈ IDecode.table, (rowSigs row).csrCmd = CSR.p →
      row.1.mask = 2 ^ 32 - 1 ∧ BitVec.ofNat 32 row.1.value ∈
        [0x00000073, 0x30200073, 0x10000073, (0x00100073 : Word)] := by
    decide
  rcases idDecode_cases inst with hdefault | ⟨row, hrow, hmatch, hctrl⟩
  · rw [hdefault] at hcsr
    exact absurd hcsr (by decide)
  · obtain ⟨hmask, hvalue⟩ := htable row hrow (hctrl ▸ hcsr)
    rwa [BitPat.eq_of_mask_full hmask hmatch]

/-- A CSR command that writes no register leaves `rd` zero. -/
theorem rd_eq_zero_of_csr {inst : Word} (hcsr : (idDecode inst).csrCmd ≠ CSR.n)
    (hwen : (idDecode inst).rfWen = false) : IDModule.rd inst = 0 := by
  have hp : (idDecode inst).csrCmd = CSR.p :=
    idDecode_of_ctrlRows (P := fun ctrl =>
      ctrl.csrCmd ≠ CSR.n → ctrl.rfWen = false → ctrl.csrCmd = CSR.p)
      (by decide) inst hcsr hwen
  have hword := inst_of_csrCmd_p hp
  simp only [List.mem_cons, List.not_mem_nil, or_false] at hword
  rcases hword with rfl | rfl | rfl | rfl <;> decide

end KyogenRV
