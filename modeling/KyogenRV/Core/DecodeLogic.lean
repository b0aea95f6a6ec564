import KyogenRV.Buffers
import KyogenRV.Core.Decode
import Mathlib.Data.Nat.Bitwise
import Mathlib.Data.Nat.Digits.Defs
import Mathlib.Data.Nat.Size

/-!
# The generic decoder

`DecodeLogic` transposes its table with a loop over mutable buffers, one per
column, and resolves each column on its own.  The loop leaves the columns of the
table in the buffers, every column stops at the same row, and so the outputs are
one whole row.
-/

namespace KyogenRV

/-! ## Patterns by their digits -/

/-- The digits of a pattern `"b…"`, the highest first; `none` is a `?`. -/
abbrev Digits := List (Option Bool)

namespace Digits

/-- Digit `k` from the right; there is a `?` beyond the leftmost digit. -/
def digit (digits : Digits) (k : ℕ) : Option Bool := digits.reverse[k]?.join

/-- Every fixed digit agrees with the word. -/
def covers {w : ℕ} (digits : Digits) (addr : BitVec w) : Bool :=
  (List.range digits.length).all fun k => (digits.digit k).all (addr.getLsbD k == ·)

/-- The number that the digits stand for with each `?` read as 0. -/
def zeroed (digits : Digits) : ℕ :=
  Nat.ofDigits 2 (digits.reverse.map fun digit => (digit.getD false).toNat)

variable (digits : Digits) (last : Option Bool)

@[simp]
theorem digit_nil (k : ℕ) : digit [] k = none := rfl

@[simp]
theorem digit_concat_zero : digit (digits ++ [last]) 0 = last := by
  simp [digit]

@[simp]
theorem digit_concat_succ (k : ℕ) : digit (digits ++ [last]) (k + 1) = digits.digit k := by
  simp [digit]

theorem digit_of_length_le {k : ℕ} (hk : digits.length ≤ k) : digits.digit k = none := by
  simp [digit, hk]

theorem zeroed_concat :
    zeroed (digits ++ [last]) = (last.getD false).toNat + 2 * digits.zeroed := by
  simp [zeroed, Nat.ofDigits_cons]

theorem covers_iff {w : ℕ} (addr : BitVec w) :
    digits.covers addr = true ↔
      ∀ k bit, digits.digit k = some bit → addr.getLsbD k = bit := by
  simp only [covers, List.all_eq_true, List.mem_range, Option.all_eq_true, beq_iff_eq]
  constructor
  · intro hcovers k bit hbit
    have hk : k < digits.length := by
      by_contra hbound
      simp [digits.digit_of_length_le (Nat.le_of_not_lt hbound)] at hbit
    exact hcovers k hk bit hbit
  · intro hdigits k _ bit hbit
    exact hdigits k bit hbit

end Digits

namespace BitPat

/-- `BitPat("b…")`: value and mask grow with each digit. -/
def parse (digits : Digits) : BitPat :=
  digits.foldl (fun pattern digit =>
    ⟨2 * pattern.value + (digit.getD false).toNat, 2 * pattern.mask + digit.isSome.toNat⟩) ⟨0, 0⟩

theorem parse_concat (digits : Digits) (last : Option Bool) :
    parse (digits ++ [last]) =
      ⟨Nat.bit (last.getD false) (parse digits).value,
        Nat.bit last.isSome (parse digits).mask⟩ := by
  simp [parse, Nat.bit_val]

theorem parse_value (digits : Digits) : (parse digits).value = digits.zeroed := by
  induction digits using List.reverseRecOn with
  | nil => rfl
  | append_singleton digits last ih =>
      rw [parse_concat, Digits.zeroed_concat, Nat.bit_val, ih, Nat.add_comm]

/-- A number that grows by one bit for each digit has the digits' bits. -/
theorem testBit_parse (field : BitPat → ℕ) (bit : Option Bool → Bool) (hnone : bit none = false)
    (hnil : field (parse []) = 0)
    (hconcat : ∀ digits last, field (parse (digits ++ [last])) =
      Nat.bit (bit last) (field (parse digits)))
    (digits : Digits) (k : ℕ) : (field (parse digits)).testBit k = bit (digits.digit k) := by
  induction digits using List.reverseRecOn generalizing k with
  | nil => rw [hnil, Nat.zero_testBit, Digits.digit_nil, hnone]
  | append_singleton digits last ih =>
      rw [hconcat]
      cases k with
      | zero => rw [Nat.testBit_bit_zero, Digits.digit_concat_zero]
      | succ k => rw [Nat.testBit_bit_succ, Digits.digit_concat_succ, ih]

theorem testBit_parse_value (digits : Digits) (k : ℕ) :
    (parse digits).value.testBit k = (digits.digit k).getD false := by
  apply testBit_parse value (·.getD false) rfl rfl
  intro digits last
  rw [parse_concat]

theorem testBit_parse_mask (digits : Digits) (k : ℕ) :
    (parse digits).mask.testBit k = (digits.digit k).isSome := by
  apply testBit_parse mask Option.isSome rfl rfl
  intro digits last
  rw [parse_concat]

/-- The masked comparison looks at the fixed digits only. -/
theorem parse_eq {w : ℕ} (digits : Digits) (addr : BitVec w) :
    (parse digits).eq addr = digits.covers addr := by
  have hdigit : ∀ k, (addr.getLsbD k && (digits.digit k).isSome) = (digits.digit k).getD false ↔
      ∀ bit, digits.digit k = some bit → addr.getLsbD k = bit := by
    intro k
    cases digits.digit k <;> simp
  rw [Bool.eq_iff_iff, Digits.covers_iff, BitPat.eq, beq_iff_eq]
  calc addr.toNat &&& (parse digits).mask = (parse digits).value
      ↔ ∀ k, (addr.toNat &&& (parse digits).mask).testBit k = (parse digits).value.testBit k :=
        ⟨fun h k => by rw [h], Nat.eq_of_testBit_eq⟩
    _ ↔ ∀ k, (addr.getLsbD k && (digits.digit k).isSome) = (digits.digit k).getD false := by
        simp only [Nat.testBit_and, BitVec.testBit_toNat, testBit_parse_mask,
          testBit_parse_value]
    _ ↔ ∀ k bit, digits.digit k = some bit → addr.getLsbD k = bit := forall_congr' hdigit

/-- The digits of a pattern. -/
def digits (pattern : BitPat) : Digits :=
  ((List.range pattern.mask.size).map fun k =>
    if pattern.mask.testBit k then some (pattern.value.testBit k) else none).reverse

theorem digit_digits (pattern : BitPat) (k : ℕ) :
    pattern.digits.digit k =
      if pattern.mask.testBit k then some (pattern.value.testBit k) else none := by
  rw [Digits.digit, digits, List.reverse_reverse]
  by_cases hk : k < pattern.mask.size
  · simp [hk]
  · have hmask : pattern.mask.testBit k = false :=
      Nat.testBit_eq_false_of_lt (Nat.size_le.mp (Nat.le_of_not_lt hk))
    simp [hk, hmask]

/-- A pattern whose open positions are clear is that of its digits. -/
theorem parse_digits {pattern : BitPat}
    (hopen : pattern.value &&& pattern.mask = pattern.value) :
    parse pattern.digits = pattern := by
  have hmask : (parse pattern.digits).mask = pattern.mask := by
    apply Nat.eq_of_testBit_eq
    intro k
    rw [testBit_parse_mask, digit_digits]
    cases pattern.mask.testBit k <;> rfl
  have hvalue : (parse pattern.digits).value = pattern.value := by
    apply Nat.eq_of_testBit_eq
    intro k
    have hbit := congrArg (Nat.testBit · k) hopen
    rw [Nat.testBit_and] at hbit
    rw [testBit_parse_value, digit_digits, ← hbit]
    cases pattern.mask.testBit k <;> simp
  cases pattern
  exact (congrArg₂ BitPat.mk hvalue hmask :)

end BitPat

/-! ## The loop over the table -/

namespace DecodeLogic

/-- `mapping(i) += key -> value` for each row and each of its values; a row with
more values than there are defaults raises. -/
def mapping (default : List BitPat) (mappingIn : List (BitPat × List BitPat)) :
    Option (List (List (BitPat × BitPat))) :=
  mappingIn.foldlM
    (fun mapping row =>
      row.2.zipIdx.foldlM
        (fun mapping entry => Buffers.push mapping entry.2 (row.1, entry.1)) mapping)
    (List.replicate default.length [])

/-- `apply` of a whole table: every default with the mapping of its column. -/
def applyTable {w : ℕ} (addr : BitVec w) (default : List BitPat)
    (mappingIn : List (BitPat × List BitPat)) : Option (List ℕ) :=
  (mapping default mappingIn).map fun mapping =>
    (default.zip mapping).map fun column => applyColumn addr column.1 column.2

/-- A row as the loop appends it: every value under the row's pattern. -/
def entries (row : BitPat × List BitPat) : List (BitPat × BitPat) :=
  row.2.map fun value => (row.1, value)

theorem pushRow_entries (mapping : List (List (BitPat × BitPat)))
    (row : BitPat × List BitPat) :
    Buffers.pushRow mapping (entries row) 0 =
      row.2.zipIdx.foldlM
        (fun mapping entry => Buffers.push mapping entry.2 (row.1, entry.1)) mapping := by
  rw [Buffers.pushRow, entries, List.zipIdx_map, List.foldlM_map]
  rfl

theorem column_entries (mappingIn : List (BitPat × List BitPat)) :
    Buffers.column (mappingIn.map entries) = column mappingIn := by
  funext i
  simp [Buffers.column, column, entries, List.filterMap_map, Function.comp_def]

/-- The loop collects the columns of the table. -/
theorem mapping_eq (default : List BitPat) (mappingIn : List (BitPat × List BitPat)) :
    mapping default mappingIn =
      if ∀ row ∈ mappingIn, row.2.length ≤ default.length then
        some ((List.range default.length).map (column mappingIn))
      else none := by
  have hfill : mapping default mappingIn =
      Buffers.fill default.length (mappingIn.map entries) := by
    rw [Buffers.fill, List.foldlM_map]
    simp only [pushRow_entries]
    rfl
  have hlength : (∀ row ∈ mappingIn.map entries, row.length ≤ default.length) ↔
      ∀ row ∈ mappingIn, row.2.length ≤ default.length := by
    simp only [List.forall_mem_map, entries, List.length_map]
  rw [hfill, Buffers.fill_eq, column_entries]
  exact if_congr hlength rfl rfl

/-- With the buffers filled, each output is the multiplexer of its column. -/
theorem applyTable_eq {w : ℕ} (addr : BitVec w) (default : List BitPat)
    (mappingIn : List (BitPat × List BitPat)) :
    applyTable addr default mappingIn =
      if ∀ row ∈ mappingIn, row.2.length ≤ default.length then
        some (apply addr default mappingIn)
      else none := by
  have houtputs : ((default.zip ((List.range default.length).map (column mappingIn))).map
      fun column => applyColumn addr column.1 column.2) = apply addr default mappingIn := by
    apply List.ext_getElem (by simp [apply])
    intro i _ _
    simp [apply]
  rw [applyTable, mapping_eq]
  split_ifs
  · exact congrArg some houtputs
  · rfl

/-! ## One whole row -/

/-- The row that is read: the first one that covers the word, else the defaults. -/
def selected {w : ℕ} (addr : BitVec w) (default : List Digits)
    (table : List (Digits × List Digits)) : List Digits :=
  (table.find? fun row => row.1.covers addr).elim default Prod.snd

def parseRow (row : Digits × List Digits) : BitPat × List BitPat :=
  (.parse row.1, row.2.map .parse)

theorem firstRow_parse {w : ℕ} (addr : BitVec w) (default : List Digits)
    (table : List (Digits × List Digits)) :
    firstRow addr (default.map .parse) (table.map parseRow) =
      (selected addr default table).map Digits.zeroed := by
  have hpattern : ((fun row : BitPat × List BitPat => row.1.eq addr) ∘ parseRow) =
      fun row => row.1.covers addr :=
    funext fun row => BitPat.parse_eq row.1 addr
  have hvalue : BitPat.value ∘ BitPat.parse = Digits.zeroed := funext BitPat.parse_value
  rw [firstRow, selected, List.find?_map, hpattern]
  cases table.find? fun row => row.1.covers addr with
  | none => rw [Option.map_none, Option.elim_none, Option.elim_none, List.map_map, hvalue]
  | some row => rw [Option.map_some, Option.elim_some, Option.elim_some, parseRow, List.map_map,
      hvalue]

/-- The digits of every pattern of a row. -/
def digitsRow (row : BitPat × List BitPat) : Digits × List Digits :=
  (row.1.digits, row.2.map BitPat.digits)

theorem map_map_eq_self {A B : Type*} {print : A → B} {parse : B → A} {items : List A}
    (hitems : ∀ item ∈ items, parse (print item) = item) :
    (items.map print).map parse = items := by
  calc (items.map print).map parse
      = items.map id := by
        rw [List.map_map]
        exact List.map_congr_left hitems
    _ = items := List.map_id items

theorem map_parse_digits {patterns : List BitPat}
    (hopen : ∀ pattern ∈ patterns, pattern.value &&& pattern.mask = pattern.value) :
    (patterns.map BitPat.digits).map .parse = patterns :=
  map_map_eq_self fun pattern hmem => BitPat.parse_digits (hopen pattern hmem)

/-- All columns stop at the same row. -/
theorem apply_parse {w : ℕ} (addr : BitVec w) {default : List Digits}
    {table : List (Digits × List Digits)}
    (htable : ∀ row ∈ table, row.2.length = default.length) :
    apply addr (default.map .parse) (table.map parseRow) =
      (selected addr default table).map Digits.zeroed := by
  have hparsed : ∀ row ∈ table.map parseRow,
      row.2.length = (default.map BitPat.parse).length := by
    simpa only [List.forall_mem_map, parseRow, List.length_map] using htable
  rw [apply_eq_firstRow addr hparsed, firstRow_parse]

/-- The generic decoder reads one whole row, whatever rows overlap. -/
theorem applyTable_eq_selected {w : ℕ} (addr : BitVec w) (default : List Digits)
    (table : List (Digits × List Digits))
    (htable : ∀ row ∈ table, row.2.length = default.length) :
    applyTable addr (default.map .parse) (table.map parseRow) =
      some ((selected addr default table).map Digits.zeroed) := by
  have hfits : ∀ row ∈ table.map parseRow,
      row.2.length ≤ (default.map BitPat.parse).length := by
    simpa only [List.forall_mem_map, parseRow, List.length_map] using
      fun row hrow => (htable row hrow).le
  rw [applyTable_eq, if_pos hfits, apply_parse addr htable]

/-- `1??` and `??1` both cover `101`; the outputs are those of the first row. -/
theorem applyTable_eq_selected_overlap :
    applyTable (5 : BitVec 3) [.parse [none], .parse [none, none]]
      [(.parse [some true, none, none], [.parse [some false], .parse [some true, none]]),
        (.parse [none, none, some true], [.parse [some true], .parse [some true, some true]])] =
      some [0, 2] :=
  applyTable_eq_selected 5 [[none], [none, none]]
    [([some true, none, none], [[some false], [some true, none]]),
      ([none, none, some true], [[some true], [some true, some true]])] (by decide)

/-- A first row that is too short lets the second one into the last column. -/
example :
    applyTable (5 : BitVec 3) [.dontCare, .dontCare]
      [(.dontCare, [⟨1, 1⟩]), (.dontCare, [⟨2, 3⟩, ⟨3, 3⟩])] = some [1, 3] := by
  decide

end DecodeLogic

/-! ## The decoder of the core -/

/-- The loop never raises on the core's table. -/
theorem applyTable_idDecode (inst : Word) :
    (DecodeLogic.applyTable inst IntCtrlSigs.default IDecode.table).map IntCtrlSigs.assign =
      some (idDecode inst) := by
  rw [DecodeLogic.applyTable_eq, if_pos fun row hrow => (table_rowLength row hrow).le]
  rfl

theorem default_open : ∀ pattern ∈ IntCtrlSigs.default,
    pattern.value &&& pattern.mask = pattern.value := by decide

theorem table_open : ∀ row ∈ IDecode.table, ∀ pattern ∈ row.1 :: row.2,
    pattern.value &&& pattern.mask = pattern.value := by decide

theorem parse_table : (IDecode.table.map DecodeLogic.digitsRow).map DecodeLogic.parseRow =
    IDecode.table := by
  apply DecodeLogic.map_map_eq_self
  intro row hrow
  have hopen := table_open row hrow
  exact Prod.ext (BitPat.parse_digits (hopen row.1 (List.mem_cons_self ..)))
    (DecodeLogic.map_parse_digits fun pattern hmem => hopen pattern (List.mem_cons_of_mem _ hmem))

/-- Every control bundle is the row of the first pattern that the instruction
agrees with digit by digit. -/
theorem idDecode_eq_zeroed (inst : Word) :
    idDecode inst =
      .assign ((DecodeLogic.selected inst (IntCtrlSigs.default.map BitPat.digits)
        (IDecode.table.map DecodeLogic.digitsRow)).map Digits.zeroed) := by
  have htable : ∀ row ∈ IDecode.table.map DecodeLogic.digitsRow,
      row.2.length = (IntCtrlSigs.default.map BitPat.digits).length := by
    simpa only [List.forall_mem_map, DecodeLogic.digitsRow, List.length_map] using
      table_rowLength
  rw [← DecodeLogic.apply_parse inst htable, DecodeLogic.map_parse_digits default_open,
    parse_table]
  rfl

end KyogenRV
