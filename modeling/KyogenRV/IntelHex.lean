import Mathlib.Algebra.Ring.Nat
import Mathlib.Data.List.Basic

/-!
# Intel HEX

The records of an Intel HEX file and the reader that accepts them.  A line is a
colon and two digits for each byte: the number of data bytes, the address in
two bytes, the kind, the data and a checksum that makes the sum of all bytes 0
modulo 256.  A file is a list of data records and one end-of-file record.
-/

namespace IntelHex

/-! ## Digits and bytes -/

/-- The value of a hexadecimal digit of either case. -/
def digit (c : Char) : Option ℕ :=
  if '0'.toNat ≤ c.toNat ∧ c.toNat ≤ '9'.toNat then some (c.toNat - '0'.toNat)
  else if 'A'.toNat ≤ c.toNat ∧ c.toNat ≤ 'F'.toNat then some (c.toNat - 'A'.toNat + 10)
  else if 'a'.toNat ≤ c.toNat ∧ c.toNat ≤ 'f'.toNat then some (c.toNat - 'a'.toNat + 10)
  else none

/-- The bytes that pairs of digits spell. -/
def bytes : List Char → Option (List ℕ)
  | [] => some []
  | [_] => none
  | high :: low :: text => do
      let h ← digit high
      let l ← digit low
      let rest ← bytes text
      some ((16 * h + l) :: rest)

section Bytes

variable {left right text : List Char} {values : List ℕ}

theorem bytes_cons_eq_some {high low : Char} :
    bytes (high :: low :: text) = some values ↔
      ∃ h l rest, digit high = some h ∧ digit low = some l ∧ bytes text = some rest ∧
        values = (16 * h + l) :: rest := by
  simp only [bytes, bind, Option.bind_eq_some_iff, Option.some.injEq]
  constructor
  · rintro ⟨h, hhigh, l, hlow, rest, hrest, rfl⟩
    exact ⟨h, l, rest, hhigh, hlow, hrest, rfl⟩
  · rintro ⟨h, l, rest, hhigh, hlow, hrest, rfl⟩
    exact ⟨h, hhigh, l, hlow, rest, hrest, rfl⟩

theorem bytes_append (hleft : bytes left = some values) :
    bytes (left ++ right) = (bytes right).map (values ++ ·) := by
  induction left using bytes.induct generalizing values with
  | case1 =>
      obtain rfl := Option.some.inj hleft
      simp
  | case2 c => exact absurd hleft (by simp [bytes])
  | case3 high low text ih =>
      obtain ⟨h, l, rest, hhigh, hlow, hrest, rfl⟩ := bytes_cons_eq_some.mp hleft
      simp only [List.cons_append, bytes, hhigh, hlow, ih hrest]
      cases bytes right <;> rfl

theorem length_of_bytes (hbytes : bytes text = some values) : text.length = 2 * values.length := by
  induction text using bytes.induct generalizing values with
  | case1 =>
      obtain rfl := Option.some.inj hbytes
      rfl
  | case2 c => exact absurd hbytes (by simp [bytes])
  | case3 high low text ih =>
      obtain ⟨h, l, rest, _, _, hrest, rfl⟩ := bytes_cons_eq_some.mp hbytes
      simp only [List.length_cons, ih hrest]
      omega

theorem isSome_of_bytes (hbytes : bytes text = some values) : ∀ c ∈ text, (digit c).isSome := by
  induction text using bytes.induct generalizing values with
  | case1 => simp
  | case2 c => exact absurd hbytes (by simp [bytes])
  | case3 high low text ih =>
      obtain ⟨h, l, rest, hhigh, hlow, hrest, rfl⟩ := bytes_cons_eq_some.mp hbytes
      simp only [List.forall_mem_cons, hhigh, hlow, Option.isSome_some, true_and]
      exact ih hrest

/-- An even number of digits spells bytes. -/
theorem exists_bytes (hdigits : ∀ c ∈ text, (digit c).isSome) (heven : text.length % 2 = 0) :
    ∃ values, bytes text = some values := by
  induction text using bytes.induct with
  | case1 => exact ⟨[], rfl⟩
  | case2 c => exact absurd heven (by simp)
  | case3 high low text ih =>
      simp only [List.forall_mem_cons] at hdigits
      obtain ⟨h, hhigh⟩ := Option.isSome_iff_exists.mp hdigits.1
      obtain ⟨l, hlow⟩ := Option.isSome_iff_exists.mp hdigits.2.1
      obtain ⟨rest, hrest⟩ := ih hdigits.2.2 (by simp at heven; omega)
      exact ⟨_, bytes_cons_eq_some.mpr ⟨h, l, rest, hhigh, hlow, hrest, rfl⟩⟩

end Bytes

/-- Every value below 16 has a lower-case digit. -/
theorem digit_digitChar {n : ℕ} (hn : n < 16) : digit n.digitChar = some n := by
  revert n
  decide

/-! ## Records -/

/-- A record.  Its byte count and its checksum follow from the rest. -/
structure Record where
  address : ℕ
  kind : ℕ
  data : List ℕ
  deriving DecidableEq

def endOfFile : Record := ⟨0, 1, []⟩

/-- The record that bytes make up, if as many are there as declared and they
sum to 0 modulo 256. -/
def ofBytes : List ℕ → Option Record
  | count :: high :: low :: kind :: rest =>
      if rest.length = count + 1 ∧ (count + high + low + kind + rest.sum) % 256 = 0 then
        some ⟨256 * high + low, kind, rest.dropLast⟩
      else none
  | _ => none

def parseRecord : List Char → Option Record
  | [] => none
  | c :: text => if c = ':' then (bytes text).bind ofBytes else none

/-- A record fills its line: two digits for each byte. -/
theorem length_of_parse {text : List Char} {record : Record} {count : ℕ} {rest : List ℕ}
    (hbytes : bytes text = some (count :: rest))
    (hrecord : parseRecord (':' :: text) = some record) :
    text.length = 2 * (count + 5) := by
  rw [parseRecord, if_pos rfl, hbytes, Option.bind_some] at hrecord
  have hlength := length_of_bytes hbytes
  match rest, hrecord with
  | high :: low :: kind :: rest, hrecord =>
      rw [ofBytes] at hrecord
      split_ifs at hrecord with hfit
      simp only [List.length_cons, hfit.1] at hlength
      omega

/-! ## Files -/

/-- The lines of a text, without their ends. -/
def lines : List Char → List (List Char)
  | [] => []
  | c :: text =>
      if c = '\n' then [] :: lines text
      else
        match lines text with
        | [] => [[c]]
        | line :: rest => (c :: line) :: rest

theorem lines_append {line : List Char} (hline : '\n' ∉ line) (text : List Char) :
    lines (line ++ '\n' :: text) = line :: lines text := by
  induction line with
  | nil => simp [lines]
  | cons c line ih =>
      rw [List.mem_cons, not_or] at hline
      rw [List.cons_append, lines, if_neg (Ne.symm hline.1), ih hline.2]

/-- The data records of a file with their addresses; a file ends with its only
end-of-file record. -/
def decodeLines : List (List Char) → Option (List (ℕ × List ℕ))
  | [] => none
  | line :: rest => do
      let record ← parseRecord line
      if record = endOfFile ∧ rest = [] then some []
      else if record.kind = 0 then
        let records ← decodeLines rest
        some ((record.address, record.data) :: records)
      else none

def decode (text : List Char) : Option (List (ℕ × List ℕ)) := decodeLines (lines text)

end IntelHex
