import Mathlib.Data.List.DropRight
import Mathlib.Data.Nat.Digits.Lemmas
import KyogenRV.IntelHex

/-!
# `mk_intel_hex.py`

The conversion of an image of 32-bit words, one to a line, to Intel HEX.  The
address of a record is formatted with at least four digits.  It has four of
them up to the last address that the format can express; from the 65537th line
on it has more and the record is malformed.
-/

namespace KyogenRV.MkIntelHex

open IntelHex (bytes digit parseRecord decodeLines)

/-! ## The script -/

/-- `str.isspace` of one character. -/
def isSpace (c : Char) : Bool :=
  [0x09, 0x0a, 0x0b, 0x0c, 0x0d, 0x1c, 0x1d, 0x1e, 0x1f, 0x20, 0x85, 0xa0, 0x1680, 0x2028,
    0x2029, 0x202f, 0x205f, 0x3000].contains c.toNat ||
  decide (0x2000 ≤ c.toNat ∧ c.toNat ≤ 0x200a)

def strip (text : List Char) : List Char := (text.dropWhile isSpace).rdropWhile isSpace

/-- A text file is read with `'\n'` for each of the line ends `'\n'`, `'\r'` and
`'\r\n'`. -/
def universalNewlines : List Char → List Char
  | [] => []
  | '\r' :: '\n' :: text => '\n' :: universalNewlines text
  | '\r' :: text => '\n' :: universalNewlines text
  | c :: text => c :: universalNewlines text

/-- What successive calls of `readline` return before the empty string. -/
def readlines : List Char → List (List Char)
  | [] => []
  | c :: text =>
      if c = '\n' then [c] :: readlines text
      else
        match readlines text with
        | [] => [[c]]
        | line :: rest => (c :: line) :: rest

def splitN (text : List Char) (n : ℕ) : List (List Char) :=
  (List.range (text.length / n)).map fun i => (text.drop (i * n)).take n

/-- `int(s, 16)` of a text of digits.  The signs, blanks and underscores that
Python also accepts are rejected here; no word contains them. -/
def int16 (s : List Char) : Option ℕ :=
  if s = [] then none else s.foldlM (fun value c => (digit c).map (16 * value + ·)) 0

def convHexlist (list : List (List Char)) : Option (List ℕ) := list.mapM int16

/-- `format(n, '0<width>x')`. -/
def format (width n : ℕ) : List Char :=
  ((Nat.digits 16 n).reverse.map Nat.digitChar).leftpad width '0'

def hexStartCode : List Char := [':']
def hexByteCount : List Char := ['0', '4']
def hexRecordType : List Char := ['0', '0']
def hexEndOfFile : List Char := [':', '0', '0', '0', '0', '0', '0', '0', '1', 'F', 'F']

/-- `(0 - (int(hex_byte_count) + sum(li_hexaddr) + int(hex_record_type) +
sum(li_hexdata))) & 0xff`. -/
def checksum (hexaddr hexdata : List ℕ) : ℕ :=
  ((0 - (4 + hexaddr.sum + 0 + hexdata.sum : ℕ) : ℤ) % 256).toNat

/-- `wr_hex`, without the line end. -/
def wrHex (hexStartAddr : ℕ) (hexdata : List Char) (checksum : ℕ) : List Char :=
  hexStartCode ++ hexByteCount ++ format 4 hexStartAddr ++ hexRecordType ++ hexdata ++
    format 2 checksum

/-- The `while` loop over the lines that are left. -/
def records : List (List Char) → ℕ → Option (List Char)
  | [], _ => some []
  | line :: rest, hexStartAddr => do
      let hexdata := strip line
      let liHexdata ← convHexlist (splitN hexdata 2)
      let liHexaddr ← convHexlist (splitN (format 4 hexStartAddr) 2)
      let written ← records rest (hexStartAddr + 1)
      some (wrHex hexStartAddr hexdata (checksum liHexaddr liHexdata) ++ '\n' :: written)

/-- What the script writes for an input file. -/
def convert (text : List Char) : Option (List Char) :=
  (records (readlines (universalNewlines text)) 0).map fun written =>
    written ++ hexEndOfFile ++ ['\n']

/-! ## Inputs and their round trip -/

/-- A word: eight hexadecimal digits. -/
def IsWord (word : List Char) : Prop := word.length = 8 ∧ ∀ c ∈ word, (digit c).isSome

/-- A line that holds a word, possibly with surrounding blanks. -/
def HoldsWord (line word : List Char) : Prop :=
  ∃ before after, line = before ++ word ++ after ∧ IsWord word ∧
    ∀ c ∈ before ++ after, isSpace c = true ∧ c ≠ '\n' ∧ c ≠ '\r'

/-- What ends a line. -/
inductive LineEnd : List Char → Prop
  | lf : LineEnd ['\n']
  | cr : LineEnd ['\r']
  | crLf : LineEnd ['\r', '\n']

/-- A text whose lines each hold one word; the last line need not end. -/
inductive HoldsWords : List Char → List (List Char) → Prop
  | nil : HoldsWords [] []
  | last {line word} : HoldsWord line word → HoldsWords line [word]
  | cons {line word lineEnd text words} : HoldsWord line word → LineEnd lineEnd →
      HoldsWords text words → HoldsWords (line ++ lineEnd ++ text) (word :: words)

def wordBytes (word : List Char) : List ℕ := (bytes word).getD []

/-- The script writes an Intel HEX file with the words in order at consecutive
addresses from 0 on. -/
def RoundTrips (text : List Char) (words : List (List Char)) : Prop :=
  ∃ file, convert text = some file ∧
    IntelHex.decode file = some (words.mapIdx fun i word => (i, wordBytes word))

theorem isWord_of_all {word : List Char} (hlength : word.length = 8)
    (hall : word.all (fun c => (digit c).isSome) = true) : IsWord word :=
  ⟨hlength, List.all_eq_true.mp hall⟩

/-! ## Formatted numbers -/

section Format

variable {width n : ℕ}

theorem format_succ (width n : ℕ) :
    format (width + 1) n = format width (n / 16) ++ [(n % 16).digitChar] := by
  rcases Nat.eq_zero_or_pos n with rfl | hpos
  · simp [format, List.leftpad, List.replicate_succ']
  · simp [format, List.leftpad, Nat.digits_def' (by decide : 1 < 16) hpos]

theorem length_format_iff : (format width n).length = width ↔ n < 16 ^ width := by
  rw [format, List.length_leftpad, List.length_map, List.length_reverse,
    ← Nat.digits_length_le_iff (by decide : 1 < 16)]
  omega

theorem format_zero (hn : n < 1) : format 0 n = [] := List.length_eq_zero_iff.mp
  (length_format_iff.mpr hn)

theorem isSome_of_format (width n : ℕ) : ∀ c ∈ format width n, (digit c).isSome := by
  intro c hc
  rw [format, List.leftpad, List.mem_append, List.mem_map] at hc
  rcases hc with hpad | ⟨d, hd, rfl⟩
  · rw [List.eq_of_mem_replicate hpad]
    rfl
  · rw [IntelHex.digit_digitChar (Nat.digits_lt_base (by decide) (List.mem_reverse.mp hd))]
    rfl

/-- Four digits spell the two bytes of an address. -/
theorem bytes_format_four (hn : n < 65536) :
    bytes (format 4 n) = some [n / 256, n % 256] := by
  have hdigit (m : ℕ) : digit (m % 16).digitChar = some (m % 16) :=
    IntelHex.digit_digitChar (Nat.mod_lt m (by decide))
  rw [format_succ, format_succ, format_succ, format_succ, format_zero (by omega)]
  simp only [List.nil_append, List.cons_append, bytes, hdigit, bind, Option.bind_some,
    Option.some.injEq, List.cons.injEq, and_true]
  omega

theorem bytes_format_two (hn : n < 256) : bytes (format 2 n) = some [n] := by
  have hdigit (m : ℕ) : digit (m % 16).digitChar = some (m % 16) :=
    IntelHex.digit_digitChar (Nat.mod_lt m (by decide))
  rw [format_succ, format_succ, format_zero (by omega)]
  simp only [List.nil_append, List.cons_append, bytes, hdigit, bind, Option.bind_some,
    Option.some.injEq, List.cons.injEq, and_true]
  omega

end Format

/-! ## Reading a word -/

section Words

variable {text word : List Char} {values : List ℕ}

theorem splitN_two (high low : Char) :
    splitN (high :: low :: text) 2 = [high, low] :: splitN text 2 := by
  have hlength : (high :: low :: text).length / 2 = text.length / 2 + 1 := by
    simp only [List.length_cons]
    omega
  rw [splitN, splitN, hlength, List.range_succ_eq_map, List.map_cons, List.map_map]
  refine congrArg₂ List.cons rfl (List.map_congr_left fun i _ => ?_)
  simp only [Function.comp_apply, Nat.succ_eq_add_one, Nat.add_mul, Nat.one_mul]
  rfl

theorem int16_pair {high low : Char} {h l : ℕ} (hhigh : digit high = some h)
    (hlow : digit low = some l) : int16 [high, low] = some (16 * h + l) := by
  simp [int16, hhigh, hlow]

/-- Splitting into pairs and converting them reads the bytes. -/
theorem convHexlist_splitN (hbytes : bytes text = some values) :
    convHexlist (splitN text 2) = some values := by
  induction text using IntelHex.bytes.induct generalizing values with
  | case1 => exact hbytes
  | case2 c => exact absurd hbytes (by simp [bytes])
  | case3 high low text ih =>
      obtain ⟨h, l, rest, hhigh, hlow, hrest, rfl⟩ := IntelHex.bytes_cons_eq_some.mp hbytes
      have hih := ih hrest
      rw [convHexlist] at hih ⊢
      rw [splitN_two, List.mapM_cons, int16_pair hhigh hlow, hih]
      rfl

/-- Pairs of digits are always converted; an odd last digit is dropped. -/
theorem exists_convHexlist (hdigits : ∀ c ∈ text, (digit c).isSome) :
    ∃ values, convHexlist (splitN text 2) = some values := by
  induction text using IntelHex.bytes.induct with
  | case1 => exact ⟨[], rfl⟩
  | case2 c => exact ⟨[], by simp [splitN, convHexlist]⟩
  | case3 high low text ih =>
      simp only [List.forall_mem_cons] at hdigits
      obtain ⟨h, hhigh⟩ := Option.isSome_iff_exists.mp hdigits.1
      obtain ⟨l, hlow⟩ := Option.isSome_iff_exists.mp hdigits.2.1
      obtain ⟨rest, hrest⟩ := ih hdigits.2.2
      rw [convHexlist] at hrest
      rw [convHexlist, splitN_two, List.mapM_cons, int16_pair hhigh hlow, hrest]
      exact ⟨_, rfl⟩

theorem exists_wordBytes (hword : IsWord word) :
    ∃ values, bytes word = some values ∧ values.length = 4 := by
  obtain ⟨values, hvalues⟩ := IntelHex.exists_bytes hword.2 (by rw [hword.1])
  refine ⟨values, hvalues, ?_⟩
  have hlength := IntelHex.length_of_bytes hvalues
  rw [hword.1] at hlength
  omega

theorem not_isSpace_of_digit {c : Char} (hc : (digit c).isSome) : isSpace c = false := by
  rw [digit] at hc
  rw [isSpace]
  generalize c.toNat = n at hc ⊢
  split_ifs at hc with hdecimal hupper hlower
  · have hlow : 48 ≤ n := hdecimal.1
    have hhigh : n ≤ 57 := hdecimal.2
    interval_cases n <;> rfl
  · have hlow : 65 ≤ n := hupper.1
    have hhigh : n ≤ 70 := hupper.2
    interval_cases n <;> rfl
  · have hlow : 97 ≤ n := hlower.1
    have hhigh : n ≤ 102 := hlower.2
    interval_cases n <;> rfl
  · exact absurd hc Bool.false_ne_true

theorem strip_word {before after : List Char} (hword : IsWord word)
    (hbefore : ∀ c ∈ before, isSpace c = true) (hafter : ∀ c ∈ after, isSpace c = true) :
    strip (before ++ word ++ after) = word := by
  have hkept (text : List Char) (htext : ∀ c ∈ text, (digit c).isSome) (hne : text ≠ [])
      (blanks : List Char) : (text ++ blanks).dropWhile isSpace = text ++ blanks := by
    cases text with
    | nil => exact absurd rfl hne
    | cons c text =>
        rw [List.cons_append, List.dropWhile_cons_of_neg]
        rw [not_isSpace_of_digit (htext c (List.mem_cons_self ..))]
        exact Bool.false_ne_true
  have hne : word ≠ [] := by
    rintro rfl
    exact absurd hword.1 (by decide)
  rw [strip, List.append_assoc, List.dropWhile_append_of_pos hbefore, hkept word hword.2 hne,
    List.rdropWhile, List.reverse_append,
    List.dropWhile_append_of_pos fun c hc => hafter c (List.mem_reverse.mp hc)]
  have hreverse := hkept word.reverse (fun c hc => hword.2 c (List.mem_reverse.mp hc))
    (fun h => hne (List.reverse_eq_nil_iff.mp h)) []
  rw [List.append_nil] at hreverse
  rw [hreverse, List.reverse_reverse]

/-! ## The lines of an input -/

theorem universalNewlines_cons {c : Char} (hc : c ≠ '\r') (text : List Char) :
    universalNewlines (c :: text) = c :: universalNewlines text := by
  rw [universalNewlines]
  · exact fun _ h _ => hc h
  · exact hc

theorem universalNewlines_append {line : List Char} (hline : '\r' ∉ line) (text : List Char) :
    universalNewlines (line ++ text) = line ++ universalNewlines text := by
  induction line with
  | nil => rfl
  | cons c line ih =>
      rw [List.mem_cons, not_or] at hline
      rw [List.cons_append, universalNewlines_cons (Ne.symm hline.1), ih hline.2, List.cons_append]

/-- A line end is read as one character, unless a `'\n'` follows it. -/
theorem universalNewlines_lineEnd {lineEnd : List Char} (hend : LineEnd lineEnd)
    (htext : text.head? ≠ some '\n') :
    universalNewlines (lineEnd ++ text) = '\n' :: universalNewlines text := by
  cases hend with
  | lf => exact universalNewlines_cons (by decide) text
  | crLf => rfl
  | cr =>
      cases text with
      | nil => rfl
      | cons c text =>
          rw [List.cons_append, List.nil_append, universalNewlines]
          intro _ h
          exact htext (congrArg List.head? h)

theorem readlines_append {line : List Char} (hline : '\n' ∉ line) (text : List Char) :
    readlines (line ++ '\n' :: text) = (line ++ ['\n']) :: readlines text := by
  induction line with
  | nil => simp [readlines]
  | cons c line ih =>
      rw [List.mem_cons, not_or] at hline
      rw [List.cons_append, readlines, if_neg (Ne.symm hline.1), ih hline.2, List.cons_append]

theorem readlines_last {line : List Char} (hline : '\n' ∉ line) (hne : line ≠ []) :
    readlines line = [line] := by
  induction line with
  | nil => exact absurd rfl hne
  | cons c line ih =>
      rw [List.mem_cons, not_or] at hline
      rw [readlines, if_neg (Ne.symm hline.1)]
      by_cases hnil : line = []
      · subst hnil
        rfl
      · rw [ih hline.2 hnil]

theorem strip_line {line : List Char} (hline : HoldsWord line word) :
    IsWord word ∧ line ≠ [] ∧ strip line = word ∧ strip (line ++ ['\n']) = word := by
  obtain ⟨before, after, rfl, hword, hblanks⟩ := hline
  have hbefore : ∀ c ∈ before, isSpace c = true := fun c hc =>
    (hblanks c (List.mem_append_left _ hc)).1
  have hafter : ∀ c ∈ after, isSpace c = true := fun c hc =>
    (hblanks c (List.mem_append_right _ hc)).1
  refine ⟨hword, ?_, strip_word hword hbefore hafter, ?_⟩
  · intro hnil
    rw [List.append_eq_nil_iff, List.append_eq_nil_iff] at hnil
    rw [IsWord, hnil.1.2] at hword
    exact absurd hword.1 (by decide)
  · rw [List.append_assoc]
    refine strip_word hword hbefore fun c hc => ?_
    rcases List.mem_append.mp hc with h | h
    · exact hafter c h
    · rw [List.mem_singleton.mp h]
      decide

/-- No line end is in the line itself. -/
theorem unbroken_line {line : List Char} (hline : HoldsWord line word) :
    '\n' ∉ line ∧ '\r' ∉ line := by
  obtain ⟨before, after, rfl, hword, hblanks⟩ := hline
  have hnone (c : Char) (hdigit : (digit c).isSome = false)
      (hblank : c ∉ before ∧ c ∉ after) : c ∉ before ++ word ++ after := by
    simp only [List.mem_append, not_or]
    refine ⟨⟨hblank.1, fun h => ?_⟩, hblank.2⟩
    exact absurd ((hword.2 c h).symm.trans hdigit) (by decide)
  constructor
  · apply hnone _ (by decide)
    exact ⟨fun h => (hblanks _ (List.mem_append_left _ h)).2.1 rfl,
      fun h => (hblanks _ (List.mem_append_right _ h)).2.1 rfl⟩
  · apply hnone _ (by decide)
    exact ⟨fun h => (hblanks _ (List.mem_append_left _ h)).2.2 rfl,
      fun h => (hblanks _ (List.mem_append_right _ h)).2.2 rfl⟩

/-- A line begins with something else than a line end. -/
theorem head_line {line : List Char} (hline : HoldsWord line word) (text : List Char) :
    (line ++ text).head? ≠ some '\n' := by
  have hne := (strip_line hline).2.1
  have hmem := (unbroken_line hline).1
  cases line with
  | nil => exact absurd rfl hne
  | cons c line =>
      intro h
      exact hmem (Option.some.inj h ▸ List.mem_cons_self ..)

theorem head_of_holds {words : List (List Char)} (hwords : HoldsWords text words) :
    text.head? ≠ some '\n' := by
  cases hwords with
  | nil => simp
  | last hline =>
      have h := head_line hline []
      rwa [List.append_nil] at h
  | cons hline =>
      rw [List.append_assoc]
      exact head_line hline _

/-- The lines that are read hold the words. -/
theorem readlines_of_holds {words : List (List Char)} (hwords : HoldsWords text words) :
    List.Forall₂ (fun line word => IsWord word ∧ strip line = word)
      (readlines (universalNewlines text)) words := by
  induction hwords with
  | nil => exact .nil
  | @last line _ hline =>
      obtain ⟨hword, hne, hstrip, _⟩ := strip_line hline
      obtain ⟨hlf, hcr⟩ := unbroken_line hline
      have hread : universalNewlines line = line := by
        have h := universalNewlines_append hcr []
        rwa [universalNewlines, List.append_nil] at h
      rw [hread, readlines_last hlf hne]
      exact .cons ⟨hword, hstrip⟩ .nil
  | cons hline hend hwords ih =>
      obtain ⟨hword, _, _, hstrip⟩ := strip_line hline
      obtain ⟨hlf, hcr⟩ := unbroken_line hline
      rw [List.append_assoc, universalNewlines_append hcr,
        universalNewlines_lineEnd hend (head_of_holds hwords), readlines_append hlf]
      exact .cons ⟨hword, hstrip⟩ ih

end Words

/-! ## The records -/

section Records

variable {word : List Char} {addr : ℕ}

/-- The bytes of a record sum to 0 with the checksum. -/
theorem checksum_sum (hexaddr hexdata : List ℕ) :
    checksum hexaddr hexdata < 256 ∧
      (4 + hexaddr.sum + hexdata.sum + checksum hexaddr hexdata) % 256 = 0 := by
  rw [checksum]
  omega

theorem newline_not_mem {text : List Char} (hdigits : ∀ c ∈ text, (digit c).isSome) :
    '\n' ∉ text := fun h => absurd (hdigits _ h) (by decide)

/-- The digits of a record line whose word reads `data`. -/
theorem digits_wrHex (hword : IsWord word) (addr : ℕ) (hexaddr data : List ℕ) :
    ∃ text, wrHex addr word (checksum hexaddr data) = ':' :: '0' :: '4' :: text ∧
      (∀ c ∈ text, (digit c).isSome) ∧ text.length = (format 4 addr).length + 12 := by
  have htwo := bytes_format_two (checksum_sum hexaddr data).1
  refine ⟨format 4 addr ++ hexRecordType ++ word ++ format 2 (checksum hexaddr data), ?_, ?_, ?_⟩
  · simp [wrHex, hexStartCode, hexByteCount]
  · intro c hc
    simp only [List.mem_append] at hc
    rcases hc with ((hc | hc) | hc) | hc
    · exact isSome_of_format 4 addr c hc
    · exact List.all_eq_true.mp (rfl : hexRecordType.all (fun c => (digit c).isSome) = true) c hc
    · exact hword.2 c hc
    · exact IntelHex.isSome_of_bytes htwo c hc
  · have hlength := IntelHex.length_of_bytes htwo
    simp only [List.length_append, hword.1, hlength, hexRecordType, List.length_cons,
      List.length_nil]

/-- Up to the last address of the format the line is the record of the word. -/
theorem parse_wrHex (hword : IsWord word) (haddr : addr < 65536) {data : List ℕ}
    (hdata : bytes word = some data) :
    parseRecord (wrHex addr word (checksum [addr / 256, addr % 256] data)) =
      some ⟨addr, 0, data⟩ := by
  obtain ⟨hlt, hsum⟩ := checksum_sum [addr / 256, addr % 256] data
  have hlength : data.length = 4 := by
    obtain ⟨values, hvalues, hfour⟩ := exists_wordBytes hword
    rw [hdata] at hvalues
    rw [Option.some.inj hvalues, hfour]
  have hbytes : bytes (hexByteCount ++ format 4 addr ++ hexRecordType ++ word ++
      format 2 (checksum [addr / 256, addr % 256] data)) =
        some (4 :: addr / 256 :: addr % 256 :: 0 ::
          (data ++ [checksum [addr / 256, addr % 256] data])) := by
    have hcount : bytes hexByteCount = some [4] := by decide
    have htype : bytes hexRecordType = some [0] := by decide
    rw [List.append_assoc, List.append_assoc, List.append_assoc, IntelHex.bytes_append hcount,
      IntelHex.bytes_append (bytes_format_four haddr), IntelHex.bytes_append htype,
      IntelHex.bytes_append hdata, bytes_format_two hlt]
    rfl
  have hline : wrHex addr word (checksum [addr / 256, addr % 256] data) =
      ':' :: (hexByteCount ++ format 4 addr ++ hexRecordType ++ word ++
        format 2 (checksum [addr / 256, addr % 256] data)) := rfl
  rw [hline, parseRecord, if_pos rfl, hbytes, Option.bind_some, IntelHex.ofBytes, if_pos]
  · rw [List.dropLast_concat, Nat.div_add_mod]
  · refine ⟨by rw [List.length_append, hlength]; rfl, ?_⟩
    simp only [List.sum_append, List.sum_cons, List.sum_nil] at hsum ⊢
    omega

/-- From there on the line is no record. -/
theorem parse_wrHex_of_ge (hword : IsWord word) (haddr : 65536 ≤ addr) {hexaddr data : List ℕ} :
    parseRecord (wrHex addr word (checksum hexaddr data)) = none := by
  obtain ⟨text, hline, hdigits, hlength⟩ :=
    digits_wrHex hword addr hexaddr data
  rw [hline]
  cases hparse : parseRecord (':' :: '0' :: '4' :: text) with
  | none => rfl
  | some record =>
      have hlong : ¬(format 4 addr).length = 4 := fun h => by
        have := length_format_iff.mp h
        omega
      cases hbytes : bytes ('0' :: '4' :: text) with
      | none =>
          rw [parseRecord, if_pos rfl, hbytes] at hparse
          exact absurd hparse (by simp)
      | some values =>
          obtain ⟨h, l, rest, hhigh, hlow, _, rfl⟩ := IntelHex.bytes_cons_eq_some.mp hbytes
          have hzero : digit '0' = some 0 := rfl
          have hfour : digit '4' = some 4 := rfl
          obtain rfl := Option.some.inj (hzero.symm.trans hhigh)
          obtain rfl := Option.some.inj (hfour.symm.trans hlow)
          have htotal := IntelHex.length_of_parse hbytes hparse
          simp only [List.length_cons] at htotal
          omega

/-- The record of one word, ahead of what the rest of the loop writes. -/
theorem records_cons {line : List Char} {rest : List (List Char)} (hword : IsWord word)
    (hstrip : strip line = word) {written : List Char}
    (hrest : records rest (addr + 1) = some written) :
    ∃ hexaddr data, records (line :: rest) addr =
        some (wrHex addr word (checksum hexaddr data) ++ '\n' :: written) ∧
      bytes word = some data ∧ (addr < 65536 → hexaddr = [addr / 256, addr % 256]) := by
  obtain ⟨data, hdata, _⟩ := exists_wordBytes hword
  obtain ⟨hexaddr, hhexaddr⟩ := exists_convHexlist (isSome_of_format 4 addr)
  refine ⟨hexaddr, data, ?_, hdata, fun haddr => ?_⟩
  · simp only [records, hstrip, convHexlist_splitN hdata, hhexaddr, hrest, bind, Option.bind_some]
  · rw [convHexlist_splitN (bytes_format_four haddr)] at hhexaddr
    exact (Option.some.inj hhexaddr).symm

variable {ls words : List (List Char)}

/-- Every line that is read holds the word at its place. -/
abbrev Reads (ls words : List (List Char)) : Prop :=
  List.Forall₂ (fun line word => IsWord word ∧ strip line = word) ls words

/-- The script does not fail. -/
theorem exists_records (hlines : Reads ls words) (addr : ℕ) :
    ∃ written, records ls addr = some written := by
  induction hlines generalizing addr with
  | nil => exact ⟨[], rfl⟩
  | cons hline _ ih =>
      obtain ⟨written, hwritten⟩ := ih (addr + 1)
      obtain ⟨_, _, hrecords, _⟩ := records_cons hline.1 hline.2 hwritten
      exact ⟨_, hrecords⟩

theorem decode_cons (line written : List Char) (hline : '\n' ∉ line) :
    IntelHex.decode (line ++ '\n' :: written ++ hexEndOfFile ++ ['\n']) =
      decodeLines (line :: IntelHex.lines (written ++ hexEndOfFile ++ ['\n'])) := by
  rw [IntelHex.decode, ← IntelHex.lines_append hline]
  simp

/-- What the loop writes from an address on decodes to the words, as long as
their addresses do not run out. -/
theorem decode_records (hlines : Reads ls words) (addr : ℕ) (haddr : addr ≤ 65536) :
    ∃ written, records ls addr = some written ∧
      IntelHex.decode (written ++ hexEndOfFile ++ ['\n']) =
        if addr + words.length ≤ 65536 then
          some (words.mapIdx fun i word => (addr + i, wordBytes word))
        else none := by
  induction hlines generalizing addr with
  | nil =>
      refine ⟨[], rfl, ?_⟩
      have heof : IntelHex.decode (hexEndOfFile ++ ['\n']) = some [] := by decide
      exact heof.trans (if_pos haddr).symm
  | @cons line word ls words hline hlines ih =>
      obtain ⟨hword, hstrip⟩ := hline
      have hlength : addr + (word :: words).length = addr + 1 + words.length := by
        rw [List.length_cons]
        omega
      have hmem {hexaddr data : List ℕ} :
          '\n' ∉ wrHex addr word (checksum hexaddr data) := by
        obtain ⟨text, htext, hdigits, _⟩ := digits_wrHex hword addr hexaddr data
        rw [htext]
        simp [newline_not_mem hdigits]
      rw [hlength]
      by_cases hlt : addr < 65536
      · obtain ⟨written, hwritten, hdecode⟩ := ih (addr + 1) (Nat.succ_le_of_lt hlt)
        obtain ⟨hexaddr, data, hrecords, hdata, hhexaddr⟩ := records_cons hword hstrip hwritten
        obtain rfl := hhexaddr hlt
        refine ⟨_, hrecords, ?_⟩
        rw [decode_cons _ _ hmem, decodeLines, parse_wrHex hword hlt hdata]
        rw [IntelHex.decode] at hdecode
        have hne : ¬((⟨addr, 0, data⟩ : IntelHex.Record) = IntelHex.endOfFile ∧
            IntelHex.lines (written ++ hexEndOfFile ++ ['\n']) = []) := fun h =>
          absurd (congrArg IntelHex.Record.kind h.1) Nat.zero_ne_one
        simp only [bind, Option.bind_some, if_neg hne, if_true, hdecode]
        split_ifs with hfit
        · simp [List.mapIdx_cons, wordBytes, hdata, Nat.add_assoc, Nat.add_comm 1]
        · rfl
      · obtain ⟨written, hwritten⟩ := exists_records hlines (addr + 1)
        obtain ⟨hexaddr, data, hrecords, _, _⟩ := records_cons hword hstrip hwritten
        refine ⟨_, hrecords, ?_⟩
        rw [decode_cons _ _ hmem, decodeLines, parse_wrHex_of_ge hword (Nat.le_of_not_lt hlt),
          if_neg (by omega)]
        rfl

end Records

/-! ## The round trip -/

section RoundTrip

variable {text : List Char} {words : List (List Char)}

theorem decode_convert (hwords : HoldsWords text words) :
    ∃ file, convert text = some file ∧ IntelHex.decode file =
      if words.length ≤ 65536 then some (words.mapIdx fun i word => (i, wordBytes word))
      else none := by
  obtain ⟨written, hwritten, hdecode⟩ :=
    decode_records (readlines_of_holds hwords) 0 (Nat.zero_le _)
  refine ⟨written ++ hexEndOfFile ++ ['\n'], ?_, ?_⟩
  · rw [convert, hwritten, Option.map_some]
  · simpa using hdecode

theorem not_roundTrips (hwords : HoldsWords text words) (hlong : 65536 < words.length) :
    ¬RoundTrips text words := by
  rintro ⟨file, hfile, hdecode⟩
  obtain ⟨file', hfile', hnone⟩ := decode_convert hwords
  rw [if_neg (Nat.not_le_of_lt hlong)] at hnone
  obtain rfl := Option.some.inj (hfile.symm.trans hfile')
  rw [hdecode] at hnone
  exact absurd hnone (by simp)

/-- The conversion round-trips exactly for images of at most 65536 words, those
whose addresses have four digits. -/
theorem roundTrips_iff (hwords : HoldsWords text words) :
    RoundTrips text words ↔ words.length ≤ 65536 := by
  constructor
  · intro htrips
    by_contra hlong
    exact not_roundTrips hwords (Nat.lt_of_not_le hlong) htrips
  · intro hshort
    obtain ⟨file, hfile, hdecode⟩ := decode_convert hwords
    exact ⟨file, hfile, by rw [hdecode, if_pos hshort]⟩

/-- Two lines, the second one indented and without its end. -/
theorem roundTrips_two :
    RoundTrips ("01800093".toList ++ ['\r', '\n'] ++ " 0080006F".toList)
      ["01800093".toList, "0080006F".toList] := by
  have hwords : HoldsWords ("01800093".toList ++ ['\r', '\n'] ++ " 0080006F".toList)
      ["01800093".toList, "0080006F".toList] :=
    .cons ⟨[], [], rfl, isWord_of_all rfl rfl, by simp⟩ .crLf
      (.last ⟨[' '], [], rfl, isWord_of_all rfl rfl, by simp [isSpace]⟩)
  exact (roundTrips_iff hwords).mpr (by decide)

/-- An image of zeros. -/
def zeros : ℕ → List Char
  | 0 => []
  | n + 1 => "00000000".toList ++ ['\n'] ++ zeros n

theorem holds_zeros (n : ℕ) : HoldsWords (zeros n) (List.replicate n "00000000".toList) := by
  induction n with
  | zero => exact .nil
  | succ n ih => exact .cons ⟨[], [], rfl, isWord_of_all rfl rfl, by simp⟩ .lf ih

/-- With one word more than there are addresses the file is malformed. -/
theorem zeros_malformed :
    ¬∀ text words, HoldsWords text words → RoundTrips text words := by
  intro h
  exact not_roundTrips (holds_zeros 65537) (by rw [List.length_replicate]; decide)
    (h _ _ (holds_zeros 65537))

end RoundTrip

end KyogenRV.MkIntelHex
