import KyogenRV.Sw.XprintfFormat

/-!
# `xprintf.c`: integer strings

`xatoi`, which the settings of `xprintf.h` leave out, reads one integer and
leaves the pointer behind it.  What it accepts is a sign and a literal with the
mark of its base, up to a character that is not above the space; what `xprintf`
writes in that form it reads back.
-/

namespace KyogenRV.Xprintf

/-! ## `xatoi` -/

/-- `c = *(++(*str))` -/
def advance : List Byte → Option (Byte × List Byte)
  | _ :: c :: str => some (c, c :: str)
  | _ => none

/-- The digit `c` stands for, if it is one in radix `r`. -/
def digit (r c : Byte) : Option Byte :=
  let c := if chr 'a' ≤ c then c - 0x20 else c
  let c := c - chr '0'
  if 17 ≤ c then
    let c := c - 7
    if c ≤ 9 then none else if r ≤ c then none else some c
  else if r ≤ c then none
  else some c

/-- `while (c > ' ') { .. }`: the value, unless a character is no digit, and the
pointer. -/
def readDigits (r : Byte) (val : BitVec 32) :
    List Byte → Option (Option (BitVec 32) × List Byte)
  | [] => none
  | c :: str =>
      if chr ' ' < c then
        match digit r c with
        | none => some (none, c :: str)
        | some d => readDigits r (val * r.setWidth 32 + d.setWidth 32) str
      else some (some val, c :: str)

/-- The value is read, and the sign applied. -/
def readValue (s : Bool) (r : Byte) (str : List Byte) : Option (Bool × BitVec 32 × List Byte) :=
  (readDigits r 0 str).map fun (val, str) =>
    match val with
    | none => (false, 0, str)
    | some val => (true, if s then -val else val, str)

/-- Behind the sign, which is negative if `s`. -/
def readNumber (s : Bool) (c : Byte) (str : List Byte) : Option (Bool × BitVec 32 × List Byte) :=
  if c = chr '0' then do
    let (c, str) ← advance str
    if c = chr 'x' then (advance str).bind fun (_, str) => readValue s 16 str
    else if c = chr 'b' then (advance str).bind fun (_, str) => readValue s 2 str
    else if c ≤ chr ' ' then some (true, 0, str)
    else if isDigit c then readValue s 8 str
    else some (false, 0, str)
  else if isDigit c then readValue s 10 str
  else some (false, 0, str)

/-- What is returned, `*res` and `*str`. -/
def xatoi (str : List Byte) : Option (Bool × BitVec 32 × List Byte) :=
  match str with
  | [] => none
  | c :: str =>
      if c = chr ' ' then xatoi str
      else if c = chr '-' then (advance (c :: str)).bind fun (c, str) => readNumber true c str
      else readNumber false c (c :: str)

/-! ## Literals -/

/-- The digit that a character stands for, 16 for those that stand for none.
The six characters behind `9` are taken for digits as well. -/
def charValue (c : Byte) : ℕ :=
  if chr '0' ≤ c ∧ c ≤ chr '?' then (c - chr '0').toNat
  else if chr 'A' ≤ c ∧ c ≤ chr 'F' then (c - chr 'A').toNat + 10
  else if chr 'a' ≤ c ∧ c ≤ chr 'f' then (c - chr 'a').toNat + 10
  else 16

/-- The number that the characters spell, highest first. -/
def charsValue (r : ℕ) (chars : List Byte) : ℕ := Nat.ofDigits r (chars.map charValue).reverse

inductive Base
  | decimal
  | octal
  | hexadecimal
  | binary
  deriving DecidableEq

namespace Base

def radix : Base → ℕ
  | decimal => 10
  | octal => 8
  | hexadecimal => 16
  | binary => 2

/-- What a literal of the base starts with. -/
def mark : Base → List Byte
  | decimal => []
  | octal => [chr '0']
  | hexadecimal => [chr '0', chr 'x']
  | binary => [chr '0', chr 'b']

end Base

/-- A literal: digits behind the mark of the base.  Only a decimal one needs a
digit, and then not `0` as the first one. -/
structure Literal where
  base : Base
  chars : List Byte
  digits : ∀ c ∈ chars, charValue c < base.radix
  decimal : base = .decimal → first chars ≠ 0 ∧ first chars ≠ chr '0'

namespace Literal

def text (literal : Literal) : List Byte := literal.base.mark ++ literal.chars

def value (literal : Literal) : ℕ := charsValue literal.base.radix literal.chars

end Literal

/-- The text of a literal with its sign, behind spaces. -/
def signedText (spaces : ℕ) (s : Bool) (literal : Literal) : List Byte :=
  List.replicate spaces (chr ' ') ++ ((if s then [chr '-'] else []) ++ literal.text)

def signedValue (s : Bool) (literal : Literal) : BitVec 32 :=
  if s then -BitVec.ofNat 32 literal.value else BitVec.ofNat 32 literal.value

/-! ## Digits -/

section Digits

variable {base : Base} {c stop : Byte} {chars str rest more : List Byte} {v : BitVec 32}

theorem digit_eq (base : Base) (c : Byte) :
    digit (BitVec.ofNat 8 base.radix) c =
      if charValue c < base.radix then some (BitVec.ofNat 8 (charValue c)) else none := by
  revert c
  cases base <;> decide +kernel

/-- What stands for a digit is above the space. -/
theorem space_lt_of_digit (base : Base) (hc : charValue c < base.radix) : chr ' ' < c := by
  revert c
  cases base <;> decide +kernel

theorem isDigit_eq (c : Byte) : isDigit c = decide (charValue c < 10) := by
  revert c
  decide +kernel

theorem charsValue_cons (r : ℕ) (c : Byte) (chars : List Byte) :
    charsValue r (c :: chars) = charValue c * r ^ chars.length + charsValue r chars := by
  rw [charsValue, List.map_cons, List.reverse_cons, Nat.ofDigits_append, Nat.ofDigits_singleton,
    List.length_reverse, List.length_map, ← charsValue, Nat.add_comm, Nat.mul_comm]

/-- The value with one digit more. -/
theorem value_digit (base : Base) (val : ℕ) (hc : charValue c < base.radix) :
    BitVec.ofNat 32 val * (BitVec.ofNat 8 base.radix).setWidth 32 +
        (BitVec.ofNat 8 (charValue c)).setWidth 32 =
      BitVec.ofNat 32 (val * base.radix + charValue c) := by
  have hradix : base.radix ≤ 16 := by cases base <;> decide
  rw [BitVec.setWidth_ofNat_of_le_of_lt (by decide) (by omega),
    BitVec.setWidth_ofNat_of_le_of_lt (by decide) (by omega), BitVec.ofNat_add, BitVec.ofNat_mul]

theorem readDigits_digit (val : ℕ) (hc : charValue c < base.radix) :
    readDigits (BitVec.ofNat 8 base.radix) (BitVec.ofNat 32 val) (c :: str) =
      readDigits (BitVec.ofNat 8 base.radix)
        (BitVec.ofNat 32 (val * base.radix + charValue c)) str := by
  rw [readDigits, if_pos (space_lt_of_digit base hc), digit_eq, if_pos hc]
  simp only [value_digit base val hc]

/-- Digits up to a character that is not above the space are read. -/
theorem readDigits_append (val : ℕ) (hchars : ∀ c ∈ chars, charValue c < base.radix)
    (hstop : stop ≤ chr ' ') :
    readDigits (BitVec.ofNat 8 base.radix) (BitVec.ofNat 32 val) (chars ++ stop :: more) =
      some (some (BitVec.ofNat 32 (val * base.radix ^ chars.length +
        charsValue base.radix chars)), stop :: more) := by
  induction chars generalizing val with
  | nil =>
      have hvalue : charsValue base.radix [] = 0 := rfl
      rw [List.nil_append, readDigits, if_neg (BitVec.not_lt.mpr hstop), hvalue, List.length_nil,
        pow_zero, Nat.mul_one, Nat.add_zero]
  | cons c chars ih =>
      obtain ⟨hc, hchars⟩ := List.forall_mem_cons.mp hchars
      rw [List.cons_append, readDigits_digit val hc, ih _ hchars, charsValue_cons, List.length_cons,
        pow_succ]
      congr 4
      ring

/-- And nothing else is. -/
theorem readDigits_eq_some (val : ℕ)
    (h : readDigits (BitVec.ofNat 8 base.radix) (BitVec.ofNat 32 val) str = some (some v, rest)) :
    ∃ chars stop more, str = chars ++ stop :: more ∧ rest = stop :: more ∧ stop ≤ chr ' ' ∧
      ∀ c ∈ chars, charValue c < base.radix := by
  induction str generalizing val with
  | nil => simp [readDigits] at h
  | cons c str ih =>
      by_cases hspace : chr ' ' < c
      · by_cases hc : charValue c < base.radix
        · rw [readDigits_digit val hc] at h
          obtain ⟨chars, stop, more, hstr, hrest, hstop, hchars⟩ := ih _ h
          exact ⟨c :: chars, stop, more, by rw [hstr]; rfl, hrest, hstop,
            List.forall_mem_cons.mpr ⟨hc, hchars⟩⟩
        · rw [readDigits, if_pos hspace, digit_eq, if_neg hc] at h
          simp at h
      · rw [readDigits, if_neg hspace] at h
        obtain ⟨-, rfl⟩ := Prod.mk.inj (Option.some.inj h)
        exact ⟨[], c, str, rfl, rfl, BitVec.not_lt.mp hspace, by simp⟩

theorem readValue_append (more : List Byte) (s : Bool)
    (hchars : ∀ c ∈ chars, charValue c < base.radix) (hstop : stop ≤ chr ' ') :
    readValue s (BitVec.ofNat 8 base.radix) (chars ++ stop :: more) =
      some (true, if s then -BitVec.ofNat 32 (charsValue base.radix chars)
        else BitVec.ofNat 32 (charsValue base.radix chars), stop :: more) := by
  have hzero : (0 : BitVec 32) = BitVec.ofNat 32 0 := rfl
  rw [readValue, hzero, readDigits_append 0 hchars hstop, Nat.zero_mul, Nat.zero_add]
  rfl

theorem readValue_eq_some (base : Base) {s : Bool}
    (h : readValue s (BitVec.ofNat 8 base.radix) str = some (true, v, rest)) :
    ∃ chars stop more, str = chars ++ stop :: more ∧ rest = stop :: more ∧ stop ≤ chr ' ' ∧
      ∀ c ∈ chars, charValue c < base.radix := by
  obtain ⟨⟨val, str'⟩, hread, h⟩ := Option.map_eq_some_iff.mp h
  cases val with
  | none => simp at h
  | some val =>
      obtain ⟨-, h⟩ := Prod.mk.inj h
      obtain ⟨-, rfl⟩ := Prod.mk.inj h
      exact readDigits_eq_some 0 hread

end Digits

/-! ## Literals -/

section Literals

variable {c stop : Byte} {str rest more : List Byte} {v : BitVec 32} {s : Bool}

theorem advance_cons (htext : str ≠ []) : advance (c :: str) = some (first str, str) := by
  obtain ⟨c', str, rfl⟩ := List.exists_cons_of_ne_nil htext
  rfl

theorem isDigit_of_octal {c : Byte} (hc : charValue c < 8) : isDigit c = true := by
  rw [isDigit_eq]
  exact decide_eq_true (hc.trans (by decide))

/-- A digit is neither mark. -/
theorem digit_ne_mark {c : Byte} (hc : isDigit c = true) : c ≠ chr 'x' ∧ c ≠ chr 'b' := by
  revert c
  decide +kernel

theorem stop_ne_mark {c : Byte} (hc : c ≤ chr ' ') : c ≠ chr 'x' ∧ c ≠ chr 'b' := by
  revert c
  decide +kernel

/-- A literal is read up to a character that is not above the space. -/
theorem readNumber_literal (s : Bool) (literal : Literal) (more : List Byte)
    (hstop : stop ≤ chr ' ') :
    readNumber s (first (literal.text ++ stop :: more)) (literal.text ++ stop :: more) =
      some (true, signedValue s literal, stop :: more) := by
  obtain ⟨base, chars, hdigits, hdecimal⟩ := literal
  have hvalue := readValue_append more s hdigits hstop
  have hrest : chars ++ stop :: more ≠ [] := by simp
  cases base with
  | decimal =>
      obtain ⟨hempty, hzero⟩ := hdecimal rfl
      cases chars with
      | nil => exact absurd rfl hempty
      | cons c chars =>
          have hc : isDigit c = true := by
            rw [isDigit_eq]
            exact decide_eq_true (hdigits c (by simp))
          have hzero : c ≠ chr '0' := hzero
          rw [Literal.text, Base.mark, List.nil_append, List.cons_append, first_cons, readNumber,
            if_neg hzero, if_pos hc]
          exact hvalue
  | octal =>
      rw [Literal.text, Base.mark, List.singleton_append, List.cons_append, first_cons, readNumber,
        if_pos rfl, advance_cons hrest]
      simp only [Option.bind_eq_bind, Option.bind_some]
      cases chars with
      | nil =>
          have hzero : charsValue 8 [] = 0 := rfl
          simp only [List.nil_append, first_cons, stop_ne_mark hstop, hstop, if_true, if_false,
            signedValue, Literal.value, Base.radix, hzero]
          cases s <;> rfl
      | cons c chars =>
          have hoctal := isDigit_of_octal (hdigits c (by simp))
          obtain ⟨hx, hb⟩ := digit_ne_mark hoctal
          have hspace : ¬c ≤ chr ' ' :=
            BitVec.not_le.mpr (space_lt_of_digit .octal (hdigits c (by simp)))
          simp only [List.cons_append, first_cons, hx, hb, hspace, hoctal, if_true, if_false]
          exact hvalue
  | hexadecimal =>
      simp only [Literal.text, Base.mark, List.cons_append, List.nil_append, first_cons,
        readNumber, if_true, advance_cons (List.cons_ne_nil _ _), advance_cons hrest,
        Option.bind_eq_bind, Option.bind_some]
      exact hvalue
  | binary =>
      have hx : chr 'b' ≠ chr 'x' := by decide
      simp only [Literal.text, Base.mark, List.cons_append, List.nil_append, first_cons,
        readNumber, hx, if_true, if_false, advance_cons (List.cons_ne_nil _ _),
        advance_cons hrest, Option.bind_eq_bind, Option.bind_some]
      exact hvalue

theorem advance_eq_some {c₁ : Byte} {str₁ : List Byte} (h : advance (c :: str) = some (c₁, str₁)) :
    str₁ = str ∧ ∃ tail, str = c₁ :: tail := by
  cases str with
  | nil => simp [advance] at h
  | cons c₂ str =>
      obtain ⟨rfl, rfl⟩ := Prod.mk.inj (Option.some.inj h)
      exact ⟨rfl, str, rfl⟩

/-- Nothing else is accepted. -/
theorem readNumber_eq_some (h : readNumber s c (c :: str) = some (true, v, rest)) :
    ∃ (literal : Literal) (stop : Byte) (more : List Byte),
      c :: str = literal.text ++ stop :: more ∧ stop ≤ chr ' ' := by
  rw [readNumber] at h
  split_ifs at h with hzero hdigit
  · obtain ⟨⟨c₁, str₁⟩, hadvance, hread⟩ := Option.bind_eq_some_iff.mp h
    obtain ⟨rfl, tail, rfl⟩ := advance_eq_some hadvance
    clear h
    have hmarked (base : Base) (hbase : base ≠ .decimal) {str : List Byte}
        (h : readValue s (BitVec.ofNat 8 base.radix) str = some (true, v, rest)) :
        ∃ (literal : Literal) (stop : Byte) (more : List Byte),
          base.mark ++ str = literal.text ++ stop :: more ∧ stop ≤ chr ' ' := by
      obtain ⟨chars, stop, more, hstr, -, hstop, hchars⟩ := readValue_eq_some base h
      refine ⟨⟨base, chars, hchars, fun h => absurd h hbase⟩, stop, more, ?_, hstop⟩
      rw [hstr, Literal.text, List.append_assoc]
    rw [hzero]
    dsimp only at hread
    split_ifs at hread with hx hb hspace hoctal
    · obtain ⟨⟨c₂, str₂⟩, hadvance', hvalue⟩ := Option.bind_eq_some_iff.mp hread
      obtain ⟨rfl, -⟩ := advance_eq_some hadvance'
      rw [hx]
      exact hmarked .hexadecimal (by decide) hvalue
    · obtain ⟨⟨c₂, str₂⟩, hadvance', hvalue⟩ := Option.bind_eq_some_iff.mp hread
      obtain ⟨rfl, -⟩ := advance_eq_some hadvance'
      rw [hb]
      exact hmarked .binary (by decide) hvalue
    · exact ⟨⟨.octal, [], by simp, fun h => Base.noConfusion h⟩, c₁, tail, rfl, hspace⟩
    · exact hmarked .octal (by decide) hread
    · simp at hread
  · obtain ⟨chars, stop, more, hstr, -, hstop, hchars⟩ := readValue_eq_some .decimal h
    refine ⟨⟨.decimal, chars, hchars, fun _ => ?_⟩, stop, more, hstr, hstop⟩
    cases chars with
    | nil =>
        obtain ⟨rfl, -⟩ := List.cons.inj hstr
        have hspace := space_lt_of_digit .decimal
          (by rw [isDigit_eq] at hdigit; exact of_decide_eq_true hdigit)
        exact absurd hstop (BitVec.not_le.mpr hspace)
    | cons c' chars =>
        obtain ⟨rfl, -⟩ := List.cons.inj hstr
        refine ⟨?_, hzero⟩
        rintro (rfl : c = 0)
        exact absurd hdigit (by decide)
  · simp at h

/-- The first character of a literal is a digit. -/
theorem Literal.first_text (literal : Literal) (text : List Byte) :
    ∃ c str, literal.text ++ text = c :: str ∧ isDigit c = true := by
  obtain ⟨base, chars, hdigits, hdecimal⟩ := literal
  cases base with
  | decimal =>
      cases chars with
      | nil => exact absurd rfl (hdecimal rfl).1
      | cons c chars =>
          refine ⟨c, chars ++ text, rfl, ?_⟩
          rw [isDigit_eq]
          exact decide_eq_true (hdigits c (by simp))
  | octal => exact ⟨chr '0', chars ++ text, rfl, by decide⟩
  | hexadecimal => exact ⟨chr '0', chr 'x' :: (chars ++ text), rfl, by decide⟩
  | binary => exact ⟨chr '0', chr 'b' :: (chars ++ text), rfl, by decide⟩

theorem digit_ne_space {c : Byte} (hc : isDigit c = true) : c ≠ chr ' ' ∧ c ≠ chr '-' := by
  revert c
  decide +kernel

theorem xatoi_of_literal (spaces : ℕ) (s : Bool) (literal : Literal) (more : List Byte)
    (hstop : stop ≤ chr ' ') :
    xatoi (signedText spaces s literal ++ stop :: more) =
      some (true, signedValue s literal, stop :: more) := by
  induction spaces with
  | succ spaces ih =>
      rw [signedText, List.replicate_succ, List.cons_append, List.cons_append, xatoi, if_pos rfl,
        ← signedText]
      exact ih
  | zero =>
      have hnumber := readNumber_literal s literal more hstop
      obtain ⟨c, str, htext, hdigit⟩ := literal.first_text (stop :: more)
      obtain ⟨hspace, hminus⟩ := digit_ne_space hdigit
      rw [htext, first_cons] at hnumber
      cases s with
      | false =>
          rw [signedText, List.replicate_zero, List.nil_append, if_neg (by decide), List.nil_append,
            htext, xatoi, if_neg hspace, if_neg hminus]
          exact hnumber
      | true =>
          rw [signedText, List.replicate_zero, List.nil_append, if_pos rfl, List.singleton_append,
            List.cons_append, htext, xatoi, if_neg (by decide), if_pos rfl,
            advance_cons (List.cons_ne_nil _ _)]
          exact hnumber

theorem literal_of_xatoi (h : xatoi str = some (true, v, rest)) :
    ∃ (spaces : ℕ) (s : Bool) (literal : Literal) (stop : Byte) (more : List Byte),
      str = signedText spaces s literal ++ stop :: more ∧ stop ≤ chr ' ' := by
  induction str with
  | nil => simp [xatoi] at h
  | cons c str ih =>
      rw [xatoi] at h
      split_ifs at h with hspace hminus
      · obtain ⟨spaces, s, literal, stop, more, rfl, hstop⟩ := ih h
        refine ⟨spaces + 1, s, literal, stop, more, ?_, hstop⟩
        rw [hspace, signedText, signedText, List.replicate_succ]
        simp only [List.cons_append]
      · obtain ⟨⟨c₁, str₁⟩, hadvance, h⟩ := Option.bind_eq_some_iff.mp h
        obtain ⟨rfl, tail, rfl⟩ := advance_eq_some hadvance
        obtain ⟨literal, stop, more, htext, hstop⟩ := readNumber_eq_some h
        exact ⟨0, true, literal, stop, more, by rw [hminus, htext]; rfl, hstop⟩
      · obtain ⟨literal, stop, more, htext, hstop⟩ := readNumber_eq_some h
        exact ⟨0, false, literal, stop, more, htext, hstop⟩

/-- `xatoi` succeeds exactly on spaces, a sign and a literal up to a character
that is not above the space, where it stops with the value. -/
theorem xatoi_eq_true_iff :
    xatoi str = some (true, v, rest) ↔
      ∃ (spaces : ℕ) (s : Bool) (literal : Literal) (stop : Byte) (more : List Byte),
        str = signedText spaces s literal ++ stop :: more ∧ stop ≤ chr ' ' ∧
          rest = stop :: more ∧ v = signedValue s literal := by
  constructor
  · intro h
    obtain ⟨spaces, s, literal, stop, more, rfl, hstop⟩ := literal_of_xatoi h
    obtain ⟨hv, hrest⟩ := Prod.mk.inj (Prod.mk.inj (Option.some.inj
      (h.symm.trans (xatoi_of_literal spaces s literal more hstop)))).2
    exact ⟨spaces, s, literal, stop, more, rfl, hstop, hrest, hv⟩
  · rintro ⟨spaces, s, literal, stop, more, rfl, hstop, rfl, rfl⟩
    exact xatoi_of_literal spaces s literal more hstop

end Literals

/-! ## Numbers as literals -/

section Numbers

variable {base : Base} {lower : Bool} {n zeros : ℕ}

theorem charValue_digitText {d : ℕ} (hd : d < 16) : charValue (digitText lower d) = d := by
  cases lower <;> interval_cases d <;> decide

theorem two_le_radix (base : Base) : 2 ≤ base.radix := by cases base <;> decide

/-- The digits of a number of 32 bits, none of which is cut off. -/
def numberDigits (r n : ℕ) : List ℕ := if n = 0 then [0] else Nat.digits r n

theorem numberText_eq (base : Base) (lower : Bool) (hn : n < 2 ^ 32) :
    numberText lower base.radix n =
      ((numberDigits base.radix n).map (digitText lower)).reverse := by
  rw [numberText, ← numberDigits, List.take_of_length_le]
  rw [numberDigits]
  split_ifs
  · decide
  · exact (Nat.digits_length_le_iff (two_le_radix base) n).mpr
      (lt_of_lt_of_le hn (Nat.pow_le_pow_left (two_le_radix base) 32))

theorem numberDigits_lt {d : ℕ} (hd : d ∈ numberDigits base.radix n) :
    d < base.radix ∧ d < 16 := by
  have hradix : base.radix ≤ 16 := by cases base <;> decide
  have hlt : d < base.radix := by
    rw [numberDigits] at hd
    split_ifs at hd
    · obtain rfl := List.mem_singleton.mp hd
      exact lt_of_lt_of_le (by decide) (two_le_radix base)
    · exact Nat.digits_lt_base (two_le_radix base) hd
  exact ⟨hlt, hlt.trans_le hradix⟩

theorem charsValue_numberText (base : Base) (hn : n < 2 ^ 32) :
    charsValue base.radix (numberText lower base.radix n) = n := by
  have hdigits : (numberDigits base.radix n).map (charValue ∘ digitText lower) =
      numberDigits base.radix n :=
    List.map_congr_left (fun d hd => charValue_digitText (numberDigits_lt hd).2) |>.trans
      (List.map_id _)
  rw [charsValue, numberText_eq base lower hn, List.map_reverse, List.reverse_reverse,
    List.map_map, hdigits, numberDigits]
  split_ifs with hzero
  · rw [hzero]
    rfl
  · exact Nat.ofDigits_digits _ _

theorem digits_numberText (base : Base) (hn : n < 2 ^ 32) {c : Byte}
    (hc : c ∈ numberText lower base.radix n) : charValue c < base.radix := by
  rw [numberText_eq base lower hn, List.mem_reverse] at hc
  obtain ⟨d, hd, rfl⟩ := List.mem_map.mp hc
  obtain ⟨hlt, hsixteen⟩ := numberDigits_lt hd
  rwa [charValue_digitText hsixteen]

theorem charsValue_zeros (r : ℕ) (chars : List Byte) :
    charsValue r (List.replicate zeros (chr '0') ++ chars) = charsValue r chars := by
  have hzero : charValue (chr '0') = 0 := by decide
  induction zeros with
  | zero => rfl
  | succ zeros ih =>
      rw [List.replicate_succ, List.cons_append, charsValue_cons, hzero, Nat.zero_mul,
        Nat.zero_add, ih]

/-- A number behind the mark of its base and zeros. -/
theorem marked_literal (hbase : base ≠ .decimal) (hn : n < 2 ^ 32) (zeros : ℕ) (lower : Bool) :
    ∃ literal : Literal, literal.value = n ∧ literal.text =
      base.mark ++ (List.replicate zeros (chr '0') ++ numberText lower base.radix n) := by
  refine ⟨⟨base, List.replicate zeros (chr '0') ++ numberText lower base.radix n, ?_,
    fun h => absurd h hbase⟩, ?_, rfl⟩
  · intro c hc
    rcases List.mem_append.mp hc with hzero | hnumber
    · rw [List.eq_of_mem_replicate hzero]
      exact lt_of_lt_of_le (by decide) (two_le_radix base)
    · exact digits_numberText base hn hnumber
  · rw [Literal.value, charsValue_zeros, charsValue_numberText base hn]

/-- A decimal number, `0` being an octal one. -/
theorem decimal_literal (hn : n < 2 ^ 32) (lower : Bool) :
    ∃ literal : Literal, literal.value = n ∧ literal.text = numberText lower 10 n := by
  by_cases hzero : n = 0
  · subst hzero
    refine ⟨⟨.octal, [], by simp, fun h => Base.noConfusion h⟩, rfl, ?_⟩
    cases lower <;> decide
  · have hnumber := numberText_eq .decimal lower hn
    refine ⟨⟨.decimal, numberText lower 10 n,
      fun c hc => digits_numberText .decimal hn hc, fun _ => ?_⟩,
      charsValue_numberText .decimal hn, rfl⟩
    have hnil : Nat.digits 10 n ≠ [] := Nat.digits_ne_nil_iff_ne_zero.mpr hzero
    have hlast : (Nat.digits 10 n).getLast hnil < 10 :=
      Nat.digits_lt_base (by decide) (List.getLast_mem hnil)
    have hpos : (Nat.digits 10 n).getLast hnil ≠ 0 := Nat.getLast_digit_ne_zero 10 hzero
    have hfirst : first (numberText lower 10 n) =
        digitText lower ((Nat.digits 10 n).getLast hnil) := by
      change first (numberText lower Base.decimal.radix n) = _
      rw [hnumber, numberDigits, if_neg hzero]
      change first ((Nat.digits 10 n).map (digitText lower)).reverse = _
      rw [first, List.headD_eq_head?_getD, List.head?_reverse, List.getLast?_map,
        List.getLast?_eq_getLast_of_ne_nil hnil]
      rfl
    rw [hfirst]
    revert hlast hpos
    generalize (Nat.digits 10 n).getLast hnil = d
    intro hlast hpos
    cases lower <;> interval_cases d <;> first | exact absurd rfl hpos | decide

end Numbers

/-! ## The round trip -/

/-- A value of 32 bits that is written behind the mark of its base: signed
decimal, or with one of the unsigned types. -/
structure Field where
  type : Option Unsigned
  flag : Flag
  width : Width
  size : Size
  v : BitVec 32

namespace Field

variable (f : Field)

def base : Base :=
  match f.type with
  | none | some .u => .decimal
  | some .o => .octal
  | some .x | some .X => .hexadecimal
  | some .b => .binary

def parts : Parts := ⟨f.flag, f.width, .none, f.size⟩

def conversion : Conversion :=
  match f.type with
  | none => .signed f.v.toInt
  | some type => .unsigned type f.v.toNat

def format : List Byte :=
  f.base.mark ++ chr '%' :: (f.parts.format ++ [f.conversion.type, chr ' '])

def args : List Arg := f.parts.args ++ f.conversion.args f.size

def text : List Byte := f.base.mark ++ (f.conversion.text f.parts ++ [chr ' '])

/-- The conversion is one of 32 bits whose parts can be told apart; what fills
it up on the left is not taken for a mark, nor does it stand behind one. -/
structure Readable : Prop where
  size : f.size.bits = 32
  ends : f.parts.Ends f.conversion.type
  decimal : f.base = .decimal → f.flag = .zero → f.parts.left = true
  marked : f.base ≠ .decimal → f.flag ≠ .zero → f.parts.left = true ∨ f.width.value = 0

instance : Decidable f.Readable :=
  decidable_of_iff
    (f.size.bits = 32 ∧ f.parts.Ends f.conversion.type ∧
      (f.base = .decimal → f.flag = .zero → f.parts.left = true) ∧
      (f.base ≠ .decimal → f.flag ≠ .zero → f.parts.left = true ∨ f.width.value = 0))
    ⟨fun ⟨size, ends, decimal, marked⟩ => ⟨size, ends, decimal, marked⟩,
      fun h => ⟨h.size, h.ends, h.decimal, h.marked⟩⟩

end Field

/-- `n` calls of `xatoi` that all succeed. -/
def readAll : (n : ℕ) → List Byte → Option (List (BitVec 32))
  | 0, _ => some []
  | n + 1, str => do
      let (ok, v, str) ← xatoi str
      if ok then (readAll n str).map (v :: ·) else none

section Fields

variable {f : Field}

theorem Field.valid (hf : f.Readable) : f.conversion.Valid f.parts := by
  have hbits : f.parts.size.bits = 32 := hf.size
  obtain ⟨hlow, hhigh⟩ := toInt_range f.v
  rw [conversion]
  cases f.type with
  | none => 
      rw [Conversion.Valid, hbits]
      exact ⟨hlow, hhigh, by omega⟩
  | some type =>
      rw [Conversion.Valid, hbits]
      exact f.v.isLt

/-- The format of a field means its text. -/
theorem Field.means (hf : f.Readable) {fmt text : List Byte} {arp : List Arg}
    (hrest : Means fmt arp text) :
    Means (f.format ++ fmt) (f.args ++ arp) (f.text ++ text) := by
  have hspace : Means (chr ' ' :: fmt) arp (chr ' ' :: text) := .char _ (by decide) hrest
  have hdirective : Means (chr '%' :: (f.parts.format ++ [f.conversion.type, chr ' ']) ++ fmt)
      (f.args ++ arp) (f.conversion.text f.parts ++ [chr ' '] ++ text) := by
    have hmeans := Means.directive ⟨f.parts, f.conversion, hf.ends, Field.valid hf⟩ hspace
    simpa [Directive.format, Directive.args, Directive.text, Field.args, Field.parts] using hmeans
  rw [Field.format, Field.text, List.append_assoc, List.append_assoc]
  cases f.base with
  | decimal => exact hdirective
  | octal => exact .char _ (by decide) hdirective
  | hexadecimal => exact .char _ (by decide) (.char _ (by decide) hdirective)
  | binary => exact .char _ (by decide) (.char _ (by decide) hdirective)

/-- The value of a field as a sign and the digits of its base. -/
theorem Field.text_number (f : Field) :
    ∃ (s lower : Bool) (n : ℕ), n < 2 ^ 32 ∧ (f.base ≠ .decimal → s = false) ∧
      (if s then -BitVec.ofNat 32 n else BitVec.ofNat 32 n) = f.v ∧
      f.conversion.text f.parts =
        let number := (if s then [chr '-'] else []) ++ numberText lower f.base.radix n
        f.parts.fill number.length number := by
  rw [conversion, base]
  cases f.type with
  | none =>
      obtain ⟨hlow, hhigh⟩ := toInt_range f.v
      refine ⟨decide (f.v.toInt < 0), false, f.v.toInt.natAbs, by omega, fun h => absurd rfl h,
        ?_, ?_⟩
      · have hint : BitVec.ofInt 32 f.v.toInt = f.v := BitVec.ofInt_toInt
        split_ifs with hneg
        · rw [← BitVec.ofInt_natCast, ← BitVec.ofInt_neg,
            Int.ofNat_natAbs_of_nonpos (of_decide_eq_true hneg).le, neg_neg, hint]
        · have hnonneg : 0 ≤ f.v.toInt := not_lt.mp fun h => hneg (decide_eq_true h)
          rw [← BitVec.ofInt_natCast, Int.natAbs_of_nonneg hnonneg, hint]
      · simp only [Conversion.text, decide_eq_true_iff]
        rfl
  | some type =>
      refine ⟨false, type = .x, f.v.toNat, f.v.isLt, fun _ => rfl, ?_, ?_⟩
      · rw [if_neg (by decide), BitVec.ofNat_toNat, BitVec.setWidth_eq]
      · cases type <;> rfl

/-- The text of a field is a literal with its sign between spaces. -/
theorem Field.text_eq (hf : f.Readable) :
    ∃ (spaces : ℕ) (s : Bool) (literal : Literal) (more : ℕ),
      f.text = signedText spaces s literal ++ List.replicate (more + 1) (chr ' ') ∧
        signedValue s literal = f.v := by
  obtain ⟨s, lower, n, hn, hsign, hvalue, htext⟩ := f.text_number
  have hsigned {literal : Literal} (hliteral : literal.value = n) :
      signedValue s literal = f.v := by
    rw [signedValue, hliteral, hvalue]
  have hpad (hflag : f.flag ≠ .zero) : f.parts.flag.pad = chr ' ' := if_neg hflag
  simp only at htext
  rw [Field.text, htext, Parts.fill]
  generalize hfill : f.parts.width.value -
    ((if s then [chr '-'] else []) ++ numberText lower f.base.radix n).length = fill
  by_cases hbase : f.base = .decimal
  · obtain ⟨literal, hliteral, hnumber⟩ := decimal_literal hn lower
    rw [hbase, Base.mark, List.nil_append, Base.radix, ← hnumber]
    cases hleft : f.parts.left with
    | true =>
        refine ⟨0, s, literal, fill, ?_, hsigned hliteral⟩
        rw [if_pos rfl, signedText, List.replicate_zero, List.replicate_succ', List.nil_append,
          List.append_assoc]
    | false =>
        have hflag : f.flag ≠ .zero := fun h => Bool.false_ne_true (hleft.symm.trans
          (hf.decimal hbase h))
        refine ⟨fill, s, literal, 0, ?_, hsigned hliteral⟩
        rw [if_neg (by decide), hpad hflag, signedText]
        rfl
  · obtain rfl := hsign hbase
    cases hleft : f.parts.left with
    | true =>
        obtain ⟨literal, hliteral, hnumber⟩ := marked_literal hbase hn 0 lower
        refine ⟨0, false, literal, fill, ?_, hsigned hliteral⟩
        rw [if_pos rfl, signedText, hnumber, List.replicate_succ']
        simp only [List.replicate_zero, List.nil_append, List.append_assoc, Bool.false_eq_true,
          if_false]
    | false =>
        obtain ⟨literal, hliteral, hnumber⟩ := marked_literal hbase hn fill lower
        refine ⟨0, false, literal, 0, ?_, hsigned hliteral⟩
        have hzeros : List.replicate fill f.parts.flag.pad = List.replicate fill (chr '0') := by
          by_cases hflag : f.flag = .zero
          · have hzero : f.parts.flag.pad = chr '0' := if_pos hflag
            rw [hzero]
          · have hwidth : f.width.value = 0 :=
              (hf.marked hbase hflag).resolve_left (by rw [hleft]; decide)
            have hnone : fill = 0 := by
              rw [← hfill]
              change f.width.value - _ = 0
              rw [hwidth, Nat.zero_sub]
            rw [hnone]
            rfl
        rw [if_neg (by decide), signedText, hnumber, hzeros]
        simp only [List.replicate_zero, List.nil_append, List.append_assoc, Bool.false_eq_true,
          if_false]
        rfl

/-- No `\n` is among the characters of a field. -/
theorem Field.newline_notMem (hf : f.Readable) : chr '\n' ∉ f.text := by
  obtain ⟨spaces, s, literal, more, htext, -⟩ := Field.text_eq hf
  have hmark : chr '\n' ∉ literal.base.mark := by
    cases literal.base <;> decide
  have hchars : chr '\n' ∉ literal.chars := by
    intro h
    have hlt := literal.digits _ h
    revert hlt
    cases literal.base <;> decide
  have hspace (k : ℕ) : chr '\n' ∉ List.replicate k (chr ' ') :=
    fun h => absurd (List.eq_of_mem_replicate h) (by decide)
  have hsign : chr '\n' ∉ if s then [chr '-'] else [] := by
    cases s <;> decide
  rw [htext, signedText, Literal.text]
  simp only [List.mem_append, hmark, hchars, hspace, hsign, or_self, not_false_eq_true]

theorem readAll_fields (fields : List Field) (hfields : ∀ f ∈ fields, f.Readable) (spaces : ℕ) :
    readAll fields.length
        (List.replicate spaces (chr ' ') ++ (fields.flatMap Field.text ++ [0])) =
      some (fields.map Field.v) := by
  induction fields generalizing spaces with
  | nil => rfl
  | cons f fields ih =>
      obtain ⟨hf, hfields⟩ := List.forall_mem_cons.mp hfields
      obtain ⟨own, s, literal, more, htext, hvalue⟩ := Field.text_eq hf
      have hread := xatoi_of_literal (spaces + own) s literal
        (List.replicate more (chr ' ') ++ (fields.flatMap Field.text ++ [0]))
        (BitVec.le_refl (chr ' '))
      have hrest := ih hfields (more + 1)
      rw [List.replicate_succ, List.cons_append] at hrest
      have hstr : List.replicate spaces (chr ' ') ++ ((f :: fields).flatMap Field.text ++ [0]) =
          signedText (spaces + own) s literal ++ chr ' ' ::
            (List.replicate more (chr ' ') ++ (fields.flatMap Field.text ++ [0])) := by
        rw [List.flatMap_cons, htext, signedText, signedText, List.replicate_succ,
          List.replicate_add]
        simp only [List.append_assoc, List.cons_append]
      rw [List.length_cons, readAll, hstr, hread]
      simp only [Option.bind_eq_bind, Option.bind_some, if_true, hrest, hvalue]
      rfl

/-- What `xfprintf` writes of 32-bit values, each behind the mark of its base
and with a space behind it, `xatoi` reads back. -/
theorem xatoi_xfprintf (fields : List Field) (hfields : ∀ f ∈ fields, f.Readable)
    (s : Output (List Byte)) :
    ∃ text, xfprintf record (fields.flatMap Field.format ++ [0]) (fields.flatMap Field.args) s =
        some { s with device := s.device ++ text } ∧
      readAll fields.length (text ++ [0]) = some (fields.map Field.v) := by
  have hmeans (fields : List Field) (hfields : ∀ f ∈ fields, f.Readable) :
      Means (fields.flatMap Field.format ++ [0]) (fields.flatMap Field.args)
        (fields.flatMap Field.text) := by
    induction fields with
    | nil => exact .ends [] []
    | cons f fields ih =>
        obtain ⟨hf, hfields⟩ := List.forall_mem_cons.mp hfields
        simp only [List.flatMap_cons, List.append_assoc]
        exact Field.means hf (ih hfields)
  have hnewline : (fields.flatMap Field.text).flatMap crlf = fields.flatMap Field.text := by
    have hchar : ∀ c ∈ fields.flatMap Field.text, crlf c = [c] := by
      intro c hc
      obtain ⟨f, hf, hmem⟩ := List.mem_flatMap.mp hc
      refine if_neg fun h => Field.newline_notMem (hfields f hf) ?_
      rwa [← h]
    rw [List.flatMap_congr hchar, List.flatMap_singleton']
  refine ⟨fields.flatMap Field.text, ?_, readAll_fields fields hfields 0⟩
  rw [xfprintf, xvfprintf_of_means (hmeans fields hfields), put_record, hnewline]

/-- `%6ld 0x%08lx 0b%-*lb 0%o %u `. -/
theorem xatoi_xfprintf_mixed :
    let fields : List Field :=
      [⟨none, .none, .literal [6], .long, -5⟩, ⟨some .x, .zero, .literal [8], .long, 0x12ab⟩,
        ⟨some .b, .left, .star 9, .long, 5⟩, ⟨some .o, .none, .literal [], .int, 0⟩,
        ⟨some .u, .none, .literal [], .int, 0xffffffff⟩]
    ∃ text, xfprintf record (fields.flatMap Field.format ++ [0]) (fields.flatMap Field.args)
        ⟨[], fun _ => 0, none⟩ = some ⟨text, fun _ => 0, none⟩ ∧
      readAll 5 (text ++ [0]) = some [-5, 0x12ab, 5, 0, 0xffffffff] :=
  xatoi_xfprintf _ (by decide) _

end Fields

end KyogenRV.Xprintf
