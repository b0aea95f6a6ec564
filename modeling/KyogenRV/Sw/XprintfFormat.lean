import KyogenRV.Sw.Xprintf
import Mathlib.Data.Nat.Digits.Lemmas

/-!
# Formats

What a format means, written down without the loops of `xvfprintf`.  A format
is made of characters and directives, a directive being a flag, a width, a
precision, a size and a conversion with its argument.  A directive carries that
its parts can be told apart and that nothing it computes overflows.
`xvfprintf` does on every format and every list of arguments what is written
down here, and is undefined exactly where nothing is.
-/

namespace KyogenRV.Xprintf

/-- The first of the characters. -/
def first (text : List Byte) : Byte := text.headD 0

def decimal (d : Fin 10) : Byte := chr '0' + BitVec.ofNat 8 d

/-- The number that decimal digits spell, highest first. -/
def decimalValue (ds : List (Fin 10)) : ℕ := Nat.ofDigits 10 (ds.map Fin.val).reverse

/-! ## The parts of a directive -/

inductive Flag
  | none
  | zero
  | left
  deriving DecidableEq

namespace Flag

def format : Flag → List Byte
  | none => []
  | zero => [chr '0']
  | left => [chr '-']

def pad (flag : Flag) : Byte := if flag = zero then chr '0' else chr ' '

/-- `c` is not taken for the flag. -/
def Ends (flag : Flag) (c : Byte) : Prop := flag = none → c ≠ chr '0' ∧ c ≠ chr '-'

instance (flag : Flag) (c : Byte) : Decidable (flag.Ends c) :=
  inferInstanceAs (Decidable (flag = none → c ≠ chr '0' ∧ c ≠ chr '-'))

end Flag

/-- A width without digits is none. -/
inductive Width
  | literal (ds : List (Fin 10))
  | star (n : BitVec 32)
  deriving DecidableEq

namespace Width

def format : Width → List Byte
  | literal ds => ds.map decimal
  | star _ => [chr '*']

def args : Width → List Arg
  | literal _ => []
  | star n => [.int n]

def value : Width → ℕ
  | literal ds => decimalValue ds % 2 ^ 32
  | star n => n.toInt.natAbs

/-- A negative width is left justified. -/
def left : Width → Bool
  | literal _ => false
  | star n => n.toInt < 0

def Ends (c : Byte) : Width → Prop
  | literal ds => isDigit c = false ∧ (ds = [] → c ≠ chr '*')
  | star _ => True

def Valid : Width → Prop
  | literal _ => True
  | star n => n ≠ BitVec.intMin 32

instance (c : Byte) : (width : Width) → Decidable (width.Ends c)
  | literal ds => inferInstanceAs (Decidable (isDigit c = false ∧ (ds = [] → c ≠ chr '*')))
  | star _ => inferInstanceAs (Decidable True)

instance : (width : Width) → Decidable width.Valid
  | literal _ => inferInstanceAs (Decidable True)
  | star n => inferInstanceAs (Decidable (n ≠ BitVec.intMin 32))

end Width

inductive Precision
  | none
  | literal (ds : List (Fin 10))
  | star (n : BitVec 32)
  deriving DecidableEq

namespace Precision

def format : Precision → List Byte
  | none => []
  | literal ds => chr '.' :: ds.map decimal
  | star _ => [chr '.', chr '*']

def args : Precision → List Arg
  | none => []
  | literal _ => []
  | star n => [.int n]

def value : Precision → ℤ
  | none => -1
  | literal ds => decimalValue ds
  | star n => n.toInt

def Ends (c : Byte) : Precision → Prop
  | none => c ≠ chr '.'
  | literal ds => isDigit c = false ∧ (ds = [] → c ≠ chr '*')
  | star _ => True

/-- The last digit is added as a character. -/
def Valid : Precision → Prop
  | none => True
  | literal ds => decimalValue ds + 48 < 2 ^ 31
  | star _ => True

instance (c : Byte) : (precision : Precision) → Decidable (precision.Ends c)
  | none => inferInstanceAs (Decidable (c ≠ chr '.'))
  | literal ds => inferInstanceAs (Decidable (isDigit c = false ∧ (ds = [] → c ≠ chr '*')))
  | star _ => inferInstanceAs (Decidable True)

instance : (precision : Precision) → Decidable precision.Valid
  | none => inferInstanceAs (Decidable True)
  | literal ds => inferInstanceAs (Decidable (decimalValue ds + 48 < 2 ^ 31))
  | star _ => inferInstanceAs (Decidable True)

end Precision

namespace Size

def format : Size → List Byte
  | int => []
  | long => [chr 'l']
  | longLong => [chr 'l', chr 'l']

def Ends (size : Size) (c : Byte) : Prop := size ≠ longLong → c ≠ chr 'l'

instance (size : Size) (c : Byte) : Decidable (size.Ends c) :=
  inferInstanceAs (Decidable (size ≠ longLong → c ≠ chr 'l'))

def arg (v : ℤ) : Size → Arg
  | int => .int (BitVec.ofInt 32 v)
  | long => .long (BitVec.ofInt 32 v)
  | longLong => .longLong (BitVec.ofInt 64 v)

end Size

/-- The types of unsigned numbers. -/
inductive Unsigned
  | b
  | o
  | u
  | x
  | X
  deriving DecidableEq

namespace Unsigned

def type : Unsigned → Byte
  | b => chr 'b'
  | o => chr 'o'
  | u => chr 'u'
  | x => chr 'x'
  | X => chr 'X'

def base : Unsigned → ℕ
  | b => 2
  | o => 8
  | u => 10
  | x => 16
  | X => 16

end Unsigned

/-- What stands between `%` and the type. -/
structure Parts where
  flag : Flag
  width : Width
  precision : Precision
  size : Size

namespace Parts

variable (parts : Parts)

def format : List Byte :=
  parts.flag.format ++ (parts.width.format ++ (parts.precision.format ++ parts.size.format))

def args : List Arg := parts.width.args ++ parts.precision.args

def left : Bool := parts.flag = .left || parts.width.left

/-- With `c` behind them the parts are read as they are, without an overflow. -/
structure Ends (c : Byte) : Prop where
  flag : parts.flag.Ends
    (first (parts.width.format ++ (parts.precision.format ++ (parts.size.format ++ [c]))))
  width : parts.width.Ends (first (parts.precision.format ++ (parts.size.format ++ [c])))
  precision : parts.precision.Ends (first (parts.size.format ++ [c]))
  size : parts.size.Ends c
  widthValid : parts.width.Valid
  precisionValid : parts.precision.Valid

instance (c : Byte) : Decidable (parts.Ends c) :=
  decidable_of_iff
    (parts.flag.Ends
        (first (parts.width.format ++ (parts.precision.format ++ (parts.size.format ++ [c])))) ∧
      parts.width.Ends (first (parts.precision.format ++ (parts.size.format ++ [c]))) ∧
      parts.precision.Ends (first (parts.size.format ++ [c])) ∧ parts.size.Ends c ∧
      parts.width.Valid ∧ parts.precision.Valid)
    ⟨fun ⟨flag, width, precision, size, widthValid, precisionValid⟩ =>
        ⟨flag, width, precision, size, widthValid, precisionValid⟩,
      fun h => ⟨h.flag, h.width, h.precision, h.size, h.widthValid, h.precisionValid⟩⟩

/-- Filled up to the width, which is compared with `length`. -/
def fill (length : ℕ) (chars : List Byte) : List Byte :=
  if parts.left then chars ++ List.replicate (parts.width.value - length) (chr ' ')
  else List.replicate (parts.width.value - length) parts.flag.pad ++ chars

end Parts

/-- A conversion with its argument. -/
inductive Conversion
  | signed (v : ℤ)
  | unsigned (type : Unsigned) (n : ℕ)
  | char (v : BitVec 32)
  /-- The string `p`, and what follows its 0. -/
  | string (p more : List Byte)
  /-- Any other character stands for itself. -/
  | other (c : Byte)

/-- The digit `d` as it is written, above 9 as a letter. -/
def digitText (lower : Bool) (d : ℕ) : Byte :=
  if d < 10 then BitVec.ofNat 8 (d + 48)
  else BitVec.ofNat 8 (d - 10 + if lower then 97 else 65)

/-- The digits of `n`, highest first; of more than 32 only the lowest. -/
def numberText (lower : Bool) (base n : ℕ) : List Byte :=
  (((if n = 0 then [0] else Nat.digits base n).take szbOutput).map (digitText lower)).reverse

namespace Conversion

def type : Conversion → Byte
  | signed _ => chr 'd'
  | unsigned type _ => type.type
  | char _ => chr 'c'
  | string _ _ => chr 's'
  | other c => c

def args (size : Size) : Conversion → List Arg
  | signed v => [size.arg v]
  | unsigned _ n => [size.arg n]
  | char v => [.int v]
  | string p more => [.str (p ++ 0 :: more)]
  | other _ => []

/-- The argument is in the range of its type, and can be negated; a string has
no 0, and is not so long that `prec` runs out; another type is not one of
those. -/
def Valid (parts : Parts) : Conversion → Prop
  | signed v =>
      -2 ^ (parts.size.bits - 1) ≤ v ∧ v < 2 ^ (parts.size.bits - 1) ∧ v ≠ -2 ^ 63
  | unsigned _ n => n < 2 ^ parts.size.bits
  | char _ => True
  | string p _ =>
      0 ∉ p ∧ (parts.precision.value < 0 → p.length ≤ parts.precision.value + 2 ^ 31)
  | other c => c ≠ 0 ∧ radix c = none ∧ c ≠ chr 'c' ∧ c ≠ chr 's'

/-- The sign of a number counts as one of its digits, and a string is filled up
by its length before it is cut. -/
def text (parts : Parts) : Conversion → List Byte
  | signed v =>
      let number := (if v < 0 then [chr '-'] else []) ++ numberText false 10 v.natAbs
      parts.fill number.length number
  | unsigned type n =>
      let number := numberText (type = .x) type.base n
      parts.fill number.length number
  | char v => [v.setWidth 8]
  | string p _ =>
      parts.fill p.length
        (if parts.precision.value < 0 then p else p.take parts.precision.value.toNat)
  | other c => [c]

end Conversion

/-! ## Formats and what they mean -/

structure Directive where
  parts : Parts
  conversion : Conversion
  ends : parts.Ends conversion.type
  valid : conversion.Valid parts

namespace Directive

variable (d : Directive)

def format : List Byte := chr '%' :: (d.parts.format ++ [d.conversion.type])

def args : List Arg := d.parts.args ++ d.conversion.args d.parts.size

def text : List Byte := d.conversion.text d.parts

end Directive

/-- The format means the text with these arguments.  What follows the 0 and
the arguments that are not used can be anything. -/
inductive Means : List Byte → List Arg → List Byte → Prop
  | ends (fmt : List Byte) (arp : List Arg) : Means (0 :: fmt) arp []
  /-- The format ends before the type of a directive. -/
  | unfinished (parts : Parts) (h : parts.Ends 0) (fmt : List Byte) (arp : List Arg) :
      Means (chr '%' :: (parts.format ++ 0 :: fmt)) (parts.args ++ arp) []
  | char (c : Byte) (h : c ≠ 0 ∧ c ≠ chr '%') {fmt : List Byte} {arp : List Arg}
      {text : List Byte} (rest : Means fmt arp text) : Means (c :: fmt) arp (c :: text)
  | directive (d : Directive) {fmt : List Byte} {arp : List Arg} {text : List Byte}
      (rest : Means fmt arp text) : Means (d.format ++ fmt) (d.args ++ arp) (d.text ++ text)

/-! ## Reading the parts -/

/-- At the first of the characters. -/
def Cursor.ofText (text : List Byte) (arp : List Arg) : Cursor := ⟨first text, text.tail, arp⟩

section Parts

variable {c : Byte} {text : List Byte} {arp : List Arg}

@[simp]
theorem first_cons : first (c :: text) = c := rfl

@[simp]
theorem Cursor.ofText_c : (Cursor.ofText text arp).c = first text := rfl

@[simp]
theorem Cursor.next_ofText (htext : text ≠ []) :
    (Cursor.ofText (c :: text) arp).next = some (Cursor.ofText text arp) := by
  obtain ⟨c', text, rfl⟩ := List.exists_cons_of_ne_nil htext
  rfl

@[simp]
theorem Cursor.vaInt_ofText (n : BitVec 32) :
    (Cursor.ofText text (.int n :: arp)).vaInt = some (n, Cursor.ofText text arp) := rfl

theorem isDigit_decimal (d : Fin 10) : isDigit (decimal d) = true := by
  revert d
  decide

theorem digitValue_decimal (d : Fin 10) : digitValue (decimal d) = d := by
  revert d
  decide

theorem toNat_decimal (d : Fin 10) : (decimal d).toNat = d + 48 := by
  revert d
  decide

/-- A digit is neither `*` nor `.`. -/
theorem decimal_ne (d : Fin 10) : decimal d ≠ chr '*' ∧ decimal d ≠ chr '.' := by
  revert d
  decide

theorem Cursor.flags_ofText (flag : Flag) (htext : text ≠ []) (hends : flag.Ends (first text)) :
    (Cursor.ofText (flag.format ++ text) arp).flags =
      some ((flag.pad, decide (flag = .left)), Cursor.ofText text arp) := by
  cases flag with
  | none =>
      obtain ⟨hzero, hleft⟩ := hends rfl
      rw [Flag.format, List.nil_append, flags, ofText_c, if_neg hzero, if_neg hleft]
      rfl
  | zero =>
      rw [Flag.format, List.singleton_append, flags, ofText_c, first_cons, if_pos rfl,
        next_ofText htext]
      rfl
  | left =>
      rw [Flag.format, List.singleton_append, flags, ofText_c, first_cons, if_neg (by decide),
        if_pos rfl, next_ofText htext]
      rfl

/-- A loop over digits stops behind the last of them. -/
theorem Cursor.number_ofText {α : Type} (digit : α → Byte → Option α) (value : α)
    (ds : List (Fin 10)) (htext : text ≠ []) (hdigit : isDigit (first text) = false) :
    (Cursor.ofText (ds.map decimal ++ text) arp).number digit value =
      (ds.foldlM (fun value d => digit value (decimal d)) value).map
        fun value => (value, Cursor.ofText text arp) := by
  induction ds generalizing value with
  | nil =>
      obtain ⟨c, text, rfl⟩ := List.exists_cons_of_ne_nil htext
      change isDigit c = false at hdigit
      cases text <;> simp [number, digits, hdigit, ofText]
  | cons d ds ih =>
      obtain ⟨c, rest, hrest⟩ : ∃ c rest, ds.map decimal ++ text = c :: rest :=
        List.exists_cons_of_ne_nil (by simp [htext])
      rw [List.map_cons, List.cons_append, hrest, List.foldlM_cons]
      simp only [hrest, number, ofText, first_cons, List.tail_cons, digits, isDigit_decimal,
        if_true] at ih ⊢
      cases digit value (decimal d) with
      | none => rfl
      | some value => exact ih value

theorem decimalValue_concat (ds : List (Fin 10)) (d : Fin 10) :
    decimalValue (ds ++ [d]) = decimalValue ds * 10 + d := by
  rw [decimalValue, List.map_append, List.reverse_append, List.map_singleton,
    List.reverse_singleton, List.singleton_append, Nat.ofDigits_cons, ← decimalValue,
    Nat.add_comm, Nat.mul_comm]

theorem foldlM_concat {α β : Type} {f : α → β → Option α} {l : List β} {x : β} {a a' a'' : α}
    (hl : l.foldlM f a = some a') (hx : f a' x = some a'') :
    (l ++ [x]).foldlM f a = some a'' := by
  simp [List.foldlM_append, hl, hx]

theorem foldlM_widthDigit (ds : List (Fin 10)) :
    ds.foldlM (fun w d => widthDigit w (decimal d)) 0 = some (decimalValue ds % 2 ^ 32) := by
  induction ds using List.reverseRecOn with
  | nil => rfl
  | append_singleton ds d ih =>
      apply foldlM_concat ih
      rw [widthDigit, digitValue_decimal, decimalValue_concat]
      refine congrArg some ?_
      omega

theorem foldlM_precDigit (ds : List (Fin 10)) (hvalid : decimalValue ds + 48 < 2 ^ 31) :
    ds.foldlM (fun prec d => precDigit prec (decimal d)) 0 = some (decimalValue ds : ℤ) := by
  induction ds using List.reverseRecOn with
  | nil => rfl
  | append_singleton ds d ih =>
      rw [decimalValue_concat] at hvalid ⊢
      apply foldlM_concat (ih (by omega))
      rw [precDigit, toNat_decimal, digitValue_decimal, if_pos (by omega)]
      push_cast
      rfl

theorem Width.first_format {ds : List (Fin 10)} (hends : (Width.literal ds).Ends (first text)) :
    first (ds.map decimal ++ text) ≠ chr '*' := by
  cases ds with
  | nil => exact hends.2 rfl
  | cons d ds => exact (decimal_ne d).1

theorem Cursor.minimumWidth_ofText (width : Width) (left : Bool) (htext : text ≠ [])
    (hends : width.Ends (first text)) (hvalid : width.Valid) :
    (Cursor.ofText (width.format ++ text) (width.args ++ arp)).minimumWidth left =
      some ((width.value, left || width.left), Cursor.ofText text arp) := by
  cases width with
  | literal ds =>
      rw [Width.format, Width.args, List.nil_append, minimumWidth, ofText_c,
        if_neg (Width.first_format hends), number_ofText widthDigit 0 ds htext hends.1,
        foldlM_widthDigit, Width.left, Bool.or_false]
      rfl
  | star n =>
      have hstar : starWidth left n = some ((Width.star n).value, left || (Width.star n).left) := by
        have hint := BitVec.toInt_eq_toNat_cond n
        rw [starWidth, Width.value, Width.left]
        split_ifs with hneg hmin
        · exact absurd hmin hvalid
        · have hnat : (-n).toNat = n.toInt.natAbs := by
            rw [BitVec.toNat_neg]
            omega
          rw [hnat, decide_eq_true hneg, Bool.or_true]
        · have hnat : n.toNat = n.toInt.natAbs := by omega
          rw [hnat, decide_eq_false hneg, Bool.or_false]
      rw [Width.format, Width.args, List.singleton_append, minimumWidth, ofText_c, first_cons,
        if_pos rfl, List.singleton_append, vaInt_ofText]
      simp only [Option.bind_eq_bind, Option.bind_some, hstar, next_ofText htext]

theorem Cursor.precision_ofText (precision : Precision) (htext : text ≠ [])
    (hends : precision.Ends (first text)) (hvalid : precision.Valid) :
    (Cursor.ofText (precision.format ++ text) (precision.args ++ arp)).precision =
      some (precision.value, Cursor.ofText text arp) := by
  cases precision with
  | none =>
      rw [Precision.format, Precision.args, List.nil_append, List.nil_append, Cursor.precision,
        ofText_c, if_neg hends]
      rfl
  | literal ds =>
      have hstar : (ofText (ds.map decimal ++ text) arp).c ≠ chr '*' := Width.first_format hends
      rw [Precision.format, Precision.args, List.nil_append, List.cons_append, Cursor.precision,
        ofText_c, first_cons, if_pos rfl, next_ofText (by simp [htext])]
      simp only [Option.bind_eq_bind, Option.bind_some]
      rw [if_neg hstar, number_ofText precDigit 0 ds htext hends.1, foldlM_precDigit ds hvalid]
      rfl
  | star n =>
      rw [Precision.format, Precision.args, List.cons_append, List.singleton_append,
        List.singleton_append, Cursor.precision, ofText_c, first_cons, if_pos rfl,
        next_ofText (by simp)]
      simp only [Option.bind_eq_bind, Option.bind_some, ofText_c, first_cons, if_true,
        vaInt_ofText, next_ofText htext]
      rfl

theorem Cursor.size_ofText (size : Size) (htext : text ≠ []) (hends : size.Ends (first text)) :
    (Cursor.ofText (size.format ++ text) arp).size = some (size, Cursor.ofText text arp) := by
  cases size with
  | int =>
      rw [Size.format, List.nil_append, Cursor.size, ofText_c, if_neg (hends (by decide))]
  | long =>
      have hlong : (ofText text arp).c ≠ chr 'l' := hends (by decide)
      rw [Size.format, List.singleton_append, Cursor.size, ofText_c, first_cons, if_pos rfl,
        next_ofText htext]
      simp only [Option.bind_eq_bind, Option.bind_some]
      rw [if_neg hlong]
  | longLong =>
      rw [Size.format, List.cons_append, List.singleton_append, Cursor.size, ofText_c, first_cons,
        if_pos rfl, next_ofText (by simp)]
      simp only [Option.bind_eq_bind, Option.bind_some, ofText_c, first_cons, if_true,
        next_ofText htext]
      rfl

end Parts

/-! ## Numbers -/

section Numbers

variable {c : Byte} {r room n : ℕ}

theorem valueString_eq (hr : 2 ≤ r) (hroom : 0 < room) :
    valueString c r room n =
      ((if n = 0 then [0] else Nat.digits r n).take room).map
        fun d => digitChar c (BitVec.ofNat 8 d) := by
  have hrest (room : ℕ) : ∀ n, valueString c r (room + 1) n =
      ((if n = 0 then [0] else Nat.digits r n).take (room + 1)).map
        fun d => digitChar c (BitVec.ofNat 8 d) := by
    induction room with
    | zero =>
        intro n
        by_cases hn : n = 0
        · subst hn
          simp [valueString]
        · rw [valueString, if_neg hn, Nat.digits_def' hr (Nat.pos_of_ne_zero hn)]
          simp [valueString]
    | succ room ih =>
        intro n
        rw [valueString]
        by_cases hn : n = 0
        · subst hn
          simp
        · rw [if_neg hn, Nat.digits_def' hr (Nat.pos_of_ne_zero hn), List.take_succ_cons,
            List.map_cons, ih]
          by_cases hq : n / r = 0
          · rw [if_neg (not_not.mpr hq), hq]
            simp
          · rw [if_pos hq, if_neg hq]
  obtain ⟨room, rfl⟩ := Nat.exists_eq_succ_of_ne_zero hroom.ne'
  exact hrest room n

theorem digitChar_eq {d : ℕ} (hd : d < 16) :
    digitChar c (BitVec.ofNat 8 d) = digitText (c = chr 'x') d := by
  rw [digitChar, digitText]
  by_cases hx : c = chr 'x'
  · simp only [hx, if_true, decide_true]
    interval_cases d <;> decide
  · simp only [hx, if_false, decide_false]
    interval_cases d <;> decide

theorem digits_lt_sixteen (hr : 2 ≤ r) (hr' : r ≤ 16) {d : ℕ}
    (hd : d ∈ if n = 0 then [0] else Nat.digits r n) : d < 16 := by
  split_ifs at hd
  · obtain rfl := List.mem_singleton.mp hd
    decide
  · exact (Nat.digits_lt_base hr hd).trans_le hr'

theorem reverse_valueString (hr : 2 ≤ r) (hr' : r ≤ 16) :
    (valueString c r szbOutput n).reverse = numberText (c = chr 'x') r n := by
  rw [valueString_eq hr (by decide), numberText]
  congr 1
  apply List.map_congr_left
  intro d hd
  exact digitChar_eq (digits_lt_sixteen hr hr' (List.mem_of_mem_take hd))

theorem length_numberText (lower : Bool) : (numberText lower r n).length ≤ szbOutput := by
  rw [numberText, List.length_reverse, List.length_map]
  exact List.length_take_le _ _

/-- A decimal number leaves room for its sign. -/
theorem length_decimal (lower : Bool) (hn : n < 2 ^ 64) :
    (numberText lower 10 n).length < szbOutput := by
  rw [numberText, List.length_reverse, List.length_map]
  refine lt_of_le_of_lt (List.length_take_le' _ _) ?_
  split_ifs
  · decide
  · have hlen : (Nat.digits 10 n).length ≤ 20 :=
      (Nat.digits_length_le_iff (by decide) n).mpr (hn.trans (by norm_num))
    exact lt_of_le_of_lt hlen (by decide)

theorem radix_type (type : Unsigned) : radix type.type = some type.base := by
  cases type <;> rfl

theorem type_eq_x (type : Unsigned) : type.type = chr 'x' ↔ type = .x := by
  cases type <;> decide

theorem numeral_unsigned (p : Parms) (type : Unsigned) (hn : n < 2 ^ 64) :
    numeral p type.type type.base (BitVec.ofNat 64 n) =
      some (padded p (numberText (type = .x) type.base n).length
        (numberText (type = .x) type.base n)) := by
  have hbase : 2 ≤ type.base ∧ type.base ≤ 16 := by cases type <;> decide
  have hsigned : ¬(type.type = chr 'd' ∧ (BitVec.ofNat 64 n).toInt < 0) := by
    rintro ⟨htype, -⟩
    revert htype
    cases type <;> decide
  have hnat : (BitVec.ofNat 64 n).toNat = n := by
    rw [BitVec.toNat_ofNat, Nat.mod_eq_of_lt hn]
  have hvalue := reverse_valueString (c := type.type) (n := n) hbase.1 hbase.2
  simp only [type_eq_x] at hvalue
  have hlen := congrArg List.length hvalue
  rw [List.length_reverse] at hlen
  rw [numeral, negative, if_neg hsigned]
  simp only [Option.bind_eq_bind, Option.bind_some, List.append_nil, hnat, hvalue, hlen]
  rw [if_neg (Nat.not_lt.mpr (length_numberText _))]

theorem negative_ofInt {v : ℤ} (hlow : -2 ^ 63 < v) (hhigh : v < 2 ^ 63) :
    negative (chr 'd') (BitVec.ofInt 64 v) =
      some (BitVec.ofNat 64 v.natAbs, if v < 0 then [chr '-'] else []) := by
  have hint : (BitVec.ofInt 64 v).toInt = v := by
    rw [BitVec.toInt_ofInt, Int.bmod_eq_of_le] <;> omega
  by_cases hneg : v < 0
  · have hmin : BitVec.ofInt 64 v ≠ BitVec.intMin 64 := by
      intro h
      have hv := congrArg BitVec.toInt h
      rw [hint, BitVec.toInt_intMin] at hv
      omega
    have habs : -BitVec.ofInt 64 v = BitVec.ofNat 64 v.natAbs := by
      rw [← BitVec.ofInt_neg, ← BitVec.ofInt_natCast, Int.ofNat_natAbs_of_nonpos hneg.le]
    rw [negative, if_pos ⟨rfl, hint.symm ▸ hneg⟩, if_neg hmin, if_pos hneg, habs]
  · have hsign : ¬(chr 'd' = chr 'd' ∧ (BitVec.ofInt 64 v).toInt < 0) := by
      rw [hint]
      exact fun h => hneg h.2
    have habs : BitVec.ofInt 64 v = BitVec.ofNat 64 v.natAbs := by
      rw [← BitVec.ofInt_natCast, Int.natAbs_of_nonneg (not_lt.mp hneg)]
    rw [negative, if_neg hsign, if_neg hneg, habs]

theorem numeral_signed (p : Parms) {v : ℤ} (hlow : -2 ^ 63 < v) (hhigh : v < 2 ^ 63) :
    let number := (if v < 0 then [chr '-'] else []) ++ numberText false 10 v.natAbs
    numeral p (chr 'd') 10 (BitVec.ofInt 64 v) = some (padded p number.length number) := by
  intro number
  have hnat : (BitVec.ofNat 64 v.natAbs).toNat = v.natAbs := by
    rw [BitVec.toNat_ofNat, Nat.mod_eq_of_lt (by omega)]
  have hvalue : (valueString (chr 'd') 10 szbOutput v.natAbs ++
      if v < 0 then [chr '-'] else []).reverse = number := by
    have hlower : decide (chr 'd' = chr 'x') = false := by decide
    rw [List.reverse_append, reverse_valueString (by decide) (by decide), hlower]
    split_ifs with hneg <;> simp [number, hneg]
  have hlen := congrArg List.length hvalue
  rw [List.length_reverse] at hlen
  have hroom : number.length ≤ szbOutput := by
    have hdecimal := length_decimal (n := v.natAbs) false (by omega)
    rw [List.length_append]
    split_ifs
    · rw [List.length_singleton]
      omega
    · simpa using hdecimal.le
  rw [numeral, negative_ofInt hlow hhigh]
  simp only [Option.bind_eq_bind, Option.bind_some, hnat, hvalue, hlen]
  rw [if_neg (Nat.not_lt.mpr hroom)]

theorem vaInteger_signed {size : Size} {v : ℤ} {arp : List Arg}
    (hlow : -2 ^ (size.bits - 1) ≤ v) (hhigh : v < 2 ^ (size.bits - 1)) :
    vaInteger (chr 'd') size (size.arg v :: arp) = some (BitVec.ofInt 64 v, arp) := by
  have hextend (hlow : -2 ^ 31 ≤ v) (hhigh : v < 2 ^ 31) :
      (BitVec.ofInt 32 v).signExtend 64 = BitVec.ofInt 64 v := by
    rw [BitVec.signExtend, BitVec.toInt_ofInt, Int.bmod_eq_of_le] <;> omega
  cases size with
  | int =>
      rw [Size.arg, vaInteger, if_pos rfl, hextend hlow hhigh]
  | long =>
      rw [Size.arg, vaInteger, if_pos rfl, hextend hlow hhigh]
  | longLong => rfl

theorem vaInteger_unsigned {size : Size} {arp : List Arg} (hc : c ≠ chr 'd')
    (hn : n < 2 ^ size.bits) :
    vaInteger c size (size.arg n :: arp) = some (BitVec.ofNat 64 n, arp) := by
  have hextend (hn : n < 2 ^ 32) : (BitVec.ofInt 32 n).setWidth 64 = BitVec.ofNat 64 n := by
    rw [BitVec.ofInt_natCast, BitVec.setWidth_ofNat_of_le_of_lt (by decide) hn]
  cases size with
  | int => rw [Size.arg, vaInteger, if_neg hc, hextend hn]
  | long => rw [Size.arg, vaInteger, if_neg hc, hextend hn]
  | longLong => rw [Size.arg, vaInteger, BitVec.ofInt_natCast]

end Numbers

/-! ## Strings -/

section Strings

variable {p more : List Byte}

theorem strlen_string (hp : 0 ∉ p) : strlen (p ++ 0 :: more) = some p.length := by
  induction p with
  | nil => rfl
  | cons c p ih =>
      obtain ⟨hc, hp⟩ := not_or.mp (List.mem_cons.not.mp hp)
      rw [List.cons_append, strlen, if_neg (Ne.symm hc), ih hp]
      rfl

theorem stringChars_of_nonneg (hp : 0 ∉ p) (prec : ℕ) :
    stringChars prec (p ++ 0 :: more) = some (p.take prec) := by
  induction p generalizing prec with
  | nil => simp [stringChars]
  | cons c p ih =>
      obtain ⟨hc, hp⟩ := not_or.mp (List.mem_cons.not.mp hp)
      rw [List.cons_append, stringChars, if_neg (Ne.symm hc), if_neg (by omega)]
      cases prec with
      | zero => rfl
      | succ prec =>
          have hless : ((prec + 1 : ℕ) : ℤ) - 1 = prec := by omega
          rw [if_neg (by omega), hless, ih hp]
          rfl

theorem stringChars_of_neg (hp : 0 ∉ p) {prec : ℤ} (hneg : prec < 0)
    (hlen : p.length ≤ prec + 2 ^ 31) : stringChars prec (p ++ 0 :: more) = some p := by
  induction p generalizing prec with
  | nil => rfl
  | cons c p ih =>
      obtain ⟨hc, hp⟩ := not_or.mp (List.mem_cons.not.mp hp)
      rw [List.length_cons] at hlen
      rw [List.cons_append, stringChars, if_neg (Ne.symm hc), if_neg (by omega),
        if_neg (by omega), ih hp (by omega) (by omega)]
      rfl

end Strings

/-! ## Directives -/

namespace Parts

variable (parts : Parts)

def parms : Parms where
  pad := parts.flag.pad
  left := parts.left
  w := parts.width.value
  prec := parts.precision.value
  size := parts.size

theorem padded_parms (length : ℕ) (chars : List Byte) :
    padded parts.parms length chars = parts.fill length chars := by
  rw [padded, fill, parms]
  cases parts.left with
  | false =>
      have hright : parts.width.value - (length + (parts.width.value - length)) = 0 := by omega
      simp [hright]
  | true => simp

/-- What is read between `%` and the type. -/
theorem parms_ofText {c : Byte} (hends : parts.Ends c) (more : List Byte) (arp : List Arg) :
    (Cursor.ofText (parts.format ++ c :: more) (parts.args ++ arp)).parms =
      some (parts.parms, ⟨c, more, arp⟩) := by
  have hfirst (text : List Byte) :
      first (text ++ (parts.size.format ++ [c])) =
        first (text ++ (parts.size.format ++ c :: more)) := by
    cases text <;> cases parts.size <;> rfl
  obtain ⟨hflag, hwidth, hprecision, hsize, hwidthValid, hprecisionValid⟩ := hends
  rw [← List.append_assoc, hfirst, List.append_assoc] at hflag
  rw [hfirst] at hwidth
  rw [← List.nil_append (parts.size.format ++ _), hfirst, List.nil_append] at hprecision
  have hc : c :: more ≠ [] := List.cons_ne_nil _ _
  have htext₃ : parts.size.format ++ c :: more ≠ [] := List.append_ne_nil_of_right_ne_nil _ hc
  have htext₂ : parts.precision.format ++ (parts.size.format ++ c :: more) ≠ [] :=
    List.append_ne_nil_of_right_ne_nil _ htext₃
  rw [format, args]
  simp only [List.append_assoc]
  rw [Cursor.parms, Cursor.flags_ofText _ (List.append_ne_nil_of_right_ne_nil _ htext₂) hflag]
  simp only [Option.bind_eq_bind, Option.bind_some,
    Cursor.minimumWidth_ofText _ _ htext₂ hwidth hwidthValid,
    Cursor.precision_ofText _ htext₃ hprecision hprecisionValid,
    Cursor.size_ofText _ hc hsize]
  rfl

end Parts

theorem convert_conversion {parts : Parts} {conv : Conversion} (hvalid : conv.Valid parts)
    (more : List Byte) (arp : List Arg) :
    convert parts.parms ⟨conv.type, more, conv.args parts.size ++ arp⟩ =
      some (conv.text parts, arp) := by
  have hsize : parts.parms.size = parts.size := rfl
  have hprec : parts.parms.prec = parts.precision.value := rfl
  have hpad := parts.padded_parms
  rw [convert]
  cases conv with
  | signed v =>
      obtain ⟨hlow, hhigh, hmin⟩ := hvalid
      have hradix : radix (chr 'd') = some 10 := rfl
      have hrange : -2 ^ 63 < v ∧ v < 2 ^ 63 := by
        revert hlow hhigh
        cases parts.size <;> simp only [Size.bits] <;> omega
      simp only [Conversion.type, Conversion.args, List.singleton_append, hradix, hsize,
        vaInteger_signed hlow hhigh, Option.bind_eq_bind, Option.bind_some,
        numeral_signed _ hrange.1 hrange.2, hpad, Conversion.text]
  | unsigned type n =>
      have htype : type.type ≠ chr 'd' := by cases type <;> decide
      have hn : n < 2 ^ 64 := lt_of_lt_of_le hvalid (Nat.pow_le_pow_right (by decide)
        (by cases parts.size <;> decide))
      simp only [Conversion.type, Conversion.args, List.singleton_append, radix_type, hsize,
        vaInteger_unsigned htype hvalid, Option.bind_eq_bind, Option.bind_some,
        numeral_unsigned _ type hn, hpad, Conversion.text]
  | char v => rfl
  | string p rest =>
      obtain ⟨hp, hlen⟩ := hvalid
      have hradix : radix (chr 's') = none := rfl
      have hchars : stringChars parts.precision.value (p ++ 0 :: rest) =
          some (if parts.precision.value < 0 then p
            else p.take parts.precision.value.toNat) := by
        split_ifs with hneg
        · exact stringChars_of_neg hp hneg (hlen hneg)
        · rw [← stringChars_of_nonneg hp, Int.toNat_of_nonneg (not_lt.mp hneg)]
      have htype : chr 's' ≠ chr 'c' := by decide
      simp only [Conversion.type, Conversion.args, List.singleton_append, hradix, htype, if_false,
        if_true, strlen_string hp, hprec, hchars, Option.bind_eq_bind, Option.bind_some, hpad,
        Conversion.text]
  | other c =>
      obtain ⟨-, hradix, hchar, hstring⟩ := hvalid
      simp only [Conversion.type, Conversion.args, List.nil_append, hradix, hchar, hstring,
        if_false, Conversion.text]

theorem type_ne_zero {parts : Parts} {conv : Conversion} (hvalid : conv.Valid parts) :
    conv.type ≠ 0 := by
  cases conv with
  | signed v => exact (by decide : chr 'd' ≠ 0)
  | unsigned type n =>
      rw [Conversion.type]
      cases type <;> decide
  | char v => exact (by decide : chr 'c' ≠ 0)
  | string p more => exact (by decide : chr 's' ≠ 0)
  | other c => exact hvalid.1

/-- Behind `%` the first part is read. -/
theorem next_percent {parts : Parts} {c : Byte} (more : List Byte) (arp : List Arg) :
    (⟨chr '%', parts.format ++ c :: more, arp⟩ : Cursor).next =
      some (.ofText (parts.format ++ c :: more) arp) :=
  Cursor.next_ofText (c := chr '%') (by simp)

theorem sequence_format (d : Directive) (more : List Byte) (arp : List Arg) :
    sequence ⟨chr '%', d.parts.format ++ d.conversion.type :: more, d.args ++ arp⟩ =
      some (some d.text, ⟨d.conversion.type, more, arp⟩) := by
  rw [sequence, next_percent, Directive.args, List.append_assoc]
  simp only [Option.bind_eq_bind, Option.bind_some, d.parts.parms_ofText d.ends,
    type_ne_zero d.valid, if_false, convert_conversion d.valid]
  rfl

theorem sequence_unfinished {parts : Parts} (hends : parts.Ends 0) (more : List Byte)
    (arp : List Arg) :
    sequence ⟨chr '%', parts.format ++ 0 :: more, parts.args ++ arp⟩ =
      some (none, ⟨0, more, arp⟩) := by
  rw [sequence, next_percent]
  simp only [Option.bind_eq_bind, Option.bind_some, parts.parms_ofText hends, if_true]

/-! ## Formats -/

section Loop

variable {δ : Type} {func : Func δ} {fmt : List Byte} {arp : List Arg} {s s' : Output δ}

theorem xvfprintf_of_sequence {chars : List Byte} {t : Cursor}
    (h : sequence ⟨chr '%', fmt, arp⟩ = some (some chars, t)) :
    xvfprintf func (chr '%' :: fmt) arp s = xvfprintf func t.fmt t.arp (put func chars s) := by
  rw [xvfprintf, if_neg (by decide), if_neg (by simp)]
  split
  next h' => exact absurd (h.symm.trans h') (by simp)
  next h' => exact absurd (h.symm.trans h') (by simp)
  next h' =>
    obtain ⟨hchars, rfl⟩ := Prod.mk.inj (Option.some.inj (h.symm.trans h'))
    rw [Option.some.inj hchars]

theorem xvfprintf_of_unfinished {t : Cursor} (h : sequence ⟨chr '%', fmt, arp⟩ = some (none, t)) :
    xvfprintf func (chr '%' :: fmt) arp s = some s := by
  rw [xvfprintf, if_neg (by decide), if_neg (by simp)]
  split
  next h' => exact absurd (h.symm.trans h') (by simp)
  next => rfl
  next h' => exact absurd (h.symm.trans h') (by simp)

/-- `xvfprintf` puts out what the format means. -/
theorem xvfprintf_of_means {text : List Byte} (h : Means fmt arp text) (s : Output δ) :
    xvfprintf func fmt arp s = some (put func text s) := by
  induction h generalizing s with
  | ends fmt arp =>
      rw [xvfprintf, if_pos rfl]
      rfl
  | unfinished parts hends fmt arp =>
      exact xvfprintf_of_unfinished (sequence_unfinished hends fmt arp)
  | char c hc _ ih =>
      rw [xvfprintf, if_neg hc.1, if_pos hc.2, ih]
      rfl
  | directive d _ ih =>
      rw [Directive.format, List.cons_append, List.append_assoc, List.singleton_append,
        xvfprintf_of_sequence (sequence_format d _ _), ih, put, put, put, List.foldl_append]

end Loop

/-! ## Only what formats mean

Read backwards: whenever a step of `xvfprintf` is defined, what it has read is
spelled by a part. -/

/-- The characters from `c` on. -/
def Cursor.text (s : Cursor) : List Byte := s.c :: s.fmt

section Backwards

variable {s s' : Cursor}

theorem Cursor.text_of_next (h : s.next = some s') : s.text = s.c :: s'.text ∧ s.arp = s'.arp := by
  rw [next] at h
  split at h
  next => simp at h
  next hfmt =>
    obtain rfl := Option.some.inj h
    exact ⟨by rw [text, hfmt]; rfl, rfl⟩

theorem Cursor.vaInt_eq_some {n : BitVec 32} (h : s.vaInt = some (n, s')) :
    s.text = s'.text ∧ s.arp = .int n :: s'.arp := by
  rw [vaInt] at h
  split at h
  next harp =>
    obtain ⟨rfl, rfl⟩ := Prod.mk.inj (Option.some.inj h)
    exact ⟨rfl, harp⟩
  next => simp at h

theorem Cursor.flags_eq_some {pad : Byte} {left : Bool} (h : s.flags = some ((pad, left), s')) :
    ∃ flag : Flag, s.text = flag.format ++ s'.text ∧ s.arp = s'.arp ∧ pad = flag.pad ∧
      left = decide (flag = .left) ∧ flag.Ends s'.c := by
  rw [flags] at h
  split_ifs at h with hzero hleft
  · obtain ⟨t, hnext, heq⟩ := Option.map_eq_some_iff.mp h
    obtain ⟨hflag, rfl⟩ := Prod.mk.inj heq
    obtain ⟨rfl, rfl⟩ := Prod.mk.inj hflag
    obtain ⟨htext, harp⟩ := text_of_next hnext
    exact ⟨.zero, by rw [htext, hzero]; rfl, harp, rfl, rfl, fun h => Flag.noConfusion h⟩
  · obtain ⟨t, hnext, heq⟩ := Option.map_eq_some_iff.mp h
    obtain ⟨hflag, rfl⟩ := Prod.mk.inj heq
    obtain ⟨rfl, rfl⟩ := Prod.mk.inj hflag
    obtain ⟨htext, harp⟩ := text_of_next hnext
    exact ⟨.left, by rw [htext, hleft]; rfl, harp, rfl, rfl, fun h => Flag.noConfusion h⟩
  · obtain ⟨hflag, rfl⟩ := Prod.mk.inj (Option.some.inj h)
    obtain ⟨rfl, rfl⟩ := Prod.mk.inj hflag
    exact ⟨.none, rfl, rfl, rfl, rfl, fun _ => ⟨hzero, hleft⟩⟩

theorem exists_decimal {c : Byte} (hc : isDigit c = true) : ∃ d, c = decimal d := by
  rw [isDigit, Bool.and_eq_true, decide_eq_true_iff, decide_eq_true_iff] at hc
  have hlow : (48#8).toNat ≤ c.toNat := hc.1
  have hhigh : c.toNat ≤ (57#8).toNat := hc.2
  have hlt : c.toNat - 48 < 10 := by
    simp at hlow hhigh
    omega
  refine ⟨⟨c.toNat - 48, hlt⟩, ?_⟩
  apply BitVec.eq_of_toNat_eq
  rw [toNat_decimal]
  simp at hlow ⊢
  omega

theorem digits_eq_some {α : Type} {digit : α → Byte → Option α} {value value' : α} {c c' : Byte}
    {fmt fmt' : List Byte} (h : digits digit value c fmt = some (value', c', fmt')) :
    ∃ ds : List (Fin 10), c :: fmt = ds.map decimal ++ c' :: fmt' ∧ isDigit c' = false ∧
      ds.foldlM (fun value d => digit value (decimal d)) value = some value' := by
  induction fmt generalizing value c with
  | nil =>
      rw [digits] at h
      split_ifs at h with hdigit
      obtain ⟨rfl, hrest⟩ := Prod.mk.inj (Option.some.inj h)
      obtain ⟨rfl, rfl⟩ := Prod.mk.inj hrest
      exact ⟨[], rfl, Bool.eq_false_iff.mpr hdigit, rfl⟩
  | cons c₁ fmt₁ ih =>
      rw [digits] at h
      split_ifs at h with hdigit
      · obtain ⟨value₁, hvalue, hrest⟩ := Option.bind_eq_some_iff.mp h
        obtain ⟨ds, htext, hend, hfold⟩ := ih hrest
        obtain ⟨d, rfl⟩ := exists_decimal hdigit
        refine ⟨d :: ds, by rw [htext]; rfl, hend, ?_⟩
        rw [List.foldlM_cons, hvalue]
        exact hfold
      · obtain ⟨rfl, hrest⟩ := Prod.mk.inj (Option.some.inj h)
        obtain ⟨rfl, rfl⟩ := Prod.mk.inj hrest
        exact ⟨[], rfl, Bool.eq_false_iff.mpr hdigit, rfl⟩

theorem Cursor.number_eq_some {α : Type} {digit : α → Byte → Option α} {value value' : α}
    (h : s.number digit value = some (value', s')) :
    ∃ ds : List (Fin 10), s.text = ds.map decimal ++ s'.text ∧ s.arp = s'.arp ∧
      isDigit s'.c = false ∧ ds.foldlM (fun value d => digit value (decimal d)) value =
        some value' := by
  obtain ⟨⟨v, c, fmt⟩, hdigits, heq⟩ := Option.map_eq_some_iff.mp h
  obtain ⟨rfl, rfl⟩ := Prod.mk.inj heq
  obtain ⟨ds, htext, hend, hfold⟩ := digits_eq_some hdigits
  exact ⟨ds, htext, rfl, hend, hfold⟩

theorem Cursor.starWidth_eq_some {n : BitVec 32} {left left' : Bool} {w : ℕ}
    (h : starWidth left n = some (w, left')) :
    (Width.star n).Valid ∧ w = (Width.star n).value ∧ left' = (left || (Width.star n).left) := by
  have hint := BitVec.toInt_eq_toNat_cond n
  rw [starWidth] at h
  split_ifs at h with hneg hmin
  · obtain ⟨rfl, rfl⟩ := Prod.mk.inj (Option.some.inj h)
    refine ⟨hmin, ?_, by rw [Width.left, decide_eq_true hneg, Bool.or_true]⟩
    rw [Width.value, BitVec.toNat_neg]
    omega
  · obtain ⟨rfl, rfl⟩ := Prod.mk.inj (Option.some.inj h)
    refine ⟨?_, ?_, by rw [Width.left, decide_eq_false hneg, Bool.or_false]⟩
    · rintro rfl
      exact hneg (by decide)
    · rw [Width.value]
      omega

theorem Cursor.minimumWidth_eq_some {left left' : Bool} {w : ℕ}
    (h : s.minimumWidth left = some ((w, left'), s')) :
    ∃ width : Width, s.text = width.format ++ s'.text ∧ s.arp = width.args ++ s'.arp ∧
      w = width.value ∧ left' = (left || width.left) ∧ width.Ends s'.c ∧ width.Valid := by
  rw [minimumWidth] at h
  split_ifs at h with hstar
  · obtain ⟨⟨n, t⟩, harg, h⟩ := Option.bind_eq_some_iff.mp h
    obtain ⟨⟨w₁, left₁⟩, hwidth, h⟩ := Option.bind_eq_some_iff.mp h
    obtain ⟨t', hnext, h⟩ := Option.bind_eq_some_iff.mp h
    obtain ⟨heq, rfl⟩ := Prod.mk.inj (Option.some.inj h)
    obtain ⟨rfl, rfl⟩ := Prod.mk.inj heq
    obtain ⟨htext, harp⟩ := vaInt_eq_some harg
    obtain ⟨htext', harp'⟩ := text_of_next hnext
    obtain ⟨hvalid, hw, hleft⟩ := starWidth_eq_some hwidth
    have hc : t.c = chr '*' := by rw [← hstar, (List.cons.inj htext).1]
    refine ⟨.star n, ?_, by rw [harp, harp']; rfl, hw, hleft, trivial, hvalid⟩
    rw [htext, htext', hc]
    rfl
  · obtain ⟨⟨w₁, t⟩, hnumber, heq⟩ := Option.map_eq_some_iff.mp h
    obtain ⟨hw, rfl⟩ := Prod.mk.inj heq
    obtain ⟨rfl, rfl⟩ := Prod.mk.inj hw
    obtain ⟨ds, htext, harp, hend, hfold⟩ := number_eq_some hnumber
    rw [foldlM_widthDigit] at hfold
    refine ⟨.literal ds, htext, harp, (Option.some.inj hfold).symm, by simp [Width.left],
      ⟨hend, ?_⟩, trivial⟩
    rintro rfl
    rw [← (List.cons.inj htext).1]
    exact hstar

theorem valid_of_foldlM_precDigit {ds : List (Fin 10)} {prec : ℤ}
    (h : ds.foldlM (fun prec d => precDigit prec (decimal d)) 0 = some prec) :
    decimalValue ds + 48 < 2 ^ 31 := by
  induction ds using List.reverseRecOn generalizing prec with
  | nil =>
      rw [decimalValue, List.map_nil, List.reverse_nil, Nat.ofDigits_nil]
      decide
  | append_singleton ds d ih =>
      rw [List.foldlM_append] at h
      obtain ⟨prec₁, hds, hlast⟩ := Option.bind_eq_some_iff.mp h
      obtain rfl := Option.some.inj ((foldlM_precDigit ds (ih hds)).symm.trans hds)
      rw [List.foldlM_cons] at hlast
      obtain ⟨prec₂, hdigit, -⟩ := Option.bind_eq_some_iff.mp hlast
      rw [precDigit, toNat_decimal] at hdigit
      split_ifs at hdigit with hlt
      rw [decimalValue_concat]
      omega

theorem Cursor.precision_eq_some {prec : ℤ} (h : s.precision = some (prec, s')) :
    ∃ precision : Precision, s.text = precision.format ++ s'.text ∧
      s.arp = precision.args ++ s'.arp ∧ prec = precision.value ∧ precision.Ends s'.c ∧
      precision.Valid := by
  rw [Cursor.precision] at h
  split_ifs at h with hdot
  · obtain ⟨t, hnext, h⟩ := Option.bind_eq_some_iff.mp h
    obtain ⟨htext, harp⟩ := text_of_next hnext
    split_ifs at h with hstar
    · obtain ⟨⟨n, u⟩, harg, h⟩ := Option.bind_eq_some_iff.mp h
      obtain ⟨u', hnext', h⟩ := Option.bind_eq_some_iff.mp h
      obtain ⟨rfl, rfl⟩ := Prod.mk.inj (Option.some.inj h)
      obtain ⟨htext', harp'⟩ := vaInt_eq_some harg
      obtain ⟨htext'', harp''⟩ := text_of_next hnext'
      have hc : u.c = chr '*' := by rw [← hstar, (List.cons.inj htext').1]
      refine ⟨.star n, ?_, by rw [harp, harp', harp'']; rfl, rfl, trivial, trivial⟩
      rw [htext, htext', htext'', hdot, hc]
      rfl
    · obtain ⟨ds, htext', harp', hend, hfold⟩ := number_eq_some h
      have hvalid := valid_of_foldlM_precDigit hfold
      rw [foldlM_precDigit ds hvalid] at hfold
      refine ⟨.literal ds, by rw [htext, htext', hdot]; rfl, harp.trans harp',
        (Option.some.inj hfold).symm, ⟨hend, ?_⟩, hvalid⟩
      rintro rfl
      rw [← (List.cons.inj htext').1]
      exact hstar
  · obtain ⟨rfl, rfl⟩ := Prod.mk.inj (Option.some.inj h)
    exact ⟨.none, rfl, rfl, rfl, hdot, trivial⟩

theorem Cursor.size_eq_some {size : Size} (h : s.size = some (size, s')) :
    s.text = size.format ++ s'.text ∧ s.arp = s'.arp ∧ size.Ends s'.c := by
  rw [Cursor.size] at h
  split_ifs at h with hlong
  · obtain ⟨t, hnext, h⟩ := Option.bind_eq_some_iff.mp h
    obtain ⟨htext, harp⟩ := text_of_next hnext
    split_ifs at h with hlong'
    · obtain ⟨t', hnext', heq⟩ := Option.map_eq_some_iff.mp h
      obtain ⟨rfl, rfl⟩ := Prod.mk.inj heq
      obtain ⟨htext', harp'⟩ := text_of_next hnext'
      exact ⟨by rw [htext, htext', hlong, hlong']; rfl, harp.trans harp', fun h => absurd rfl h⟩
    · obtain ⟨rfl, rfl⟩ := Prod.mk.inj (Option.some.inj h)
      exact ⟨by rw [htext, hlong]; rfl, harp, fun _ => hlong'⟩
  · obtain ⟨rfl, rfl⟩ := Prod.mk.inj (Option.some.inj h)
    exact ⟨rfl, rfl, fun _ => hlong⟩

theorem Cursor.parms_eq_some {p : Parms} (h : s.parms = some (p, s')) :
    ∃ parts : Parts, s.text = parts.format ++ s'.text ∧ s.arp = parts.args ++ s'.arp ∧
      p = parts.parms ∧ parts.Ends s'.c := by
  obtain ⟨⟨⟨pad, left⟩, s₁⟩, hflags, h⟩ := Option.bind_eq_some_iff.mp h
  obtain ⟨⟨⟨w, left'⟩, s₂⟩, hwidth, h⟩ := Option.bind_eq_some_iff.mp h
  obtain ⟨⟨prec, s₃⟩, hprecision, h⟩ := Option.bind_eq_some_iff.mp h
  obtain ⟨⟨size, s₄⟩, hsize, h⟩ := Option.bind_eq_some_iff.mp h
  obtain ⟨rfl, rfl⟩ := Prod.mk.inj (Option.some.inj h)
  obtain ⟨flag, hformat₁, harp₁, rfl, rfl, hends₁⟩ := flags_eq_some hflags
  obtain ⟨width, hformat₂, harp₂, rfl, rfl, hends₂, hvalid₂⟩ := minimumWidth_eq_some hwidth
  obtain ⟨precision, hformat₃, harp₃, rfl, hends₃, hvalid₃⟩ := precision_eq_some hprecision
  obtain ⟨hformat₄, harp₄, hends₄⟩ := size_eq_some hsize
  have hfirst (t : Cursor) (text : List Byte) (ht : t.text = text ++ s₄.text) :
      first (text ++ [s₄.c]) = t.c := by
    cases text with
    | nil => exact (List.cons.inj ht).1.symm
    | cons c text => exact (List.cons.inj ht).1.symm
  refine ⟨⟨flag, width, precision, size⟩, ?_, ?_, rfl, ?_⟩
  · rw [hformat₁, hformat₂, hformat₃, hformat₄, Parts.format]
    simp only [List.append_assoc]
  · rw [harp₁, harp₂, harp₃, harp₄, Parts.args, List.append_assoc]
  · have hc₁ := hfirst s₁ (width.format ++ (precision.format ++ size.format))
      (by rw [hformat₂, hformat₃, hformat₄]; simp only [List.append_assoc])
    have hc₂ := hfirst s₂ (precision.format ++ size.format)
      (by rw [hformat₃, hformat₄, List.append_assoc])
    have hc₃ := hfirst s₃ size.format hformat₄
    simp only [List.append_assoc] at hc₁ hc₂
    exact ⟨hc₁.symm ▸ hends₁, hc₂.symm ▸ hends₂, hc₃.symm ▸ hends₃, hends₄, hvalid₂, hvalid₃⟩

/-- The types, by their radix. -/
theorem radix_eq_some {c : Byte} {r : ℕ} (h : radix c = some r) :
    c = chr 'd' ∨ ∃ type : Unsigned, c = type.type := by
  rw [radix] at h
  split_ifs at h with hb ho hd hx
  · exact Or.inr ⟨.b, hb⟩
  · exact Or.inr ⟨.o, ho⟩
  · exact hd.imp id fun h => ⟨.u, h⟩
  · exact Or.inr (hx.elim (fun h => ⟨.x, h⟩) fun h => ⟨.X, h⟩)

theorem toInt_range (v : BitVec 32) : -2 ^ 31 ≤ v.toInt ∧ v.toInt < 2 ^ 31 := by
  have hint := BitVec.toInt_eq_toNat_cond v
  omega

theorem toInt_signExtend (v : BitVec 32) : (v.signExtend 64).toInt = v.toInt :=
  BitVec.toInt_signExtend_of_le (by decide)

/-- The argument of `%d` is that of its value, and the value is the one that is
converted. -/
theorem vaInteger_signed_eq_some {size : Size} {arp arp' : List Arg} {v : BitVec 64}
    (h : vaInteger (chr 'd') size arp = some (v, arp')) :
    -2 ^ (size.bits - 1) ≤ v.toInt ∧ v.toInt < 2 ^ (size.bits - 1) ∧
      arp = size.arg v.toInt :: arp' := by
  unfold vaInteger at h
  split at h
  next v₀ _ =>
    obtain ⟨rfl, rfl⟩ := Prod.mk.inj (Option.some.inj h)
    have hint := BitVec.toInt_eq_toNat_cond v₀
    refine ⟨?_, ?_, by rw [Size.arg, BitVec.ofInt_toInt]⟩
    · simp only [Size.bits]
      omega
    · simp only [Size.bits]
      omega
  next v₀ _ =>
    rw [if_pos rfl] at h
    obtain ⟨rfl, rfl⟩ := Prod.mk.inj (Option.some.inj h)
    obtain ⟨hlow, hhigh⟩ := toInt_range v₀
    rw [toInt_signExtend]
    exact ⟨hlow, hhigh, by rw [Size.arg, BitVec.ofInt_toInt]⟩
  next v₀ _ =>
    rw [if_pos rfl] at h
    obtain ⟨rfl, rfl⟩ := Prod.mk.inj (Option.some.inj h)
    obtain ⟨hlow, hhigh⟩ := toInt_range v₀
    rw [toInt_signExtend]
    exact ⟨hlow, hhigh, by rw [Size.arg, BitVec.ofInt_toInt]⟩
  next => simp at h

theorem ofInt_toNat {w : ℕ} (v : BitVec w) : BitVec.ofInt w v.toNat = v := by
  rw [BitVec.ofInt_natCast, BitVec.ofNat_toNat, BitVec.setWidth_eq]

theorem vaInteger_unsigned_eq_some {c : Byte} {size : Size} {arp arp' : List Arg} {v : BitVec 64}
    (hc : c ≠ chr 'd') (h : vaInteger c size arp = some (v, arp')) :
    v.toNat < 2 ^ size.bits ∧ arp = size.arg v.toNat :: arp' := by
  unfold vaInteger at h
  split at h
  next v₀ _ =>
    obtain ⟨rfl, rfl⟩ := Prod.mk.inj (Option.some.inj h)
    exact ⟨v₀.isLt, by rw [Size.arg, ofInt_toNat]⟩
  next v₀ _ =>
    rw [if_neg hc] at h
    obtain ⟨rfl, rfl⟩ := Prod.mk.inj (Option.some.inj h)
    rw [BitVec.toNat_setWidth_of_le (by decide)]
    exact ⟨v₀.isLt, by rw [Size.arg, ofInt_toNat]⟩
  next v₀ _ =>
    rw [if_neg hc] at h
    obtain ⟨rfl, rfl⟩ := Prod.mk.inj (Option.some.inj h)
    rw [BitVec.toNat_setWidth_of_le (by decide)]
    exact ⟨v₀.isLt, by rw [Size.arg, ofInt_toNat]⟩
  next => simp at h

theorem strlen_eq_some {q : List Byte} {j : ℕ} (h : strlen q = some j) :
    ∃ p more, q = p ++ 0 :: more ∧ 0 ∉ p := by
  induction q generalizing j with
  | nil => simp [strlen] at h
  | cons c q ih =>
      rw [strlen] at h
      split_ifs at h with hc
      · exact ⟨[], q, by rw [hc]; rfl, by simp⟩
      · obtain ⟨j', hj, -⟩ := Option.map_eq_some_iff.mp h
        obtain ⟨p, more, rfl, hp⟩ := ih hj
        exact ⟨c :: p, more, rfl, List.mem_cons.not.mpr (not_or.mpr ⟨Ne.symm hc, hp⟩)⟩

theorem length_of_stringChars {p more chars : List Byte} {prec : ℤ} (hp : 0 ∉ p) (hneg : prec < 0)
    (hmin : -2 ^ 31 ≤ prec) (h : stringChars prec (p ++ 0 :: more) = some chars) :
    p.length ≤ prec + 2 ^ 31 := by
  induction p generalizing prec chars with
  | nil =>
      rw [List.length_nil]
      omega
  | cons c p ih =>
      obtain ⟨hc, hp⟩ := not_or.mp (List.mem_cons.not.mp hp)
      rw [List.cons_append, stringChars, if_neg (Ne.symm hc)] at h
      split_ifs at h with hend hzero
      · omega
      · obtain ⟨rest, hrest, -⟩ := Option.map_eq_some_iff.mp h
        have hlen := ih hp (by omega) (by omega) hrest
        rw [List.length_cons]
        omega

theorem Precision.value_range {precision : Precision} (hvalid : precision.Valid) :
    -2 ^ 31 ≤ precision.value := by
  cases precision with
  | none => decide
  | literal ds =>
      rw [value]
      omega
  | star n => exact (toInt_range n).1

theorem convert_eq_some {parts : Parts} {chars : List Byte} {arp : List Arg} (hc : s.c ≠ 0)
    (hprec : parts.precision.Valid) (h : convert parts.parms s = some (chars, arp)) :
    ∃ conv : Conversion, conv.Valid parts ∧ s.c = conv.type ∧
      s.arp = conv.args parts.size ++ arp := by
  rw [convert] at h
  split at h
  next r hradix =>
    obtain ⟨⟨v, arp'⟩, harg, h⟩ := Option.bind_eq_some_iff.mp h
    obtain ⟨chars', hnumeral, h⟩ := Option.bind_eq_some_iff.mp h
    obtain ⟨rfl, rfl⟩ := Prod.mk.inj (Option.some.inj h)
    rcases radix_eq_some hradix with hd | ⟨type, htype⟩
    · rw [hd] at harg hnumeral
      obtain ⟨hlow, hhigh, harp⟩ := vaInteger_signed_eq_some harg
      refine ⟨.signed v.toInt, ⟨hlow, hhigh, fun hmin => ?_⟩, hd, harp⟩
      obtain ⟨w, hnegative, -⟩ := Option.bind_eq_some_iff.mp hnumeral
      have hv : v = BitVec.intMin 64 := by
        refine BitVec.eq_of_toInt_eq ?_
        rw [hmin, BitVec.toInt_intMin]
        rfl
      rw [negative, if_pos ⟨rfl, by omega⟩, if_pos hv] at hnegative
      exact absurd hnegative (by simp)
    · have hd : type.type ≠ chr 'd' := by cases type <;> decide
      rw [htype] at harg
      obtain ⟨hlt, harp⟩ := vaInteger_unsigned_eq_some hd harg
      exact ⟨.unsigned type v.toNat, hlt, htype, harp⟩
  next hradix =>
    split_ifs at h with hchar hstring
    · obtain ⟨⟨v, t⟩, harg, heq⟩ := Option.map_eq_some_iff.mp h
      obtain ⟨rfl, rfl⟩ := Prod.mk.inj heq
      exact ⟨.char v, trivial, hchar, (Cursor.vaInt_eq_some harg).2⟩
    · split at h
      next q arp' harp =>
        obtain ⟨j, hlen, h⟩ := Option.bind_eq_some_iff.mp h
        obtain ⟨chars', hchars, h⟩ := Option.bind_eq_some_iff.mp h
        obtain ⟨rfl, rfl⟩ := Prod.mk.inj (Option.some.inj h)
        obtain ⟨p, more, rfl, hp⟩ := strlen_eq_some hlen
        exact ⟨.string p more, ⟨hp, fun hneg => length_of_stringChars hp hneg
          (Precision.value_range hprec) hchars⟩, hstring, harp⟩
      next => simp at h
    · obtain ⟨rfl, rfl⟩ := Prod.mk.inj (Option.some.inj h)
      exact ⟨.other s.c, ⟨hc, hradix, hchar, hstring⟩, rfl, rfl⟩

/-- What a sequence puts out is the text of a directive, unless it ends the
format. -/
theorem sequence_eq_some {fmt : List Byte} {arp : List Arg} {chars : Option (List Byte)}
    (h : sequence ⟨chr '%', fmt, arp⟩ = some (chars, s')) :
    (∃ d : Directive, chr '%' :: fmt = d.format ++ s'.fmt ∧ arp = d.args ++ s'.arp ∧
        chars = some d.text) ∨
      ∃ parts : Parts, parts.Ends 0 ∧ fmt = parts.format ++ 0 :: s'.fmt ∧
        arp = parts.args ++ s'.arp ∧ chars = none := by
  obtain ⟨t, hnext, h⟩ := Option.bind_eq_some_iff.mp h
  obtain ⟨⟨p, u⟩, hparms, h⟩ := Option.bind_eq_some_iff.mp h
  obtain ⟨htext, harp⟩ := Cursor.text_of_next hnext
  obtain ⟨parts, htext', harp', rfl, hends⟩ := Cursor.parms_eq_some hparms
  have hfmt : fmt = parts.format ++ u.c :: u.fmt := by
    rw [htext'] at htext
    exact (List.cons.inj htext).2
  simp only at h
  split_ifs at h with hc
  · obtain ⟨rfl, rfl⟩ := Prod.mk.inj (Option.some.inj h)
    rw [hc] at hends hfmt
    exact Or.inr ⟨parts, hends, hfmt, harp.trans harp', rfl⟩
  · obtain ⟨⟨chars', arp'⟩, hconvert, h⟩ := Option.bind_eq_some_iff.mp h
    obtain ⟨rfl, rfl⟩ := Prod.mk.inj (Option.some.inj h)
    obtain ⟨conv, hvalid, htype, hargs⟩ := convert_eq_some hc hends.precisionValid hconvert
    rw [htype] at hends
    obtain rfl : chars' = conv.text parts := by
      have hcursor : u = ⟨conv.type, u.fmt, conv.args parts.size ++ arp'⟩ := by
        rw [← htype, ← hargs]
      rw [hcursor, convert_conversion hvalid] at hconvert
      exact (Prod.mk.inj (Option.some.inj hconvert)).1.symm
    refine Or.inl ⟨⟨parts, conv, hends, hvalid⟩, ?_, ?_, rfl⟩
    · rw [hfmt, htype, Directive.format, List.cons_append, List.append_assoc]
      rfl
    · refine (harp.trans harp').trans ?_
      rw [hargs, Directive.args, List.append_assoc]

end Backwards

/-- Where `xvfprintf` is defined the format means something. -/
theorem means_of_xvfprintf {δ : Type} {func : Func δ} {fmt : List Byte} {arp : List Arg}
    {s s' : Output δ} (h : xvfprintf func fmt arp s = some s') :
    ∃ text, Means fmt arp text ∧ s' = put func text s := by
  fun_induction xvfprintf func fmt arp s with
  | case1 => simp at h
  | case2 arp s fmt => 
      obtain rfl := Option.some.inj h
      exact ⟨[], .ends fmt arp, rfl⟩
  | case3 arp s c fmt hzero hpercent ih =>
      obtain ⟨text, hmeans, rfl⟩ := ih h
      exact ⟨c :: text, .char c ⟨hzero, hpercent⟩ hmeans, rfl⟩
  | case4 => simp at h
  | case5 arp s c fmt _ hpercent t hsequence =>
      obtain rfl := not_not.mp hpercent
      obtain rfl := Option.some.inj h
      rcases sequence_eq_some hsequence with
        ⟨_, _, _, hchars⟩ | ⟨parts, hends, rfl, rfl, _⟩
      · exact absurd hchars (by simp)
      · exact ⟨[], .unfinished parts hends _ _, rfl⟩
  | case6 arp s c fmt _ hpercent chars t hsequence ih =>
      obtain rfl := not_not.mp hpercent
      obtain ⟨text, hmeans, rfl⟩ := ih h
      rcases sequence_eq_some hsequence with
        ⟨d, hfmt, rfl, hchars⟩ | ⟨_, _, _, _, hchars⟩
      · obtain rfl := Option.some.inj hchars
        refine ⟨d.text ++ text, hfmt ▸ .directive d hmeans, ?_⟩
        rw [put, put, put, List.foldl_append]
      · exact absurd hchars (by simp)

/-- `xvfprintf` is defined where a format means something with its arguments,
and puts that out. -/
theorem xvfprintf_eq_some_iff {δ : Type} {func : Func δ} {fmt : List Byte} {arp : List Arg}
    {s s' : Output δ} :
    xvfprintf func fmt arp s = some s' ↔ ∃ text, Means fmt arp text ∧ s' = put func text s := by
  constructor
  · exact means_of_xvfprintf
  · rintro ⟨text, hmeans, rfl⟩
    exact xvfprintf_of_means hmeans s

example :
    (xvfprintf (some fun sent c => sent ++ [c]) ("%6d,%3d%%".toList.map chr ++ [0])
      [.int (-200), .int 5] ⟨[], fun _ => 0, none⟩).map Output.device =
      some ("  -200,  5%".toList.map chr) := by
  decide +kernel

/-! ## Into memory -/

/-- The bytes that go out for a character. -/
def crlf (c : Byte) : List Byte := if c = chr '\n' then [chr '\r', chr '\n'] else [c]

/-- A device that keeps what it is sent. -/
def record : Func (List Byte) := some fun sent c => sent ++ [c]

/-- The memory with the bytes from `buff` on replaced. -/
def stored (mem : ByteMem) (buff : ℕ) (bytes : List Byte) : ByteMem := fun a =>
  if buff ≤ a then bytes[a - buff]?.getD (mem a) else mem a

section Memory

variable {δ : Type} {mem : ByteMem} {buff : ℕ}

theorem stored_nil (mem : ByteMem) (buff : ℕ) : stored mem buff [] = mem := by
  funext a
  simp [stored]

theorem stored_append (left right : List Byte) :
    stored (stored mem buff left) (buff + left.length) right =
      stored mem buff (left ++ right) := by
  funext a
  simp only [stored]
  by_cases hlow : buff ≤ a
  · by_cases hleft : a - buff < left.length
    · rw [if_neg (by omega), if_pos hlow, if_pos hlow, List.getElem?_append_left hleft]
    · have hright : a - (buff + left.length) = a - buff - left.length := by omega
      rw [if_pos (by omega), if_pos hlow, if_pos hlow, hright,
        List.getElem?_append_right (by omega), List.getElem?_eq_none (not_lt.mp hleft),
        Option.getD_none]
  · rw [if_neg (by omega), if_neg hlow, if_neg hlow]

theorem update_eq_stored (c : Byte) : Function.update mem buff c = stored mem buff [c] := by
  funext a
  rw [Function.update_apply, stored]
  rcases lt_trichotomy a buff with h | rfl | h
  · rw [if_neg h.ne, if_neg (by omega)]
  · simp
  · rw [if_neg h.ne', if_pos h.le, List.getElem?_eq_none (by simp; omega), Option.getD_none]

theorem put_record (text : List Byte) (s : Output (List Byte)) :
    put record text s = { s with device := s.device ++ text.flatMap crlf } := by
  induction text generalizing s with
  | nil => simp [put]
  | cons c text ih =>
      rw [put, List.foldl_cons, ← put, ih, List.flatMap_cons, xfputc, crlf]
      split_ifs with hc <;> simp [record, writeChar, hc]

theorem put_none (text : List Byte) (s : Output δ) (hbuff : s.strptr = some buff) :
    put none text s = { s with
      mem := stored s.mem buff (text.flatMap crlf)
      strptr := some (buff + (text.flatMap crlf).length) } := by
  induction text generalizing s buff with
  | nil => simp [put, stored_nil, ← hbuff]
  | cons c text ih =>
      have hchar : xfputc none c s = { s with
          mem := stored s.mem buff (crlf c), strptr := some (buff + (crlf c).length) } := by
        rw [xfputc, crlf]
        split_ifs with hc
        · simp only [writeChar, hbuff, update_eq_stored, hc]
          exact congrArg (Output.mk _ · _) (stored_append [chr '\r'] [chr '\n'])
        · simp [writeChar, hbuff, update_eq_stored]
      rw [put, List.foldl_cons, ← put, hchar, ih _ rfl, List.flatMap_cons]
      simp only [stored_append, List.length_append, Nat.add_assoc]

/-- `xsprintf` leaves from `buff` on the bytes that `xfprintf` sends to a
device, and a 0 behind them, and nothing else is changed. -/
theorem xsprintf_eq_xfprintf (buff : ℕ) (fmt : List Byte) (arp : List Arg) (s : Output δ) :
    xsprintf buff fmt arp s =
      (xfprintf record fmt arp ⟨[], s.mem, s.strptr⟩).map fun sent =>
        { s with mem := stored s.mem buff (sent.device ++ [0]), strptr := none } := by
  by_cases hmeans : ∃ text, Means fmt arp text
  · obtain ⟨text, htext⟩ := hmeans
    rw [xsprintf, xfprintf, xvfprintf_of_means htext, xvfprintf_of_means htext, put_record,
      put_none text _ rfl]
    simp only [Option.bind_eq_bind, Option.bind_some, Option.map_some, update_eq_stored,
      stored_append, List.nil_append]
  · have hnone {δ : Type} (func : Func δ) (s : Output δ) : xvfprintf func fmt arp s = none := by
      rw [Option.eq_none_iff_forall_ne_some]
      intro s' h
      obtain ⟨text, htext, -⟩ := means_of_xvfprintf h
      exact hmeans ⟨text, htext⟩
    rw [xsprintf, xfprintf, hnone, hnone]
    rfl

end Memory

end KyogenRV.Xprintf
