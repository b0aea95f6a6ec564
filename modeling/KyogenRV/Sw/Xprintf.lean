import KyogenRV.Mem.Bytes
import Mathlib.Data.List.Infix
import Mathlib.Logic.Function.Basic

/-!
# `xprintf.c`: output

The formatted output with the settings of `xprintf.h`: `\n` goes out as `\r\n`,
there are long long integers and no floating point.  A pointer to characters is
the list of the bytes from it to the end of its object, the terminating 0
included.  `none` is what C leaves undefined: an access outside an object, an
argument that is missing or of another type, an overflow of a signed integer.
-/

namespace KyogenRV.Xprintf

abbrev Byte := BitVec 8

/-- A character constant. -/
def chr (c : Char) : Byte := BitVec.ofNat 8 c.toNat

/-- The length of `str`. -/
def szbOutput : ℕ := 32

/-! ## Characters and strings -/

/-- What output changes: the device behind `func`, the memory, and where
`xsprintf` writes, if it does. -/
structure Output (δ : Type) where
  device : δ
  mem : ByteMem
  strptr : Option ℕ

/-- The pointer to the output function, or null. -/
abbrev Func (δ : Type) := Option (δ → Byte → δ)

section Put

variable {δ : Type} (func : Func δ)

/-- `xfputc` behind the test for `\n`. -/
def writeChar (chr : Byte) (s : Output δ) : Output δ :=
  match func, s.strptr with
  | some f, _ => { s with device := f s.device chr }
  | none, some p => { s with mem := Function.update s.mem p chr, strptr := some (p + 1) }
  | none, none => s

/-- The call for `\r` does not call again. -/
def xfputc (c : Byte) (s : Output δ) : Output δ :=
  writeChar func c (if c = chr '\n' then writeChar func (chr '\r') s else s)

def xfputs : List Byte → Output δ → Option (Output δ)
  | [], _ => none
  | c :: str, s => if c = 0 then some s else xfputs str (xfputc func c s)

/-- Calls of `xfputc` in a row. -/
def put (chars : List Byte) (s : Output δ) : Output δ :=
  chars.foldl (fun s c => xfputc func c s) s

end Put

/-! ## Arguments -/

/-- The size of an integer argument: bits 2 and 3 of `f`. -/
inductive Size
  | int
  | long
  | longLong
  deriving DecidableEq

def Size.bits : Size → ℕ
  | .int => 32
  | .long => 32
  | .longLong => 64

inductive Arg
  | int (v : BitVec 32)
  | long (v : BitVec 32)
  | longLong (v : BitVec 64)
  | str (p : List Byte)

/-! ## Sequences -/

/-- The format character in `c`, what follows it, and the arguments left. -/
structure Cursor where
  c : Byte
  fmt : List Byte
  arp : List Arg

/-- What the characters between `%` and the type set. -/
structure Parms where
  pad : Byte
  left : Bool
  w : ℕ
  prec : ℤ
  size : Size

def isDigit (c : Byte) : Bool := chr '0' ≤ c && c ≤ chr '9'

/-- The value of a digit, `c - '0'`. -/
def digitValue (c : Byte) : ℕ := (c - chr '0').toNat

/-- `w = w * 10 + c - '0'`, unsigned. -/
def widthDigit (w : ℕ) (c : Byte) : Option ℕ := some ((w * 10 + digitValue c) % 2 ^ 32)

/-- `prec = prec * 10 + c - '0'`, signed. -/
def precDigit (prec : ℤ) (c : Byte) : Option ℤ :=
  if prec * 10 + c.toNat < 2 ^ 31 then some (prec * 10 + digitValue c) else none

/-- `while (c >= '0' && c <= '9') { ..; c = *fmt++; }` -/
def digits {α : Type*} (digit : α → Byte → Option α) (value : α) (c : Byte) :
    List Byte → Option (α × Byte × List Byte)
  | [] => if isDigit c then none else some (value, c, [])
  | c' :: fmt =>
      if isDigit c then (digit value c).bind fun value => digits digit value c' fmt
      else some (value, c, c' :: fmt)

namespace Cursor

variable (s : Cursor)

/-- `c = *fmt++` -/
def next : Option Cursor :=
  match s.fmt with
  | [] => none
  | c :: fmt => some { s with c, fmt }

/-- `va_arg(arp, int)` -/
def vaInt : Option (BitVec 32 × Cursor) :=
  match s.arp with
  | .int v :: arp => some (v, { s with arp })
  | _ => none

/-- A loop over digits. -/
def number {α : Type*} (digit : α → Byte → Option α) (value : α) : Option (α × Cursor) :=
  (digits digit value s.c s.fmt).map fun (value, c, fmt) => (value, { s with c, fmt })

/-- `pad`, and whether the value is left justified. -/
def flags : Option ((Byte × Bool) × Cursor) :=
  if s.c = chr '0' then s.next.map fun s => ((chr '0', false), s)
  else if s.c = chr '-' then s.next.map fun s => ((chr ' ', true), s)
  else some ((chr ' ', false), s)

/-- The width in an argument: a negative one is left justified. -/
def starWidth (left : Bool) (n : BitVec 32) : Option (ℕ × Bool) :=
  if n.toInt < 0 then
    if n = BitVec.intMin 32 then none else some ((-n).toNat, true)
  else some (n.toNat, left)

def minimumWidth (left : Bool) : Option ((ℕ × Bool) × Cursor) :=
  if s.c = chr '*' then do
    let (n, s) ← s.vaInt
    let width ← starWidth left n
    let s ← s.next
    some (width, s)
  else (s.number widthDigit 0).map fun (w, s) => ((w, left), s)

def precision : Option (ℤ × Cursor) :=
  if s.c = chr '.' then do
    let s ← s.next
    if s.c = chr '*' then do
      let (n, s) ← s.vaInt
      let s ← s.next
      some (n.toInt, s)
    else s.number precDigit 0
  else some (-1, s)

def size : Option (Size × Cursor) :=
  if s.c = chr 'l' then do
    let s ← s.next
    if s.c = chr 'l' then s.next.map fun s => (.longLong, s) else some (.long, s)
  else some (.int, s)

def parms : Option (Parms × Cursor) := do
  let ((pad, left), s) ← s.flags
  let ((w, left), s) ← s.minimumWidth left
  let (prec, s) ← s.precision
  let (size, s) ← s.size
  some (⟨pad, left, w, prec, size⟩, s)

end Cursor

/-! ## Conversions -/

def radix (c : Byte) : Option ℕ :=
  if c = chr 'b' then some 2
  else if c = chr 'o' then some 8
  else if c = chr 'd' ∨ c = chr 'u' then some 10
  else if c = chr 'x' ∨ c = chr 'X' then some 16
  else none

/-- The argument as a long long: sign-extended for `d`. -/
def vaInteger (c : Byte) : Size → List Arg → Option (BitVec 64 × List Arg)
  | .longLong, .longLong v :: arp => some (v, arp)
  | .long, .long v :: arp => some (if c = chr 'd' then v.signExtend 64 else v.setWidth 64, arp)
  | .int, .int v :: arp => some (if c = chr 'd' then v.signExtend 64 else v.setWidth 64, arp)
  | _, _ => none

/-- The character of a digit. -/
def digitChar (c d : Byte) : Byte :=
  (if 9 < d then d + (if c = chr 'x' then 0x27 else 0x07) else d) + chr '0'

/-- The digits put in `str`, lowest first, with `room` bytes left. -/
def valueString (c : Byte) (r : ℕ) : (room : ℕ) → (vs : ℕ) → List Byte
  | 0, _ => []
  | room + 1, vs =>
      digitChar c (BitVec.ofNat 8 (vs % r)) ::
        if vs / r ≠ 0 then valueString c r room (vs / r) else []

/-- The pads around what is put out, which counts as `j` characters. -/
def padded (p : Parms) (j : ℕ) (chars : List Byte) : List Byte :=
  let left := if p.left then 0 else p.w - j
  List.replicate left p.pad ++ chars ++ List.replicate (p.w - (j + left)) (chr ' ')

/-- `v = 0 - v; f |= 1;` -/
def negative (c : Byte) (v : BitVec 64) : Option (BitVec 64 × List Byte) :=
  if c = chr 'd' ∧ v.toInt < 0 then
    if v = BitVec.intMin 64 then none else some (-v, [chr '-'])
  else some (v, [])

def numeral (p : Parms) (c : Byte) (r : ℕ) (v : BitVec 64) : Option (List Byte) := do
  let (v, sign) ← negative c v
  let str := valueString c r szbOutput v.toNat ++ sign
  if szbOutput < str.length then none else some (padded p str.length str.reverse)

def strlen : List Byte → Option ℕ
  | [] => none
  | c :: p => if c = 0 then some 0 else (strlen p).map (· + 1)

/-- `while (*p && prec--) xfputc(func, *p++);` -/
def stringChars (prec : ℤ) : List Byte → Option (List Byte)
  | [] => none
  | c :: p =>
      if c = 0 then some []
      else if prec = -2 ^ 31 then none
      else if prec = 0 then some []
      else (stringChars (prec - 1) p).map (c :: ·)

/-- What the conversion of type `c` puts out, and the arguments left. -/
def convert (p : Parms) (s : Cursor) : Option (List Byte × List Arg) :=
  match radix s.c with
  | some r => do
      let (v, arp) ← vaInteger s.c p.size s.arp
      let chars ← numeral p s.c r v
      some (chars, arp)
  | none =>
      if s.c = chr 'c' then s.vaInt.map fun (v, s) => ([v.setWidth 8], s.arp)
      else if s.c = chr 's' then
        match s.arp with
        | .str q :: arp => do
            let j ← strlen q
            let chars ← stringChars p.prec q
            some (padded p j chars, arp)
        | _ => none
      else some ([s.c], s.arp)

/-- What follows a `%`.  Nothing comes out when the format ends there. -/
def sequence (s : Cursor) : Option (Option (List Byte) × Cursor) := do
  let s ← s.next
  let (p, s) ← s.parms
  if s.c = 0 then some (none, s)
  else do
    let (chars, arp) ← convert p s
    some (some chars, { s with arp })

/-! ## The main loop -/

section Reads

variable {s s' : Cursor}

theorem Cursor.next_reads (h : s.next = some s') : s'.fmt.length < s.fmt.length := by
  cases hfmt : s.fmt with
  | nil => simp [next, hfmt] at h
  | cons c fmt =>
      simp only [next, hfmt, Option.some.injEq] at h
      rw [← h]
      exact Nat.lt_succ_self _

theorem digits_reads {α : Type*} {digit : α → Byte → Option α} {value value' : α} {c c' : Byte}
    {fmt fmt' : List Byte} (h : digits digit value c fmt = some (value', c', fmt')) :
    fmt'.length ≤ fmt.length := by
  induction fmt generalizing value c with
  | nil =>
      simp only [digits] at h
      split_ifs at h
      simp_all
  | cons d fmt ih =>
      simp only [digits] at h
      split_ifs at h
      · obtain ⟨_, _, h⟩ := Option.bind_eq_some_iff.mp h
        exact (ih h).trans (Nat.le_succ _)
      · simp_all

theorem Cursor.vaInt_reads {n : BitVec 32} (h : s.vaInt = some (n, s')) :
    s'.fmt.length = s.fmt.length := by
  rw [vaInt] at h
  split at h
  · simp only [Option.some.injEq, Prod.mk.injEq] at h
    rw [← h.2]
  · simp at h

theorem Cursor.number_reads {α : Type*} {digit : α → Byte → Option α} {value value' : α}
    (h : s.number digit value = some (value', s')) : s'.fmt.length ≤ s.fmt.length := by
  obtain ⟨⟨v, c, fmt⟩, hdigits, heq⟩ := Option.map_eq_some_iff.mp h
  simp only [Prod.mk.injEq] at heq
  rw [← heq.2]
  exact digits_reads hdigits

theorem Cursor.flags_reads {flag : Byte × Bool} (h : s.flags = some (flag, s')) :
    s'.fmt.length ≤ s.fmt.length := by
  rw [flags] at h
  split_ifs at h
  · obtain ⟨t, hnext, heq⟩ := Option.map_eq_some_iff.mp h
    rw [← (Prod.mk.inj heq).2]
    exact (next_reads hnext).le
  · obtain ⟨t, hnext, heq⟩ := Option.map_eq_some_iff.mp h
    rw [← (Prod.mk.inj heq).2]
    exact (next_reads hnext).le
  · rw [← (Prod.mk.inj (Option.some.inj h)).2]

theorem Cursor.minimumWidth_reads {left : Bool} {width : ℕ × Bool}
    (h : s.minimumWidth left = some (width, s')) : s'.fmt.length ≤ s.fmt.length := by
  rw [minimumWidth] at h
  split_ifs at h
  · obtain ⟨⟨n, t⟩, harg, h⟩ := Option.bind_eq_some_iff.mp h
    obtain ⟨w, -, h⟩ := Option.bind_eq_some_iff.mp h
    obtain ⟨t', hnext, h⟩ := Option.bind_eq_some_iff.mp h
    rw [← (Prod.mk.inj (Option.some.inj h)).2]
    exact (next_reads hnext).le.trans (vaInt_reads harg).le
  · obtain ⟨⟨w, t⟩, hnumber, heq⟩ := Option.map_eq_some_iff.mp h
    rw [← (Prod.mk.inj heq).2]
    exact number_reads hnumber

theorem Cursor.precision_reads {prec : ℤ} (h : s.precision = some (prec, s')) :
    s'.fmt.length ≤ s.fmt.length := by
  rw [precision] at h
  split_ifs at h
  · obtain ⟨t, hnext, h⟩ := Option.bind_eq_some_iff.mp h
    refine le_trans ?_ (next_reads hnext).le
    split_ifs at h
    · obtain ⟨⟨n, t'⟩, harg, h⟩ := Option.bind_eq_some_iff.mp h
      obtain ⟨t'', hnext', h⟩ := Option.bind_eq_some_iff.mp h
      rw [← (Prod.mk.inj (Option.some.inj h)).2]
      exact (next_reads hnext').le.trans (vaInt_reads harg).le
    · exact number_reads h
  · rw [← (Prod.mk.inj (Option.some.inj h)).2]

theorem Cursor.size_reads {size : Size} (h : s.size = some (size, s')) :
    s'.fmt.length ≤ s.fmt.length := by
  rw [Cursor.size] at h
  split_ifs at h
  · obtain ⟨t, hnext, h⟩ := Option.bind_eq_some_iff.mp h
    refine le_trans ?_ (next_reads hnext).le
    split_ifs at h
    · obtain ⟨t', hnext', heq⟩ := Option.map_eq_some_iff.mp h
      rw [← (Prod.mk.inj heq).2]
      exact (next_reads hnext').le
    · rw [← (Prod.mk.inj (Option.some.inj h)).2]
  · rw [← (Prod.mk.inj (Option.some.inj h)).2]

theorem sequence_reads {chars : Option (List Byte)} (h : sequence s = some (chars, s')) :
    s'.fmt.length < s.fmt.length := by
  obtain ⟨t, hnext, h⟩ := Option.bind_eq_some_iff.mp h
  refine lt_of_le_of_lt ?_ (Cursor.next_reads hnext)
  obtain ⟨⟨p, u⟩, hparms, h⟩ := Option.bind_eq_some_iff.mp h
  obtain ⟨⟨flag, u₁⟩, hflags, hparms⟩ := Option.bind_eq_some_iff.mp hparms
  obtain ⟨⟨width, u₂⟩, hwidth, hparms⟩ := Option.bind_eq_some_iff.mp hparms
  obtain ⟨⟨prec, u₃⟩, hprec, hparms⟩ := Option.bind_eq_some_iff.mp hparms
  obtain ⟨⟨size, u₄⟩, hsize, hparms⟩ := Option.bind_eq_some_iff.mp hparms
  rw [(Prod.mk.inj (Option.some.inj hparms)).2] at hsize
  have hu : u.fmt.length ≤ t.fmt.length :=
    (Cursor.size_reads hsize).trans ((Cursor.precision_reads hprec).trans
      ((Cursor.minimumWidth_reads hwidth).trans (Cursor.flags_reads hflags)))
  refine le_trans ?_ hu
  simp only at h
  split_ifs at h
  · rw [(Prod.mk.inj (Option.some.inj h)).2]
  · obtain ⟨converted, -, h⟩ := Option.bind_eq_some_iff.mp h
    rw [← (Prod.mk.inj (Option.some.inj h)).2]

end Reads

section Loop

variable {δ : Type} (func : Func δ)

/-- Each turn reads at least one character. -/
def xvfprintf (fmt : List Byte) (arp : List Arg) (s : Output δ) : Option (Output δ) :=
  match fmt with
  | [] => none
  | c :: fmt =>
      if c = 0 then some s
      else if c ≠ chr '%' then xvfprintf fmt arp (xfputc func c s)
      else
        match _h : sequence ⟨c, fmt, arp⟩ with
        | none => none
        | some (none, _) => some s
        | some (some chars, s') => xvfprintf s'.fmt s'.arp (put func chars s)
termination_by fmt.length
decreasing_by
  · exact Nat.lt_succ_self _
  · exact (sequence_reads _h).trans (Nat.lt_succ_self _)

def xfprintf (fmt : List Byte) (arp : List Arg) (s : Output δ) : Option (Output δ) :=
  xvfprintf func fmt arp s

/-- The format and the strings are not in the buffer. -/
def xsprintf (buff : ℕ) (fmt : List Byte) (arp : List Arg) (s : Output δ) :
    Option (Output δ) := do
  let s ← xvfprintf none fmt arp { s with strptr := some buff }
  let p ← s.strptr
  some { s with mem := Function.update s.mem p 0, strptr := none }

end Loop

end KyogenRV.Xprintf
