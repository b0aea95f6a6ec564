import KyogenRV.Sw.Firmware
import KyogenRV.Sw.XprintfFormat

/-!
# The board

The peripherals of `qsys_mem_map.h` that `main.c` uses besides the I2C
controller.  The console is what its user sees, the serial line and the LEDs: a
character goes to the UART only when `TRDY` was seen since the last one, and
what is shown is always the beginning of a log.  The SDRAM is accessed by
aligned words inside its range.
-/

namespace KyogenRV.Board

open Dialogue Firmware Xprintf

def pio0Base : Word := 0x10080
def sdram0Base : Word := 0x800000
def sdram0End : Word := 0xffffff

/-! ## Output -/

section Output

variable {γ : Type}

/-- A string literal, with its terminating 0. -/
def literal (s : String) : List Byte := s.toList.map chr ++ [0]

def send : List Byte → Firmware γ Unit
  | [] => pure ()
  | c :: text => do
      uartPutc c
      send text

/-- `xprintf` behind `xdev_out(&uart_putc)`.  What it puts out does not depend on
the device, nor on the memory when there is one. -/
def xprintf (fmt : String) (arp : List Arg) : Firmware γ Unit := do
  let sent ← defined (xfprintf record (literal fmt) arp ⟨[], fun _ => 0, none⟩)
  send sent.device

end Output

/-! ### Formats of `main.c` -/

def literalText (s : String) : List Byte := s.toList.map chr

def signedText (v : Word) : List Byte :=
  (if v.toInt < 0 then [chr '-'] else []) ++ numberText false 10 v.toInt.natAbs

section Formats

variable {fmt text : List Byte} {arp : List Arg}

theorem means_append (chars : List Byte) (hchars : ∀ c ∈ chars, c ≠ 0 ∧ c ≠ chr '%')
    (h : Means fmt arp text) : Means (chars ++ fmt) arp (chars ++ text) := by
  induction chars with
  | nil => exact h
  | cons c chars ih =>
      exact .char c (hchars c List.mem_cons_self)
        (ih fun c' hc' => hchars c' (List.mem_cons_of_mem _ hc'))

theorem means_literal (s : String) (hs : ∀ c ∈ literalText s, c ≠ 0 ∧ c ≠ chr '%') :
    Means (literal s) arp (literalText s) := by
  have h : Means (literal s) arp (literalText s ++ []) := means_append _ hs (.ends [] arp)
  rwa [List.append_nil] at h

/-- Nothing between `%` and the type. -/
def bareParts : Parts := ⟨.none, .literal [], .none, .int⟩

theorem fill_bareParts (length : ℕ) (chars : List Byte) :
    bareParts.fill length chars = chars := by
  simp [bareParts, Parts.fill, Parts.left, Width.left, Width.value, decimalValue]

theorem means_bare (conv : Conversion) (hends : bareParts.Ends conv.type)
    (hvalid : conv.Valid bareParts) (h : Means fmt arp text) :
    Means (chr '%' :: conv.type :: fmt) (conv.args .int ++ arp) (conv.text bareParts ++ text) :=
  .directive ⟨bareParts, conv, hends, hvalid⟩ h

theorem means_d (v : Word) (h : Means fmt arp text) :
    Means (chr '%' :: chr 'd' :: fmt) (.int v :: arp) (signedText v ++ text) := by
  have hrange := toInt_range v
  have hends : bareParts.Ends (chr 'd') := by decide
  have hmeans := means_bare (.signed v.toInt) hends ⟨hrange.1, hrange.2, by omega⟩ h
  rw [Conversion.text, fill_bareParts, Conversion.args, Size.arg, BitVec.ofInt_toInt] at hmeans
  exact hmeans

theorem means_x (v : Word) (h : Means fmt arp text) :
    Means (chr '%' :: chr 'x' :: fmt) (.int v :: arp) (numberText true 16 v.toNat ++ text) := by
  have hends : bareParts.Ends (chr 'x') := by decide
  have hmeans := means_bare (.unsigned .x v.toNat) hends v.isLt h
  rw [Conversion.text, fill_bareParts, Conversion.args, Size.arg, ofInt_toNat] at hmeans
  exact hmeans

end Formats

/-! ## Console -/

inductive Sign where
  | char (c : Byte)
  | leds (value : Word)

structure Console where
  ready : Bool
  shown : List Sign

/-- One of the logs begins so. -/
def Begins (Log : List Sign → Prop) (shown : List Sign) : Prop :=
  ∃ log, Log log ∧ shown <+: log

def Console.contract (Log : List Sign → Prop) : Contract Access Word Console where
  allowed s
    | .get32 register => register = uart0Base + 8
    | .put32 register data =>
        register = uart0Base + 4 ∧ s.ready ∧ data.toNat < 256 ∧
            Begins Log (s.shown ++ [.char (data.setWidth 8)]) ∨
          register = pio0Base ∧ Begins Log (s.shown ++ [.leds data])
    | .getTimel => False
    | .getTimeh => False
  step s
    | .get32 _, status, s' => s' = { s with ready := status.getLsbD 5 }
    | .put32 register data, _, s' =>
        if register = uart0Base + 4 then s' = ⟨false, s.shown ++ [.char (data.setWidth 8)]⟩
        else s' = { s with shown := s.shown ++ [.leds data] }
    | .getTimel, _, s' => s' = s
    | .getTimeh, _, s' => s' = s
  mayFail _ := False

/-- The characters as they are sent. -/
def said (text : List Byte) : List Sign := (text.flatMap crlf).map .char

section Console

variable {γ : Type} {Log : List Sign → Prop} {store : γ} {s : Console}

theorem Begins.append_left {shown more : List Sign} (h : Begins Log (shown ++ more)) :
    Begins Log shown := by
  obtain ⟨log, hlog, hprefix⟩ := h
  exact ⟨log, hlog, (List.prefix_append _ _).trans hprefix⟩

theorem ready_bit (status : Word) : (status &&& 0x20 > 0) ↔ status.getLsbD 5 = true := by
  rw [show (0x20 : Word) = BitVec.twoPow 32 5 from rfl, BitVec.and_twoPow]
  cases status.getLsbD 5 <;> decide

theorem wp_uartPutc {c : Byte} {Q : Unit → γ → Console → Prop}
    (hlog : Begins Log (s.shown ++ [.char c])) (h : Q () store ⟨false, s.shown ++ [.char c]⟩) :
    wp (Console.contract Log) (uartPutc c) Q store s := by
  apply wp_bind
  apply wp_poll (fun s' => s'.shown = s.shown) rfl
  · exact fun _ _ => rfl
  rintro s₁ status s₂ hshown rfl
  by_cases hready : status &&& 0x20 > 0
  · rw [if_pos (by simpa using hready)]
    have hc : ((c.setWidth 32 : Word).setWidth 8) = c := by simp
    apply wp_put32
    · refine Or.inl ⟨rfl, (ready_bit status).mp hready, ?_, ?_⟩
      · have hlt := c.isLt
        rw [BitVec.toNat_setWidth]
        omega
      · simpa only [hshown, hc] using hlog
    · rintro _ s₃ hstep
      simp only [Console.contract, if_true, hshown, hc] at hstep
      exact hstep ▸ h
  · rw [if_neg (by simpa using hready)]
    exact hshown

theorem wp_send {text : List Byte} {Q : Unit → γ → Console → Prop}
    (hlog : Begins Log (s.shown ++ text.map .char))
    (h : ∀ ready, Q () store ⟨ready, s.shown ++ text.map .char⟩) :
    wp (Console.contract Log) (send text) Q store s := by
  induction text generalizing s with
  | nil =>
      obtain ⟨ready, shown⟩ := s
      apply wp_pure
      simpa using h ready
  | cons c text ih =>
      rw [List.map_cons, List.append_cons] at hlog h
      apply wp_bind
      apply wp_uartPutc hlog.append_left
      exact ih hlog h

/-- What a format means is shown. -/
theorem wp_xprintf {fmt : String} {arp : List Arg} {text : List Byte}
    {Q : Unit → γ → Console → Prop} (hmeans : Means (literal fmt) arp text)
    (hlog : Begins Log (s.shown ++ said text))
    (h : ∀ ready, Q () store ⟨ready, s.shown ++ said text⟩) :
    wp (Console.contract Log) (xprintf fmt arp) Q store s := by
  have hsent : xfprintf record (literal fmt) arp ⟨[], fun _ => 0, none⟩ =
      some ⟨text.flatMap crlf, fun _ => 0, none⟩ := by
    rw [xfprintf, xvfprintf_of_means hmeans, put_record, List.nil_append]
  rw [xprintf, hsent]
  exact wp_send hlog h

theorem wp_leds {value : Word} {Q : Unit → γ → Console → Prop}
    (hlog : Begins Log (s.shown ++ [.leds value]))
    (h : Q () store { s with shown := s.shown ++ [.leds value] }) :
    wp (Console.contract Log) (put32 pio0Base value) Q store s := by
  apply wp_put32 (Or.inr ⟨rfl, hlog⟩)
  rintro _ s' hstep
  rw [Console.contract] at hstep
  simp only [show pio0Base ≠ uart0Base + 4 by decide, if_false] at hstep
  exact hstep ▸ h

end Console

/-! ## SDRAM -/

/-- An aligned word in the range. -/
def IsSdram (address : Word) : Prop :=
  sdram0Base ≤ address ∧ address ≤ sdram0End ∧ address.toNat % 4 = 0

/-- How a memory moves with a word that is stored in it or loaded from it. -/
structure Ram (ρ : Type) where
  store : Word → Word → ρ → ρ → Prop
  load : Word → Word → ρ → ρ → Prop

def Ram.contract {ρ : Type} (ram : Ram ρ) : Contract Access Word ρ where
  allowed _
    | .get32 address => IsSdram address
    | .put32 address _ => IsSdram address
    | .getTimel => False
    | .getTimeh => False
  step r
    | .get32 address, data, r' => ram.load address data r r'
    | .put32 address data, _, r' => ram.store address data r r'
    | .getTimel, _, r' => r' = r
    | .getTimeh, _, r' => r' = r
  mayFail _ := False

def belowSdram : Access → Bool
  | .get32 address => address < sdram0Base
  | .put32 address _ => address < sdram0Base
  | .getTimel => true
  | .getTimeh => true

/-- The console and the memory. -/
def outputs {ρ : Type} (Log : List Sign → Prop) (ram : Ram ρ) :
    Contract Access Word (Console × ρ) :=
  (Console.contract Log).beside belowSdram ram.contract

section Outputs

variable {γ ρ α : Type} {Log : List Sign → Prop} {ram : Ram ρ} {store : γ} {s : Console} {r : ρ}

theorem belowSdram_of_console (s : Console) (access : Access)
    (h : (Console.contract Log).allowed s access) : belowSdram access = true := by
  cases access with
  | get32 register =>
      obtain rfl : register = uart0Base + 8 := h
      rfl
  | put32 register data =>
      obtain ⟨rfl, -⟩ | ⟨rfl, -⟩ := h
      · rfl
      · rfl
  | getTimel => exact h.elim
  | getTimeh => exact h.elim

theorem not_belowSdram (r : ρ) (access : Access) (h : ram.contract.allowed r access) :
    belowSdram access = false := by
  cases access with
  | get32 address => exact decide_eq_false (BitVec.not_lt.mpr h.1)
  | put32 address data => exact decide_eq_false (BitVec.not_lt.mpr h.1)
  | getTimel => exact h.elim
  | getTimeh => exact h.elim

theorem wp_onConsole {m : Firmware γ α} {Q : α → γ → Console × ρ → Prop}
    (h : wp (Console.contract Log) m (fun value store s => Q value store (s, r)) store s) :
    wp (outputs Log ram) m Q store (s, r) :=
  wp_left belowSdram_of_console h

theorem wp_onRam {m : Firmware γ α} {Q : α → γ → Console × ρ → Prop}
    (h : wp ram.contract m (fun value store r => Q value store (s, r)) store r) :
    wp (outputs Log ram) m Q store (s, r) :=
  wp_right not_belowSdram h

end Outputs

end KyogenRV.Board
