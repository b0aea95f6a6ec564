import Mathlib.Data.BitVec
import Mathlib.Logic.Function.Basic
import Mathlib.Tactic.SplitIfs

/-!
# Counters in two halves

A counter of twice the word width, kept as an upper and a lower word: how it
is incremented by a carry from the lower half into the upper one, and how one
half is replaced.
-/

namespace SplitCounter

variable {w : ℕ}

def high (value : BitVec (w + w)) : BitVec w := value.extractLsb' w w

def low (value : BitVec (w + w)) : BitVec w := value.extractLsb' 0 w

inductive Half where
  | low | high
  deriving DecidableEq

/-- The counter with one half replaced. -/
def put (value : BitVec (w + w)) (word : BitVec w) : Half → BitVec (w + w)
  | .low => high value ++ word
  | .high => word ++ low value

section Append

variable (hi lo word : BitVec w)

theorem toNat_append : (hi ++ lo).toNat = hi.toNat * 2 ^ w + lo.toNat := by
  rw [BitVec.toNat_append, ← Nat.shiftLeft_add_eq_or_of_lt lo.isLt, Nat.shiftLeft_eq]

@[simp]
theorem high_append : high (hi ++ lo) = hi := BitVec.extractLsb'_append_eq_left

@[simp]
theorem low_append : low (hi ++ lo) = lo := BitVec.extractLsb'_append_eq_right

theorem high_append_low (value : BitVec (w + w)) : high value ++ low value = value :=
  BitVec.extractLsb'_append_extractLsb'

theorem put_low : put (hi ++ lo) word .low = hi ++ word := by
  rw [put, high_append]

theorem put_high : put (hi ++ lo) word .high = word ++ lo := by
  rw [put, low_append]

theorem eq_allOnes_iff : lo = BitVec.allOnes w ↔ lo.toNat + 1 = 2 ^ w := by
  have hpos : 0 < 2 ^ w := Nat.two_pow_pos w
  rw [← BitVec.toNat_inj, BitVec.toNat_allOnes]
  omega

theorem toNat_one_of_lt {n : ℕ} (h : 1 < 2 ^ n) : (1 : BitVec n).toNat = 1 :=
  (BitVec.toNat_ofNat 1 n).trans (Nat.mod_eq_of_lt h)

/-- Incrementing the counter carries into the upper half exactly when the lower
half is all ones. -/
theorem append_add_one :
    (hi ++ lo) + (1 : BitVec (w + w)) =
      (if lo = BitVec.allOnes w then hi + 1 else hi) ++ (lo + 1) := by
  cases w with
  | zero => exact BitVec.eq_of_toNat_eq (by simp)
  | succ n =>
      have hlow := lo.isLt
      have hword : 1 < 2 ^ (n + 1) := Nat.one_lt_two_pow (Nat.succ_ne_zero n)
      have hcounter : 1 < 2 ^ (n + 1 + (n + 1)) := Nat.one_lt_two_pow (Nat.succ_ne_zero _)
      have hsquare : 2 ^ (n + 1 + (n + 1)) = 2 ^ (n + 1) * 2 ^ (n + 1) := Nat.pow_add ..
      apply BitVec.eq_of_toNat_eq
      rw [BitVec.toNat_add, toNat_append, toNat_append, BitVec.toNat_add,
        toNat_one_of_lt hword, toNat_one_of_lt hcounter, hsquare]
      split_ifs with hones
      · rw [eq_allOnes_iff] at hones
        rw [Nat.add_assoc, hones, Nat.mod_self, Nat.add_zero (_ * _), ← Nat.succ_mul,
          Nat.mul_mod_mul_right, BitVec.toNat_add, toNat_one_of_lt hword]
      · rw [eq_allOnes_iff] at hones
        have hhigh := hi.isLt
        have hfit : lo.toNat + 1 < 2 ^ (n + 1) := by omega
        rw [Nat.add_assoc, Nat.mod_eq_of_lt hfit, Nat.mod_eq_of_lt]
        calc hi.toNat * 2 ^ (n + 1) + (lo.toNat + 1)
            < hi.toNat * 2 ^ (n + 1) + 2 ^ (n + 1) := Nat.add_lt_add_left hfit _
          _ = (hi.toNat + 1) * 2 ^ (n + 1) := (Nat.succ_mul ..).symm
          _ ≤ 2 ^ (n + 1) * 2 ^ (n + 1) := Nat.mul_le_mul_right _ hhigh

end Append

/-! ## Reading the halves one after the other -/

section Torn

variable (first second : BitVec (w + w))

theorem append_le_iff_low (hi lo lo' : BitVec w) : hi ++ lo ≤ hi ++ lo' ↔ lo ≤ lo' := by
  rw [BitVec.le_def, BitVec.le_def, toNat_append, toNat_append]
  omega

theorem append_le_iff_high (hi hi' lo : BitVec w) : hi ++ lo ≤ hi' ++ lo ↔ hi ≤ hi' := by
  have hpos : 0 < 2 ^ w := Nat.two_pow_pos w
  rw [BitVec.le_def, BitVec.le_def, toNat_append, toNat_append, Nat.add_le_add_iff_right,
    Nat.mul_le_mul_right_iff hpos]

/-- Neither half is smaller at the second read. -/
def Rises : Prop := low first ≤ low second ∧ high first ≤ high second

instance : Decidable (Rises first second) := inferInstanceAs (Decidable (_ ∧ _))

/-- A value composed of halves read at two times, the upper one first, lies
between the counter's values at these times exactly if neither half falls. -/
theorem between_iff_high_first :
    first ≤ high first ++ low second ∧ high first ++ low second ≤ second ↔
      Rises first second := by
  have hfirst := append_le_iff_low (high first) (low first) (low second)
  have hsecond := append_le_iff_high (high first) (high second) (low second)
  rw [high_append_low] at hfirst hsecond
  rw [hfirst, hsecond, Rises]

theorem between_iff_low_first :
    first ≤ high second ++ low first ∧ high second ++ low first ≤ second ↔
      Rises first second := by
  have hfirst := append_le_iff_high (high first) (high second) (low first)
  have hsecond := append_le_iff_low (high second) (low first) (low second)
  rw [high_append_low] at hfirst hsecond
  rw [hfirst, hsecond, Rises, And.comm]

/-- Between its values at two ticks a counter had every value. -/
theorem exists_tick {n : ℕ} {start value : BitVec n} {ticks : ℕ} (hfirst : start ≤ value)
    (hsecond : value ≤ start + BitVec.ofNat n ticks) :
    ∃ passed ≤ ticks, value = start + BitVec.ofNat n passed := by
  rw [BitVec.le_def] at hfirst hsecond
  refine ⟨value.toNat - start.toNat, ?_, ?_⟩
  · have hmod : (start + BitVec.ofNat n ticks).toNat ≤ start.toNat + ticks := by
      rw [BitVec.toNat_add, BitVec.toNat_ofNat, Nat.add_mod_mod]
      exact Nat.mod_le ..
    omega
  · apply BitVec.eq_of_toNat_eq
    rw [BitVec.toNat_add, BitVec.toNat_ofNat, Nat.add_mod_mod, Nat.add_sub_cancel' hfirst,
      Nat.mod_eq_of_lt value.isLt]

/-- The difference of two values of a counter is at most the ticks between them. -/
theorem toNat_sub_le {n : ℕ} (start : BitVec n) {earlier later : ℕ} (hle : earlier ≤ later) :
    (start + BitVec.ofNat n later - (start + BitVec.ofNat n earlier)).toNat ≤ later - earlier := by
  have hsplit : start + BitVec.ofNat n later - (start + BitVec.ofNat n earlier) =
      BitVec.ofNat n (later - earlier) := by
    conv_lhs => rw [← Nat.add_sub_cancel' hle, BitVec.ofNat_add, ← BitVec.add_assoc]
    rw [BitVec.add_comm, BitVec.add_sub_cancel]
  rw [hsplit, BitVec.toNat_ofNat]
  exact Nat.mod_le ..

end Torn

/-! ## A bank of counters -/

section Bank

variable {K : Type*} [DecidableEq K]

/-- What one clock edge does to a bank of counters: which of them advance, and
the half that an access then replaces. -/
structure Edge (K : Type*) (w : ℕ) where
  advances : K → Bool
  access : Option (K × Half × BitVec w)

variable (values : K → BitVec (w + w)) (edge : Edge K w)

def advance (k : K) : BitVec (w + w) := if edge.advances k then values k + 1 else values k

/-- The counters after the edge. -/
def count : K → BitVec (w + w) :=
  edge.access.elim (advance values edge) fun access =>
    Function.update (advance values edge) access.1
      (put (advance values edge access.1) access.2.2 access.2.1)

variable {values edge}

/-- A counter that is not accessed only advances. -/
theorem count_of_ne {k : K} (hne : ∀ half word, edge.access ≠ some (k, half, word)) :
    count values edge k = advance values edge k := by
  rw [count]
  cases haccess : edge.access with
  | none => rfl
  | some access =>
      refine Function.update_of_ne (fun heq => ?_) ..
      rw [haccess] at hne
      exact hne access.2.1 access.2.2 (by rw [heq])

end Bank

end SplitCounter
