import Mathlib.Data.BitVec
import Mathlib.Data.List.Basic
import Mathlib.Logic.Function.Basic

/-!
# Byte memories with a wrapping index

A memory has a byte for each index of `w` bits.  Bytes are loaded and stored
from an index on, which counts up and wraps around, and a value is spelled with
its most significant byte first.
-/

namespace KyogenRV.BigEndian

variable {w : ℕ}

/-- A byte for each index. -/
abbrev Memory (w : ℕ) := BitVec w → BitVec 8

/-! ## Bytes -/

def loadBytes (mem : Memory w) : BitVec w → ℕ → List (BitVec 8)
  | _, 0 => []
  | i, n + 1 => mem i :: loadBytes mem (i + 1) n

def storeBytes : Memory w → BitVec w → List (BitVec 8) → Memory w
  | mem, _, [] => mem
  | mem, i, byte :: bytes => storeBytes (Function.update mem i byte) (i + 1) bytes

/-- How far an index is above another. -/
def offset (i j : BitVec w) : ℕ := (j - i).toNat

section Lemmas

variable {mem mem' : Memory w} {i j : BitVec w} {n : ℕ} {byte : BitVec 8}
variable {bytes : List (BitVec 8)}

@[simp]
theorem length_loadBytes : (loadBytes mem i n).length = n := by
  induction n generalizing i with
  | zero => rfl
  | succ n ih => rw [loadBytes, List.length_cons, ih]

theorem offset_self (i : BitVec w) : offset i i = 0 := by
  rw [offset, BitVec.sub_self]
  exact BitVec.toNat_zero

theorem offset_succ (h : j ≠ i) : offset (i + 1) j + 1 = offset i j := by
  have hne : (j - i).toNat ≠ 0 := fun hzero =>
    h (sub_eq_zero.mp (BitVec.eq_of_toNat_eq hzero))
  have hlt := (j - i).isLt
  have hone : (1 : BitVec w).toNat = 1 :=
    BitVec.toNat_one (Nat.pos_of_ne_zero fun hw => by subst hw; omega)
  rw [offset, offset, sub_add_eq_sub_sub, BitVec.toNat_sub, hone]
  have hsum : 2 ^ w - 1 + (j - i).toNat = 2 ^ w + ((j - i).toNat - 1) := by omega
  rw [hsum, Nat.add_mod_left, Nat.mod_eq_of_lt (by omega)]
  omega

/-- All the way around, but for the index itself. -/
theorem offset_succ_self (i : BitVec w) : offset (i + 1) i = 2 ^ w - 1 := by
  rw [offset, sub_add_eq_sub_sub, sub_self, zero_sub, BitVec.toNat_neg]
  obtain rfl | hw := Nat.eq_zero_or_pos w
  · rfl
  · have hpow : 1 < 2 ^ w := Nat.one_lt_two_pow hw.ne'
    have hone : (1 : BitVec w).toNat = 1 := BitVec.toNat_one hw
    rw [hone, Nat.mod_eq_of_lt (by omega)]

theorem offset_add {k : ℕ} (hk : k < 2 ^ w) : offset i (i + BitVec.ofNat w k) = k := by
  rw [offset, add_sub_cancel_left, BitVec.toNat_ofNat, Nat.mod_eq_of_lt hk]

/-- A store changes only the bytes from its index on. -/
theorem storeBytes_of_outside (h : bytes.length ≤ offset i j) :
    storeBytes mem i bytes j = mem j := by
  induction bytes generalizing mem i with
  | nil => rfl
  | cons byte bytes ih =>
      have hne : j ≠ i := by
        rintro rfl
        simp [offset] at h
      rw [storeBytes, ih (by have := offset_succ hne; simp at h; omega),
        Function.update_of_ne hne]

/-- The bytes that were stored, as long as none is stored over another. -/
theorem storeBytes_of_inside (hj : offset i j < bytes.length) (hlen : bytes.length ≤ 2 ^ w) :
    storeBytes mem i bytes j = bytes[offset i j] := by
  induction bytes generalizing mem i with
  | nil => exact absurd hj (Nat.not_lt_zero _)
  | cons byte bytes ih =>
      rw [storeBytes]
      by_cases hji : j = i
      · subst hji
        have hlast : bytes.length ≤ offset (j + 1) j := by
          rw [offset_succ_self]
          exact Nat.le_sub_one_of_lt hlen
        rw [storeBytes_of_outside hlast, Function.update_self]
        simp only [offset_self, List.getElem_cons_zero]
      · have hoff := offset_succ hji
        rw [ih (by simp at hj; omega) (by simp at hlen; omega)]
        simp only [← hoff, List.getElem_cons_succ]

theorem getElem_loadBytes {k : ℕ} (hk : k < (loadBytes mem i n).length) :
    (loadBytes mem i n)[k] = mem (i + BitVec.ofNat w k) := by
  induction n generalizing i k with
  | zero => exact absurd hk (Nat.not_lt_zero _)
  | succ n ih =>
      cases k with
      | zero => simp [loadBytes]
      | succ k =>
          simp only [loadBytes, List.getElem_cons_succ]
          rw [ih, BitVec.ofNat_add, add_assoc, add_comm (1 : BitVec w)]
          rfl

/-- What is stored is loaded again. -/
theorem loadBytes_storeBytes (hlen : bytes.length ≤ 2 ^ w) :
    loadBytes (storeBytes mem i bytes) i bytes.length = bytes := by
  apply List.ext_getElem length_loadBytes
  intro k hk hk'
  have hoff : offset i (i + BitVec.ofNat w k) = k := offset_add (by omega)
  rw [getElem_loadBytes, storeBytes_of_inside (by omega) hlen]
  simp only [hoff]

/-- Only the bytes that are loaded count. -/
theorem loadBytes_congr (h : ∀ k < n, mem (i + BitVec.ofNat w k) = mem' (i + BitVec.ofNat w k)) :
    loadBytes mem i n = loadBytes mem' i n := by
  apply List.ext_getElem (by simp)
  intro k hk hk'
  rw [getElem_loadBytes, getElem_loadBytes]
  exact h k (by simpa using hk)

end Lemmas

/-! ## Values -/

/-- The value that bytes spell. -/
def value (bytes : List (BitVec 8)) : ℕ :=
  bytes.foldl (fun acc byte => acc * 256 + byte.toNat) 0

/-- The last `n` bytes of a value. -/
def spell : ℕ → ℕ → List (BitVec 8)
  | 0, _ => []
  | n + 1, v => spell n (v / 256) ++ [BitVec.ofNat 8 v]

section Values

variable {n v : ℕ}

@[simp]
theorem length_spell : (spell n v).length = n := by
  induction n generalizing v with
  | zero => rfl
  | succ n ih => rw [spell, List.length_append, ih, List.length_singleton]

theorem value_snoc (bytes : List (BitVec 8)) (byte : BitVec 8) :
    value (bytes ++ [byte]) = value bytes * 256 + byte.toNat := by
  simp [value]

theorem value_spell : value (spell n v) = v % 256 ^ n := by
  induction n generalizing v with
  | zero => rw [Nat.pow_zero, Nat.mod_one, spell, value, List.foldl_nil]
  | succ n ih =>
      have hsplit : v % (256 * 256 ^ n) = v % 256 + 256 * (v / 256 % 256 ^ n) := Nat.mod_mul
      rw [spell, value_snoc, ih, BitVec.toNat_ofNat, pow_succ' 256 n, hsplit]
      omega

end Values

end KyogenRV.BigEndian
