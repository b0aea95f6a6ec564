import Mathlib.Data.BitVec

/-!
# Little-endian byte memory

A memory is a byte for each address.  A value of `n` bytes is read and written
with its least significant byte first.
-/

namespace KyogenRV

/-- A byte for each address. -/
abbrev ByteMem := ℕ → BitVec 8

namespace ByteMem

/-- The `n` bytes from `addr` on. -/
def load (mem : ByteMem) (addr : ℕ) : (n : ℕ) → BitVec (8 * n)
  | 0 => 0
  | n + 1 => load mem (addr + 1) n ++ mem addr

variable (mem mem' : ByteMem) (addr n : ℕ)

/-- The memory with the `n` bytes from `addr` on replaced. -/
def store (value : BitVec (8 * n)) : ByteMem := fun byte =>
  if addr ≤ byte ∧ byte < addr + n then value.extractLsb' (8 * (byte - addr)) 8 else mem byte

/-- The two memories agree below `size`. -/
def AgreeBelow (size : ℕ) : Prop := ∀ byte < size, mem byte = mem' byte

section Lemmas

variable {mem mem' addr n} {size : ℕ} (value : BitVec (8 * n))

theorem getLsbD_load {i : ℕ} (hi : i < 8 * n) :
    (mem.load addr n).getLsbD i = (mem (addr + i / 8)).getLsbD (i % 8) := by
  induction n generalizing addr i with
  | zero => exact absurd hi (by omega)
  | succ n ih =>
      rw [load, BitVec.getLsbD_append]
      by_cases hlow : i < 8
      · rw [if_pos hlow, Nat.div_eq_of_lt hlow, Nat.mod_eq_of_lt hlow, Nat.add_zero]
      · have hdiv : addr + 1 + (i - 8) / 8 = addr + i / 8 := by omega
        have hmod : (i - 8) % 8 = i % 8 := by omega
        rw [if_neg hlow, ih (by omega), hdiv, hmod]

theorem load_congr (h : mem.AgreeBelow mem' size) (hsize : addr + n ≤ size) :
    mem.load addr n = mem'.load addr n := by
  refine BitVec.eq_of_getLsbD_eq fun i hi => ?_
  rw [getLsbD_load hi, getLsbD_load hi, h (addr + i / 8) (by omega)]

/-- A store changes only the bytes it names. -/
theorem store_of_outside {byte : ℕ} (hbyte : byte < addr ∨ addr + n ≤ byte) :
    mem.store addr n value byte = mem byte :=
  if_neg (by omega)

theorem store_idem : (mem.store addr n value).store addr n value = mem.store addr n value := by
  funext byte
  by_cases hin : addr ≤ byte ∧ byte < addr + n
  · rw [store, store, if_pos hin, if_pos hin]
  · rw [store, if_neg hin]

theorem AgreeBelow.refl : mem.AgreeBelow mem size := fun _ _ => rfl

theorem AgreeBelow.trans {mem'' : ByteMem} (h : mem.AgreeBelow mem' size)
    (h' : mem'.AgreeBelow mem'' size) : mem.AgreeBelow mem'' size :=
  fun byte hbyte => (h byte hbyte).trans (h' byte hbyte)

theorem AgreeBelow.store (h : mem.AgreeBelow mem' size) :
    (mem.store addr n value).AgreeBelow (mem'.store addr n value) size := by
  intro byte hbyte
  by_cases hin : addr ≤ byte ∧ byte < addr + n
  · rw [ByteMem.store, ByteMem.store, if_pos hin, if_pos hin]
  · rw [ByteMem.store, ByteMem.store, if_neg hin, if_neg hin, h byte hbyte]

end Lemmas

end ByteMem

end KyogenRV
