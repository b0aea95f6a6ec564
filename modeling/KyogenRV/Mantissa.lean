import Mathlib.Order.Bounds.Defs
import Mathlib.Tactic.Positivity
import Mathlib.Tactic.Ring

/-!
# Shifted mantissas

Numbers that are a mantissa of `m` bits shifted up.  A number that is shifted
down until it has `m` bits, and no further, is rounded down to the greatest of
them that is not above it.
-/

namespace KyogenRV.Mantissa

/-- A mantissa of `m` bits, shifted up. -/
def Shifted (m v : ℕ) : Prop := ∃ s e, s < 2 ^ m ∧ v = s * 2 ^ e

/-- Shifting `n` down by `k` leaves `m` bits, and shifting by less does not. -/
structure Fits (m n k : ℕ) : Prop where
  lt : n / 2 ^ k < 2 ^ m
  least : k = 0 ∨ 2 ^ m ≤ n / 2 ^ (k - 1)

variable {m n k v : ℕ}

theorem fits_zero (h : n < 2 ^ m) : Fits m n 0 :=
  ⟨by simpa using h, .inl rfl⟩

/-- One shift more. -/
theorem Fits.succ (h : Fits m (n / 2) k) (hn : 2 ^ m ≤ n) : Fits m n (k + 1) := by
  have hdiv : n / 2 / 2 ^ k = n / 2 ^ (k + 1) := by
    rw [Nat.div_div_eq_div_mul, pow_succ']
  refine ⟨hdiv ▸ h.lt, .inr ?_⟩
  rw [Nat.add_sub_cancel]
  obtain rfl | hleast := h.least
  · simpa using hn
  · obtain _ | k := k
    · simpa using hn
    · rw [Nat.add_sub_cancel, Nat.div_div_eq_div_mul, ← pow_succ'] at hleast
      exact hleast

theorem shifted_round (h : Fits m n k) : Shifted m (n / 2 ^ k * 2 ^ k) :=
  ⟨n / 2 ^ k, k, h.lt, rfl⟩

/-- What is shifted has its highest bit, but for the last bit shifted out. -/
theorem Fits.half_le (h : Fits m n k) : k = 0 ∨ 2 ^ m ≤ 2 * (n / 2 ^ k) + 1 := by
  obtain _ | k := k
  · exact .inl rfl
  · right
    have hleast : 2 ^ m ≤ n / 2 ^ k := h.least.resolve_left (Nat.succ_ne_zero k)
    rw [pow_succ, ← Nat.div_div_eq_div_mul]
    omega

/-- A shifted number is at least all that have fewer bits cut off. -/
theorem Fits.le_of_lt (h : Fits m n k) {s e : ℕ} (hs : s < 2 ^ m) (hek : e < k) :
    s * 2 ^ e ≤ n / 2 ^ k * 2 ^ k := by
  obtain _ | k := k
  · exact absurd hek (Nat.not_lt_zero e)
  obtain _ | m := m
  · rw [Nat.lt_one_iff.mp hs, Nat.zero_mul]
    exact Nat.zero_le _
  have hhalf : 2 ^ m ≤ n / 2 ^ (k + 1) := by
    have hleast := h.half_le.resolve_left (Nat.succ_ne_zero k)
    omega
  calc s * 2 ^ e ≤ 2 ^ (m + 1) * 2 ^ k :=
        Nat.mul_le_mul hs.le (Nat.pow_le_pow_right (by decide) (Nat.lt_succ_iff.mp hek))
    _ = 2 ^ m * 2 ^ (k + 1) := by ring
    _ ≤ n / 2 ^ (k + 1) * 2 ^ (k + 1) := Nat.mul_le_mul_right _ hhalf

theorem le_round (h : Fits m n k) (hv : Shifted m v) (hle : v ≤ n) : v ≤ n / 2 ^ k * 2 ^ k := by
  obtain ⟨s, e, hs, rfl⟩ := hv
  obtain hke | hek := Nat.lt_or_ge e k
  · exact h.le_of_lt hs hke
  · -- a multiple of `2 ^ k`
    obtain ⟨d, rfl⟩ := Nat.exists_eq_add_of_le hek
    have hmul : s * 2 ^ (k + d) = s * 2 ^ d * 2 ^ k := by ring
    rw [hmul] at hle ⊢
    exact Nat.mul_le_mul_right _ ((Nat.le_div_iff_mul_le (by positivity)).mpr hle)

/-- The rounded number is the greatest one. -/
theorem isGreatest_round (h : Fits m n k) :
    IsGreatest {v | Shifted m v ∧ v ≤ n} (n / 2 ^ k * 2 ^ k) :=
  ⟨⟨shifted_round h, Nat.div_mul_le_self n _⟩, fun _ hv => le_round h hv.1 hv.2⟩

end KyogenRV.Mantissa
