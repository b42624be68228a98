import Mathlib.Algebra.Order.Field.Rat
import Mathlib.Algebra.Ring.Parity
import Mathlib.Algebra.Order.Ring.Abs
import Mathlib.Data.Rat.Cast.Order
import Mathlib.Data.Nat.Cast.Order.Field
import Mathlib.Tactic.FieldSimp
import Mathlib.Tactic.Linarith
import Mathlib.Tactic.Ring

/-!
# Rounding half to even

The nearest integer to a rational number, and of two nearest ones the even one. `halfEven`
computes it for a fraction from one division with remainder.
-/

namespace HalfEven

/-- `n` is the nearest natural number to `x`, the even one where two are nearest. -/
structure IsHalfEven (x : ℚ) (n : ℕ) : Prop where
  near : |x - n| ≤ 1 / 2
  even : |x - n| = 1 / 2 → Even n

/-- The fraction `n / d`, rounded. -/
def halfEven (n d : ℕ) : ℕ :=
  let quotient := n / d
  let twice := 2 * (n % d)
  if d < twice ∨ (twice = d ∧ quotient % 2 = 1) then quotient + 1 else quotient

theorem IsHalfEven.unique {x : ℚ} {m n : ℕ} (hm : IsHalfEven x m) (hn : IsHalfEven x n) :
    m = n := by
  wlog h : m ≤ n generalizing m n
  · exact (this hn hm (by omega)).symm
  have hxm := abs_le.mp hm.near
  have hxn := abs_le.mp hn.near
  have hle : (n : ℚ) ≤ m + 1 := by linarith [hxm.2, hxn.1]
  have hle : n ≤ m + 1 := by exact_mod_cast hle
  rcases Nat.lt_or_ge m n with hlt | hge
  · -- The two are neighbours, so `x` is half way between them and both are even.
    obtain rfl : n = m + 1 := by omega
    push_cast at hxn
    have hx : x - m = 1 / 2 := by linarith [hxm.2, hxn.1]
    have hmeven := hm.even (by rw [hx]; norm_num)
    have hneven := hn.even (by push_cast; rw [show x - (m + 1 : ℚ) = -(1 / 2) by linarith]; norm_num)
    exact absurd hneven (by rw [Nat.even_add_one]; exact not_not.mpr hmeven)
  · exact Nat.le_antisymm h hge

section Fraction

variable {n d : ℕ}

theorem div_eq_quotient_add (hd : 0 < d) : (n / d : ℚ) = (n / d : ℕ) + (n % d : ℕ) / d := by
  have hd' : (d : ℚ) ≠ 0 := by exact_mod_cast hd.ne'
  have h : ((d * (n / d) + n % d : ℕ) : ℚ) = n := by rw [Nat.div_add_mod]
  field_simp
  push_cast at h ⊢
  linarith

/-- The remainder decides on which side of the half the fraction lies. -/
theorem remainder_lt_half_iff (hd : 0 < d) (r : ℕ) : (r / d : ℚ) < 1 / 2 ↔ 2 * r < d := by
  have hd' : (0 : ℚ) < d := by exact_mod_cast hd
  rw [div_lt_div_iff₀ hd' two_pos]
  constructor
  · intro h
    have : r * 2 < d := by exact_mod_cast (by linarith : (r : ℚ) * 2 < d)
    omega
  · intro h
    have : (2 * r : ℚ) < d := by exact_mod_cast h
    linarith

theorem remainder_eq_half_iff (hd : 0 < d) (r : ℕ) : (r / d : ℚ) = 1 / 2 ↔ 2 * r = d := by
  have hd' : (d : ℚ) ≠ 0 := by exact_mod_cast hd.ne'
  rw [div_eq_div_iff hd' two_ne_zero]
  constructor
  · intro h
    have : r * 2 = d := by exact_mod_cast (by linarith : (r : ℚ) * 2 = d)
    omega
  · intro h
    have : (2 * r : ℚ) = d := by exact_mod_cast h
    linarith

theorem isHalfEven_halfEven (n : ℕ) (hd : 0 < d) : IsHalfEven (n / d) (halfEven n d) := by
  have hd' : (0 : ℚ) < d := by exact_mod_cast hd
  have hsplit := @div_eq_quotient_add n d hd
  have hnonneg : (0 : ℚ) ≤ (n % d : ℕ) / d := by positivity
  have hlt_one : ((n % d : ℕ) : ℚ) / d < 1 := by
    rw [div_lt_one hd']
    exact_mod_cast Nat.mod_lt n hd
  have hlt := remainder_lt_half_iff hd (n % d)
  have heq := remainder_eq_half_iff hd (n % d)
  unfold halfEven
  dsimp only
  generalize n % d = r at *
  generalize n / d = q at *
  rw [hsplit]
  split_ifs with h
  · -- Above the half, or at it after an odd quotient: rounded up.
    have hge : (1 / 2 : ℚ) ≤ r / d := not_lt.mp (mt hlt.mp (by omega))
    have habs : |(q : ℚ) + r / d - (q + 1 : ℕ)| = 1 - r / d := by
      rw [show (q : ℚ) + r / d - (q + 1 : ℕ) = -(1 - r / d) by push_cast; ring, abs_neg,
        abs_of_nonneg (by linarith)]
    refine ⟨by rw [habs]; linarith, fun hhalf => ?_⟩
    rw [habs] at hhalf
    have := heq.mp (by linarith)
    rw [Nat.even_iff]
    omega
  · have hle : (r / d : ℚ) ≤ 1 / 2 := by
      rcases Nat.lt_or_ge (2 * r) d with hbelow | habove
      · exact (hlt.mpr hbelow).le
      · exact (heq.mpr (by omega)).le
    have habs : |(q : ℚ) + r / d - q| = r / d := by
      rw [add_sub_cancel_left, abs_of_nonneg hnonneg]
    refine ⟨by rw [habs]; exact hle, fun hhalf => ?_⟩
    have := heq.mp (habs ▸ hhalf)
    rw [Nat.even_iff]
    omega

theorem isHalfEven_div_iff (hd : 0 < d) (m : ℕ) : IsHalfEven (n / d) m ↔ m = halfEven n d := by
  constructor
  · exact fun h => h.unique (isHalfEven_halfEven n hd)
  · rintro rfl
    exact isHalfEven_halfEven n hd

end Fraction

/-- Rounding keeps the bounds that are integers. -/
theorem IsHalfEven.le_of_le {x : ℚ} {n a : ℕ} (h : IsHalfEven x n) (hx : (a : ℚ) ≤ x) : a ≤ n := by
  have hle : (a : ℚ) < n + 1 := by linarith [(abs_le.mp h.near).2]
  have hle : a < n + 1 := by exact_mod_cast hle
  omega

theorem IsHalfEven.ge_of_ge {x : ℚ} {n b : ℕ} (h : IsHalfEven x n) (hx : x ≤ b) : n ≤ b := by
  have hle : (n : ℚ) < b + 1 := by linarith [(abs_le.mp h.near).1]
  have hle : n < b + 1 := by exact_mod_cast hle
  omega

end HalfEven
