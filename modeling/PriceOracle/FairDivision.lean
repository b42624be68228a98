import Mathlib.Algebra.BigOperators.Group.List.Basic
import Mathlib.Tactic

/-!
# Even division

A total divided among a number of parts: each part has the quotient, and the remainder goes to
the first ones.
-/

namespace FairDivision

def share (total count index : ℕ) : ℕ := total / count + if index < total % count then 1 else 0

def shares (total count : ℕ) : List ℕ := (List.range count).map (share total count)

theorem length_shares (total count : ℕ) : (shares total count).length = count := by
  rw [shares, List.length_map, List.length_range]

/-- The parts up to `count` hold the quotient each and as much of the remainder as reaches them. -/
theorem sum_map_range (base remainder count : ℕ) :
    ((List.range count).map fun index => base + if index < remainder then 1 else 0).sum =
      count * base + min remainder count := by
  induction count with
  | zero => simp
  | succ count ih =>
    rw [List.range_succ, List.map_append, List.sum_append, ih, List.map_singleton, List.sum_singleton, Nat.succ_mul]
    by_cases h : count < remainder
    · rw [if_pos h]
      omega
    · rw [if_neg h]
      omega

theorem sum_shares (total : ℕ) {count : ℕ} (hcount : 0 < count) : (shares total count).sum = total := by
  have hlt := Nat.mod_lt total hcount
  have hsum := sum_map_range (total / count) (total % count) count
  have hdiv := Nat.div_add_mod total count
  rw [min_eq_left hlt.le, hdiv] at hsum
  exact hsum

theorem share_zero (count index : ℕ) : share 0 count index = 0 := by simp [share]

/-- A part does not shrink when the total grows. -/
theorem share_mono {total total' : ℕ} (h : total ≤ total') (count index : ℕ) :
    share total count index ≤ share total' count index := by
  have hquotient : total / count ≤ total' / count := Nat.div_le_div_right h
  have htotal := Nat.div_add_mod total count
  have htotal' := Nat.div_add_mod total' count
  unfold share
  by_cases heq : total / count = total' / count
  · rw [heq] at htotal ⊢
    split_ifs <;> omega
  · have hlt : total / count < total' / count := lt_of_le_of_ne hquotient heq
    split_ifs <;> omega

/-- The first part is there as soon as the total is. -/
theorem share_first_pos {total count : ℕ} (htotal : 0 < total) : 0 < share total count 0 := by
  have hmod := Nat.div_add_mod total count
  unfold share
  by_cases hquotient : total / count = 0
  · rw [hquotient, Nat.mul_zero] at hmod
    rw [if_pos (by omega)]
    omega
  · exact Nat.add_pos_left (Nat.pos_of_ne_zero hquotient) _

/-- A second part that is empty leaves at most one to the first. -/
theorem le_one_of_share_second {total count : ℕ} (h : share total count 1 = 0) : total ≤ 1 := by
  have hmod := Nat.div_add_mod total count
  unfold share at h
  obtain ⟨hquotient, -⟩ := Nat.add_eq_zero_iff.mp h
  rw [hquotient, Nat.mul_zero] at hmod
  by_cases hlt : 1 < total % count
  · rw [if_pos hlt] at h
    omega
  · omega

theorem share_one_of_pos {count index : ℕ} (hcount : 1 < count) (hindex : 0 < index) : share 1 count index = 0 := by
  unfold share
  rw [Nat.div_eq_of_lt hcount, Nat.mod_eq_of_lt hcount, if_neg (by omega)]

theorem share_le_succ (total count i j : ℕ) : share total count i ≤ share total count j + 1 := by
  unfold share
  split_ifs <;> omega

theorem shares_le_succ {total count : ℕ} {a b : ℕ} (ha : a ∈ shares total count) (hb : b ∈ shares total count) :
    a ≤ b + 1 := by
  obtain ⟨i, -, rfl⟩ := List.mem_map.mp ha
  obtain ⟨j, -, rfl⟩ := List.mem_map.mp hb
  exact share_le_succ total count i j

end FairDivision
