import Mathlib.Data.List.Sort
import Mathlib.Order.Basic

/-!
# Ranks in sorted lists

How many elements of a sorted list are at most, and at least, the one at a rank; and what
follows when some of the elements are not trusted: an element whose rank leaves more elements
on one side than are untrusted is bounded on that side by a trusted one.
-/

namespace Ranks

variable {α : Type} {sorted trusted untrusted : List α} {i : ℕ}

section Order

variable [Preorder α]

/-- Everything before an element of a sorted list is at most that element. -/
theorem le_getElem_of_mem_take (hsorted : sorted.Pairwise (· ≤ ·)) (hi : i < sorted.length)
    {x : α} (hx : x ∈ sorted.take (i + 1)) : x ≤ sorted[i] := by
  obtain ⟨j, hj, rfl⟩ := List.getElem_of_mem hx
  rw [List.length_take] at hj
  rw [List.getElem_take]
  rcases Nat.lt_or_ge j i with hlt | hge
  · exact List.pairwise_iff_getElem.mp hsorted j i _ hi hlt
  · obtain rfl : j = i := by omega
    exact le_refl _

theorem getElem_le_of_mem_drop (hsorted : sorted.Pairwise (· ≤ ·)) (hi : i < sorted.length)
    {x : α} (hx : x ∈ sorted.drop i) : sorted[i] ≤ x := by
  obtain ⟨j, hj, rfl⟩ := List.getElem_of_mem hx
  rw [List.length_drop] at hj
  rw [List.getElem_drop]
  rcases Nat.eq_zero_or_pos j with rfl | hpos
  · exact le_refl _
  · exact List.pairwise_iff_getElem.mp hsorted i (i + j) hi _ (by omega)

variable [DecidableLE α]

theorem succ_le_countP_le (hsorted : sorted.Pairwise (· ≤ ·)) (hi : i < sorted.length) :
    i + 1 ≤ sorted.countP fun x => decide (x ≤ sorted[i]) := by
  have htake : (sorted.take (i + 1)).countP (fun x => decide (x ≤ sorted[i])) =
      (sorted.take (i + 1)).length :=
    List.countP_eq_length.mpr fun x hx => decide_eq_true (le_getElem_of_mem_take hsorted hi hx)
  have hlength : (sorted.take (i + 1)).length = i + 1 := by
    rw [List.length_take]
    omega
  calc i + 1 = (sorted.take (i + 1)).countP fun x => decide (x ≤ sorted[i]) := by
        rw [htake, hlength]
    _ ≤ sorted.countP fun x => decide (x ≤ sorted[i]) := (List.take_sublist _ _).countP_le

theorem length_sub_le_countP_ge (hsorted : sorted.Pairwise (· ≤ ·)) (hi : i < sorted.length) :
    sorted.length - i ≤ sorted.countP fun x => decide (sorted[i] ≤ x) := by
  have hdrop : (sorted.drop i).countP (fun x => decide (sorted[i] ≤ x)) = (sorted.drop i).length :=
    List.countP_eq_length.mpr fun x hx => decide_eq_true (getElem_le_of_mem_drop hsorted hi hx)
  calc sorted.length - i = (sorted.drop i).countP fun x => decide (sorted[i] ≤ x) := by
        rw [hdrop, List.length_drop]
    _ ≤ sorted.countP fun x => decide (sorted[i] ≤ x) := (List.drop_sublist _ _).countP_le

end Order

/-- More elements with a property than there are untrusted ones: a trusted one has it. -/
theorem exists_trusted {p : α → Bool} (hperm : sorted.Perm (trusted ++ untrusted))
    (h : untrusted.length < sorted.countP p) : ∃ x ∈ trusted, p x = true := by
  rw [hperm.countP_eq, List.countP_append] at h
  have := List.countP_le_length (p := p) (l := untrusted)
  exact List.countP_pos_iff.mp (by omega)

variable [Preorder α] [DecidableLE α]

theorem exists_trusted_le (hsorted : sorted.Pairwise (· ≤ ·))
    (hperm : sorted.Perm (trusted ++ untrusted)) (hi : i < sorted.length)
    (h : untrusted.length ≤ i) : ∃ x ∈ trusted, x ≤ sorted[i] := by
  have hcount : untrusted.length < sorted.countP fun x => decide (x ≤ sorted[i]) := by
    have := succ_le_countP_le hsorted hi
    omega
  obtain ⟨x, hx, hle⟩ := exists_trusted hperm hcount
  exact ⟨x, hx, of_decide_eq_true hle⟩

theorem exists_trusted_ge (hsorted : sorted.Pairwise (· ≤ ·))
    (hperm : sorted.Perm (trusted ++ untrusted)) (hi : i < sorted.length)
    (h : untrusted.length + i < sorted.length) : ∃ x ∈ trusted, sorted[i] ≤ x := by
  have hcount : untrusted.length < sorted.countP fun x => decide (sorted[i] ≤ x) := by
    have := length_sub_le_countP_ge hsorted hi
    omega
  obtain ⟨x, hx, hle⟩ := exists_trusted hperm hcount
  exact ⟨x, hx, of_decide_eq_true hle⟩

end Ranks
