import Mathlib.Data.List.Nodup
import Mathlib.Data.Nat.ModEq
import Mathlib.Order.Bounds.Basic

/-!
# Turns in a round

Members of a list that take turns, one for each number.
-/

namespace Rotation

variable {A : Type}

/-- Who is on at a number. -/
def turn (members : List A) (number : ℕ) : Option A := members[number % members.length]?

/-- How far the next turn of a position is. -/
def wait (length index number : ℕ) : ℕ := (index + length - number % length) % length

section Waits

variable {length index number : ℕ}

theorem wait_lt (h : index < length) : wait length index number < length := Nat.mod_lt _ (Nat.zero_lt_of_lt h)

theorem add_wait (h : index < length) : (number + wait length index number) % length = index := by
  have hpos := Nat.zero_lt_of_lt h
  have hmod := Nat.mod_lt number hpos
  have hdiv := Nat.div_add_mod number length
  have hround : number + (index + length - number % length) = index + length * (number / length + 1) := by
    rw [Nat.mul_add]
    omega
  unfold wait
  rw [Nat.add_mod_mod, hround, Nat.add_mul_mod_self_left, Nat.mod_eq_of_lt h]

/-- Every later turn is whole rounds behind the next one. -/
theorem wait_eq {later : ℕ} (h : index < length) (hlater : (number + later) % length = index) : wait length index number = later % length := by
  have hsame : number + wait length index number ≡ number + later [MOD length] := (add_wait h).trans hlater.symm
  have hwait : wait length index number % length = later % length := Nat.ModEq.add_left_cancel' number hsame
  rwa [Nat.mod_eq_of_lt (wait_lt h)] at hwait

end Waits

section Turns

variable {members : List A} {a : A} {number : ℕ}

theorem turn_eq_some (hnodup : members.Nodup) {index : ℕ} (hindex : members[index]? = some a) :
    turn members number = some a ↔ number % members.length = index := by
  obtain ⟨hlt, hget⟩ := List.getElem?_eq_some_iff.mp hindex
  unfold turn
  constructor
  · intro h
    obtain ⟨hmod, hturn⟩ := List.getElem?_eq_some_iff.mp h
    exact (List.Nodup.getElem_inj_iff hnodup).mp (hturn.trans hget.symm)
  · intro h
    rw [h]
    exact hindex

/-- The next turn of a member. -/
theorem isLeast_turn (hnodup : members.Nodup) {index : ℕ} (hindex : members[index]? = some a) :
    IsLeast {later | number ≤ later ∧ turn members later = some a} (number + wait members.length index number) := by
  obtain ⟨hlt, -⟩ := List.getElem?_eq_some_iff.mp hindex
  refine ⟨⟨Nat.le_add_right _ _, (turn_eq_some hnodup hindex).mpr (add_wait hlt)⟩, ?_⟩
  rintro later ⟨hle, hturn⟩
  obtain ⟨distance, rfl⟩ := Nat.exists_eq_add_of_le hle
  have hmod := (turn_eq_some hnodup hindex).mp hturn
  rw [wait_eq hlt hmod]
  exact Nat.add_le_add_left (Nat.mod_le _ _) _

/-- A round gives every member one turn. -/
theorem existsUnique_turn (hnodup : members.Nodup) (ha : a ∈ members) (number : ℕ) :
    ∃! later, number ≤ later ∧ later < number + members.length ∧ turn members later = some a := by
  obtain ⟨index, hindex⟩ := List.getElem?_of_mem ha
  obtain ⟨hlt, -⟩ := List.getElem?_eq_some_iff.mp hindex
  refine ⟨number + wait members.length index number, ⟨Nat.le_add_right _ _, Nat.add_lt_add_left (wait_lt hlt) _,
    (turn_eq_some hnodup hindex).mpr (add_wait hlt)⟩, ?_⟩
  rintro later ⟨hle, hbound, hturn⟩
  obtain ⟨distance, rfl⟩ := Nat.exists_eq_add_of_le hle
  have hmod := (turn_eq_some hnodup hindex).mp hturn
  rw [wait_eq hlt hmod, Nat.mod_eq_of_lt (by omega)]

end Turns

end Rotation
