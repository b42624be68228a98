import Mathlib.Data.List.Nodup
import Mathlib.Logic.Function.Basic
import Mathlib.Order.Lattice

/-!
# Tables that keep the latest row

A table holds one row per key. A row replaces the one held under its key exactly if its stamp is
larger, so what is held of a key only ever becomes later, whatever the order of the rows.
-/

namespace LatestRows

variable {K R T : Type} [DecidableEq K] [LinearOrder T] (key : R → K) (stamp : R → T)

/-- The row is later than what is held under its key. -/
def Newer (table : K → Option R) (row : R) : Prop := ∀ held ∈ table (key row), stamp held < stamp row

instance (table : K → Option R) (row : R) : Decidable (Newer key stamp table row) :=
  inferInstanceAs (Decidable (∀ held ∈ table (key row), stamp held < stamp row))

def keep (table : K → Option R) (row : R) : K → Option R :=
  if Newer key stamp table row then Function.update table (key row) (some row) else table

def keepAll (table : K → Option R) (rows : List R) : K → Option R := rows.foldl (keep key stamp) table

variable {key : R → K} {stamp : R → T} {table : K → Option R} {row held : R} {rows : List R} {k : K}

theorem keep_of_newer (h : Newer key stamp table row) : keep key stamp table row (key row) = some row := by
  rw [keep, if_pos h, Function.update_self]

theorem keep_of_not_newer (h : ¬Newer key stamp table row) : keep key stamp table row = table :=
  if_neg h

theorem keep_of_ne (h : key row ≠ k) : keep key stamp table row k = table k := by
  unfold keep
  split_ifs
  · exact Function.update_of_ne h.symm _ _
  · rfl

theorem keep_cases (h : keep key stamp table row k = some held) :
    table k = some held ∨ held = row ∧ key row = k := by
  by_cases hk : key row = k
  · by_cases hnewer : Newer key stamp table row
    · rw [← hk, keep_of_newer hnewer] at h
      exact .inr ⟨(Option.some.inj h).symm, hk⟩
    · rw [keep_of_not_newer hnewer] at h
      exact .inl h
  · rw [keep_of_ne hk] at h
    exact .inl h

/-- Rows under other keys do not matter. -/
theorem keepAll_of_ne (h : ∀ row ∈ rows, key row ≠ k) : keepAll key stamp table rows k = table k := by
  unfold keepAll
  induction rows generalizing table with
  | nil => rfl
  | cons row rows ih =>
    rw [List.foldl_cons, ih fun row hrow => h row (List.mem_cons_of_mem _ hrow)]
    exact keep_of_ne (h row List.mem_cons_self)

/-- What is held afterwards was held before or is one of the rows. -/
theorem keepAll_cases (h : keepAll key stamp table rows k = some held) :
    table k = some held ∨ held ∈ rows ∧ key held = k := by
  unfold keepAll at h
  induction rows generalizing table with
  | nil => exact .inl h
  | cons row rows ih =>
    rcases ih h with hheld | ⟨hmem, hkey⟩
    · rcases keep_cases hheld with hheld | ⟨rfl, hkey⟩
      · exact .inl hheld
      · exact .inr ⟨List.mem_cons_self, hkey⟩
    · exact .inr ⟨List.mem_cons_of_mem _ hmem, hkey⟩

/-- Of rows under different keys, each replaces what it is later than. -/
theorem keepAll_of_newer (hkeys : (rows.map key).Nodup) (hrow : row ∈ rows)
    (h : Newer key stamp table row) : keepAll key stamp table rows (key row) = some row := by
  obtain ⟨before, after, rfl⟩ := List.append_of_mem hrow
  rw [List.map_append, List.map_cons, List.nodup_append] at hkeys
  obtain ⟨-, hafter, hbefore⟩ := hkeys
  have hheld : keepAll key stamp table before (key row) = table (key row) :=
    keepAll_of_ne fun other hother => hbefore _ (List.mem_map_of_mem hother) _ List.mem_cons_self
  have hnewer : Newer key stamp (keepAll key stamp table before) row := by
    unfold Newer
    rw [hheld]
    exact h
  have hsplit : keepAll key stamp table (before ++ row :: after) =
      keepAll key stamp (keep key stamp (keepAll key stamp table before) row) after := by
    simp [keepAll]
  have hother (other : R) (hmem : other ∈ after) : key other ≠ key row := fun heq =>
    (List.nodup_cons.mp hafter).1 (heq ▸ List.mem_map_of_mem hmem)
  rw [hsplit, keepAll_of_ne hother]
  exact keep_of_newer hnewer

end LatestRows
