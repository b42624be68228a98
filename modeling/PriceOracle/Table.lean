import Mathlib.Data.List.AList
import Mathlib.Algebra.BigOperators.Group.List.Basic
import Mathlib.Tactic.Ring

/-!
# Tables under a primary key

A table is an association list without duplicate keys. To the operations of `AList`
this adds an update of every row, and the total of a column with what an insertion
or a deletion does to it.
-/

abbrev Table (K V : Type) := AList fun _ : K => V

namespace Table

variable {K V : Type}

theorem keys_map_rows (f : K → V → V) (rows : List (Sigma fun _ : K => V)) :
    (rows.map fun row => (⟨row.1, f row.1 row.2⟩ : Sigma fun _ : K => V)).keys = rows.keys := by
  unfold List.keys
  rw [List.map_map]
  rfl

/-- `UPDATE` of every row; `f` leaves alone the rows that its condition excludes. -/
def mapRows (f : K → V → V) (t : Table K V) : Table K V :=
  ⟨t.entries.map fun row => ⟨row.1, f row.1 row.2⟩, by
    unfold List.NodupKeys
    rw [keys_map_rows]
    exact t.nodupKeys⟩

/-- The rows that a `DELETE` leaves. -/
def filterRows (p : K → V → Bool) (t : Table K V) : Table K V :=
  ⟨t.entries.filter fun row => p row.1 row.2, t.nodupKeys.sublist List.filter_sublist⟩

/-- The sum of a column. -/
def total (f : V → ℤ) (t : Table K V) : ℤ := (t.entries.map fun row => f row.2).sum

/-- How many rows meet the condition of an `UPDATE`. -/
def countRows (p : K → V → Bool) (t : Table K V) : ℕ := t.entries.countP fun row => p row.1 row.2

theorem mapRows_mapRows (f g : K → V → V) (t : Table K V) :
    mapRows g (mapRows f t) = mapRows (fun k row => g k (f k row)) t := by
  apply AList.ext
  exact List.map_map

section Lookup

variable [DecidableEq K]

theorem dlookup_map_rows (f : K → V → V) (k : K) (rows : List (Sigma fun _ : K => V)) :
    (rows.map fun row => (⟨row.1, f row.1 row.2⟩ : Sigma fun _ : K => V)).dlookup k =
      (rows.dlookup k).map (f k) := by
  induction rows with
  | nil => rfl
  | cons row rows ih =>
    obtain ⟨k', v⟩ := row
    rw [List.map_cons]
    by_cases hk : k = k'
    · subst hk
      rw [List.dlookup_cons_eq, List.dlookup_cons_eq]
      rfl
    · rw [List.dlookup_cons_ne rows ⟨k', v⟩ hk, ← ih]
      exact List.dlookup_cons_ne _ _ hk

@[simp]
theorem lookup_mapRows (f : K → V → V) (t : Table K V) (k : K) :
    (mapRows f t).lookup k = (t.lookup k).map (f k) :=
  dlookup_map_rows f k t.entries

/-- Two updates agree when they agree on the rows that are there. -/
theorem mapRows_congr {f g : K → V → V} {t : Table K V} (h : ∀ k row, t.lookup k = some row → f k row = g k row) :
    mapRows f t = mapRows g t := by
  apply AList.ext
  apply List.map_congr_left
  intro entry hentry
  obtain ⟨k, row⟩ := entry
  have hlookup : t.lookup k = some row := AList.mem_lookup_iff.mpr hentry
  rw [h k row hlookup]

theorem countP_key (p : V → Bool) (k : K) (rows : List (Sigma fun _ : K => V)) (hnodup : rows.NodupKeys) :
    (rows.countP fun row => decide (row.1 = k) && p row.2) = if (rows.dlookup k).any p then 1 else 0 := by
  induction rows with
  | nil => rfl
  | cons row rows ih =>
    obtain ⟨k', v⟩ := row
    obtain ⟨hk', hrest⟩ := List.nodupKeys_cons.mp hnodup
    rw [List.countP_cons, ih hrest]
    by_cases hk : k' = k
    · subst hk
      have hnone : rows.dlookup k' = none := List.dlookup_eq_none.mpr hk'
      rw [List.dlookup_cons_eq, hnone]
      simp
    · rw [List.dlookup_cons_ne rows ⟨k', v⟩ (Ne.symm hk)]
      simp [hk]

/-- An `UPDATE` under a primary key changes one row or none. -/
theorem countRows_key (p : V → Bool) (k : K) (t : Table K V) :
    countRows (fun k' row => decide (k' = k) && p row) t = if (t.lookup k).any p then 1 else 0 :=
  countP_key p k t.entries t.nodupKeys

theorem dlookup_filter_rows (p : K → V → Bool) (k : K) (rows : List (Sigma fun _ : K => V))
    (hnodup : rows.NodupKeys) :
    (rows.filter fun row => p row.1 row.2).dlookup k = (rows.dlookup k).filter (p k) := by
  induction rows with
  | nil => rfl
  | cons row rows ih =>
    obtain ⟨k', v⟩ := row
    obtain ⟨hk', hrest⟩ := List.nodupKeys_cons.mp hnodup
    by_cases hk : k = k'
    · subst hk
      have hnone : rows.dlookup k = none := List.dlookup_eq_none.mpr hk'
      rw [List.dlookup_cons_eq, Option.filter_some, List.filter_cons]
      split_ifs
      · exact List.dlookup_cons_eq _ _ _
      · rw [ih hrest, hnone]
        rfl
    · rw [List.dlookup_cons_ne rows ⟨k', v⟩ hk, ← ih hrest, List.filter_cons]
      split_ifs
      · exact List.dlookup_cons_ne _ _ hk
      · rfl

@[simp]
theorem lookup_filterRows (p : K → V → Bool) (t : Table K V) (k : K) :
    (filterRows p t).lookup k = (t.lookup k).filter (p k) :=
  dlookup_filter_rows p k t.entries t.nodupKeys

theorem lookup_insert_eq (t : Table K V) (k k' : K) (v : V) :
    (t.insert k v).lookup k' = if k' = k then some v else t.lookup k' := by
  split_ifs with h
  · rw [h, AList.lookup_insert]
  · exact AList.lookup_insert_ne h

theorem lookup_erase_eq (t : Table K V) (k k' : K) :
    (t.erase k).lookup k' = if k' = k then none else t.lookup k' := by
  split_ifs with h
  · rw [h, AList.lookup_erase]
  · exact AList.lookup_erase_ne h

theorem erase_of_lookup_none {t : Table K V} {k : K} (h : t.lookup k = none) : t.erase k = t := by
  apply AList.ext
  exact List.kerase_of_notMem_keys (AList.lookup_eq_none.mp h)

end Lookup

section Total

variable [DecidableEq K] (f : V → ℤ)

theorem sum_kerase (k : K) (rows : List (Sigma fun _ : K => V)) (hnodup : rows.NodupKeys) :
    ((rows.kerase k).map fun row => f row.2).sum + ((rows.dlookup k).map f).getD 0 =
      (rows.map fun row => f row.2).sum := by
  induction rows with
  | nil => rfl
  | cons row rows ih =>
    obtain ⟨hk, hrest⟩ := List.nodupKeys_cons.mp hnodup
    by_cases heq : k = row.1
    · subst heq
      rw [List.kerase_cons_eq rfl, List.dlookup_cons_eq, List.map_cons, List.sum_cons, Option.map_some,
        Option.getD_some, Int.add_comm]
    · rw [List.kerase_cons_ne heq, List.dlookup_cons_ne _ _ heq, List.map_cons, List.sum_cons,
        List.map_cons, List.sum_cons, ← ih hrest]
      ring

theorem total_erase (t : Table K V) (k : K) :
    total f (t.erase k) + ((t.lookup k).map f).getD 0 = total f t :=
  sum_kerase f k t.entries t.nodupKeys

theorem total_insert (t : Table K V) (k : K) (v : V) :
    total f (t.insert k v) = total f t + f v - ((t.lookup k).map f).getD 0 := by
  have hinsert : total f (t.insert k v) = f v + total f (t.erase k) := by
    unfold total
    rw [AList.entries_insert, List.map_cons, List.sum_cons]
    rfl
  have hsum := total_erase f t k
  omega

end Total

end Table
