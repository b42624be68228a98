import Mathlib.Algebra.BigOperators.Group.Finset.Basic
import Mathlib.Algebra.Order.BigOperators.Group.Finset

/-!
# Claims on a finite set of resources

A claimant `i` demands a set `D i` of resources and needs amount `a i`. When no
resource is demanded twice, what the claimants need together is bounded by what
the resources hold. This is the arithmetic behind every covenant that checks
each input alone.
-/

namespace OutputCover

variable {ι κ : Type*} [DecidableEq κ]

theorem sum_le_of_disjoint (S : Finset ι) (O : Finset κ) (D : ι → Finset κ) (a : ι → ℕ)
    (v : κ → ℕ) (hsub : ∀ i ∈ S, D i ⊆ O) (hdisj : (S : Set ι).PairwiseDisjoint D)
    (hle : ∀ i ∈ S, a i ≤ ∑ o ∈ D i, v o) : ∑ i ∈ S, a i ≤ ∑ o ∈ O, v o := by
  calc
    _ ≤ ∑ i ∈ S, ∑ o ∈ D i, v o := Finset.sum_le_sum hle
    _ = ∑ o ∈ S.biUnion D, v o := (Finset.sum_biUnion hdisj).symm
    _ ≤ _ := Finset.sum_le_sum_of_subset (Finset.biUnion_subset.mpr hsub)

/-- A group of claimants may share one resource that holds enough for all of them,
as long as nobody outside the group demands it. -/
theorem sum_le_of_shared (S T : Finset ι) (O : Finset κ) (D : ι → Finset κ) (a : ι → ℕ)
    (v : κ → ℕ) (c : κ) (hc : c ∈ O) (hsub : ∀ i ∈ S, D i ⊆ O)
    (hdisj : (S : Set ι).PairwiseDisjoint D) (hout : ∀ i ∈ S, c ∉ D i)
    (hle : ∀ i ∈ S, a i ≤ ∑ o ∈ D i, v o) (hshared : ∑ i ∈ T, a i ≤ v c) :
    ∑ i ∈ S, a i + ∑ i ∈ T, a i ≤ ∑ o ∈ O, v o := by
  have hrest : ∑ i ∈ S, a i ≤ ∑ o ∈ O.erase c, v o := by
    apply sum_le_of_disjoint S (O.erase c) D a v _ hdisj hle
    intro i hi o ho
    refine Finset.mem_erase.mpr ⟨?_, hsub i hi ho⟩
    rintro rfl
    exact hout i hi ho
  have := Finset.sum_erase_add O v hc
  omega

/-- One resource for each claimant: the demands are disjoint when the assignment
is injective. -/
theorem sum_le_of_injOn (S : Finset ι) (O : Finset κ) (f : ι → κ) (a : ι → ℕ) (v : κ → ℕ)
    (hmem : ∀ i ∈ S, f i ∈ O) (hinj : Set.InjOn f S) (hle : ∀ i ∈ S, a i ≤ v (f i)) :
    ∑ i ∈ S, a i ≤ ∑ o ∈ O, v o := by
  apply sum_le_of_disjoint S O (fun i => {f i}) a v
  · intro i hi
    exact Finset.singleton_subset_iff.mpr (hmem i hi)
  · intro i hi j hj hij
    exact Finset.disjoint_singleton.mpr fun h => hij (hinj hi hj h)
  · intro i hi
    simpa using hle i hi

end OutputCover
