import Mathlib.Data.Finset.Sort
import Mathlib.Order.Compare

/-!
# Keys of maps

What maps, sorted lists and membership tests ask of the types of their keys, each as one constant.
-/

namespace MapKeys

section Ordered

variable {W : Type} [LinearOrder W]

instance transCmp_compare : Std.TransCmp (compare : W → W → Ordering) := inferInstance

instance isTrans_le : IsTrans W (· ≤ ·) := ⟨fun _ _ _ => le_trans⟩

instance antisymm_le : @Std.Antisymm W (· ≤ ·) := ⟨fun _ _ => le_antisymm⟩

instance total_le : @Std.Total W (· ≤ ·) := ⟨le_total⟩

end Ordered

instance lawfulBEq_outpoint {W : Type} [DecidableEq W] : LawfulBEq (W × ℕ) := inferInstance

instance lawfulBEq_bytes32 : LawfulBEq (Vector UInt8 32) := inferInstance

end MapKeys
