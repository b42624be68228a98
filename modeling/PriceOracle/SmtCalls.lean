import PriceOracle.Database
import PriceOracle.SmtInvariant

/-!
# Calls on the incremental tree

`add` of `smt.rs` as the source has it: it changes the tree in place and may return early. After any calls
the heap is hashed node by node and is that of `from_leaves` on the accepted leaves.
-/

namespace PriceOracle

namespace Smt

namespace MerkleTree

open MerkleFold (slot)

variable {W Sig : Type} [LinearOrder W] (J : Jets W Sig)

section Definitions

/-- `add` in place. -/
def addLeaf (leaf : W) : Db (MerkleTree W) (Error W) Unit := do
  let tree ← get
  match tree.positions.maxKey?.filter (leaf ≤ ·) with
  | some last => throw (.outOfOrder leaf last)
  | none =>
    if tree.positions.size = tree.capacity then throw (.treeIsFull tree.capacity)
    else do
      let index := tree.firstLeafIndex + tree.positions.size
      modify fun tree => { tree with nodes := tree.nodes.setIfInBounds index (hashLeaf J leaf) }
      modify fun tree => { tree with positions := tree.positions.insert leaf index }
      modify fun tree => { tree with nodes := rehashPath J tree.nodes index }

/-- A call on a tree, with the leaves that were accepted so far. -/
def call (state : MerkleTree W × List W) (leaf : W) : MerkleTree W × List W :=
  match (addLeaf J leaf).exec state.1 with
  | (.ok _, tree) => (tree, state.2 ++ [leaf])
  | (.error _, tree) => (tree, state.2)

def run (empty : MerkleTree W) (calls : List W) : MerkleTree W × List W := calls.foldl (call J) (empty, [])

/-- Which leaves a tree of the depth accepts: those above all before them, while there is a slot. -/
def accept (depth : ℕ) (accepted : List W) (leaf : W) : List W :=
  if (∀ l ∈ accepted, l < leaf) ∧ accepted.length < 2 ^ depth then accepted ++ [leaf] else accepted

/-- Node `i` of the heap is node `j` or above it. -/
def Above (i j : ℕ) : Prop := ∃ height, j / 2 ^ height = i

/-- A leaf of the tree is at node `i` or below it. -/
def Occupied (tree : MerkleTree W) (i : ℕ) : Prop := ∃ (leaf : W) (j : ℕ), tree.positions[leaf]? = some j ∧ Above i j

/-- The heap is hashed and the positions are those of the leaves. -/
structure Hashed (tree : MerkleTree W) (leaves : List W) : Prop where
  size : tree.nodes.size = 2 ^ (tree.depth + 1)
  inner : ∀ i, 1 ≤ i → i < 2 ^ tree.depth → tree.Occupied i →
    nodeAt J tree.nodes i = hashNode J (nodeAt J tree.nodes (2 * i)) (nodeAt J tree.nodes (2 * i + 1))
  leaf : ∀ leaf j, tree.positions[leaf]? = some j → nodeAt J tree.nodes j = hashLeaf J leaf
  zero : ∀ i, 1 ≤ i → i < 2 ^ (tree.depth + 1) → ¬tree.Occupied i → nodeAt J tree.nodes i = zeroHash J
  ascending : leaves.Pairwise (· < ·)
  slots : ∀ leaf j, tree.positions[leaf]? = some j ↔ ∃ k, leaves[k]? = some leaf ∧ j = 2 ^ tree.depth + k

end Definitions

section Heap

variable {J} {tree : MerkleTree W} {leaves : List W}

/-- Every index of the heap has a level and an offset. -/
theorem exists_heapIndex {depth i : ℕ} (hi : 1 ≤ i) (hlt : i < 2 ^ (depth + 1)) :
    ∃ h ≤ depth, ∃ r < 2 ^ (depth - h), i = 2 ^ (depth - h) + r := by
  have hlog : Nat.log 2 i ≤ depth := by
    have hlt' := Nat.log_lt_of_lt_pow (by omega) hlt
    omega
  have hlow := Nat.pow_log_le_self 2 (show i ≠ 0 by omega)
  have hhigh := Nat.lt_pow_succ_log_self Nat.one_lt_two i
  rw [pow_succ] at hhigh
  refine ⟨depth - Nat.log 2 i, Nat.sub_le _ _, i - 2 ^ Nat.log 2 i, ?_, ?_⟩
  · rw [Nat.sub_sub_self hlog]
    omega
  · rw [Nat.sub_sub_self hlog, Nat.add_sub_cancel' hlow]

/-- What is above a leaf slot, at each level. -/
theorem above_leaf_iff {depth h r k : ℕ} (hh : h ≤ depth) (hr : r < 2 ^ (depth - h)) (hk : k < 2 ^ depth) :
    Above (2 ^ (depth - h) + r) (2 ^ depth + k) ↔ k / 2 ^ h = r := by
  have hlevel {g : ℕ} (hg : g ≤ depth) : (2 ^ depth + k) / 2 ^ g = 2 ^ (depth - g) + k / 2 ^ g := by
    have hpow : 2 ^ depth = 2 ^ (depth - g) * 2 ^ g := by rw [← pow_add, Nat.sub_add_cancel hg]
    rw [hpow, add_comm, Nat.add_mul_div_right _ _ (by positivity), add_comm]
  constructor
  · rintro ⟨g, hg⟩
    have hle : g ≤ depth := by
      by_contra hgt
      have hsmall : 2 ^ depth + k < 2 ^ g := by
        have hmono : 2 ^ (depth + 1) ≤ 2 ^ g := Nat.pow_le_pow_right Nat.two_pos (by omega)
        rw [pow_succ] at hmono
        omega
      rw [Nat.div_eq_of_lt hsmall] at hg
      have hpos : 0 < 2 ^ (depth - h) := by positivity
      omega
    rw [hlevel hle] at hg
    obtain ⟨hsame, hoffset⟩ := heapIndex_inj (div_pow_lt hk hle) hr hg
    obtain rfl : g = h := by omega
    exact hoffset
  · rintro rfl
    exact ⟨h, hlevel hh⟩

theorem Holds.occupied_iff (ht : tree.Holds J leaves) {h r : ℕ} (hh : h ≤ tree.depth) (hr : r < 2 ^ (tree.depth - h)) :
    tree.Occupied (2 ^ (tree.depth - h) + r) ↔ r * 2 ^ h < leaves.length := by
  have hpos : 0 < 2 ^ h := by positivity
  constructor
  · rintro ⟨leaf, j, hj, habove⟩
    obtain ⟨k, hk, rfl⟩ := (ht.positions leaf j).mp hj
    have hlt : k < leaves.length := (List.getElem?_eq_some_iff.mp hk).1
    rw [above_leaf_iff hh hr (hlt.trans_le ht.length_le)] at habove
    rw [← habove]
    exact (Nat.div_mul_le_self k _).trans_lt hlt
  · intro hlt
    refine ⟨leaves[r * 2 ^ h], 2 ^ tree.depth + r * 2 ^ h, ?_, ?_⟩
    · exact (ht.positions _ _).mpr ⟨r * 2 ^ h, List.getElem?_eq_getElem hlt, rfl⟩
    · rw [above_leaf_iff hh hr (hlt.trans_le ht.length_le)]
      exact Nat.mul_div_cancel r hpos

/-- The invariant of the slots, node by node. -/
theorem Holds.hashed (ht : tree.Holds J leaves) : tree.Hashed J leaves where
  size := ht.size
  inner i hi hlt hoccupied := by
    obtain ⟨h, hh, r, hr, rfl⟩ := exists_heapIndex hi (hlt.trans (Nat.pow_lt_pow_right Nat.one_lt_two (Nat.lt_succ_self _)))
    have hocc := (ht.occupied_iff hh hr).mp hoccupied
    -- An inner node is not at the level of the leaves.
    cases h with
    | zero =>
      rw [Nat.sub_zero] at hlt
      omega
    | succ h =>
      have hpow : 2 ^ (tree.depth - h) = 2 * 2 ^ (tree.depth - (h + 1)) := by
        rw [← pow_succ', show tree.depth - (h + 1) + 1 = tree.depth - h by omega]
      have hleft := ht.nodes h (by omega) (2 * r) (by omega)
      have hright := ht.nodes h (by omega) (2 * r + 1) (by omega)
      rw [hpow, ← mul_add] at hleft
      rw [hpow, ← add_assoc, ← mul_add] at hright
      rw [ht.nodes (h + 1) hh r hr, MerkleFold.slot_succ (hashing J) leaves h r hocc, hleft, hright]
      rfl
  leaf leaf j hj := by
    obtain ⟨k, hk, rfl⟩ := (ht.positions leaf j).mp hj
    have hlt : k < leaves.length := (List.getElem?_eq_some_iff.mp hk).1
    have hnode := ht.nodes 0 (Nat.zero_le _) k (hlt.trans_le ht.length_le)
    rw [Nat.sub_zero, MerkleFold.slot_zero (hashing J) leaves k leaf hk] at hnode
    exact hnode
  zero i hi hlt hoccupied := by
    obtain ⟨h, hh, r, hr, rfl⟩ := exists_heapIndex hi hlt
    rw [ht.nodes h hh r hr]
    exact MerkleFold.slot_empty (hashing J) leaves h r (Nat.not_lt.mp fun hocc => hoccupied ((ht.occupied_iff hh hr).mpr hocc))
  ascending := ht.ascending
  slots := ht.positions

end Heap

section Runs

variable {J} {tree empty : MerkleTree W} {leaves : List W}

/-- The statements of a call are those of `add`, and a call that is rejected leaves the tree alone. -/
theorem exec_addLeaf (leaf : W) (tree : MerkleTree W) : (addLeaf J leaf).exec tree = match tree.add J leaf with
    | .ok next => (.ok (), next)
    | .error error => (.error error, tree) := by
  unfold addLeaf add
  rw [Db.exec_get_bind]
  cases tree.positions.maxKey?.filter (leaf ≤ ·) with
  | some last => rfl
  | none =>
    dsimp only
    split_ifs
    · rfl
    · rfl

/-- One call, of a tree that was filled by the calls before it. -/
theorem call_spec {accepted : List W} (ht : tree.Holds J accepted) (hfill : empty.addAll J accepted = .ok tree) (leaf : W) :
    (call J (tree, accepted) leaf).1.Holds J (call J (tree, accepted) leaf).2 ∧
    (call J (tree, accepted) leaf).1.depth = tree.depth ∧
    (call J (tree, accepted) leaf).2 = accept tree.depth accepted leaf ∧
    empty.addAll J (call J (tree, accepted) leaf).2 = .ok (call J (tree, accepted) leaf).1 := by
  unfold call accept
  rw [exec_addLeaf]
  cases hadd : tree.add J leaf with
  | error error =>
    have hrejected : ¬((∀ l ∈ accepted, l < leaf) ∧ accepted.length < 2 ^ tree.depth) := by
      rintro ⟨habove, hroom⟩
      rw [(ht.add_ok_iff leaf _).mpr ⟨habove, hroom, rfl⟩] at hadd
      cases hadd
    exact ⟨ht, rfl, (if_neg hrejected).symm, hfill⟩
  | ok next =>
    obtain ⟨hnext, hdepth⟩ := ht.add leaf next hadd
    obtain ⟨habove, hroom, -⟩ := (ht.add_ok_iff leaf next).mp hadd
    refine ⟨hnext, hdepth, (if_pos ⟨habove, hroom⟩).symm, ?_⟩
    unfold addAll at hfill ⊢
    rw [List.foldlM_append, hfill]
    exact (congrArg (· >>= pure) hadd).trans rfl

/-- After any calls the tree holds what they accepted, and it is filled with just that. -/
theorem run_spec (hempty : empty.Holds J []) (calls : List W) :
    (run J empty calls).1.Holds J (run J empty calls).2 ∧ (run J empty calls).1.depth = empty.depth ∧
    (run J empty calls).2 = calls.foldl (accept empty.depth) [] ∧
    empty.addAll J (run J empty calls).2 = .ok (run J empty calls).1 := by
  induction calls using List.reverseRecOn with
  | nil => exact ⟨hempty, rfl, rfl, rfl⟩
  | append_singleton calls leaf ih =>
    obtain ⟨ht, hdepth, haccepted, hfill⟩ := ih
    obtain ⟨hnext, hdepth', haccepted', hfill'⟩ := call_spec ht hfill leaf
    have hlast : run J empty (calls ++ [leaf]) = call J (run J empty calls) leaf := by
      unfold run
      rw [List.foldl_append]
      rfl
    rw [hlast, List.foldl_append, ← haccepted, ← hdepth]
    exact ⟨hnext, hdepth', haccepted', hfill'⟩

/-- `from_leaves` sorts its leaves into the order in which they were accepted. -/
theorem insertionSort_accepted {accepted : List W} (ht : tree.Holds J accepted) (hperm : leaves.Perm accepted) :
    leaves.insertionSort (· ≤ ·) = accepted := by
  have hsorted := List.pairwise_insertionSort (· ≤ ·) leaves
  exact ((List.perm_insertionSort _ leaves).trans hperm).eq_of_pairwise' hsorted (ht.ascending.imp le_of_lt)

theorem fromLeaves_accepted {depth : ℕ} (hnew : new J depth = .ok empty)
    (hfill : empty.addAll J (leaves.insertionSort (· ≤ ·)) = .ok tree) (hdepth : depthFor leaves.length = some depth) :
    fromLeaves J leaves = .ok tree := by
  have hrun : (new J depth >>= fun empty => empty.addAll J (leaves.insertionSort (· ≤ ·))) = .ok tree := by
    rw [hnew]
    exact hfill
  unfold fromLeaves
  simp only [List.length_insertionSort, hdepth]
  exact hrun

/-- The proof of each leaf folds to the root. -/
theorem Holds.verifyProof_ok (ht : tree.Holds J leaves) {leaf : W} (hleaf : leaf ∈ leaves) :
    ∃ proof, tree.proof J leaf = .ok proof ∧ proof.leaf = leaf ∧ proof.root = tree.root J ∧ verifyProof J proof = true := by
  obtain ⟨k, hk⟩ := List.mem_iff_getElem?.mp hleaf
  obtain ⟨siblings, hproof, -, hfold⟩ := ht.proof_ok k leaf hk
  exact ⟨_, hproof, rfl, rfl, decide_eq_true hfold⟩

end Runs

/-- After any calls, accepted or rejected: the heap is hashed over the accepted leaves, a rejected call changes
nothing, the tree is the one of `from_leaves` on them at its depth, and every proof verifies. -/
theorem calls_keep_invariant {depth : ℕ} {empty : MerkleTree W} (hnew : new J depth = .ok empty) (calls : List W) :
    (run J empty calls).1.depth = depth ∧ (run J empty calls).2 = calls.foldl (accept depth) [] ∧
    (run J empty calls).1.Hashed J (run J empty calls).2 ∧
    (∀ leaf error next, (addLeaf J leaf).exec (run J empty calls).1 = (.error error, next) →
      next = (run J empty calls).1) ∧
    (∀ leaves : List W, leaves.Perm (run J empty calls).2 →
      empty.addAll J (leaves.insertionSort (· ≤ ·)) = .ok (run J empty calls).1 ∧
      (depthFor leaves.length = some depth → fromLeaves J leaves = .ok (run J empty calls).1)) ∧
    ∀ leaf ∈ (run J empty calls).2, ∃ proof, (run J empty calls).1.proof J leaf = .ok proof ∧ proof.leaf = leaf ∧
      proof.root = (run J empty calls).1.root J ∧ verifyProof J proof = true := by
  obtain ⟨hdepth, -, -, hempty⟩ := new_holds hnew
  obtain ⟨ht, hsame, haccepted, hfill⟩ := run_spec hempty calls
  rw [hdepth] at hsame haccepted
  refine ⟨hsame, haccepted, ht.hashed, fun leaf error next hrejected => ?_, fun leaves hperm => ?_, fun leaf hleaf => ?_⟩
  · rw [exec_addLeaf] at hrejected
    cases hadd : (run J empty calls).1.add J leaf with
    | ok next =>
      rw [hadd] at hrejected
      cases hrejected
    | error error =>
      rw [hadd] at hrejected
      exact (Prod.mk.inj hrejected).2.symm
  · have hsorted := insertionSort_accepted ht hperm
    rw [← hsorted] at hfill
    exact ⟨hfill, fromLeaves_accepted hnew hfill⟩
  · exact ht.verifyProof_ok hleaf

/-- Of four calls on a tree of two slots the second is out of order and the last finds it full. -/
theorem calls_keep_invariant_two : ∃ empty : MerkleTree ℕ, new idealJets 1 = .ok empty ∧
    (run idealJets empty [3, 1, 5, 7]).2 = [3, 5] ∧
    fromLeaves idealJets [5, 3] = .ok (run idealJets empty [3, 1, 5, 7]).1 := by
  have hnew : new idealJets 1 =
      .ok { depth := 1, nodes := Array.replicate (2 ^ (1 + 1)) (zeroHash idealJets), positions := ∅ } := rfl
  obtain ⟨-, haccepted, -, -, hleaves, -⟩ := calls_keep_invariant idealJets hnew [3, 1, 5, 7]
  have hpair : [3, 1, 5, 7].foldl (accept 1) [] = [3, 5] := by decide
  rw [hpair] at haccepted
  have hperm : [5, 3].Perm [3, 5] := List.Perm.swap 3 5 []
  exact ⟨_, hnew, haccepted, (hleaves [5, 3] (haccepted ▸ hperm)).2 (depthFor_eq 2 ▸ by decide)⟩

end MerkleTree

end Smt

end PriceOracle
