import PriceOracle.SmtInvariant
import PriceOracle.StormTreeCovenant

/-!
# Storm Tree proofs in the covenant

The covenant's hand-padded compressions are the off-chain hashes, so its fold is
the fold of the used levels. A folded branch is a leaf of the tree, and the
packed proof of every leaf folds to the root.
-/

namespace PriceOracle

namespace StormTreeCovenant

variable {W Sig : Type} (J : Jets W Sig)

section Hashes

theorem getStormTreeLeaf_eq (branch : W) : getStormTreeLeaf J branch = Smt.hashLeaf J branch := by
  have hpad : Sha256.paddedTail 1 [Smt.leafMarker] =
      [0x0180000000000000000000000000000000000000000000000000000000000108] := by decide
  rw [Smt.hashLeaf, Jets.sha256Words, List.length_singleton, hpad]
  rfl

theorem foldNode_eq (left right : W) : foldNode J left right = Smt.hashNode J left right := by
  have hpad : Sha256.paddedTail 2 [] =
      [0x8000000000000000000000000000000000000000000000000000000000000000,
        0x0000000000000000000000000000000000000000000000000000000000000200] := by decide
  rw [Smt.hashNode, Jets.sha256Words, show [left, right].length = 2 from rfl, hpad]
  rfl

end Hashes

/-- The levels a packed proof uses, wherever its unused steps stand. -/
def usedLevels (steps : List (StormTreeProofStep W)) : List (Bool × W) :=
  steps.filterMap fun step => step.elim (fun _ => none) some

theorem stormTreeFoldStep_eq (isRight : Bool) (sibling node : W) :
    stormTreeFoldStep J (.inr (isRight, sibling)) node =
      MerkleFold.step (Smt.hashing J) node (isRight, sibling) := by
  cases isRight
  · exact foldNode_eq J node sibling
  · exact foldNode_eq J sibling node

theorem foldl_stormTreeFoldStep (steps : List (StormTreeProofStep W)) :
    ∀ node, steps.foldl (fun node step => stormTreeFoldStep J step node) node =
      MerkleFold.fold (Smt.hashing J) node (usedLevels steps) := by
  induction steps with
  | nil => exact fun _ => rfl
  | cons step steps ih =>
    intro node
    rw [List.foldl_cons, ih]
    rcases step with ⟨⟩ | ⟨isRight, sibling⟩
    · rfl
    · rw [stormTreeFoldStep_eq]
      rfl

theorem arrayFold_eq (proof : Vector (StormTreeProofStep W) 17) (branch : W) :
    arrayFold J proof (getStormTreeLeaf J branch) =
      MerkleFold.fold (Smt.hashing J) (Smt.hashLeaf J branch) (usedLevels proof.toList) := by
  rw [arrayFold, foldl_stormTreeFoldStep, getStormTreeLeaf_eq]

end StormTreeCovenant

namespace StormTreeWitness

open StormTreeCovenant

/-- `WITNESS_DEPTH` -/
def witnessDepth : ℕ := 17

inductive StormTreeWitnessError where
  | proofTooDeep (actual depth : ℕ)

section Packing

variable {W Sig : Type} (J : Jets W Sig)

/-- `fold` of the packed steps. -/
def fold (branch : W) (steps : List (Option (Bool × W))) : W :=
  (steps.filterMap id).foldl
    (fun hash (isRight, sibling) =>
      if isRight then Smt.hashNode J sibling hash else Smt.hashNode J hash sibling)
    (Smt.hashLeaf J branch)

def packStep : Option (Bool × W) → StormTreeProofStep W
  | none => .inl ()
  | some (isRight, sibling) => .inr (isRight, sibling)

theorem fold_map_some_append (branch : W) (siblings : List (Bool × W)) (n : ℕ) :
    fold J branch (siblings.map some ++ List.replicate n none) =
      MerkleFold.fold (Smt.hashing J) (Smt.hashLeaf J branch) siblings := by
  have hused : (siblings.map some ++ List.replicate n none).filterMap id = siblings := by
    simp [List.filterMap_append, List.filterMap_map]
  rw [fold, hused]
  rfl

theorem usedLevels_pack (siblings : List (Bool × W)) (n : ℕ) :
    usedLevels ((siblings.map some ++ List.replicate n none).map packStep) = siblings := by
  have hsome : (fun step : StormTreeProofStep W => step.elim (fun _ => none) some) ∘ packStep =
      id := by
    funext step
    rcases step with _ | step
    · rfl
    · rfl
  rw [usedLevels, List.filterMap_map, hsome]
  simp [List.filterMap_append, List.filterMap_map]

end Packing

variable {W Sig : Type} [LinearOrder W] (J : Jets W Sig)

/-- `witness_proof`; `none` is a panic. -/
def witnessProof (tree : Smt.MerkleTree W) (branch : W) :
    Option (Except StormTreeWitnessError (Vector (StormTreeProofStep W) 17)) :=
  match tree.proof J branch with
  | .error _ => none
  | .ok proof =>
    if proof.siblings.length > witnessDepth then
      some (.error (.proofTooDeep proof.siblings.length witnessDepth))
    else
      let steps := proof.siblings.map some
      let steps := steps ++ List.replicate (witnessDepth - steps.length) none
      if fold J branch steps = tree.root J then
        if h : (steps.map packStep).length = 17 then some (.ok ⟨(steps.map packStep).toArray, h⟩)
        else none
      else none

/-- A tree within the covenant's depth packs every leaf's proof, and the packed proof
folds to the root in the covenant. -/
theorem witnessProof_ok {tree : Smt.MerkleTree W} {leaves : List W} (ht : tree.Holds J leaves)
    (hdepth : tree.depth ≤ witnessDepth) (leaf : W) (hleaf : leaf ∈ leaves) :
    ∃ steps, witnessProof J tree leaf = some (.ok steps) ∧
      arrayFold J steps (getStormTreeLeaf J leaf) = tree.root J := by
  obtain ⟨k, hk⟩ := List.mem_iff_getElem?.mp hleaf
  obtain ⟨siblings, hproof, hlen, hfold⟩ := ht.proof_ok k leaf hk
  have hshort : ¬siblings.length > witnessDepth := by omega
  have hpacked : ((siblings.map some ++
      List.replicate (witnessDepth - (siblings.map some).length) none).map packStep).length = 17 := by
    simp only [List.length_map, List.length_append, List.length_replicate]
    exact Nat.add_sub_of_le (Nat.not_lt.mp hshort)
  refine ⟨⟨_, hpacked⟩, ?_, ?_⟩
  · simp only [witnessProof, hproof, if_neg hshort, fold_map_some_append, hfold, if_true,
      dif_pos hpacked]
  · rw [arrayFold_eq, ← hfold]
    exact congrArg (MerkleFold.fold (Smt.hashing J) _) (usedLevels_pack siblings _)

/-- A branch whose proof folds to the root of a tree is one of the tree's leaves. -/
theorem mem_of_arrayFold {tree : Smt.MerkleTree W} {leaves : List W} (ht : tree.Holds J leaves)
    (hc : (Smt.hashing J).CollisionFree) (branch : W) (proof : Vector (StormTreeProofStep W) 17)
    (hfold : arrayFold J proof (getStormTreeLeaf J branch) = tree.root J) : branch ∈ leaves := by
  rw [arrayFold_eq, ht.root_eq] at hfold
  have hmem := MerkleFold.mem_leaves_of_fold (Smt.hashing J) hc branch _ _ hfold
  rwa [MerkleFold.leaves_fill _ _ ht.length_le] at hmem

/-- The covenant authorises a branch under a tree's root only if the branch is a leaf. -/
theorem branch_mem_of_assertNetworkAuthorization (std : Std W) (env : Env W)
    {tree : Smt.MerkleTree W} {leaves : List W} (ht : tree.Holds J leaves)
    (hc : (Smt.hashing J).CollisionFree) (bloom : StormTreeBloom W Sig)
    (hok : assertNetworkAuthorization J std env (tree.root J) bloom = some ()) :
    bloom.2.1 ∈ leaves := by
  simp only [assertNetworkAuthorization, Option.bind_eq_bind, Option.bind_eq_some_iff] at hok
  obtain ⟨⟨⟩, hroot, -⟩ := hok
  exact mem_of_arrayFold J ht hc _ _ ((std.assertEq256_iff _ _).mp hroot)

theorem sound_and_complete (leaves : List W) (tree : Smt.MerkleTree W)
    (hbuild : Smt.MerkleTree.fromLeaves J leaves = .ok tree) (hdepth : tree.depth ≤ witnessDepth)
    (hc : (Smt.hashing J).CollisionFree) :
    (∀ (branch : W) (proof : Vector (StormTreeProofStep W) 17),
      arrayFold J proof (getStormTreeLeaf J branch) = tree.root J → branch ∈ leaves) ∧
    ∀ leaf ∈ leaves, ∃ siblings steps,
      tree.proof J leaf = .ok ⟨leaf, tree.root J, siblings⟩ ∧
      siblings.length = tree.depth ∧
      witnessProof J tree leaf = some (.ok steps) ∧
      arrayFold J steps (getStormTreeLeaf J leaf) = tree.root J := by
  have ht := (Smt.MerkleTree.fromLeaves_holds hbuild).1
  have hmem : ∀ w, w ∈ leaves.insertionSort (· ≤ ·) ↔ w ∈ leaves := fun w =>
    (List.perm_insertionSort (· ≤ ·) leaves).mem_iff
  constructor
  · intro branch proof hfold
    exact (hmem branch).mp (mem_of_arrayFold J ht hc branch proof hfold)
  · intro leaf hleaf
    have hleaf' := (hmem leaf).mpr hleaf
    obtain ⟨k, hk⟩ := List.mem_iff_getElem?.mp hleaf'
    obtain ⟨siblings, hproof, hlen, -⟩ := ht.proof_ok k leaf hk
    obtain ⟨steps, hsteps, hfold⟩ := witnessProof_ok J ht hdepth leaf hleaf'
    exact ⟨siblings, steps, hproof, hlen, hsteps, hfold⟩

theorem idealJets_collisionFree : (Smt.hashing idealJets).CollisionFree := by
  have hleaf : ∀ w, Smt.hashLeaf idealJets w = 2 * Nat.pair idealJets.sha256Iv
      (Nat.pair w (leafTail idealJets)) + 1 := fun w => (getStormTreeLeaf_eq idealJets w).symm
  have hnode : ∀ l r, Smt.hashNode idealJets l r = 2 * Nat.pair
      (2 * Nat.pair idealJets.sha256Iv (Nat.pair l r) + 1)
      (Nat.pair (paddingHead idealJets) (padding64Tail idealJets)) + 1 := fun l r =>
    (foldNode_eq idealJets l r).symm
  have hzero : Smt.zeroHash idealJets = 0 := rfl
  have heven : ∃ n, idealJets.sha256Iv = 2 * n := ⟨_, rfl⟩
  obtain ⟨iv, hiv⟩ := heven
  constructor
  · intro a b h
    change Smt.hashLeaf idealJets a = Smt.hashLeaf idealJets b at h
    rw [hleaf, hleaf] at h
    have hpair := (Nat.pair_eq_pair.mp (Nat.eq_of_mul_eq_mul_left Nat.two_pos
      (Nat.add_right_cancel h))).2
    exact (Nat.pair_eq_pair.mp hpair).1
  · intro l l' r r' h
    change Smt.hashNode idealJets l r = Smt.hashNode idealJets l' r' at h
    rw [hnode, hnode] at h
    have hstate := (Nat.pair_eq_pair.mp (Nat.eq_of_mul_eq_mul_left Nat.two_pos
      (Nat.add_right_cancel h))).1
    have hpair := (Nat.pair_eq_pair.mp (Nat.eq_of_mul_eq_mul_left Nat.two_pos
      (Nat.add_right_cancel hstate))).2
    exact Nat.pair_eq_pair.mp hpair
  · intro a l r h
    change Smt.hashLeaf idealJets a = Smt.hashNode idealJets l r at h
    rw [hleaf, hnode] at h
    have hstate := (Nat.pair_eq_pair.mp (Nat.eq_of_mul_eq_mul_left Nat.two_pos
      (Nat.add_right_cancel h))).1
    omega
  · intro a h
    change Smt.hashLeaf idealJets a = Smt.zeroHash idealJets at h
    rw [hleaf, hzero] at h
    omega
  · intro l r h
    change Smt.hashNode idealJets l r = Smt.zeroHash idealJets at h
    rw [hnode, hzero] at h
    omega

theorem sound_and_complete_three_leaves :
    ∃ tree, Smt.MerkleTree.fromLeaves idealJets [5, 3, 9] = .ok tree ∧
      (∀ (branch : ℕ) (proof : Vector (StormTreeProofStep ℕ) 17),
        arrayFold idealJets proof (getStormTreeLeaf idealJets branch) = tree.root idealJets →
          branch ∈ [5, 3, 9]) := by
  obtain ⟨tree, hbuild⟩ :=
    (Smt.MerkleTree.fromLeaves_ok_iff (J := idealJets) [5, 3, 9]).mpr ⟨by decide, by decide⟩
  have hdepth : tree.depth ≤ witnessDepth := by
    rw [(Smt.MerkleTree.fromLeaves_holds hbuild).2]
    exact max_le (by decide) (Nat.clog_le_of_le_pow (by decide))
  exact ⟨tree, hbuild,
    (sound_and_complete idealJets [5, 3, 9] tree hbuild hdepth idealJets_collisionFree).1⟩

end StormTreeWitness
end PriceOracle
