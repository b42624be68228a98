import Mathlib.Data.Finset.Powerset
import Mathlib.Data.Set.Function
import PriceOracle.StormTree

/-!
# Branches and quorums

`StormTree::new` accepts a key list exactly when it is a set of valid keys whose
quorums are few and have distinct aggregates, and then its branches are the
quorums, one leaf each.
-/

namespace PriceOracle

namespace Voting

def requiredApprovals (memberCount : ℕ) : ℕ := (memberCount * 2 + 2) / 3

end Voting

namespace StormTree

variable {W Sig E : Type} [LinearOrder W] (J : Jets W Sig) (K : KeyApi W E)

/-- The subsets of the keys that reach the threshold exactly. -/
def signerSets (nodes : List W) : Finset (Finset W) :=
  nodes.toFinset.powersetCard (minimumThreshold nodes.length)

def branchKey (signers : Finset W) : W := K.aggregate (signers.sort (· ≤ ·))

theorem minimumThreshold_eq_requiredApprovals (nodeCount : ℕ) :
    minimumThreshold nodeCount = Voting.requiredApprovals nodeCount := by
  simp only [minimumThreshold, Voting.requiredApprovals]
  omega

section Validation

omit [LinearOrder W] in
theorem validateNodes_ok_iff (nodes : List W) :
    ∀ index, validateNodes K index nodes = .ok () ↔ ∀ node ∈ nodes, K.fromByteArray node = .ok () := by
  induction nodes with
  | nil => simp [validateNodes]
  | cons node nodes ih =>
    intro index
    rw [validateNodes, List.forall_mem_cons]
    cases hnode : K.fromByteArray node with
    | error source => simp
    | ok _ => simp [ih (index + 1)]

theorem findDuplicate_eq_none_iff (nodes : List W) (hsorted : nodes.Pairwise (· ≤ ·)) :
    findDuplicate nodes = none ↔ nodes.Nodup := by
  induction nodes with
  | nil => simp [findDuplicate]
  | cons first nodes ih =>
    cases nodes with
    | nil => simp [findDuplicate]
    | cons second rest =>
      obtain ⟨hfirst, hrest⟩ := List.pairwise_cons.mp hsorted
      rw [findDuplicate, List.nodup_cons]
      by_cases heq : first = second
      · simp [heq]
      · rw [if_neg heq, ih hrest, iff_and_self]
        intro _ hmem
        -- The next key is the least of the rest, so an equal key further on would be next.
        have hlt : first < second := lt_of_le_of_ne (hfirst second List.mem_cons_self) heq
        rcases List.mem_cons.mp hmem with h | h
        · exact heq h
        · exact absurd ((List.pairwise_cons.mp hrest).1 first h) (not_le.mpr hlt)

end Validation

section Branches

theorem insertBranch_ok_iff (branches branches' : Std.ExtTreeMap W (List W)) (participants : List W) :
    insertBranch K branches participants = .ok branches' ↔
      K.aggregate participants ∉ branches ∧
        branches' = branches.insert (K.aggregate participants) participants := by
  rw [insertBranch]
  split_ifs with h
  · simp [h]
  · simp [h, eq_comm]

theorem insertBranches_cons (branches : Std.ExtTreeMap W (List W)) (p : List W) (ps : List (List W)) :
    (p :: ps).foldlM (insertBranch K) branches =
      if K.aggregate p ∈ branches then .error (.duplicateBranch (K.aggregate p))
      else ps.foldlM (insertBranch K) (branches.insert (K.aggregate p) p) := by
  rw [List.foldlM_cons, insertBranch]
  split_ifs <;> rfl

/-- The insertions succeed exactly when no two aggregates meet. -/
theorem insertBranches_ok_iff (ps : List (List W)) :
    ∀ branches, (∃ branches', ps.foldlM (insertBranch K) branches = .ok branches') ↔
      (ps.map K.aggregate).Nodup ∧ ∀ p ∈ ps, K.aggregate p ∉ branches := by
  induction ps with
  | nil => exact fun branches => ⟨fun _ => ⟨.nil, by simp⟩, fun _ => ⟨branches, rfl⟩⟩
  | cons p ps ih =>
    intro branches
    rw [insertBranches_cons, List.map_cons, List.nodup_cons, List.forall_mem_cons]
    split_ifs with hmem
    · simp [hmem]
    · rw [ih]
      have hfresh : ∀ q, K.aggregate q ∉ branches.insert (K.aggregate p) p ↔
          K.aggregate p ≠ K.aggregate q ∧ K.aggregate q ∉ branches := by
        intro q
        rw [Std.ExtTreeMap.mem_insert, compare_eq_iff_eq, not_or]
      simp only [hfresh, List.mem_map, not_exists, not_and]
      constructor
      · rintro ⟨hnodup, hall⟩
        exact ⟨⟨fun q hq h => (hall q hq).1 h.symm, hnodup⟩, hmem, fun q hq => (hall q hq).2⟩
      · rintro ⟨⟨hne, hnodup⟩, -, hall⟩
        exact ⟨hnodup, fun q hq => ⟨fun h => hne q hq h.symm, hall q hq⟩⟩

theorem insertBranches_spec (ps : List (List W)) :
    ∀ branches branches', ps.foldlM (insertBranch K) branches = .ok branches' →
      branches'.size = branches.size + ps.length ∧
      ∀ b p, branches'[b]? = some p ↔ branches[b]? = some p ∨ p ∈ ps ∧ K.aggregate p = b := by
  induction ps with
  | nil =>
    intro branches branches' h
    cases h
    simp
  | cons p ps ih =>
    intro branches branches' h
    rw [insertBranches_cons] at h
    split_ifs at h with hmem
    obtain ⟨hsize, hget⟩ := ih _ _ h
    constructor
    · rw [hsize, Std.ExtTreeMap.size_insert, if_neg (by rwa [Std.ExtTreeMap.contains_iff_mem]),
        List.length_cons]
      omega
    · intro b q
      rw [hget, Std.ExtTreeMap.getElem?_insert, List.mem_cons]
      split_ifs with hcmp
      · obtain rfl := compare_eq_iff_eq.mp hcmp
        have hnone : branches[K.aggregate p]? = none := Std.ExtTreeMap.getElem?_eq_none hmem
        rw [hnone]
        constructor
        · rintro (hq | hq)
          · exact .inr ⟨.inl (Option.some.inj hq).symm, by rw [Option.some.inj hq]⟩
          · exact .inr ⟨.inr hq.1, hq.2⟩
        · rintro (hq | ⟨rfl | hq, heq⟩)
          · exact absurd hq (by simp)
          · exact .inl rfl
          · exact .inr ⟨hq, heq⟩
      · constructor
        · rintro (hq | hq)
          · exact .inl hq
          · exact .inr ⟨.inr hq.1, hq.2⟩
        · rintro (hq | ⟨rfl | hq, heq⟩)
          · exact .inl hq
          · exact absurd (compare_eq_iff_eq.mpr heq) hcmp
          · exact .inr ⟨hq, heq⟩

end Branches

section Build

variable {nodes : List W}

/-- In an ascending list, the combinations are the sorted subsets. -/
theorem mem_combinations_iff_sort (hasc : nodes.Pairwise (· < ·)) (count : ℕ) (participants : List W) :
    participants ∈ combinations count nodes ↔
      ∃ s ∈ nodes.toFinset.powersetCard count, s.sort (· ≤ ·) = participants := by
  have hle : nodes.Pairwise (· ≤ ·) := hasc.imp le_of_lt
  have hnodup : nodes.Nodup := hasc.imp ne_of_lt
  simp only [mem_combinations_iff, Finset.mem_powersetCard]
  constructor
  · rintro ⟨hsub, rfl⟩
    have hnodup' := hnodup.sublist hsub
    refine ⟨participants.toFinset, ⟨?_, List.toFinset_card_of_nodup hnodup'⟩,
      (List.toFinset_sort (· ≤ ·) hnodup').mpr (hle.sublist hsub)⟩
    intro w hw
    exact List.mem_toFinset.mpr (hsub.subset (List.mem_toFinset.mp hw))
  · rintro ⟨s, ⟨hsub, rfl⟩, rfl⟩
    refine ⟨?_, Finset.length_sort (· ≤ ·)⟩
    have hsubset : s.sort (· ≤ ·) ⊆ nodes := fun w hw =>
      List.mem_toFinset.mp (hsub ((Finset.mem_sort (· ≤ ·)).mp hw))
    exact List.sublist_of_subperm_of_pairwise
      (List.subperm_of_subset (Finset.sort_nodup s (· ≤ ·)) hsubset) (Finset.pairwise_sort s (· ≤ ·)) hle

theorem nodup_aggregates_iff (hasc : nodes.Pairwise (· < ·)) :
    ((combinations (minimumThreshold nodes.length) nodes).map K.aggregate).Nodup ↔
      Set.InjOn (branchKey K) (signerSets nodes) := by
  have hnodup := nodup_combinations (hasc.imp ne_of_lt) (minimumThreshold nodes.length)
  rw [List.nodup_map_iff_inj_on hnodup]
  simp only [mem_combinations_iff_sort hasc]
  have hsort : ∀ s s' : Finset W, s.sort (· ≤ ·) = s'.sort (· ≤ ·) → s = s' := fun s s' h => by
    rw [← Finset.sort_toFinset s (· ≤ ·), h, Finset.sort_toFinset]
  constructor
  · intro hinj s hs s' hs' h
    exact hsort s s' (hinj _ ⟨s, hs, rfl⟩ _ ⟨s', hs', rfl⟩ h)
  · rintro hinj _ ⟨s, hs, rfl⟩ _ ⟨s', hs', rfl⟩ h
    rw [hinj hs hs' h]

/-- What `build` needs of the sorted keys, and what it returns. -/
theorem build_ok_iff (hsorted : nodes.Pairwise (· ≤ ·)) (stormTree : StormTree W) :
    build J K nodes = .ok stormTree ↔
      nodes.Nodup ∧ nodes.length.choose (minimumThreshold nodes.length) ≤ maxBranches ∧
        ∃ branches tree, (combinations (minimumThreshold nodes.length) nodes).foldlM
            (insertBranch K) ∅ = .ok branches ∧
          Smt.MerkleTree.fromLeaves J branches.keys = .ok tree ∧
          stormTree = ⟨nodes, minimumThreshold nodes.length, branches, tree⟩ := by
  have hcount := @combinationCount_small nodes.length (minimumThreshold nodes.length) maxBranches
    (minimumThreshold_le _) (.inl (by decide)) (by decide)
  rw [← findDuplicate_eq_none_iff nodes hsorted, build]
  cases findDuplicate nodes with
  | some duplicate => simp
  | none =>
    by_cases hle : nodes.length.choose (minimumThreshold nodes.length) ≤ maxBranches
    · rw [if_pos hle] at hcount
      simp only [hcount, hle, true_and]
      cases (combinations (minimumThreshold nodes.length) nodes).foldlM (insertBranch K) ∅ with
      | error e => simp
      | ok branches =>
        cases hleaves : Smt.MerkleTree.fromLeaves J branches.keys with
        | error e => simp [hleaves]
        | ok tree => simp [hleaves, eq_comm]
    · rw [if_neg hle] at hcount
      simp only [hcount, hle, false_and, and_false]
      simp

/-- The branch keys of a tree that was built, as a map. -/
theorem branches_spec (hasc : nodes.Pairwise (· < ·)) {branches : Std.ExtTreeMap W (List W)}
    (hrun : (combinations (minimumThreshold nodes.length) nodes).foldlM (insertBranch K) ∅ =
      .ok branches) :
    branches.size = nodes.length.choose (minimumThreshold nodes.length) ∧
    ∀ b p, branches[b]? = some p ↔
      ∃ s ∈ signerSets nodes, branchKey K s = b ∧ s.sort (· ≤ ·) = p := by
  obtain ⟨hsize, hget⟩ := insertBranches_spec K _ _ _ hrun
  rw [length_combinations, Std.ExtTreeMap.size_empty, Nat.zero_add] at hsize
  refine ⟨hsize, fun b p => ?_⟩
  rw [hget, mem_combinations_iff_sort hasc]
  constructor
  · rintro (h | ⟨⟨s, hs, rfl⟩, rfl⟩)
    · exact absurd h (by simp)
    · exact ⟨s, hs, rfl, rfl⟩
  · rintro ⟨s, hs, rfl, rfl⟩
    exact .inr ⟨⟨s, hs, rfl⟩, rfl⟩

theorem keys_ascending (branches : Std.ExtTreeMap W (List W)) : branches.keys.Pairwise (· < ·) :=
  Std.ExtTreeMap.ordered_keys.imp fun h => compare_lt_iff_lt.mp h

/-- The Merkle tree over the branch keys never fails: the keys are distinct and few. -/
theorem fromLeaves_keys_ok (branches : Std.ExtTreeMap W (List W)) (hsize : branches.size ≤ maxBranches) :
    ∃ tree, Smt.MerkleTree.fromLeaves J branches.keys = .ok tree := by
  refine Smt.MerkleTree.fromLeaves_ok_iff _ |>.mpr ⟨(keys_ascending branches).imp ne_of_lt, ?_⟩
  rw [Std.ExtTreeMap.length_keys]
  exact hsize.trans (by decide)

theorem new_ok_iff (nodes : List W) (stormTree : StormTree W) :
    new J K nodes = .ok stormTree ↔
      minNodes ≤ nodes.length ∧ (∀ node ∈ nodes, K.fromByteArray node = .ok ()) ∧
        build J K (nodes.insertionSort (· ≤ ·)) = .ok stormTree := by
  rw [← validateNodes_ok_iff K nodes 0, new]
  by_cases hfew : nodes.length < minNodes
  · rw [if_pos hfew]
    simp [Nat.not_le.mpr hfew]
  · rw [if_neg hfew]
    cases validateNodes K 0 nodes with
    | error e => simp
    | ok _ => simp [Nat.not_lt.mp hfew]

end Build

section Construction

variable {J K} {nodes : List W} {stormTree : StormTree W}

theorem signerSets_insertionSort (nodes : List W) :
    signerSets (nodes.insertionSort (· ≤ ·)) = signerSets nodes := by
  have hperm := List.perm_insertionSort (· ≤ ·) nodes
  rw [signerSets, signerSets, List.toFinset_eq_of_perm _ _ hperm, hperm.length_eq]

theorem insertionSort_eq_of_perm {nodes' : List W} (hperm : nodes'.Perm nodes) :
    nodes'.insertionSort (· ≤ ·) = nodes.insertionSort (· ≤ ·) :=
  List.Perm.eq_of_pairwise (fun _ _ _ _ => le_antisymm)
    (List.pairwise_insertionSort (· ≤ ·) nodes') (List.pairwise_insertionSort (· ≤ ·) nodes)
    (((List.perm_insertionSort (· ≤ ·) nodes').trans hperm).trans
      (List.perm_insertionSort (· ≤ ·) nodes).symm)

/-- `new` does not see the order of its input. -/
theorem new_perm {nodes' : List W} (hperm : nodes'.Perm nodes) (h : new J K nodes = .ok stormTree) :
    new J K nodes' = .ok stormTree := by
  rw [new_ok_iff] at h ⊢
  rw [insertionSort_eq_of_perm hperm, hperm.length_eq]
  exact ⟨h.1, fun node hnode => h.2.1 node (hperm.mem_iff.mp hnode), h.2.2⟩

theorem new_succeeds_iff (nodes : List W) :
    (∃ stormTree, new J K nodes = .ok stormTree) ↔
      minNodes ≤ nodes.length ∧ (∀ node ∈ nodes, K.fromByteArray node = .ok ()) ∧ nodes.Nodup ∧
        nodes.length.choose (minimumThreshold nodes.length) ≤ maxBranches ∧
        Set.InjOn (branchKey K) (signerSets nodes) := by
  have hsorted := List.pairwise_insertionSort (· ≤ ·) nodes
  have hperm := List.perm_insertionSort (· ≤ ·) nodes
  have hasc : nodes.Nodup → (nodes.insertionSort (· ≤ ·)).Pairwise (· < ·) := fun h =>
    hsorted.imp₂ (fun _ _ => lt_of_le_of_ne) (hperm.nodup_iff.mpr h)
  simp only [new_ok_iff, build_ok_iff J K hsorted, hperm.nodup_iff, List.length_insertionSort]
  rw [← signerSets_insertionSort]
  constructor
  · rintro ⟨_, hmin, hvalid, hnodup, hcount, branches, _, hrun, -⟩
    refine ⟨hmin, hvalid, hnodup, hcount, ?_⟩
    rw [← nodup_aggregates_iff K (hasc hnodup)]
    rw [← List.length_insertionSort (· ≤ ·) nodes] at hrun
    exact ((insertBranches_ok_iff K _ ∅).mp ⟨branches, hrun⟩).1
  · rintro ⟨hmin, hvalid, hnodup, hcount, hinj⟩
    rw [← nodup_aggregates_iff K (hasc hnodup)] at hinj
    obtain ⟨branches, hrun⟩ := (insertBranches_ok_iff K _ ∅).mpr
      ⟨hinj, fun _ _ => Std.ExtTreeMap.not_mem_empty⟩
    have hsize := (branches_spec K (hasc hnodup) hrun).1
    rw [List.length_insertionSort] at hsize hrun
    obtain ⟨tree, htree⟩ := fromLeaves_keys_ok J branches (hsize.trans_le hcount)
    exact ⟨_, hmin, hvalid, hnodup, hcount, branches, tree, hrun, htree, rfl⟩

/-- The parts of a tree that was built. -/
theorem new_spec (h : new J K nodes = .ok stormTree) :
    nodes.Nodup ∧ stormTree.threshold = minimumThreshold nodes.length ∧
      stormTree.branches.size = nodes.length.choose (minimumThreshold nodes.length) ∧
      stormTree.branches.size ≤ maxBranches ∧
      (∀ b p, stormTree.branches[b]? = some p ↔
        ∃ s ∈ signerSets nodes, branchKey K s = b ∧ s.sort (· ≤ ·) = p) ∧
      Smt.MerkleTree.fromLeaves J stormTree.branches.keys = .ok stormTree.tree := by
  have hsorted := List.pairwise_insertionSort (· ≤ ·) nodes
  have hperm := List.perm_insertionSort (· ≤ ·) nodes
  obtain ⟨-, -, hbuild⟩ := (new_ok_iff J K nodes stormTree).mp h
  obtain ⟨hnodup, hcount, branches, tree, hrun, htree, rfl⟩ := (build_ok_iff J K hsorted _).mp hbuild
  have hasc := hsorted.imp₂ (fun _ _ => lt_of_le_of_ne) hnodup
  obtain ⟨hsize, hget⟩ := branches_spec K hasc hrun
  rw [signerSets_insertionSort] at hget
  rw [List.length_insertionSort] at hsize hcount
  exact ⟨hperm.nodup_iff.mp hnodup, congrArg minimumThreshold (List.length_insertionSort _ _), hsize,
    hsize.trans_le hcount, hget, htree⟩

theorem mem_branches_iff (h : new J K nodes = .ok stormTree) (branch : W) :
    branch ∈ stormTree.branches ↔ ∃ s ∈ signerSets nodes, branchKey K s = branch := by
  obtain ⟨-, -, -, -, hget, -⟩ := new_spec h
  rw [← Std.ExtTreeMap.isSome_getElem?_iff_mem, Option.isSome_iff_exists]
  simp only [hget]
  constructor
  · rintro ⟨_, s, hs, hkey, -⟩
    exact ⟨s, hs, hkey⟩
  · rintro ⟨s, hs, hkey⟩
    exact ⟨_, s, hs, hkey, rfl⟩

theorem nodesForBranch_ok_iff (h : new J K nodes = .ok stormTree) (branch : W)
    (participants : List W) :
    nodesForBranch (E := E) stormTree branch = .ok participants ↔
      ∃ s ∈ signerSets nodes, branchKey K s = branch ∧ s.sort (· ≤ ·) = participants := by
  obtain ⟨-, -, -, -, hget, -⟩ := new_spec h
  rw [← hget, nodesForBranch]
  cases stormTree.branches[branch]? <;> simp

/-- A branch verifies when its proof folds to the root. -/
theorem verifyBranch_iff {root branch : W} {p : Smt.Proof W} : verifyBranch J root branch p = true ↔
    p.leaf = branch ∧ p.root = root ∧
      MerkleFold.fold (Smt.hashing J) (Smt.hashLeaf J branch) p.siblings = root := by
  unfold verifyBranch Smt.verifyProof
  rw [decide_eq_true_iff, decide_eq_true_iff]
  constructor
  · rintro ⟨rfl, rfl, hfold⟩
    exact ⟨rfl, rfl, hfold⟩
  · rintro ⟨rfl, rfl, hfold⟩
    exact ⟨rfl, rfl, hfold⟩

/-- Every branch has a proof, no deeper than the covenant's fold, that verifies against the root. -/
theorem proof_spec (h : new J K nodes = .ok stormTree) (branch : W)
    (hbranch : branch ∈ stormTree.branches) :
    ∃ p, proof (E := E) J stormTree branch = .ok p ∧ 1 ≤ p.siblings.length ∧ p.siblings.length ≤ treeDepth ∧
      verifyBranch J (root J stormTree) branch p = true := by
  obtain ⟨-, -, -, hfew, -, htree⟩ := new_spec h
  obtain ⟨ht, hdepth⟩ := Smt.MerkleTree.fromLeaves_holds htree
  have hleaf : branch ∈ stormTree.branches.keys.insertionSort (· ≤ ·) :=
    (List.perm_insertionSort (· ≤ ·) _).mem_iff.mpr (Std.ExtTreeMap.mem_keys.mpr hbranch)
  obtain ⟨k, hk⟩ := List.mem_iff_getElem?.mp hleaf
  obtain ⟨siblings, hproof, hlen, hfold⟩ := ht.proof_ok k branch hk
  rw [Std.ExtTreeMap.length_keys] at hdepth
  refine ⟨⟨branch, stormTree.tree.root J, siblings⟩, ?_, ?_, ?_, ?_⟩
  · rw [proof, if_neg (not_not.mpr hbranch), hproof]
  · change 1 ≤ siblings.length
    rw [hlen, hdepth]
    exact le_max_left _ _
  · change siblings.length ≤ treeDepth
    rw [hlen, hdepth]
    exact max_le (by decide) (Nat.clog_le_of_le_pow (hfew.trans (by decide)))
  · exact verifyBranch_iff.mpr ⟨rfl, rfl, hfold⟩

theorem proof_ok (h : new J K nodes = .ok stormTree) (branch : W)
    (hbranch : branch ∈ stormTree.branches) :
    ∃ p, proof (E := E) J stormTree branch = .ok p ∧ p.siblings.length ≤ treeDepth := by
  obtain ⟨p, hproof, -, hdepth, -⟩ := proof_spec h branch hbranch
  exact ⟨p, hproof, hdepth⟩

/-- What `proof` returns is the proof of a branch. -/
theorem proof_verified (h : new J K nodes = .ok stormTree) {branch : W} {p : Smt.Proof W}
    (hproof : proof (E := E) J stormTree branch = .ok p) :
    1 ≤ p.siblings.length ∧ p.siblings.length ≤ treeDepth ∧ verifyBranch J (root J stormTree) branch p = true := by
  have hbranch : branch ∈ stormTree.branches := by
    by_contra hunknown
    rw [proof, if_pos hunknown] at hproof
    cases hproof
  obtain ⟨p', hproof', hspec⟩ := @proof_spec _ _ E _ _ _ _ _ h branch hbranch
  rw [hproof] at hproof'
  cases hproof'
  exact hspec

/-- Two quorums share at least twice the threshold less the members. -/
theorem card_inter_signerSets (hnodup : nodes.Nodup) (s s' : Finset W) (hs : s ∈ signerSets nodes)
    (hs' : s' ∈ signerSets nodes) :
    2 * minimumThreshold nodes.length ≤ (s ∩ s').card + nodes.length := by
  obtain ⟨hsub, hcard⟩ := Finset.mem_powersetCard.mp hs
  obtain ⟨hsub', hcard'⟩ := Finset.mem_powersetCard.mp hs'
  have hunion : (s ∪ s').card ≤ nodes.length := by
    rw [← List.toFinset_card_of_nodup hnodup]
    exact Finset.card_le_card (Finset.union_subset hsub hsub')
  have hsum := Finset.card_union_add_card_inter s s'
  omega

theorem new_iff_and_quorums (nodes : List W) :
    ((∃ stormTree, new J K nodes = .ok stormTree) ↔
      3 ≤ nodes.length ∧ (∀ node ∈ nodes, K.fromByteArray node = .ok ()) ∧ nodes.Nodup ∧
        nodes.length.choose (nodes.length - nodes.length / 3) ≤ maxBranches ∧
        Set.InjOn (branchKey K) (signerSets nodes)) ∧
    ∀ stormTree, new J K nodes = .ok stormTree →
      stormTree.threshold = nodes.length - nodes.length / 3 ∧
      stormTree.threshold = Voting.requiredApprovals nodes.length ∧
      stormTree.branches.keys.Pairwise (· < ·) ∧
      Set.BijOn (branchKey K) (signerSets nodes) {branch | branch ∈ stormTree.branches} ∧
      (∀ branch participants, nodesForBranch (E := E) stormTree branch = .ok participants ↔
        ∃ s ∈ signerSets nodes, branchKey K s = branch ∧ s.sort (· ≤ ·) = participants) ∧
      (∀ nodes', nodes'.Perm nodes → new J K nodes' = .ok stormTree) ∧
      (∀ nodes' stormTree', new J K nodes' = .ok stormTree' →
        nodes'.toFinset = nodes.toFinset → stormTree'.root J = stormTree.root J) ∧
      (∀ branch ∈ stormTree.branches, ∃ p, proof (E := E) J stormTree branch = .ok p ∧
        p.siblings.length ≤ treeDepth) ∧
      ∀ s ∈ signerSets nodes, ∀ s' ∈ signerSets nodes,
        2 * stormTree.threshold - nodes.length ≤ (s ∩ s').card ∧
          nodes.length < 3 * ((s ∩ s').card + 1) := by
  refine ⟨new_succeeds_iff nodes, fun stormTree h => ?_⟩
  have hinj := ((new_succeeds_iff nodes).mp ⟨stormTree, h⟩).2.2.2.2
  obtain ⟨hnodup, hthreshold, -, -, -, -⟩ := new_spec h
  refine ⟨hthreshold, ?_, keys_ascending _, ⟨?_, hinj, ?_⟩, nodesForBranch_ok_iff h,
    fun _ hperm => new_perm hperm h, ?_, proof_ok h, ?_⟩
  · rw [hthreshold, minimumThreshold_eq_requiredApprovals]
  · exact fun s hs => (mem_branches_iff h _).mpr ⟨s, hs, rfl⟩
  · intro branch hbranch
    obtain ⟨s, hs, hkey⟩ := (mem_branches_iff h branch).mp hbranch
    exact ⟨s, hs, hkey⟩
  · intro nodes' stormTree' h' hset
    have hperm : nodes.Perm nodes' :=
      (List.perm_of_nodup_nodup_toFinset_eq (new_spec h').1 hnodup hset).symm
    have heq := (new_perm hperm h').symm.trans h
    rw [Except.ok.inj heq]
  · intro s hs s' hs'
    have hcard := card_inter_signerSets hnodup s s' hs hs'
    have hbound : nodes.length ≤ 3 * (2 * minimumThreshold nodes.length - nodes.length) := by
      rw [minimumThreshold]
      omega
    rw [hthreshold]
    omega

end Construction

end StormTree
end PriceOracle
