import PriceOracle.Smt

/-!
# The Merkle tree invariant

The heap array of a tree with leaves `L` holds, at `2 ^ (depth - h) + r`, the digest
of slot `r` of height `h` over `L`. Rehashing one path restores this after an
addition, because the slots off the path do not change.
-/

namespace PriceOracle

namespace Smt

open MerkleFold (slot)

section Heap

/-- Two heap indices agree only at the same level and offset. -/
theorem heapIndex_inj {a b r s : ℕ} (hr : r < 2 ^ a) (hs : s < 2 ^ b)
    (h : 2 ^ a + r = 2 ^ b + s) : a = b ∧ r = s := by
  have htop : ∀ {a r : ℕ}, r < 2 ^ a → Nat.log 2 (2 ^ a + r) = a := by
    intro a r hr
    have hpow : 2 ^ (a + 1) = 2 ^ a * 2 := pow_succ 2 a
    exact Nat.log_eq_of_pow_le_of_lt_pow (by omega) (by omega)
  have hab : a = b := by
    rw [← htop hr, ← htop hs, h]
  subst hab
  exact ⟨rfl, Nat.add_left_cancel h⟩

theorem heapIndex_parent {d h : ℕ} (hd : h < d) (k : ℕ) :
    (2 ^ (d - h) + k / 2 ^ h) / 2 = 2 ^ (d - (h + 1)) + k / 2 ^ (h + 1) := by
  have hpow : 2 ^ (d - h) = 2 * 2 ^ (d - (h + 1)) := by
    rw [← pow_succ', show d - (h + 1) + 1 = d - h by omega]
  have hdiv : k / 2 ^ (h + 1) = k / 2 ^ h / 2 := by rw [pow_succ, Nat.div_div_eq_div_mul]
  rw [hpow, hdiv]
  omega

theorem div_pow_lt {d k h : ℕ} (hk : k < 2 ^ d) (hd : h ≤ d) : k / 2 ^ h < 2 ^ (d - h) := by
  rw [Nat.div_lt_iff_lt_mul (by positivity), ← pow_add, Nat.sub_add_cancel hd]
  exact hk

theorem xor_one_lt {a r : ℕ} (ha : 0 < a) (hr : r < 2 ^ a) : r ^^^ 1 < 2 ^ a := by
  have hdiv := MerkleFold.xor_one_div_two r
  have hmod := MerkleFold.xor_one_mod_two r
  have hpow : 2 ^ a = 2 * 2 ^ (a - 1) := by rw [← pow_succ', Nat.sub_add_cancel ha]
  omega

theorem heapIndex_xor_one {a r : ℕ} (ha : 0 < a) : 2 ^ a + r ^^^ 1 = 2 ^ a + (r ^^^ 1) := by
  have hdiv := MerkleFold.xor_one_div_two r
  have hmod := MerkleFold.xor_one_mod_two r
  have hdiv' := MerkleFold.xor_one_div_two (2 ^ a + r)
  have hmod' := MerkleFold.xor_one_mod_two (2 ^ a + r)
  have hpow : 2 ^ a = 2 * 2 ^ (a - 1) := by rw [← pow_succ', Nat.sub_add_cancel ha]
  omega

end Heap

section Paths

variable {W Sig : Type} (J : Jets W Sig)

theorem nodeAt_setIfInBounds (nodes : Array W) (i j : ℕ) (w : W) (hi : i < nodes.size) :
    nodeAt J (nodes.setIfInBounds i w) j = if i = j then w else nodeAt J nodes j := by
  simp only [nodeAt, Array.getD_eq_getD_getElem?, Array.getElem?_setIfInBounds]
  split_ifs with h
  · rfl
  · rfl

/-- Every node of the heap below height `bound`, and every node off the path of leaf `k`,
holds its slot. -/
def OnPath (depth : ℕ) (leaves : List W) (k bound : ℕ) (nodes : Array W) : Prop :=
  nodes.size = 2 ^ (depth + 1) ∧
  ∀ h ≤ depth, ∀ r < 2 ^ (depth - h), h < bound ∨ r ≠ k / 2 ^ h →
    nodeAt J nodes (2 ^ (depth - h) + r) = slot (hashing J) leaves h r

variable {depth k : ℕ} {leaves : List W}

/-- One round of `rehash_path`. -/
theorem OnPath.rehash_step {h : ℕ} {nodes : Array W} (hpath : OnPath J depth leaves k (h + 1) nodes)
    (hk : k < leaves.length) (hcap : k < 2 ^ depth) (hh : h + 1 ≤ depth) :
    OnPath J depth leaves k (h + 2)
      (nodes.setIfInBounds (2 ^ (depth - (h + 1)) + k / 2 ^ (h + 1))
        (hashNode J (nodeAt J nodes ((2 ^ (depth - (h + 1)) + k / 2 ^ (h + 1)) * 2))
          (nodeAt J nodes ((2 ^ (depth - (h + 1)) + k / 2 ^ (h + 1)) * 2 + 1)))) := by
  obtain ⟨hsize, hslots⟩ := hpath
  have hr := div_pow_lt hcap hh
  set r := k / 2 ^ (h + 1) with hrdef
  have hpow : 2 ^ (depth - h) = 2 * 2 ^ (depth - (h + 1)) := by
    rw [← pow_succ', show depth - (h + 1) + 1 = depth - h by omega]
  have hleft := hslots h (by omega) (2 * r) (by omega) (.inl (by omega))
  have hright := hslots h (by omega) (2 * r + 1) (by omega) (.inl (by omega))
  have hocc : r * 2 ^ (h + 1) < leaves.length := lt_of_le_of_lt (Nat.div_mul_le_self k _) hk
  have hnode : hashNode J (nodeAt J nodes ((2 ^ (depth - (h + 1)) + r) * 2))
      (nodeAt J nodes ((2 ^ (depth - (h + 1)) + r) * 2 + 1)) = slot (hashing J) leaves (h + 1) r := by
    rw [MerkleFold.slot_succ (hashing J) leaves h r hocc, ← hleft, ← hright, hpow]
    change hashNode J _ _ = hashNode J _ _
    congr 2 <;> ring
  have hbound : 2 ^ (depth - (h + 1)) + r < nodes.size := by
    have hle : 2 ^ (depth - h) ≤ 2 ^ (depth + 1) := Nat.pow_le_pow_right (by omega) (by omega)
    omega
  rw [hnode]
  refine ⟨by rw [Array.size_setIfInBounds, hsize], fun h' hh' s hs hcase => ?_⟩
  rw [nodeAt_setIfInBounds J _ _ _ _ hbound]
  split_ifs with heq
  · obtain ⟨hlevel, hoffset⟩ := heapIndex_inj hr hs heq
    rw [show h' = h + 1 by omega, hoffset]
  · refine hslots h' hh' s hs ?_
    rcases hcase with hlt | hoff
    · rcases Nat.lt_succ_iff_lt_or_eq.mp hlt with hlt | rfl
      · exact .inl hlt
      · exact .inr fun hs' => heq (by rw [hs'])
    · exact .inr hoff

/-- `rehash_path` completes the path up to the root. -/
theorem OnPath.rehashFrom (hk : k < leaves.length) (hcap : k < 2 ^ depth) (n : ℕ) :
    ∀ (h : ℕ) (nodes : Array W), depth = h + 1 + n → OnPath J depth leaves k (h + 1) nodes →
      OnPath J depth leaves k (depth + 1)
        (Smt.rehashFrom J nodes (2 ^ (depth - (h + 1)) + k / 2 ^ (h + 1))) := by
  induction n with
  | zero =>
    intro h nodes hdepth hpath
    have hroot : 2 ^ (depth - (h + 1)) + k / 2 ^ (h + 1) = 1 := by
      have hzero := div_pow_lt hcap (show h + 1 ≤ depth by omega)
      rw [show depth - (h + 1) = 0 by omega] at hzero ⊢
      rw [Nat.lt_one_iff.mp hzero, pow_zero]
    have hstep := hpath.rehash_step J hk hcap (by omega)
    rw [hroot] at hstep ⊢
    rw [Smt.rehashFrom, if_neg Nat.one_ne_zero, Smt.rehashFrom, if_pos (by rfl)]
    rw [show depth + 1 = h + 2 by omega]
    exact (show h + 1 = depth by omega) ▸ hstep
  | succ n ih =>
    intro h nodes hdepth hpath
    have hstep := hpath.rehash_step J hk hcap (by omega)
    have hpos : 0 < 2 ^ (depth - (h + 1)) := by positivity
    rw [Smt.rehashFrom, if_neg (Nat.add_pos_left hpos _).ne', heapIndex_parent (by omega)]
    exact ih (h + 1) _ (by omega) hstep

/-- The siblings read off the array are those of the filled tree. -/
theorem OnPath.siblingsFrom {nodes : Array W} (hpath : OnPath J depth leaves k (depth + 1) nodes)
    (hcap : k < 2 ^ depth) (n : ℕ) :
    ∀ h, depth = h + n →
      Smt.siblingsFrom J nodes (2 ^ (depth - h) + k / 2 ^ h) =
        MerkleFold.siblings (hashing J) leaves k h n := by
  induction n with
  | zero =>
    intro h hdepth
    have hzero := div_pow_lt hcap (show h ≤ depth by omega)
    rw [show depth - h = 0 by omega] at hzero ⊢
    rw [Smt.siblingsFrom, if_pos (by omega)]
    rfl
  | succ n ih =>
    intro h hdepth
    have hpos : 0 < depth - h := by omega
    have htwo : 2 ≤ 2 ^ (depth - h) := Nat.le_self_pow hpos.ne' 2
    have hlt := xor_one_lt hpos (div_pow_lt hcap (show h ≤ depth by omega))
    have hinner : ¬2 ^ (depth - h) + k / 2 ^ h ≤ 1 :=
      Nat.not_le.mpr (lt_of_lt_of_le htwo (Nat.le_add_right _ _))
    have hparity : (2 ^ (depth - h) + k / 2 ^ h) % 2 = k / 2 ^ h % 2 := by
      have hpow : 2 ^ (depth - h) = 2 * 2 ^ (depth - h - 1) := by
        rw [← pow_succ', Nat.sub_add_cancel hpos]
      omega
    rw [Smt.siblingsFrom, if_neg hinner, hparity, heapIndex_xor_one hpos,
      hpath.2 h (by omega) _ hlt (.inl (by omega)), heapIndex_parent (by omega), ih (h + 1) (by omega)]
    rfl

end Paths

namespace MerkleTree

variable {W Sig : Type} [LinearOrder W] (J : Jets W Sig)

theorem getElem?_concat_iff {A : Type} (as : List A) (a b : A) (k : ℕ) :
    (as ++ [a])[k]? = some b ↔ as[k]? = some b ∨ k = as.length ∧ a = b := by
  rcases Nat.lt_trichotomy k as.length with hk | rfl | hk
  · rw [List.getElem?_append_left hk]
    simp [hk.ne]
  · simp
  · rw [List.getElem?_eq_none (by simp; omega), List.getElem?_eq_none hk.le]
    simp [hk.ne']

/-- The tree holds exactly `leaves`, in ascending order. -/
structure Holds (tree : MerkleTree W) (leaves : List W) : Prop where
  depth_pos : 0 < tree.depth
  size : tree.nodes.size = 2 ^ (tree.depth + 1)
  length_le : leaves.length ≤ 2 ^ tree.depth
  ascending : leaves.Pairwise (· < ·)
  nodes : ∀ h ≤ tree.depth, ∀ r < 2 ^ (tree.depth - h),
    nodeAt J tree.nodes (2 ^ (tree.depth - h) + r) = slot (hashing J) leaves h r
  count : tree.positions.size = leaves.length
  positions : ∀ leaf i, tree.positions[leaf]? = some i ↔
    ∃ k, leaves[k]? = some leaf ∧ i = 2 ^ tree.depth + k

variable {J} {tree : MerkleTree W} {leaves : List W}

theorem new_holds {depth : ℕ} (h : new J depth = .ok tree) :
    tree.depth = depth ∧ 0 < depth ∧ depth ≤ maxDepth ∧ tree.Holds J [] := by
  simp only [new] at h
  split_ifs at h with hzero hmax
  cases h
  refine ⟨rfl, Nat.pos_of_ne_zero hzero, Nat.not_lt.mp hmax, ?_⟩
  exact
    { depth_pos := Nat.pos_of_ne_zero hzero
      size := Array.size_replicate
      length_le := Nat.zero_le _
      ascending := .nil
      nodes := fun h _ r _ => by
        rw [MerkleFold.slot_empty _ _ _ _ (Nat.zero_le _)]
        simp only [nodeAt, Array.getD_eq_getD_getElem?, Array.getElem?_replicate]
        split_ifs <;> rfl
      count := Std.ExtTreeMap.size_empty
      positions := by simp }

namespace Holds

theorem onPath (ht : tree.Holds J leaves) (k : ℕ) :
    OnPath J tree.depth leaves k (tree.depth + 1) tree.nodes :=
  ⟨ht.size, fun h hh r hr _ => ht.nodes h hh r hr⟩

theorem mem_positions_iff (ht : tree.Holds J leaves) (leaf : W) :
    leaf ∈ tree.positions ↔ leaf ∈ leaves := by
  rw [← Std.ExtTreeMap.isSome_getElem?_iff_mem, Option.isSome_iff_exists, List.mem_iff_getElem?]
  constructor
  · rintro ⟨i, hi⟩
    obtain ⟨k, hk, -⟩ := (ht.positions leaf i).mp hi
    exact ⟨k, hk⟩
  · rintro ⟨k, hk⟩
    exact ⟨_, (ht.positions leaf _).mpr ⟨k, hk, rfl⟩⟩

/-- The ordering guard passes exactly when the new leaf is above every leaf present. -/
theorem guard_eq_none_iff (ht : tree.Holds J leaves) (leaf : W) :
    tree.positions.maxKey?.filter (leaf ≤ ·) = none ↔ ∀ l ∈ leaves, l < leaf := by
  rw [Option.filter_eq_none_iff]
  constructor
  · intro hguard l hl
    have hmem := (ht.mem_positions_iff l).mpr hl
    cases hmax : tree.positions.maxKey? with
    | none =>
      rw [Std.ExtTreeMap.maxKey?_eq_none_iff] at hmax
      rw [hmax] at hmem
      exact absurd hmem Std.ExtTreeMap.not_mem_empty
    | some last =>
      have hle := (Std.ExtTreeMap.maxKey?_eq_some_iff_mem_and_forall.mp hmax).2 l hmem
      exact lt_of_le_of_lt (compare_le_iff_le.mp (Ordering.ne_gt_iff_isLE.mpr hle)) (by simpa using hguard last hmax)
  · intro hall last hlast
    have hmem := (Std.ExtTreeMap.maxKey?_eq_some_iff_mem_and_forall.mp hlast).1
    simpa using hall last ((ht.mem_positions_iff last).mp hmem)

theorem append (ht : tree.Holds J leaves) (leaf : W) (habove : ∀ l ∈ leaves, l < leaf)
    (hroom : leaves.length < 2 ^ tree.depth) : (tree.append J leaf).Holds J (leaves ++ [leaf]) := by
  obtain ⟨n, hn⟩ : ∃ n, tree.depth = n + 1 := Nat.exists_eq_add_one.mpr ht.depth_pos
  have hbound : 2 ^ tree.depth + leaves.length < tree.nodes.size := by
    rw [ht.size, pow_succ]
    omega
  have hpath : OnPath J tree.depth (leaves ++ [leaf]) leaves.length 1
      (tree.nodes.setIfInBounds (2 ^ tree.depth + leaves.length) (hashLeaf J leaf)) := by
    refine ⟨by rw [Array.size_setIfInBounds, ht.size], fun h hh r hr hcase => ?_⟩
    rw [nodeAt_setIfInBounds J _ _ _ _ hbound]
    split_ifs with heq
    · obtain ⟨hlevel, rfl⟩ := heapIndex_inj hroom hr heq
      obtain rfl : h = 0 := by omega
      exact (MerkleFold.slot_zero (hashing J) _ _ leaf List.getElem?_concat_length).symm
    · have hoff : r ≠ leaves.length / 2 ^ h := by
        rcases hcase with hlt | hoff
        · obtain rfl : h = 0 := by omega
          rw [pow_zero, Nat.div_one]
          exact fun hr' => heq (by rw [hr', Nat.sub_zero])
        · exact hoff
      rw [MerkleFold.slot_concat (hashing J) leaves leaf h r hoff]
      exact ht.nodes h hh r hr
  have hdone := hpath.rehashFrom J (by simp) hroom n 0 _ (by omega)
  have hindex : (2 ^ tree.depth + leaves.length) / 2 =
      2 ^ (tree.depth - (0 + 1)) + leaves.length / 2 ^ (0 + 1) := by
    simpa using heapIndex_parent ht.depth_pos leaves.length
  rw [← hindex] at hdone
  have hnew : (tree.append J leaf).nodes =
      Smt.rehashFrom J (tree.nodes.setIfInBounds (2 ^ tree.depth + leaves.length) (hashLeaf J leaf))
        ((2 ^ tree.depth + leaves.length) / 2) := by
    rw [MerkleTree.append, firstLeafIndex, ht.count]
    rfl
  have hfresh : leaf ∉ tree.positions := fun hmem =>
    lt_irrefl leaf (habove leaf ((ht.mem_positions_iff leaf).mp hmem))
  rw [← hnew] at hdone
  exact
    { depth_pos := ht.depth_pos
      size := hdone.1
      length_le := by
        rw [List.length_append]
        exact hroom
      ascending := by
        rw [List.pairwise_append]
        refine ⟨ht.ascending, List.pairwise_singleton _ _, fun l hl l' hl' => ?_⟩
        rw [List.mem_singleton.mp hl']
        exact habove l hl
      nodes := fun h hh r hr => hdone.2 h hh r hr (.inl (Nat.lt_succ_of_le hh))
      count := by
        have hsize := Std.ExtTreeMap.size_insert (t := tree.positions) (k := leaf)
          (v := tree.firstLeafIndex + tree.positions.size)
        rw [if_neg (by rwa [Std.ExtTreeMap.contains_iff_mem])] at hsize
        rw [List.length_append, ← ht.count]
        exact hsize
      positions := fun l i => by
        change (tree.positions.insert leaf (tree.firstLeafIndex + tree.positions.size))[l]? = some i ↔ _
        rw [Std.ExtTreeMap.getElem?_insert, ht.count]
        split_ifs with hcmp
        · obtain rfl := compare_eq_iff_eq.mp hcmp
          constructor
          · intro hi
            exact ⟨leaves.length, List.getElem?_concat_length, (Option.some.inj hi).symm⟩
          · rintro ⟨k, hk, rfl⟩
            rcases (getElem?_concat_iff _ _ _ _).mp hk with hold | ⟨rfl, -⟩
            · exact absurd (habove _ (List.mem_of_getElem? hold)) (lt_irrefl _)
            · rfl
        · rw [ht.positions l i]
          refine exists_congr fun k => and_congr_left fun _ => ?_
          rw [getElem?_concat_iff]
          exact ⟨.inl, fun h => h.resolve_right fun hlast => hcmp (compare_eq_iff_eq.mpr hlast.2)⟩ }

/-- What `add` does, in both outcomes. -/
theorem add_ok_iff (ht : tree.Holds J leaves) (leaf : W) (tree' : MerkleTree W) :
    tree.add J leaf = .ok tree' ↔
      (∀ l ∈ leaves, l < leaf) ∧ leaves.length < 2 ^ tree.depth ∧ tree' = tree.append J leaf := by
  rw [← ht.guard_eq_none_iff leaf, add, ht.count]
  cases hguard : tree.positions.maxKey?.filter (leaf ≤ ·) with
  | some last => simp
  | none =>
    change (if leaves.length = 2 ^ tree.depth then _ else _) = _ ↔ _
    by_cases hfull : leaves.length = 2 ^ tree.depth
    · simp [hfull]
    · have hroom : leaves.length < 2 ^ tree.depth := lt_of_le_of_ne ht.length_le hfull
      rw [if_neg hfull, Except.ok.injEq, eq_comm]
      simp [hroom]

theorem add (ht : tree.Holds J leaves) (leaf : W) (tree' : MerkleTree W)
    (hadd : tree.add J leaf = .ok tree') :
    tree'.Holds J (leaves ++ [leaf]) ∧ tree'.depth = tree.depth := by
  obtain ⟨habove, hroom, rfl⟩ := (ht.add_ok_iff leaf tree').mp hadd
  exact ⟨ht.append leaf habove hroom, rfl⟩

/-- A run of successful additions extends the leaves by exactly the leaves added. -/
theorem addAll (more : List W) :
    ∀ (leaves : List W) (tree : MerkleTree W), tree.Holds J leaves → ∀ tree',
      tree.addAll J more = .ok tree' →
        tree'.Holds J (leaves ++ more) ∧ tree'.depth = tree.depth := by
  induction more with
  | nil =>
    intro leaves tree ht tree' hrun
    cases hrun
    rw [List.append_nil]
    exact ⟨ht, rfl⟩
  | cons leaf more ih =>
    intro leaves tree ht tree' hrun
    rw [MerkleTree.addAll, List.foldlM_cons] at hrun
    cases hadd : tree.add J leaf with
    | error e =>
      rw [hadd] at hrun
      cases hrun
    | ok next =>
      rw [hadd] at hrun
      obtain ⟨hnext, hdepth⟩ := ht.add leaf next hadd
      obtain ⟨hdone, hdepth'⟩ := ih _ next hnext tree' hrun
      rw [List.append_assoc] at hdone
      exact ⟨hdone, hdepth'.trans hdepth⟩

theorem addAll_ok (more : List W) :
    ∀ (leaves : List W) (tree : MerkleTree W), tree.Holds J leaves →
      (leaves ++ more).Pairwise (· < ·) → (leaves ++ more).length ≤ 2 ^ tree.depth →
        ∃ tree', tree.addAll J more = .ok tree' := by
  induction more with
  | nil => exact fun _ tree _ _ _ => ⟨tree, rfl⟩
  | cons leaf more ih =>
    intro leaves tree ht hasc hroom
    have habove : ∀ l ∈ leaves, l < leaf := fun l hl =>
      (List.pairwise_append.mp hasc).2.2 l hl leaf List.mem_cons_self
    have hlt : leaves.length < 2 ^ tree.depth := by
      rw [List.length_append, List.length_cons] at hroom
      omega
    have hadd := (ht.add_ok_iff leaf _).mpr ⟨habove, hlt, rfl⟩
    rw [List.append_cons] at hasc hroom
    obtain ⟨tree', hrun⟩ := ih _ _ (ht.append leaf habove hlt) hasc hroom
    refine ⟨tree', ?_⟩
    rw [MerkleTree.addAll, List.foldlM_cons, hadd]
    exact hrun

theorem root_eq (ht : tree.Holds J leaves) :
    tree.root J = (MerkleFold.fill tree.depth leaves).digest (hashing J) := by
  rw [root, ← MerkleFold.slot_root (hashing J) leaves tree.depth ht.length_le]
  have h := ht.nodes tree.depth le_rfl 0 (by positivity)
  rwa [Nat.sub_self] at h

/-- The proof of the `k`-th leaf spans the whole depth and folds to the root. -/
theorem proof_ok (ht : tree.Holds J leaves) (k : ℕ) (leaf : W) (hk : leaves[k]? = some leaf) :
    ∃ siblings, tree.proof J leaf = .ok ⟨leaf, tree.root J, siblings⟩ ∧
      siblings.length = tree.depth ∧
      MerkleFold.fold (hashing J) (hashLeaf J leaf) siblings = tree.root J := by
  have hlt : k < leaves.length := (List.getElem?_eq_some_iff.mp hk).1
  have hcap : k < 2 ^ tree.depth := lt_of_lt_of_le hlt ht.length_le
  have hpos : tree.positions[leaf]? = some (2 ^ tree.depth + k) :=
    (ht.positions leaf _).mpr ⟨k, hk, rfl⟩
  have hsib : siblingsFrom J tree.nodes (2 ^ tree.depth + k) =
      MerkleFold.siblings (hashing J) leaves k 0 tree.depth := by
    simpa using (ht.onPath k).siblingsFrom J hcap tree.depth 0 (Nat.zero_add _).symm
  have hfold := MerkleFold.fold_siblings (hashing J) leaves k tree.depth hlt 0
  refine ⟨siblingsFrom J tree.nodes (2 ^ tree.depth + k), ?_, ?_, ?_⟩
  · rw [proof, hpos]
  · rw [hsib, MerkleFold.length_siblings]
  · rw [hsib, ht.root_eq, ← MerkleFold.slot_root (hashing J) leaves tree.depth ht.length_le]
    rw [pow_zero, Nat.div_one, MerkleFold.slot_zero (hashing J) leaves k leaf hk] at hfold
    rw [Nat.zero_add, Nat.div_eq_of_lt hcap] at hfold
    exact hfold

end Holds

/-- `from_leaves` as its three steps. -/
theorem fromLeaves_eq_ok_iff (leaves : List W) (tree : MerkleTree W) :
    fromLeaves J leaves = .ok tree ↔
      leaves.length ≤ 2 ^ maxDepth ∧
        ∃ empty, new J (max 1 (Nat.clog 2 leaves.length)) = .ok empty ∧
          empty.addAll J (leaves.insertionSort (· ≤ ·)) = .ok tree := by
  simp only [fromLeaves, List.length_insertionSort, depthFor_eq]
  by_cases hle : leaves.length ≤ 2 ^ maxDepth
  · rw [if_pos hle]
    change (new J (max 1 (Nat.clog 2 leaves.length)) >>= _) = _ ↔ _
    cases hnew : new J (max 1 (Nat.clog 2 leaves.length)) with
    | error e => simp [bind, Except.bind]
    | ok empty => simp [bind, Except.bind, hle]
  · rw [if_neg hle]
    simp [bind, Except.bind, hle]

theorem fromLeaves_holds (h : fromLeaves J leaves = .ok tree) :
    tree.Holds J (leaves.insertionSort (· ≤ ·)) ∧
      tree.depth = max 1 (Nat.clog 2 leaves.length) := by
  obtain ⟨-, empty, hnew, hrun⟩ := (fromLeaves_eq_ok_iff leaves tree).mp h
  obtain ⟨hdepth, -, -, hempty⟩ := new_holds hnew
  obtain ⟨hdone, hdepth'⟩ := Holds.addAll _ _ _ hempty tree hrun
  exact ⟨hdone, hdepth'.trans hdepth⟩

/-- `from_leaves` succeeds exactly on lists without repetition that fit the largest depth. -/
theorem fromLeaves_ok_iff (leaves : List W) :
    (∃ tree, fromLeaves J leaves = .ok tree) ↔ leaves.Nodup ∧ leaves.length ≤ 2 ^ maxDepth := by
  have hperm := List.perm_insertionSort (· ≤ ·) leaves
  constructor
  · rintro ⟨tree, h⟩
    have hle := ((fromLeaves_eq_ok_iff leaves tree).mp h).1
    have hasc := (fromLeaves_holds h).1.ascending
    exact ⟨hperm.nodup_iff.mp (hasc.imp ne_of_lt), hle⟩
  · rintro ⟨hnodup, hle⟩
    have hdepth : max 1 (Nat.clog 2 leaves.length) ≤ maxDepth :=
      max_le (by decide) (Nat.clog_le_of_le_pow hle)
    obtain ⟨empty, hnew⟩ : ∃ empty, new J (max 1 (Nat.clog 2 leaves.length)) = .ok empty := by
      rw [new, if_neg (by omega), if_neg (by omega)]
      exact ⟨_, rfl⟩
    obtain ⟨hempty_depth, -, -, hempty⟩ := new_holds hnew
    have hasc : (leaves.insertionSort (· ≤ ·)).Pairwise (· < ·) :=
      (List.pairwise_insertionSort (· ≤ ·) leaves).imp₂ (fun _ _ => lt_of_le_of_ne)
        (hperm.nodup_iff.mpr hnodup)
    have hroom : (leaves.insertionSort (· ≤ ·)).length ≤ 2 ^ empty.depth := by
      rw [hempty_depth, List.length_insertionSort]
      exact (Nat.le_pow_clog Nat.one_lt_two _).trans
        (Nat.pow_le_pow_right Nat.two_pos (le_max_right _ _))
    obtain ⟨tree, hrun⟩ := hempty.addAll_ok _ _ _ hasc hroom
    exact ⟨tree, (fromLeaves_eq_ok_iff leaves tree).mpr ⟨hle, empty, hnew, hrun⟩⟩

end MerkleTree

end Smt
end PriceOracle
