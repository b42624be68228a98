import Mathlib.Data.List.Sublists
import Mathlib.Data.Finset.Sort
import Mathlib.Data.Nat.Choose.Basic
import PriceOracle.SmtInvariant

/-!
# The Storm Tree

`storm_tree::StormTree`: one MuSig2 aggregate key for every minimum-threshold
subset of the node keys, held in a Merkle tree. Parsing a key and aggregating
keys belong to the signature library and are parameters.
-/

namespace PriceOracle

/-- X-only key parsing and MuSig2 aggregation, with the library's errors in `E`. -/
structure KeyApi (W E : Type) where
  fromByteArray : W → Except E Unit
  aggregate : List W → W

namespace StormTree

section Combinations

variable {A : Type}

/-- `itertools::combinations`: the sublists of a given length, in order of position. -/
def combinations : ℕ → List A → List (List A)
  | 0, _ => [[]]
  | _ + 1, [] => []
  | count + 1, a :: as => (combinations count as).map (a :: ·) ++ combinations (count + 1) as

theorem combinations_perm (as : List A) :
    ∀ count, (combinations count as).Perm (as.sublistsLen count) := by
  induction as with
  | nil =>
    intro count
    cases count <;> simp [combinations]
  | cons a as ih =>
    intro count
    cases count with
    | zero => simp [combinations]
    | succ count =>
      rw [combinations, List.sublistsLen_succ_cons]
      exact (((ih count).map _).append (ih (count + 1))).trans List.perm_append_comm

theorem mem_combinations_iff (as participants : List A) (count : ℕ) :
    participants ∈ combinations count as ↔ participants.Sublist as ∧ participants.length = count := by
  rw [(combinations_perm as count).mem_iff, List.mem_sublistsLen]

theorem length_combinations (as : List A) (count : ℕ) :
    (combinations count as).length = as.length.choose count := by
  rw [(combinations_perm as count).length_eq, List.length_sublistsLen]

theorem nodup_combinations {as : List A} (h : as.Nodup) (count : ℕ) :
    (combinations count as).Nodup := by
  rw [(combinations_perm as count).nodup_iff]
  exact List.nodup_sublistsLen count h

end Combinations

section CombinationCount

/-- One round of the loop: `checked_mul`, `checked_div`, then the limit. -/
def countStep (nodeCount selected limit count divisor : ℕ) : Option ℕ :=
  let product := count * (nodeCount - selected + divisor)
  if 2 ^ 64 ≤ product ∨ divisor = 0 then none
  else if limit < product / divisor then none
  else some (product / divisor)

def combinationCount (nodeCount threshold limit : ℕ) : Option ℕ :=
  let selected := min threshold (nodeCount - threshold)
  (List.range' 1 selected).foldlM (countStep nodeCount selected limit) 1

/-- One round multiplies a coefficient up to the next, and the division is exact. -/
theorem countStep_product (m selected i : ℕ) :
    (m + i).choose i * (m + selected - selected + (i + 1)) = (m + (i + 1)).choose (i + 1) * (i + 1) := by
  rw [Nat.add_sub_cancel, mul_comm]
  exact Nat.add_one_mul_choose_eq (m + i) i

theorem countStep_choose (m selected limit i : ℕ) :
    countStep (m + selected) selected limit ((m + i).choose i) (i + 1) =
      if (m + (i + 1)).choose (i + 1) ≤ limit ∧ (m + (i + 1)).choose (i + 1) * (i + 1) < 2 ^ 64 then
        some ((m + (i + 1)).choose (i + 1)) else none := by
  have hexact : (m + (i + 1)).choose (i + 1) * (i + 1) / (i + 1) = (m + (i + 1)).choose (i + 1) :=
    Nat.mul_div_cancel _ (Nat.succ_pos i)
  simp only [countStep, countStep_product, hexact]
  by_cases hword : (m + (i + 1)).choose (i + 1) * (i + 1) < 2 ^ 64
  · rw [if_neg (by omega)]
    by_cases hle : (m + (i + 1)).choose (i + 1) ≤ limit
    · rw [if_neg (Nat.not_lt.mpr hle), if_pos ⟨hle, hword⟩]
    · rw [if_pos (Nat.not_le.mp hle), if_neg fun h => hle h.1]
  · rw [if_pos (.inl (Nat.not_lt.mp hword)), if_neg fun h => hword h.2]

theorem choose_le_succ (m i : ℕ) : (m + i).choose i ≤ (m + (i + 1)).choose (i + 1) := by
  rw [← Nat.add_assoc, Nat.choose_succ_succ]
  exact Nat.le_add_right _ _

/-- The loop has the next coefficient until one of them is above the limit or its product leaves the word. -/
theorem countLoop (m selected limit i : ℕ) :
    (List.range' 1 i).foldlM (countStep (m + selected) selected limit) 1 =
      if i = 0 ∨ (m + i).choose i ≤ limit ∧ (m + i).choose i * i < 2 ^ 64 then some ((m + i).choose i) else none := by
  induction i with
  | zero =>
    rw [if_pos (.inl rfl), Nat.choose_zero_right]
    rfl
  | succ i ih =>
    have hmono := choose_le_succ m i
    have hproducts : (m + i).choose i * i ≤ (m + (i + 1)).choose (i + 1) * (i + 1) :=
      Nat.mul_le_mul hmono (Nat.le_succ i)
    have hnext := countStep_choose m selected limit i
    rw [List.range'_concat, List.foldlM_append, ih, one_mul, add_comm 1 i]
    by_cases hi : i = 0 ∨ (m + i).choose i ≤ limit ∧ (m + i).choose i * i < 2 ^ 64
    · rw [if_pos hi]
      simpa using hnext
    · -- A coefficient before this one was rejected already.
      rw [if_neg hi, if_neg]
      · rfl
      · rintro (hzero | ⟨hle, hword⟩)
        · exact absurd hzero (Nat.succ_ne_zero i)
        · exact hi (.inr ⟨hmono.trans hle, hproducts.trans_lt hword⟩)

theorem combinationCount_eq_choose (nodeCount threshold limit : ℕ) (hle : threshold ≤ nodeCount) :
    combinationCount nodeCount threshold limit =
      if min threshold (nodeCount - threshold) = 0 ∨ nodeCount.choose threshold ≤ limit ∧
          nodeCount.choose threshold * min threshold (nodeCount - threshold) < 2 ^ 64 then
        some (nodeCount.choose threshold) else none := by
  have hselected : nodeCount.choose (min threshold (nodeCount - threshold)) = nodeCount.choose threshold := by
    rcases le_total threshold (nodeCount - threshold) with h | h
    · rw [min_eq_left h]
    · rw [min_eq_right h, Nat.choose_symm hle]
  rw [combinationCount, ← hselected]
  have hloop := countLoop (nodeCount - min threshold (nodeCount - threshold)) (min threshold (nodeCount - threshold))
    limit (min threshold (nodeCount - threshold))
  rwa [Nat.sub_add_cancel (by omega)] at hloop

/-- Below a limit of a half word a coefficient is large enough for the number of rounds. -/
theorem choose_mul_lt {nodeCount threshold limit : ℕ} (hle : threshold ≤ nodeCount) (hlimit : limit ≤ 2 ^ 32)
    (hchoose : nodeCount.choose threshold ≤ limit) :
    nodeCount.choose threshold * min threshold (nodeCount - threshold) < 2 ^ 64 := by
  have hrounds : min threshold (nodeCount - threshold) < 2 ^ 32 := by
    by_cases hzero : min threshold (nodeCount - threshold) = 0
    · omega
    · have hlarge : threshold + 1 ≤ nodeCount.choose threshold := by
        have hmono : (threshold + 1).choose threshold ≤ nodeCount.choose threshold :=
          Nat.choose_le_choose _ (by omega)
        rwa [Nat.choose_succ_self_right] at hmono
      omega
  calc nodeCount.choose threshold * min threshold (nodeCount - threshold)
      ≤ 2 ^ 32 * (2 ^ 32 - 1) := Nat.mul_le_mul (by omega) (by omega)
    _ < 2 ^ 64 := by norm_num

/-- Without a round the coefficient is one. -/
theorem choose_eq_one {nodeCount threshold : ℕ} (hle : threshold ≤ nodeCount)
    (hzero : min threshold (nodeCount - threshold) = 0) : nodeCount.choose threshold = 1 := by
  rcases (show threshold = 0 ∨ threshold = nodeCount by omega) with rfl | rfl
  · exact Nat.choose_zero_right nodeCount
  · exact Nat.choose_self threshold

theorem combinationCount_compared {nodeCount threshold limit : ℕ} (hle : threshold ≤ nodeCount)
    (hcompared : 0 < limit ∨ 0 < threshold ∧ threshold < nodeCount) :
    combinationCount nodeCount threshold limit =
      if nodeCount.choose threshold ≤ limit ∧
          nodeCount.choose threshold * min threshold (nodeCount - threshold) < 2 ^ 64 then
        some (nodeCount.choose threshold) else none := by
  rw [combinationCount_eq_choose nodeCount threshold limit hle]
  by_cases hzero : min threshold (nodeCount - threshold) = 0
  · have hone := choose_eq_one hle hzero
    rw [if_pos (.inl hzero), if_pos]
    rw [hone, hzero]
    exact ⟨by omega, by norm_num⟩
  · simp only [hzero, false_or]

/-- The early exits lose nothing: the count is the coefficient whenever that is within the limit. -/
theorem combinationCount_small {nodeCount threshold limit : ℕ} (hle : threshold ≤ nodeCount)
    (hcompared : 0 < limit ∨ 0 < threshold ∧ threshold < nodeCount) (hlimit : limit ≤ 2 ^ 32) :
    combinationCount nodeCount threshold limit =
      if nodeCount.choose threshold ≤ limit then some (nodeCount.choose threshold) else none := by
  rw [combinationCount_compared hle hcompared]
  by_cases hchoose : nodeCount.choose threshold ≤ limit
  · rw [if_pos hchoose, if_pos ⟨hchoose, choose_mul_lt hle hlimit hchoose⟩]
  · rw [if_neg hchoose, if_neg fun h => hchoose h.1]

/-- The count is the coefficient when that is within the limit and its last product within the word. The limit is
compared in the rounds: without a round, for a threshold of none or of all nodes, one is not held against zero. -/
theorem combinationCount_exact (nodeCount threshold limit : ℕ) (hle : threshold ≤ nodeCount)
    (hcompared : 0 < limit ∨ 0 < threshold ∧ threshold < nodeCount) :
    combinationCount nodeCount threshold limit =
      (if nodeCount.choose threshold ≤ limit ∧
          nodeCount.choose threshold * min threshold (nodeCount - threshold) < 2 ^ 64 then
        some (nodeCount.choose threshold) else none) ∧
    (limit ≤ 2 ^ 32 → combinationCount nodeCount threshold limit =
      if nodeCount.choose threshold ≤ limit then some (nodeCount.choose threshold) else none) ∧
    ∀ rounds < min threshold (nodeCount - threshold), ∀ count,
      (List.range' 1 rounds).foldlM (countStep nodeCount (min threshold (nodeCount - threshold)) limit) 1 = some count →
        rounds + 1 ∣ count * (nodeCount - min threshold (nodeCount - threshold) + (rounds + 1)) ∧
        (limit ≤ 2 ^ 32 → nodeCount ≤ 2 ^ 31 →
          count * (nodeCount - min threshold (nodeCount - threshold) + (rounds + 1)) < 2 ^ 64) := by
  refine ⟨combinationCount_compared hle hcompared, combinationCount_small hle hcompared, ?_⟩
  intro rounds hrounds count hcount
  have hsplit : nodeCount - min threshold (nodeCount - threshold) + min threshold (nodeCount - threshold) = nodeCount :=
    Nat.sub_add_cancel (by omega)
  have hloop := countLoop (nodeCount - min threshold (nodeCount - threshold)) (min threshold (nodeCount - threshold))
    limit rounds
  have hproduct := countStep_product (nodeCount - min threshold (nodeCount - threshold))
    (min threshold (nodeCount - threshold)) rounds
  rw [hsplit] at hloop hproduct
  rw [hcount] at hloop
  split_ifs at hloop with hreached
  obtain rfl := Option.some.inj hloop
  refine ⟨⟨_, by rw [hproduct, mul_comm]⟩, fun hlimit hnodes => ?_⟩
  have hsmall : (nodeCount - min threshold (nodeCount - threshold) + rounds).choose rounds ≤ 2 ^ 32 := by
    rcases hreached with rfl | ⟨hle, -⟩
    · rw [Nat.choose_zero_right]
      norm_num
    · exact hle.trans hlimit
  calc (nodeCount - min threshold (nodeCount - threshold) + rounds).choose rounds *
        (nodeCount - min threshold (nodeCount - threshold) + (rounds + 1))
      ≤ 2 ^ 32 * 2 ^ 31 := Nat.mul_le_mul hsmall (by omega)
    _ < 2 ^ 64 := by norm_num

/-- Seven nodes above the half: the limit is passed in the sixth round. -/
theorem combinationCount_exact_stops :
    combinationCount 21 14 100000 = none ∧ 100000 < Nat.choose 21 14 ∧ combinationCount 20 14 100000 = some (Nat.choose 20 14) := by
  have hmany := (combinationCount_exact 21 14 100000 (by decide) (.inl (by decide))).2.1 (by norm_num)
  have hfew := (combinationCount_exact 20 14 100000 (by decide) (.inl (by decide))).2.1 (by norm_num)
  have hchoose : Nat.choose 21 14 = 116280 := by decide +kernel
  have hchoose' : Nat.choose 20 14 = 38760 := by decide +kernel
  rw [hmany, hfew, hchoose, hchoose']
  decide

/-- A product leaves the word on the way to a coefficient that would fit, and one is not held against zero. -/
theorem combinationCount_unbounded :
    (combinationCount 67 33 (2 ^ 64 - 1) = none ∧ Nat.choose 67 33 ≤ 2 ^ 64 - 1) ∧
    combinationCount 3 3 0 = some 1 ∧ ¬Nat.choose 3 3 ≤ 0 := by
  have hchoose : Nat.choose 67 33 = 14226520737620288370 := by norm_num [Nat.choose]
  refine ⟨⟨?_, by rw [hchoose]; norm_num⟩, by decide, by decide⟩
  decide +kernel

end CombinationCount

/-- `MIN_NODES` -/
def minNodes : ℕ := 3

/-- `MAX_BRANCHES` -/
def maxBranches : ℕ := 100000

/-- `TREE_DEPTH` -/
def treeDepth : ℕ := 17

inductive StormTreeError (W E : Type) where
  | tooFewNodes (minimum actual : ℕ)
  | invalidNodePublicKey (index : ℕ) (source : E)
  | duplicateNodePublicKey (node : W)
  | tooManyBranches (maximum : ℕ)
  | duplicateBranch (branch : W)
  | unknownBranch (branch : W)
  | merkleTree (error : Smt.Error W)

def minimumThreshold (nodeCount : ℕ) : ℕ := nodeCount - nodeCount / 3

end StormTree

structure StormTree (W : Type) [LinearOrder W] where
  nodes : List W
  threshold : ℕ
  branches : Std.ExtTreeMap W (List W)
  tree : Smt.MerkleTree W

namespace StormTree

variable {W Sig E : Type} [LinearOrder W] (J : Jets W Sig) (K : KeyApi W E)

/-- The validation loop of `new`. -/
def validateNodes : ℕ → List W → Except (StormTreeError W E) Unit
  | _, [] => .ok ()
  | index, node :: nodes =>
    match K.fromByteArray node with
    | .error source => .error (.invalidNodePublicKey index source)
    | .ok _ => validateNodes (index + 1) nodes

/-- `windows(2)` of the sorted keys, searched for an equal pair. -/
def findDuplicate : List W → Option W
  | first :: second :: rest => if first = second then some first else findDuplicate (second :: rest)
  | _ => none

def insertBranch (branches : Std.ExtTreeMap W (List W)) (participants : List W) :
    Except (StormTreeError W E) (Std.ExtTreeMap W (List W)) :=
  let branch := K.aggregate participants
  if branch ∈ branches then .error (.duplicateBranch branch)
  else .ok (branches.insert branch participants)

/-- `new` from the sorted and validated keys on. -/
def build (nodes : List W) : Except (StormTreeError W E) (StormTree W) :=
  match findDuplicate nodes with
  | some duplicate => .error (.duplicateNodePublicKey duplicate)
  | none =>
    let threshold := minimumThreshold nodes.length
    match combinationCount nodes.length threshold maxBranches with
    | none => .error (.tooManyBranches maxBranches)
    | some _ =>
      match (combinations threshold nodes).foldlM (insertBranch K) ∅ with
      | .error e => .error e
      | .ok branches =>
        match Smt.MerkleTree.fromLeaves J branches.keys with
        | .error e => .error (.merkleTree e)
        | .ok tree => .ok { nodes, threshold, branches, tree }

def new (nodes : List W) : Except (StormTreeError W E) (StormTree W) :=
  if nodes.length < minNodes then .error (.tooFewNodes minNodes nodes.length)
  else
    match validateNodes K 0 nodes with
    | .error e => .error e
    | .ok _ => build J K (nodes.insertionSort (· ≤ ·))

def root (stormTree : StormTree W) : W := stormTree.tree.root J

def nodesForBranch (stormTree : StormTree W) (branch : W) :
    Except (StormTreeError W E) (List W) :=
  match stormTree.branches[branch]? with
  | none => .error (.unknownBranch branch)
  | some participants => .ok participants

def proof (stormTree : StormTree W) (branch : W) :
    Except (StormTreeError W E) (Smt.Proof W) :=
  if branch ∉ stormTree.branches then .error (.unknownBranch branch)
  else
    match stormTree.tree.proof J branch with
    | .error e => .error (.merkleTree e)
    | .ok proof => .ok proof

def verifyBranch (root branch : W) (proof : Smt.Proof W) : Bool :=
  proof.leaf = branch ∧ proof.root = root ∧ Smt.verifyProof J proof

theorem minimumThreshold_le (nodeCount : ℕ) : minimumThreshold nodeCount ≤ nodeCount :=
  Nat.sub_le _ _

end StormTree
end PriceOracle
