import Mathlib.NumberTheory.Padics.PadicVal.Basic
import Mathlib.Data.List.Sort
import Mathlib.Order.Compare
import Std.Data.ExtTreeMap
import PriceOracle.MerkleFold
import PriceOracle.Sha256
import PriceOracle.MapKeys

/-!
# The Merkle tree of branch keys

`smt.rs`: a complete binary tree in a one-based heap array. Leaves are added in
strictly ascending order to consecutive slots; every addition rehashes its path.
-/

namespace PriceOracle

namespace Smt

/-- `MAX_DEPTH` -/
def maxDepth : ℕ := 20

/-- `LEAF_MARKER` -/
def leafMarker : UInt8 := 0x01

structure Proof (W : Type) where
  leaf : W
  root : W
  siblings : List (Bool × W)

inductive Error (W : Type) where
  | depthIsZero
  | depthExceedsMaximum (depth : ℕ)
  | treeIsFull (capacity : ℕ)
  | outOfOrder (leaf last : W)
  | unknownLeaf (leaf : W)

structure MerkleTree (W : Type) [LinearOrder W] where
  depth : ℕ
  nodes : Array W
  positions : Std.ExtTreeMap W ℕ

section Hashes

variable {W Sig : Type} (J : Jets W Sig)

/-- `ZERO_HASH` -/
def zeroHash : W := J.lit 0

/-- `sha256(leaf || 0x01)` -/
def hashLeaf (leaf : W) : W := J.sha256Words [leaf] [leafMarker]

/-- `sha256(left || right)` -/
def hashNode (left right : W) : W := J.sha256Words [left, right] []

def hashing : MerkleFold.Hashing W W where
  leaf := hashLeaf J
  node := hashNode J
  zero := zeroHash J

def processProof (leaf : W) (siblings : List (Bool × W)) : W :=
  siblings.foldl
    (fun hash (isRight, sibling) => if isRight then hashNode J sibling hash else hashNode J hash sibling)
    (hashLeaf J leaf)

def verifyProof [DecidableEq W] (proof : Proof W) : Bool :=
  processProof J proof.leaf proof.siblings = proof.root

def nodeAt (nodes : Array W) (index : ℕ) : W := nodes.getD index (zeroHash J)

/-- The loop of `rehash_path`, from `parent` to the root. -/
def rehashFrom (nodes : Array W) (parent : ℕ) : Array W :=
  if parent = 0 then nodes
  else
    let hash := hashNode J (nodeAt J nodes (parent * 2)) (nodeAt J nodes (parent * 2 + 1))
    rehashFrom (nodes.setIfInBounds parent hash) (parent / 2)
termination_by parent

def rehashPath (nodes : Array W) (index : ℕ) : Array W := rehashFrom J nodes (index / 2)

/-- The loop of `proof`: siblings from `index` up to the root. -/
def siblingsFrom (nodes : Array W) (index : ℕ) : List (Bool × W) :=
  if index ≤ 1 then []
  else (decide (index % 2 = 1), nodeAt J nodes (index ^^^ 1)) :: siblingsFrom nodes (index / 2)
termination_by index

end Hashes

/-- `usize::checked_next_power_of_two` -/
def checkedNextPowerOfTwo (n : ℕ) : Option ℕ :=
  let power := 2 ^ Nat.clog 2 n
  if power < 2 ^ 64 then some power else none

/-- `usize::trailing_zeros` of a positive number. -/
def trailingZeros (n : ℕ) : ℕ := padicValNat 2 n

def depthFor (leaves : ℕ) : Option ℕ := do
  let depth := trailingZeros (← checkedNextPowerOfTwo (max leaves 2))
  if depth ≤ maxDepth then some depth else none

namespace MerkleTree

variable {W Sig : Type} [LinearOrder W] (J : Jets W Sig)

def new (depth : ℕ) : Except (Error W) (MerkleTree W) :=
  if depth = 0 then .error .depthIsZero
  else if maxDepth < depth then .error (.depthExceedsMaximum depth)
  else .ok { depth, nodes := Array.replicate (2 ^ (depth + 1)) (zeroHash J), positions := ∅ }

variable (tree : MerkleTree W)

def capacity : ℕ := 2 ^ tree.depth

def firstLeafIndex : ℕ := 2 ^ tree.depth

/-- The tree with `leaf` in the next slot. -/
def append (leaf : W) : MerkleTree W :=
  let index := tree.firstLeafIndex + tree.positions.size
  { tree with
    nodes := rehashPath J (tree.nodes.setIfInBounds index (hashLeaf J leaf)) index
    positions := tree.positions.insert leaf index }

def add (leaf : W) : Except (Error W) (MerkleTree W) :=
  match tree.positions.maxKey?.filter (leaf ≤ ·) with
  | some last => .error (.outOfOrder leaf last)
  | none =>
    if tree.positions.size = tree.capacity then .error (.treeIsFull tree.capacity)
    else .ok (tree.append J leaf)

def root : W := nodeAt J tree.nodes 1

def proof (leaf : W) : Except (Error W) (Proof W) :=
  match tree.positions[leaf]? with
  | none => .error (.unknownLeaf leaf)
  | some index =>
    .ok { leaf, root := tree.root J, siblings := siblingsFrom J tree.nodes index }

def addAll (leaves : List W) : Except (Error W) (MerkleTree W) :=
  leaves.foldlM (fun tree leaf => tree.add J leaf) tree

def fromLeaves (leaves : List W) : Except (Error W) (MerkleTree W) := do
  let sorted := leaves.insertionSort (· ≤ ·)
  let depth ← (depthFor sorted.length).elim (.error (.treeIsFull (2 ^ maxDepth))) .ok
  let tree ← new J depth
  tree.addAll J sorted

end MerkleTree

theorem depthFor_eq (leaves : ℕ) :
    depthFor leaves =
      if leaves ≤ 2 ^ maxDepth then some (max 1 (Nat.clog 2 leaves)) else none := by
  have htwo : Nat.clog 2 2 = 1 := Nat.clog_pow 2 1 Nat.one_lt_two
  have hclog : Nat.clog 2 (max leaves 2) = max 1 (Nat.clog 2 leaves) := by
    rcases le_total leaves 2 with hle | hle
    · have hmono : Nat.clog 2 leaves ≤ Nat.clog 2 2 := Nat.clog_mono_right 2 hle
      rw [max_eq_right hle]
      omega
    · have hmono : Nat.clog 2 2 ≤ Nat.clog 2 leaves := Nat.clog_mono_right 2 hle
      rw [max_eq_left hle]
      omega
  have hzeros : trailingZeros (2 ^ max 1 (Nat.clog 2 leaves)) = max 1 (Nat.clog 2 leaves) :=
    padicValNat.prime_pow _
  have hmax : leaves ≤ 2 ^ maxDepth ↔ max 1 (Nat.clog 2 leaves) ≤ maxDepth := by
    rw [← Nat.clog_le_iff_le_pow Nat.one_lt_two]
    simp [maxDepth]
  simp only [depthFor, checkedNextPowerOfTwo, hclog]
  by_cases hle : leaves ≤ 2 ^ maxDepth
  · have hd := hmax.mp hle
    have hpow : 2 ^ max 1 (Nat.clog 2 leaves) < 2 ^ 64 :=
      Nat.pow_lt_pow_right Nat.one_lt_two (hd.trans_lt (by decide))
    rw [if_pos hpow, if_pos hle]
    change (if trailingZeros _ ≤ maxDepth then some (trailingZeros _) else none) = _
    rw [hzeros, if_pos hd]
  · have hd := mt hmax.mpr hle
    rw [if_neg hle]
    split
    · change (if trailingZeros _ ≤ maxDepth then some (trailingZeros _) else none) = _
      rw [hzeros, if_neg hd]
    · rfl

end Smt
end PriceOracle
