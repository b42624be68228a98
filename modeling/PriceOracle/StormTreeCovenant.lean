import PriceOracle.SimplicityStd

/-!
# Network authorisation in the Storm Eye covenant

`storm_eye/storm_tree.simf`, `storm_eye/storage.simf` and the two library files
they use. A Storm Tree proof has seventeen steps; a `Left` step is an unused
level and leaves the running node as it is.
-/

namespace PriceOracle

namespace StormTreeCovenant

variable {W Sig : Type} (J : Jets W Sig) (std : Std W)

/-- One level of the fold: path bit (`true` when the node is the right child) and sibling. -/
abbrev StormTreeProofStep (W : Type) := Unit ⊕ (Bool × W)

/-- Signature, signing combination and its inclusion proof. -/
abbrev StormTreeBloom (W Sig : Type) := Sig × W × Vector (StormTreeProofStep W) 17

def paddingHead : W :=
  J.lit 0x8000000000000000000000000000000000000000000000000000000000000000

def padding64Tail : W :=
  J.lit 0x0000000000000000000000000000000000000000000000000000000000000200

def padding96Tail : W :=
  J.lit 0x8000000000000000000000000000000000000000000000000000000000000300

def leafTail : W :=
  J.lit 0x0180000000000000000000000000000000000000000000000000000000000108

def stormEyeMidstate : W :=
  J.lit 0xb144605cf5f45223882ae168403987ae38744e847ae307aa36d03152d250c3a6

def getSigningMessage (env : Env W) : W :=
  J.sha256Block (stormEyeMidstate J) (J.sigAllHash env) (padding96Tail J)

/-- The Storm Tree leaf for a branch. -/
def getStormTreeLeaf (branch : W) : W :=
  J.sha256Block J.sha256Iv branch (leafTail J)

/-- The node hash the fold computes at a used level. -/
def foldNode (left right : W) : W :=
  let data := J.sha256Block J.sha256Iv left right
  J.sha256Block data (paddingHead J) (padding64Tail J)

def stormTreeFoldStep (step : StormTreeProofStep W) (node : W) : W :=
  match step with
  | .inl _ => node
  | .inr (isRight, sibling) =>
    match isRight with
    | true => foldNode J sibling node
    | false => foldNode J node sibling

/-- `array_fold::<storm_tree_fold_step, 17>` -/
def arrayFold (proof : Vector (StormTreeProofStep W) 17) (leaf : W) : W :=
  proof.toList.foldl (fun node step => stormTreeFoldStep J step node) leaf

def assertNetworkAuthorization (env : Env W) (merkleRoot : W) (bloom : StormTreeBloom W Sig) :
    Option Unit := do
  let (signature, branch, merkleProof) := bloom
  let computedRoot := arrayFold J merkleProof (getStormTreeLeaf J branch)
  std.assertEq256 computedRoot merkleRoot
  guard (J.bip0340Verify (branch, getSigningMessage J env) signature)

def getSlotLeaf (slotValue : W) : W :=
  J.sha256Ctx8Finalize (J.sha256Ctx8Add32 J.tapdataInit slotValue)

def getMerkleRootSlotLeaf (merkleRoot : W) : W := getSlotLeaf J merkleRoot

def getRescueBlockSlotLeaf (rescueBlockNumber : UInt32) : W :=
  getSlotLeaf J (std.u32ToU256 rescueBlockNumber)

/-- Script hash of the Taproot output for an internal key and a tap node. -/
def getP2trScriptHash (internalKey tapNode : W) : W :=
  let tweakedKey := J.buildTaptweak internalKey tapNode
  let hashCtx := Jets.sha256Ctx8Init
  let hashCtx := Jets.sha256Ctx8Add2 hashCtx 0x5120
  let hashCtx := J.sha256Ctx8Add32 hashCtx tweakedKey
  J.sha256Ctx8Finalize hashCtx

/-- Rebuilds the covenant's script hash from a candidate storage state; the leaf is
`jet::tapleaf_hash`. -/
def getScriptHashForStorage (tapleafHash merkleRoot : W) (rescueBlockNumber : UInt32) : W :=
  let merkleRootSlotLeaf := getMerkleRootSlotLeaf J merkleRoot
  let rescueBlockSlotLeaf := getRescueBlockSlotLeaf J std rescueBlockNumber
  let firstTapNode := J.buildTapbranch tapleafHash merkleRootSlotLeaf
  let tapNode := J.buildTapbranch firstTapNode rescueBlockSlotLeaf
  let bip0341Key := J.lit 0x50929b74c1a04954b78b4b6035e97a5e078a5a0f28ec96d547bfee9ace803ac0
  getP2trScriptHash J bip0341Key tapNode

end StormTreeCovenant
end PriceOracle
