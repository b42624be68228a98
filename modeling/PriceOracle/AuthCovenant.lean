import PriceOracle.StormTreeCovenant

/-!
# The Storm Eye covenant

`auth.simf` with its six spending paths. The witness type is the source's nest of
`Either`; `SpendPath` names the six arms for the statements about it.
-/

namespace PriceOracle

/-- `lib/tx.simf`: the UTXO must be spent in its entirety, same asset, same amount. -/
def assertOutputPreservesUtxo {W : Type} (std : Std W) (env : Env W) (outputIndex : UInt32) :
    Option Unit := do
  let (currentAsset, currentAmount) ← std.getExplicitCurrentAssetIdWithAmount env
  std.assertExplicitOutputAssetIdWithAmount env outputIndex currentAsset currentAmount

theorem assertOutputPreservesUtxo_iff {W : Type} (std : Std W) (env : Env W) (i : UInt32) :
    assertOutputPreservesUtxo std env i = some () ↔
      ∃ o a v, env.tx.outputs[i.toNat]? = some o ∧
        env.current.asset = .explicit a ∧ env.current.amount = .explicit v ∧
        o.asset = .explicit a ∧ o.amount = .explicit v := by
  simp only [assertOutputPreservesUtxo, Option.bind_eq_bind, Option.bind_eq_some_iff, Prod.exists,
    std.getExplicitCurrentAssetIdWithAmount_iff, std.assertExplicitOutputAssetIdWithAmount_iff]
  constructor
  · rintro ⟨a, v, ⟨ha, hv⟩, o, ho, hoa, hov⟩
    exact ⟨o, a, v, ho, ha, hv, hoa, hov⟩
  · rintro ⟨o, a, v, ho, ha, hv, hoa, hov⟩
    exact ⟨a, v, ⟨ha, hv⟩, o, ho, hoa, hov⟩

namespace AuthCovenant

open StormTreeCovenant

/-- Storm Tree root, rescue block number. -/
abbrev Storage (W : Type) := W × UInt32

abbrev InclusionWit := UInt32
abbrev RootUpdateWit (W : Type) := W × UInt32
abbrev RescueBlockUpdateWit := UInt32 × UInt32
abbrev SplitWit := UInt8
abbrev MergeWit := UInt8
abbrev UpdateKind (W : Type) := RootUpdateWit W ⊕ RescueBlockUpdateWit
abbrev ReshapeKind := SplitWit ⊕ MergeWit
abbrev AuthKind (W : Type) := InclusionWit ⊕ (UpdateKind W ⊕ ReshapeKind)
abbrev AuthorizedWit (W Sig : Type) := Storage W × StormTreeBloom W Sig × AuthKind W
abbrev RescueWit (W : Type) := Storage W × UInt32
abbrev Witness (W Sig : Type) := AuthorizedWit W Sig ⊕ RescueWit W

/-- The covenant's compilation parameters. -/
structure Params (W : Type) where
  maxSplitUtxosCount : UInt8
  maxMergeUtxosCount : UInt8
  rescueOutputScriptHash : W

variable {W Sig : Type} (J : Jets W Sig) (std : Std W) (param : Params W) (env : Env W)

def scriptHashFor (storage : Storage W) : W :=
  getScriptHashForStorage J std env.tapleafHash storage.1 storage.2

def assertStorageWithCurrent (storage : Storage W) : Option Unit :=
  std.assertEq256 env.currentScriptHash (scriptHashFor J std env storage)

def assertStorageWithOutput (storage : Storage W) (outputIndex : UInt32) : Option Unit := do
  std.assertEq256 (← std.getOutputScriptHash env outputIndex) (scriptHashFor J std env storage)

def assertOutputScriptHashMatchesCurrent (outputIndex : UInt32) : Option Unit := do
  std.assertEq256 (← std.getOutputScriptHash env outputIndex) env.currentScriptHash

/-- 1. Inclusion without storage updating. -/
def authWithoutStorageUpdating (storage : Storage W) (outputIndex : UInt32) : Option Unit := do
  assertStorageWithCurrent J std env storage
  assertOutputScriptHashMatchesCurrent std env outputIndex
  assertOutputPreservesUtxo std env outputIndex

/-- 2. Inclusion with an update to the Storm Tree root. -/
def authWithUpdateStormTreeRoot (storage : Storage W) (newMerkleRoot : W)
    (outputIndex : UInt32) : Option Unit := do
  let (_, rescueBlockNumber) := storage
  let newStorage := (newMerkleRoot, rescueBlockNumber)
  assertStorageWithCurrent J std env storage
  assertStorageWithOutput J std env newStorage outputIndex
  assertOutputPreservesUtxo std env outputIndex

/-- 3. Inclusion with an update to the rescue block number. -/
def authWithUpdateRescueBlock (storage : Storage W) (newRescueBlockNumber outputIndex : UInt32) :
    Option Unit := do
  let (merkleRoot, currentRescueBlockNumber) := storage
  let expectedNewRescueBlockNumber ← std.add32 currentRescueBlockNumber 1576800
  std.assertEq32 newRescueBlockNumber expectedNewRescueBlockNumber
  let newStorage := (merkleRoot, newRescueBlockNumber)
  assertStorageWithCurrent J std env storage
  assertStorageWithOutput J std env newStorage outputIndex
  assertOutputPreservesUtxo std env outputIndex

/-- How many slots to visit, and the script and asset each must have. -/
abbrev StepUtxosCtx (W : Type) := UInt8 × W × W

/-- One round of a collecting loop over `get` and `getScriptHash`. -/
def stepCollect (get : UInt32 → Option (W × UInt64)) (getScriptHash : UInt32 → Option W)
    (total : UInt64) (ctx : StepUtxosCtx W) (counter : UInt8) : Option (UInt64 ⊕ UInt64) := do
  let (count, expectedScriptHash, currentAsset) := ctx
  if counter < count then
    let index := std.u8ToU32 counter
    let (asset, amount) ← get index
    std.assertEq256 (← getScriptHash index) expectedScriptHash
    std.assertEq256 asset currentAsset
    return .inr (← std.add64 total amount)
  else
    return .inl total

/-- One split output. -/
def stepCollectTotalAmount : UInt64 → StepUtxosCtx W → UInt8 → Option (UInt64 ⊕ UInt64) :=
  stepCollect std (std.getExplicitOutputAssetIdWithAmount env) (std.getOutputScriptHash env)

/-- One merged input. -/
def stepCollectInputTotalAmount : UInt64 → StepUtxosCtx W → UInt8 → Option (UInt64 ⊕ UInt64) :=
  stepCollect std (std.getExplicitInputAssetIdWithAmount env) (std.getInputScriptHash env)

/-- 4. Splitting into several UTXOs under the same storage. -/
def authSplitStormEyeUtxoIntoMultipleUtxos (storage : Storage W) (splitUtxosCount : UInt8) :
    Option Unit := do
  std.assertEq32 env.currentIndex 0
  assertStorageWithCurrent J std env storage
  guard (std.gt8 splitUtxosCount 1)
  guard (splitUtxosCount < param.maxSplitUtxosCount)
  let (currentAsset, currentAmount) ← std.getExplicitCurrentAssetIdWithAmount env
  let ctx := (splitUtxosCount, env.currentScriptHash, currentAsset)
  let out ← forWhile (stepCollectTotalAmount std env) 0 ctx
  std.assertEq64 currentAmount (← unwrapLeft out)

/-- 5. Merging several Storm Eyes into output 0 under the same storage. -/
def authMergeMultipleStormEyesIntoSingleUtxo (storage : Storage W) (utxosToMerge : UInt8) :
    Option Unit := do
  assertStorageWithCurrent J std env storage
  assertOutputScriptHashMatchesCurrent std env 0
  guard (std.gt8 utxosToMerge 1)
  guard (utxosToMerge < param.maxMergeUtxosCount)
  guard (env.currentIndex < std.u8ToU32 utxosToMerge)
  let currentAsset ← std.getExplicitCurrentAssetId env
  let ctx := (utxosToMerge, env.currentScriptHash, currentAsset)
  let totalInputsAmount ← unwrapLeft (← forWhile (stepCollectInputTotalAmount std env) 0 ctx)
  std.assertExplicitOutputAssetIdWithAmount env 0 currentAsset totalInputsAmount

/-- 6. Rescue once the rescue block number is reached; no signature, no proof. -/
def rescueAfterBlockNumber (storage : Storage W) (outputIndex : UInt32) : Option Unit := do
  let (_, rescueBlockNumber) := storage
  assertStorageWithCurrent J std env storage
  env.checkLockHeight rescueBlockNumber
  std.assertEq256 (← std.getOutputScriptHash env outputIndex) param.rescueOutputScriptHash
  assertOutputPreservesUtxo std env outputIndex

def dispatchUpdate (storage : Storage W) (update : UpdateKind W) : Option Unit :=
  match update with
  | .inl (newMerkleRoot, outputIndex) =>
    authWithUpdateStormTreeRoot J std env storage newMerkleRoot outputIndex
  | .inr (newRescueBlockNumber, outputIndex) =>
    authWithUpdateRescueBlock J std env storage newRescueBlockNumber outputIndex

def dispatchReshape (storage : Storage W) (reshape : ReshapeKind) : Option Unit :=
  match reshape with
  | .inl splitUtxosCount =>
    authSplitStormEyeUtxoIntoMultipleUtxos J std param env storage splitUtxosCount
  | .inr utxosToMerge =>
    authMergeMultipleStormEyesIntoSingleUtxo J std param env storage utxosToMerge

def dispatchAuthorized (authorized : AuthorizedWit W Sig) : Option Unit := do
  let (storage, bloom, kind) := authorized
  let (merkleRoot, _) := storage
  -- The proof and the signature are checked once, before the paths diverge.
  assertNetworkAuthorization J std env merkleRoot bloom
  match kind with
  | .inl outputIndex => authWithoutStorageUpdating J std env storage outputIndex
  | .inr (.inl update) => dispatchUpdate J std env storage update
  | .inr (.inr reshape) => dispatchReshape J std param env storage reshape

def main (witness : Witness W Sig) : Option Unit :=
  match witness with
  | .inl authorized => dispatchAuthorized J std param env authorized
  | .inr (storage, outputIndex) => rescueAfterBlockNumber J std param env storage outputIndex

end AuthCovenant
end PriceOracle
