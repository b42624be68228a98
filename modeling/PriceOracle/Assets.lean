import PriceOracle.ExchangeLayout
import PriceOracle.Postcard
import PriceOracle.StormTree

/-!
# Network assets

`assets.rs`: the contract data of the Storm Eye and its renewal, and `verify_announced_asset`, with
which a node checks an asset that a peer announces against the transaction that issued it. Covenants,
hashes, the serialization of a transaction and unblinding are parameters.
-/

namespace PriceOracle

structure StormEyeContractData where
  stormTreeRoot : Bytes32
  rescueHeight : ℕ
  rescueOutputScriptHash : Bytes32
  deriving DecidableEq

def StormEyeContractData.codec : Codec StormEyeContractData :=
  .struct (.pair (.array 32) (.pair .u32 (.array 32)))
    (fun data => (data.stormTreeRoot, data.rescueHeight, data.rescueOutputScriptHash))
    (fun fields => ⟨fields.1, fields.2.1, fields.2.2⟩) fun _ => rfl

structure TickAssetContractData where
  issuanceTx : List UInt8
  tokenOutputIndex : ℕ
  deriving DecidableEq

def TickAssetContractData.codec : Codec TickAssetContractData :=
  .struct (.pair .bytes .u32) (fun data => (data.issuanceTx, data.tokenOutputIndex))
    (fun fields => ⟨fields.1, fields.2⟩) fun _ => rfl

inductive AssetError where
  | encoding
  | invalidRpcResponse (what : String)
  | rescueHeight
  | invalidAnnouncement (message : String)
  deriving DecidableEq

structure ConfirmedIssuance where
  transaction : Transaction
  blockHeight : ℕ

/-- The covenants, the hashes of issuances and of the Storm Tree, and the Elements library. -/
structure AssetRules (Sig E : Type) where
  hashes : IssuanceHashes
  jets : Jets Bytes32 Sig
  keys : KeyApi Bytes32 E
  treeError : StormTree.StormTreeError Bytes32 E → String
  /-- The taproot key of the Treasury covenant, under a Storm Eye asset. -/
  treasuryKey : Bytes32 → Bytes32
  /-- The taproot key of the Auth covenant, of its arguments and its storage. -/
  authKey : StormEyeContractData → Bytes32
  serialize : Transaction → List UInt8
  /-- `unblind` with the Treasury's blinding secret. -/
  unblind : ChainTxOut Bytes32 → Option (Bytes32 × ℕ)

namespace Assets

def stormEyeSupply : ℕ := 10000
def reissuableAssetSupply : ℕ := 0
def rescueBlocks : ℕ := 1576800

def invalidAnnouncement (asset : NetworkAsset Bytes32) (reason : String) : AssetError :=
  .invalidAnnouncement (asset.kind ++ ": " ++ reason)

variable {Sig E : Type} (rules : AssetRules Sig E)

section ContractData

def stormEyeContractData (stormEye : NetworkAsset Bytes32) : Except AssetError StormEyeContractData :=
  match stormEye.contractData with
  | none => .error (.invalidRpcResponse "Storm Eye contract data")
  | some bytes =>
    match StormEyeContractData.codec.fromBytes bytes with
    | none => .error .encoding
    | some data => .ok data

/-- The script of `storm_eye_program`. -/
def stormEyeScript (asset : NetworkAsset Bytes32) : Except AssetError (List UInt8) := do
  let data ← stormEyeContractData asset
  return taprootScript (rules.authKey data)

def saturatingAdd (a b : ℕ) : ℕ := min (a + b) (2 ^ 64 - 1)

def toRescueHeight (height : ℕ) : Except AssetError ℕ :=
  if height < 2 ^ 32 then .ok height else .error .rescueHeight

def nextStormEyeRescueHeight (current : ℕ) : Except AssetError ℕ := toRescueHeight (saturatingAdd current rescueBlocks)

def renewedStormEye (stormEye : NetworkAsset Bytes32) : Except AssetError (NetworkAsset Bytes32) := do
  let data ← stormEyeContractData stormEye
  let rescueHeight ← nextStormEyeRescueHeight data.rescueHeight
  let renewed := { stormEye with
    contractData := some (StormEyeContractData.codec.encode { data with rescueHeight := rescueHeight }) }
  let script ← stormEyeScript rules renewed
  return { renewed with contractScript := script }

end ContractData

section Markers

def initialMembersMarker (output : ChainTxOut Bytes32) : Except AssetError (Option (List Bytes32)) :=
  (Markers.initialMembersFromScript output.scriptPubkey).mapError .invalidRpcResponse

/-- The initial-members markers of a transaction. -/
def initialMembersMarkers (outputs : List (ChainTxOut Bytes32)) : Except AssetError (List (List Bytes32)) := do
  let markers ← outputs.mapM initialMembersMarker
  return markers.filterMap id

end Markers

section Announcements

def IsIssuance (asset : NetworkAsset Bytes32) (input : ChainTxIn) : Bool :=
  !input.assetIssuance.isNull && decide ((input.issuanceIds rules.hashes).1 = asset.assetId)

/-- The single new issuance of `asset` in its issuance transaction. -/
def issuanceInput (asset : NetworkAsset Bytes32) (issuance : ConfirmedIssuance) : Except AssetError ChainTxIn :=
  if issuance.blockHeight < asset.createdAtBlock then
    .error (invalidAnnouncement asset "created after its issuance was confirmed")
  else
    match issuance.transaction.input.filter (IsIssuance rules asset) with
    | [] => .error (invalidAnnouncement asset "issuance transaction does not issue it")
    | input :: others =>
      if others ≠ [] ∨ input.assetIssuance.assetBlindingNonce ≠ zeroTweak then
        .error (invalidAnnouncement asset "not a single new issuance")
      else if asset.entropy ≠
          some (rules.hashes.generateAssetEntropy input.previousOutput input.assetIssuance.assetEntropy) then
        .error (invalidAnnouncement asset "entropy does not match its issuance")
      else .ok input

def genesisRoot (asset : NetworkAsset Bytes32) : List (List Bytes32) → Except AssetError Bytes32
  | [members] =>
    match StormTree.new rules.jets rules.keys members with
    | .error error => .error (invalidAnnouncement asset (rules.treeError error))
    | .ok tree => .ok (tree.root rules.jets)
  | _ => .error (invalidAnnouncement asset "issuance must contain one initial-members marker")

def IsRenewal (genesisRescueHeight rescueHeight : ℕ) : Prop :=
  genesisRescueHeight ≤ rescueHeight ∧ (rescueHeight - genesisRescueHeight) % rescueBlocks = 0

instance (genesisRescueHeight rescueHeight : ℕ) : Decidable (IsRenewal genesisRescueHeight rescueHeight) :=
  inferInstanceAs (Decidable (_ ∧ _))

/-- One output of the loop that sums up the supply. -/
def addSupply (asset : NetworkAsset Bytes32) (genesisScript : List UInt8) (supply : ℕ) (output : ChainTxOut Bytes32) :
    Except AssetError ℕ :=
  if output.asset.getExplicit ≠ some asset.assetId then .ok supply
  else if output.scriptPubkey ≠ genesisScript then
    .error (invalidAnnouncement asset "supply must go to the genesis covenant of the initial members")
  else
    match output.value.getExplicit with
    | none => .error (invalidAnnouncement asset "invalid Storm Eye output value")
    | some value =>
      if supply + value < 2 ^ 64 then .ok (supply + value)
      else .error (invalidAnnouncement asset "invalid Storm Eye output value")

def verifyStormEye (asset : NetworkAsset Bytes32) (issuance : ConfirmedIssuance) (stormTreeRoot : Option Bytes32) :
    Except AssetError Unit := do
  require (asset.supply = stormEyeSupply ∧ asset.reissuanceTokenId = none)
    (invalidAnnouncement asset "must have the fixed supply and no token")
  let input ← issuanceInput rules asset issuance
  require (input.assetIssuance.amount.getExplicit = some stormEyeSupply ∧ input.assetIssuance.inflationKeys.isNull = true)
    (invalidAnnouncement asset "issuance must be the full supply with no reissuance token")
  let outputs := issuance.transaction.output
  require (∀ output ∈ outputs, output.asset.isConfidential = false ∧ output.value.isConfidential = false)
    (invalidAnnouncement asset "issuance outputs must be explicit")
  let markers ← initialMembersMarkers outputs
  let genesisRoot ← genesisRoot rules asset markers
  let current ← stormEyeContractData asset
  let genesisRescueHeight ← toRescueHeight (saturatingAdd asset.createdAtBlock rescueBlocks)
  require (IsRenewal genesisRescueHeight current.rescueHeight)
    (invalidAnnouncement asset "rescue height is not a renewal of the genesis height")
  let genesisScript ← stormEyeScript rules { asset with contractData := some (StormEyeContractData.codec.encode
    ⟨genesisRoot, genesisRescueHeight, current.rescueOutputScriptHash⟩) }
  let supply ← outputs.foldlM (addSupply asset genesisScript) 0
  require (supply = stormEyeSupply) (invalidAnnouncement asset "the genesis covenant must hold the full supply")
  let script ← stormEyeScript rules asset
  require (script = asset.contractScript) (invalidAnnouncement asset "contract script does not match its contract data")
  require (stormTreeRoot = some current.stormTreeRoot)
    (invalidAnnouncement asset "covenant does not commit to this node's Storm Tree")

def treasuryScript (stormEye : NetworkAsset Bytes32) : List UInt8 := taprootScript (rules.treasuryKey stormEye.assetId)

def found {A : Type} (asset : NetworkAsset Bytes32) (reason : String) : Option A → Except AssetError A
  | some a => .ok a
  | none => .error (invalidAnnouncement asset reason)

def tickAssetContractData (asset : NetworkAsset Bytes32) : Except AssetError TickAssetContractData := do
  let bytes ← found asset "missing contract data" asset.contractData
  match TickAssetContractData.codec.fromBytes bytes with
  | none => throw .encoding
  | some data => return data

def verifyReissuableAsset (asset : NetworkAsset Bytes32) (issuance : ConfirmedIssuance) (stormEye : NetworkAsset Bytes32) :
    Except AssetError Unit := do
  let tokenId ← found asset "must be issued empty with a token"
    (asset.reissuanceTokenId.filter fun _ => asset.supply = reissuableAssetSupply)
  let input ← issuanceInput rules asset issuance
  require ((input.issuanceIds rules.hashes).2 = tokenId) (invalidAnnouncement asset "token does not match its issuance")
  require (input.assetIssuance.amount.isNull = true ∨ input.assetIssuance.amount.getExplicit = some 0)
    (invalidAnnouncement asset "issuance must create no units")
  let tokenSupply ← found asset "token supply must be explicit"
    (input.assetIssuance.inflationKeys.getExplicit.filter fun supply => 0 < supply)
  require (asset.contractScript = treasuryScript rules stormEye)
    (invalidAnnouncement asset "contract script is not the Storm Eye Treasury")
  let data ← tickAssetContractData asset
  require (data.issuanceTx = rules.serialize issuance.transaction)
    (invalidAnnouncement asset "contract data does not hold its issuance")
  let tokenOutput ← found asset "token output is not at the Treasury"
    (issuance.transaction.output[data.tokenOutputIndex]?.filter fun output => output.scriptPubkey = treasuryScript rules stormEye)
  let secrets ← found asset "token output is not Treasury-blinded" (rules.unblind tokenOutput)
  require (secrets.1 = tokenId ∧ secrets.2 = tokenSupply)
    (invalidAnnouncement asset "the Treasury must hold the whole token supply")

def verifyAnnouncedAsset (asset : NetworkAsset Bytes32) (issuance : ConfirmedIssuance)
    (stormEye : Option (NetworkAsset Bytes32)) (stormTreeRoot : Option Bytes32) : Except AssetError Unit :=
  match stormEye with
  | none =>
    if asset.kind = Indexer.stormEyeKind then verifyStormEye rules asset issuance stormTreeRoot
    else .error (invalidAnnouncement asset "unexpected asset kind")
  | some stormEye =>
    if asset.kind = Indexer.tickAssetKind ∨ asset.kind = Indexer.oracleVerifierKind then
      verifyReissuableAsset rules asset issuance stormEye
    else .error (invalidAnnouncement asset "unexpected asset kind")

end Announcements

end Assets

end PriceOracle
