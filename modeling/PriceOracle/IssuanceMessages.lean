import PriceOracle.AccountReserves
import PriceOracle.Assets
import PriceOracle.UserBatches

/-!
# Messages of an issuance round

`user_requests.rs` and `issuance.rs`: the message with which the leader of a round asks for a
signature, its PSET with the fields of reissuances and of blinded tokens, the covenant of a voucher,
and the rate that the batches of a message carry. Covenants, unblinding and what is signed are
parameters.
-/

namespace PriceOracle

/-- An input of the PSET of a round: what it spends, what it says of a blinded token, its issuance. -/
structure IssuanceInput where
  previousTxid : Bytes32
  previousOutputIndex : ℕ
  witnessUtxo : Option (ChainTxOut Bytes32)
  asset : Option Bytes32
  amount : Option ℕ
  blindAssetProof : Option (List UInt8)
  blindValueProof : Option (List UInt8)
  issuanceValueAmount : Option ℕ
  issuanceValueComm : Option (List UInt8)
  issuanceValueRangeproof : Option (List UInt8)
  inIssuanceBlindValueProof : Option (List UInt8)
  issuanceAssetEntropy : Option Bytes32
  issuanceBlindingNonce : Option Bytes32
  issuanceInflationKeys : Option ℕ
  issuanceInflationKeysComm : Option (List UInt8)
  deriving DecidableEq

structure IssuancePset where
  inputs : List IssuanceInput
  outputs : List (PsetOutput Bytes32)
  deriving DecidableEq

section Psets

def IssuanceInput.outpoint (input : IssuanceInput) : Bytes32 × ℕ := (input.previousTxid, input.previousOutputIndex)

/-- A commitment comes before the explicit field. -/
def issuedField (explicit : Option ℕ) (commitment : Option (List UInt8)) : ChainField ℕ :=
  match commitment, explicit with
  | some commitment, _ => .confidential commitment
  | none, some value => .explicit value
  | none, none => .null

/-- `Input::asset_issuance` -/
def IssuanceInput.assetIssuance (input : IssuanceInput) : AssetIssuance where
  assetBlindingNonce := input.issuanceBlindingNonce.getD zeroTweak
  assetEntropy := input.issuanceAssetEntropy.getD zeroTweak
  amount := issuedField input.issuanceValueAmount input.issuanceValueComm
  inflationKeys := issuedField input.issuanceInflationKeys input.issuanceInflationKeysComm

/-- The input as the helpers read it that do not look at issuances. -/
def IssuanceInput.spent (input : IssuanceInput) : PsetInput Bytes32 :=
  ⟨input.previousTxid, input.previousOutputIndex, input.witnessUtxo, []⟩

def IssuancePset.spent (pset : IssuancePset) : Pset Bytes32 := ⟨pset.inputs.map IssuanceInput.spent, pset.outputs⟩

end Psets

structure ExternalRequests where
  requestHash : Bytes32
  networkUserRequests : List UInt8
  additionalPayload : Option (List UInt8)

/-- The PSET of `tx` as it is decoded. -/
structure ExecuteUserRequests where
  tx : IssuancePset
  signingHash : Bytes32
  signingStormTreeBranch : Bytes32
  externalRequests : List ExternalRequests

structure VoucherArguments where
  stormEyeAssetId : Bytes32
  authMethod : UInt32
  authAssetId : Bytes32
  authScriptHash : Bytes32
  authPubkey : Bytes32
  deriving DecidableEq

/-- What a round uses of `serde_json`, of hashes and of the Elements library. -/
structure IssuanceLibraries extends UserLibraries where
  /-- `serde_json::from_slice`, with the text of its error. -/
  fromSlice : List UInt8 → Except String NetworkUserRequests
  hashScript : List UInt8 → Bytes32
  deserialize : List UInt8 → Option Transaction
  /-- `unblind` with the Treasury's blinding secret: the asset and the value. -/
  unblind : ChainTxOut Bytes32 → Option (Bytes32 × ℕ)
  /-- A proof, an asset and its commitment. -/
  blindAssetProofVerify : List UInt8 → Bytes32 → List UInt8 → Bool
  /-- A proof, a value, the commitment of its asset and its own. -/
  blindValueProofVerify : List UInt8 → ℕ → List UInt8 → List UInt8 → Bool

/-- The network's policy asset, the taproot keys of the covenants, and what a round signs. -/
structure IssuancePrograms where
  policyAsset : Bytes32
  /-- The Account covenant of an owner, under a Storm Eye asset. -/
  accountKey : Bytes32 → Bytes32 → Bytes32
  treasuryKey : Bytes32 → Bytes32
  /-- The voucher covenant; a Verifier has an internal key. -/
  voucherKey : VoucherArguments → Option Bytes32 → Bytes32
  signingHash : IssuancePset → NetworkAsset Bytes32 → Except String Bytes32

/-- How a call of the Elements node fails. -/
inductive RpcFailure where
  | rpc (code : ℤ)
  | other
  deriving DecidableEq

inductive IssuanceError where
  | missingAsset (kind : String)
  | invalid (message : String)
  | rpc (failure : RpcFailure)
  /-- `postcard` cannot decode contract data. -/
  | encoding
  /-- An error of the functions that signers share with the preparation of a round. -/
  | request (error : Issuance.UserRequestError)

/-- A batch of a message, with the key of its owner. -/
structure IssuedBatch where
  request : NetworkUserRequests
  feeUtxos : List (FeeUtxo (List UInt8))
  owner : Bytes32

namespace IssuanceRound

section Scripts

variable (programs : IssuancePrograms)

def accountScript (stormEyeAssetId owner : Bytes32) : List UInt8 :=
  taprootScript (programs.accountKey stormEyeAssetId owner)

def treasuryScript (stormEyeAssetId : Bytes32) : List UInt8 := taprootScript (programs.treasuryKey stormEyeAssetId)

def voucherArguments (stormEyeAssetId : Bytes32) (authKind : UInt8) (authData : Bytes32) : Except String VoucherArguments :=
  let arguments : VoucherArguments := ⟨stormEyeAssetId, authKind.toUInt32, zeroTweak, zeroTweak, zeroTweak⟩
  if authKind = 0 then .ok { arguments with authAssetId := authData }
  else if authKind = 1 then .ok { arguments with authScriptHash := authData }
  else if authKind = 2 then .ok { arguments with authPubkey := authData }
  else .error "unsupported issued UTXO authentication method"

variable (libraries : IssuanceLibraries)

/-- The script of the voucher covenant; a Verifier's internal key is its signer. -/
def voucherProgram (stormEyeAssetId : Bytes32) (authKind : UInt8) (authData : Bytes32) (signer : Option Bytes32) :
    Except String (List UInt8) := do
  let arguments ← voucherArguments stormEyeAssetId authKind authData
  match signer with
  | none => return taprootScript (programs.voucherKey arguments none)
  | some signer =>
    if libraries.xOnlyPublicKey signer.toList then return taprootScript (programs.voucherKey arguments (some signer))
    else throw "invalid Oracle Verifier signer key"

end Scripts

section Descriptors

variable (libraries : IssuanceLibraries)

def decode32 (encoded name : String) : Except String Bytes32 :=
  match UserApi.hexDecode encoded.toList with
  | none => .error s!"invalid {name}"
  | some bytes => if bytes.length = 32 then .ok (Markers.toKey bytes) else .error s!"invalid {name} length"

/-- The kind and the data of an authorisation in a covenant. -/
def authOf (auth : UtxoAuthMethod) : Except String (UInt8 × Bytes32) :=
  if auth.kind = "asset-id-auth" then (decode32 auth.authData "authentication asset id").map fun data => (0, data)
  else if auth.kind = "scriptPubKey-auth" then
    match UserApi.hexDecode auth.authData.toList with
    | none => .error "invalid authentication scriptPubKey"
    | some script => .ok (1, libraries.hashScript script)
  else if auth.kind = "signature-auth" then
    (decode32 auth.authData "authentication public key").map fun data => (2, data)
  else .error "unsupported issued UTXO authentication method"

/-- `IssuedUtxoDescriptor::from_request` -/
def fromRequest (outputIndex reserveOutputIndex : UInt32) (accountOwnerPubkey : Bytes32) (auth : UtxoAuthMethod)
    (signer : Option Bytes32) : Except String IssuedUtxoDescriptor := do
  let (authKind, authData) ← authOf libraries auth
  return { outputIndex, reserveOutputIndex, accountOwnerPubkey, authKind, authData, signer }

/-- `IssuedUtxoDescriptor::voucher_program` -/
def descriptorProgram (programs : IssuancePrograms) (stormEyeAssetId : Bytes32) (descriptor : IssuedUtxoDescriptor) :
    Except String (List UInt8) :=
  voucherProgram programs libraries stormEyeAssetId descriptor.authKind descriptor.authData descriptor.signer

/-- `signed-price-data` issues a Verifier, anything else a Tick. -/
def issuesVerifier (requestKind : String) : Bool := requestKind = UserApi.priceRequestKind

end Descriptors

section Rates

/-- Only a batch issued at the round's feed carries its rate. -/
def batchPayload (namedFeed : Option UInt32) (instructed : Option PriceFeedData) : Option (List UInt8) :=
  (namedFeed.bind fun _ => instructed).map PriceFeedData.toBytes

/-- A batch carries a rate exactly when it names a feed, and one message carries one rate, so `carried` is what the
batches before it named. -/
def instructedPrice (namedFeed : Option UInt32) (payload : Option (List UInt8)) (carried : Option PriceFeedData) :
    Except IssuanceError (Option PriceFeedData) :=
  match namedFeed, payload with
  | none, none => .ok carried
  | none, some _ => .error (.invalid "a batch that names no price feed carries no instructed price")
  | some _, none => .error (.invalid "a batch issued at a price feed carries no instructed price")
  | some feed, some payload =>
    match PriceFeedData.fromBytes payload with
    | none =>
      let length := payload.length
      .error (.invalid s!"price feed data must be 32 bytes, got {length}")
    | some instructed =>
      if instructed.feedId ≠ feed then .error (.invalid "the instructed price is for another feed than the batch")
      else if carried.any fun carried => carried ≠ instructed then
        .error (.invalid "one execute-user-requests carries one rate for one feed")
      else .ok (some instructed)

end Rates

section Reading

variable (libraries : IssuanceLibraries)

/-- `validate_encoded_request` -/
def validateEncodedRequest (encoded : List UInt8) :
    Except String (NetworkUserRequests × List (FeeUtxo (List UInt8)) × Option UInt32) := do
  let request ← libraries.fromSlice encoded
  let (feeUtxos, feed) ← (UserApi.validateRequest libraries.toUserLibraries request).mapError ApiError.message
  return (request, feeUtxos, feed)

/-- The key of a requester, on the curve. -/
def ownerKey (publicKey : String) : Except IssuanceError Bytes32 :=
  match UserApi.hexDecode publicKey.toList with
  | none => .error (.invalid "invalid requester public key")
  | some bytes =>
    if bytes.length = 32 ∧ libraries.xOnlyPublicKey bytes = true then .ok (Markers.toKey bytes)
    else .error (.invalid "invalid requester public key")

/-- One batch of a message, after those before it and the rate they carried. -/
def readExternal (read : List IssuedBatch × Option PriceFeedData) (external : ExternalRequests) :
    Except IssuanceError (List IssuedBatch × Option PriceFeedData) := do
  require (libraries.sha256 external.networkUserRequests = external.requestHash.toList)
    (.invalid "external request hash mismatch")
  let (request, feeUtxos, namedFeed) ← (validateEncodedRequest libraries external.networkUserRequests).mapError .invalid
  let instructed ← instructedPrice namedFeed external.additionalPayload read.2
  let owner ← ownerKey libraries request.header.publicKey
  return (read.1 ++ [⟨request, feeUtxos, owner⟩], instructed)

def issuedCount (batches : List IssuedBatch) : ℕ := (batches.map fun batch => batch.request.requests.length).sum

def verifierCount (batches : List IssuedBatch) : ℕ :=
  ((batches.flatMap fun batch => batch.request.requests).filter fun request => issuesVerifier request.kind).length

/-- The output of the issuance transaction that holds the token. -/
def tokenTxout (asset : NetworkAsset Bytes32) : Except IssuanceError (ChainTxOut Bytes32) :=
  let name := asset.name
  match asset.contractData with
  | none => .error (.invalid s!"{name} contract data is missing")
  | some bytes =>
    match TickAssetContractData.codec.fromBytes bytes with
    | none => .error .encoding
    | some contractData =>
      match libraries.deserialize contractData.issuanceTx with
      | none => .error (.invalid s!"invalid {name} issuance transaction")
      | some transaction =>
        match transaction.output[contractData.tokenOutputIndex]? with
        | none => .error (.invalid s!"invalid {name} token output index")
        | some output => .ok output

end Reading

end IssuanceRound

end PriceOracle
