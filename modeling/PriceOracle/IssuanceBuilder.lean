import PriceOracle.RoundTokens

/-!
# What the leader of a round builds

`prepare_round_candidate` of `user_requests.rs` once its batches are chosen: the transaction with the
Storm Eye, the tokens, the vouchers, the reserves and the fees, its tokens blinded anew, and
`RoundTransaction::for_branch`, which puts the branch that signs in the place of the Verifiers' signer.
-/

namespace PriceOracle

def IssuedUtxoDescriptor.isVerifier (descriptor : IssuedUtxoDescriptor) : Bool := descriptor.signer.isSome

/-- `Output::from_txout` -/
def PsetOutput.fromTxout (txout : ChainTxOut Bytes32) : PsetOutput Bytes32 where
  scriptPubkey := txout.scriptPubkey
  amount := txout.value.getExplicit
  asset := txout.asset.getExplicit
  amountComm := txout.value.commitment
  assetComm := txout.asset.commitment
  valueRangeproof := txout.rangeproof
  assetSurjectionProof := txout.surjectionProof
  blindingKey := none
  ecdhPubkey := txout.nonce
  blinderIndex := none
  blindValueProof := none
  blindAssetProof := none

/-- `PartialInput::new` of an explicit output. -/
def IssuanceInput.new (utxo : Utxo Bytes32) : IssuanceInput where
  previousTxid := utxo.outpoint.1
  previousOutputIndex := utxo.outpoint.2
  witnessUtxo := some utxo.txout
  asset := none
  amount := none
  blindAssetProof := none
  blindValueProof := none
  issuanceValueAmount := none
  issuanceValueComm := none
  issuanceValueRangeproof := none
  inIssuanceBlindValueProof := none
  issuanceAssetEntropy := none
  issuanceBlindingNonce := none
  issuanceInflationKeys := none
  issuanceInflationKeysComm := none

/-- A batch of the round, with its fee UTXOs as the node answered. -/
structure DecodedBatch where
  requestHash : Bytes32
  encoded : List UInt8
  request : NetworkUserRequests
  feeUtxos : List (Utxo Bytes32)
  namedFeed : Option UInt32

structure RequestResult where
  kind : String
  vout : ℕ
  authMethod : UtxoAuthMethod
  payload : String

structure PreparedRequestResult where
  requestHash : Bytes32
  results : List RequestResult

/-- Issuance transaction before its signing branch is known. -/
structure RoundTransaction where
  pset : IssuancePset
  descriptors : List IssuedUtxoDescriptor
  descriptorOutput : ℕ
  stormEye : NetworkAsset Bytes32

/-- The message of a round under the placeholder, and what its attempts and its results are made of. -/
structure LeaderRound where
  request : ExecuteUserRequests
  transaction : RoundTransaction
  spentUtxos : List (ChainTxOut Bytes32)
  requestResults : List PreparedRequestResult
  instructed : Option PriceFeedData

/-- The outputs of a round so far, with the descriptors of its vouchers. -/
structure RoundDraft where
  outputs : List (PsetOutput Bytes32)
  descriptors : List IssuedUtxoDescriptor
  results : List RequestResult

namespace IssuanceRound

open Issuance (okOr)

/-- `PLACEHOLDER_SIGNER` -/
def placeholderSigner : Bytes32 := Markers.toKey
  [0x79, 0xbe, 0x66, 0x7e, 0xf9, 0xdc, 0xbb, 0xac, 0x55, 0xa0, 0x62, 0x95, 0xce, 0x87, 0x0b, 0x07,
   0x02, 0x9b, 0xfc, 0xdb, 0x2d, 0xce, 0x28, 0xd9, 0x59, 0xf2, 0x81, 0x5b, 0x16, 0xf8, 0x17, 0x98]

def decodeArray (encoded : String) : Except IssuanceError Bytes32 :=
  match UserApi.hexDecode encoded.toList with
  | none => .error (.invalid "invalid authentication data")
  | some bytes => if bytes.length = 32 then .ok (Markers.toKey bytes) else .error (.invalid "invalid authentication data")

/-- `serde_json::to_string` of `TickUtxoDetails` -/
def tickUtxoDetails (timestamp : ℕ) : String := "\x7b\"timestamp\":" ++ toString timestamp ++ "\x7d"

section Branches

variable (libraries : IssuanceLibraries) (programs : IssuancePrograms)

/-- Sets `branch` as every Verifier's signer. -/
def committedTo (descriptors : List IssuedUtxoDescriptor) (branch : Bytes32) : List IssuedUtxoDescriptor :=
  descriptors.map fun descriptor => if descriptor.isVerifier then { descriptor with signer := some branch } else descriptor

/-- An output outside the transaction is an error. -/
def setScript (outputs : List (PsetOutput Bytes32)) (index : ℕ) (scriptPubkey : List UInt8) :
    Except IssuanceError (List (PsetOutput Bytes32)) := do
  let output ← okOr (.invalid "index out of bounds") outputs[index]?
  return outputs.set index { output with scriptPubkey := scriptPubkey }

def commitVerifier (stormEyeAssetId : Bytes32) (outputs : List (PsetOutput Bytes32)) (descriptor : IssuedUtxoDescriptor) :
    Except IssuanceError (List (PsetOutput Bytes32)) := do
  let script ← (descriptorProgram libraries programs stormEyeAssetId descriptor).mapError .invalid
  setScript outputs descriptor.outputIndex.toNat script

def commitOutputs (transaction : RoundTransaction) (branch : Bytes32) : Except IssuanceError (List (PsetOutput Bytes32)) :=
  if transaction.descriptors.any IssuedUtxoDescriptor.isVerifier then do
    let descriptors := committedTo transaction.descriptors branch
    let outputs ← (descriptors.filter IssuedUtxoDescriptor.isVerifier).foldlM
      (commitVerifier libraries programs transaction.stormEye.assetId) transaction.pset.outputs
    let script ← (Markers.descriptorScript descriptors).mapError .invalid
    setScript outputs transaction.descriptorOutput script
  else .ok transaction.pset.outputs

/-- The transaction with Verifiers committed to `branch`, and its signing hash. -/
def forBranch (transaction : RoundTransaction) (branch : Bytes32) : Except IssuanceError (IssuancePset × Bytes32) := do
  let outputs ← commitOutputs libraries programs transaction branch
  let pset := { transaction.pset with outputs := outputs }
  let signingHash ← (programs.signingHash pset transaction.stormEye).mapError .invalid
  return (pset, signingHash)

end Branches

section Blinding

variable (libraries : RoundLibraries)

def explicitSecrets (asset : Bytes32) (value : ℕ) : TxOutSecrets := ⟨asset, zeroTweak, value, zeroTweak⟩

def explicitTxoutSecrets (txout : ChainTxOut Bytes32) : Except IssuanceError TxOutSecrets := do
  let asset ← okOr (.invalid "expected explicit transaction asset") txout.asset.getExplicit
  let value ← okOr (.invalid "expected explicit transaction value") txout.value.getExplicit
  return explicitSecrets asset value

/-- Each token, then what it reissues. -/
def tokenInputSecrets (tokens : List RoundToken) : List TxOutSecrets :=
  tokens.flatMap fun token => [token.secrets, explicitSecrets token.asset.assetId token.issuanceAmount]

/-- The blinded output of a token, and the secrets of the outputs blinded so far; the last balances them. -/
def blindedToken (token : RoundToken) (index count : ℕ) (spent outputs : List TxOutSecrets) :
    Option (ChainTxOut Bytes32) × List TxOutSecrets :=
  let script := token.utxo.txout.scriptPubkey
  if index = count then
    (libraries.newLastConfidential token.secrets.value token.secrets.asset script spent outputs, outputs)
  else
    let factors := libraries.randomFactors index
    let secrets : TxOutSecrets := ⟨token.secrets.asset, factors.1, token.secrets.value, factors.2⟩
    (libraries.withTxoutSecrets script secrets spent, outputs ++ [secrets])

/-- A token, blinded to the Treasury and proved at its input. -/
def reblindToken (count : ℕ) (spent : List TxOutSecrets) (state : IssuancePset × List TxOutSecrets)
    (item : RoundToken × ℕ) : Except IssuanceError (IssuancePset × List TxOutSecrets) := do
  let token := item.1
  let index := 1 + item.2
  let name := token.asset.name
  let blinded := blindedToken libraries token index count spent state.2
  let txout ← okOr (.invalid s!"failed to reblind {name} token") blinded.1
  let output := { PsetOutput.fromTxout txout with
    blindingKey := some libraries.treasuryBlindingKey, blinderIndex := some index }
  let assetCommitment ← okOr (.invalid s!"{name} token asset is explicit") token.utxo.txout.asset.commitment
  let valueCommitment ← okOr (.invalid s!"{name} token value is explicit") token.utxo.txout.value.commitment
  let assetProof ← okOr (.invalid s!"failed to prove {name} token asset")
    (libraries.blindAssetProof token.secrets.asset token.secrets.assetBf)
  let valueProof ← okOr (.invalid s!"failed to prove {name} token value")
    (libraries.blindValueProof token.secrets.value valueCommitment assetCommitment token.secrets.valueBf)
  let input ← okOr (.invalid "index out of bounds") state.1.inputs[index]?
  let input := { input with
    asset := some token.secrets.asset, amount := some token.secrets.value,
    blindAssetProof := some assetProof, blindValueProof := some valueProof }
  return (⟨state.1.inputs.set index input, state.1.outputs.set index output⟩, blinded.2)

def reblindTokens (pset : IssuancePset) (tokens : List RoundToken) (spent : List TxOutSecrets) :
    Except IssuanceError IssuancePset := do
  let others := (pset.outputs.zipIdx.filter fun item => ¬(1 ≤ item.2 ∧ item.2 ≤ tokens.length)).map Prod.fst
  let outputs ← others.mapM fun output => explicitTxoutSecrets output.toTxout
  let state ← tokens.zipIdx.foldlM (reblindToken libraries tokens.length spent) (pset, outputs)
  return state.1

end Blinding

section Rounds

variable (libraries : RoundLibraries) (programs : IssuancePrograms) (node : TokenNode) (stormEye : NetworkAsset Bytes32)
  (tickAsset verifierAsset : Option (NetworkAsset Bytes32)) (config : Issuance.ProtocolConfig) (timestamp : ℕ)

def requestCount (batches : List DecodedBatch) : ℕ := (batches.map fun batch => batch.request.requests.length).sum

def verifierRequests (batches : List DecodedBatch) : ℕ :=
  ((batches.flatMap fun batch => batch.request.requests).filter fun request => issuesVerifier request.kind).length

/-- The token of an asset, found if the round reissues it. -/
def roundToken (kind : String) (asset : Option (NetworkAsset Bytes32)) (amount : Except IssuanceError ℕ) :
    Except IssuanceError RoundToken := do
  let asset ← okOr (.missingAsset kind) asset
  let amount ← amount
  RoundToken.find libraries node asset amount

def tokenIf (count : ℕ) (token : Except IssuanceError RoundToken) : Except IssuanceError (List RoundToken) :=
  if 0 < count then token.map fun token => [token] else .ok []

/-- Each token reissues the sum of its asset's outputs. -/
def findTokens (batches : List DecodedBatch) : Except IssuanceError (List RoundToken) := do
  let verifierCount := verifierRequests batches
  let tickCount := requestCount batches - verifierCount
  let tick ← tokenIf tickCount (roundToken libraries node Indexer.tickAssetKind tickAsset
    (checkedMul timestamp tickCount "Tick issuance amount overflow"))
  let verifier ← tokenIf verifierCount
    (roundToken libraries node Indexer.oracleVerifierKind verifierAsset (.ok verifierCount))
  return tick ++ verifier

/-- The input of a token, which needs the entropy of its asset. -/
def tokenInput (token : RoundToken) : Except IssuanceError IssuanceInput :=
  let name := token.asset.name
  (okOr (.invalid s!"{name} entropy is missing") token.asset.entropy).map
    (libraries.reissuanceInput token.utxo token.issuanceAmount)

/-- What the fee UTXOs of a batch hold. -/
def feeTotal (batch : DecodedBatch) : Except IssuanceError ℕ := do
  let _ ← decodeArray batch.request.header.publicKey
  batch.feeUtxos.foldlM (fun total utxo => addAmount total utxo.amount "fee input overflow") 0

/-- One voucher, at the next output; a Verifier's signer is not known yet. -/
def addVoucher (owner : Bytes32) (reserveOutputIndex : UInt32) (draft : RoundDraft) (userRequest : UserRequest) :
    Except IssuanceError RoundDraft := do
  let details ← (libraries.fromStr userRequest.payload).mapError .invalid
  let vout := draft.outputs.length
  let verifier := issuesVerifier userRequest.kind
  let outputIndex ← toU32 vout "issued output index overflow"
  let descriptor ← (fromRequest libraries.toIssuanceLibraries outputIndex reserveOutputIndex owner details.utxoAuthMethod
    (if verifier then some placeholderSigner else none)).mapError .invalid
  let amount := if verifier then 1 else timestamp
  let asset ← okOr (.invalid (if verifier then "a round with Verifiers reissues them" else "a round with Ticks reissues them"))
    (if verifier then verifierAsset else tickAsset)
  let payload := if verifier then "" else tickUtxoDetails timestamp
  let script ← (descriptorProgram libraries.toIssuanceLibraries programs stormEye.assetId descriptor).mapError .invalid
  return ⟨draft.outputs ++ [.new script amount asset.assetId], draft.descriptors ++ [descriptor],
    draft.results ++ [⟨userRequest.kind, vout, details.utxoAuthMethod, payload⟩]⟩

/-- The vouchers of a batch, which share a reserve. -/
def addBatch (firstReserveOutput : ℕ) (state : RoundDraft × List PreparedRequestResult) (item : DecodedBatch × ℕ) :
    Except IssuanceError (RoundDraft × List PreparedRequestResult) := do
  let owner ← decodeArray item.1.request.header.publicKey
  let reserveOutputIndex ← toU32 (firstReserveOutput + item.2) "reserve output index overflow"
  let draft ← item.1.request.requests.foldlM
    (addVoucher libraries programs stormEye tickAsset verifierAsset timestamp owner reserveOutputIndex)
    { state.1 with results := [] }
  return (draft, state.2 ++ [⟨item.1.requestHash, draft.results⟩])

def reserveOutput (item : DecodedBatch × UInt64) : Except IssuanceError (PsetOutput Bytes32) := do
  let owner ← decodeArray item.1.request.header.publicKey
  return .new (accountScript programs stormEye.assetId owner) item.2.toNat programs.policyAsset

def roundExternal (instructed : Option PriceFeedData) (batch : DecodedBatch) : ExternalRequests :=
  ⟨batch.requestHash, batch.encoded, batchPayload batch.namedFeed instructed⟩

/-- `prepare_round_candidate`, behind its walk over the queue. -/
def buildRound (stormEyeUtxo : Utxo Bytes32) (batches : List DecodedBatch) (instructed : Option PriceFeedData) :
    Except IssuanceError LeaderRound := do
  let tokens ← findTokens libraries node tickAsset verifierAsset timestamp batches
  let _ ← (Assets.stormEyeContractData stormEye).mapError fun _ => IssuanceError.invalid "Storm Eye contract data is missing"
  let tokenInputs ← tokens.mapM (tokenInput libraries)
  let balances ← batches.mapM feeTotal
  let feeUtxos := batches.flatMap DecodedBatch.feeUtxos
  let inputs := IssuanceInput.new stormEyeUtxo :: tokenInputs ++ feeUtxos.map IssuanceInput.new
  let spent := explicitSecrets stormEyeUtxo.asset stormEyeUtxo.amount :: tokenInputSecrets tokens ++
    feeUtxos.map fun utxo => explicitSecrets utxo.asset utxo.amount
  let head := PsetOutput.fromUtxo stormEyeUtxo :: tokens.map fun token =>
    .new token.utxo.txout.scriptPubkey token.secrets.value token.secrets.asset
  let issued := requestCount batches
  let (draft, results) ← batches.zipIdx.foldlM
    (addBatch libraries programs stormEye tickAsset verifierAsset timestamp (1 + tokens.length + issued)) (⟨head, [], []⟩, [])
  let accounts := List.zipWith (fun (batch : DecodedBatch) balance =>
    (UInt64.ofNat batch.request.requests.length, UInt64.ofNat balance)) batches balances
  let reserves ← (Issuance.allocateAccountReserves accounts config).mapError .request
  let reserveOutputs ← (batches.zip reserves).mapM (reserveOutput programs stormEye)
  let descriptorScript ← (Markers.descriptorScript draft.descriptors).mapError .invalid
  let operationalFee := config.operationalFeeSats * UInt64.ofNat issued
  let outputs := draft.outputs ++ reserveOutputs ++ [.new descriptorScript 0 programs.policyAsset,
    .new (treasuryScript programs stormEye.assetId) operationalFee.toNat programs.policyAsset,
    .new [] config.issuanceTransactionFeeSats.toNat programs.policyAsset]
  let pset ← reblindTokens libraries ⟨inputs, outputs⟩ tokens spent
  let transaction : RoundTransaction := ⟨pset, draft.descriptors, (draft.outputs ++ reserveOutputs).length, stormEye⟩
  let (placeholderPset, signingHash) ← forBranch libraries.toIssuanceLibraries programs transaction placeholderSigner
  return ⟨⟨placeholderPset, signingHash, placeholderSigner, batches.map (roundExternal instructed)⟩, transaction,
    stormEyeUtxo.txout :: tokens.map (fun token => token.utxo.txout) ++ feeUtxos.map Utxo.txout, results, instructed⟩

/-- The message of an attempt, which names its branch. -/
def messageFor (round : LeaderRound) (branch : Bytes32) : Except IssuanceError ExecuteUserRequests := do
  let (pset, signingHash) ← forBranch libraries.toIssuanceLibraries programs round.transaction branch
  return { round.request with tx := pset, signingHash := signingHash, signingStormTreeBranch := branch }

end Rounds

end IssuanceRound

end PriceOracle
