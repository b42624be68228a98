import PriceOracle.IssuanceMessages

/-!
# What a signer of a round checks

`validate_execute_request`: a signer lays the transaction of a message out again from the batches
that their owners signed, and compares it with the PSET position by position: the Storm Eye, the
tokens, the vouchers, the reserves, the descriptor, and behind them the Treasury's fee and the
miner's.
-/

namespace PriceOracle

def ChainField.commitment {α : Type} : ChainField α → Option (List UInt8)
  | .confidential commitment => some commitment
  | _ => none

/-- What a batch has to pay for: the script of its account, its vouchers, and what its fee UTXOs hold. -/
structure AccountRequirement where
  script : List UInt8
  requestCount : ℕ
  inputTotal : ℕ
  deriving DecidableEq

/-- The loop over the vouchers: their descriptors so far, and what each token reissues. -/
structure IssuedScan where
  descriptors : List IssuedUtxoDescriptor
  issuedAmounts : List ℕ

namespace IssuanceRound

open Issuance (okOr)

/-- `MAX_TICK_TIME_SKEW_SECS` -/
def maxTickTimeSkewSecs : ℕ := 120

def absDiff (a b : ℕ) : ℕ := (a - b) + (b - a)

def addAmount (total amount : ℕ) (message : String) : Except IssuanceError ℕ :=
  if total + amount < 2 ^ 64 then .ok (total + amount) else .error (.invalid message)

def toU32 (value : ℕ) (message : String) : Except IssuanceError UInt32 :=
  if value < 2 ^ 32 then .ok (UInt32.ofNat value) else .error (.invalid message)

variable (libraries : IssuanceLibraries) (programs : IssuancePrograms) (pset : IssuancePset)
  (stormEye : NetworkAsset Bytes32) (tickAsset verifierAsset : Option (NetworkAsset Bytes32))

section Tokens

/-- The tokens of the assets that the batches ask for, the Tick's first. -/
def roundTokens (batches : List IssuedBatch) : Except IssuanceError (List (NetworkAsset Bytes32)) := do
  let tick ← if verifierCount batches < issuedCount batches then
      (okOr (.missingAsset Indexer.tickAssetKind) tickAsset).map fun asset => [asset]
    else .ok []
  let verifier ← if 0 < verifierCount batches then
      (okOr (.missingAsset Indexer.oracleVerifierKind) verifierAsset).map fun asset => [asset]
    else .ok []
  return tick ++ verifier

/-- The token at a position is returned unchanged. -/
def validateToken (item : NetworkAsset Bytes32 × ℕ) : Except IssuanceError Unit := do
  let name := item.1.name
  let index := 1 + item.2
  let tokenInput ← (pset.spent.witnessUtxo index).mapError .invalid
  let expectedToken ← tokenTxout libraries item.1
  let expected ← okOr (.invalid s!"failed to unblind {name} token template") (libraries.unblind expectedToken)
  let input ← okOr (.invalid "index out of bounds") pset.inputs[index]?
  let assetCommitment ← okOr (.invalid s!"{name} token asset is explicit") tokenInput.asset.commitment
  let valueCommitment ← okOr (.invalid s!"{name} token value is explicit") tokenInput.value.commitment
  require (input.asset = some expected.1 ∧ input.amount = some expected.2 ∧
      tokenInput.scriptPubkey = expectedToken.scriptPubkey ∧
      (input.blindAssetProof.any fun proof => libraries.blindAssetProofVerify proof expected.1 assetCommitment) = true ∧
      (input.blindValueProof.any fun proof =>
        libraries.blindValueProofVerify proof expected.2 assetCommitment valueCommitment) = true)
    (.invalid s!"invalid {name} reissuance token input")
  let output ← okOr (.invalid s!"missing {name} token output") pset.outputs[index]?
  let secrets ← okOr (.invalid s!"failed to unblind {name} token output") (libraries.unblind output.toTxout)
  require (secrets = expected ∧ output.toTxout.scriptPubkey = tokenInput.scriptPubkey ∧
      output.toTxout.asset.isConfidential = true ∧ output.toTxout.value.isConfidential = true)
    (.invalid s!"{name} reissuance token is not preserved")

end Tokens

section Fees

/-- A transaction id is written backwards. -/
def feeOutpoint (feeUtxo : FeeUtxo (List UInt8)) : Except IssuanceError (Bytes32 × ℕ) :=
  if feeUtxo.txid.length = 32 then .ok (Markers.toKey feeUtxo.txid.reverse, feeUtxo.outputIndex)
  else .error (.invalid "invalid fee UTXO txid")

/-- One fee UTXO of a batch, with the position of its input and what those before it hold. -/
def checkFeeInput (script : List UInt8) (funds : ℕ × ℕ) (feeUtxo : FeeUtxo (List UInt8)) :
    Except IssuanceError (ℕ × ℕ) := do
  let input ← okOr (.invalid "a submitted fee UTXO is missing") pset.inputs[funds.1]?
  let expected ← feeOutpoint feeUtxo
  require (input.outpoint = expected ∧ (input.witnessUtxo.any fun utxo => utxo.scriptPubkey = script) = true)
    (.invalid "fee UTXO input does not match the signed user request")
  let amount ← okOr (.invalid "fee UTXO must be explicit") (input.witnessUtxo.bind fun utxo => utxo.value.getExplicit)
  let total ← addAmount funds.2 amount "fee input overflow"
  return (funds.1 + 1, total)

/-- The fee inputs of the batches from a position on, up to the position behind them. -/
def checkAccounts : ℕ → List IssuedBatch → Except IssuanceError (ℕ × List AccountRequirement)
  | index, [] => .ok (index, [])
  | index, batch :: batches => do
    let script := accountScript programs stormEye.assetId batch.owner
    let (next, total) ← batch.feeUtxos.foldlM (checkFeeInput pset script) (index, 0)
    let (last, accounts) ← checkAccounts next batches
    return (last, ⟨script, batch.request.requests.length, total⟩ :: accounts)

end Fees

section Vouchers

variable (tokens : List (NetworkAsset Bytes32)) (signer : Bytes32) (now : ℕ)

/-- The position of the token that reissues a voucher, and its asset. -/
def issuedToken (verifier : Bool) (amount : ℕ) : Except IssuanceError (ℕ × Option (NetworkAsset Bytes32)) :=
  if verifier then
    if amount ≠ 1 then .error (.invalid "an Oracle Verifier is issued with an amount of one")
    else .ok (tokens.length - 1, verifierAsset)
  else if maxTickTimeSkewSecs < absDiff amount now then
    .error (.invalid "Tick timestamp is outside the accepted window")
  else .ok (0, tickAsset)

/-- One voucher, at the next output. Verifiers commit to the branch of the message. -/
def checkIssued (owner : Bytes32) (reserveOutputIndex : UInt32) (scan : IssuedScan) (issued : UserRequest) :
    Except IssuanceError IssuedScan := do
  let details ← (libraries.fromStr issued.payload).mapError .invalid
  let outputIndex := 1 + tokens.length + scan.descriptors.length
  let verifier := issuesVerifier issued.kind
  let descriptorIndex ← toU32 outputIndex "issued output index overflow"
  let descriptor ← (fromRequest libraries descriptorIndex reserveOutputIndex owner details.utxoAuthMethod
    (if verifier then some signer else none)).mapError .invalid
  let output ← okOr (.invalid "a requested issued output is missing") pset.outputs[outputIndex]?
  let amount ← okOr (.invalid "issued output amount is confidential") output.amount
  let (token, asset) ← issuedToken tickAsset verifierAsset tokens now verifier amount
  let asset ← okOr (.invalid "the round reissues every asset it issues") asset
  let name := asset.name
  let expectedScript ← (descriptorProgram libraries programs stormEye.assetId descriptor).mapError .invalid
  require (output.asset = some asset.assetId ∧ output.scriptPubkey = expectedScript)
    (.invalid s!"{name} output does not match the request")
  let total ← addAmount (scan.issuedAmounts.getD token 0) amount s!"{name} issuance amount overflow"
  return ⟨scan.descriptors ++ [descriptor], scan.issuedAmounts.set token total⟩

/-- The vouchers of a batch, which share a reserve. -/
def checkBatch (firstReserveOutput : ℕ) (scan : IssuedScan) (item : IssuedBatch × ℕ) : Except IssuanceError IssuedScan := do
  let reserveOutputIndex ← toU32 (firstReserveOutput + item.2) "reserve output index overflow"
  item.1.request.requests.foldlM (checkIssued libraries programs pset stormEye tickAsset verifierAsset tokens signer now
    item.1.owner reserveOutputIndex) scan

/-- A token, what it reissues, and its position. -/
def checkReissuance (item : (NetworkAsset Bytes32 × ℕ) × ℕ) : Except IssuanceError Unit := do
  let name := item.1.1.name
  let input ← okOr (.invalid "index out of bounds") pset.inputs[1 + item.2]?
  require (input.issuanceValueAmount = some item.1.2 ∧ input.issuanceAssetEntropy = item.1.1.entropy ∧
      input.issuanceValueComm = none ∧ input.issuanceValueRangeproof = none ∧ input.inIssuanceBlindValueProof = none)
    (.invalid s!"{name} reissuance metadata does not match the requested outputs")

end Vouchers

section Accounting

variable (config : Issuance.ProtocolConfig)

/-- An output that is explicit, unless it is that of a token. -/
def checkExplicit (tokenCount : ℕ) (item : PsetOutput Bytes32 × ℕ) : Except IssuanceError Unit :=
  let index := item.2
  require ((1 ≤ index ∧ index ≤ tokenCount) ∨ item.1.isFullyExplicit = true)
    (.invalid s!"issuance output {index} must be explicit")

/-- An account, its reserve, and its position. -/
def checkReserve (first : ℕ) (item : (AccountRequirement × UInt64) × ℕ) : Except IssuanceError Unit := do
  let output ← okOr (.invalid "user burn-fee reserve output is missing") pset.outputs[first + item.2]?
  require (output.scriptPubkey = item.1.1.script ∧ output.asset = some programs.policyAsset ∧
    output.amount = some item.1.2.toNat) (.invalid "invalid user burn-fee reserve output")

/-- What a fee input adds. -/
def addFeeInput (total : ℕ) (input : IssuanceInput) : Except IssuanceError ℕ := do
  let utxo ← okOr (.invalid "fee UTXO is missing") input.witnessUtxo
  require (utxo.asset.getExplicit = some programs.policyAsset) (.invalid "fee UTXO asset mismatch")
  let value ← okOr (.invalid "fee UTXO must be explicit") utxo.value.getExplicit
  addAmount total value "fee input overflow"

/-- What an output of the policy asset adds. -/
def addFeeOutput (total : ℕ) (output : PsetOutput Bytes32) : Except IssuanceError ℕ :=
  if output.asset ≠ some programs.policyAsset then .ok total
  else do
    let amount ← okOr (.invalid "policy asset output must be explicit") output.amount
    addAmount total amount "fee output overflow"

def checkedMul (a b : ℕ) (message : String) : Except IssuanceError ℕ :=
  if a * b < 2 ^ 64 then .ok (a * b) else .error (.invalid message)

def accountOf (account : AccountRequirement) : Issuance.Account :=
  (UInt64.ofNat account.requestCount, UInt64.ofNat account.inputTotal)

def validateAccountingOutputs (accounts : List AccountRequirement) (tokenCount issuedCount : ℕ) :
    Except IssuanceError Unit := do
  require (pset.outputs.length = 1 + tokenCount + issuedCount + accounts.length + 1 + 2)
    (.invalid "issuance transaction has unexpected outputs")
  pset.outputs.zipIdx.forM (checkExplicit tokenCount)
  let expectedOperational ← checkedMul config.operationalFeeSats.toNat issuedCount "operational fee overflow"
  require (∃ output ∈ pset.outputs, output.scriptPubkey = treasuryScript programs stormEye.assetId ∧
    output.asset = some programs.policyAsset ∧ output.amount = some expectedOperational)
    (.invalid "Treasury operational fee output is missing")
  let accountReserves ← (Issuance.allocateAccountReserves (accounts.map accountOf) config).mapError .request
  (accounts.zip accountReserves).zipIdx.forM (checkReserve programs pset (1 + tokenCount + issuedCount))
  require (∃ output ∈ pset.outputs, output.scriptPubkey = [] ∧ output.asset = some programs.policyAsset ∧
    output.amount = some config.issuanceTransactionFeeSats.toNat) (.invalid "miner fee output is missing")
  let inputTotal ← (pset.inputs.drop (1 + tokenCount)).foldlM (addFeeInput programs) 0
  let outputTotal ← pset.outputs.foldlM (addFeeOutput programs) 0
  require (inputTotal = outputTotal) (.invalid "policy asset inputs and outputs do not balance")

end Accounting

/-- The rate the message is issued at, `none` for plain Tick requests. -/
def validateExecuteRequest (config : Issuance.ProtocolConfig) (now : ℕ) (request : ExecuteUserRequests) :
    Except IssuanceError (Option PriceFeedData) := do
  require (request.externalRequests ≠ []) (.invalid "no external requests")
  let pset := request.tx
  require (3 ≤ pset.inputs.length ∧ 5 ≤ pset.outputs.length) (.invalid "issuance transaction is incomplete")
  let stormEyeInput ← (pset.spent.witnessUtxo 0).mapError .invalid
  (requireExplicitUtxo stormEyeInput stormEye.assetId stormEye.contractScript "Storm Eye").mapError .invalid
  (requirePreservedOutput pset.spent 0 stormEyeInput "Storm Eye").mapError .invalid
  let (batches, instructed) ← request.externalRequests.foldlM (readExternal libraries) ([], none)
  let tokens ← roundTokens tickAsset verifierAsset batches
  tokens.zipIdx.forM (validateToken libraries pset)
  let (lastInput, accounts) ← checkAccounts programs pset stormEye (1 + tokens.length) batches
  require (pset.inputs.length = lastInput) (.invalid "issuance transaction has unrequested inputs")
  let firstReserveOutput := 1 + tokens.length + issuedCount batches
  let scan ← batches.zipIdx.foldlM (checkBatch libraries programs pset stormEye tickAsset verifierAsset tokens
    request.signingStormTreeBranch now firstReserveOutput) ⟨[], tokens.map fun _ => 0⟩
  (tokens.zip scan.issuedAmounts).zipIdx.forM (checkReissuance pset)
  let descriptorScript ← (Markers.descriptorScript scan.descriptors).mapError .invalid
  let output ← okOr (.invalid "issued UTXO descriptor is missing") pset.outputs[firstReserveOutput + accounts.length]?
  require (output.asset = some programs.policyAsset ∧ output.amount = some 0 ∧ output.scriptPubkey = descriptorScript)
    (.invalid "invalid issued UTXO descriptor")
  validateAccountingOutputs programs pset stormEye config accounts tokens.length (issuedCount batches)
  let signingHash ← (programs.signingHash pset stormEye).mapError .invalid
  require (signingHash = request.signingHash) (.invalid "signing hash mismatch")
  return instructed

end IssuanceRound

end PriceOracle
