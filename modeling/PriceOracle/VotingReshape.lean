import PriceOracle.ContractUtxos
import PriceOracle.FairDivision
import PriceOracle.Indexer
import PriceOracle.Markers

/-!
# Transactions of approved votes

`voting_execution.rs`: an approved vote becomes a transaction that merges or splits Storm Eyes or
moves all of them to a new covenant; the Treasury pays its fee. Builder and validator are separate
functions of the same vote and the same node. Covenants, Storm Trees and what is signed are
parameters.
-/

namespace PriceOracle

inductive VotingExecutionError where
  | missingProposer
  | missingAsset (kind : String)
  | invalid (message : String)
  | encoding
  | asset (message : String)
  | signing (message : String)
  | transactionHelper (message : String)
  | rpc (message : String)
  /-- A covenant cannot be evaluated. -/
  | program
  deriving DecidableEq

inductive ReshapeOperation (W : Type) where
  | merge (outpoints : List (W × ℕ))
  | split (outpoint : W × ℕ) (count : ℕ)
  | updateMembers (members : List Bytes32) (newRoot : W)
  deriving DecidableEq

/-- The network's policy asset, transaction ids as bytes, the covenants, and what a vote signs. -/
structure VotingPrograms (W : Type) where
  policyAsset : W
  word : Bytes32 → W
  /-- The taproot key of the Treasury covenant, under a Storm Eye asset. -/
  treasuryKey : W → Bytes32
  /-- The Storm Tree root in the contract data of the Storm Eye. -/
  stormTreeRoot : NetworkAsset W → Except VotingExecutionError W
  /-- The script of the Storm Eye under another root. -/
  migratedStormEyeScript : NetworkAsset W → W → Except VotingExecutionError (List UInt8)
  /-- The root of a Storm Tree of members. -/
  memberRoot : List Bytes32 → Except VotingExecutionError W
  signingHashes : Pset W → NetworkAsset W → ℕ → Except VotingExecutionError (List W)

/-- The node's answers, and the tables and the fee of the configuration. -/
structure VotingView (W : Type) where
  node : ElementsNode W
  /-- The outputs of `getrawtransaction`. -/
  rawTransaction : W → Except String (List (ChainTxOut W))
  stormEye : Option (NetworkAsset W)
  /-- `treasury_utxos`: outpoints and amounts. -/
  indexedTreasury : List ((W × ℕ) × ℕ)
  transactionFeeSats : ℕ

structure ReshapeRequest (W : Type) where
  tx : Pset W
  signingHashes : List W
  signingStormTreeBranch : W
  proposerPublicKey : Bytes32

structure PreparedVotingExecution (W : Type) where
  request : ReshapeRequest W
  pset : Pset W
  spentUtxos : List (ChainTxOut W)
  stormEyeInputs : ℕ
  operation : ReshapeOperation W

/-- What the outputs behind the Storm Eyes add up to. -/
structure VotingTally where
  markers : ℕ
  membersMarkers : ℕ
  fees : ℕ
  treasuryReturn : ℕ
  deriving DecidableEq

namespace VotingReshape

/-- `MAX_RESHAPE_COUNT` -/
def maxReshapeCount : ℕ := 3

section Scripts

def migratedMembersScript (members : List Bytes32) (proposer : Bytes32) : Except VotingExecutionError (List UInt8) :=
  (Markers.migratedMembersScript members proposer).mapError .asset

variable {W : Type} (programs : VotingPrograms W)

/-- The pay-to-taproot script of the Treasury covenant. -/
def treasuryScript (stormEye : NetworkAsset W) : List UInt8 :=
  0x51 :: 0x20 :: (programs.treasuryKey stormEye.assetId).toList

end Scripts

variable {W : Type} [LinearOrder W] (programs : VotingPrograms W)

section Operation

def decoded {A : Type} : Option A → Except VotingExecutionError A
  | some a => .ok a
  | none => .error .encoding

def outpoint (utxo : StormEyeUtxo) : W × ℕ := (programs.word utxo.txid, utxo.outputIndex)

/-- `BTreeSet::remove` of a member. -/
def removeMember (members : List Bytes32) (member : Bytes32) : Except VotingExecutionError (List Bytes32) :=
  if member ∈ members then .ok (members.erase member)
  else .error (.invalid "member update removes a non-member")

/-- `BTreeSet::insert` of another one. -/
def acceptMember (members : List Bytes32) (member : Bytes32) : Except VotingExecutionError (List Bytes32) :=
  if member ∈ members then .error (.invalid "member update accepts an existing member")
  else .ok (members.orderedInsert (fun a b => a.toList ≤ b.toList) member)

/-- The operation of a vote. The current members are in ascending order. -/
def decodeOperation (message : Bytes) (currentMembers : List Bytes32) :
    Except VotingExecutionError (ReshapeOperation W) := do
  let message ← decoded (NodeMessage.codec.fromBytes message)
  let request ← decoded message.decodeVotingRequest
  match NetworkVoteKind.fromId request.kind with
  | some .mergeStormEyes => do
    let merge ← decoded (MergeStormEyes.codec.fromBytes request.payload)
    require (merge.utxosToMerge.length < 2 ^ 8) (.invalid "too many Storm Eyes to merge")
    require (2 ≤ merge.utxosToMerge.length ∧ merge.utxosToMerge.length ≤ maxReshapeCount)
      (.invalid "a merge requires two or three Storm Eye UTXOs")
    return .merge (merge.utxosToMerge.map (outpoint programs))
  | some .splitStormEye => do
    let split ← decoded (SplitStormEye.codec.fromBytes request.payload)
    require (split.numberOfSplits < 2 ^ 8) (.invalid "too many Storm Eye splits")
    require (2 ≤ split.numberOfSplits ∧ split.numberOfSplits ≤ maxReshapeCount)
      (.invalid "a Storm Eye must be split into two or three outputs")
    return .split (outpoint programs split.utxoToSplit) split.numberOfSplits
  | some .updateNetworkMembers => do
    let update ← decoded (UpdateNetworkMembers.codec.fromBytes request.payload)
    let kept ← update.toRemove.foldlM removeMember currentMembers
    let members ← update.toAccept.foldlM acceptMember kept
    let newRoot ← programs.memberRoot members
    return .updateMembers members newRoot
  | none => throw (.invalid "unknown voting kind")

end Operation

section Inputs

variable (view : VotingView W)

def helper {A : Type} (result : Except String A) : Except VotingExecutionError A := result.mapError .transactionHelper

def addAmount (total amount : ℕ) (message : String) : Except VotingExecutionError ℕ :=
  if total + amount < 2 ^ 64 then .ok (total + amount) else .error (.invalid message)

/-- A UTXO that the scan of the Storm Eye's script listed. -/
def scannedStormEye (stormEye : NetworkAsset W) (unspent : ScannedUtxo W) : Except VotingExecutionError (Utxo W) :=
  match unspent.txid with
  | none => .error (.invalid "invalid Storm Eye txid")
  | some txid => do
    let utxo ← helper (view.node.explicitOutpoint (txid, unspent.vout))
    require (utxo.asset = stormEye.assetId ∧ utxo.scriptPubkey = stormEye.contractScript)
      (.invalid "Storm Eye scan returned an invalid UTXO")
    return utxo

/-- All live Storm Eyes, in outpoint order. -/
def scanStormEyeUtxos (stormEye : NetworkAsset W) : Except VotingExecutionError (List (Utxo W)) := do
  let unspents ← (view.node.scan stormEye.contractScript).mapError .rpc
  let utxos ← (unspents.filter fun unspent => unspent.asset = some stormEye.assetId).mapM (scannedStormEye view stormEye)
  require (utxos ≠ []) (.invalid "network has no live Storm Eye UTXOs to migrate")
  return utxos.insertionSort fun a b => toLex a.outpoint ≤ toLex b.outpoint

def approvedStormEye (stormEye : NetworkAsset W) (outpoint : W × ℕ) : Except VotingExecutionError (Utxo W) := do
  let utxo ← helper (view.node.explicitOutpoint outpoint)
  require (utxo.asset = stormEye.assetId ∧ utxo.scriptPubkey = stormEye.contractScript)
    (.invalid "voting request references a non-Storm-Eye UTXO")
  return utxo

def operationUtxos (stormEye : NetworkAsset W) : ReshapeOperation W → Except VotingExecutionError (List (Utxo W))
  | .merge outpoints => outpoints.mapM (approvedStormEye view stormEye)
  | .split outpoint _ => [outpoint].mapM (approvedStormEye view stormEye)
  | .updateMembers _ _ => scanStormEyeUtxos view stormEye

/-- Indexed Treasury UTXOs that are still live, until they cover the fee. -/
def selectTreasuryUtxos : List ((W × ℕ) × ℕ) → List (Utxo W) → ℕ → Except VotingExecutionError (List (Utxo W))
  | [], _, _ => .error (.invalid "Treasury cannot cover the voting transaction fee")
  | indexed :: rest, selected, total => do
    match ← helper (view.node.optionalOutpoint true indexed.1) with
    | none => selectTreasuryUtxos rest selected total
    | some utxo =>
      if utxo.asset ≠ programs.policyAsset ∨ utxo.amount ≠ indexed.2 then selectTreasuryUtxos rest selected total
      else do
        let total ← addAmount total utxo.amount "Treasury input overflow"
        if view.transactionFeeSats ≤ total then return selected ++ [utxo]
        else selectTreasuryUtxos rest (selected ++ [utxo]) total

/-- The output an input spends: a live UTXO, or where spent inputs are allowed one of a known transaction. -/
def votingInput (outpoint : W × ℕ) (allowSpent : Bool) : Except VotingExecutionError (ChainTxOut W) := do
  match ← helper (view.node.optionalOutpoint true outpoint) with
  | some utxo => return utxo.txout
  | none =>
    if allowSpent then do
      let outputs ← (view.rawTransaction outpoint.1).mapError .rpc
      match outputs[outpoint.2]? with
      | some output => return output
      | none => throw (.invalid "previous voting transaction output is missing")
    else throw (.invalid "required voting input is unavailable")

end Inputs

section Builder

variable (view : VotingView W)

def sumAmounts (utxos : List (Utxo W)) (message : String) : Except VotingExecutionError ℕ :=
  utxos.foldlM (fun total utxo => addAmount total utxo.amount message) 0

/-- The outputs of the operation. A member update has its marker among them. -/
def reshapedOutputs (stormEye : NetworkAsset W) (proposer : Bytes32) (stormEyeUtxos : List (Utxo W)) (stormEyeAmount : ℕ) :
    ReshapeOperation W → Except VotingExecutionError (List (PsetOutput W))
  | .merge _ => .ok [.new stormEye.contractScript stormEyeAmount stormEye.assetId]
  | .split _ count => do
    require (count ≤ stormEyeAmount) (.invalid "Storm Eye amount is too small for the requested split")
    return (List.range count).map fun index =>
      .new stormEye.contractScript (FairDivision.share stormEyeAmount count index) stormEye.assetId
  | .updateMembers members newRoot => do
    let destination ← programs.migratedStormEyeScript stormEye newRoot
    let marker ← migratedMembersScript members proposer
    return stormEyeUtxos.map (fun utxo => .new destination utxo.amount stormEye.assetId) ++
      [.new marker 0 programs.policyAsset]

/-- The marker of an operation that leaves the members as they are. -/
def memberMarker (proposer : Bytes32) : ReshapeOperation W → List (PsetOutput W)
  | .updateMembers _ _ => []
  | _ => [.new (Markers.memberScript proposer) 0 programs.policyAsset]

def buildTransaction (proposer : Bytes32) (operation : ReshapeOperation W) (stormEye : NetworkAsset W)
    (stormEyeUtxos treasuryUtxos : List (Utxo W)) (transactionFeeSats : ℕ) :
    Except VotingExecutionError (PreparedVotingExecution W) := do
  let branch ← programs.stormTreeRoot stormEye
  let stormEyeAmount ← sumAmounts stormEyeUtxos "Storm Eye amount overflow"
  let treasuryAmount ← sumAmounts treasuryUtxos "Treasury amount overflow"
  require (transactionFeeSats ≤ treasuryAmount) (.invalid "Treasury cannot cover the fee")
  let treasuryChange := treasuryAmount - transactionFeeSats
  let reshaped ← reshapedOutputs programs stormEye proposer stormEyeUtxos stormEyeAmount operation
  let change := if 0 < treasuryChange then [.new (treasuryScript programs stormEye) treasuryChange programs.policyAsset] else []
  let pset : Pset W :=
    ⟨(stormEyeUtxos ++ treasuryUtxos).map .new,
      reshaped ++ change ++ memberMarker programs proposer operation ++ [.new [] transactionFeeSats programs.policyAsset]⟩
  let signingHashes ← programs.signingHashes pset stormEye stormEyeUtxos.length
  return ⟨⟨pset, signingHashes, branch, proposer⟩, pset, (stormEyeUtxos ++ treasuryUtxos).map Utxo.txout,
    stormEyeUtxos.length, operation⟩

/-- `prepare_transaction` of a vote with its proposer. -/
def prepareTransaction (message : Bytes) (proposer : Option Bytes32) (currentMembers : List Bytes32) :
    Except VotingExecutionError (PreparedVotingExecution W) :=
  match proposer with
  | none => .error .missingProposer
  | some proposer => do
    let operation ← decodeOperation programs message currentMembers
    match view.stormEye with
    | none => throw (.missingAsset Indexer.stormEyeKind)
    | some stormEye => do
      let stormEyeUtxos ← operationUtxos view stormEye operation
      let treasuryUtxos ← selectTreasuryUtxos programs view view.indexedTreasury [] 0
      buildTransaction programs proposer operation stormEye stormEyeUtxos treasuryUtxos view.transactionFeeSats

end Builder

section Validator

variable (view : VotingView W) (pset : Pset W) (stormEye : NetworkAsset W) (allowSpentInputs : Bool)

/-- The outpoints of the live Storm Eyes. None at all is no error where spent inputs are allowed. -/
def updateOutpoints : Except VotingExecutionError (List (W × ℕ)) :=
  match scanStormEyeUtxos view stormEye with
  | .ok utxos => .ok (utxos.map Utxo.outpoint)
  | .error error =>
    if allowSpentInputs ∧ error = .invalid "network has no live Storm Eye UTXOs to migrate" then .ok []
    else .error error

/-- The first inputs whose witnesses have the Storm Eye's script. -/
def transactionUpdateOutpoints : List (W × ℕ) :=
  (pset.inputs.takeWhile fun input => input.witnessUtxo.any fun output => output.scriptPubkey = stormEye.contractScript).map
    PsetInput.outpoint

def expectedOutpoints : ReshapeOperation W → Except VotingExecutionError (List (W × ℕ))
  | .merge outpoints => .ok outpoints
  | .split outpoint _ => .ok [outpoint]
  | .updateMembers _ _ => do
    let live ← updateOutpoints view stormEye allowSpentInputs
    return if allowSpentInputs ∧ live = [] then transactionUpdateOutpoints pset stormEye else live

/-- The amount of an input, after the checks that Storm Eye and Treasury inputs share. -/
def checkInput (input : PsetInput W) (index : ℕ) (asset : W) (script : List UInt8) (mismatch confidential : String) :
    Except VotingExecutionError ℕ := do
  let witness ← helper (pset.witnessUtxo index)
  let previous ← votingInput view input.outpoint allowSpentInputs
  require (witness = previous ∧ previous.asset.getExplicit = some asset ∧ previous.scriptPubkey = script) (.invalid mismatch)
  match previous.value.getExplicit with
  | some amount => return amount
  | none => throw (.invalid confidential)

/-- One Storm Eye input, with its position. -/
def addStormEyeInput (total : ℕ) (expected : (W × ℕ) × ℕ) : Except VotingExecutionError ℕ :=
  match pset.inputs[expected.2]? with
  | none => .error (.invalid "voting transaction is missing a Storm Eye input")
  | some input => do
    require (input.outpoint = expected.1) (.invalid "Storm Eye inputs do not match the approved vote")
    let amount ← checkInput view pset allowSpentInputs input expected.2 stormEye.assetId stormEye.contractScript
      "Storm Eye input does not match the live approved UTXO" "Storm Eye input value must be explicit"
    addAmount total amount "Storm Eye amount overflow"

/-- One Treasury input, with its position. -/
def addTreasuryInput (allowUnindexedTreasury : Bool) (total : ℕ) (item : PsetInput W × ℕ) :
    Except VotingExecutionError ℕ := do
  require (allowUnindexedTreasury ∨ item.1.outpoint ∈ view.indexedTreasury.map Prod.fst)
    (.invalid "voting transaction uses an unindexed Treasury input")
  let amount ← checkInput view pset allowSpentInputs item.1 item.2 programs.policyAsset (treasuryScript programs stormEye)
    "Treasury fee input does not match the live UTXO" "Treasury input value must be explicit"
  addAmount total amount "Treasury amount overflow"

def splitCount (stormCount : ℕ) : ReshapeOperation W → ℕ
  | .merge _ => 1
  | .split _ count => count
  | .updateMembers _ _ => stormCount

def destinationScript : ReshapeOperation W → Except VotingExecutionError (List UInt8)
  | .updateMembers _ newRoot => programs.migratedStormEyeScript stormEye newRoot
  | _ => .ok stormEye.contractScript

/-- The amount of the Storm Eye output at a position. The validator has as many outpoints as a member update
has outputs. -/
def expectedAmount (operation : ReshapeOperation W) (outpoints : List (W × ℕ)) (stormTotal count index : ℕ) :
    Except VotingExecutionError ℕ :=
  match operation with
  | .updateMembers _ _ =>
    match outpoints[index]? with
    | none => .error (.invalid "index out of bounds")
    | some outpoint => do
      let previous ← votingInput view outpoint allowSpentInputs
      match previous.value.getExplicit with
      | some amount => return amount
      | none => throw (.invalid "Storm Eye input value must be explicit")
  | _ => .ok (FairDivision.share stormTotal count index)

/-- One Storm Eye output, with its position. -/
def checkStormEyeOutput (operation : ReshapeOperation W) (outpoints : List (W × ℕ)) (stormTotal count : ℕ)
    (destination : List UInt8) (item : PsetOutput W × ℕ) : Except VotingExecutionError Unit := do
  let expected ← expectedAmount view allowSpentInputs operation outpoints stormTotal count item.2
  require (item.1.isFullyExplicit = true ∧ item.1.asset = some stormEye.assetId ∧ item.1.amount = some expected ∧
    item.1.scriptPubkey = destination) (.invalid "Storm Eye outputs do not match the approved reshape")

def isMembersMarker (proposer : Bytes32) (amount : ℕ) (script : List UInt8) : ReshapeOperation W → Except VotingExecutionError Bool
  | .updateMembers members _ =>
    if amount = 0 then do
      let marker ← migratedMembersScript members proposer
      return marker = script
    else .ok false
  | _ => .ok false

/-- One output behind the Storm Eyes. -/
def tallyOutput (operation : ReshapeOperation W) (proposer : Bytes32) (transactionFeeSats : ℕ) (tally : VotingTally)
    (output : PsetOutput W) : Except VotingExecutionError VotingTally := do
  require (output.isFullyExplicit = true ∧ output.asset = some programs.policyAsset)
    (.invalid "voting fee outputs must be explicit LBTC")
  match output.amount with
  | none => throw (.invalid "voting output amount is missing")
  | some amount =>
    if output.scriptPubkey = treasuryScript programs stormEye then do
      let treasuryReturn ← addAmount tally.treasuryReturn amount "Treasury change overflow"
      return { tally with treasuryReturn := treasuryReturn }
    else if output.scriptPubkey = Markers.memberScript proposer ∧ amount = 0 then
      return { tally with markers := tally.markers + 1 }
    else do
      let migrated ← isMembersMarker proposer amount output.scriptPubkey operation
      if migrated then
        return { tally with markers := tally.markers + 1, membersMarkers := tally.membersMarkers + 1 }
      else if output.scriptPubkey = [] ∧ amount = transactionFeeSats then return { tally with fees := tally.fees + 1 }
      else throw (.invalid "voting transaction contains an unexpected output")

def expectedMembersMarkers : ReshapeOperation W → ℕ
  | .updateMembers _ _ => 1
  | _ => 0

def validateLayout (signingHashes : List W) (proposer : Bytes32) (operation : ReshapeOperation W) (allowUnindexedTreasury : Bool) :
    Except VotingExecutionError Unit := do
  let outpoints ← expectedOutpoints view pset stormEye allowSpentInputs operation
  let stormCount := outpoints.length
  require (stormCount ≠ 0) (.invalid "voting transaction has no Storm Eye input")
  require (stormCount < pset.inputs.length) (.invalid "voting transaction has no Treasury fee input")
  let stormTotal ← outpoints.zipIdx.foldlM (addStormEyeInput view pset stormEye allowSpentInputs) 0
  let treasuryTotal ← (pset.inputs.zipIdx.drop stormCount).foldlM
    (addTreasuryInput programs view pset stormEye allowSpentInputs allowUnindexedTreasury) 0
  let count := splitCount stormCount operation
  require (count + 2 ≤ pset.outputs.length) (.invalid "voting transaction outputs are incomplete")
  let destination ← destinationScript programs stormEye operation
  (pset.outputs.take count).zipIdx.forM
    (checkStormEyeOutput view stormEye allowSpentInputs operation outpoints stormTotal count destination)
  let tally ← (pset.outputs.drop count).foldlM
    (tallyOutput programs stormEye operation proposer view.transactionFeeSats) ⟨0, 0, 0, 0⟩
  require (tally.markers = 1 ∧ tally.membersMarkers = expectedMembersMarkers operation ∧ tally.fees = 1 ∧
    tally.treasuryReturn ≤ treasuryTotal ∧ treasuryTotal - tally.treasuryReturn = view.transactionFeeSats)
    (.invalid "voting transaction fee accounting is invalid")
  let hashes ← programs.signingHashes pset stormEye stormCount
  require (hashes = signingHashes) (.invalid "voting execution signing hashes mismatch")

end Validator

end VotingReshape

end PriceOracle
