import PriceOracle.Assets
import PriceOracle.VotingReshape

/-!
# Renewals of the Storm Eye

`renewal.rs`: within a month of its rescue height all live Storm Eyes move to the covenant of the next period. The
coordinator builds the transaction, and every signer builds it again. The node's answers and what a renewal signs
are parameters.
-/

namespace PriceOracle

inductive RenewalError where
  | missingAsset (kind : String)
  | invalid (message : String)
  | asset (error : AssetError)
  | votingTransaction (error : VotingExecutionError)
  | transactionHelper (message : String)
  | rpc (message : String)
  deriving DecidableEq

/-- The network, its covenants, and what a renewal signs. -/
structure RenewalPrograms (Sig E : Type) where
  policyAsset : Bytes32
  rules : AssetRules Sig E
  signingHashes : Pset Bytes32 → NetworkAsset Bytes32 → ℕ → Except VotingExecutionError (List Bytes32)

/-- The node's answers, and the tables and the configuration. -/
structure RenewalView where
  node : ElementsNode Bytes32
  /-- `getblockcount` -/
  blockHeight : ℕ
  stormEye : Option (NetworkAsset Bytes32)
  /-- `treasury_utxos`: outpoints and amounts. -/
  indexedTreasury : List ((Bytes32 × ℕ) × ℕ)
  transactionFeeSats : ℕ
  coordinatorMember : Bytes32

structure RenewStormUtxos where
  tx : Pset Bytes32
  finalTx : Option (List UInt8)
  signingHashes : List Bytes32
  signingStormTreeBranch : Bytes32
  blockHeight : ℕ
  newRescueHeight : ℕ
  deriving DecidableEq

structure PreparedRenewal where
  request : RenewStormUtxos
  pset : Pset Bytes32
  spentUtxos : List (ChainTxOut Bytes32)
  stormEyeInputs : ℕ
  oldStormEye : NetworkAsset Bytes32
  deriving DecidableEq

namespace Renewal

open Assets (saturatingAdd stormEyeContractData renewedStormEye nextStormEyeRescueHeight)

/-- `RENEWAL_LEAD_BLOCKS` -/
def renewalLeadBlocks : ℕ := 30 * 24 * 60

def renewalDue (blockHeight rescueHeight : ℕ) : Bool := rescueHeight ≤ saturatingAdd blockHeight renewalLeadBlocks

variable {Sig E : Type} (programs : RenewalPrograms Sig E) (view : RenewalView)

section Inputs

variable (includeMempool : Bool) (stormEye : NetworkAsset Bytes32)

/-- The UTXO of a scanned outpoint, with or without the mempool. -/
def scannedOutpoint (outpoint : Bytes32 × ℕ) : Except VotingExecutionError (Utxo Bytes32) :=
  if includeMempool then (view.node.explicitOutpoint outpoint).mapError .transactionHelper
  else do
    match ← (view.node.optionalOutpoint false outpoint).mapError .transactionHelper with
    | some utxo => return utxo
    | none => throw (.invalid "required Storm Eye UTXO is unavailable")

def scannedUtxo (unspent : ScannedUtxo Bytes32) : Except VotingExecutionError (Utxo Bytes32) :=
  match unspent.txid with
  | none => .error (.invalid "invalid Storm Eye txid")
  | some txid => do
    let utxo ← scannedOutpoint view includeMempool (txid, unspent.vout)
    require (utxo.asset = stormEye.assetId ∧ utxo.scriptPubkey = stormEye.contractScript)
      (.invalid "Storm Eye scan returned an invalid UTXO")
    return utxo

/-- Anyone can pay to the covenant script; only Storm Eye outputs belong to the network. -/
def isStormEye (unspent : ScannedUtxo Bytes32) : Bool := unspent.asset = some stormEye.assetId

/-- `scan_storm_eye_utxos_with_mempool` -/
def scanStormEyeUtxos : Except VotingExecutionError (List (Utxo Bytes32)) := do
  let unspents ← (view.node.scan stormEye.contractScript).mapError .rpc
  let utxos ← (unspents.filter (isStormEye stormEye)).mapM (scannedUtxo view includeMempool stormEye)
  let utxos := utxos.insertionSort fun a b => toLex a.outpoint ≤ toLex b.outpoint
  require (utxos ≠ []) (.invalid "network has no live Storm Eye UTXOs to migrate")
  return utxos

def addAmount (total amount : ℕ) (message : String) : Except RenewalError ℕ :=
  if total + amount < 2 ^ 64 then .ok (total + amount) else .error (.invalid message)

/-- Indexed Treasury UTXOs that are still live, until they cover the fee. -/
def selectTreasuryUtxos : List ((Bytes32 × ℕ) × ℕ) → List (Utxo Bytes32) → ℕ → Except RenewalError (List (Utxo Bytes32))
  | [], _, _ => .error (.invalid "Treasury cannot cover the Storm Eye renewal fee")
  | indexed :: rest, selected, total => do
    match ← (view.node.optionalOutpoint includeMempool indexed.1).mapError .transactionHelper with
    | none => selectTreasuryUtxos rest selected total
    | some utxo =>
      if utxo.asset ≠ programs.policyAsset ∨ utxo.amount ≠ indexed.2 then selectTreasuryUtxos rest selected total
      else do
        let total ← addAmount total utxo.amount "Treasury input overflow"
        if view.transactionFeeSats ≤ total then return selected ++ [utxo]
        else selectTreasuryUtxos rest (selected ++ [utxo]) total

end Inputs

section Builder

def sumAmounts (utxos : List (Utxo Bytes32)) : Except RenewalError ℕ :=
  utxos.foldlM (fun total utxo => addAmount total utxo.amount "Treasury amount overflow") 0

def treasuryScript (stormEye : NetworkAsset Bytes32) : List UInt8 := Assets.treasuryScript programs.rules stormEye

/-- What a renewal pays: all Storm Eyes to the next covenant, the rest of the Treasury, the marker and the fee. -/
def renewalOutputs (stormEye renewed : NetworkAsset Bytes32) (stormEyeUtxos : List (Utxo Bytes32)) (treasuryChange : ℕ) :
    List (PsetOutput Bytes32) :=
  stormEyeUtxos.map (fun utxo => .new renewed.contractScript utxo.amount stormEye.assetId) ++
    (if 0 < treasuryChange then [.new (treasuryScript programs stormEye) treasuryChange programs.policyAsset] else []) ++
    [.new (Markers.memberScript view.coordinatorMember) 0 programs.policyAsset,
      .new [] view.transactionFeeSats programs.policyAsset]

def buildTransaction (blockHeight newRescueHeight : ℕ) (stormEye : NetworkAsset Bytes32)
    (stormEyeUtxos treasuryUtxos : List (Utxo Bytes32)) : Except RenewalError PreparedRenewal := do
  let data ← (stormEyeContractData stormEye).mapError .asset
  require (stormEyeUtxos ≠ []) (.invalid "there are no live Storm Eyes to renew")
  let renewed ← (renewedStormEye programs.rules stormEye).mapError .asset
  let renewedData ← (stormEyeContractData renewed).mapError .asset
  require (renewedData.rescueHeight = newRescueHeight)
    (.invalid "renewal rescue height does not match the next covenant state")
  let treasuryAmount ← sumAmounts treasuryUtxos
  require (view.transactionFeeSats ≤ treasuryAmount) (.invalid "Treasury cannot cover the renewal fee")
  let treasuryChange := treasuryAmount - view.transactionFeeSats
  let pset : Pset Bytes32 :=
    ⟨(stormEyeUtxos ++ treasuryUtxos).map .new, renewalOutputs programs view stormEye renewed stormEyeUtxos treasuryChange⟩
  let signingHashes ← (programs.signingHashes pset stormEye stormEyeUtxos.length).mapError .votingTransaction
  return ⟨⟨pset, none, signingHashes, data.stormTreeRoot, blockHeight, newRescueHeight⟩, pset,
    (stormEyeUtxos ++ treasuryUtxos).map Utxo.txout, stormEyeUtxos.length, stormEye⟩

def prepareTransaction (blockHeight : ℕ) (stormEye : NetworkAsset Bytes32) (includeMempool : Bool) :
    Except RenewalError PreparedRenewal := do
  let data ← (stormEyeContractData stormEye).mapError .asset
  require (renewalDue blockHeight data.rescueHeight = true)
    (.invalid "Storm Eye rescue height is outside the one-month renewal window")
  let newRescueHeight ← (nextStormEyeRescueHeight data.rescueHeight).mapError .asset
  require (data.rescueHeight < newRescueHeight) (.invalid "renewal must push the Storm Eye rescue height forward")
  let stormEyeUtxos ← (scanStormEyeUtxos view includeMempool stormEye).mapError .votingTransaction
  let treasuryUtxos ← selectTreasuryUtxos programs view includeMempool view.indexedTreasury [] 0
  buildTransaction programs view blockHeight newRescueHeight stormEye stormEyeUtxos treasuryUtxos

/-- The coordinator's renewal. -/
def prepare (blockHeight : ℕ) (stormEye : NetworkAsset Bytes32) : Except RenewalError PreparedRenewal :=
  prepareTransaction programs view blockHeight stormEye true

end Builder

section Validator

def validateTransaction (request : RenewStormUtxos) (includeMempool : Bool) : Except RenewalError Unit :=
  match view.stormEye with
  | none => .error (.missingAsset Indexer.stormEyeKind)
  | some stormEye => do
    let expected ← prepareTransaction programs view request.blockHeight stormEye includeMempool
    require (expected.request.tx = request.tx ∧ expected.request.signingHashes = request.signingHashes ∧
      expected.request.blockHeight = request.blockHeight ∧ expected.request.newRescueHeight = request.newRescueHeight)
      (.invalid "renewal transaction does not match the complete live Storm Eye inventory")

/-- A signer's check of a renewal. -/
def validateRequest (request : RenewStormUtxos) : Except RenewalError Unit := do
  require (request.finalTx = none) (.invalid "signing request unexpectedly contains a final transaction")
  require (request.blockHeight = view.blockHeight) (.invalid "renewal does not target the current Liquid block")
  validateTransaction programs view request true

end Validator

end Renewal

end PriceOracle
