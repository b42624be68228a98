import PriceOracle.AuthAcceptance
import PriceOracle.CovenantTransactions
import PriceOracle.Musig
import PriceOracle.Renewal
import PriceOracle.StormTreeProofs

/-!
# Spending the Storm Eye

`finalize` of `voting_execution.rs` and `renewal.rs`: the signatures of the Storm Eye inputs are checked, and each input
gets the witness of its program. The compiled covenants, their library and the jets are parameters.
-/

namespace PriceOracle

/-- A network with its compiled covenants. -/
structure CovenantNetwork (Sig E : Type) where
  policyAsset : Bytes32
  rules : AssetRules Sig E
  std : Std Bytes32
  header : TxHeader
  /-- The tap leaf of the Auth program, of the script hash of the rescue output. -/
  authLeaf : Bytes32 → Bytes32
  /-- The tap leaf of the Treasury program, of the Storm Eye asset. -/
  treasuryLeaf : Bytes32 → Bytes32

/-- What the program of an input is run with. -/
inductive ProgramWitness (Sig : Type) where
  | auth (path : AuthCovenant.Witness Bytes32 Sig)
  | treasury (stormEyeInputIndex : UInt32)

def AssetError.text : AssetError → String
  | .encoding => "failed to encode network assets"
  | .invalidRpcResponse what => "Elements RPC returned invalid " ++ what
  | .rescueHeight => "Storm Eye rescue height does not fit in the contract"
  | .invalidAnnouncement message => "announced network asset is invalid: " ++ message

namespace StormEyeSpends

/-- `MAX_SPLIT_UTXOS_COUNT` and `MAX_MERGE_UTXOS_COUNT` -/
def maxUtxosCount : UInt8 := 4

variable {Sig E : Type} (network : CovenantNetwork Sig E)

section Programs

def jets : Jets Bytes32 Sig := network.rules.jets

/-- The parameters of `storm_eye_program`. -/
def authParams (data : StormEyeContractData) : AuthCovenant.Params Bytes32 :=
  ⟨maxUtxosCount, maxUtxosCount, data.rescueOutputScriptHash⟩

/-- `rescue_block_slot` -/
def rescueBlockSlot (rescueHeight : ℕ) : List UInt8 := List.replicate 28 0 ++ Sha256.bigEndianBytes 4 rescueHeight

def contractData (stormEye : NetworkAsset Bytes32) : Except VotingExecutionError StormEyeContractData :=
  match stormEye.contractData with
  | none => .error (.invalid "Storm Eye contract data is missing")
  | some bytes => VotingReshape.decoded (StormEyeContractData.codec.fromBytes bytes)

def migratedStormEye (stormEye : NetworkAsset Bytes32) (newRoot : Bytes32) :
    Except VotingExecutionError (NetworkAsset Bytes32) := do
  let data ← contractData stormEye
  let migrated := { stormEye with
    contractData := some (StormEyeContractData.codec.encode { data with stormTreeRoot := newRoot }) }
  let script ← (Assets.stormEyeScript network.rules migrated).mapError fun error => .asset error.text
  return { migrated with contractScript := script }

def migratedStormEyeScript (stormEye : NetworkAsset Bytes32) (newRoot : Bytes32) :
    Except VotingExecutionError (List UInt8) := do
  let migrated ← migratedStormEye network stormEye newRoot
  return migrated.contractScript

/-- The digest of `SigMessage::Tagged`. -/
def taggedDigest (tag : String) (message : Bytes32) : Bytes32 :=
  let J := jets network
  let tagHash := J.bytes (J.sha256 tag.toUTF8.toList)
  J.sha256 (tagHash ++ tagHash ++ J.bytes message)

def stormEyeEnv (pset : Pset Bytes32) (data : StormEyeContractData) (index : ℕ) : Option (Env Bytes32) :=
  pset.env (jets network) network.header (network.authLeaf data.rescueOutputScriptHash) index

def treasuryEnv (pset : Pset Bytes32) (stormEye : NetworkAsset Bytes32) (index : ℕ) : Option (Env Bytes32) :=
  pset.env (jets network) network.header (network.treasuryLeaf stormEye.assetId) index

def signingHash (pset : Pset Bytes32) (data : StormEyeContractData) (index : ℕ) : Except VotingExecutionError Bytes32 :=
  match stormEyeEnv network pset data index with
  | none => .error .program
  | some env => .ok (taggedDigest network "OracleNetworkV1/StormEye" ((jets network).sigAllHash env))

def signingHashes (pset : Pset Bytes32) (stormEye : NetworkAsset Bytes32) (inputCount : ℕ) :
    Except VotingExecutionError (List Bytes32) := do
  let data ← (Assets.stormEyeContractData stormEye).mapError fun error => .asset error.text
  (List.range inputCount).mapM (signingHash network pset data)

def memberRoot (members : List Bytes32) : Except VotingExecutionError Bytes32 :=
  match StormTree.new network.rules.jets network.rules.keys members with
  | .error error => .error (.signing ("Storm Tree operation failed: " ++ network.rules.treeError error))
  | .ok tree => .ok (tree.root network.rules.jets)

/-- What the transactions of votes are built with. -/
def votingPrograms : VotingPrograms Bytes32 where
  policyAsset := network.policyAsset
  word := id
  treasuryKey := network.rules.treasuryKey
  stormTreeRoot stormEye := do
    let data ← contractData stormEye
    return data.stormTreeRoot
  migratedStormEyeScript := migratedStormEyeScript network
  memberRoot := memberRoot network
  signingHashes := signingHashes network

def renewalPrograms : RenewalPrograms Sig E where
  policyAsset := network.policyAsset
  rules := network.rules
  signingHashes := signingHashes network

end Programs

section Witnesses

abbrev PackedStormTreeProof := Vector (StormTreeCovenant.StormTreeProofStep Bytes32) 17

def packProof (proof : Smt.Proof Bytes32) : Except String PackedStormTreeProof :=
  if StormTreeWitness.witnessDepth < proof.siblings.length then .error "Storm Tree proof is too deep"
  else .ok (.ofFn fun index => StormTreeWitness.packStep proof.siblings[index.val]?)

/-- The path of the covenant for an operation, at the position of an input. -/
def reshapeKind (index : ℕ) : ReshapeOperation Bytes32 → AuthCovenant.AuthKind Bytes32
  | .split _ count => .inr (.inr (.inl (UInt8.ofNat count)))
  | .merge outpoints => .inr (.inr (.inr (UInt8.ofNat outpoints.length)))
  | .updateMembers _ newRoot => .inr (.inl (.inl (newRoot, UInt32.ofNat index)))

def reshapeWitness (data : StormEyeContractData) (signing : SigningResult Bytes32 Sig) (proof : Smt.Proof Bytes32)
    (operation : ReshapeOperation Bytes32) (signature : Sig) (index : ℕ) :
    Except VotingExecutionError (ProgramWitness Sig) := do
  let packed ← (packProof proof).mapError .transactionHelper
  return .auth (.inl ((data.stormTreeRoot, UInt32.ofNat data.rescueHeight),
    (signature, signing.signingStormTreeBranch, packed), reshapeKind index operation))

def renewalWitness (data : StormEyeContractData) (newRescueHeight index : ℕ) (signature : Sig) (branch : Bytes32)
    (packed : PackedStormTreeProof) : ProgramWitness Sig :=
  .auth (.inl ((data.stormTreeRoot, UInt32.ofNat data.rescueHeight), (signature, branch, packed),
    .inr (.inl (.inr (UInt32.ofNat newRescueHeight, UInt32.ofNat index)))))

/-- The inputs behind the Storm Eyes keep the witness they were built with. -/
def treasuryWitnesses (pset : Pset Bytes32) (stormEyeInputs : ℕ) : List (ProgramWitness Sig) :=
  List.replicate (pset.inputs.length - stormEyeInputs) (.treasury 0)

end Witnesses

section Voting

variable (prepared : PreparedVotingExecution Bytes32) (stormEye : NetworkAsset Bytes32) (signing : SigningResult Bytes32 Sig)
  (proof : Smt.Proof Bytes32)

def verifySignature (signed : Sig × Bytes32) : Except VotingExecutionError Unit :=
  require ((jets network).bip0340Verify (signing.signingStormTreeBranch, signed.2) signed.1 = true)
    (.invalid "Storm Eye signature verification failed")

def branchKey : Except VotingExecutionError Unit :=
  (network.rules.keys.fromByteArray signing.signingStormTreeBranch).mapError fun _ =>
    .invalid "invalid Storm Eye signing branch"

def verifiedSignatures : Except VotingExecutionError (List Sig) := do
  require (signing.signatures.length = prepared.request.signingHashes.length ∧
    signing.signatures.length = prepared.stormEyeInputs) (.invalid "incorrect number of Storm Eye signatures")
  branchKey network signing
  (signing.signatures.zip prepared.request.signingHashes).forM (verifySignature network signing)
  let data ← contractData stormEye
  require (StormTree.verifyBranch (jets network) data.stormTreeRoot signing.signingStormTreeBranch proof = true)
    (.invalid "signing branch is not included in the Storm Eye root")
  return signing.signatures

/-- The witnesses that `VotingExecution::finalize` attaches. -/
def finalizeVote : Except VotingExecutionError (List (ProgramWitness Sig)) := do
  let signatures ← verifiedSignatures network prepared stormEye signing proof
  let data ← contractData stormEye
  let witnesses ← signatures.zipIdx.mapM fun item =>
    reshapeWitness data signing proof prepared.operation item.1 item.2
  let hashes ← signingHashes network prepared.pset stormEye prepared.stormEyeInputs
  require (hashes = prepared.request.signingHashes) (.invalid "final voting execution signing hash changed")
  return witnesses ++ treasuryWitnesses prepared.pset prepared.stormEyeInputs

end Voting

section Renewals

variable (prepared : PreparedRenewal) (signing : SigningResult Bytes32 Sig) (proof : Smt.Proof Bytes32)

def renewalSignature (data : StormEyeContractData) (signed : (Sig × Bytes32) × ℕ) :
    Except RenewalError (ProgramWitness Sig) := do
  require ((jets network).bip0340Verify (signing.signingStormTreeBranch, signed.1.2) signed.1.1 = true)
    (.invalid "Storm Eye signature verification failed")
  let packed ← (packProof proof).mapError .transactionHelper
  return renewalWitness data prepared.request.newRescueHeight signed.2 signed.1.1 signing.signingStormTreeBranch packed

/-- The witnesses that `Renewal::finalize` attaches. -/
def finalizeRenewal : Except RenewalError (List (ProgramWitness Sig)) := do
  require (signing.signatures.length = prepared.stormEyeInputs ∧
    signing.signatures.length = prepared.request.signingHashes.length)
    (.invalid "renewal requires one signature per Storm Eye input")
  let data ← (Assets.stormEyeContractData prepared.oldStormEye).mapError .asset
  require (StormTree.verifyBranch (jets network) data.stormTreeRoot signing.signingStormTreeBranch proof = true)
    (.invalid "signing branch is not included in the Storm Eye root")
  (network.rules.keys.fromByteArray signing.signingStormTreeBranch).mapError fun _ =>
    .invalid "invalid Storm Eye signing branch"
  let witnesses ← (signing.signatures.zip prepared.request.signingHashes).zipIdx.mapM
    (renewalSignature network prepared signing proof data)
  let hashes ← (signingHashes network prepared.pset prepared.oldStormEye prepared.stormEyeInputs).mapError .votingTransaction
  require (hashes = prepared.request.signingHashes) (.invalid "final renewal signing hashes changed")
  return witnesses ++ treasuryWitnesses prepared.pset prepared.stormEyeInputs

end Renewals

end StormEyeSpends

end PriceOracle
