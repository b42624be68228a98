import Mathlib.Data.List.Dedup
import Mathlib.Data.List.Sort
import PriceOracle.StormTreeQuorum
import PriceOracle.VotingMessages
import PriceOracle.VotingStore

/-!
# Voting

`voting.rs`: how proposals and approvals enter the voting tables, each handler under the
lock of the voting operations. Peers are known by their x-only keys; hashes, keys and
signatures are those of the given cryptography.
-/

namespace PriceOracle

open Db

structure VotingCrypto where
  digest : Bytes → Bytes32
  isXOnlyPublicKey : Bytes32 → Bool
  /-- `schnorr::verify` of a signature of 64 bytes over a hash by a key. -/
  verify : Bytes → Bytes32 → Bytes32 → Bool
  publicKeyError : String
  signatureError : String

inductive VotingError where
  | invalidRequest (reason : String)
  | invalidApproval (reason : String)
  | unknownRequest (requestHash : String)
  | duplicateRequest (requestHash : String)
  | duplicateApproval (publicKey : String)
  | store (error : VotingStoreError)
  | encoding

/-- The node's own key and that of the coordinator. -/
structure Voting where
  publicKey : Bytes32
  coordinator : Bytes32

namespace Voting

def votingTimeoutBlocks : ℕ := 10080

def maxActiveVotingsPerProposer : ℕ := 50

def maxProposalFutureBlocks : ℕ := 1

def saturatingAdd (a b : ℕ) : ℕ := min (a + b) (2 ^ 64 - 1)

def hexEncode (bytes : Bytes32) : String :=
  String.ofList (bytes.toList.flatMap fun byte => [(byte.toNat / 16).digitChar, (byte.toNat % 16).digitChar])

/-- A `BTreeSet` of keys. -/
def keySet (keys : List Bytes32) : List Bytes32 := (keys.insertionSort fun a b => a.toList ≤ b.toList).dedup

def decoded {A : Type} : Option A → Except VotingError A
  | some a => .ok a
  | none => .error .encoding

section Checks

variable (C : VotingCrypto)

def checkedUniqueKeys (keys : List Bytes32) (label : String) : Except VotingError (List Bytes32) :=
  if keys.any fun key => !C.isXOnlyPublicKey key then throw (.invalidRequest C.publicKeyError)
  else if (keySet keys).length ≠ keys.length then
    throw (.invalidRequest s!"{label} member keys must be unique")
  else pure (keySet keys)

def validateRequestStructure (request : NetworkVoteRequest) : Except VotingError Unit :=
  match NetworkVoteKind.fromId request.kind with
  | some .updateNetworkMembers => do
    let update ← decoded (UpdateNetworkMembers.codec.fromBytes request.payload)
    let accepted ← checkedUniqueKeys C update.toAccept "accepted"
    let removed ← checkedUniqueKeys C update.toRemove "removed"
    if accepted = [] ∧ removed = [] then throw (.invalidRequest "member update does not change the network")
    else
      match (accepted.filter fun key => decide (key ∈ removed)).head? with
      | some key =>
        let member := hexEncode key
        throw (.invalidRequest s!"member key {member} cannot be both accepted and removed")
      | none => pure ⟨⟩
  | some .mergeStormEyes => do
    let merge ← decoded (MergeStormEyes.codec.fromBytes request.payload)
    if merge.utxosToMerge.length < 2 then
      throw (.invalidRequest "at least two Storm Eye UTXOs are required for a merge")
    else if 3 < merge.utxosToMerge.length then
      throw (.invalidRequest "at most three Storm Eye UTXOs can be merged")
    else if merge.utxosToMerge.dedup.length ≠ merge.utxosToMerge.length then
      throw (.invalidRequest "a Storm Eye UTXO cannot appear twice in a merge")
    else pure ⟨⟩
  | some .splitStormEye => do
    let split ← decoded (SplitStormEye.codec.fromBytes request.payload)
    if split.numberOfSplits < 2 then
      throw (.invalidRequest "a Storm Eye must be split into at least two outputs")
    else if 3 < split.numberOfSplits then
      throw (.invalidRequest "a Storm Eye can be split into at most three outputs")
    else pure ⟨⟩
  | none =>
    let kind := request.kind
    throw (.invalidRequest s!"unknown voting kind {kind}")

def validateRequest (peers : List Bytes32) (coordinator : Bytes32) (request : NetworkVoteRequest) :
    Except VotingError Unit := do
  validateRequestStructure C request
  if NetworkVoteKind.fromId request.kind ≠ some .updateNetworkMembers then pure ⟨⟩
  else do
    let update ← decoded (UpdateNetworkMembers.codec.fromBytes request.payload)
    let current := keySet peers
    let accepted := keySet update.toAccept
    let removed := keySet update.toRemove
    match (accepted.filter fun key => decide (key ∈ current)).head? with
    | some key =>
      let member := hexEncode key
      throw (.invalidRequest s!"accepted key {member} is already a member")
    | none =>
      match (removed.filter fun key => decide (key ∉ current)).head? with
      | some key =>
        let member := hexEncode key
        throw (.invalidRequest s!"removed key {member} is not a member")
      | none =>
        if coordinator ∈ removed then
          throw (.invalidRequest "member update cannot remove the coordinator without a replacement protocol")
        else if current.length + accepted.length - removed.length < 3 then
          throw (.invalidRequest "member update must leave at least three members")
        else pure ⟨⟩

/-- The update has been carried out already. -/
def alreadyApplied (peers : List Bytes32) (coordinator : Bytes32) (update : UpdateNetworkMembers) : Bool :=
  update.toAccept.all (fun key => decide (key ∈ peers)) &&
    update.toRemove.all (fun key => decide (key ∉ peers)) && decide (coordinator ∉ update.toRemove)

def validateSynchronizedRequest (peers : List Bytes32) (coordinator : Bytes32) (request : NetworkVoteRequest) :
    Except VotingError Unit := do
  validateRequestStructure C request
  if NetworkVoteKind.fromId request.kind = some .updateNetworkMembers then do
    let update ← decoded (UpdateNetworkMembers.codec.fromBytes request.payload)
    if alreadyApplied peers coordinator update then pure ⟨⟩ else validateRequest C peers coordinator request
  else validateRequest C peers coordinator request

def validateProposalHeight (createdAtBlockHeight : Option ℕ) (observedBlockHeight : ℕ) : Except VotingError Unit :=
  match createdAtBlockHeight with
  | none => pure ⟨⟩
  | some createdAt =>
    if saturatingAdd observedBlockHeight maxProposalFutureBlocks < createdAt then
      throw (.invalidRequest "voting proposal was created too far in the future")
    else if saturatingAdd createdAt votingTimeoutBlocks ≤ observedBlockHeight then
      throw (.invalidRequest "voting proposal has expired")
    else pure ⟨⟩

/-- The proposer that has signed the message. -/
def verifiedProposer (message : NodeMessage) : Except VotingError (Option Bytes32) :=
  match message.decodePayload SignedVotingProposal.codec with
  | none => pure none
  | some proposal =>
    if !C.isXOnlyPublicKey proposal.proposerPublicKey then throw (.invalidRequest C.publicKeyError)
    else if proposal.signature.length ≠ 64 then
      let length := proposal.signature.length
      throw (.invalidRequest s!"proposer signature has {length} bytes instead of 64")
    else
      let unsigned := NodeMessage.newVotingRequest proposal.request proposal.createdAtBlockHeight
      if C.verify proposal.signature (unsigned.hash C.digest) proposal.proposerPublicKey then
        pure (some proposal.proposerPublicKey)
      else throw (.invalidRequest C.signatureError)

def ensureCurrentMember (peers : List Bytes32) (publicKey : Bytes32) (role : String) : Except VotingError Unit :=
  if publicKey ∈ peers then pure ⟨⟩
  else
    let member := hexEncode publicKey
    throw (.invalidRequest s!"{role} {member} is not a network member")

end Checks

abbrev Store := VotingStore Bytes32 Bytes

/-- The request in a stored message. -/
def storedRequest (message : Bytes) : Option NetworkVoteRequest :=
  (NodeMessage.codec.fromBytes message).bind NodeMessage.decodeVotingRequest

def activeRequestCountForProposer (store : Store) (proposer : Option Bytes32) : ℕ :=
  store.requests.entries.countP fun row =>
    !row.2.executionConfirmed && decide (row.2.proposerPublicKey = proposer)

section Handlers

variable (C : VotingCrypto) (V : Voting)

/-- One turn of the loop over the unconfirmed requests. -/
def ensureOther (canonicalHash : Bytes32) (blockHeight : ℕ) (row : StoredVotingRequest Bytes32 Bytes) :
    Except VotingError Unit :=
  if saturatingAdd (row.approvedAtBlockHeight.getD row.blockHeight) votingTimeoutBlocks ≤ blockHeight then pure ⟨⟩
  else
    match storedRequest row.message with
    | none => throw .encoding
    | some request =>
      if request.canonicalHash C.digest = canonicalHash then throw (.duplicateRequest (hexEncode canonicalHash))
      else pure ⟨⟩

def ensureUniqueActiveRequest (request : NetworkVoteRequest) (proposer : Option Bytes32) (blockHeight : ℕ) :
    Db Store VotingError Unit := do
  let _ ← statement VotingError.store (VotingStore.deleteExpired blockHeight votingTimeoutBlocks)
  let store ← get
  check (((store.requests.entries.map Sigma.snd).filter fun row => !row.executionConfirmed).forM
    (ensureOther C (request.canonicalHash C.digest) blockHeight))
  if maxActiveVotingsPerProposer ≤ activeRequestCountForProposer store proposer then
    let requester := proposer.elim "legacy unattributed bucket" hexEncode
    throw (.invalidRequest s!"requester {requester} already has 50 active voting requests")
  else pure ⟨⟩

/-- The signature is that of the node over the proposal. -/
def create (peers : List Bytes32) (request : NetworkVoteRequest) (signature : Bytes) (blockHeight : ℕ) :
    Db Store VotingError Bytes32 := do
  check (validateRequest C peers V.coordinator request)
  if V.publicKey ∉ peers then throw (.invalidRequest "local network member is missing")
  else do
    ensureUniqueActiveRequest C request (some V.publicKey) blockHeight
    let message := NodeMessage.new SignedVotingProposal.codec .networkVoteRequest none
      ⟨request, blockHeight, V.publicKey, signature⟩
    let inserted ← statement VotingError.store (VotingStore.insertRequest (message.hash C.digest)
      (NodeMessage.codec.encode message) V.publicKey blockHeight)
    if inserted then pure (message.hash C.digest)
    else throw (.duplicateRequest (hexEncode (message.hash C.digest)))

/-- What a proposal has to be, from which peer it may come, and who has signed it. -/
def checkProposal (peers : List Bytes32) (message : NodeMessage) (sender : Bytes32) (blockHeight : ℕ) :
    Except VotingError NetworkVoteRequest :=
  if message.linkedTo.isSome then throw (.invalidRequest "a voting request cannot link to another message")
  else do
    let (request, createdAtBlockHeight) ← decoded message.decodeVotingProposal
    validateProposalHeight createdAtBlockHeight blockHeight
    validateRequest C peers V.coordinator request
    ensureCurrentMember peers sender "voting request proposer"
    let proposer ← verifiedProposer C message
    if proposer.any fun origin => decide (origin ≠ sender) then
      throw (.invalidRequest "voting request proposer does not match its sender")
    else pure request

def handleRequest (peers : List Bytes32) (message : NodeMessage) (sender : Bytes32) (blockHeight : ℕ) :
    Db Store VotingError Unit := do
  let request ← check (checkProposal C V peers message sender blockHeight)
  ensureUniqueActiveRequest C request (some sender) blockHeight
  let _ ← statement VotingError.store (VotingStore.insertRequest (message.hash C.digest)
    (NodeMessage.codec.encode message) sender blockHeight)

/-- What a synchronised proposal has to be; one that has expired is skipped. -/
def checkSynchronized (peers : List Bytes32) (message : NodeMessage) (sender : Bytes32) (blockHeight : ℕ) :
    Except VotingError (Option (NetworkVoteRequest × Option Bytes32)) := do
  ensureCurrentMember peers sender "voting synchronization sender"
  let (request, createdAtBlockHeight) ← decoded message.decodeVotingProposal
  if createdAtBlockHeight.any fun createdAt =>
      decide (saturatingAdd createdAt votingTimeoutBlocks ≤ blockHeight) then pure none
  else do
    validateProposalHeight createdAtBlockHeight blockHeight
    validateSynchronizedRequest C peers V.coordinator request
    let proposer ← verifiedProposer C message
    match proposer with
    | some origin => ensureCurrentMember peers origin "voting request proposer"
    | none => pure ⟨⟩
    pure (some (request, proposer))

def decodeSynchronized (messageHash : Bytes32) (bytes : Bytes) : Except VotingError NodeMessage := do
  let message ← decoded (NodeMessage.codec.fromBytes bytes)
  if message.decodedKind ≠ some .networkVoteRequest ∨ message.linkedTo.isSome ∨
      message.hash C.digest ≠ messageHash then
    throw (.invalidRequest "synchronized voting request metadata does not match its message")
  else pure message

/-- The record of a peer's response, under the lock; its approvals follow one by one. -/
def acceptSynchronizedRequest (peers : List Bytes32) (messageHash : Bytes32) (bytes : Bytes) (sender : Bytes32)
    (blockHeight : ℕ) : Db Store VotingError Unit := do
  let message ← check (decodeSynchronized C messageHash bytes)
  let store ← get
  match store.requests.lookup messageHash with
  | some _ => pure ⟨⟩
  | none => do
    let checked ← check (checkSynchronized C V peers message sender blockHeight)
    match checked with
    | none => pure ⟨⟩
    | some (request, proposer) => do
      let _ ← statement VotingError.store (VotingStore.deleteExpired blockHeight votingTimeoutBlocks)
      let store ← get
      if maxActiveVotingsPerProposer ≤ activeRequestCountForProposer store proposer then pure ⟨⟩
      else do
        ensureUniqueActiveRequest C request proposer blockHeight
        let _ ← statement VotingError.store
          (VotingStore.insertSynchronizedRequest messageHash bytes proposer blockHeight)

/-- The checks of an approval on its own. -/
def checkApproval (peers : List Bytes32) (approval : ApproveVotingRequest) (requestHash : Bytes32) :
    Except VotingError Unit :=
  if !C.isXOnlyPublicKey approval.publicKey then throw (.invalidApproval C.publicKeyError)
  else if approval.publicKey ∉ peers then
    let member := hexEncode approval.publicKey
    throw (.invalidApproval s!"{member} is not a network member")
  else if approval.signature.length ≠ 64 then
    let length := approval.signature.length
    throw (.invalidApproval s!"signature has {length} bytes instead of 64")
  else if C.verify approval.signature requestHash approval.publicKey then pure ⟨⟩
  else throw (.invalidApproval C.signatureError)

def acceptApproval (peers : List Bytes32) (message : NodeMessage) (approval : ApproveVotingRequest)
    (requestHash : Bytes32) (blockHeight : ℕ) : Db Store VotingError Unit := do
  check (checkApproval C peers approval requestHash)
  let store ← get
  if requestHash ∉ store.requests then throw (.unknownRequest (hexEncode requestHash))
  else do
    let inserted ← statement VotingError.store (VotingStore.insertApproval requestHash approval.publicKey
      (NodeMessage.codec.encode message) blockHeight (requiredApprovals peers.length))
    if inserted then pure ⟨⟩ else throw (.duplicateApproval (hexEncode approval.publicKey))

/-- The node's own approval, signed over the hash of the request. -/
def approve (peers : List Bytes32) (requestHash : Bytes32) (signature : Bytes) (blockHeight : ℕ) :
    Db Store VotingError Unit :=
  let approval : ApproveVotingRequest := ⟨V.publicKey, signature⟩
  acceptApproval C peers (NodeMessage.new ApproveVotingRequest.codec .approveVotingRequest (some requestHash) approval)
    approval requestHash blockHeight

def handleApproval (peers : List Bytes32) (message : NodeMessage) (blockHeight : ℕ) : Db Store VotingError Unit :=
  match message.linkedTo with
  | none => throw (.invalidApproval "approval does not link to a voting request")
  | some requestHash => do
    let approval ← check (decoded (message.decodePayload ApproveVotingRequest.codec))
    acceptApproval C peers message approval requestHash blockHeight

/-- An approval in the record of a peer's response. -/
def acceptSynchronizedApproval (peers : List Bytes32) (messageHash : Bytes32) (bytes : Bytes) (blockHeight : ℕ) :
    Db Store VotingError Unit := do
  let message ← check (decoded (NodeMessage.codec.fromBytes bytes))
  if message.decodedKind ≠ some .approveVotingRequest ∨ message.linkedTo ≠ some messageHash then
    throw (.invalidApproval "synchronized approval does not match its voting request")
  else do
    let approval ← check (decoded (message.decodePayload ApproveVotingRequest.codec))
    acceptApproval C peers message approval messageHash blockHeight

end Handlers

end Voting

end PriceOracle
