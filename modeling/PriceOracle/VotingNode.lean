import PriceOracle.Runs
import PriceOracle.Voting

/-!
# Runs of the voting handlers

The voting tables under all that changes them: proposals and approvals from the operator, from
peers and from synchronisation, executions, expiry, and member migrations. A migration is
applied to the tables first and then to the peers; when the second half fails it is tried
again later.
-/

namespace PriceOracle

structure VotingNode where
  store : Voting.Store
  peers : List Bytes32
  /-- The members that the tables have already and the node has not. -/
  pending : Option (List Bytes32)
  /-- How many memberships have been replaced. -/
  epoch : ℕ

inductive VotingNodeAction where
  | create (request : NetworkVoteRequest) (signature : Bytes) (blockHeight : ℕ)
  | handleRequest (message : NodeMessage) (sender : Bytes32) (blockHeight : ℕ)
  | acceptSynchronizedRequest (messageHash : Bytes32) (bytes : Bytes) (sender : Bytes32) (blockHeight : ℕ)
  | approve (requestHash : Bytes32) (signature : Bytes) (blockHeight : ℕ)
  | handleApproval (message : NodeMessage) (blockHeight : ℕ)
  | acceptSynchronizedApproval (messageHash : Bytes32) (bytes : Bytes) (blockHeight : ℕ)
  | removeExpired (blockHeight : ℕ)
  | execution (action : VotingAction Bytes32 Bytes)
  /-- `finished` says whether the peers could be activated as well. -/
  | activateMemberMigration (requestHash txid : Bytes32) (peers : List Bytes32) (finished : Bool)
  | finishMemberMigration

namespace VotingNode

variable (C : VotingCrypto) (V : Voting) (node : VotingNode)

def new (peers : List Bytes32) : VotingNode := ⟨VotingStore.empty, peers, none, 0⟩

def withStore (store : Voting.Store) : VotingNode := { node with store := store }

/-- The statements of an execution. -/
def isExecution : VotingAction Bytes32 Bytes → Bool
  | .insertRequest _ _ _ _ | .insertApproval _ _ _ _ _ | .deleteExpired _ _ | .applyMemberMigration _ _ => false
  | _ => true

def activateMemberMigration (requestHash txid : Bytes32) (peers : List Bytes32) (finished : Bool) : VotingNode :=
  if peers.Nodup then
    match (VotingStore.applyMemberMigration requestHash txid).atomic.exec node.store with
    | (.ok _, store) =>
      if finished then ⟨store, peers, none, node.epoch + 1⟩ else ⟨store, node.peers, some peers, node.epoch + 1⟩
    | (.error _, _) => node
  else node

def finishMemberMigration : VotingNode :=
  match node.pending with
  | some peers => { node with peers := peers, pending := none }
  | none => node

def step : VotingNodeAction → VotingNode
  | .create request signature blockHeight =>
    node.withStore ((Voting.create C V node.peers request signature blockHeight).exec node.store).2
  | .handleRequest message sender blockHeight =>
    node.withStore ((Voting.handleRequest C V node.peers message sender blockHeight).exec node.store).2
  | .acceptSynchronizedRequest messageHash bytes sender blockHeight =>
    node.withStore ((Voting.acceptSynchronizedRequest C V node.peers messageHash bytes sender blockHeight).exec
      node.store).2
  | .approve requestHash signature blockHeight =>
    node.withStore ((Voting.approve C V node.peers requestHash signature blockHeight).exec node.store).2
  | .handleApproval message blockHeight =>
    node.withStore ((Voting.handleApproval C node.peers message blockHeight).exec node.store).2
  | .acceptSynchronizedApproval messageHash bytes blockHeight =>
    node.withStore ((Voting.acceptSynchronizedApproval C node.peers messageHash bytes blockHeight).exec node.store).2
  | .removeExpired blockHeight =>
    node.withStore (node.store.step (.deleteExpired blockHeight Voting.votingTimeoutBlocks))
  | .execution action => if isExecution action then node.withStore (node.store.step action) else node
  | .activateMemberMigration requestHash txid peers finished =>
    node.activateMemberMigration requestHash txid peers finished
  | .finishMemberMigration => node.finishMemberMigration

def run (actions : List VotingNodeAction) : VotingNode := actions.foldl (fun node action => node.step C V action) node

section Example

/-- Any key is one, any signature holds, and the digest of a message is a checksum. -/
def plainCrypto : VotingCrypto where
  digest bytes := Vector.replicate 32 (bytes.foldl (fun sum byte => sum + byte) 0)
  isXOnlyPublicKey _ := true
  verify _ _ _ := true
  publicKeyError := "malformed public key"
  signatureError := "malformed signature"

def key (n : UInt8) : Bytes32 := Vector.replicate 32 n

def firstNode : Voting := ⟨key 1, key 1⟩

end Example

end VotingNode

end PriceOracle
