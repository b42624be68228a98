import PriceOracle.Postcard
import PriceOracle.MapKeys

/-!
# Voting messages

`message.rs`: the node messages that carry votes, as they are written to the wire, and
the ways in which a proposal is read back.
-/

namespace PriceOracle

abbrev Bytes := List UInt8

abbrev Bytes32 := Vector UInt8 32

inductive NodeMessageKind where
  | executeUserRequests
  | exchangeRewards
  | signingNonces
  | partialSignatures
  | burnExpiredUtxos
  | expiredUtxosBurned
  | networkVoteRequest
  | approveVotingRequest
  | askAboutVotings
  | executeVotingRequest
  | attestPrice
  | networkAssets
  | renewStormUtxos
  | protocolSettings
  deriving DecidableEq

namespace NodeMessageKind

def id : NodeMessageKind → ℕ
  | executeUserRequests => 0
  | exchangeRewards => 1
  | signingNonces => 2
  | partialSignatures => 3
  | burnExpiredUtxos => 4
  | expiredUtxosBurned => 5
  | networkVoteRequest => 6
  | approveVotingRequest => 7
  | askAboutVotings => 8
  | executeVotingRequest => 9
  | attestPrice => 10
  | networkAssets => 11
  | renewStormUtxos => 12
  | protocolSettings => 13

def fromId : ℕ → Option NodeMessageKind
  | 0 => some executeUserRequests
  | 1 => some exchangeRewards
  | 2 => some signingNonces
  | 3 => some partialSignatures
  | 4 => some burnExpiredUtxos
  | 5 => some expiredUtxosBurned
  | 6 => some networkVoteRequest
  | 7 => some approveVotingRequest
  | 8 => some askAboutVotings
  | 9 => some executeVotingRequest
  | 10 => some attestPrice
  | 11 => some networkAssets
  | 12 => some renewStormUtxos
  | 13 => some protocolSettings
  | _ => none

end NodeMessageKind

inductive NetworkVoteKind where
  | updateNetworkMembers
  | mergeStormEyes
  | splitStormEye
  deriving DecidableEq

namespace NetworkVoteKind

def id : NetworkVoteKind → ℕ
  | updateNetworkMembers => 0
  | mergeStormEyes => 1
  | splitStormEye => 2

def fromId : ℕ → Option NetworkVoteKind
  | 0 => some updateNetworkMembers
  | 1 => some mergeStormEyes
  | 2 => some splitStormEye
  | _ => none

end NetworkVoteKind

structure NetworkVoteRequest where
  kind : ℕ
  payload : Bytes
  deriving DecidableEq

def NetworkVoteRequest.codec : Codec NetworkVoteRequest :=
  Codec.struct (Codec.u16.pair Codec.bytes) (fun r => (r.kind, r.payload)) (fun p => ⟨p.1, p.2⟩) fun _ => rfl

structure VotingProposal where
  request : NetworkVoteRequest
  createdAtBlockHeight : ℕ

def VotingProposal.codec : Codec VotingProposal :=
  Codec.struct (NetworkVoteRequest.codec.pair Codec.u64) (fun p => (p.request, p.createdAtBlockHeight))
    (fun p => ⟨p.1, p.2⟩) fun _ => rfl

structure SignedVotingProposal where
  request : NetworkVoteRequest
  createdAtBlockHeight : ℕ
  proposerPublicKey : Bytes32
  signature : Bytes

def SignedVotingProposal.codec : Codec SignedVotingProposal :=
  Codec.struct (NetworkVoteRequest.codec.pair (Codec.u64.pair ((Codec.array 32).pair Codec.bytes)))
    (fun p => (p.request, p.createdAtBlockHeight, p.proposerPublicKey, p.signature))
    (fun p => ⟨p.1, p.2.1, p.2.2.1, p.2.2.2⟩) fun _ => rfl

structure UpdateNetworkMembers where
  toAccept : List Bytes32
  toRemove : List Bytes32
  deriving DecidableEq

def UpdateNetworkMembers.codec : Codec UpdateNetworkMembers :=
  Codec.struct ((Codec.array 32).vec.pair (Codec.array 32).vec) (fun u => (u.toAccept, u.toRemove))
    (fun p => ⟨p.1, p.2⟩) fun _ => rfl

structure StormEyeUtxo where
  txid : Bytes32
  outputIndex : ℕ
  deriving DecidableEq

def StormEyeUtxo.codec : Codec StormEyeUtxo :=
  Codec.struct ((Codec.array 32).pair Codec.u32) (fun u => (u.txid, u.outputIndex)) (fun p => ⟨p.1, p.2⟩) fun _ => rfl

structure MergeStormEyes where
  utxosToMerge : List StormEyeUtxo
  deriving DecidableEq

def MergeStormEyes.codec : Codec MergeStormEyes :=
  Codec.struct StormEyeUtxo.codec.vec MergeStormEyes.utxosToMerge MergeStormEyes.mk fun _ => rfl

structure SplitStormEye where
  utxoToSplit : StormEyeUtxo
  numberOfSplits : ℕ
  deriving DecidableEq

def SplitStormEye.codec : Codec SplitStormEye :=
  Codec.struct (StormEyeUtxo.codec.pair Codec.u64) (fun s => (s.utxoToSplit, s.numberOfSplits))
    (fun p => ⟨p.1, p.2⟩) fun _ => rfl

structure ApproveVotingRequest where
  publicKey : Bytes32
  signature : Bytes

def ApproveVotingRequest.codec : Codec ApproveVotingRequest :=
  Codec.struct ((Codec.array 32).pair Codec.bytes) (fun a => (a.publicKey, a.signature)) (fun p => ⟨p.1, p.2⟩)
    fun _ => rfl

structure NodeMessage where
  kind : ℕ
  linkedTo : Option Bytes32
  payload : Bytes
  deriving DecidableEq

def NodeMessage.codec : Codec NodeMessage :=
  Codec.struct (Codec.u16.pair ((Codec.array 32).option.pair Codec.bytes)) (fun m => (m.kind, m.linkedTo, m.payload))
    (fun p => ⟨p.1, p.2.1, p.2.2⟩) fun _ => rfl

/-- What a vote asks for. -/
inductive VotingInstruction where
  | updateNetworkMembers (update : UpdateNetworkMembers)
  | mergeStormEyes (merge : MergeStormEyes)
  | splitStormEye (split : SplitStormEye)
  deriving DecidableEq

namespace NetworkVoteRequest

def new {A : Type} (c : Codec A) (kind : NetworkVoteKind) (payload : A) : NetworkVoteRequest :=
  ⟨kind.id, c.encode payload⟩

def canonicalHash (digest : Bytes → Bytes32) (request : NetworkVoteRequest) : Bytes32 :=
  digest (codec.encode request)

/-- The instruction that the request is executed as. -/
def instruction (request : NetworkVoteRequest) : Option VotingInstruction :=
  match NetworkVoteKind.fromId request.kind with
  | some .updateNetworkMembers => (UpdateNetworkMembers.codec.fromBytes request.payload).map .updateNetworkMembers
  | some .mergeStormEyes => (MergeStormEyes.codec.fromBytes request.payload).map .mergeStormEyes
  | some .splitStormEye => (SplitStormEye.codec.fromBytes request.payload).map .splitStormEye
  | none => none

end NetworkVoteRequest

/-- The request that a node makes for an instruction. -/
def VotingInstruction.request : VotingInstruction → NetworkVoteRequest
  | updateNetworkMembers update => NetworkVoteRequest.new UpdateNetworkMembers.codec .updateNetworkMembers update
  | mergeStormEyes merge => NetworkVoteRequest.new MergeStormEyes.codec .mergeStormEyes merge
  | splitStormEye split => NetworkVoteRequest.new SplitStormEye.codec .splitStormEye split

namespace NodeMessage

def new {A : Type} (c : Codec A) (kind : NodeMessageKind) (linkedTo : Option Bytes32) (payload : A) : NodeMessage :=
  ⟨kind.id, linkedTo, c.encode payload⟩

variable (message : NodeMessage)

def decodedKind : Option NodeMessageKind := NodeMessageKind.fromId message.kind

def decodePayload {A : Type} (c : Codec A) : Option A := c.fromBytes message.payload

def hash (digest : Bytes → Bytes32) : Bytes32 := digest (codec.encode message)

def newVotingRequest (request : NetworkVoteRequest) (blockHeight : ℕ) : NodeMessage :=
  new VotingProposal.codec .networkVoteRequest none ⟨request, blockHeight⟩

/-- A signed proposal, one without signature, or the request alone. -/
def decodeVotingProposal : Option (NetworkVoteRequest × Option ℕ) :=
  match message.decodePayload SignedVotingProposal.codec with
  | some proposal => some (proposal.request, some proposal.createdAtBlockHeight)
  | none =>
    match message.decodePayload VotingProposal.codec with
    | some proposal => some (proposal.request, some proposal.createdAtBlockHeight)
    | none => (message.decodePayload NetworkVoteRequest.codec).map fun request => (request, none)

def decodeVotingRequest : Option NetworkVoteRequest := message.decodeVotingProposal.map Prod.fst

end NodeMessage

end PriceOracle
