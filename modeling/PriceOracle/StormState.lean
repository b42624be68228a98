import Mathlib.Data.Finset.Dedup
import Mathlib.Data.List.Destutter
import PriceOracle.Database
import PriceOracle.Sha256
import PriceOracle.Table

/-!
# The state of a Storm node

`storm/src/state.rs`, with the peers of `peer.rs` and the messages of `message.rs`. A
compressed public key is the parity of a point and its x coordinate, of type `X`; the
fingerprints of messages are of type `D`. A channel to the task of a connection is a number.
-/

namespace PriceOracle

namespace Storm

def messageClockSkew : ℕ := 5 * 60
def replayCacheCapacity : ℕ := 256
def controlMessageRateWindow : ℕ := 10
def controlMessageRateCapacity : ℕ := 64
def maxProvisionalConnections : ℕ := 16

structure PublicKey (X : Type) where
  odd : Bool
  x : X
  deriving DecidableEq

/-- The order of the 33 bytes of two keys. -/
def PublicKey.le {X : Type} [LinearOrder X] (a b : PublicKey X) : Bool :=
  decide (a.odd < b.odd) || (decide (a.odd = b.odd) && decide (a.x ≤ b.x))

structure MessageHeader where
  payloadId : ℕ
  timestamp : ℕ
  protocolVersion : ℕ
  deriving DecidableEq

structure Message where
  header : MessageHeader
  payload : List UInt8
  deriving DecidableEq

/-- An IP socket address, or a hostname and port. -/
inductive Endpoint where
  | socket (address : String)
  | hostname (address : String)
  deriving DecidableEq

inductive PeerStatus where
  | controlled
  | active
  | inactive
  | banned
  deriving DecidableEq

structure Peer (X : Type) where
  compressedPublicKey : PublicKey X
  socketAddress : Option Endpoint
  lastSeen : Option ℕ
  status : PeerStatus
  discovery : Bool
  deriving DecidableEq

inductive Error where
  | messageTimestampOutsideWindow
  | replayedMessage
  | messageRateLimit
  | unauthorizedConnection
  | peerAlreadyConnected
  | provisionalConnectionLimit
  | discoveryPeerIsLocal
  | discoveryPeerAddressMissing
  | migrationAlreadyStaged
  | migrationNotStaged
  | migrationNotReady
  | invalidMigrationPeerTable
  deriving DecidableEq

structure RecentMessage (D : Type) where
  fingerprint : D
  receivedAt : ℕ
  deriving DecidableEq

end Storm

structure StormState (X D : Type) where
  initializerPublicKey : Storm.PublicKey X
  peers : List (Storm.Peer X)
  addressOverrides : Table (Storm.PublicKey X) Storm.Endpoint
  connections : Table (Storm.PublicKey X) ℕ
  discoveryTableReceived : Bool
  peerTableAuthority : Option (Storm.PublicKey X)
  migrationMembers : Option (Finset X)
  migrationPeers : List (Storm.Peer X)
  recentMessages : Table (Storm.PublicKey X) (List (Storm.RecentMessage D))
  recentControlMessages : Table (Storm.PublicKey X) (List ℕ)

namespace Storm

variable {X D : Type}

namespace Peer

def new (compressedPublicKey : PublicKey X) : Peer X := ⟨compressedPublicKey, none, none, .inactive, false⟩

def xOnly (peer : Peer X) : X := peer.compressedPublicKey.x

def updateObservedAddress (address : String) (peer : Peer X) : Peer X :=
  match peer.socketAddress with
  | some (.hostname _) => peer
  | _ => { peer with socketAddress := some (.socket address) }

/-- A peer whose connection is claimed. -/
def activate (address : Option String) (peer : Peer X) : Peer X :=
  match address with
  | some address => ({ peer with status := .active }).updateObservedAddress address
  | none => { peer with status := .active }

def deactivate (peer : Peer X) : Peer X :=
  if peer.status = .active then { peer with status := .inactive } else peer

end Peer

variable [DecidableEq X]

/-- The first peer under a key, changed. -/
def updatePeer (key : PublicKey X) (change : Peer X → Peer X) : List (Peer X) → List (Peer X)
  | [] => []
  | peer :: peers =>
    if peer.compressedPublicKey = key then change peer :: peers else peer :: updatePeer key change peers

def findPeer (key : PublicKey X) (peers : List (Peer X)) : Option (Peer X) :=
  peers.find? fun peer => peer.compressedPublicKey = key

def identities (peers : List (Peer X)) : Finset X := (peers.map Peer.xOnly).toFinset

def peerIdentitiesUnique (peers : List (Peer X)) : Bool := (identities peers).card = peers.length

/-- The candidates of a migration, under ascending keys and without repeated ones. -/
def sortPeers [LinearOrder X] (peers : List (Peer X)) : List (Peer X) :=
  (peers.mergeSort fun a b => a.compressedPublicKey.le b.compressedPublicKey).destutter
    fun a b => a.compressedPublicKey ≠ b.compressedPublicKey

end Storm

namespace StormState

open Storm

variable {X D : Type} [DecidableEq X]

def new (initializerPublicKey : PublicKey X) (peers : List (Peer X)) : StormState X D :=
  ⟨initializerPublicKey, peers, ∅, ∅, false, none, none, [], ∅, ∅⟩

def migrationContains (state : StormState X D) (key : PublicKey X) : Bool :=
  state.migrationMembers.any fun members => key.x ∈ members

def migrationPeerIdentitiesValid (state : StormState X D) : Bool :=
  state.migrationMembers.any fun members =>
    peerIdentitiesUnique state.migrationPeers && decide (identities state.migrationPeers ⊆ members)

def migrationPeerTableMatchesMembers (state : StormState X D) : Bool :=
  state.migrationMembers.any fun members =>
    peerIdentitiesUnique state.migrationPeers && decide (identities state.migrationPeers = members)

def migrationReady (state : StormState X D) : Bool :=
  state.migrationPeerTableMatchesMembers &&
    decide (some (identities (state.migrationPeers.filter fun peer =>
      peer.compressedPublicKey = state.initializerPublicKey ∨ peer.status = .active)) = state.migrationMembers)

def migrationTableComplete (state : StormState X D) : Bool :=
  state.migrationPeerTableMatchesMembers &&
    decide (some (identities (state.migrationPeers.filter fun peer => peer.socketAddress.isSome)) =
      state.migrationMembers)

def overridden (state : StormState X D) (peer : Peer X) : Peer X :=
  match state.addressOverrides.lookup peer.compressedPublicKey with
  | some address => { peer with socketAddress := some address }
  | none => peer

def applyAddressOverrides (state : StormState X D) : StormState X D :=
  { state with
    peers := state.peers.map state.overridden
    migrationPeers := state.migrationPeers.map state.overridden }

def acceptsUnregisteredConnection (state : StormState X D) (key : PublicKey X) : Bool :=
  state.migrationContains key ||
    (!state.discoveryTableReceived && state.peers.any fun peer =>
      peer.compressedPublicKey ≠ state.initializerPublicKey && peer.discovery)

section Messages

variable [DecidableEq D]

/-- What the fingerprint of a message is taken over. -/
def fingerprintBytes (message : Message) : List UInt8 :=
  "storm-message-v1".toUTF8.toList ++ Sha256.bigEndianBytes 4 message.header.payloadId ++
    Sha256.bigEndianBytes 8 message.header.timestamp ++ Sha256.bigEndianBytes 4 message.header.protocolVersion ++
    message.payload

def absDiff (a b : ℕ) : ℕ := (a - b) + (b - a)

/-- The remembered messages that are not too old when a message is received. -/
def retained (state : StormState X D) (key : PublicKey X) (receivedAt : ℕ) : List (RecentMessage D) :=
  ((state.recentMessages.lookup key).getD []).filter fun entry => receivedAt - entry.receivedAt ≤ messageClockSkew

def setRecent (state : StormState X D) (key : PublicKey X) (recent : List (RecentMessage D)) : StormState X D :=
  { state with recentMessages := state.recentMessages.insert key recent }

def setRecentControl (state : StormState X D) (key : PublicKey X) (recent : List ℕ) : StormState X D :=
  { state with recentControlMessages := state.recentControlMessages.insert key recent }

def registerMessage (sha256 : List UInt8 → D) (key : PublicKey X) (message : Message) (receivedAt : ℕ) :
    Db (StormState X D) Error Unit := do
  let state ← get
  if absDiff message.header.timestamp receivedAt > messageClockSkew then throw .messageTimestampOutsideWindow
  else if message.header.payloadId ≤ 3 then
    let recent := ((state.recentControlMessages.lookup key).getD []).filter fun timestamp =>
      receivedAt - timestamp < controlMessageRateWindow
    if controlMessageRateCapacity ≤ recent.length then do
      set (state.setRecentControl key recent)
      throw .messageRateLimit
    else set (state.setRecentControl key (recent ++ [receivedAt]))
  else
    let fingerprint := sha256 (fingerprintBytes message)
    let recent := state.retained key receivedAt
    if recent.any fun entry => entry.fingerprint = fingerprint then do
      set (state.setRecent key recent)
      throw .replayedMessage
    else if replayCacheCapacity ≤ recent.length then do
      set (state.setRecent key recent)
      throw .messageRateLimit
    else set (state.setRecent key (recent ++ [⟨fingerprint, receivedAt⟩]))

end Messages

end StormState

end PriceOracle
