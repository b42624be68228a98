import PriceOracle.Runs
import PriceOracle.StormState

/-!
# Connections and peer tables

`storm/src/network.rs`, `storm/src/handle.rs`, `storm/src/storm.rs` and
`storm/src/message_handlers/peers_socket_info.rs`. Each operation is what it does under the
lock of the state; what it sends afterwards is left out.
-/

namespace PriceOracle

namespace Storm

/-- An entry of a message, with the key that its bytes decode to. -/
structure PeerSocketInfo (X : Type) where
  compressedPublicKey : Option (PublicKey X)
  socketAddress : String
  deriving DecidableEq

structure ValidatedPeerSocketInfo (X : Type) where
  compressedPublicKey : PublicKey X
  socketAddress : Endpoint
  deriving DecidableEq

inductive StormErrorCode where
  | invalidPayload
  | unauthorized
  deriving DecidableEq

/-- The answer to a message that is refused; a task that panics gives none. -/
inductive HandlerError where
  | response (code : StormErrorCode) (text : String)
  | panicked
  deriving DecidableEq

section Peers

variable {X : Type} [DecidableEq X]

/-- What a map that is collected from the peers holds under a key. -/
def existingPeer (key : PublicKey X) (peers : List (Peer X)) : Option (Peer X) := findPeer key peers.reverse

def keys (peers : List (Peer X)) : List (PublicKey X) := peers.map Peer.compressedPublicKey

/-- The entries that are read after the identities `seen`. -/
def validateEntries (endpoint : String → Option Endpoint) : List X → List (PeerSocketInfo X) →
    Except HandlerError (List (ValidatedPeerSocketInfo X))
  | _, [] => .ok []
  | seen, info :: infos =>
    match info.compressedPublicKey with
    | none => .error (.response .invalidPayload "PeersSocketInfo contains an invalid public key")
    | some key =>
      match endpoint info.socketAddress with
      | none => .error (.response .invalidPayload ("Invalid peer socket address: " ++ info.socketAddress))
      | some address =>
        if key.x ∈ seen then
          .error (.response .invalidPayload "PeersSocketInfo contains duplicate x-only public keys")
        else (validateEntries endpoint (key.x :: seen) infos).map fun rest => ⟨key, address⟩ :: rest

def validate (endpoint : String → Option Endpoint) (infos : List (PeerSocketInfo X)) :
    Except HandlerError (List (ValidatedPeerSocketInfo X)) :=
  if infos = [] then .error (.response .invalidPayload "PeersSocketInfo cannot be empty")
  else validateEntries endpoint [] infos

end Peers

end Storm

namespace StormState

open Storm

variable {X D : Type} [DecidableEq X]

section Constructors

variable (initializerPublicKey : PublicKey X)

def stateWithLocalPeer (peers : List (Peer X)) : StormState X D :=
  if initializerPublicKey ∈ keys peers then new initializerPublicKey peers
  else new initializerPublicKey (Peer.new initializerPublicKey :: peers)

def initialStatus (peer : Peer X) : PeerStatus :=
  if peer.compressedPublicKey = initializerPublicKey then .controlled
  else if peer.status ≠ .banned then .inactive
  else peer.status

def discovery (registeredPeers : List (Peer X)) : StormState X D :=
  let state := stateWithLocalPeer initializerPublicKey registeredPeers
  { state with
    peers := state.peers.map fun peer =>
      { peer with
        status := initialStatus initializerPublicKey peer
        discovery := peer.compressedPublicKey = initializerPublicKey } }

def discoverable (discoveryPeer : Peer X) : Except Error (StormState X D) :=
  if discoveryPeer.compressedPublicKey = initializerPublicKey then .error .discoveryPeerIsLocal
  else if discoveryPeer.socketAddress = none then .error .discoveryPeerAddressMissing
  else
    let state := stateWithLocalPeer initializerPublicKey
      [{ discoveryPeer with status := .inactive, discovery := true }]
    .ok { state with
      peers := updatePeer initializerPublicKey
        (fun peer => { peer with status := .controlled, discovery := false }) state.peers }

def fromPeers (peers : List (Peer X)) : StormState X D :=
  let state := stateWithLocalPeer initializerPublicKey peers
  { state with
    peers := state.peers.map fun peer =>
      { peer with status := initialStatus initializerPublicKey peer, discovery := false } }

end Constructors

section Connections

/-- Connections of keys that the peer table does not list. -/
def provisionalConnections (state : StormState X D) : ℕ :=
  state.connections.keys.countP fun key => key ∉ keys state.peers

def insertConnection (state : StormState X D) (key : PublicKey X) (sender : ℕ) : StormState X D :=
  { state.applyAddressOverrides with connections := state.connections.insert key sender }

/-- A staged member whose key the peer table does not list connects. -/
def admitMigrationPeer (state : StormState X D) (key : PublicKey X) (address : Option String) : StormState X D :=
  if (findPeer key state.migrationPeers).isSome then
    { state with migrationPeers := updatePeer key (Peer.activate address) state.migrationPeers }
  else
    { state with
      migrationPeers := state.migrationPeers ++
        [{ Peer.new key with status := .active, socketAddress := address.map .socket }] }

def claimConnection (key : PublicKey X) (address : Option String) (sender : ℕ) :
    Db (StormState X D) Error Unit := do
  let state ← get
  if key ∈ state.connections then throw .peerAlreadyConnected
  else match findPeer key state.peers with
  | some peer =>
    if peer.status = .banned then throw .unauthorizedConnection
    else if peer.status = .active then throw .peerAlreadyConnected
    else
      let activated : StormState X D :=
        { state with
          peers := updatePeer key (Peer.activate address) state.peers
          migrationPeers := updatePeer key (Peer.activate address) state.migrationPeers }
      set (activated.insertConnection key sender)
  | none =>
    if ¬state.acceptsUnregisteredConnection key then throw .unauthorizedConnection
    else if maxProvisionalConnections ≤ state.provisionalConnections then throw .provisionalConnectionLimit
    else if state.migrationContains key then
      set ((state.admitMigrationPeer key address).insertConnection key sender)
    else set (state.insertConnection key sender)

def releaseConnection (state : StormState X D) (key : PublicKey X) : StormState X D :=
  { state with
    connections := state.connections.erase key
    peers := updatePeer key Peer.deactivate state.peers
    migrationPeers := updatePeer key Peer.deactivate state.migrationPeers }

def shutdown (state : StormState X D) : StormState X D :=
  { state with connections := ∅, peers := state.peers.map Peer.deactivate }

def listen (address : String) (state : StormState X D) : StormState X D :=
  let observed : StormState X D :=
    { state with
      peers := updatePeer state.initializerPublicKey (Peer.updateObservedAddress address) state.peers }
  observed.applyAddressOverrides

end Connections

section Migration

/-- The known peers that are target members, each key once. -/
def candidates [LinearOrder X] (state : StormState X D) (members : Finset X) : List (Peer X) :=
  sortPeers ((state.peers ++ state.migrationPeers).filter fun peer => peer.xOnly ∈ members)

def beginMemberMigration [LinearOrder X] (members : Finset X) : Db (StormState X D) Error Unit := do
  let state ← get
  match state.migrationMembers with
  | some staged =>
    if staged ≠ members then throw .migrationAlreadyStaged
    else if ¬state.migrationPeerIdentitiesValid then throw .invalidMigrationPeerTable
    else pure ()
  | none =>
    if ¬peerIdentitiesUnique (state.candidates members) then throw .invalidMigrationPeerTable
    else set { state with migrationPeers := state.candidates members, migrationMembers := some members }

/-- The checks before a staged table is read or activated. -/
def checkMigrationPeers (state : StormState X D) : Except Error Unit :=
  if state.migrationMembers = none then .error .migrationNotStaged
  else if ¬state.migrationPeerIdentitiesValid then .error .invalidMigrationPeerTable
  else if ¬state.migrationReady ∧
      (state.migrationContains state.initializerPublicKey ∨ ¬state.migrationTableComplete) then
    .error .migrationNotReady
  else if ¬state.migrationPeerTableMatchesMembers then .error .invalidMigrationPeerTable
  else .ok ()

def memberMigrationPeers (state : StormState X D) : Except Error (List (Peer X)) :=
  state.checkMigrationPeers.map fun _ => state.migrationPeers

/-- The staged table becomes the peer table. -/
def activated (state : StormState X D) : StormState X D :=
  { state with
    peers := state.migrationPeers
    migrationPeers := []
    migrationMembers := none
    connections := state.connections.filterRows fun key _ => key ∈ keys state.migrationPeers }

def activateMemberMigration : Db (StormState X D) Error (List (Peer X)) := do
  let state ← get
  match state.checkMigrationPeers with
  | .error error => throw error
  | .ok () => do
    set state.activated
    pure state.activated.peers

def cancelMemberMigration (state : StormState X D) : StormState X D := { state with migrationMembers := none }

end Migration

section Tables

/-- A peer of a received migration table. -/
def migrationPeer (state : StormState X D) (info : ValidatedPeerSocketInfo X) : Peer X :=
  let peer := (existingPeer info.compressedPublicKey state.migrationPeers).getD (Peer.new info.compressedPublicKey)
  { peer with
    socketAddress := some info.socketAddress
    status :=
      if peer.compressedPublicKey = state.initializerPublicKey then .controlled
      else if peer.compressedPublicKey ∈ state.connections then .active
      else if peer.status ≠ .banned then .inactive
      else peer.status
    discovery := false }

def replaceMigrationPeers (state : StormState X D) (infos : List (ValidatedPeerSocketInfo X)) : StormState X D :=
  let replaced : StormState X D := { state with migrationPeers := infos.map state.migrationPeer }
  replaced.applyAddressOverrides

def receivedKeys (infos : List (ValidatedPeerSocketInfo X)) : List (PublicKey X) :=
  infos.map ValidatedPeerSocketInfo.compressedPublicKey

/-- The connections that a table from a discovery peer keeps. -/
def retainedConnections (state : StormState X D) (infos : List (ValidatedPeerSocketInfo X)) :
    Table (PublicKey X) ℕ :=
  state.connections.filterRows fun key _ =>
    key ∈ receivedKeys infos && key ∉ keys (state.peers.filter fun peer => peer.status = .banned)

/-- A peer of a table from a discovery peer. -/
def discoveredPeer (state : StormState X D) (connections : Table (PublicKey X) ℕ) (sender : PublicKey X)
    (info : ValidatedPeerSocketInfo X) : Peer X :=
  let peer := (existingPeer info.compressedPublicKey state.peers).getD (Peer.new info.compressedPublicKey)
  { peer with
    socketAddress :=
      if peer.compressedPublicKey ≠ sender ∨ peer.socketAddress = none then some info.socketAddress
      else peer.socketAddress
    status :=
      if peer.compressedPublicKey ∈ connections ∧ peer.compressedPublicKey ≠ state.initializerPublicKey ∧
        peer.status ≠ .banned then .active
      else peer.status }

def withDiscoveredPeers (state : StormState X D) (infos : List (ValidatedPeerSocketInfo X))
    (sender : PublicKey X) : StormState X D :=
  let connections := state.retainedConnections infos
  let replaced : StormState X D :=
    { state with connections := connections, peers := infos.map (state.discoveredPeer connections sender) }
  { replaced.applyAddressOverrides with discoveryTableReceived := true }

def replaceDiscoveredPeers (infos : List (ValidatedPeerSocketInfo X)) (sender : PublicKey X) :
    Db (StormState X D) HandlerError Unit := do
  let state ← get
  if state.initializerPublicKey ∉ receivedKeys infos ∨ sender ∉ receivedKeys infos then
    throw (.response .invalidPayload "Discovery PeersSocketInfo must contain both local and discovery peers")
  else set (state.withDiscoveredPeers infos sender)

/-- Whether hints were cached; the table of the active peers holds none. -/
def cacheMigrationPeerHints (infos : List (ValidatedPeerSocketInfo X)) (sender : PublicKey X) :
    Db (StormState X D) HandlerError Bool := do
  let state ← get
  if (receivedKeys infos).toFinset = (keys state.peers).toFinset then pure false
  else if sender ∉ receivedKeys infos then
    throw (.response .invalidPayload "Migration PeersSocketInfo must contain the sending peer")
  else do
    set (state.replaceMigrationPeers infos)
    pure true

def validateKnownPeerKeys (infos : List (ValidatedPeerSocketInfo X)) : Db (StormState X D) HandlerError Unit := do
  let state ← get
  if (receivedKeys infos).toFinset ≠ (keys state.peers).toFinset then
    throw (.response .invalidPayload "PeersSocketInfo public keys do not match the local peer table")
  else pure ()

def requirePeerTableAuthority (sender : PublicKey X) : Db (StormState X D) HandlerError Unit := do
  let state ← get
  if state.peerTableAuthority ≠ some sender then
    throw (.response .unauthorized "Migration PeersSocketInfo must be sent by the configured authority")
  else pure ()

def applyPeersSocketInfo (infos : List (ValidatedPeerSocketInfo X)) (sender : PublicKey X) :
    Db (StormState X D) HandlerError Unit := do
  let state ← get
  if state.migrationMembers = some ((receivedKeys infos).map PublicKey.x).toFinset then do
    requirePeerTableAuthority sender
    modify fun state => state.replaceMigrationPeers infos
  else match findPeer sender state.peers with
  | none => throw .panicked
  | some peer =>
    if peer.discovery then replaceDiscoveredPeers infos sender
    else if state.migrationMembers = none ∧ state.peerTableAuthority = some sender then do
      let cached ← cacheMigrationPeerHints infos sender
      if cached then pure () else validateKnownPeerKeys infos
    else validateKnownPeerKeys infos

def handlePeersSocketInfo (endpoint : String → Option Endpoint) (infos : List (PeerSocketInfo X))
    (sender : PublicKey X) : Db (StormState X D) HandlerError Unit :=
  match validate endpoint infos with
  | .error error => throw error
  | .ok infos => applyPeersSocketInfo infos sender

end Tables

section Discovery

def finishClientDiscoveryIfConnected (state : StormState X D) : StormState X D :=
  if state.peers.any fun peer => peer.compressedPublicKey = state.initializerPublicKey ∧
      peer.status = .controlled ∧ peer.discovery then state
  else if ¬state.discoveryTableReceived then state
  else if state.peers.all fun peer => peer.compressedPublicKey = state.initializerPublicKey ∨
      peer.status = .active ∨ peer.status = .banned then
    { state with peers := state.peers.map fun peer => { peer with discovery := false } }
  else state

/-- After the discovery table was broadcast. -/
def discoveryTableBroadcast (state : StormState X D) : StormState X D :=
  { state with
    peers := updatePeer state.initializerPublicKey (fun peer => { peer with discovery := false }) state.peers }

def setPeerAddress (key : PublicKey X) (address : Endpoint) (state : StormState X D) : StormState X D :=
  { state with addressOverrides := state.addressOverrides.insert key address }.applyAddressOverrides

def setPeerTableAuthority (authority : PublicKey X) (state : StormState X D) : StormState X D :=
  { state with peerTableAuthority := some authority }

end Discovery

section Operations

/-- What changes the state besides the connections that come and go. -/
inductive Operation (X : Type) where
  | shutdown
  | listen (address : String)
  | beginMemberMigration (members : Finset X)
  | cancelMemberMigration
  | activateMemberMigration
  | peersSocketInfo (infos : List (PeerSocketInfo X)) (sender : PublicKey X)
  | finishClientDiscovery
  | discoveryTableBroadcast
  | setPeerAddress (key : PublicKey X) (address : Endpoint)
  | setPeerTableAuthority (authority : PublicKey X)

def operate [LinearOrder X] (endpoint : String → Option Endpoint) (state : StormState X D) :
    Operation X → StormState X D
  | .shutdown => state.shutdown
  | .listen address => state.listen address
  | .beginMemberMigration members => ((beginMemberMigration members).exec state).2
  | .cancelMemberMigration => state.cancelMemberMigration
  | .activateMemberMigration => (activateMemberMigration.exec state).2
  | .peersSocketInfo infos sender => ((handlePeersSocketInfo endpoint infos sender).exec state).2
  | .finishClientDiscovery => state.finishClientDiscoveryIfConnected
  | .discoveryTableBroadcast => state.discoveryTableBroadcast
  | .setPeerAddress key address => state.setPeerAddress key address
  | .setPeerTableAuthority authority => state.setPeerTableAuthority authority

end Operations

section Specifications

variable {state : StormState X D}

/-- What an accepted connection leads to. -/
inductive Claimed (state : StormState X D) (key : PublicKey X) (address : Option String) (sender : ℕ) :
    StormState X D → Prop where
  | registered {peer : Peer X} (found : findPeer key state.peers = some peer) (banned : peer.status ≠ .banned) :
    Claimed state key address sender (insertConnection
      { state with
        peers := updatePeer key (Peer.activate address) state.peers
        migrationPeers := updatePeer key (Peer.activate address) state.migrationPeers } key sender)
  | member (free : key ∉ state.connections) (unlisted : findPeer key state.peers = none)
      (room : state.provisionalConnections < maxProvisionalConnections) (contained : state.migrationContains key) :
    Claimed state key address sender ((state.admitMigrationPeer key address).insertConnection key sender)
  | provisional (unlisted : findPeer key state.peers = none) (other : ¬state.migrationContains key) :
    Claimed state key address sender (state.insertConnection key sender)

theorem claimConnection_spec (state : StormState X D) (key : PublicKey X) (address : Option String) (sender : ℕ) :
    (∃ error, (claimConnection key address sender).exec state = (.error error, state)) ∨
      ∃ next, (claimConnection key address sender).exec state = (.ok (), next) ∧
        Claimed state key address sender next := by
  unfold claimConnection
  rw [Db.exec_get_bind]
  by_cases hconnected : key ∈ state.connections
  · rw [if_pos hconnected]
    exact Or.inl ⟨_, rfl⟩
  · rw [if_neg hconnected]
    cases hfind : findPeer key state.peers with
    | some peer =>
      dsimp only
      split_ifs with hbanned hactive
      · exact Or.inl ⟨_, rfl⟩
      · exact Or.inl ⟨_, rfl⟩
      · exact Or.inr ⟨_, rfl, .registered hfind hbanned⟩
    | none =>
      dsimp only
      split_ifs with haccepts hlimit hcontains
      · exact Or.inl ⟨_, rfl⟩
      · exact Or.inr ⟨_, rfl, .member hconnected hfind (Nat.lt_of_not_le hlimit) hcontains⟩
      · exact Or.inr ⟨_, rfl, .provisional hfind hcontains⟩
      · exact Or.inl ⟨_, rfl⟩

theorem validateEntries_unique {endpoint : String → Option Endpoint} {infos : List (PeerSocketInfo X)} :
    ∀ {seen : List X} {validated : List (ValidatedPeerSocketInfo X)},
      validateEntries endpoint seen infos = .ok validated →
        ((receivedKeys validated).map PublicKey.x).Nodup ∧
          ∀ x ∈ (receivedKeys validated).map PublicKey.x, x ∉ seen := by
  induction infos with
  | nil =>
    intro seen validated h
    cases h
    exact ⟨List.nodup_nil, fun x hx => nomatch hx⟩
  | cons info infos ih =>
    intro seen validated h
    unfold validateEntries at h
    cases hkey : info.compressedPublicKey with
    | none => simp [hkey] at h
    | some key =>
      cases haddress : endpoint info.socketAddress with
      | none => simp [hkey, haddress] at h
      | some address =>
        simp only [hkey, haddress] at h
        split_ifs at h with hseen
        cases hrest : validateEntries endpoint (key.x :: seen) infos with
        | error error => simp [hrest, Except.map] at h
        | ok rest =>
          rw [hrest] at h
          cases h
          obtain ⟨hnodup, hfresh⟩ := ih hrest
          constructor
          · apply List.nodup_cons.mpr
            exact ⟨fun hmem => hfresh _ hmem List.mem_cons_self, hnodup⟩
          · intro x hx
            rcases List.mem_cons.mp hx with rfl | hx
            · exact hseen
            · exact fun hmem => hfresh x hx (List.mem_cons_of_mem _ hmem)

/-- What a received table leads to. -/
inductive Received (state : StormState X D) : StormState X D → Prop where
  | refused : Received state state
  | migration {infos : List (ValidatedPeerSocketInfo X)} (unique : ((receivedKeys infos).map PublicKey.x).Nodup)
      (members : state.migrationMembers = none ∨
        state.migrationMembers = some ((receivedKeys infos).map PublicKey.x).toFinset) :
    Received state (state.replaceMigrationPeers infos)
  | discovered {infos : List (ValidatedPeerSocketInfo X)} (unique : ((receivedKeys infos).map PublicKey.x).Nodup)
      (sender : PublicKey X) : Received state (state.withDiscoveredPeers infos sender)

theorem exec_validateKnownPeerKeys (infos : List (ValidatedPeerSocketInfo X)) :
    ((validateKnownPeerKeys infos).exec state).2 = state := by
  unfold validateKnownPeerKeys
  rw [Db.exec_get_bind]
  split_ifs <;> rfl

theorem applyPeersSocketInfo_spec {infos : List (ValidatedPeerSocketInfo X)}
    (hunique : ((receivedKeys infos).map PublicKey.x).Nodup) (sender : PublicKey X) :
    Received state ((applyPeersSocketInfo infos sender).exec state).2 := by
  unfold applyPeersSocketInfo
  rw [Db.exec_get_bind]
  by_cases hmembers : state.migrationMembers = some ((receivedKeys infos).map PublicKey.x).toFinset
  · rw [if_pos hmembers]
    unfold requirePeerTableAuthority
    rw [Db.exec_bind, Db.exec_get_bind]
    split_ifs with hauthority
    · exact .refused
    · exact .migration hunique (Or.inr hmembers)
  · rw [if_neg hmembers]
    cases findPeer sender state.peers with
    | none => exact .refused
    | some peer =>
      dsimp only
      split_ifs with hdiscovery hhints
      · unfold replaceDiscoveredPeers
        rw [Db.exec_get_bind]
        split_ifs with hkeys
        · exact .refused
        · exact .discovered hunique sender
      · unfold cacheMigrationPeerHints
        rw [Db.exec_bind, Db.exec_get_bind]
        split_ifs with hsame hsender
        · change Received state ((validateKnownPeerKeys infos).exec state).2
          rw [exec_validateKnownPeerKeys]
          exact .refused
        · exact .migration hunique (Or.inl hhints.1)
        · exact .refused
      · rw [exec_validateKnownPeerKeys]
        exact .refused

theorem handlePeersSocketInfo_spec (endpoint : String → Option Endpoint) (infos : List (PeerSocketInfo X))
    (sender : PublicKey X) : Received state ((handlePeersSocketInfo endpoint infos sender).exec state).2 := by
  unfold handlePeersSocketInfo validate
  split_ifs with hempty
  · exact .refused
  · cases hvalidate : validateEntries endpoint [] infos with
    | error error => exact .refused
    | ok validated => exact applyPeersSocketInfo_spec (validateEntries_unique hvalidate).1 sender

theorem nodup_of_peerIdentitiesUnique {peers : List (Peer X)} (h : peerIdentitiesUnique peers) :
    (peers.map Peer.xOnly).Nodup := by
  have hcard : (peers.map Peer.xOnly).toFinset.card = (peers.map Peer.xOnly).length := by
    rw [List.length_map]
    exact of_decide_eq_true h
  exact Multiset.toFinset_card_eq_card_iff_nodup.mp hcard

theorem peerIdentitiesUnique_iff {peers : List (Peer X)} :
    peerIdentitiesUnique peers ↔ (peers.map Peer.xOnly).Nodup := by
  constructor
  · exact nodup_of_peerIdentitiesUnique
  · intro h
    apply decide_eq_true
    unfold identities
    rw [List.toFinset_card_of_nodup h, List.length_map]

theorem migrationPeerTableMatchesMembers_iff {members : Finset X} (h : state.migrationMembers = some members) :
    state.migrationPeerTableMatchesMembers ↔
      (state.migrationPeers.map Peer.xOnly).Nodup ∧ identities state.migrationPeers = members := by
  unfold migrationPeerTableMatchesMembers
  rw [h, Option.any_some, Bool.and_eq_true, peerIdentitiesUnique_iff, decide_eq_true_iff]

theorem migrationPeerIdentitiesValid_iff {members : Finset X} (h : state.migrationMembers = some members) :
    state.migrationPeerIdentitiesValid ↔
      (state.migrationPeers.map Peer.xOnly).Nodup ∧ identities state.migrationPeers ⊆ members := by
  unfold migrationPeerIdentitiesValid
  rw [h, Option.any_some, Bool.and_eq_true, peerIdentitiesUnique_iff, decide_eq_true_iff]

/-- A table that passes the checks names the staged members. -/
theorem checkMigrationPeers_ok (h : state.checkMigrationPeers = .ok ()) :
    ∃ members, state.migrationMembers = some members ∧ (state.migrationPeers.map Peer.xOnly).Nodup ∧
      identities state.migrationPeers = members := by
  unfold checkMigrationPeers at h
  split_ifs at h with hstaged hvalid hready hmatches
  obtain ⟨members, hmembers⟩ := Option.ne_none_iff_exists'.mp hstaged
  exact ⟨members, hmembers, (migrationPeerTableMatchesMembers_iff hmembers).mp hmatches⟩

theorem activateMemberMigration_spec (state : StormState X D) : (∃ error, state.checkMigrationPeers = .error error ∧
      activateMemberMigration.exec state = (.error error, state)) ∨
    (state.checkMigrationPeers = .ok () ∧
      activateMemberMigration.exec state = (.ok state.migrationPeers, state.activated)) := by
  unfold activateMemberMigration
  rw [Db.exec_get_bind]
  cases hcheck : state.checkMigrationPeers with
  | error error => exact Or.inl ⟨error, rfl, rfl⟩
  | ok _ => exact Or.inr ⟨rfl, rfl⟩

end Specifications

end StormState

end PriceOracle
