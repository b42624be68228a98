import PriceOracle.StormMigration

/-!
# Who may change the peer table

`peers_socket_info.rs` behind `handle_message` of `network.rs`: a message takes the lock of the
state three times, to authenticate its sender, to refuse staged members and to be handled. Other
operations of the node come in between.
-/

namespace PriceOracle

namespace Storm

/-- `StormMessagePayloadType::PeersSocketInfo` -/
def peersSocketInfoId : ℕ := 2

def protocolVersion : ℕ := 1

/-- A message with a peer table on its way to the handler. -/
structure TableMessage (X : Type) where
  sender : PublicKey X
  protocolVersion : ℕ
  payload : List UInt8
  deriving DecidableEq

variable {X : Type}

def Peer.see (receivedAt : ℕ) (peer : Peer X) : Peer X := { peer with lastSeen := some receivedAt }

/-- A peer but for when it was seen. -/
def Peer.entry (peer : Peer X) : PublicKey X × Option Endpoint × PeerStatus × Bool :=
  (peer.compressedPublicKey, peer.socketAddress, peer.status, peer.discovery)

end Storm

namespace StormState

open Storm

variable {X D : Type} [DecidableEq X]

section Messages

variable [DecidableEq D]

def senderStatus (state : StormState X D) (sender : PublicKey X) : Option PeerStatus :=
  match findPeer sender state.peers with
  | some peer => some peer.status
  | none => (findPeer sender state.migrationPeers).map Peer.status

def see (state : StormState X D) (sender : PublicKey X) (receivedAt : ℕ) : StormState X D :=
  { state with
    peers := updatePeer sender (Peer.see receivedAt) state.peers
    migrationPeers := updatePeer sender (Peer.see receivedAt) state.migrationPeers }

/-- The first lock of `handle_message`. -/
def authenticate (sha256 : List UInt8 → D) (sender : PublicKey X) (message : Message) (receivedAt : ℕ) :
    Db (StormState X D) Error Unit := do
  let state ← get
  match state.senderStatus sender with
  | none => throw .unauthorizedConnection
  | some status =>
    if status = .banned then throw .unauthorizedConnection
    else do
      registerMessage sha256 sender message receivedAt
      modify fun state => state.see sender receivedAt

/-- The second lock, and the check before the handler is chosen: a sender that is only staged may not
send tables. -/
def admits (state : StormState X D) (message : TableMessage X) : Bool :=
  (findPeer message.sender state.peers).isSome && message.protocolVersion = protocolVersion

end Messages

section Handler

/-- `handle`: `read` is what postcard and the key parser make of a payload. -/
def handleTableMessage (read : List UInt8 → Option (List (PeerSocketInfo X))) (endpoint : String → Option Endpoint)
    (message : TableMessage X) : Db (StormState X D) HandlerError Unit :=
  match read message.payload with
  | none => throw (.response .invalidPayload "Failed to deserialize PeersSocketInfo")
  | some infos => handlePeersSocketInfo endpoint infos message.sender

/-- The configured authority, or a peer that is discovered from. -/
def Trusted (state : StormState X D) (sender : PublicKey X) : Prop :=
  state.peerTableAuthority = some sender ∨ ∃ peer, findPeer sender state.peers = some peer ∧ peer.discovery = true

/-- What holds of a message that is handled: it is answered, and changes nothing if it is rejected or
its sender is not trusted. -/
structure Handled (read : List UInt8 → Option (List (PeerSocketInfo X))) (endpoint : String → Option Endpoint)
    (state : StormState X D) (message : TableMessage X) : Prop where
  answered : ((handleTableMessage read endpoint message).exec state).1 ≠ .error .panicked
  untrusted : ¬state.Trusted message.sender → ((handleTableMessage read endpoint message).exec state).2 = state
  rejected : ∀ error, ((handleTableMessage read endpoint message).exec state).1 = .error error →
    ((handleTableMessage read endpoint message).exec state).2 = state

/-- The sender is still listed when the handler looks for it, if it gets that far: a payload is refused
before, and a table of the staged members is taken from the authority alone. -/
def StillListed (read : List UInt8 → Option (List (PeerSocketInfo X))) (endpoint : String → Option Endpoint)
    (state : StormState X D) (message : TableMessage X) : Prop :=
  ∀ infos validated, read message.payload = some infos → validate endpoint infos = .ok validated →
    state.migrationMembers ≠ some ((receivedKeys validated).map PublicKey.x).toFinset →
    (findPeer message.sender state.peers).isSome

variable {state : StormState X D} {infos : List (ValidatedPeerSocketInfo X)} {sender : PublicKey X}

theorem validateEntries_error {endpoint : String → Option Endpoint} {infos : List (PeerSocketInfo X)} :
    ∀ {seen : List X} {error : HandlerError}, validateEntries endpoint seen infos = .error error →
      ∃ code text, error = .response code text := by
  induction infos with
  | nil => exact fun h => (nomatch h)
  | cons info infos ih =>
    intro seen error h
    unfold validateEntries at h
    cases hkey : info.compressedPublicKey with
    | none =>
      rw [hkey] at h
      cases h
      exact ⟨_, _, rfl⟩
    | some key =>
      cases haddress : endpoint info.socketAddress with
      | none =>
        simp only [hkey, haddress] at h
        cases h
        exact ⟨_, _, rfl⟩
      | some address =>
        simp only [hkey, haddress] at h
        split_ifs at h with hseen
        · cases h
          exact ⟨_, _, rfl⟩
        · cases hrest : validateEntries endpoint (key.x :: seen) infos with
          | error other =>
            rw [hrest] at h
            cases h
            exact ih hrest
          | ok rest =>
            rw [hrest] at h
            cases h

theorem validate_error {endpoint : String → Option Endpoint} {infos : List (PeerSocketInfo X)} {error : HandlerError}
    (h : validate endpoint infos = .error error) : ∃ code text, error = .response code text := by
  unfold validate at h
  split_ifs at h with hempty
  · cases h
    exact ⟨_, _, rfl⟩
  · exact validateEntries_error h

/-- Known keys are compared only. -/
theorem exec_validateKnownPeerKeys_cases (infos : List (ValidatedPeerSocketInfo X)) (state : StormState X D) :
    (validateKnownPeerKeys infos).exec state = (.ok (), state) ∨
      ∃ code text, (validateKnownPeerKeys infos).exec state = (.error (.response code text), state) := by
  unfold validateKnownPeerKeys
  rw [Db.exec_get_bind]
  split_ifs with hkeys
  · exact Or.inr ⟨_, _, rfl⟩
  · exact Or.inl rfl

/-- What the handler does with a validated table. -/
inductive Applied (state : StormState X D) (infos : List (ValidatedPeerSocketInfo X)) (sender : PublicKey X) :
    Except HandlerError Unit × StormState X D → Prop where
  | response (code : StormErrorCode) (text : String) : Applied state infos sender (.error (.response code text), state)
  | nothing : Applied state infos sender (.ok (), state)
  | trusted (trusted : state.Trusted sender) (next : StormState X D) : Applied state infos sender (.ok (), next)
  | panicked (unlisted : findPeer sender state.peers = none)
      (other : state.migrationMembers ≠ some ((receivedKeys infos).map PublicKey.x).toFinset) :
    Applied state infos sender (.error .panicked, state)

theorem applied_validateKnownPeerKeys : Applied state infos sender ((validateKnownPeerKeys infos).exec state) := by
  obtain hok | ⟨code, text, herror⟩ := exec_validateKnownPeerKeys_cases infos state
  · rw [hok]
    exact .nothing
  · rw [herror]
    exact .response code text

theorem applied_applyPeersSocketInfo (infos : List (ValidatedPeerSocketInfo X)) (sender : PublicKey X)
    (state : StormState X D) : Applied state infos sender ((applyPeersSocketInfo infos sender).exec state) := by
  unfold applyPeersSocketInfo
  rw [Db.exec_get_bind]
  by_cases hmembers : state.migrationMembers = some ((receivedKeys infos).map PublicKey.x).toFinset
  · rw [if_pos hmembers]
    unfold requirePeerTableAuthority
    rw [Db.exec_bind, Db.exec_get_bind]
    by_cases hauthority : state.peerTableAuthority = some sender
    · rw [if_neg (not_not.mpr hauthority)]
      exact .trusted (Or.inl hauthority) _
    · rw [if_pos hauthority]
      exact .response _ _
  · rw [if_neg hmembers]
    cases hfind : findPeer sender state.peers with
    | none => exact .panicked hfind hmembers
    | some peer =>
      dsimp only
      split_ifs with hdiscovery hhints
      · unfold replaceDiscoveredPeers
        rw [Db.exec_get_bind]
        split_ifs with hkeys
        · exact .response _ _
        · exact .trusted (Or.inr ⟨peer, hfind, hdiscovery⟩) _
      · unfold cacheMigrationPeerHints
        rw [Db.exec_bind, Db.exec_get_bind]
        split_ifs with hsame hsender
        · exact applied_validateKnownPeerKeys
        · exact .trusted (Or.inl hhints.2) _
        · exact .response _ _
      · exact applied_validateKnownPeerKeys

/-- Exactly a sender that is gone by then keeps a message from being handled as it should be. -/
theorem handled_iff_stillListed {read : List UInt8 → Option (List (PeerSocketInfo X))}
    {endpoint : String → Option Endpoint} {message : TableMessage X} :
    Handled read endpoint state message ↔ StillListed read endpoint state message := by
  constructor
  · intro hhandled infos validated hread hvalid hmembers
    have hanswered := hhandled.answered
    unfold handleTableMessage handlePeersSocketInfo at hanswered
    rw [hread] at hanswered
    dsimp only at hanswered
    rw [hvalid] at hanswered
    dsimp only at hanswered
    unfold applyPeersSocketInfo at hanswered
    rw [Db.exec_get_bind, if_neg hmembers] at hanswered
    cases hfind : findPeer message.sender state.peers with
    | some peer => rfl
    | none =>
      rw [hfind] at hanswered
      exact absurd rfl hanswered
  · intro hlisted
    have hrefused (code : StormErrorCode) (text : String)
        (h : (handleTableMessage read endpoint message).exec state = (.error (.response code text), state)) :
        Handled read endpoint state message := by
      refine ⟨?_, ?_, ?_⟩ <;> rw [h]
      · exact fun hpanicked => by cases hpanicked
      · exact fun _ => rfl
      · exact fun _ _ => rfl
    cases hread : read message.payload with
    | none =>
      refine hrefused .invalidPayload "Failed to deserialize PeersSocketInfo" ?_
      unfold handleTableMessage
      rw [hread]
      rfl
    | some infos =>
      cases hvalid : validate endpoint infos with
      | error error =>
        obtain ⟨code, text, rfl⟩ := validate_error hvalid
        refine hrefused code text ?_
        unfold handleTableMessage handlePeersSocketInfo
        rw [hread]
        dsimp only
        rw [hvalid]
        rfl
      | ok validated =>
        have hexec : (handleTableMessage read endpoint message).exec state =
            (applyPeersSocketInfo validated message.sender).exec state := by
          unfold handleTableMessage handlePeersSocketInfo
          rw [hread]
          dsimp only
          rw [hvalid]
        have happlied := applied_applyPeersSocketInfo validated message.sender state
        rw [← hexec] at happlied
        cases hresult : (handleTableMessage read endpoint message).exec state with
        | mk result next =>
          rw [hresult] at happlied
          cases happlied with
          | response code text => exact hrefused code text hresult
          | nothing =>
            refine ⟨?_, ?_, ?_⟩ <;> rw [hresult]
            · exact fun hpanicked => by cases hpanicked
            · exact fun _ => rfl
            · exact fun _ herror => by cases herror
          | trusted htrusted =>
            refine ⟨?_, ?_, ?_⟩
            · rw [hresult]
              exact fun hpanicked => by cases hpanicked
            · exact fun huntrusted => absurd htrusted huntrusted
            · rw [hresult]
              exact fun _ herror => by cases herror
          | panicked hunlisted hother =>
            have hsome := hlisted infos validated hread hvalid hother
            rw [hunlisted] at hsome
            cases hsome

end Handler

end StormState

/-- A node with the messages that passed the first lock and those that passed the second. -/
structure TableNode (X D : Type) where
  state : StormState X D
  authenticated : List (Storm.TableMessage X)
  admitted : List (Storm.TableMessage X)

namespace TableNode

open Storm StormState

variable {X D : Type} [DecidableEq X] [LinearOrder X] [DecidableEq D]

section Steps

/-- The locks that a message takes, and what else the node does. -/
inductive Action (X : Type) where
  | receive (sender : PublicKey X) (message : Message) (receivedAt : ℕ)
  | admission (index : ℕ)
  | handle (index : ℕ)
  | operate (action : MigrationAction X)

def start (state : StormState X D) : TableNode X D := ⟨state, [], []⟩

variable (sha256 : List UInt8 → D) (read : List UInt8 → Option (List (PeerSocketInfo X)))
  (endpoint : String → Option Endpoint)

def step (node : TableNode X D) : Action X → TableNode X D
  | .receive sender message receivedAt =>
    match (authenticate sha256 sender message receivedAt).exec node.state with
    | (.ok (), next) =>
      { node with
        state := next
        authenticated :=
          if message.header.payloadId = peersSocketInfoId then
            node.authenticated ++ [⟨sender, message.header.protocolVersion, message.payload⟩]
          else node.authenticated }
    | (.error _, next) => { node with state := next }
  | .admission index =>
    match node.authenticated[index]? with
    | none => node
    | some message =>
      { node with
        authenticated := node.authenticated.eraseIdx index
        admitted := if node.state.admits message then node.admitted ++ [message] else node.admitted }
  | .handle index =>
    match node.admitted[index]? with
    | none => node
    | some message =>
      { node with
        state := ((handleTableMessage read endpoint message).exec node.state).2
        admitted := node.admitted.eraseIdx index }
  | .operate action => { node with state := node.state.migrationStep endpoint action }

/-- Nothing but when a sender was seen and what was received from it lately. -/
structure SameTables (before after : StormState X D) : Prop where
  peers : after.peers.map Peer.entry = before.peers.map Peer.entry
  staged : after.migrationPeers.map Peer.entry = before.migrationPeers.map Peer.entry
  others : after = { before with
    peers := after.peers, migrationPeers := after.migrationPeers, recentMessages := after.recentMessages
    recentControlMessages := after.recentControlMessages }

/-- What a message may do at each of its locks. -/
def Authorized (node : TableNode X D) (action : Action X) : Prop :=
  match action with
  | .receive _ _ _ => SameTables node.state (node.step sha256 read endpoint action).state
  | .admission _ => (node.step sha256 read endpoint action).state = node.state
  | .handle index => ∀ message, node.admitted[index]? = some message → Handled read endpoint node.state message
  | .operate _ => True

/-- No sender is taken off the peer table before its message is handled. -/
def SendersStay (node : TableNode X D) (action : Action X) : Prop :=
  match action with
  | .handle index => ∀ message, node.admitted[index]? = some message → StillListed read endpoint node.state message
  | _ => True

end Steps

section Runs

variable {sha256 : List UInt8 → D} {read : List UInt8 → Option (List (PeerSocketInfo X))}
  {endpoint : String → Option Endpoint}

omit [DecidableEq X] [LinearOrder X] [DecidableEq D] in
theorem SameTables.refl (state : StormState X D) : SameTables state state := ⟨rfl, rfl, rfl⟩

omit [DecidableEq X] [LinearOrder X] [DecidableEq D] in
theorem SameTables.trans {a b c : StormState X D} (hab : SameTables a b) (hbc : SameTables b c) : SameTables a c where
  peers := hbc.peers.trans hab.peers
  staged := hbc.staged.trans hab.staged
  others := by
    rw [hbc.others, hab.others]

omit [LinearOrder X] [DecidableEq D] in
theorem map_entry_see (sender : PublicKey X) (receivedAt : ℕ) (peers : List (Peer X)) :
    (updatePeer sender (Peer.see receivedAt) peers).map Peer.entry = peers.map Peer.entry := by
  induction peers with
  | nil => rfl
  | cons peer peers ih =>
    unfold updatePeer
    split_ifs with hsender
    · rfl
    · exact congrArg (peer.entry :: ·) ih

omit [LinearOrder X] in
theorem sameTables_registerMessage (sha256 : List UInt8 → D) (sender : PublicKey X) (message : Message) (receivedAt : ℕ)
    (state : StormState X D) :
    SameTables state ((registerMessage sha256 sender message receivedAt).exec state).2 := by
  unfold registerMessage
  rw [Db.exec_get_bind]
  dsimp only
  split_ifs <;> exact ⟨rfl, rfl, rfl⟩

omit [LinearOrder X] in
theorem sameTables_authenticate (sha256 : List UInt8 → D) (sender : PublicKey X) (message : Message) (receivedAt : ℕ) (state : StormState X D) :
    SameTables state ((authenticate sha256 sender message receivedAt).exec state).2 := by
  unfold authenticate
  rw [Db.exec_get_bind]
  cases state.senderStatus sender with
  | none => exact SameTables.refl state
  | some status =>
    dsimp only
    split_ifs with hbanned
    · exact SameTables.refl state
    · have hregistered := sameTables_registerMessage sha256 sender message receivedAt state
      rw [Db.exec_bind]
      cases hexec : (registerMessage sha256 sender message receivedAt).exec state with
      | mk result registered =>
        rw [hexec] at hregistered
        cases result with
        | error error => exact hregistered
        | ok _ =>
          exact hregistered.trans ⟨map_entry_see sender receivedAt _, map_entry_see sender receivedAt _, rfl⟩

theorem authorized_iff_sendersStay {node : TableNode X D} {action : Action X} :
    node.Authorized sha256 read endpoint action ↔ node.SendersStay read endpoint action := by
  cases action with
  | receive sender message receivedAt =>
    refine iff_of_true ?_ trivial
    have hsame := sameTables_authenticate sha256 sender message receivedAt node.state
    unfold Authorized step
    dsimp only
    cases hexec : (authenticate sha256 sender message receivedAt).exec node.state with
    | mk result next =>
      rw [hexec] at hsame
      cases result with
      | error error => exact hsame
      | ok _ => exact hsame
  | admission index =>
    refine iff_of_true ?_ trivial
    unfold Authorized step
    dsimp only
    cases node.authenticated[index]? with
    | none => rfl
    | some message => rfl
  | handle index =>
    constructor
    · exact fun h message hmessage => handled_iff_stillListed.mp (h message hmessage)
    · exact fun h message hmessage => handled_iff_stillListed.mpr (h message hmessage)
  | operate action => exact Iff.rfl

/-- In every run, whatever comes between the locks of a message, the tables are changed for trusted
senders only, by messages that are not rejected, and every message is answered, exactly if no step
handles a message whose sender is gone. -/
theorem peer_table_authority (sha256 : List UInt8 → D) (read : List UInt8 → Option (List (PeerSocketInfo X)))
    (endpoint : String → Option Endpoint) (node : TableNode X D) (actions : List (Action X)) :
    Runs.EachStep (step sha256 read endpoint) (Authorized sha256 read endpoint) node actions ↔
      Runs.EachStep (step sha256 read endpoint) (SendersStay read endpoint) node actions :=
  Runs.EachStep.iff_of_invariant (I := fun _ => True) (fun _ _ _ => authorized_iff_sendersStay) (fun _ _ _ _ => trivial)
    trivial

end Runs

section Example

def memberPeer (x : ℕ) : Peer ℕ := { Peer.new ⟨false, x⟩ with status := .active }

def localPeer : Peer ℕ := { Peer.new ⟨false, 1⟩ with status := .controlled }

/-- Four members that are connected, and a migration to the first three that can be activated. -/
def migrating : StormState ℕ (List UInt8) :=
  { new ⟨false, 1⟩ [localPeer, memberPeer 2, memberPeer 3, memberPeer 4] with
    connections := (((∅ : Table (PublicKey ℕ) ℕ).insert ⟨false, 2⟩ 0).insert ⟨false, 3⟩ 1).insert ⟨false, 4⟩ 2
    migrationMembers := some {1, 2, 3}
    migrationPeers := [localPeer, memberPeer 2, memberPeer 3] }

def tableRead (_ : List UInt8) : Option (List (PeerSocketInfo ℕ)) := some [⟨some ⟨false, 4⟩, "127.0.0.1:4000"⟩]

def anyEndpoint (address : String) : Option Endpoint := some (.socket address)

/-- The member that leaves sends a table, and the migration is activated before it is handled. -/
def leavingSender : List (Action ℕ) :=
  [.receive ⟨false, 4⟩ ⟨⟨peersSocketInfoId, 100, protocolVersion⟩, []⟩ 100, .admission 0, .operate (.operate .activateMemberMigration),
    .handle 0]

theorem leaving_sender_panics : ¬∀ actions, Runs.EachStep (step (fun _ => []) tableRead anyEndpoint)
    (Authorized (fun _ => []) tableRead anyEndpoint) (start migrating) actions := by
  intro hclaim
  have hhandled := (hclaim leavingSender).2.2.2.1
  exact absurd rfl (hhandled ⟨⟨false, 4⟩, protocolVersion, []⟩ (by decide)).answered

end Example

end TableNode

end PriceOracle
