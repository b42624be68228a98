import PriceOracle.StormNetwork

/-!
# The connection table

A remote peer of the peer table is active exactly while its key has a connection. A
connection is dropped in several places without waiting for its task, and the task releases
by key when it ends; the statuses of a staged table are not kept up to date by all of them.
-/

namespace PriceOracle

namespace Storm

variable {X : Type}

/-- What the connection table is compared with. -/
def Peer.view (peer : Peer X) : PublicKey X × PeerStatus := (peer.compressedPublicKey, peer.status)

@[simp]
theorem Peer.key_activate (address : Option String) (peer : Peer X) :
    (peer.activate address).compressedPublicKey = peer.compressedPublicKey := by
  unfold activate updateObservedAddress
  split
  · split <;> rfl
  · rfl

@[simp]
theorem Peer.status_activate (address : Option String) (peer : Peer X) :
    (peer.activate address).status = .active := by
  unfold activate updateObservedAddress
  split
  · split <;> rfl
  · rfl

@[simp]
theorem Peer.key_deactivate (peer : Peer X) : peer.deactivate.compressedPublicKey = peer.compressedPublicKey := by
  unfold deactivate
  split_ifs <;> rfl

theorem Peer.deactivate_ne_active (peer : Peer X) : peer.deactivate.status ≠ .active := by
  unfold deactivate
  split_ifs with h
  · intro hactive
    cases hactive
  · exact h

theorem Peer.deactivate_banned {peer : Peer X} (h : peer.deactivate.status = .banned) : peer.status = .banned := by
  unfold deactivate at h
  split_ifs at h
  exact h

@[simp]
theorem Peer.view_updateObservedAddress (address : String) (peer : Peer X) :
    (peer.updateObservedAddress address).view = peer.view := by
  unfold updateObservedAddress
  split <;> rfl

variable [DecidableEq X]

section Update

variable {key : PublicKey X} {change : Peer X → Peer X} {peers : List (Peer X)}

theorem keys_updatePeer (hkey : ∀ peer, (change peer).compressedPublicKey = peer.compressedPublicKey) :
    keys (updatePeer key change peers) = keys peers := by
  induction peers with
  | nil => rfl
  | cons peer peers ih =>
    unfold updatePeer
    split_ifs with h
    · exact congrArg (· :: keys peers) (hkey peer)
    · exact congrArg (peer.compressedPublicKey :: ·) ih

theorem map_view_updatePeer (hview : ∀ peer, (change peer).view = peer.view) :
    (updatePeer key change peers).map Peer.view = peers.map Peer.view := by
  induction peers with
  | nil => rfl
  | cons peer peers ih =>
    unfold updatePeer
    split_ifs with h
    · exact congrArg (· :: peers.map Peer.view) (hview peer)
    · exact congrArg (peer.view :: ·) ih

/-- An updated peer, or one that was left alone. -/
theorem mem_updatePeer {peer : Peer X} (h : peer ∈ updatePeer key change peers) :
    peer ∈ peers ∨ ∃ old ∈ peers, old.compressedPublicKey = key ∧ peer = change old := by
  induction peers with
  | nil => exact Or.inl h
  | cons first peers ih =>
    unfold updatePeer at h
    split_ifs at h with hkey
    · rcases List.mem_cons.mp h with rfl | h
      · exact Or.inr ⟨first, List.mem_cons_self, hkey, rfl⟩
      · exact Or.inl (List.mem_cons_of_mem first h)
    · rcases List.mem_cons.mp h with rfl | h
      · exact Or.inl List.mem_cons_self
      · rcases ih h with h | ⟨old, hold, hkey, rfl⟩
        · exact Or.inl (List.mem_cons_of_mem first h)
        · exact Or.inr ⟨old, List.mem_cons_of_mem first hold, hkey, rfl⟩

/-- With one entry for each key an update leaves no entry under the key alone. -/
theorem mem_updatePeer_nodup {peer : Peer X} (hnodup : (keys peers).Nodup)
    (h : peer ∈ updatePeer key change peers) :
    (peer ∈ peers ∧ peer.compressedPublicKey ≠ key) ∨
      ∃ old ∈ peers, old.compressedPublicKey = key ∧ peer = change old := by
  induction peers with
  | nil => cases h
  | cons first peers ih =>
    obtain ⟨hfirst, hrest⟩ := List.nodup_cons.mp hnodup
    unfold updatePeer at h
    split_ifs at h with hkey
    · rcases List.mem_cons.mp h with rfl | h
      · exact Or.inr ⟨first, List.mem_cons_self, hkey, rfl⟩
      · refine Or.inl ⟨List.mem_cons_of_mem first h, fun hsame => hfirst ?_⟩
        have hmem : peer.compressedPublicKey ∈ keys peers := List.mem_map_of_mem h
        rwa [hsame, ← hkey] at hmem
    · rcases List.mem_cons.mp h with rfl | h
      · exact Or.inl ⟨List.mem_cons_self, hkey⟩
      · rcases ih hrest h with ⟨h, hother⟩ | ⟨old, hold, hkey, rfl⟩
        · exact Or.inl ⟨List.mem_cons_of_mem first h, hother⟩
        · exact Or.inr ⟨old, List.mem_cons_of_mem first hold, hkey, rfl⟩

end Update

theorem findPeer_eq_none {key : PublicKey X} {peers : List (Peer X)} : findPeer key peers = none ↔ key ∉ keys peers := by
  unfold findPeer keys
  simp

theorem findPeer_eq_some {key : PublicKey X} {peers : List (Peer X)} {peer : Peer X}
    (h : findPeer key peers = some peer) : peer ∈ peers ∧ peer.compressedPublicKey = key := by
  unfold findPeer at h
  exact ⟨List.mem_of_find?_eq_some h, by simpa using List.find?_some h⟩

theorem existingPeer_eq_some {key : PublicKey X} {peers : List (Peer X)} {peer : Peer X}
    (h : existingPeer key peers = some peer) : peer ∈ peers ∧ peer.compressedPublicKey = key := by
  obtain ⟨hmem, hkey⟩ := findPeer_eq_some h
  exact ⟨List.mem_reverse.mp hmem, hkey⟩

theorem mem_sortPeers [LinearOrder X] {peers : List (Peer X)} {peer : Peer X} (h : peer ∈ sortPeers peers) :
    peer ∈ peers :=
  List.mem_mergeSort.mp ((List.destutter_sublist _ _).subset h)

end Storm

namespace StormState

open Storm

variable {X D : Type} [DecidableEq X]

section Agreement

variable {localKey : PublicKey X} {connections : Table (PublicKey X) ℕ} {peers : List (Peer X)}

/-- The remote peers are active exactly while they are connected. -/
def Agrees (localKey : PublicKey X) (connections : Table (PublicKey X) ℕ) (peers : List (Peer X)) : Prop :=
  ∀ peer ∈ peers, peer.compressedPublicKey ≠ localKey →
    (peer.status = .active ↔ peer.compressedPublicKey ∈ connections)

def LocalNotBanned (localKey : PublicKey X) (peers : List (Peer X)) : Prop :=
  ∀ peer ∈ peers, peer.compressedPublicKey = localKey → peer.status ≠ .banned

/-- A peer table with one entry for each key that agrees with the connections. -/
structure InStep (localKey : PublicKey X) (connections : Table (PublicKey X) ℕ) (peers : List (Peer X)) : Prop where
  nodup : (keys peers).Nodup
  agrees : Agrees localKey connections peers
  localNotBanned : LocalNotBanned localKey peers

omit [DecidableEq X] in
theorem keys_eq_map_view (peers : List (Peer X)) : keys peers = (peers.map Peer.view).map Prod.fst := by
  rw [List.map_map]
  rfl

omit [DecidableEq X] in
theorem forall_mem_of_map_view {P : PublicKey X × PeerStatus → Prop} {other : List (Peer X)}
    (hview : other.map Peer.view = peers.map Peer.view) (h : ∀ peer ∈ peers, P peer.view) :
    ∀ peer ∈ other, P peer.view := by
  intro peer hpeer
  have hmem : peer.view ∈ peers.map Peer.view := by
    rw [← hview]
    exact List.mem_map_of_mem hpeer
  obtain ⟨old, hold, hsame⟩ := List.mem_map.mp hmem
  rw [← hsame]
  exact h old hold

omit [DecidableEq X] in
theorem LocalNotBanned.of_view {other : List (Peer X)} (h : LocalNotBanned localKey peers)
    (hview : other.map Peer.view = peers.map Peer.view) : LocalNotBanned localKey other :=
  forall_mem_of_map_view (P := fun view => view.1 = localKey → view.2 ≠ .banned) hview h

omit [DecidableEq X] in
theorem InStep.of_view {other : List (Peer X)} (h : InStep localKey connections peers)
    (hview : other.map Peer.view = peers.map Peer.view) : InStep localKey connections other where
  nodup := by
    rw [keys_eq_map_view, hview, ← keys_eq_map_view]
    exact h.nodup
  agrees := forall_mem_of_map_view
    (P := fun view => view.1 ≠ localKey → (view.2 = .active ↔ view.1 ∈ connections)) hview h.agrees
  localNotBanned := h.localNotBanned.of_view hview

theorem map_view_overridden (state : StormState X D) (peers : List (Peer X)) :
    (peers.map state.overridden).map Peer.view = peers.map Peer.view := by
  rw [List.map_map]
  apply List.map_congr_left
  intro peer hpeer
  change (state.overridden peer).view = peer.view
  unfold overridden
  split <;> rfl

theorem InStep.not_connected_of_banned (h : InStep localKey connections peers) {peer : Peer X} (hpeer : peer ∈ peers)
    (hbanned : peer.status = .banned) : peer.compressedPublicKey ∉ connections := by
  intro hconnected
  by_cases hkey : peer.compressedPublicKey = localKey
  · exact h.localNotBanned peer hpeer hkey hbanned
  · have hactive := (h.agrees peer hpeer hkey).mpr hconnected
    rw [hbanned] at hactive
    cases hactive

theorem LocalNotBanned.updatePeer {key : PublicKey X} {change : Peer X → Peer X}
    (h : LocalNotBanned localKey peers)
    (hkey : ∀ peer, (change peer).compressedPublicKey = peer.compressedPublicKey)
    (hstatus : ∀ peer, (change peer).status = .banned → peer.status = .banned) :
    LocalNotBanned localKey (updatePeer key change peers) := by
  intro peer hpeer hlocal hbanned
  rcases mem_updatePeer hpeer with hpeer | ⟨old, hold, -, rfl⟩
  · exact h peer hpeer hlocal hbanned
  · exact h old hold ((hkey old).symm.trans hlocal) (hstatus old hbanned)

theorem InStep.connect {key : PublicKey X} {sender : ℕ} {address : Option String}
    (h : InStep localKey connections peers) :
    InStep localKey (connections.insert key sender) (updatePeer key (Peer.activate address) peers) where
  nodup := by
    rw [keys_updatePeer (Peer.key_activate address)]
    exact h.nodup
  agrees := by
    intro peer hpeer hremote
    rw [AList.mem_insert]
    rcases mem_updatePeer_nodup h.nodup hpeer with ⟨hpeer, hother⟩ | ⟨old, hold, hkey, rfl⟩
    · rw [h.agrees peer hpeer hremote]
      simp [hother]
    · simp [hkey]
  localNotBanned := h.localNotBanned.updatePeer (Peer.key_activate address) fun peer hbanned => by simp at hbanned

theorem InStep.connect_unlisted {key : PublicKey X} {sender : ℕ} (h : InStep localKey connections peers)
    (hunlisted : key ∉ keys peers) : InStep localKey (connections.insert key sender) peers where
  nodup := h.nodup
  agrees := by
    intro peer hpeer hremote
    have hother : peer.compressedPublicKey ≠ key := fun hkey => hunlisted (hkey ▸ List.mem_map_of_mem hpeer)
    rw [AList.mem_insert, h.agrees peer hpeer hremote]
    simp [hother]
  localNotBanned := h.localNotBanned

theorem InStep.release {key : PublicKey X} (h : InStep localKey connections peers) :
    InStep localKey (connections.erase key) (updatePeer key Peer.deactivate peers) where
  nodup := by
    rw [keys_updatePeer Peer.key_deactivate]
    exact h.nodup
  agrees := by
    intro peer hpeer hremote
    rw [AList.mem_erase]
    rcases mem_updatePeer_nodup h.nodup hpeer with ⟨hpeer, hother⟩ | ⟨old, hold, hkey, rfl⟩
    · rw [h.agrees peer hpeer hremote]
      simp [hother]
    · simp [hkey, old.deactivate_ne_active]
  localNotBanned := h.localNotBanned.updatePeer Peer.key_deactivate fun _ => Peer.deactivate_banned

omit [DecidableEq X] in
theorem InStep.shutdown (h : InStep localKey connections peers) :
    InStep localKey ∅ (peers.map Peer.deactivate) where
  nodup := by
    unfold keys
    rw [List.map_map, List.map_congr_left fun peer _ => peer.key_deactivate]
    exact h.nodup
  agrees := by
    intro peer hpeer _
    obtain ⟨old, hold, rfl⟩ := List.mem_map.mp hpeer
    exact iff_of_false old.deactivate_ne_active (AList.notMem_empty _)
  localNotBanned := by
    intro peer hpeer hlocal hbanned
    obtain ⟨old, hold, rfl⟩ := List.mem_map.mp hpeer
    exact h.localNotBanned old hold (old.key_deactivate.symm.trans hlocal) (Peer.deactivate_banned hbanned)

end Agreement

section Operations

variable {state : StormState X D}

structure Steady (state : StormState X D) : Prop where
  peers : InStep state.initializerPublicKey state.connections state.peers
  staged : LocalNotBanned state.initializerPublicKey state.migrationPeers

omit [DecidableEq X] in
/-- Nothing that the connection table is compared with has changed. -/
theorem Steady.of_view {other : StormState X D} (h : Steady state)
    (hkey : other.initializerPublicKey = state.initializerPublicKey)
    (hconnections : other.connections = state.connections)
    (hpeers : other.peers.map Peer.view = state.peers.map Peer.view)
    (hstaged : other.migrationPeers.map Peer.view = state.migrationPeers.map Peer.view) : Steady other where
  peers := by
    rw [hkey, hconnections]
    exact h.peers.of_view hpeers
  staged := by
    rw [hkey]
    exact h.staged.of_view hstaged

theorem Steady.applyAddressOverrides (h : Steady state) : Steady state.applyAddressOverrides :=
  h.of_view rfl rfl (map_view_overridden state state.peers) (map_view_overridden state state.migrationPeers)

/-- A connection is recorded after the tables were brought in step with it. -/
theorem Steady.insertConnection {key : PublicKey X} {sender : ℕ}
    (h : Steady { state with connections := state.connections.insert key sender }) :
    Steady (state.insertConnection key sender) :=
  h.of_view rfl rfl (map_view_overridden state state.peers) (map_view_overridden state state.migrationPeers)

theorem LocalNotBanned.admitMigrationPeer {key : PublicKey X} {address : Option String}
    (h : LocalNotBanned state.initializerPublicKey state.migrationPeers) :
    LocalNotBanned state.initializerPublicKey (state.admitMigrationPeer key address).migrationPeers := by
  unfold StormState.admitMigrationPeer
  split_ifs with hfound
  · exact h.updatePeer (Peer.key_activate address) fun peer hbanned => by simp at hbanned
  · intro peer hpeer hlocal
    rcases List.mem_append.mp hpeer with hpeer | hpeer
    · exact h peer hpeer hlocal
    · rw [List.mem_singleton.mp hpeer]
      exact PeerStatus.noConfusion

theorem Steady.claim (h : Steady state) {key : PublicKey X} {address : Option String} {sender : ℕ}
    {next : StormState X D} (hclaim : Claimed state key address sender next) : Steady next := by
  cases hclaim with
  | registered hfound hbanned =>
    apply Steady.insertConnection
    exact ⟨h.peers.connect, h.staged.updatePeer (Peer.key_activate address) fun peer hbanned => by simp at hbanned⟩
  | member _ hunlisted _ _ =>
    have hinitializer : (state.admitMigrationPeer key address).initializerPublicKey = state.initializerPublicKey := by
      unfold admitMigrationPeer
      split_ifs <;> rfl
    have hpeers : (state.admitMigrationPeer key address).peers = state.peers := by
      unfold admitMigrationPeer
      split_ifs <;> rfl
    have hconnections : (state.admitMigrationPeer key address).connections = state.connections := by
      unfold admitMigrationPeer
      split_ifs <;> rfl
    apply Steady.insertConnection
    constructor
    · dsimp only
      rw [hinitializer, hpeers, hconnections]
      exact h.peers.connect_unlisted (findPeer_eq_none.mp hunlisted)
    · dsimp only
      rw [hinitializer]
      exact h.staged.admitMigrationPeer
  | provisional hunlisted _ =>
    apply Steady.insertConnection
    exact ⟨h.peers.connect_unlisted (findPeer_eq_none.mp hunlisted), h.staged⟩

theorem Steady.release (h : Steady state) (key : PublicKey X) : Steady (state.releaseConnection key) :=
  ⟨h.peers.release, h.staged.updatePeer Peer.key_deactivate fun _ => Peer.deactivate_banned⟩

omit [DecidableEq X] in
theorem Steady.shutdown (h : Steady state) : Steady state.shutdown := ⟨h.peers.shutdown, h.staged⟩

theorem Steady.listen (h : Steady state) (address : String) : Steady (state.listen address) := by
  apply Steady.applyAddressOverrides
  exact h.of_view rfl rfl (map_view_updatePeer (Peer.view_updateObservedAddress address)) rfl

theorem Steady.begin [LinearOrder X] (h : Steady state) (members : Finset X) :
    Steady ((beginMemberMigration members).exec state).2 := by
  unfold beginMemberMigration
  rw [Db.exec_get_bind]
  cases hstaged : state.migrationMembers with
  | some staged =>
    dsimp only
    split_ifs <;> exact h
  | none =>
    dsimp only
    split_ifs with hunique
    · refine ⟨h.peers, fun peer hpeer hlocal => ?_⟩
      obtain ⟨hpeer, -⟩ := List.mem_filter.mp (mem_sortPeers hpeer)
      rcases List.mem_append.mp hpeer with hpeer | hpeer
      · exact h.peers.localNotBanned peer hpeer hlocal
      · exact h.staged peer hpeer hlocal
    · exact h

/-- A remote peer of the staged table is marked active exactly while it is connected. -/
def StagedInStep (state : StormState X D) : Prop :=
  Agrees state.initializerPublicKey state.connections state.migrationPeers

theorem mem_filterRows {connections : Table (PublicKey X) ℕ} {p : PublicKey X → ℕ → Bool} {key : PublicKey X} :
    key ∈ connections.filterRows p ↔ ∃ sender, connections.lookup key = some sender ∧ p key sender := by
  rw [← AList.lookup_isSome, Table.lookup_filterRows, Option.isSome_iff_exists]
  simp only [Option.filter_eq_some_iff]

theorem mem_filterRows_key {connections : Table (PublicKey X) ℕ} {p : PublicKey X → Bool} {key : PublicKey X} :
    key ∈ connections.filterRows (fun key _ => p key) ↔ key ∈ connections ∧ p key := by
  rw [mem_filterRows, ← AList.lookup_isSome, Option.isSome_iff_exists]
  constructor
  · rintro ⟨sender, hlookup, hp⟩
    exact ⟨⟨sender, hlookup⟩, hp⟩
  · rintro ⟨⟨sender, hlookup⟩, hp⟩
    exact ⟨sender, hlookup, hp⟩

theorem agrees_activated : Agrees state.initializerPublicKey state.activated.connections state.migrationPeers ↔
    StagedInStep state := by
  apply forall₂_congr
  intro peer hpeer
  have hlisted : peer.compressedPublicKey ∈ keys state.migrationPeers := List.mem_map_of_mem hpeer
  unfold activated
  rw [mem_filterRows_key]
  simp [hlisted]

omit [DecidableEq X] in
theorem nodup_keys_of_identities {peers : List (Peer X)} (h : (peers.map Peer.xOnly).Nodup) : (keys peers).Nodup := by
  apply List.Nodup.of_map PublicKey.x
  unfold keys
  rw [List.map_map]
  exact h

theorem Steady.activated (h : Steady state) (hcheck : state.checkMigrationPeers = .ok ())
    (hstaged : StagedInStep state) : Steady state.activated where
  peers := by
    obtain ⟨members, -, hunique, -⟩ := checkMigrationPeers_ok hcheck
    exact ⟨nodup_keys_of_identities hunique, agrees_activated.mpr hstaged, h.staged⟩
  staged := fun peer hpeer => nomatch hpeer

theorem Steady.replaceMigrationPeers (h : Steady state) (infos : List (ValidatedPeerSocketInfo X)) :
    Steady (state.replaceMigrationPeers infos) := by
  apply Steady.applyAddressOverrides
  refine ⟨h.peers, fun peer hpeer hlocal => ?_⟩
  obtain ⟨info, hinfo, rfl⟩ := List.mem_map.mp hpeer
  unfold migrationPeer at hlocal ⊢
  dsimp only at hlocal ⊢
  rw [if_pos hlocal]
  decide

theorem exists_existingPeer (key : PublicKey X) (peers : List (Peer X)) :
    ((existingPeer key peers).getD (Peer.new key) ∈ peers ∨
      (existingPeer key peers).getD (Peer.new key) = Peer.new key) ∧
    ((existingPeer key peers).getD (Peer.new key)).compressedPublicKey = key := by
  cases hfind : existingPeer key peers with
  | some peer =>
    obtain ⟨hmem, hkey⟩ := existingPeer_eq_some hfind
    exact ⟨Or.inl hmem, hkey⟩
  | none => exact ⟨Or.inr rfl, rfl⟩

theorem mem_retainedConnections {infos : List (ValidatedPeerSocketInfo X)} {key : PublicKey X} :
    key ∈ state.retainedConnections infos ↔ key ∈ state.connections ∧ key ∈ receivedKeys infos ∧
      key ∉ keys (state.peers.filter fun peer => peer.status = .banned) := by
  unfold retainedConnections
  rw [mem_filterRows_key (p := fun key => key ∈ receivedKeys infos &&
    key ∉ keys (state.peers.filter fun peer => peer.status = .banned)), Bool.and_eq_true, decide_eq_true_iff,
    decide_eq_true_iff]

/-- A known peer that is not banned keeps its connection when a received table lists it. -/
theorem InStep.mem_retained (h : InStep state.initializerPublicKey state.connections state.peers)
    {infos : List (ValidatedPeerSocketInfo X)} {peer : Peer X} (hpeer : peer ∈ state.peers)
    (hlisted : peer.compressedPublicKey ∈ receivedKeys infos) (hactive : peer.status = .active)
    (hremote : peer.compressedPublicKey ≠ state.initializerPublicKey) :
    peer.compressedPublicKey ∈ state.retainedConnections infos := by
  have hconnected := (h.agrees peer hpeer hremote).mp hactive
  refine mem_retainedConnections.mpr ⟨hconnected, hlisted, fun hbanned => ?_⟩
  obtain ⟨other, hother, hsame⟩ := List.mem_map.mp hbanned
  obtain ⟨hother, hstatus⟩ := List.mem_filter.mp hother
  rw [← hsame] at hconnected
  exact h.not_connected_of_banned hother (of_decide_eq_true hstatus) hconnected

section Discovered

variable {infos : List (ValidatedPeerSocketInfo X)} {sender : PublicKey X} {info : ValidatedPeerSocketInfo X}

theorem key_discoveredPeer {connections : Table (PublicKey X) ℕ} :
    (state.discoveredPeer connections sender info).compressedPublicKey = info.compressedPublicKey :=
  (exists_existingPeer info.compressedPublicKey state.peers).2

theorem discoveredPeer_active (h : InStep state.initializerPublicKey state.connections state.peers)
    (hinfo : info ∈ infos) (hremote : info.compressedPublicKey ≠ state.initializerPublicKey) :
    (state.discoveredPeer (state.retainedConnections infos) sender info).status = .active ↔
      info.compressedPublicKey ∈ state.retainedConnections infos := by
  have hlisted : info.compressedPublicKey ∈ receivedKeys infos := List.mem_map_of_mem hinfo
  obtain ⟨hold, hsame⟩ := exists_existingPeer info.compressedPublicKey state.peers
  unfold discoveredPeer
  dsimp only
  generalize (existingPeer info.compressedPublicKey state.peers).getD (Peer.new info.compressedPublicKey) = old
    at hold hsame
  rw [← hsame] at hlisted hremote ⊢
  split_ifs with hactive
  · exact iff_of_true rfl hactive.1
  · constructor
    · intro hstatus
      rcases hold with hold | hnew
      · exact h.mem_retained hold hlisted hstatus hremote
      · rw [hnew] at hstatus
        cases hstatus
    · intro hconnected
      have hbanned : old.status = .banned := by
        by_contra hbanned
        exact hactive ⟨hconnected, hremote, hbanned⟩
      rcases hold with hold | hnew
      · have hboth := mem_retainedConnections.mp hconnected
        exact absurd hboth.1 (h.not_connected_of_banned hold hbanned)
      · rw [hnew] at hbanned
        cases hbanned

theorem discoveredPeer_local (h : LocalNotBanned state.initializerPublicKey state.peers)
    {connections : Table (PublicKey X) ℕ} (hlocal : info.compressedPublicKey = state.initializerPublicKey) :
    (state.discoveredPeer connections sender info).status ≠ .banned := by
  obtain ⟨hold, hsame⟩ := exists_existingPeer info.compressedPublicKey state.peers
  unfold discoveredPeer
  dsimp only
  generalize (existingPeer info.compressedPublicKey state.peers).getD (Peer.new info.compressedPublicKey) = old
    at hold hsame
  rw [if_neg fun hactive => hactive.2.1 (hsame.trans hlocal)]
  rcases hold with hold | hnew
  · exact h old hold (hsame.trans hlocal)
  · rw [hnew]
    exact PeerStatus.noConfusion

theorem Steady.withDiscoveredPeers (h : Steady state) (hunique : ((receivedKeys infos).map PublicKey.x).Nodup) :
    Steady (state.withDiscoveredPeers infos sender) := by
  have hpeers : InStep state.initializerPublicKey (state.retainedConnections infos)
      (infos.map (state.discoveredPeer (state.retainedConnections infos) sender)) := by
    constructor
    · have hkeys : keys (infos.map (state.discoveredPeer (state.retainedConnections infos) sender)) =
          receivedKeys infos := by
        unfold keys
        rw [List.map_map]
        exact List.map_congr_left fun info _ => key_discoveredPeer
      rw [hkeys]
      exact List.Nodup.of_map PublicKey.x hunique
    · intro peer hpeer hremote
      obtain ⟨info, hinfo, rfl⟩ := List.mem_map.mp hpeer
      rw [key_discoveredPeer] at hremote ⊢
      exact discoveredPeer_active h.peers hinfo hremote
    · intro peer hpeer hlocal
      obtain ⟨info, hinfo, rfl⟩ := List.mem_map.mp hpeer
      rw [key_discoveredPeer] at hlocal
      exact discoveredPeer_local h.peers.localNotBanned hlocal
  have hreplaced : Steady { state with
      connections := state.retainedConnections infos
      peers := infos.map (state.discoveredPeer (state.retainedConnections infos) sender) } := ⟨hpeers, h.staged⟩
  exact hreplaced.applyAddressOverrides.of_view rfl rfl rfl rfl

end Discovered

theorem Steady.received (h : Steady state) {next : StormState X D} (hreceived : Received state next) :
    Steady next := by
  cases hreceived with
  | refused => exact h
  | migration _ _ => exact h.replaceMigrationPeers _
  | discovered hunique sender => exact h.withDiscoveredPeers hunique

theorem Steady.finishClientDiscovery (h : Steady state) : Steady state.finishClientDiscoveryIfConnected := by
  unfold finishClientDiscoveryIfConnected
  split_ifs
  · exact h
  · refine h.of_view rfl rfl ?_ rfl
    rw [List.map_map]
    rfl
  · exact h
  · exact h

/-- A step that does not activate a staged table keeps the tables in step, and so does an activation
whose table is in step. -/
theorem Steady.operate [LinearOrder X] {endpoint : String → Option Endpoint} (h : Steady state)
    {operation : Operation X}
    (hstaged : operation = .activateMemberMigration → state.checkMigrationPeers = .ok () → StagedInStep state) :
    Steady (state.operate endpoint operation) := by
  cases operation with
  | shutdown => exact h.shutdown
  | listen address => exact h.listen address
  | beginMemberMigration members => exact h.begin members
  | cancelMemberMigration => exact ⟨h.peers, h.staged⟩
  | activateMemberMigration =>
    unfold StormState.operate
    rcases activateMemberMigration_spec state with ⟨error, -, hexec⟩ | ⟨hcheck, hexec⟩
    · rw [hexec]
      exact h
    · rw [hexec]
      exact h.activated hcheck (hstaged rfl hcheck)
  | peersSocketInfo infos sender => exact h.received (handlePeersSocketInfo_spec endpoint infos sender)
  | finishClientDiscovery => exact h.finishClientDiscovery
  | discoveryTableBroadcast => exact h.of_view rfl rfl (map_view_updatePeer fun _ => rfl) rfl
  | setPeerAddress key address =>
    have hinserted : Steady { state with addressOverrides := state.addressOverrides.insert key address } :=
      ⟨h.peers, h.staged⟩
    exact hinserted.applyAddressOverrides
  | setPeerTableAuthority authority => exact ⟨h.peers, h.staged⟩

end Operations

section Constructors

/-- The states that a node starts from; the caller lists each key once. -/
inductive Constructed : StormState X D → Prop where
  | discovery (initializerPublicKey : PublicKey X) {registeredPeers : List (Peer X)}
      (nodup : (keys registeredPeers).Nodup) : Constructed (discovery initializerPublicKey registeredPeers)
  | discoverable {initializerPublicKey : PublicKey X} {discoveryPeer : Peer X} {state : StormState X D}
      (built : discoverable initializerPublicKey discoveryPeer = .ok state) : Constructed state
  | fromPeers (initializerPublicKey : PublicKey X) {peers : List (Peer X)} (nodup : (keys peers).Nodup) :
    Constructed (fromPeers initializerPublicKey peers)

theorem exists_stateWithLocalPeer (initializerPublicKey : PublicKey X) {peers : List (Peer X)}
    (h : (keys peers).Nodup) : ∃ listed : List (Peer X), (keys listed).Nodup ∧
      (stateWithLocalPeer initializerPublicKey peers : StormState X D) = new initializerPublicKey listed := by
  unfold stateWithLocalPeer
  split_ifs with hmem
  · exact ⟨peers, h, rfl⟩
  · exact ⟨Peer.new initializerPublicKey :: peers, List.nodup_cons.mpr ⟨hmem, h⟩, rfl⟩

theorem initialStatus_ne_active (initializerPublicKey : PublicKey X) (peer : Peer X)
    (hremote : peer.compressedPublicKey ≠ initializerPublicKey) :
    initialStatus initializerPublicKey peer ≠ .active := by
  unfold initialStatus
  rw [if_neg hremote]
  split_ifs with hbanned
  · exact PeerStatus.noConfusion
  · rw [not_not.mp hbanned]
    exact PeerStatus.noConfusion

/-- A table whose statuses were reset, before anything is connected. -/
theorem inStep_reset {initializerPublicKey : PublicKey X} {peers : List (Peer X)} {change : Peer X → Peer X}
    (hnodup : (keys peers).Nodup) (hview : ∀ peer, (change peer).view =
      (peer.compressedPublicKey, initialStatus initializerPublicKey peer)) :
    InStep initializerPublicKey ∅ (peers.map change) where
  nodup := by
    have hkeys : keys (peers.map change) = keys peers := by
      unfold keys
      rw [List.map_map]
      exact List.map_congr_left fun peer _ => congrArg Prod.fst (hview peer)
    rw [hkeys]
    exact hnodup
  agrees := by
    intro peer hpeer hremote
    obtain ⟨old, hold, rfl⟩ := List.mem_map.mp hpeer
    obtain ⟨hkey, hstatus⟩ := Prod.mk.inj (hview old)
    rw [hstatus]
    refine iff_of_false (initialStatus_ne_active initializerPublicKey old ?_) (AList.notMem_empty _)
    rwa [← hkey]
  localNotBanned := by
    intro peer hpeer hlocal
    obtain ⟨old, hold, rfl⟩ := List.mem_map.mp hpeer
    obtain ⟨hkey, hstatus⟩ := Prod.mk.inj (hview old)
    rw [hstatus]
    unfold initialStatus
    rw [if_pos (hkey.symm.trans hlocal)]
    exact PeerStatus.noConfusion

omit [DecidableEq X] in
/-- The local peer and one remote peer that is not connected. -/
theorem inStep_pair {localKey : PublicKey X} {localPeer remotePeer : Peer X}
    (hself : localPeer.compressedPublicKey = localKey) (hlocal : localPeer.status = .controlled)
    (hremote : remotePeer.status = .inactive) (hother : localKey ≠ remotePeer.compressedPublicKey) :
    InStep localKey ∅ [localPeer, remotePeer] where
  nodup := by simpa [keys, hself] using hother
  agrees := by
    intro peer hpeer hkey
    refine iff_of_false (fun hactive => ?_) (AList.notMem_empty _)
    rcases List.mem_pair.mp hpeer with rfl | rfl
    · exact hkey hself
    · rw [hremote] at hactive
      cases hactive
  localNotBanned := by
    intro peer hpeer _ hbanned
    rcases List.mem_pair.mp hpeer with rfl | rfl
    · rw [hlocal] at hbanned
      cases hbanned
    · rw [hremote] at hbanned
      cases hbanned

theorem Constructed.steady {state : StormState X D} (h : Constructed state) : Steady state := by
  cases h with
  | discovery initializerPublicKey hnodup =>
    obtain ⟨listed, hlisted, hnew⟩ := exists_stateWithLocalPeer (D := D) initializerPublicKey hnodup
    unfold StormState.discovery
    rw [hnew]
    exact ⟨inStep_reset hlisted fun _ => rfl, fun peer hpeer => nomatch hpeer⟩
  | @discoverable initializerPublicKey discoveryPeer _ hbuilt =>
    unfold StormState.discoverable at hbuilt
    split_ifs at hbuilt with hlocal haddress
    cases hbuilt
    have hother : initializerPublicKey ∉ keys [{ discoveryPeer with status := .inactive, discovery := true }] :=
      fun hmem => hlocal (List.mem_singleton.mp hmem).symm
    have hpeers : InStep initializerPublicKey ∅ [{ Peer.new initializerPublicKey with status := .controlled },
        { discoveryPeer with status := .inactive, discovery := true }] :=
      inStep_pair rfl rfl rfl (Ne.symm hlocal)
    have hfirst : (Peer.new initializerPublicKey).compressedPublicKey = initializerPublicKey := rfl
    unfold stateWithLocalPeer
    rw [if_neg hother]
    constructor
    · dsimp only
      unfold StormState.new updatePeer
      rw [if_pos hfirst]
      exact hpeers
    · exact fun peer hpeer => nomatch hpeer
  | fromPeers initializerPublicKey hnodup =>
    obtain ⟨listed, hlisted, hnew⟩ := exists_stateWithLocalPeer (D := D) initializerPublicKey hnodup
    unfold StormState.fromPeers
    rw [hnew]
    exact ⟨inStep_reset hlisted fun _ => rfl, fun peer hpeer => nomatch hpeer⟩

end Constructors

end StormState

/-- A node with the tasks of its connections, each under the key and the channel that it was started
with. -/
structure StormNode (X D : Type) where
  state : StormState X D
  tasks : List (Storm.PublicKey X × ℕ)
  nextSender : ℕ

namespace StormNode

open Storm StormState

variable {X D : Type} [DecidableEq X]

/-- A task ends with the release of its key, unless it fails or is cancelled before it gets there. -/
inductive Action (X : Type) where
  | connect (key : PublicKey X) (address : Option String)
  | finish (key : PublicKey X) (sender : ℕ) (released : Bool)
  | operate (operation : Operation X)

def start (state : StormState X D) : StormNode X D := ⟨state, [], 0⟩

def step [LinearOrder X] (endpoint : String → Option Endpoint) (node : StormNode X D) :
    Action X → StormNode X D
  | .connect key address =>
    match (claimConnection key address node.nextSender).exec node.state with
    | (.ok (), next) => ⟨next, node.tasks ++ [(key, node.nextSender)], node.nextSender + 1⟩
    | (.error _, next) => { node with state := next }
  | .finish key sender released =>
    if (key, sender) ∈ node.tasks then
      { node with
        state := if released then node.state.releaseConnection key else node.state
        tasks := node.tasks.erase (key, sender) }
    else node
  | .operate operation => { node with state := node.state.operate endpoint operation }

/-- The connection under a key is not that of the task. -/
def Superseded (node : StormNode X D) (key : PublicKey X) (sender : ℕ) : Prop :=
  ∃ newer, node.state.connections.lookup key = some newer ∧ newer ≠ sender

/-- What holds after a step: the peer table is in step with the connections, and a task whose
connection was dropped left the newer one alone. -/
structure Consistent [LinearOrder X] (endpoint : String → Option Endpoint) (node : StormNode X D)
    (action : Action X) : Prop where
  active : Agrees (node.step endpoint action).state.initializerPublicKey (node.step endpoint action).state.connections
    (node.step endpoint action).state.peers
  banned : ∀ peer ∈ (node.step endpoint action).state.peers, peer.status = .banned →
    peer.compressedPublicKey ∉ (node.step endpoint action).state.connections
  newer : ∀ key sender released, action = .finish key sender released → (key, sender) ∈ node.tasks →
    node.Superseded key sender →
      (node.step endpoint action).state.connections = node.state.connections ∧
        (node.step endpoint action).state.peers = node.state.peers

/-- No task releases the connection of another, and a table is activated when its statuses are up to
date. -/
def UpToDate (node : StormNode X D) : Action X → Prop
  | .finish key sender released => released → (key, sender) ∈ node.tasks → ¬node.Superseded key sender
  | .operate .activateMemberMigration => node.state.checkMigrationPeers = .ok () → node.state.StagedInStep
  | _ => True

variable [LinearOrder X] {endpoint : String → Option Endpoint} {node : StormNode X D} {action : Action X}

theorem steady_step (h : node.state.Steady) (hfresh : node.UpToDate action) :
    (node.step endpoint action).state.Steady := by
  cases action with
  | connect key address =>
    unfold step
    dsimp only
    rcases claimConnection_spec node.state key address node.nextSender with
      ⟨error, hexec⟩ | ⟨next, hexec, hclaim⟩
    · rw [hexec]
      exact h
    · rw [hexec]
      exact h.claim hclaim
  | finish key sender released =>
    unfold step
    dsimp only
    split_ifs with htask hreleased
    · exact h.release key
    · exact h
    · exact h
  | operate operation =>
    apply h.operate
    intro hactivate hcheck
    subst hactivate
    exact hfresh hcheck

/-- A step leaves the tables in step exactly if it meets the condition. -/
theorem consistent_iff_upToDate (h : node.state.Steady) :
    node.Consistent endpoint action ↔ node.UpToDate action := by
  constructor
  · intro hconsistent
    cases action with
    | connect key address => trivial
    | finish key sender released =>
      intro hreleased htask hsuperseded
      obtain ⟨hsame, -⟩ := hconsistent.newer key sender released rfl htask hsuperseded
      obtain ⟨newer, hnewer, -⟩ := hsuperseded
      have hgone : (node.step endpoint (.finish key sender released)).state.connections.lookup key = none := by
        unfold step
        dsimp only
        rw [if_pos htask, if_pos hreleased]
        exact AList.lookup_erase key _
      rw [hsame, hnewer] at hgone
      cases hgone
    | operate operation =>
      cases operation with
      | activateMemberMigration =>
        intro hcheck
        have hagrees := hconsistent.active
        unfold step operate at hagrees
        rcases activateMemberMigration_spec node.state with ⟨error, herror, hexec⟩ | ⟨-, hexec⟩
        · rw [hcheck] at herror
          cases herror
        · rw [hexec] at hagrees
          exact agrees_activated.mp hagrees
      | _ => trivial
  · intro hfresh
    have hsteady : (node.step endpoint action).state.Steady := steady_step h hfresh
    refine ⟨hsteady.peers.agrees, fun peer hpeer hbanned => hsteady.peers.not_connected_of_banned hpeer hbanned, ?_⟩
    rintro key sender released rfl htask hsuperseded
    have hkept : ¬(released = true) := fun hreleased => hfresh hreleased htask hsuperseded
    unfold step
    dsimp only
    rw [if_pos htask, if_neg hkept]
    exact ⟨rfl, rfl⟩

/-- In every run the tables stay in step, and a late release harms no newer connection, exactly if
every step meets the condition. -/
theorem connections_consistent (endpoint : String → Option Endpoint) {state : StormState X D}
    (h : Constructed state) (actions : List (Action X)) :
    Runs.EachStep (step endpoint) (Consistent endpoint) (start state) actions ↔
      Runs.EachStep (step endpoint) UpToDate (start state) actions :=
  Runs.EachStep.iff_of_invariant (I := fun node => node.state.Steady)
    (fun _ _ hsteady => consistent_iff_upToDate hsteady)
    (fun _ _ hsteady hfresh => steady_step hsteady hfresh) h.steady

section Example

def localKey : PublicKey ℕ := ⟨false, 1⟩

def remoteKey : PublicKey ℕ := ⟨false, 2⟩

def twoPeers : StormState ℕ (List UInt8) := fromPeers localKey [Peer.new remoteKey]

def noEndpoint (_ : String) : Option Endpoint := none

theorem constructed_twoPeers : Constructed twoPeers := .fromPeers localKey (by decide)

theorem connections_consistent_one_connection : Runs.EachStep (step noEndpoint) (Consistent noEndpoint) (start twoPeers)
    [.connect remoteKey none, .finish remoteKey 0 true] := by
  apply (connections_consistent noEndpoint constructed_twoPeers _).mpr
  refine ⟨trivial, fun _ _ hsuperseded => ?_, trivial⟩
  obtain ⟨newer, hlookup, hother⟩ := hsuperseded
  have hown : ((start twoPeers).step noEndpoint (.connect remoteKey none)).state.connections.lookup remoteKey = some 0 := by
    decide
  rw [hown] at hlookup
  exact hother (Option.some.inj hlookup).symm

/-- A peer connects, the node shuts down and starts again, and the peer connects again before the task
of its first connection has ended. -/
def lateRelease : List (Action ℕ) :=
  [.connect remoteKey none, .operate .shutdown, .connect remoteKey none]

/-- The task of the first connection then removes the second one. -/
theorem late_release_drops_newer_connection :
    Constructed twoPeers ∧ ¬∀ actions, Runs.EachStep (step noEndpoint) (Consistent noEndpoint) (start twoPeers) actions := by
  refine ⟨constructed_twoPeers, fun hclaim => ?_⟩
  have hlast := (hclaim (lateRelease ++ [.finish remoteKey 0 true])).last
  have hnewer : (lateRelease.foldl (step noEndpoint) (start twoPeers)).state.connections.lookup remoteKey = some 1 := by
    decide
  have hkept := (hlast.newer remoteKey 0 true rfl (by decide) ⟨1, hnewer, by decide⟩).1
  have hgone : ((lateRelease ++ [Action.finish remoteKey 0 true]).foldl (step noEndpoint) (start twoPeers)).state.connections.lookup
      remoteKey = none := by decide
  rw [List.foldl_append, List.foldl_cons, List.foldl_nil, hkept, hnewer] at hgone
  cases hgone

end Example

end StormNode

end PriceOracle
