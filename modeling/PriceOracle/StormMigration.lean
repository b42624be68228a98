import Mathlib.Data.Prod.Lex
import PriceOracle.StormConnections

/-!
# The staged migration table

Membership is checked by x coordinate, the tables are keyed by compressed key. The staged
table stays well formed as long as each member is known under one encoding of its key.
-/

namespace PriceOracle

namespace Storm

variable {X : Type}

section SortedPeers

/-- What is sorted is strictly sorted when its neighbours differ. -/
theorem pairwise_lt_of_isChain_ne {A K : Type} [LinearOrder K] {key : A → K} {l : List A}
    (hsorted : l.Pairwise fun a b => key a ≤ key b) (hdistinct : l.IsChain fun a b => key a ≠ key b) :
    l.Pairwise fun a b => key a < key b := by
  induction l with
  | nil => exact List.Pairwise.nil
  | cons a l ih =>
    obtain ⟨hfirst, hrest⟩ := List.pairwise_cons.mp hsorted
    refine List.pairwise_cons.mpr ⟨?_, ih hrest hdistinct.tail⟩
    cases l with
    | nil => exact fun b hb => nomatch hb
    | cons b l =>
      have hnext : key a < key b :=
        lt_of_le_of_ne (hfirst b List.mem_cons_self) (List.isChain_cons_cons.mp hdistinct).1
      intro c hc
      rcases List.mem_cons.mp hc with rfl | hc
      · exact hnext
      · exact hnext.trans_le ((List.pairwise_cons.mp hrest).1 c hc)

/-- The bytes of a key, in their order. -/
def PublicKey.bytes (key : PublicKey X) : Bool ×ₗ X := toLex (key.odd, key.x)

theorem PublicKey.bytes_injective : Function.Injective (@bytes X) := by
  rintro ⟨odd, x⟩ ⟨odd', x'⟩ h
  cases h
  rfl

variable [DecidableEq X] [LinearOrder X] {peers : List (Peer X)}

omit [DecidableEq X] in
theorem PublicKey.le_iff {a b : PublicKey X} : a.le b ↔ a.bytes ≤ b.bytes := by
  unfold le bytes
  rw [Prod.Lex.toLex_le_toLex]
  simp

/-- Candidates are listed under ascending keys. -/
theorem sortPeers_sorted : (sortPeers peers).Pairwise fun a b =>
    a.compressedPublicKey.bytes < b.compressedPublicKey.bytes := by
  have hsorted : (peers.mergeSort fun a b => a.compressedPublicKey.le b.compressedPublicKey).Pairwise
      fun a b => a.compressedPublicKey.bytes ≤ b.compressedPublicKey.bytes := by
    apply List.Pairwise.imp PublicKey.le_iff.mp
    apply List.pairwise_mergeSort
    · intro a b c hab hbc
      exact PublicKey.le_iff.mpr ((PublicKey.le_iff.mp hab).trans (PublicKey.le_iff.mp hbc))
    · intro a b
      rw [Bool.or_eq_true, PublicKey.le_iff, PublicKey.le_iff]
      exact le_total _ _
  apply pairwise_lt_of_isChain_ne
  · exact List.Pairwise.sublist (List.destutter_sublist _ _) hsorted
  · apply List.IsChain.imp _ (List.isChain_destutter _ _)
    intro a b hother hsame
    exact hother (PublicKey.bytes_injective hsame)

theorem nodup_keys_sortPeers : (keys (sortPeers peers)).Nodup := by
  apply List.pairwise_map.mpr
  apply List.Pairwise.imp _ sortPeers_sorted
  intro a b hlt hsame
  rw [hsame] at hlt
  exact lt_irrefl _ hlt

omit [LinearOrder X] in
theorem mem_keys_destutter {key : PublicKey X} {first : Peer X} (h : key ∈ keys (first :: peers)) :
    key ∈ keys (peers.destutter' (fun a b => a.compressedPublicKey ≠ b.compressedPublicKey) first) := by
  induction peers generalizing first with
  | nil => exact h
  | cons second peers ih =>
    rw [List.destutter'_cons]
    split_ifs with hother
    · rcases List.mem_cons.mp h with rfl | h
      · exact List.mem_cons_self
      · exact List.mem_cons_of_mem _ (ih h)
    · apply ih
      rw [not_not] at hother
      rcases List.mem_cons.mp h with rfl | h
      · exact List.mem_cons_self
      · rcases List.mem_cons.mp h with rfl | h
        · rw [← hother]
          exact List.mem_cons_self
        · exact List.mem_cons_of_mem _ h

/-- Every candidate is listed, once. -/
theorem mem_keys_sortPeers {key : PublicKey X} : key ∈ keys (sortPeers peers) ↔ key ∈ keys peers := by
  constructor
  · intro h
    obtain ⟨peer, hpeer, rfl⟩ := List.mem_map.mp h
    exact List.mem_map_of_mem (mem_sortPeers hpeer)
  · intro h
    have hsorted : key ∈ keys (peers.mergeSort fun a b => a.compressedPublicKey.le b.compressedPublicKey) := by
      obtain ⟨peer, hpeer, rfl⟩ := List.mem_map.mp h
      exact List.mem_map_of_mem (List.mem_mergeSort.mpr hpeer)
    unfold sortPeers
    cases hlist : peers.mergeSort fun a b => a.compressedPublicKey.le b.compressedPublicKey with
    | nil =>
      rw [hlist] at hsorted
      cases hsorted
    | cons first rest =>
      rw [hlist] at hsorted
      exact mem_keys_destutter hsorted

end SortedPeers

/-- Each of the members is listed under one key at most. -/
def OneEncoding (members : Finset X) (peers : List (Peer X)) : Prop :=
  ∀ a ∈ peers, ∀ b ∈ peers, a.xOnly ∈ members → a.xOnly = b.xOnly → a.compressedPublicKey = b.compressedPublicKey

theorem map_xOnly (peers : List (Peer X)) : peers.map Peer.xOnly = (keys peers).map PublicKey.x := by
  unfold keys
  rw [List.map_map]
  rfl

end Storm

namespace StormState

open Storm

variable {X D : Type} [DecidableEq X] {state : StormState X D}

section Valid

/-- While a migration is staged its table holds each identity once, and target members only. -/
def StagedValid (state : StormState X D) : Prop :=
  state.migrationMembers.isSome → state.migrationPeerIdentitiesValid

theorem stagedValid_iff : state.StagedValid ↔ ∀ members, state.migrationMembers = some members →
    ((keys state.migrationPeers).map PublicKey.x).Nodup ∧
      ∀ key ∈ keys state.migrationPeers, key.x ∈ members := by
  have hsubset : ∀ members, identities state.migrationPeers ⊆ members ↔
      ∀ key ∈ keys state.migrationPeers, key.x ∈ members := by
    intro members
    unfold identities
    rw [map_xOnly, Finset.subset_iff]
    simp
  unfold StagedValid
  cases hstaged : state.migrationMembers with
  | none => simp
  | some members =>
    rw [migrationPeerIdentitiesValid_iff hstaged, map_xOnly, hsubset]
    simp

/-- The staged table depends on the keys that it lists. -/
theorem StagedValid.of_keys {other : StormState X D} (h : state.StagedValid)
    (hmembers : other.migrationMembers = state.migrationMembers)
    (hkeys : keys other.migrationPeers = keys state.migrationPeers) : other.StagedValid := by
  rw [stagedValid_iff] at h ⊢
  rw [hmembers, hkeys]
  exact h

theorem stagedValid_of_none (h : state.migrationMembers = none) : state.StagedValid := by
  intro hstaged
  rw [h] at hstaged
  cases hstaged

theorem keys_overridden (peers : List (Peer X)) : keys (peers.map state.overridden) = keys peers := by
  rw [keys_eq_map_view, map_view_overridden, ← keys_eq_map_view]

theorem candidates_unique_iff [LinearOrder X] {members : Finset X} :
    peerIdentitiesUnique (state.candidates members) ↔
      OneEncoding members (state.peers ++ state.migrationPeers) := by
  rw [peerIdentitiesUnique_iff, map_xOnly]
  unfold candidates
  rw [List.nodup_map_iff_inj_on nodup_keys_sortPeers]
  simp only [mem_keys_sortPeers]
  constructor
  · intro h a ha b hb hmember hsame
    have hlisted : ∀ peer ∈ state.peers ++ state.migrationPeers, peer.xOnly ∈ members →
        peer.compressedPublicKey ∈
          keys ((state.peers ++ state.migrationPeers).filter fun peer => peer.xOnly ∈ members) :=
      fun peer hpeer hmember => List.mem_map_of_mem (List.mem_filter.mpr ⟨hpeer, decide_eq_true hmember⟩)
    exact h _ (hlisted a ha hmember) _ (hlisted b hb (hsame ▸ hmember)) hsame
  · intro h keyA hA keyB hB hsame
    obtain ⟨a, ha, rfl⟩ := List.mem_map.mp hA
    obtain ⟨b, hb, rfl⟩ := List.mem_map.mp hB
    obtain ⟨ha, hmember⟩ := List.mem_filter.mp ha
    exact h a ha b (List.mem_filter.mp hb).1 (of_decide_eq_true hmember) hsame

theorem stagedValid_candidates [LinearOrder X] {members : Finset X}
    (h : peerIdentitiesUnique (state.candidates members)) :
    { state with migrationPeers := state.candidates members, migrationMembers := some members }.StagedValid := by
  apply stagedValid_iff.mpr
  intro staged hstaged
  cases hstaged
  constructor
  · rw [← map_xOnly]
    exact nodup_of_peerIdentitiesUnique h
  · intro key hkey
    obtain ⟨peer, hpeer, rfl⟩ := List.mem_map.mp (mem_keys_sortPeers.mp hkey)
    exact of_decide_eq_true (List.mem_filter.mp hpeer).2

end Valid

section Steps

/-- A staged member connects that neither table lists under its key. -/
def Joins (state : StormState X D) (key : PublicKey X) : Prop :=
  key ∉ state.connections ∧ key ∉ keys state.peers ∧ state.migrationContains key ∧
    state.provisionalConnections < maxProvisionalConnections ∧ key ∉ keys state.migrationPeers

theorem keys_admitMigrationPeer {key : PublicKey X} {address : Option String} :
    keys (state.admitMigrationPeer key address).migrationPeers =
      if key ∈ keys state.migrationPeers then keys state.migrationPeers else keys state.migrationPeers ++ [key] := by
  unfold admitMigrationPeer
  cases hfind : findPeer key state.migrationPeers with
  | none =>
    rw [if_neg (findPeer_eq_none.mp hfind)]
    unfold keys
    exact List.map_append
  | some peer =>
    obtain ⟨hpeer, rfl⟩ := findPeer_eq_some hfind
    have hlisted : peer.compressedPublicKey ∈ keys state.migrationPeers := List.mem_map_of_mem hpeer
    rw [if_pos hlisted]
    exact keys_updatePeer (Peer.key_activate address)

/-- An accepted connection lists its key in the staged table exactly if it joins. -/
theorem Claimed.keys {key : PublicKey X} {address : Option String} {sender : ℕ} {next : StormState X D}
    (h : Claimed state key address sender next) :
    next.migrationMembers = state.migrationMembers ∧
      ((¬state.Joins key ∧ keys next.migrationPeers = keys state.migrationPeers) ∨
        (state.Joins key ∧ keys next.migrationPeers = keys state.migrationPeers ++ [key])) := by
  cases h with
  | registered hfound _ =>
    refine ⟨rfl, Or.inl ⟨fun hjoins => ?_, ?_⟩⟩
    · obtain ⟨hpeer, rfl⟩ := findPeer_eq_some hfound
      exact hjoins.2.1 (List.mem_map_of_mem hpeer)
    · exact (keys_overridden _).trans (keys_updatePeer (Peer.key_activate address))
  | member hfree hunlisted hroom hcontained =>
    have hmembers : (state.admitMigrationPeer key address).migrationMembers = state.migrationMembers := by
      unfold admitMigrationPeer
      split_ifs <;> rfl
    have hkeys : Storm.keys ((state.admitMigrationPeer key address).insertConnection key sender).migrationPeers =
        Storm.keys (state.admitMigrationPeer key address).migrationPeers := keys_overridden _
    refine ⟨hmembers, ?_⟩
    rw [hkeys, keys_admitMigrationPeer]
    split_ifs with hlisted
    · exact Or.inl ⟨fun hjoins => hjoins.2.2.2.2 hlisted, rfl⟩
    · exact Or.inr ⟨⟨hfree, findPeer_eq_none.mp hunlisted, hcontained, hroom, hlisted⟩, rfl⟩
  | provisional _ hother =>
    exact ⟨rfl, Or.inl ⟨fun hjoins => hother hjoins.2.2.1, keys_overridden _⟩⟩

theorem Joins.accepted {key : PublicKey X} (h : state.Joins key) (address : Option String) (sender : ℕ) :
    ∃ next, (claimConnection key address sender).exec state = (.ok (), next) := by
  obtain ⟨hfree, hunlisted, hcontains, hroom, -⟩ := h
  have haccepts : ¬¬state.acceptsUnregisteredConnection key := by
    unfold acceptsUnregisteredConnection
    rw [hcontains]
    simp
  unfold claimConnection
  rw [Db.exec_get_bind, if_neg hfree, findPeer_eq_none.mpr hunlisted]
  dsimp only
  rw [if_neg haccepts, if_neg (Nat.not_le.mpr hroom), if_pos hcontains]
  exact ⟨_, rfl⟩

end Steps

section Checks

theorem checkMigrationPeers_ne (h : state.StagedValid) :
    state.checkMigrationPeers ≠ .error .invalidMigrationPeerTable := by
  unfold checkMigrationPeers
  split_ifs with hstaged hvalid hready hmatches
  · exact fun herror => by cases herror
  · exact fun herror => by cases herror
  · exact fun herror => by cases herror
  · -- a table that is ready or complete names the members
    have hready' : state.migrationReady = false := by
      unfold migrationReady
      rw [Bool.and_eq_false_iff]
      exact Or.inl (Bool.eq_false_of_not_eq_true hmatches)
    have hcomplete : state.migrationTableComplete = false := by
      unfold migrationTableComplete
      rw [Bool.and_eq_false_iff]
      exact Or.inl (Bool.eq_false_of_not_eq_true hmatches)
    rw [hready', hcomplete] at hready
    simp at hready
  · exact absurd (h (Option.isSome_iff_ne_none.mpr hstaged)) hvalid

theorem memberMigrationPeers_ne (h : state.StagedValid) :
    state.memberMigrationPeers ≠ .error .invalidMigrationPeerTable := by
  unfold memberMigrationPeers
  have hcheck := checkMigrationPeers_ne h
  cases hresult : state.checkMigrationPeers with
  | ok _ => exact fun herror => nomatch herror
  | error error =>
    rw [hresult] at hcheck
    exact fun herror => hcheck (congrArg Except.error (Except.error.inj herror))

theorem activateMemberMigration_ne (h : state.StagedValid) :
    (activateMemberMigration.exec state).1 ≠ .error .invalidMigrationPeerTable := by
  have hcheck := checkMigrationPeers_ne h
  rcases activateMemberMigration_spec state with ⟨error, hresult, hexec⟩ | ⟨-, hexec⟩
  · rw [hexec]
    rw [hresult] at hcheck
    exact fun herror => hcheck (congrArg Except.error (Except.error.inj herror))
  · rw [hexec]
    exact fun herror => nomatch herror

theorem keys_replaceMigrationPeers (infos : List (ValidatedPeerSocketInfo X)) :
    keys (state.replaceMigrationPeers infos).migrationPeers = receivedKeys infos := by
  have hpeers : keys (infos.map state.migrationPeer) = receivedKeys infos := by
    unfold keys
    rw [List.map_map]
    exact List.map_congr_left fun info _ => (exists_existingPeer info.compressedPublicKey state.migrationPeers).2
  exact (keys_overridden _).trans hpeers

theorem StagedValid.received (h : state.StagedValid) {next : StormState X D} (hreceived : Received state next) :
    next.StagedValid := by
  cases hreceived with
  | refused => exact h
  | @migration infos hunique hmembers =>
    apply stagedValid_iff.mpr
    rw [keys_replaceMigrationPeers]
    intro members hstaged
    have hsame : (state.replaceMigrationPeers infos).migrationMembers = state.migrationMembers := rfl
    rw [hsame] at hstaged
    rw [hstaged] at hmembers
    refine ⟨hunique, fun key hkey => ?_⟩
    rcases hmembers with hnone | hmembers
    · cases hnone
    · rw [Option.some.inj hmembers]
      exact List.mem_toFinset.mpr (List.mem_map_of_mem hkey)
  | discovered _ _ => exact h.of_keys rfl (keys_overridden _)

theorem StagedValid.claim (h : state.StagedValid) {key : PublicKey X} {address : Option String} {sender : ℕ}
    {next : StormState X D} (hclaim : Claimed state key address sender next) :
    next.StagedValid ↔ (state.Joins key → key.x ∉ identities state.migrationPeers) := by
  obtain ⟨hmembers, ⟨hjoins, hkeys⟩ | ⟨hjoins, hkeys⟩⟩ := hclaim.keys
  · exact iff_of_true (h.of_keys hmembers hkeys) fun hjoins' => absurd hjoins' hjoins
  · obtain ⟨members, hstaged, hmember⟩ := (Option.any_eq_true _ _).mp hjoins.2.2.1
    obtain ⟨hnodup, hlisted⟩ := stagedValid_iff.mp h members hstaged
    have hjoined : ((keys state.migrationPeers ++ [key]).map PublicKey.x).Nodup ↔
        key.x ∉ identities state.migrationPeers := by
      unfold identities
      rw [map_xOnly, List.mem_toFinset, List.map_append, List.map_singleton, ← List.concat_eq_append,
        List.nodup_concat]
      exact and_iff_left hnodup
    rw [stagedValid_iff, hmembers, hstaged, hkeys]
    constructor
    · intro hvalid _
      exact hjoined.mp (hvalid members rfl).1
    · intro hfresh members' hsame
      cases hsame
      refine ⟨hjoined.mpr (hfresh hjoins), fun key' hkey' => ?_⟩
      rcases List.mem_append.mp hkey' with hkey' | hkey'
      · exact hlisted key' hkey'
      · rw [List.mem_singleton.mp hkey']
        exact of_decide_eq_true hmember

end Checks

section Runs

/-- A connection that is claimed or released, a change of the state, or a look at the staged table. -/
inductive MigrationAction (X : Type) where
  | claim (key : PublicKey X) (address : Option String) (sender : ℕ)
  | release (key : PublicKey X)
  | operate (operation : Operation X)
  | memberMigrationPeers

variable [LinearOrder X] {endpoint : String → Option Endpoint}

def migrationStep (endpoint : String → Option Endpoint) (state : StormState X D) :
    MigrationAction X → StormState X D
  | .claim key address sender => ((claimConnection key address sender).exec state).2
  | .release key => state.releaseConnection key
  | .operate operation => state.operate endpoint operation
  | .memberMigrationPeers => state

/-- An operation fails because of the staged table. -/
def FailsByTable (state : StormState X D) : MigrationAction X → Prop
  | .operate (.beginMemberMigration members) =>
    ((beginMemberMigration members).exec state).1 = .error .invalidMigrationPeerTable
  | .operate .activateMemberMigration => (activateMemberMigration.exec state).1 = .error .invalidMigrationPeerTable
  | .memberMigrationPeers => state.memberMigrationPeers = .error .invalidMigrationPeerTable
  | _ => False

/-- A table with one entry for each target member, and connections to them only. -/
structure Migrated (state next : StormState X D) (table : List (Peer X)) : Prop where
  peers : next.peers = table
  members : ∃ members, state.migrationMembers = some members ∧ (table.map Peer.xOnly).Nodup ∧
    identities table = members
  connections : ∀ key ∈ next.connections, key ∈ keys table

/-- What is to hold of every step. -/
structure TableKept (endpoint : String → Option Endpoint) (state : StormState X D) (action : MigrationAction X) :
    Prop where
  valid : (state.migrationStep endpoint action).StagedValid
  accepted : ¬state.FailsByTable action
  activated : ∀ table, action = .operate .activateMemberMigration →
    (activateMemberMigration.exec state).1 = .ok table → Migrated state (state.migrationStep endpoint action) table

/-- A member that joins is not in the staged table under the other encoding of its key, and a migration
is staged when the known peers list each member under one key. -/
def KnownOnce (state : StormState X D) : MigrationAction X → Prop
  | .claim key _ _ => state.Joins key → key.x ∉ identities state.migrationPeers
  | .operate (.beginMemberMigration members) =>
    state.migrationMembers = none → OneEncoding members (state.peers ++ state.migrationPeers)
  | _ => True

/-- A migration is staged, unless the known peers list a member under two keys. -/
theorem beginMemberMigration_spec (h : state.StagedValid) (members : Finset X) :
    ((beginMemberMigration members).exec state).2.StagedValid ∧
      (((beginMemberMigration members).exec state).1 = .error .invalidMigrationPeerTable ↔
        state.migrationMembers = none ∧ ¬OneEncoding members (state.peers ++ state.migrationPeers)) := by
  rw [← candidates_unique_iff]
  unfold beginMemberMigration
  rw [Db.exec_get_bind]
  cases hstaged : state.migrationMembers with
  | some staged =>
    dsimp only
    have hvalid : state.migrationPeerIdentitiesValid := by
      apply h
      rw [hstaged]
      rfl
    split_ifs
    · exact ⟨h, iff_of_false (fun herror => by cases herror) fun hnone => by cases hnone.1⟩
    · exact ⟨h, iff_of_false (fun herror => by cases herror) fun hnone => by cases hnone.1⟩
  | none =>
    dsimp only
    split_ifs with hunique
    · exact ⟨stagedValid_candidates hunique, iff_of_false (fun herror => by cases herror) fun hnone => hnone.2 hunique⟩
    · exact ⟨h, iff_of_true rfl ⟨rfl, hunique⟩⟩

/-- A step keeps the staged table well formed if it meets the condition. -/
theorem stagedValid_step (h : state.StagedValid) {action : MigrationAction X} (honce : state.KnownOnce action) :
    (state.migrationStep endpoint action).StagedValid := by
  cases action with
  | claim key address sender =>
    unfold migrationStep
    dsimp only
    rcases claimConnection_spec state key address sender with ⟨error, hexec⟩ | ⟨next, hexec, hclaim⟩
    · rw [hexec]
      exact h
    · rw [hexec]
      exact (h.claim hclaim).mpr honce
  | release key => exact h.of_keys rfl (keys_updatePeer Peer.key_deactivate)
  | memberMigrationPeers => exact h
  | operate operation =>
    unfold migrationStep operate
    cases operation with
    | shutdown => exact h.of_keys rfl rfl
    | listen address => exact h.of_keys rfl (keys_overridden _)
    | beginMemberMigration members => exact (beginMemberMigration_spec h members).1
    | cancelMemberMigration => exact stagedValid_of_none rfl
    | activateMemberMigration =>
      dsimp only
      rcases activateMemberMigration_spec state with ⟨error, -, hexec⟩ | ⟨-, hexec⟩
      · rw [hexec]
        exact h
      · rw [hexec]
        exact stagedValid_of_none rfl
    | peersSocketInfo infos sender => exact h.received (handlePeersSocketInfo_spec endpoint infos sender)
    | finishClientDiscovery =>
      dsimp only
      unfold finishClientDiscoveryIfConnected
      split_ifs <;> exact h.of_keys rfl rfl
    | discoveryTableBroadcast => exact h.of_keys rfl rfl
    | setPeerAddress key address => exact h.of_keys rfl (keys_overridden _)
    | setPeerTableAuthority authority => exact h.of_keys rfl rfl

theorem migrated_activate {table : List (Peer X)} (h : (activateMemberMigration.exec state).1 = .ok table) :
    Migrated state (state.migrationStep endpoint (.operate .activateMemberMigration)) table := by
  unfold migrationStep operate
  dsimp only
  rcases activateMemberMigration_spec state with ⟨error, -, hexec⟩ | ⟨hcheck, hexec⟩
  · rw [hexec] at h
    cases h
  · rw [hexec] at h ⊢
    cases h
    refine ⟨rfl, checkMigrationPeers_ok hcheck, fun key hkey => ?_⟩
    exact of_decide_eq_true (mem_filterRows_key.mp hkey).2

/-- No operation fails because of a well formed table, unless a migration is staged over a member with
two keys. -/
theorem failsByTable_iff (h : state.StagedValid) {action : MigrationAction X} (hclaim : ∀ key address sender,
    action ≠ .claim key address sender) : ¬state.FailsByTable action ↔ state.KnownOnce action := by
  cases action with
  | claim key address sender => exact absurd rfl (hclaim key address sender)
  | release key => exact iff_of_true id trivial
  | memberMigrationPeers => exact iff_of_true (memberMigrationPeers_ne h) trivial
  | operate operation =>
    cases operation with
    | beginMemberMigration members =>
      unfold FailsByTable KnownOnce
      dsimp only
      rw [(beginMemberMigration_spec h members).2, not_and, not_not]
    | activateMemberMigration => exact iff_of_true (activateMemberMigration_ne h) trivial
    | _ => exact iff_of_true id trivial

theorem tableKept_iff (h : state.StagedValid) (action : MigrationAction X) :
    TableKept endpoint state action ↔ state.KnownOnce action := by
  constructor
  · intro hkept
    cases action with
    | claim key address sender =>
      intro hjoins
      have hvalid := hkept.valid
      unfold migrationStep at hvalid
      dsimp only at hvalid
      rcases claimConnection_spec state key address sender with ⟨error, hexec⟩ | ⟨next, hexec, hclaim⟩
      · obtain ⟨next, haccepted⟩ := hjoins.accepted address sender
        rw [haccepted] at hexec
        cases hexec
      · rw [hexec] at hvalid
        exact (h.claim hclaim).mp hvalid hjoins
    | _ =>
      apply (failsByTable_iff h _).mp hkept.accepted
      intro key address sender hclaim
      cases hclaim
  · intro honce
    refine ⟨stagedValid_step h honce, ?_, ?_⟩
    · cases action with
      | claim key address sender => exact id
      | _ =>
        apply (failsByTable_iff h _).mpr honce
        intro key address sender hclaim
        cases hclaim
    · rintro table rfl hactivated
      exact migrated_activate hactivated

/-- In every run the staged table stays well formed, lets no operation fail and is activated as it should
be, exactly if every step meets the condition. A node starts as a new state of some table. -/
theorem staged_table_kept (endpoint : String → Option Endpoint) (initializerPublicKey : PublicKey X)
    (peers : List (Peer X)) (actions : List (MigrationAction X)) :
    Runs.EachStep (migrationStep endpoint) (TableKept endpoint)
        (new initializerPublicKey peers : StormState X D) actions ↔
      Runs.EachStep (migrationStep endpoint) KnownOnce (new initializerPublicKey peers : StormState X D) actions :=
  Runs.EachStep.iff_of_invariant (fun _ action hvalid => tableKept_iff hvalid action)
    (fun _ _ hvalid honce => stagedValid_step hvalid honce) (stagedValid_of_none rfl)

end Runs

section Example

open StormNode

def joiningKey : PublicKey ℕ := ⟨false, 2⟩

def oppositeKey : PublicKey ℕ := ⟨true, 2⟩

def localOnly : StormState ℕ (List UInt8) := new localKey [Peer.new localKey]

def staged : StormState ℕ (List UInt8) :=
  { localOnly with migrationPeers := [Peer.new localKey], migrationMembers := some {1, 2} }

theorem begin_localOnly :
    localOnly.migrationStep noEndpoint (.operate (.beginMemberMigration {1, 2})) = staged := by
  have hcandidates : localOnly.candidates {1, 2} = [Peer.new localKey] := by
    have hfilter : (localOnly.peers ++ localOnly.migrationPeers).filter (fun peer => peer.xOnly ∈ ({1, 2} : Finset ℕ)) =
        [Peer.new localKey] := by decide
    unfold candidates sortPeers
    rw [hfilter, List.mergeSort_singleton]
    rfl
  unfold migrationStep operate beginMemberMigration
  dsimp only
  rw [Db.exec_get_bind]
  have hnone : localOnly.migrationMembers = none := rfl
  rw [hnone]
  dsimp only
  rw [hcandidates]
  rfl

/-- A staged member connects under one key and then under the other. -/
theorem second_key_breaks_table : ¬∀ actions, Runs.EachStep (migrationStep noEndpoint) (TableKept noEndpoint)
    localOnly actions := by
  intro hclaim
  have hlast := (hclaim [.operate (.beginMemberMigration {1, 2}), .claim joiningKey none 0,
    .claim oppositeKey none 1]).2.2.1.valid
  rw [begin_localOnly] at hlast
  exact absurd (hlast (by decide)) (by decide)

end Example

end StormState

end PriceOracle
