import PriceOracle.MarkerCodecs
import PriceOracle.StormState
import PriceOracle.VotingNode
import PriceOracle.VotingReshape

/-!
# The members after an update

The set that a member update leads to is computed when an approved vote is staged
(`voting.rs`), when the migration is activated (`mod.rs`) and when its transaction is built
(`voting_execution.rs`). Sets of keys are lists in ascending order. For a vote that passes
`validate_request` the three agree.
-/

namespace PriceOracle.MemberUpdate

open Markers (sortedKeys ascending)
open VotingReshape (removeMember acceptMember)

/-- `BTreeSet::insert` of a key. -/
def insertKey (members : List Bytes32) (key : Bytes32) : List Bytes32 :=
  if key ∈ members then members else members.orderedInsert (fun a b => a.toList ≤ b.toList) key

/-- The removals one by one, then the accepted keys. -/
def updatedMembers (current : List Bytes32) (update : UpdateNetworkMembers) : List Bytes32 :=
  update.toAccept.foldl insertKey (update.toRemove.foldl List.erase current)

/-- `member_keys`, also `voting_member_keys`: the x-only keys of the table. -/
def memberKeys (peers : List (Storm.Peer Bytes32)) : List Bytes32 := Voting.keySet (peers.map Storm.Peer.xOnly)

/-- `stage_member_migration` up to the call of `begin_member_migration`: the members it is given. -/
def stageMemberMigration (peers : List (Storm.Peer Bytes32)) (request : NetworkVoteRequest) :
    Except VotingError (Option (List Bytes32)) := do
  let update ← Voting.decoded (UpdateNetworkMembers.codec.fromBytes request.payload)
  let currentMembers := memberKeys peers
  let members := updatedMembers currentMembers update
  if members = currentMembers then return none else return some members

def memberMigrationTarget (request : NetworkVoteRequest) (currentMembers : List Bytes32) :
    Except VotingExecutionError (Option (List Bytes32)) :=
  if NetworkVoteKind.fromId request.kind ≠ some .updateNetworkMembers then .ok none
  else do
    let update ← VotingReshape.decoded (UpdateNetworkMembers.codec.fromBytes request.payload)
    return some (updatedMembers currentMembers update)

section KeySets

theorem ascending_keySet (keys : List Bytes32) : (Voting.keySet keys).Pairwise fun a b => a.toList < b.toList :=
  Markers.pairwise_of_ascending (Markers.ascending_sortedKeys keys)

theorem mem_keySet {keys : List Bytes32} {key : Bytes32} : key ∈ Voting.keySet keys ↔ key ∈ keys :=
  Markers.mem_sortedKeys

theorem nodup_of_pairwise {keys : List Bytes32} (h : keys.Pairwise fun a b => a.toList < b.toList) : keys.Nodup := by
  refine h.imp fun {a b} hlt heq => ?_
  rw [heq] at hlt
  exact List.lt_irrefl _ hlt

theorem nodup_keySet (keys : List Bytes32) : (Voting.keySet keys).Nodup := List.nodup_dedup _

theorem perm_keySet {keys : List Bytes32} (h : keys.Nodup) : (Voting.keySet keys).Perm keys := by
  have hperm := List.perm_insertionSort (fun a b : Bytes32 => a.toList ≤ b.toList) keys
  rw [Voting.keySet, List.dedup_eq_self.mpr (hperm.nodup_iff.mpr h)]
  exact hperm

/-- A list of keys is free of repetitions when its set is as long. -/
theorem nodup_of_length_keySet {keys : List Bytes32} (h : (Voting.keySet keys).length = keys.length) : keys.Nodup := by
  have hperm := List.perm_insertionSort (fun a b : Bytes32 => a.toList ≤ b.toList) keys
  have hsub := List.dedup_sublist (keys.insertionSort fun a b => a.toList ≤ b.toList)
  have heq := hsub.eq_of_length (by rw [hperm.length_eq]; exact h)
  exact hperm.nodup_iff.mp (List.dedup_eq_self.mp heq)

/-- Two sets in ascending order with the same keys are the same list. -/
theorem eq_keySet {members keys : List Bytes32} (hmembers : members.Pairwise fun a b => a.toList < b.toList)
    (h : ∀ key, key ∈ members ↔ key ∈ keys) : members = Voting.keySet keys := by
  have hirrefl : Std.Irrefl fun a b : Bytes32 => a.toList < b.toList := ⟨fun a => List.lt_irrefl a.toList⟩
  have hantisymm : Std.Antisymm fun a b : Bytes32 => a.toList < b.toList :=
    ⟨fun a b hab hba => absurd (List.lt_trans hab hba) (List.lt_irrefl _)⟩
  exact hmembers.eq_of_mem_iff (ascending_keySet keys) fun key => (h key).trans mem_keySet.symm

theorem mem_insertKey {members : List Bytes32} {key other : Bytes32} :
    other ∈ insertKey members key ↔ other = key ∨ other ∈ members := by
  unfold insertKey
  split_ifs with h
  · exact ⟨.inr, fun hor => hor.elim (fun heq => heq ▸ h) id⟩
  · exact List.mem_orderedInsert _

theorem ascending_insertKey {members : List Bytes32} {key : Bytes32}
    (h : members.Pairwise fun a b => a.toList < b.toList) :
    (insertKey members key).Pairwise fun a b => a.toList < b.toList := by
  unfold insertKey
  split_ifs with hkey
  · exact h
  · have hle : (members.orderedInsert (fun a b => a.toList ≤ b.toList) key).Pairwise fun a b => a.toList ≤ b.toList :=
      (h.imp fun hlt => List.le_of_lt hlt).orderedInsert key members
    have hnodup : (members.orderedInsert (fun a b => a.toList ≤ b.toList) key).Nodup :=
      (List.perm_orderedInsert _ key members).nodup_iff.mpr (List.nodup_cons.mpr ⟨hkey, nodup_of_pairwise h⟩)
    refine (hle.and hnodup).imp fun {a b} hab => List.not_le.mp fun hba => hab.2 ?_
    exact Vector.toList_inj.mp (List.le_antisymm hab.1 hba)

theorem length_insertKey {members : List Bytes32} {key : Bytes32} (h : key ∉ members) :
    (insertKey members key).length = members.length + 1 := by
  rw [insertKey, if_neg h, List.orderedInsert_length]

end KeySets

section Folds

theorem mem_foldl_insertKey {keys : List Bytes32} : ∀ {members : List Bytes32} {key : Bytes32},
    key ∈ keys.foldl insertKey members ↔ key ∈ members ∨ key ∈ keys := by
  induction keys with
  | nil => simp
  | cons head keys ih =>
    intro members key
    rw [List.foldl_cons, ih, mem_insertKey, List.mem_cons]
    tauto

theorem ascending_foldl_insertKey {keys : List Bytes32} : ∀ {members : List Bytes32},
    (members.Pairwise fun a b => a.toList < b.toList) →
    (keys.foldl insertKey members).Pairwise fun a b => a.toList < b.toList := by
  induction keys with
  | nil => exact fun h => h
  | cons head keys ih => exact fun h => ih (ascending_insertKey h)

theorem ascending_foldl_erase {keys : List Bytes32} : ∀ {members : List Bytes32},
    (members.Pairwise fun a b => a.toList < b.toList) →
    (keys.foldl List.erase members).Pairwise fun a b => a.toList < b.toList := by
  induction keys with
  | nil => exact fun h => h
  | cons head keys ih => exact fun h => ih (h.sublist List.erase_sublist)

theorem mem_foldl_erase {members keys : List Bytes32} {key : Bytes32} (h : members.Nodup) :
    key ∈ keys.foldl List.erase members ↔ key ∈ members ∧ key ∉ keys := by
  rw [← List.diff_eq_foldl]
  exact h.mem_sdiff_iff

/-- Members that are there are removed one by one. -/
theorem foldlM_removeMember {keys : List Bytes32} : ∀ {members : List Bytes32}, members.Nodup → keys.Nodup →
    (∀ key ∈ keys, key ∈ members) →
    keys.foldlM removeMember members = .ok (keys.foldl List.erase members) ∧
      (keys.foldl List.erase members).length + keys.length = members.length := by
  induction keys with
  | nil => exact fun _ _ _ => ⟨rfl, rfl⟩
  | cons key keys ih =>
    intro members hmembers hkeys hsub
    have hkey := hsub key List.mem_cons_self
    have hrest : ∀ other ∈ keys, other ∈ members.erase key := fun other hother =>
      hmembers.mem_erase_iff.mpr ⟨fun heq => (List.nodup_cons.mp hkeys).1 (heq ▸ hother), hsub other (.tail _ hother)⟩
    obtain ⟨hrun, hlength⟩ := ih (hmembers.erase key) (List.nodup_cons.mp hkeys).2 hrest
    have hstep : removeMember members key = .ok (members.erase key) := if_pos hkey
    refine ⟨?_, ?_⟩
    · rw [List.foldlM_cons, hstep]
      exact hrun
    · have herase := List.length_erase_of_mem hkey
      have hpos := List.length_pos_of_mem hkey
      rw [List.foldl_cons, List.length_cons]
      omega

/-- Keys that are not there are accepted one by one. -/
theorem foldlM_acceptMember {keys : List Bytes32} : ∀ {members : List Bytes32}, keys.Nodup →
    (∀ key ∈ keys, key ∉ members) →
    keys.foldlM acceptMember members = .ok (keys.foldl insertKey members) ∧
      (keys.foldl insertKey members).length = members.length + keys.length := by
  induction keys with
  | nil => exact fun _ _ => ⟨rfl, rfl⟩
  | cons key keys ih =>
    intro members hkeys hfresh
    have hkey := hfresh key List.mem_cons_self
    have hrest : ∀ other ∈ keys, other ∉ insertKey members key := fun other hother hmem =>
      (mem_insertKey.mp hmem).elim (fun heq => (List.nodup_cons.mp hkeys).1 (heq ▸ hother))
        (hfresh other (.tail _ hother))
    obtain ⟨hrun, hlength⟩ := ih (List.nodup_cons.mp hkeys).2 hrest
    have hstep : acceptMember members key = .ok (insertKey members key) := by
      rw [acceptMember, insertKey, if_neg hkey, if_neg hkey]
    refine ⟨?_, ?_⟩
    · rw [List.foldlM_cons, hstep]
      exact hrun
    · rw [List.foldl_cons, hlength, length_insertKey hkey, List.length_cons]
      omega

end Folds

section Requests

variable {C : VotingCrypto}

theorem decoded_ok {A : Type} {result : Option A} {a : A} : Voting.decoded result = .ok a ↔ result = some a := by
  cases result with
  | none => simp [Voting.decoded]
  | some b => simp [Voting.decoded]

theorem checkedUniqueKeys_ok {keys set : List Bytes32} {label : String}
    (h : Voting.checkedUniqueKeys C keys label = .ok set) : set = Voting.keySet keys ∧ keys.Nodup := by
  unfold Voting.checkedUniqueKeys at h
  split_ifs at h with hkeys hlength
  exact ⟨(Except.ok.inj h).symm, nodup_of_length_keySet (not_not.mp hlength)⟩

/-- What a member update that passes the checks of its structure looks like. -/
theorem validateRequestStructure_ok {request : NetworkVoteRequest}
    (hkind : NetworkVoteKind.fromId request.kind = some .updateNetworkMembers)
    (h : Voting.validateRequestStructure C request = .ok ()) :
    ∃ update, UpdateNetworkMembers.codec.fromBytes request.payload = some update ∧ update.toAccept.Nodup ∧
      update.toRemove.Nodup ∧ (update.toAccept ≠ [] ∨ update.toRemove ≠ []) ∧
      ∀ key ∈ update.toAccept, key ∉ update.toRemove := by
  unfold Voting.validateRequestStructure at h
  rw [hkind] at h
  obtain ⟨update, hupdate, h⟩ := Db.except_bind_ok.mp h
  obtain ⟨accepted, haccepted, h⟩ := Db.except_bind_ok.mp h
  obtain ⟨removed, hremoved, h⟩ := Db.except_bind_ok.mp h
  obtain ⟨rfl, hnodup⟩ := checkedUniqueKeys_ok haccepted
  obtain ⟨rfl, hnodup'⟩ := checkedUniqueKeys_ok hremoved
  refine ⟨update, decoded_ok.mp hupdate, hnodup, hnodup', ?_, fun key haccept hremove => ?_⟩
  · by_contra hempty
    push Not at hempty
    rw [hempty.1, hempty.2, if_pos ⟨rfl, rfl⟩] at h
    cases h
  · split_ifs at h with hempty
    have hboth : key ∈ (Voting.keySet update.toAccept).filter fun key => decide (key ∈ Voting.keySet update.toRemove) :=
      List.mem_filter.mpr ⟨mem_keySet.mpr haccept, decide_eq_true (mem_keySet.mpr hremove)⟩
    rw [List.head?_eq_some_head (List.ne_nil_of_mem hboth)] at h
    cases h

/-- An update as the checks against the current members let it through. -/
structure Accepted (peers : List Bytes32) (coordinator : Bytes32) (update : UpdateNetworkMembers) : Prop where
  nodup_toAccept : update.toAccept.Nodup
  nodup_toRemove : update.toRemove.Nodup
  changes : update.toAccept ≠ [] ∨ update.toRemove ≠ []
  disjoint : ∀ key ∈ update.toAccept, key ∉ update.toRemove
  fresh : ∀ key ∈ update.toAccept, key ∉ Voting.keySet peers
  known : ∀ key ∈ update.toRemove, key ∈ Voting.keySet peers
  coordinator_stays : coordinator ∉ update.toRemove
  remaining : 3 + update.toRemove.length ≤ (Voting.keySet peers).length + update.toAccept.length

theorem accepted_of_validateRequest {peers : List Bytes32} {coordinator : Bytes32} {request : NetworkVoteRequest}
    (hkind : NetworkVoteKind.fromId request.kind = some .updateNetworkMembers)
    (h : Voting.validateRequest C peers coordinator request = .ok ()) :
    ∃ update, UpdateNetworkMembers.codec.fromBytes request.payload = some update ∧
      Accepted peers coordinator update := by
  unfold Voting.validateRequest at h
  obtain ⟨hstructure, h⟩ := then_ok.mp h
  obtain ⟨update, hupdate, hnodup, hnodup', hchanges, hdisjoint⟩ := validateRequestStructure_ok hkind hstructure
  rw [if_neg (not_not.mpr hkind)] at h
  obtain ⟨other, hother, h⟩ := Db.except_bind_ok.mp h
  rw [decoded_ok, hupdate, Option.some_inj] at hother
  subst hother
  dsimp only at h
  have hfresh : ∀ key ∈ update.toAccept, key ∉ Voting.keySet peers := by
    intro key hkey hmem
    have hboth : key ∈ (Voting.keySet update.toAccept).filter fun key => decide (key ∈ Voting.keySet peers) :=
      List.mem_filter.mpr ⟨mem_keySet.mpr hkey, decide_eq_true hmem⟩
    rw [List.head?_eq_some_head (List.ne_nil_of_mem hboth)] at h
    cases h
  have hnone : ((Voting.keySet update.toAccept).filter fun key => decide (key ∈ Voting.keySet peers)) = [] :=
    List.filter_eq_nil_iff.mpr fun key hkey => by simpa using hfresh key (mem_keySet.mp hkey)
  rw [hnone, List.head?_nil] at h
  dsimp only at h
  have hknown : ∀ key ∈ update.toRemove, key ∈ Voting.keySet peers := by
    intro key hkey
    by_contra hmem
    have hboth : key ∈ (Voting.keySet update.toRemove).filter fun key => decide (key ∉ Voting.keySet peers) :=
      List.mem_filter.mpr ⟨mem_keySet.mpr hkey, decide_eq_true hmem⟩
    rw [List.head?_eq_some_head (List.ne_nil_of_mem hboth)] at h
    cases h
  have hnone' : ((Voting.keySet update.toRemove).filter fun key => decide (key ∉ Voting.keySet peers)) = [] :=
    List.filter_eq_nil_iff.mpr fun key hkey => by simpa using hknown key (mem_keySet.mp hkey)
  rw [hnone', List.head?_nil] at h
  dsimp only at h
  split_ifs at h with hcoordinator hremaining
  rw [(perm_keySet hnodup).length_eq, (perm_keySet hnodup').length_eq] at hremaining
  exact ⟨update, hupdate, hnodup, hnodup', hchanges, hdisjoint, hfresh, hknown,
    fun hmem => hcoordinator (mem_keySet.mpr hmem), by omega⟩

end Requests

section Target

variable {peers : List Bytes32} {coordinator : Bytes32} {update : UpdateNetworkMembers}

theorem ascending_updatedMembers (current : List Bytes32) (h : current.Pairwise fun a b => a.toList < b.toList)
    (update : UpdateNetworkMembers) : (updatedMembers current update).Pairwise fun a b => a.toList < b.toList :=
  ascending_foldl_insertKey (ascending_foldl_erase h)

/-- The union with the accepted keys less the removed ones, in whatever order a key enters. -/
theorem Accepted.updatedMembers_eq (h : Accepted peers coordinator update) :
    updatedMembers (Voting.keySet peers) update =
      Voting.keySet ((peers ++ update.toAccept).filter fun key => decide (key ∉ update.toRemove)) := by
  refine eq_keySet (ascending_updatedMembers _ (ascending_keySet peers) update) fun key => ?_
  rw [updatedMembers, mem_foldl_insertKey, mem_foldl_erase (nodup_keySet peers), mem_keySet, List.mem_filter,
    List.mem_append, decide_eq_true_eq]
  constructor
  · rintro (⟨hcurrent, hkept⟩ | haccepted)
    · exact ⟨.inl hcurrent, hkept⟩
    · exact ⟨.inr haccepted, h.disjoint key haccepted⟩
  · rintro ⟨hcurrent | haccepted, hkept⟩
    · exact .inl ⟨hcurrent, hkept⟩
    · exact .inr haccepted

theorem Accepted.mem_updatedMembers (h : Accepted peers coordinator update) (key : Bytes32) :
    key ∈ updatedMembers (Voting.keySet peers) update ↔
      (key ∈ peers ∨ key ∈ update.toAccept) ∧ key ∉ update.toRemove := by
  rw [h.updatedMembers_eq, mem_keySet, List.mem_filter, List.mem_append, decide_eq_true_eq]

/-- The checked removals and insertions of `decode_operation` go through. -/
theorem Accepted.checked (h : Accepted peers coordinator update) :
    (do
      let kept ← update.toRemove.foldlM removeMember (Voting.keySet peers)
      update.toAccept.foldlM acceptMember kept) = .ok (updatedMembers (Voting.keySet peers) update) ∧
      3 ≤ (updatedMembers (Voting.keySet peers) update).length := by
  obtain ⟨hremove, hkept⟩ := foldlM_removeMember (nodup_keySet peers) h.nodup_toRemove h.known
  have hfresh : ∀ key ∈ update.toAccept, key ∉ update.toRemove.foldl List.erase (Voting.keySet peers) :=
    fun key hkey hmem => h.fresh key hkey ((mem_foldl_erase (nodup_keySet peers)).mp hmem).1
  obtain ⟨haccept, hlength⟩ := foldlM_acceptMember h.nodup_toAccept hfresh
  refine ⟨?_, ?_⟩
  · rw [hremove]
    exact haccept
  · have hremaining := h.remaining
    rw [updatedMembers, hlength]
    omega

theorem Accepted.updatedMembers_ne (h : Accepted peers coordinator update) :
    updatedMembers (Voting.keySet peers) update ≠ Voting.keySet peers := by
  intro heq
  have hmem : ∀ key, key ∈ Voting.keySet peers ↔ (key ∈ peers ∨ key ∈ update.toAccept) ∧ key ∉ update.toRemove :=
    fun key => by rw [← heq]; exact h.mem_updatedMembers key
  rcases h.changes with hchange | hchange
  · obtain ⟨key, hkey⟩ := List.exists_mem_of_ne_nil _ hchange
    exact h.fresh key hkey ((hmem key).mpr ⟨.inr hkey, h.disjoint key hkey⟩)
  · obtain ⟨key, hkey⟩ := List.exists_mem_of_ne_nil _ hchange
    exact ((hmem key).mp (h.known key hkey)).2 hkey

theorem decodeOperation_update {W : Type} (programs : VotingPrograms W) {message : Bytes}
    {request : NetworkVoteRequest} {current members : List Bytes32} (hstored : Voting.storedRequest message = some request)
    (hkind : NetworkVoteKind.fromId request.kind = some .updateNetworkMembers)
    (hupdate : UpdateNetworkMembers.codec.fromBytes request.payload = some update)
    (hchecked : (do
      let kept ← update.toRemove.foldlM removeMember current
      update.toAccept.foldlM acceptMember kept) = .ok members) :
    VotingReshape.decodeOperation programs message current =
      (programs.memberRoot members).map (ReshapeOperation.updateMembers members) := by
  obtain ⟨nodeMessage, hmessage, hrequest⟩ := Option.bind_eq_some_iff.mp hstored
  obtain ⟨kept, hkept, haccepted⟩ := Db.except_bind_ok.mp hchecked
  unfold VotingReshape.decodeOperation
  rw [hmessage]
  simp only [VotingReshape.decoded, Except.bind, bind, hrequest, hkind, hupdate, hkept, haccepted]
  cases programs.memberRoot members <;> rfl

end Target

/-- For a member update that passes `validate_request`, staging, activation and execution arrive at the
same members, the union with the accepted keys less the removed ones: a new set of at least three,
in which the coordinator stays if it was there. Execution fails only where the Storm Tree does. -/
theorem targets_agree {W : Type} (C : VotingCrypto) (programs : VotingPrograms W) (peers : List (Storm.Peer Bytes32))
    (coordinator : Bytes32) (message : Bytes) (request : NetworkVoteRequest)
    (hstored : Voting.storedRequest message = some request)
    (hkind : NetworkVoteKind.fromId request.kind = some .updateNetworkMembers)
    (hvalid : Voting.validateRequest C (peers.map Storm.Peer.xOnly) coordinator request = .ok ()) :
    ∃ update, UpdateNetworkMembers.codec.fromBytes request.payload = some update ∧
      let target := Voting.keySet ((peers.map Storm.Peer.xOnly ++ update.toAccept).filter
        fun key => decide (key ∉ update.toRemove))
      stageMemberMigration peers request = .ok (some target) ∧
      memberMigrationTarget request (memberKeys peers) = .ok (some target) ∧
      VotingReshape.decodeOperation programs message (memberKeys peers) =
        (programs.memberRoot target).map (ReshapeOperation.updateMembers target) ∧
      3 ≤ target.length ∧ target ≠ memberKeys peers ∧ (coordinator ∈ memberKeys peers → coordinator ∈ target) := by
  obtain ⟨update, hupdate, h⟩ := accepted_of_validateRequest hkind hvalid
  obtain ⟨hchecked, hlength⟩ := h.checked
  have hne := h.updatedMembers_ne
  have hmem := h.mem_updatedMembers coordinator
  have hexecuted := decodeOperation_update programs hstored hkind hupdate hchecked
  refine ⟨update, hupdate, ?_⟩
  rw [← h.updatedMembers_eq]
  refine ⟨?_, ?_, hexecuted, hlength, hne, fun hcoordinator => ?_⟩
  · unfold stageMemberMigration
    rw [hupdate]
    exact if_neg hne
  · unfold memberMigrationTarget
    rw [if_neg (not_not.mpr hkind), hupdate]
    rfl
  · exact hmem.mpr ⟨.inl (mem_keySet.mp hcoordinator), h.coordinator_stays⟩

section Example

def peer (n : UInt8) : Storm.Peer Bytes32 := Storm.Peer.new ⟨false, VotingNode.key n⟩

/-- A fourth member joins. -/
def joinRequest : NetworkVoteRequest := (VotingInstruction.updateNetworkMembers ⟨[VotingNode.key 4], []⟩).request

def joinMessage : Bytes := NodeMessage.codec.encode (NodeMessage.newVotingRequest joinRequest 100)

theorem ok_of_isOk {E : Type} {result : Except E Unit} (h : result.isOk = true) : result = .ok () := by
  cases result with
  | ok => rfl
  | error => cases h

/-- The fourth member joins under member 1 as the coordinator. -/
theorem targets_agree_join : stageMemberMigration [peer 3, peer 1, peer 2] joinRequest =
    .ok (some [VotingNode.key 1, VotingNode.key 2, VotingNode.key 3, VotingNode.key 4]) := by
  obtain ⟨update, hupdate, hstage, -⟩ := targets_agree VotingNode.plainCrypto
    (⟨0, fun _ => 0, fun _ => VotingNode.key 0, fun _ => .ok 0, fun _ _ => .ok [], fun _ => .ok 0,
      fun _ _ _ => .ok []⟩ : VotingPrograms ℕ) [peer 3, peer 1, peer 2] (VotingNode.key 1) joinMessage joinRequest
    (by decide +kernel) (by decide +kernel) (ok_of_isOk (by decide +kernel))
  have hdecoded : UpdateNetworkMembers.codec.fromBytes joinRequest.payload = some ⟨[VotingNode.key 4], []⟩ := by
    decide +kernel
  rw [hupdate, Option.some_inj] at hdecoded
  rw [hstage, hdecoded]
  exact congrArg (fun members => Except.ok (some members)) (by decide +kernel)

/-- A coordinator outside the table is in no set that a vote leads to. -/
theorem coordinator_not_checked : ¬∀ (C : VotingCrypto) (peers : List (Storm.Peer Bytes32)) (coordinator : Bytes32)
    (request : NetworkVoteRequest) (target : List Bytes32), 3 ≤ (memberKeys peers).length →
      NetworkVoteKind.fromId request.kind = some .updateNetworkMembers →
      Voting.validateRequest C (peers.map Storm.Peer.xOnly) coordinator request = .ok () →
      stageMemberMigration peers request = .ok (some target) → coordinator ∈ target := by
  intro hclaim
  have hmem := hclaim VotingNode.plainCrypto [peer 1, peer 2, peer 3] (VotingNode.key 9) joinRequest
    [VotingNode.key 1, VotingNode.key 2, VotingNode.key 3, VotingNode.key 4] (by decide +kernel) (by decide +kernel)
    (ok_of_isOk (by decide +kernel)) ?_
  · exact absurd hmem (by decide +kernel)
  · have hdecoded : UpdateNetworkMembers.codec.fromBytes joinRequest.payload = some ⟨[VotingNode.key 4], []⟩ := by
      decide +kernel
    unfold stageMemberMigration
    rw [hdecoded]
    exact congrArg (fun members => Except.ok (some members)) (by decide +kernel)

end Example

end PriceOracle.MemberUpdate
