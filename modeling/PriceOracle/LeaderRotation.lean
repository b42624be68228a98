import PriceOracle.Rotations
import PriceOracle.StormMigration

/-!
# The leader of a block

`leader.rs`: the members lead in the order of the bytes of their keys, one a block.
-/

namespace PriceOracle

open Storm

namespace Leader

section Model

variable {X : Type} [DecidableEq X] [LinearOrder X]

/-- The keys of a table of peers in their order, each once. -/
def members (peers : List (Peer X)) : List (PublicKey X) :=
  ((keys peers).mergeSort PublicKey.le).destutter fun a b => a ≠ b

/-- The source divides by the number of members, which is never 0 in the table of a node. -/
def leaderForHeight (peers : List (Peer X)) (blockHeight : ℕ) : Option (PublicKey X) :=
  (members peers)[blockHeight % (members peers).length]?

def localPublicKey (peers : List (Peer X)) : Option (PublicKey X) :=
  (peers.find? fun peer => peer.status = .controlled).map Peer.compressedPublicKey

def isLocalLeader (peers : List (Peer X)) (blockHeight : ℕ) : Bool :=
  localPublicKey peers = leaderForHeight peers blockHeight

def nextLocalLeaderHeight (peers : List (Peer X)) (blockHeight : ℕ) : Option ℕ := do
  let localKey ← localPublicKey peers
  let localIndex ← (members peers).findIdx? fun member => member = localKey
  let memberCount := (members peers).length
  let offset := (localIndex + memberCount - blockHeight % memberCount) % memberCount
  if blockHeight + offset < 2 ^ 64 then some (blockHeight + offset) else none

end Model

section Members

variable {X : Type} [DecidableEq X] [LinearOrder X] {peers others : List (Peer X)} {key : PublicKey X}

/-- The members are the peers that are sorted for a migration, by their keys. -/
theorem members_eq (peers : List (Peer X)) : members peers = keys (sortPeers peers) := by
  have hsort : (peers.mergeSort fun a b => a.compressedPublicKey.le b.compressedPublicKey).map Peer.compressedPublicKey =
      (keys peers).mergeSort PublicKey.le := List.map_mergeSort fun _ _ _ _ => rfl
  have hdistinct : ∀ l : List (Peer X), (l.destutter fun a b => a.compressedPublicKey ≠ b.compressedPublicKey).map
      Peer.compressedPublicKey = (l.map Peer.compressedPublicKey).destutter fun a b => a ≠ b := by
    intro l
    apply List.map_destutter
    intro a _ b _
    exact Iff.rfl
  unfold members sortPeers
  rw [← hsort]
  exact (hdistinct _).symm

theorem mem_members : key ∈ members peers ↔ key ∈ keys peers := by
  rw [members_eq]
  exact mem_keys_sortPeers

theorem nodup_members (peers : List (Peer X)) : (members peers).Nodup := by
  rw [members_eq]
  exact nodup_keys_sortPeers

theorem members_sorted (peers : List (Peer X)) : (members peers).Pairwise fun a b => a.bytes < b.bytes := by
  rw [members_eq]
  exact List.pairwise_map.mpr sortPeers_sorted

/-- The members depend on who they are only. -/
theorem members_congr (hsame : ∀ key, key ∈ keys others ↔ key ∈ keys peers) : members others = members peers := by
  have hperm : (members others).Perm (members peers) := by
    refine (List.perm_ext_iff_of_nodup (nodup_members others) (nodup_members peers)).mpr fun key => ?_
    rw [mem_members, mem_members]
    exact hsame key
  refine List.Perm.eq_of_pairwise ?_ (members_sorted others) (members_sorted peers) hperm
  intro a b _ _ hab hba
  exact absurd (hab.trans hba) (lt_irrefl _)

theorem length_members (peers : List (Peer X)) : (members peers).length = (keys peers).toFinset.card := by
  rw [← List.toFinset_card_of_nodup (nodup_members peers)]
  congr 1
  ext key
  rw [List.mem_toFinset, List.mem_toFinset, mem_members]

theorem leaderForHeight_eq_turn (peers : List (Peer X)) (blockHeight : ℕ) :
    leaderForHeight peers blockHeight = Rotation.turn (members peers) blockHeight := rfl

omit [DecidableEq X] [LinearOrder X] in
theorem mem_of_localPublicKey (h : localPublicKey peers = some key) : key ∈ keys peers := by
  obtain ⟨peer, hpeer, rfl⟩ := Option.map_eq_some_iff.mp h
  exact List.mem_map_of_mem (List.mem_of_find?_eq_some hpeer)

theorem isLocalLeader_iff {blockHeight : ℕ} (hlocal : localPublicKey peers = some key) :
    isLocalLeader peers blockHeight = true ↔ leaderForHeight peers blockHeight = some key := by
  unfold isLocalLeader
  rw [decide_eq_true_eq, hlocal, eq_comm]

theorem nextLocalLeaderHeight_eq {blockHeight index : ℕ} (hlocal : localPublicKey peers = some key)
    (hindex : (members peers)[index]? = some key) : nextLocalLeaderHeight peers blockHeight =
      if blockHeight + Rotation.wait (members peers).length index blockHeight < 2 ^ 64 then
        some (blockHeight + Rotation.wait (members peers).length index blockHeight)
      else none := by
  have hfound : ((members peers).findIdx? fun member => member = key) = some index := by
    obtain ⟨hlt, hget⟩ := List.getElem?_eq_some_iff.mp hindex
    refine List.findIdx?_eq_some_iff_getElem.mpr ⟨hlt, decide_eq_true hget, fun j hj => ?_⟩
    have hother : (members peers)[j] ≠ key := by
      rw [← hget]
      intro heq
      exact absurd ((List.Nodup.getElem_inj_iff (nodup_members peers)).mp heq) (Nat.ne_of_lt hj)
    simp [hother]
  unfold nextLocalLeaderHeight
  rw [hlocal]
  change (((members peers).findIdx? fun member => member = key).bind _) = _
  rw [hfound]
  rfl

end Members

section Leadership

variable {X : Type} [DecidableEq X] [LinearOrder X] {peers : List (Peer X)} {key : PublicKey X}

/-- Every node of a network has the same leader at a height, whatever else its table says, so no two of them lead;
every member leads one block of a round, and a node's next block is the first that it leads. -/
theorem leadership_rotates (hlocal : localPublicKey peers = some key) (blockHeight : ℕ) :
    (∀ others : List (Peer X), (∀ other, other ∈ keys others ↔ other ∈ keys peers) →
      (∀ height, leaderForHeight others height = leaderForHeight peers height) ∧
        ∀ other, localPublicKey others = some other → other ≠ key →
          ∀ height, isLocalLeader peers height = true → isLocalLeader others height = false) ∧
    (∀ member ∈ keys peers, ∃! height, blockHeight ≤ height ∧ height < blockHeight + (keys peers).toFinset.card ∧
      leaderForHeight peers height = some member) ∧
    ∀ next, nextLocalLeaderHeight peers blockHeight = some next ↔
      next < 2 ^ 64 ∧ IsLeast {height | blockHeight ≤ height ∧ isLocalLeader peers height = true} next := by
  refine ⟨fun others hsame => ?_, fun member hmember => ?_, fun next => ?_⟩
  · have hagree : ∀ height, leaderForHeight others height = leaderForHeight peers height := by
      intro height
      rw [leaderForHeight_eq_turn, members_congr hsame, leaderForHeight_eq_turn]
    refine ⟨hagree, fun other hother hne height hleads => ?_⟩
    rw [← Bool.not_eq_true, isLocalLeader_iff hother, hagree]
    rw [isLocalLeader_iff hlocal] at hleads
    rw [hleads]
    exact fun h => hne (Option.some.inj h).symm
  · rw [← length_members]
    exact Rotation.existsUnique_turn (nodup_members peers) (mem_members.mpr hmember) blockHeight
  · obtain ⟨index, hindex⟩ := List.getElem?_of_mem (mem_members.mpr (mem_of_localPublicKey hlocal))
    have hleast : IsLeast {height | blockHeight ≤ height ∧ isLocalLeader peers height = true}
        (blockHeight + Rotation.wait (members peers).length index blockHeight) := by
      simp only [isLocalLeader_iff hlocal, leaderForHeight_eq_turn]
      exact Rotation.isLeast_turn (nodup_members peers) hindex
    rw [nextLocalLeaderHeight_eq hlocal hindex]
    constructor
    · intro h
      split_ifs at h with hlt
      obtain rfl := Option.some.inj h
      exact ⟨hlt, hleast⟩
    · rintro ⟨hlt, hnext⟩
      obtain rfl := hleast.unique hnext
      exact if_pos hlt

/-- Three members, of whom the second in order is the node. -/
def threePeers : List (Peer ℕ) :=
  [⟨⟨false, 3⟩, none, none, .banned, false⟩, ⟨⟨false, 2⟩, none, none, .controlled, false⟩, ⟨⟨false, 1⟩, none, none, .active, false⟩]

theorem members_threePeers : members threePeers = [⟨false, 1⟩, ⟨false, 2⟩, ⟨false, 3⟩] := by
  simp +decide [members, keys, threePeers, List.mergeSort, List.MergeSort.Internal.splitInTwo, PublicKey.le, List.destutter]

theorem nextLocalLeaderHeight_threePeers : nextLocalLeaderHeight threePeers 2 = some 4 := by
  have hsecond : (members threePeers)[1]? = some ⟨false, 2⟩ := by
    rw [members_threePeers]
    rfl
  rw [nextLocalLeaderHeight_eq (rfl : localPublicKey threePeers = some ⟨false, 2⟩) hsecond, members_threePeers]
  rfl

/-- The next block of that node after the second. -/
theorem leadership_rotates_three :
    IsLeast {height | 2 ≤ height ∧ isLocalLeader threePeers height = true} 4 :=
  (((leadership_rotates (rfl : localPublicKey threePeers = some ⟨false, 2⟩) 2).2.2 4).mp nextLocalLeaderHeight_threePeers).2

end Leadership

end Leader

end PriceOracle
