import PriceOracle.SigningIsolation
import PriceOracle.StormTreeQuorum

/-!
# The members behind a signing run

Only `refresh_members` changes who the members are, and it keeps the tree and the
members in step, so the signers of every branch are members with valid keys.
-/

namespace PriceOracle

namespace Signing

variable {W T : Type} [LinearOrder W] {M : Musig W T}

/-- The secret key that a node signs with, its full key made even. -/
def evenKey (M : Musig W T) (secretKey : M.SecretKey) : M.SecretKey :=
  if (M.xOnlyPublicKey secretKey).2 then M.negate secretKey else secretKey

section SameMembers

/-- What only `refresh_members` changes. -/
structure SameMembers (state state' : SigningState M) : Prop where
  secretKey : state'.secretKey = state.secretKey
  localNode : state'.localNode = state.localNode
  tree : state'.tree = state.tree
  members : state'.memberTransportKeys = state.memberTransportKeys

theorem SameMembers.refl (state : SigningState M) : SameMembers state state := ⟨rfl, rfl, rfl, rfl⟩

theorem Frame.sameMembers {state state' : SigningState M} {requestHash : W}
    (h : Frame state state' requestHash) : SameMembers state state' :=
  ⟨h.secretKey, h.localNode, h.tree, h.members⟩

theorem startSession_sameMembers (state : SigningState M) (now : ℕ) (requestHash requestor : W)
    (request : SigningRequest W) (completion : Option ℕ) :
    SameMembers state (state.startSession now requestHash requestor request completion).1 := by
  have hout := startSession_outcome state now requestHash requestor request completion
  generalize state.startSession now requestHash requestor request completion = out at hout ⊢
  cases hout with
  | dropped r hr => exact ⟨rfl, rfl, rfl, rfl⟩
  | watches signers hnew hsigners hlocal => exact ⟨rfl, rfl, rfl, rfl⟩
  | signs signers secrets publics hnew hsigners hlocal hkeys hnonces => exact ⟨rfl, rfl, rfl, rfl⟩

theorem removeExpiredSessions_sameMembers (state : SigningState M) (now : ℕ) :
    SameMembers state (state.removeExpiredSessions now) := by
  rw [SigningState.removeExpiredSessions]
  generalize (state.sessions.toList.filter _).map Prod.fst = expired
  induction expired generalizing state with
  | nil => exact SameMembers.refl state
  | cons requestHash expired ih =>
    have hone : SameMembers state (state.expireSession requestHash) := by
      rw [SigningState.expireSession]
      cases state.sessions[requestHash]? <;> exact ⟨rfl, rfl, rfl, rfl⟩
    obtain ⟨hkey, hnode, htree, hmembers⟩ := ih (state.expireSession requestHash)
    exact ⟨hkey.trans hone.secretKey, hnode.trans hone.localNode, htree.trans hone.tree,
      hmembers.trans hone.members⟩

end SameMembers

section Configured

variable {Sig : Type} [DecidableEq T] (J : Jets W Sig)

/-- The node's own keys never change, and its tree is always that of its members. -/
structure Configured (secretKey : M.SecretKey) (state : SigningState M) : Prop where
  secretKey_eq : state.secretKey = evenKey M secretKey
  localNode_eq : state.localNode = (M.xOnlyPublicKey secretKey).1
  tree : ∀ tree, state.tree = some tree →
    StormTree.new J M.keyApi state.memberTransportKeys.keys = .ok tree

variable {J} {secretKey : M.SecretKey} {state state' : SigningState M}

omit [DecidableEq T] in
theorem Configured.sameMembers (h : Configured J secretKey state) (hs : SameMembers state state') :
    Configured J secretKey state' where
  secretKey_eq := hs.secretKey.trans h.secretKey_eq
  localNode_eq := hs.localNode.trans h.localNode_eq
  tree := by
    rw [hs.tree, hs.members]
    exact h.tree

theorem Configured.refreshMembers (h : Configured J secretKey state) (peers : List T) :
    Configured J secretKey (state.refreshMembers J peers).1 := by
  rw [SigningState.refreshMembers]
  cases SigningState.peerKeys (M := M) peers with
  | error e => exact h
  | ok keys =>
    simp only
    by_cases hsame : keys.toList = state.memberTransportKeys.toList
    · rw [if_pos hsame]
      exact h
    · rw [if_neg hsame]
      by_cases hfew : keys.size < 3
      · rw [if_pos hfew]
        exact ⟨h.secretKey_eq, h.localNode_eq, fun tree ht => by cases ht⟩
      · rw [if_neg hfew]
        cases hnew : StormTree.new J M.keyApi keys.keys with
        | error e => exact h
        | ok tree =>
          refine ⟨h.secretKey_eq, h.localNode_eq, fun tree' ht => ?_⟩
          obtain rfl := Option.some.inj ht
          exact hnew

theorem Configured.step (h : Configured J secretKey state) (action : Action W T) :
    Configured J secretKey (Signing.step J state action) := by
  cases action with
  | refreshMembers peers => exact h.refreshMembers peers
  | startSession now requestHash requestor request waited =>
    have hopen : SameMembers state (state.openChannel waited).1 := by
      cases waited <;> exact ⟨rfl, rfl, rfl, rfl⟩
    exact (h.sameMembers hopen).sameMembers (startSession_sameMembers _ _ _ _ _ _)
  | acceptNonces requestHash sender message =>
    exact h.sameMembers (Frame.acceptNonces state requestHash sender message).sameMembers
  | acceptPartialSignatures requestHash sender message =>
    exact h.sameMembers (Frame.acceptPartialSignatures state requestHash sender message).sameMembers
  | removeExpiredSessions now => exact h.sameMembers (removeExpiredSessions_sameMembers state now)
  | removeSession requestHash =>
    refine h.sameMembers ?_
    change SameMembers state (state.removeSession requestHash)
    rw [SigningState.removeSession]
    cases state.sessions[requestHash]? <;> exact ⟨rfl, rfl, rfl, rfl⟩

variable (J)

theorem run_configured (secretKey : M.SecretKey) (peers : List T) (actions : List (Action W T)) :
    Configured J secretKey (run J (SigningState.new J secretKey peers : SigningState M) actions) := by
  refine TokenLedger.foldl_induction (Signing.step J) _ (fun _ => Configured J secretKey) ?_
    (fun _ _ action h => h.step action) actions
  exact Configured.refreshMembers ⟨rfl, rfl, fun tree ht => by cases ht⟩ peers

variable {J}

omit [DecidableEq T] in
/-- The signers of a branch are members with valid keys, and no node signs alone. -/
theorem Configured.signersForBranch (h : Configured J secretKey state) {branch : W} {signers : List W}
    (hsigners : state.signersForBranch branch = .ok signers) :
    (∀ s ∈ signers, s ∈ state.memberTransportKeys) ∧
      keyAggCache signers = .ok (M.keyAggCache signers) ∧ ∀ node, ∃ s ∈ signers, s ≠ node := by
  rw [SigningState.signersForBranch] at hsigners
  cases htree : state.tree with
  | none =>
    rw [htree] at hsigners
    cases hsigners
  | some tree =>
    simp only [htree] at hsigners
    cases hnodes : StormTree.nodesForBranch (E := M.KeyError) tree branch with
    | error e =>
      rw [hnodes] at hsigners
      cases hsigners
    | ok participants =>
      rw [hnodes] at hsigners
      cases hsigners
      have hnew := h.tree tree htree
      obtain ⟨hcount, hvalid, -⟩ := (StormTree.new_ok_iff _ _ _ _).mp hnew
      have hnodup := (StormTree.new_spec hnew).1
      obtain ⟨s, hs, -, rfl⟩ := (StormTree.nodesForBranch_ok_iff hnew branch signers).mp hnodes
      obtain ⟨hsub, hcard⟩ := Finset.mem_powersetCard.mp hs
      have hmem : ∀ node ∈ s.sort (· ≤ ·), node ∈ state.memberTransportKeys.keys := fun node hn =>
        List.mem_toFinset.mp (hsub ((Finset.mem_sort _).mp hn))
      refine ⟨fun node hn => Std.ExtTreeMap.mem_keys.mp (hmem node hn), ?_, fun node => ?_⟩
      · rw [keyAggCache, if_pos]
        refine List.all_eq_true.mpr fun node hn => ?_
        have hkey : M.fromByteArray node = .ok () := hvalid node (hmem node hn)
        rw [hkey]
        rfl
      · have htwo : 1 < s.card := by
          rw [hcard, StormTree.minimumThreshold]
          rw [StormTree.minNodes] at hcount
          omega
        obtain ⟨s', hs', hne⟩ := Finset.exists_mem_ne htwo node
        exact ⟨s', (Finset.mem_sort _).mpr hs', hne⟩

end Configured

end Signing
end PriceOracle
