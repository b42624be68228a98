import PriceOracle.SigningProgress

/-!
# Completion of a signing session

A session that the local node opened for itself ends with a result, once every
signer's nonces are in, exactly when every other signer sent a good batch at a
moment when no bad one of its own was in the way.
-/

namespace PriceOracle

namespace Signing

variable {W T Sig : Type} [LinearOrder W] [DecidableEq T] {M : Musig W T} (J : Jets W Sig)

open SigningSession

section Occurs

/-- At some action of the run. -/
def Occurs (P : SigningState M → Action W T → Prop) (state : SigningState M)
    (actions : List (Action W T)) : Prop :=
  ∃ before action after, actions = before ++ action :: after ∧ P (run J state before) action

theorem not_occurs_nil (P : SigningState M → Action W T → Prop) (state : SigningState M) :
    ¬Occurs J P state [] := by
  rintro ⟨before, action, after, h, -⟩
  simp at h

theorem occurs_cons (P : SigningState M → Action W T → Prop) (state : SigningState M)
    (action : Action W T) (actions : List (Action W T)) :
    Occurs J P state (action :: actions) ↔ P state action ∨ Occurs J P (step J state action) actions := by
  constructor
  · rintro ⟨before, action', after, h, hp⟩
    cases before with
    | nil =>
      cases h
      exact .inl hp
    | cons first before =>
      cases h
      exact .inr ⟨before, action', after, rfl, hp⟩
  · rintro (hp | ⟨before, action', after, rfl, hp⟩)
    · exact ⟨[], action, actions, rfl, hp⟩
    · exact ⟨action :: before, action', after, rfl, hp⟩

end Occurs

section Run

variable {signers hashes : List W} {nonceOf : W → List M.PublicNonce} {requestHash : W} {channel : ℕ}
  {state : SigningState M} {session : SigningSession M} {past : List (Action W T)}

theorem frame_message (state : SigningState M) (action : Action W T) (h : action.isMessage) :
    ∃ requestHash, Frame state (step J state action) requestHash := by
  cases action with
  | acceptNonces requestHash sender message =>
    exact ⟨requestHash, Frame.acceptNonces state requestHash sender message⟩
  | acceptPartialSignatures requestHash sender message =>
    exact ⟨requestHash, Frame.acceptPartialSignatures state requestHash sender message⟩
  | _ => exact h.elim

theorem Pending.step (laws : MusigLaws M) {secretKey : M.SecretKey}
    (hkey : state.secretKey = evenKey M secretKey)
    (hnode : state.localNode = (M.xOnlyPublicKey secretKey).1) (hinv : Inv past state)
    (h : Pending signers hashes nonceOf requestHash channel state session) {action : Action W T}
    (hmessage : action.isMessage)
    (hnonceOf : ∀ s ∈ signers, ∀ nonces, (session.contribution s).nonces = none →
      submittedNonces requestHash hashes.length s action = some nonces → nonces = nonceOf s) :
    Advance signers hashes nonceOf requestHash channel state session action
      (Accepted state action) (Signing.step J state action) := by
  have hpast : action ∈ past ++ [action] := List.mem_append_right _ (List.mem_singleton_self _)
  have hinv' := hinv.mono (List.subset_append_left past [action])
  cases action with
  | acceptNonces requestHash' sender message =>
    by_cases hsame : requestHash = requestHash'
    · subst hsame
      exact h.acceptNonces laws hkey hnode hinv' hpast hnonceOf
    · refine h.frame (Frame.acceptNonces state requestHash' sender message) hsame (fun s => ?_)
        fun s => not_delivers_acceptNonces
      rw [submittedNonces, if_neg fun hand => hsame hand.1.symm]
  | acceptPartialSignatures requestHash' sender message =>
    by_cases hsame : requestHash = requestHash'
    · subst hsame
      exact h.acceptPartialSignatures laws hinv' hpast
    · refine h.frame (Frame.acceptPartialSignatures state requestHash' sender message) hsame
        (fun _ => rfl) fun s hd => ?_
      obtain ⟨m, partials, hm, -⟩ := hd.batch
      cases hm
      exact hsame rfl
  | _ => exact hmessage.elim

/-- A run of messages, in which every signer's nonces arrive, ends the wait with `Ok` exactly
when every other signer's good batch arrives unblocked. -/
theorem Pending.run_completes_iff (laws : MusigLaws M) {secretKey : M.SecretKey}
    (actions : List (Action W T)) :
    ∀ {past : List (Action W T)} {state : SigningState M} {session : SigningSession M},
      state.secretKey = evenKey M secretKey → state.localNode = (M.xOnlyPublicKey secretKey).1 →
      Inv past state → Pending signers hashes nonceOf requestHash channel state session →
      (∀ action ∈ actions, action.isMessage) →
      (∀ s ∈ signers, (session.contribution s).nonces.or
        (actions.findSome? (submittedNonces requestHash hashes.length s)) = some (nonceOf s)) →
      (Occurs J (fun state action => Accepted state action ∧
          HasResult channel (Signing.step J state action)) state actions ↔
        ∀ s ∈ signers, s ≠ state.localNode → HoldsGood signers hashes nonceOf session s ∨
          Occurs J (fun state action => Delivers signers hashes nonceOf requestHash state s action)
            state actions) := by
  induction actions with
  | nil =>
    intro past state session hkey hnode hinv h hmessages hnonces
    refine iff_of_false (not_occurs_nil J _ _) fun hall => ?_
    obtain ⟨s, hs, hne, hnot⟩ := h.lacks_other hinv fun s hs => by simpa using hnonces s hs
    exact (hall s hs hne).elim hnot (not_occurs_nil J _ _)
  | cons action actions ih =>
    intro past state session hkey hnode hinv h hmessages hnonces
    rw [List.forall_mem_cons] at hmessages
    obtain ⟨requestHash', hframe⟩ := frame_message J state action hmessages.1
    have hadvance := h.step J laws hkey hnode hinv hmessages.1 fun s hs nonces hn hsub => by
      have := hnonces s hs
      rw [hn, List.findSome?_cons, hsub] at this
      exact Option.some.inj this
    simp only [occurs_cons]
    cases hadvance with
    | finished hok hdone hall =>
      exact iff_of_true (.inl ⟨hok, hdone⟩) fun s hs hne =>
        (hall s hs hne).imp_right .inl
    | waits session' hpending hnonces' hgood =>
      have hinv' := hinv.step J action
      rw [or_iff_right fun hand => hpending.not_hasResult hinv' hand.2,
        ih (hframe.secretKey.trans hkey) (hframe.localNode.trans hnode) hinv' hpending hmessages.2
          fun s hs => ?_, hframe.localNode]
      · refine forall_congr' fun s => forall_congr' fun hs => forall_congr' fun hne => ?_
        rw [hgood s hs hne, or_assoc]
      · rw [hnonces' s hs, Option.or_assoc, ← hnonces s hs, List.findSome?_cons]
        cases submittedNonces (M := M) requestHash hashes.length s action <;> rfl

end Run

section Opened

variable {past : List (Action W T)} {secretKey : M.SecretKey} {state : SigningState M}

/-- The nonces of a signer in a round: those recorded at its start, or the first well-formed
ones among the messages. -/
def roundNonces (requestHash : W) (session : SigningSession M) (actions : List (Action W T))
    (signer : W) : Option (List M.PublicNonce) :=
  (session.contribution signer).nonces.or
    (actions.findSome? (submittedNonces requestHash session.request.messageHashes.length signer))

def roundNonceOf (requestHash : W) (session : SigningSession M) (actions : List (Action W T))
    (signer : W) : List M.PublicNonce :=
  (roundNonces requestHash session actions signer).getD []

omit [DecidableEq T] in
/-- A session just opened for the local node is pending. -/
theorem Pending.startSession (hconfigured : Configured J secretKey state) {now channel : ℕ}
    {requestHash : W} {request : SigningRequest W} {session : SigningSession M}
    (hnew : requestHash ∉ state.sessions) {nonceOf : W → List M.PublicNonce}
    (hfound : (state.startSession now requestHash state.localNode request
      (some channel)).1.sessions[requestHash]? = some session)
    (hnonces : ∀ s ∈ session.signers, ∀ nonces, (session.contribution s).nonces = some nonces →
      nonces = nonceOf s) :
    Pending session.signers session.request.messageHashes nonceOf requestHash channel
        (state.startSession now requestHash state.localNode request (some channel)).1 session ∧
      ∀ s, (session.contribution s).partialSignatures = none := by
  have hput : ∀ (state : SigningState M) session', (state.put requestHash session').sessions[requestHash]? =
      some session' := fun state session' => getElem?_put_self _ _ _
  have hout := startSession_outcome state now requestHash state.localNode request (some channel)
  generalize state.startSession now requestHash state.localNode request (some channel) =
    out at hout hfound ⊢
  cases hout with
  | dropped r hr =>
    change state.sessions[requestHash]? = some session at hfound
    exact absurd (Std.ExtTreeMap.isSome_getElem?_iff_mem.mp (by rw [hfound]; rfl)) hnew
  | watches signers _ hsigners hlocal =>
    obtain rfl := Option.some.inj ((hput _ _).symm.trans hfound)
    have hempty := contribution_freshSession (M := M) now state.localNode request signers
      (some channel)
    obtain ⟨hrouted, hcache, hother⟩ := hconfigured.signersForBranch hsigners
    refine ⟨⟨⟨hfound, ⟨rfl, rfl, hcache, hnonces⟩, rfl, rfl, hrouted, fun h => absurd h hlocal⟩,
      fun _ => ?_⟩, fun s => by rw [hempty]⟩
    obtain ⟨s, hs, -⟩ := hother state.localNode
    refine ⟨s, hs, ?_⟩
    rintro ⟨partials, hp, -⟩
    rw [hempty] at hp
    cases hp
  | signs signers secrets publics _ hsigners hlocal hkeys _ =>
    obtain rfl := Option.some.inj ((hput _ _).symm.trans hfound)
    have hcontribution := contribution_signingSession (M := M) now state.localNode request
      (some channel) hlocal secrets publics
    obtain ⟨hrouted, hcache, hother⟩ := hconfigured.signersForBranch hsigners
    obtain ⟨s, hs, hne⟩ := hother state.localNode
    have hwait : noncesReady { (freshSession now state.localNode request signers
        (some channel)).modify state.localNode (·.setNonces publics) with
        secretNonces := some secrets } = false := by
      by_contra hready
      rw [Bool.not_eq_false, noncesReady_iff] at hready
      have hsome := hready s ((mem_modify _ _ _ _).mpr ((mem_freshSession _ _ _ _ _ _).mpr hs))
      rw [hcontribution s, if_neg (Ne.symm hne)] at hsome
      cases hsome
    refine ⟨⟨⟨hfound, ⟨rfl, rfl, hcache, hnonces⟩, rfl, rfl, hrouted, fun _ => .inl ⟨rfl, hwait⟩⟩,
      fun hready => ?_⟩, fun s => ?_⟩
    · rw [hwait] at hready
      cases hready
    · rw [hcontribution]
      split_ifs <;> rfl

theorem rejected_messages_isolated_and_completes_iff (laws : MusigLaws M) (secretKey : M.SecretKey)
    (peers : List T) (past : List (Action W T)) :
    let state : SigningState M := run J (SigningState.new J secretKey peers) past
    (∀ requestHash session, state.sessions[requestHash]? = some session → ∀ sender,
      (∀ message e, (state.acceptNonces requestHash sender message).2 = .error e →
        ∃ session', (state.acceptNonces requestHash sender message).1.sessions[requestHash]? =
            some session' ∧ Isolates state.localNode sender session session' ∧
          (session' = session ∨ ∃ nonces, SigningState.parseNonces message.nonces = .ok nonces ∧
            (session'.contribution sender).nonces = some nonces)) ∧
      ∀ message e, (state.acceptPartialSignatures requestHash sender message).2 = .error e →
        ∃ session', (state.acceptPartialSignatures requestHash sender message).1.sessions[
            requestHash]? = some session' ∧ Isolates state.localNode sender session session' ∧
          (session' = session ∨ ∃ partials,
            SigningState.parsePartials sender 0 message.partialSignatures = .ok partials ∧
            verifySignerPartials session (M.keyAggCache session.signers) sender partials = .ok () ∧
            (session'.contribution sender).partialSignatures = some partials)) ∧
    ∀ now requestHash request session actions, requestHash ∉ state.sessions →
      let opened := step J state (.startSession now requestHash state.localNode request true)
      opened.sessions[requestHash]? = some session →
      (∀ action ∈ actions, action.isMessage) →
      (∀ s ∈ session.signers, (roundNonces requestHash session actions s).isSome = true) →
      (Occurs J (fun state' action => Accepted state' action ∧
          HasResult state.channels (step J state' action)) opened actions ↔
        ∀ s ∈ session.signers, s ≠ state.localNode → Occurs J (fun state' action =>
          Delivers session.signers session.request.messageHashes
            (roundNonceOf requestHash session actions) requestHash state' s action) opened actions) := by
  intro state
  have hinv : Inv past state := run_inv J secretKey peers past
  have hconfigured : Configured J secretKey state := run_configured J secretKey peers past
  refine ⟨fun requestHash session hs sender => ⟨fun message e => acceptNonces_isolates hs,
    fun message e => acceptPartialSignatures_isolates hs⟩, ?_⟩
  intro now requestHash request session actions hnew opened hfound hmessages hsubmitted
  have hround : ∀ s ∈ session.signers, (session.contribution s).nonces.or
      (actions.findSome? (submittedNonces requestHash session.request.messageHashes.length s)) =
        some (roundNonceOf requestHash session actions s) := by
    intro s hs
    obtain ⟨nonces, hn⟩ := Option.isSome_iff_exists.mp (hsubmitted s hs)
    rw [roundNonceOf, hn]
    exact hn
  have hstart : Configured J secretKey (state.openChannel true).1 :=
    hconfigured.sameMembers ⟨rfl, rfl, rfl, rfl⟩
  obtain ⟨hpending, hempty⟩ := Pending.startSession J hstart hnew hfound fun s hs nonces hn => by
    have := hround s hs
    rw [hn] at this
    exact Option.some.inj this
  have hnone : ∀ s, ¬HoldsGood session.signers session.request.messageHashes
      (roundNonceOf requestHash session actions) session s := by
    rintro s ⟨partials, hp, -⟩
    rw [hempty] at hp
    cases hp
  have hopened : Configured J secretKey opened :=
    hconfigured.step (.startSession now requestHash state.localNode request true)
  have hlocal : opened.localNode = state.localNode :=
    hopened.localNode_eq.trans hconfigured.localNode_eq.symm
  have hiff := hpending.run_completes_iff J laws actions hopened.secretKey_eq hopened.localNode_eq
    (hinv.step J _) hmessages hround
  simp only [hnone, false_or] at hiff
  rwa [← hlocal]

end Opened

section Example

/-- A linear scheme over the naturals: a share is nonce plus key plus message. -/
def sumMusig : Musig ℕ ℕ where
  SecretKey := ℕ
  PublicNonce := ℕ
  PartialSignature := ℕ
  Cache := List ℕ
  Session := List ℕ × List ℕ × ℕ
  Signature := ℕ × ℕ × ℕ × ℕ
  KeyError := Unit
  hexEncode := toString
  nodeKey := some
  xOnlyPublicKey secretKey := (secretKey, false)
  negate secretKey := secretKey
  fromByteArray _ := .ok ()
  keyAggCache signers := signers
  aggPk cache := Nat.pair cache.length cache.sum
  newNoncePair draw _ _ _ := draw + 1
  nonceFromByteArray bytes := bytes.head?.map UInt8.toNat
  nonceSerialize nonce := List.replicate 66 (UInt8.ofNat nonce)
  partialFromByteArray := some
  partialSerialize share := share
  newSession cache nonces messageHash := (cache, nonces, messageHash)
  partialSign session nonce secretKey _ := nonce.draw + 1 + secretKey + session.2.2
  partialVerify session _ share nonce signer := share == nonce + signer + session.2.2
  partialSigAgg session shares := (session.1.length, session.1.sum, session.2.1.sum, shares.sum)
  verify signature pk messageHash :=
    pk == Nat.pair signature.1 signature.2.1 &&
      signature.2.2.2 == signature.2.2.1 + signature.2.1 + signature.1 * messageHash

theorem sum_shares (messageHash : ℕ) : ∀ signers nonces shares : List ℕ,
    nonces.length = signers.length → shares.length = signers.length →
    (∀ (j : ℕ) signer nonce share, signers[j]? = some signer → nonces[j]? = some nonce →
      shares[j]? = some share → share = nonce + signer + messageHash) →
    shares.sum = nonces.sum + signers.sum + signers.length * messageHash
  | [], [], [], _, _, _ => by simp
  | signer :: signers, nonce :: nonces, share :: shares, hn, hs, h => by
    have hhead := h 0 signer nonce share rfl rfl rfl
    have htail := sum_shares messageHash signers nonces shares (Nat.succ.inj hn) (Nat.succ.inj hs)
      fun j => h (j + 1)
    rw [List.sum_cons, List.sum_cons, List.sum_cons, List.length_cons, hhead, htail, Nat.add_mul]
    omega

theorem sumMusig_laws : MusigLaws sumMusig where
  own secretKey signers nonces messageHash draw j _ _ _ := by
    simp [sumMusig, evenKey]
  aggregate signers nonces shares messageHash hn hs h := by
    have hsum := sum_shares messageHash signers nonces shares hn hs fun j signer nonce share h1 h2 h3 => by
      simpa [sumMusig] using h j signer nonce share h1 h2 h3
    simpa [sumMusig] using hsum

def sumKeys : Std.ExtTreeMap ℕ ℕ := ((∅ : Std.ExtTreeMap ℕ ℕ).insert 1 1 |>.insert 2 2).insert 4 4

def sumState (tree : StormTree ℕ) : SigningState sumMusig :=
  ⟨(1 : ℕ), 1, sumKeys, some tree, ∅, 0, 0, []⟩

/-- The session of node 1 with node 2 as it opens. -/
def sumSession : SigningSession sumMusig :=
  { (freshSession 0 1 ⟨11, [5]⟩ [1, 2] (some 0)).modify 1 (·.setNonces [(1 : ℕ)]) with
    secretNonces := some [⟨0, 5⟩] }

def sumOpened (tree : StormTree ℕ) : SigningState sumMusig :=
  { sumState tree with
    sessions := (∅ : Std.ExtTreeMap ℕ (SigningSession sumMusig)).insert 7 sumSession
    draws := 1
    channels := 1 }

theorem sum_new : ∃ tree, (SigningState.new idealJets (1 : ℕ) [1, 2, 4] : SigningState sumMusig) =
    sumState tree ∧
    step idealJets (sumState tree) (.startSession 0 7 (sumState tree).localNode ⟨11, [5]⟩ true) =
      sumOpened tree ∧
    StormTree.nodesForBranch (E := sumMusig.KeyError) tree 11 = .ok [1, 2] := by
  have hasc : ([1, 2, 4] : List ℕ).Pairwise (· < ·) := by decide
  obtain ⟨tree, htree⟩ := (StormTree.new_succeeds_iff (J := idealJets) (K := sumMusig.keyApi)
    [1, 2, 4]).mpr ⟨by decide, fun _ _ => rfl, by decide, by decide +kernel,
      (StormTree.nodup_aggregates_iff sumMusig.keyApi hasc).mp (by decide +kernel)⟩
  obtain ⟨s, hs, hsort⟩ := (StormTree.mem_combinations_iff_sort hasc 2 [1, 2]).mp (by decide +kernel)
  have hbranch : StormTree.nodesForBranch (E := sumMusig.KeyError) tree 11 = .ok [1, 2] := by
    refine (StormTree.nodesForBranch_ok_iff htree 11 [1, 2]).mpr ⟨s, hs, ?_, hsort⟩
    rw [StormTree.branchKey, hsort]
    decide +kernel
  refine ⟨tree, ?_, ?_, hbranch⟩
  · have hkeys : SigningState.peerKeys (M := sumMusig) [1, 2, 4] = .ok sumKeys := rfl
    have hlist : sumKeys.keys = [1, 2, 4] := by decide +kernel
    have hnew : StormTree.new idealJets sumMusig.keyApi sumKeys.keys = .ok tree := by
      rw [hlist]
      exact htree
    have hsize : ¬sumKeys.size < 3 := by decide +kernel
    have hdiff : sumKeys.toList ≠ (∅ : Std.ExtTreeMap ℕ ℕ).toList := by decide +kernel
    change ((⟨(1 : ℕ), 1, ∅, none, ∅, 0, 0, []⟩ : SigningState sumMusig).refreshMembers idealJets
      [1, 2, 4]).1 = _
    rw [SigningState.refreshMembers, hkeys]
    simp only [hdiff, hsize, hnew, if_false]
    rfl
  · have hsigners : SigningState.signersForBranch { sumState tree with channels := 1 } 11 =
        .ok [1, 2] := by
      simp only [SigningState.signersForBranch, sumState, hbranch]
    change (SigningState.startSession { sumState tree with channels := 1 } 0 7 1 ⟨11, [5]⟩ (some 0)).1 = _
    rw [SigningState.startSession, hsigners]
    rfl

theorem getElem?_sumOpened (tree : StormTree ℕ) : (sumOpened tree).sessions[7]? = some sumSession :=
  Std.ExtTreeMap.getElem?_insert_self

/-- The batch of node 2 that verifies, and one that does not. -/
def goodBatch : PartialSignaturesMessage ℕ := ⟨2, [16]⟩

def badBatch : PartialSignaturesMessage ℕ := ⟨2, [0]⟩

def sumNonces : SigningNoncesMessage ℕ := ⟨2, [List.replicate 66 9]⟩

theorem goodBatch_verifies (actions : List (Action ℕ ℕ))
    (hlocal : roundNonceOf 7 sumSession actions 1 = [(1 : ℕ)])
    (hother : roundNonceOf 7 sumSession actions 2 = [(9 : ℕ)]) :
    SubmitsGood (M := sumMusig) [1, 2] [5] (roundNonceOf 7 sumSession actions) 7 2
      (.acceptPartialSignatures 7 2 goodBatch : Action ℕ ℕ) := by
  refine ⟨goodBatch, [(16 : ℕ)], rfl, rfl, rfl, rfl, fun i share messageHash hshare hhash => ?_⟩
  cases i with
  | zero =>
    cases hshare
    cases hhash
    refine ⟨[(1 : ℕ), (9 : ℕ)], (9 : ℕ), ?_, ?_, rfl⟩
    · simp only [List.mapM_cons, hlocal, hother]
      rfl
    · rw [hother]
      rfl
  | succ i => cases hhash

theorem other_signer {s : ℕ} (hs : s ∈ sumSession.signers) (hne : s ≠ 1) : s = 2 := by
  have hmem : s ∈ [1, 2] := hs
  simp only [List.mem_cons, List.not_mem_nil, or_false] at hmem
  exact hmem.resolve_left hne

/-- The nonces and then the batch of node 2 complete the session of node 1. -/
theorem rejected_messages_isolated_and_completes_iff_two_signers :
    ∃ session : SigningSession sumMusig,
      let state : SigningState sumMusig := SigningState.new idealJets (1 : ℕ) [1, 2, 4]
      let opened := step idealJets state (.startSession 0 7 state.localNode ⟨11, [5]⟩ true)
      opened.sessions[7]? = some session ∧
        Occurs idealJets (fun state' action => Accepted state' action ∧
          HasResult state.channels (step idealJets state' action)) opened
          [.acceptNonces 7 2 sumNonces, .acceptPartialSignatures 7 2 goodBatch] := by
  obtain ⟨tree, hnew, hopen, -⟩ := sum_new
  have hlaw := (rejected_messages_isolated_and_completes_iff idealJets sumMusig_laws (1 : ℕ)
    [1, 2, 4] []).2 0 7 ⟨11, [5]⟩ sumSession
    [.acceptNonces 7 2 sumNonces, .acceptPartialSignatures 7 2 goodBatch]
  simp only [run, List.foldl_nil, hnew, hopen] at hlaw ⊢
  refine ⟨sumSession, getElem?_sumOpened tree, (hlaw Std.ExtTreeMap.not_mem_empty
    (getElem?_sumOpened tree) (by simp [Action.isMessage]) (by decide +kernel)).mpr fun s hs hne => ?_⟩
  obtain rfl : s = 2 := other_signer hs hne
  refine ⟨[.acceptNonces 7 2 sumNonces], .acceptPartialSignatures 7 2 goodBatch, [], rfl,
    goodBatch_verifies _ (by with_unfolding_all rfl) (by with_unfolding_all rfl), ?_⟩
  have hempty : ((run idealJets (sumOpened tree) [.acceptNonces 7 2 sumNonces]).sessions[7]?.bind
      fun session => (session.contribution 2).partialSignatures) = none := by
    with_unfolding_all rfl
  intro session partials hfound hp
  rw [hfound, Option.bind_some, hp] at hempty
  cases hempty

/-- A bad batch that arrives before the last nonces keeps the good one out for ever. -/
theorem early_bad_batch_blocks_good_one :
    ¬∀ (session : SigningSession sumMusig) (actions : List (Action ℕ ℕ)),
      let state : SigningState sumMusig := SigningState.new idealJets (1 : ℕ) [1, 2, 4]
      let opened := step idealJets state (.startSession 0 7 state.localNode ⟨11, [5]⟩ true)
      opened.sessions[7]? = some session →
      (∀ action ∈ actions, action.isMessage) →
      (∀ s ∈ session.signers, (roundNonces 7 session actions s).isSome = true) →
      (∀ s ∈ session.signers, s ≠ state.localNode → ∃ action ∈ actions, SubmitsGood session.signers
        session.request.messageHashes (roundNonceOf 7 session actions) 7 s action) →
      HasResult state.channels (run idealJets opened actions) := by
  intro hclaim
  obtain ⟨tree, hnew, hopen, -⟩ := sum_new
  have hresult := hclaim sumSession [.acceptPartialSignatures 7 2 badBatch,
    .acceptPartialSignatures 7 2 goodBatch, .acceptNonces 7 2 sumNonces]
  simp only [hnew, hopen] at hresult
  have hevents : (run idealJets (sumOpened tree) [.acceptPartialSignatures 7 2 badBatch,
      .acceptPartialSignatures 7 2 goodBatch, .acceptNonces 7 2 sumNonces]).events.filterMap
        Event.channel = [] := by
    with_unfolding_all rfl
  have hbatch : ∀ s ∈ sumSession.signers, s ≠ (sumState tree).localNode → ∃ action ∈ ([
      .acceptPartialSignatures 7 2 badBatch, .acceptPartialSignatures 7 2 goodBatch,
      .acceptNonces 7 2 sumNonces] : List (Action ℕ ℕ)), SubmitsGood sumSession.signers
        sumSession.request.messageHashes (roundNonceOf 7 sumSession [
          .acceptPartialSignatures 7 2 badBatch, .acceptPartialSignatures 7 2 goodBatch,
          .acceptNonces 7 2 sumNonces]) 7 s action := by
    intro s hs hne
    obtain rfl : s = 2 := other_signer hs hne
    exact ⟨.acceptPartialSignatures 7 2 goodBatch, by simp,
      goodBatch_verifies _ (by with_unfolding_all rfl) (by with_unfolding_all rfl)⟩
  obtain ⟨session, result, hmem⟩ := hresult (getElem?_sumOpened tree) (by simp [Action.isMessage])
    (by decide +kernel) hbatch
  have hchannel : (0 : ℕ) ∈ (run idealJets (sumOpened tree) [.acceptPartialSignatures 7 2 badBatch,
      .acceptPartialSignatures 7 2 goodBatch, .acceptNonces 7 2 sumNonces]).events.filterMap
        Event.channel := List.mem_filterMap.mpr ⟨_, hmem, rfl⟩
  rw [hevents] at hchannel
  cases hchannel

end Example

end Signing
end PriceOracle
