import PriceOracle.SigningRound

/-!
# What one message does to a pending session

The local node waits for the result of its own session. A message ends that wait
with a result, or leaves the session pending with the nonces and the good batches
that the message added, and no fewer.
-/

namespace PriceOracle

namespace Signing

variable {W T : Type} [LinearOrder W] {M : Musig W T}

open SigningSession

section Sign

variable {state : SigningState M} {signers hashes : List W} {nonceOf : W → List M.PublicNonce}
  {requestHash : W} {channel : ℕ} {session : SigningSession M} {past : List (Action W T)}

theorem signFrom_total (state : SigningState M) (session : SigningSession M) (cache : M.Cache)
    (pairs : List (W × SecretNonce W)) :
    ∀ index, (∀ (i : ℕ) messageHash secret, pairs[i]? = some (messageHash, secret) →
      ∃ signing, musigSession session cache (index + i) messageHash = .ok signing) →
      ∃ shares, (state.signFrom session cache index pairs).2 = .ok shares := by
  induction pairs with
  | nil => exact fun _ _ => ⟨[], rfl⟩
  | cons pair pairs ih =>
    intro index hall
    obtain ⟨messageHash, secret⟩ := pair
    obtain ⟨signing, hm⟩ := hall 0 messageHash secret rfl
    obtain ⟨rest, hrest⟩ := ih (index + 1) fun i messageHash secret hi => by
      have := hall (i + 1) messageHash secret hi
      rwa [Nat.add_right_comm, Nat.add_assoc]
    rw [Nat.add_zero] at hm
    refine ⟨M.partialSign signing secret state.secretKey cache :: rest, ?_⟩
    rw [SigningState.signFrom, hm]
    cases hrun : state.signFrom session cache (index + 1) pairs with
    | mk events r =>
      rw [hrun] at hrest
      obtain rfl : r = .ok rest := hrest
      rfl

/-- With every nonce in, signing cannot fail. -/
theorem Collects.signFrom_ok (h : Collects signers hashes nonceOf session) {secretKey : M.SecretKey}
    {localNode : W} (hinv : SessionInv past secretKey localNode requestHash session)
    (hready : session.noncesReady = true) (state : SigningState M)
    (secrets : List (SecretNonce W)) :
    ∃ partials, (state.signFrom { session with secretNonces := none }
      (M.keyAggCache session.signers) 0 (session.request.messageHashes.zip secrets)).2 =
        .ok partials := by
  refine signFrom_total _ _ _ _ 0 fun i messageHash secret hi => ?_
  rw [List.getElem?_zip_eq_some, h.hashes_eq] at hi
  obtain ⟨nonces, hnonces, -⟩ := h.nonces_at hinv hready (List.getElem?_eq_some_iff.mp hi.1).1
  rw [Nat.zero_add]
  exact ⟨_, (SessionInv.sameRound_takeSecrets.musigSession _ i messageHash).trans
    (h.musigSession hinv hready _ i messageHash hnonces)⟩

/-- The local node's own shares are a good batch. -/
theorem Collects.own_roundVerifies (laws : MusigLaws M) (secretKey : M.SecretKey)
    (h : Collects signers hashes nonceOf session)
    (hinv : SessionInv past (evenKey M secretKey) (M.xOnlyPublicKey secretKey).1 requestHash session)
    (hready : session.noncesReady = true) (hkey : state.secretKey = evenKey M secretKey)
    {secrets : List (SecretNonce W)} (hsecrets : session.secretNonces = some secrets)
    {partials : List M.PartialSignature}
    (hsign : (state.signFrom { session with secretNonces := none } (M.keyAggCache session.signers) 0
      (session.request.messageHashes.zip secrets)).2 = .ok partials) :
    RoundVerifies signers hashes nonceOf (M.xOnlyPublicKey secretKey).1 partials := by
  intro i share messageHash hshare hhash
  obtain ⟨hlocal, hhashes, hown⟩ := hinv.own secrets hsecrets
  have hsecret : (secrets.map SecretNonce.messageHash)[i]? = some messageHash := by
    rw [hhashes, h.hashes_eq, hhash]
  rw [List.getElem?_map, Option.map_eq_some_iff] at hsecret
  obtain ⟨secret, hsecret, rfl⟩ := hsecret
  rw [h.signers_eq] at hlocal
  have hnonceOf := (h.nonces_eq hinv hready hlocal).symm.trans hown
  obtain ⟨-, hshares⟩ := Signing.signFrom_ok _ _ _ _ 0 partials hsign
  obtain ⟨signing, hm, hshare'⟩ := hshares i secret.messageHash secret (by
    rw [List.getElem?_zip_eq_some, h.hashes_eq]
    exact ⟨hhash, hsecret⟩)
  rw [Nat.zero_add, SessionInv.sameRound_takeSecrets.musigSession] at hm
  obtain ⟨nonces, hnonces, rfl⟩ := h.mapM_of_musigSession hinv hready hm
  obtain ⟨nonces', hnonces', hlen, hat⟩ :=
    h.nonces_at hinv hready (List.getElem?_eq_some_iff.mp hhash).1
  obtain rfl := Option.some.inj (hnonces.symm.trans hnonces')
  have hnonce : (nonceOf (M.xOnlyPublicKey secretKey).1)[i]? = some (M.newNoncePair secret.draw
      (M.keyAggCache signers) (evenKey M secretKey) secret.messageHash) := by
    rw [Option.some.inj hnonceOf, List.getElem?_map, hsecret, h.signers_eq]
    rfl
  obtain ⟨j, hj⟩ := List.mem_iff_getElem?.mp hlocal
  rw [hshare, hkey, h.signers_eq] at hshare'
  refine ⟨nonces, _, hnonces, hnonce, ?_⟩
  rw [Option.some.inj hshare']
  exact laws.own secretKey signers nonces secret.messageHash secret.draw j hlen hj
    ((hat j _ hj).trans hnonce)

end Sign

section Message

/-- The nonces that a message brings in for a signer of a session, if it is well formed. -/
def submittedNonces (requestHash : W) (count : ℕ) (signer : W) :
    Action W T → Option (List M.PublicNonce)
  | .acceptNonces requestHash' sender message =>
    if requestHash' = requestHash ∧ sender = signer ∧ message.signer = signer ∧
      message.nonces.length = count then (SigningState.parseNonces message.nonces).toOption
    else none
  | _ => none

/-- The message brings in a batch of shares that verifies. -/
def SubmitsGood (signers hashes : List W) (nonceOf : W → List M.PublicNonce) (requestHash signer : W)
    (action : Action W T) : Prop :=
  ∃ message partials, action = .acceptPartialSignatures requestHash signer message ∧
    message.signer = signer ∧ message.partialSignatures.length = hashes.length ∧
    SigningState.parsePartials signer 0 message.partialSignatures = .ok partials ∧
    RoundVerifies signers hashes nonceOf signer partials

/-- A good batch arrives, and the slot of its signer holds no bad one. -/
structure Delivers (signers hashes : List W) (nonceOf : W → List M.PublicNonce) (requestHash : W)
    (state : SigningState M) (signer : W) (action : Action W T) : Prop where
  batch : SubmitsGood signers hashes nonceOf requestHash signer action
  unblocked : ∀ session partials, state.sessions[requestHash]? = some session →
    (session.contribution signer).partialSignatures = some partials →
    RoundVerifies signers hashes nonceOf signer partials

/-- The call that handles a message returns `Ok`. -/
def Accepted (state : SigningState M) : Action W T → Prop
  | .acceptNonces requestHash sender message =>
    ∃ reply, (state.acceptNonces requestHash sender message).2 = .ok reply
  | .acceptPartialSignatures requestHash sender message =>
    (state.acceptPartialSignatures requestHash sender message).2 = .ok ()
  | _ => True

def Action.isMessage : Action W T → Prop
  | .acceptNonces _ _ _ => True
  | .acceptPartialSignatures _ _ _ => True
  | _ => False

variable (signers hashes : List W) (nonceOf : W → List M.PublicNonce) (requestHash : W) (channel : ℕ)

/-- What one message does to a round that the local node waits for. -/
inductive Advance (state : SigningState M) (session : SigningSession M) (action : Action W T)
    (accepted : Prop) (state' : SigningState M) : Prop
  | finished (hok : accepted) (hdone : HasResult channel state')
      (hall : ∀ s ∈ signers, s ≠ state.localNode → HoldsGood signers hashes nonceOf session s ∨
        Delivers signers hashes nonceOf requestHash state s action)
  | waits (session' : SigningSession M)
      (hpending : Pending signers hashes nonceOf requestHash channel state' session')
      (hnonces : ∀ s ∈ signers, (session'.contribution s).nonces =
        (session.contribution s).nonces.or (submittedNonces requestHash hashes.length s action))
      (hgood : ∀ s ∈ signers, s ≠ state.localNode →
        (HoldsGood signers hashes nonceOf session' s ↔ HoldsGood signers hashes nonceOf session s ∨
          Delivers signers hashes nonceOf requestHash state s action))

variable {signers hashes nonceOf requestHash channel} {state state' : SigningState M}
  {session session' : SigningSession M} {past : List (Action W T)}

theorem completeThen_eq {A : Type} (state : SigningState M) (requestHash : W) (value : A) :
    (state.completeThen requestHash value).1 = (state.completeSession requestHash).1 ∧
      ((state.completeSession requestHash).2 = .ok () →
        (state.completeThen requestHash value).2 = .ok value) := by
  rw [SigningState.completeThen]
  cases hrun : state.completeSession requestHash with
  | mk state' r =>
    cases r with
    | error e => exact ⟨rfl, fun h => by cases h⟩
    | ok _ => exact ⟨rfl, fun _ => rfl⟩

theorem submittedNonces_eq_some_iff {requestHash' signer sender : W} {count : ℕ}
    {message : SigningNoncesMessage W} {nonces : List M.PublicNonce} :
    submittedNonces requestHash count signer
        (.acceptNonces requestHash' sender message : Action W T) = some nonces ↔
      (requestHash' = requestHash ∧ sender = signer ∧ message.signer = signer ∧
        message.nonces.length = count) ∧ SigningState.parseNonces message.nonces = .ok nonces := by
  rw [submittedNonces]
  split_ifs with h
  · rw [and_iff_right h]
    cases SigningState.parseNonces (M := M) message.nonces <;> simp [Except.toOption]
  · simp [h]

theorem Advance.imp {action : Action W T} {accepted accepted' : Prop}
    (h : Advance signers hashes nonceOf requestHash channel state session action accepted state')
    (himp : accepted → accepted') :
    Advance signers hashes nonceOf requestHash channel state session action accepted' state' := by
  cases h with
  | finished hok hdone hall => exact .finished (himp hok) hdone hall
  | waits session' hpending hnonces hgood => exact .waits session' hpending hnonces hgood

/-- A message whose contribution is in: the rest is the attempt to complete. -/
theorem Waits.advance (laws : MusigLaws M) {action : Action W T}
    (h : Waits signers hashes nonceOf requestHash channel state' session')
    (hinv : SessionInv past state'.secretKey state'.localNode requestHash session')
    (hnonces : ∀ s ∈ signers, (session'.contribution s).nonces =
      (session.contribution s).nonces.or (submittedNonces requestHash hashes.length s action))
    (hgood : ∀ s ∈ signers, s ≠ state.localNode →
      (HoldsGood signers hashes nonceOf session' s ↔ HoldsGood signers hashes nonceOf session s ∨
        Delivers signers hashes nonceOf requestHash state s action)) :
    Advance signers hashes nonceOf requestHash channel state session action
      ((state'.completeSession requestHash).2 = .ok ()) (state'.completeSession requestHash).1 := by
  rcases h.completeSession laws hinv with ⟨hok, hdone, hall⟩ | ⟨session'', hpending, hround, hsame⟩
  · exact .finished hok hdone fun s hs hne => (hgood s hs hne).mp (hall s hs)
  · refine .waits session'' hpending (fun s hs => ?_) (fun s hs hne => ?_)
    · rw [hround.nonces, hnonces s hs]
    · rw [hsame s hs, hgood s hs hne]

theorem not_delivers_acceptNonces {requestHash' sender s : W} {message : SigningNoncesMessage W} :
    ¬Delivers signers hashes nonceOf requestHash state s
      (.acceptNonces requestHash' sender message) := by
  rintro ⟨⟨_, _, h, -⟩, -⟩
  cases h

theorem Collects.storeNonces {sender : W} {message : SigningNoncesMessage W}
    {nonces : List M.PublicNonce} (h : Collects signers hashes nonceOf session)
    (hs : StoresNonces state requestHash sender message session nonces)
    (hnonceOf : nonces = nonceOf sender) :
    Collects signers hashes nonceOf (session.modify sender (·.setNonces nonces)) where
  signers_eq := h.signers_eq
  hashes_eq := h.hashes_eq
  cache_eq := h.cache_eq
  nonces s hsigner nonces' hn := by
    by_cases hsender : sender = s
    · rw [← hsender, session.contribution_modify_self sender _ hs.mem] at hn
      rw [← hsender, ← hnonceOf]
      exact (Option.some.inj hn).symm
    · rw [session.contribution_modify_of_ne sender s _ hsender] at hn
      exact h.nonces s hsigner nonces' hn

theorem StoresNonces.submitted {sender : W} {message : SigningNoncesMessage W}
    {nonces : List M.PublicNonce}
    (hs : StoresNonces state requestHash sender message session nonces) (s : W) :
    submittedNonces requestHash session.request.messageHashes.length s
      (.acceptNonces requestHash sender message : Action W T) =
        if sender = s then some nonces else none := by
  split_ifs with hsender
  · rw [submittedNonces_eq_some_iff]
    exact ⟨⟨rfl, hsender, hsender ▸ hs.signer, hs.count⟩, hs.parsed⟩
  · rw [submittedNonces, if_neg fun h => hsender h.2.1]

theorem StoresNonces.nonces_eq {sender : W} {message : SigningNoncesMessage W}
    {nonces : List M.PublicNonce}
    (hs : StoresNonces state requestHash sender message session nonces) (s : W) :
    ((session.modify sender (·.setNonces nonces)).contribution s).nonces =
      (session.contribution s).nonces.or
        (submittedNonces requestHash session.request.messageHashes.length s
          (.acceptNonces requestHash sender message : Action W T)) := by
  rw [hs.submitted]
  split_ifs with hsender
  · rw [← hsender, session.contribution_modify_self sender _ hs.mem, hs.empty]
    rfl
  · rw [session.contribution_modify_of_ne sender s _ hsender, Option.or_none]

theorem transportKeys_ok (state : SigningState M) (nodes : List W)
    (h : ∀ node ∈ nodes, node ∈ state.memberTransportKeys) :
    ∃ keys, nodes.mapM state.transportKey = .ok keys := by
  induction nodes with
  | nil => exact ⟨[], rfl⟩
  | cons node nodes ih =>
    rw [List.forall_mem_cons] at h
    obtain ⟨keys, hkeys⟩ := ih h.2
    obtain ⟨key, hkey⟩ := Option.isSome_iff_exists.mp (Std.ExtTreeMap.isSome_getElem?_iff_mem.mpr h.1)
    refine ⟨key :: keys, ?_⟩
    rw [List.mapM_cons, SigningState.transportKey, hkey, hkeys]
    rfl

theorem recipients_ok (state : SigningState M) (session : SigningSession M)
    (hlocal : session.requestor = state.localNode)
    (hrouted : ∀ s ∈ session.signers, s ∈ state.memberTransportKeys) :
    ∃ keys, (state.recipientNodes session).mapM state.transportKey = .ok keys := by
  refine transportKeys_ok state _ fun node hnode => ?_
  rw [SigningState.recipientNodes, Finset.mem_sort, Finset.mem_erase, Finset.mem_insert,
    List.mem_toFinset, hlocal] at hnode
  exact hrouted node (hnode.2.resolve_left hnode.1)

theorem partials_signedSession_self (session : SigningSession M) (localNode : W)
    (partials : List M.PartialSignature) (hmem : localNode ∈ session.contributions) :
    ((signedSession localNode session partials).contribution localNode).partialSignatures =
      some partials := by
  have hself := contribution_modify_self { session with secretNonces := none } localNode
    (·.setPartials partials) hmem
  rw [signedSession, hself]
  rfl

variable {secretKey : M.SecretKey} {sender : W}

/-- The last nonces are in: the local node signs, and its batch is good. -/
theorem Pending.signSession (laws : MusigLaws M) (hkey : state.secretKey = evenKey M secretKey)
    (hnode : state.localNode = (M.xOnlyPublicKey secretKey).1) (hinv : Inv past state)
    (h : Pending signers hashes nonceOf requestHash channel state session)
    {message : SigningNoncesMessage W} {nonces : List M.PublicNonce} {secrets : List (SecretNonce W)}
    (hs : StoresNonces state requestHash sender message session nonces)
    (hpast : .acceptNonces requestHash sender message ∈ past)
    (hnonceOf : nonces = nonceOf sender) (hsecrets : session.secretNonces = some secrets)
    (hready : (session.modify sender (·.setNonces nonces)).noncesReady = true) :
    Advance signers hashes nonceOf requestHash channel state session
      (.acceptNonces requestHash sender message)
      (∃ reply, (state.signSession requestHash (session.modify sender (·.setNonces nonces))
        secrets).2 = .ok reply)
      (state.signSession requestHash (session.modify sender (·.setNonces nonces)) secrets).1 := by
  have hcollects := h.collects.storeNonces hs hnonceOf
  have hold := hinv.sessions _ _ hs.found
  have hstored := hold.storeNonces hs hpast
  obtain ⟨hlocal, hhashes, -⟩ := hstored.own secrets hsecrets
  have hcount : secrets.length =
      (session.modify sender (·.setNonces nonces)).request.messageHashes.length := by
    rw [← hhashes, List.length_map]
  obtain ⟨partials, hpartials⟩ := hcollects.signFrom_ok hstored hready state secrets
  have hout := signSession_outcome state requestHash (session.modify sender (·.setNonces nonces)) secrets
  generalize state.signSession requestHash (session.modify sender (·.setNonces nonces)) secrets =
    out at hout ⊢
  cases hout with
  | badKeys e hkeys =>
    rw [hcollects.signers_eq, hcollects.cache_eq] at hkeys
    cases hkeys
  | failed used e hused hkeys hsign => cases hpartials.symm.trans hsign
  | unroutable used partials' e hused hkeys hsign hrecipients =>
    obtain ⟨keys, hok⟩ := recipients_ok state
      (signedSession state.localNode (session.modify sender (·.setNonces nonces)) partials')
      h.requestor (h.collects.signers_eq ▸ h.routed)
    cases hok.symm.trans hrecipients
  | signed used partials' value hused hkeys hsign =>
    have hround : SameRound (session.modify sender (·.setNonces nonces)) (signedSession state.localNode
        (session.modify sender (·.setNonces nonces)) partials') :=
      SessionInv.sameRound_signedSession partials'
    have hlength : partials'.length =
        (session.modify sender (·.setNonces nonces)).request.messageHashes.length := by
      rw [(Signing.signFrom_ok _ _ _ _ 0 partials' hsign).1, List.length_zip, hcount, min_self]
    have hgoodLocal : HoldsGood signers hashes nonceOf (signedSession state.localNode
        (session.modify sender (·.setNonces nonces)) partials') state.localNode := by
      refine ⟨partials', ?_, ?_⟩
      · exact partials_signedSession_self _ _ _ ((hstored.keys _).mpr hlocal)
      · rw [hkey, hnode] at hstored
        rw [hnode]
        exact hcollects.own_roundVerifies laws secretKey hstored hready hkey hsecrets hsign
    have hwaits : Waits signers hashes nonceOf requestHash channel
        ((state.put requestHash (signedSession state.localNode
          (session.modify sender (·.setNonces nonces)) partials')).log (used.map .signed))
        (signedSession state.localNode (session.modify sender (·.setNonces nonces)) partials') :=
      ⟨getElem?_put_self _ _ _, hcollects.of_sameRound hround, h.requestor,
        h.completion, h.routed, fun _ => .inr ⟨by rw [hround.noncesReady, hready], hgoodLocal⟩⟩
    obtain ⟨hfst, hok⟩ := completeThen_eq ((state.put requestHash (signedSession state.localNode
      (session.modify sender (·.setNonces nonces)) partials')).log (used.map .signed)) requestHash value
    rw [hfst]
    refine (hwaits.advance laws (hstored.signed (hold.unverified_storeNonces hs) hlength)
      (fun s hsigner => ?_) (fun s hsigner hne => ?_)).imp fun h => ⟨value, hok h⟩
    · rw [hround.nonces, hs.nonces_eq, h.collects.hashes_eq]
    · rw [or_iff_left not_delivers_acceptNonces]
      refine holdsGood_congr ?_
      rw [partials_signedSession _ _ _ _ hne, partials_setNonces]

/-- A message that changes nothing had nothing to add. -/
theorem Pending.ignored {action : Action W T} {accepted : Prop}
    (h : Pending signers hashes nonceOf requestHash channel state session)
    (hnonces : ∀ s ∈ signers, (session.contribution s).nonces = none →
      submittedNonces (M := M) requestHash hashes.length s action = none)
    (hgood : ∀ s ∈ signers, Delivers signers hashes nonceOf requestHash state s action →
      HoldsGood signers hashes nonceOf session s) :
    Advance signers hashes nonceOf requestHash channel state session action accepted state := by
  refine .waits session h (fun s hs => ?_) (fun s hs _ => ?_)
  · cases hn : (session.contribution s).nonces with
    | none => rw [hnonces s hs hn, Option.or_none]
    | some nonces => rw [Option.some_or]
  · exact ⟨.inl, fun hor => hor.elim id (hgood s hs)⟩

theorem Pending.acceptNonces (laws : MusigLaws M) (hkey : state.secretKey = evenKey M secretKey)
    (hnode : state.localNode = (M.xOnlyPublicKey secretKey).1) (hinv : Inv past state)
    (h : Pending signers hashes nonceOf requestHash channel state session)
    {message : SigningNoncesMessage W} (hpast : .acceptNonces requestHash sender message ∈ past)
    (hnonceOf : ∀ s ∈ signers, ∀ nonces, (session.contribution s).nonces = none →
      submittedNonces requestHash hashes.length s
        (.acceptNonces requestHash sender message : Action W T) = some nonces → nonces = nonceOf s) :
    Advance signers hashes nonceOf requestHash channel state session
      (.acceptNonces requestHash sender message)
      (∃ reply, (state.acceptNonces requestHash sender message).2 = .ok reply)
      (state.acceptNonces requestHash sender message).1 := by
  have hold := hinv.sessions _ _ h.found
  have hstores : ∀ session₀ nonces,
      StoresNonces state requestHash sender message session₀ nonces →
        session₀ = session ∧ nonces = nonceOf sender := by
    intro session₀ nonces hs
    obtain rfl := Option.some.inj (hs.found.symm.trans h.found)
    refine ⟨rfl, hnonceOf sender (h.collects.signers_eq ▸ (hold.keys _).mp hs.mem) nonces hs.empty ?_⟩
    rw [← h.collects.hashes_eq, hs.submitted, if_pos rfl]
  have hout := acceptNonces_outcome state requestHash sender message
  generalize state.acceptNonces requestHash sender message = out at hout ⊢
  cases hout with
  | ignored hnot r =>
    refine h.ignored (fun s hs hn => ?_) (fun s hs hd => absurd hd not_delivers_acceptNonces)
    rw [Option.eq_none_iff_forall_ne_some]
    intro nonces hsub
    obtain ⟨⟨-, rfl, hsigner, hcount⟩, hparsed⟩ := submittedNonces_eq_some_iff.mp hsub
    exact hnot ⟨session, nonces, hsigner, h.found, h.collects.hashes_eq ▸ hcount,
      (hold.keys _).mpr (h.collects.signers_eq ▸ hs), hn, hparsed⟩
  | stored session₀ nonces hs hwait =>
    obtain ⟨rfl, hnonces⟩ := hstores session₀ nonces hs
    have hwaits : Waits signers hashes nonceOf requestHash channel
        (state.put requestHash (session₀.modify sender (·.setNonces nonces)))
        (session₀.modify sender (·.setNonces nonces)) := by
      refine ⟨getElem?_put_self _ _ _, h.collects.storeNonces hs hnonces, h.requestor,
        h.completion, h.routed, fun hlocal => .inl ?_⟩
      rcases h.own hlocal with ⟨hsecrets, -⟩ | ⟨hready, -⟩
      · refine ⟨hsecrets, hwait.resolve_left (fun hnone => ?_) |>.resolve_left (fun hnot => ?_)⟩
        · rw [hnone] at hsecrets
          cases hsecrets
        · exact hnot (h.collects.signers_eq.symm ▸ hlocal)
      · have hsome := session₀.noncesReady_iff.mp hready sender hs.mem
        rw [hs.empty] at hsome
        cases hsome
    obtain ⟨hfst, hok⟩ := completeThen_eq
      (state.put requestHash (session₀.modify sender (·.setNonces nonces))) requestHash
      (none : Option (PartialSignaturesMessage W × List T))
    rw [hfst]
    refine (hwaits.advance laws (hold.storeNonces hs hpast) (fun s hsigner => ?_)
      (fun s hsigner hne => ?_)).imp fun h => ⟨none, hok h⟩
    · rw [hs.nonces_eq, h.collects.hashes_eq]
    · rw [or_iff_left not_delivers_acceptNonces]
      exact holdsGood_congr (partials_setNonces _ _ _ _)
  | signs session₀ nonces secrets hs hsecrets hlocal hready =>
    obtain ⟨rfl, hnonces⟩ := hstores session₀ nonces hs
    exact h.signSession laws hkey hnode hinv hs hpast hnonces hsecrets hready

theorem Pending.acceptPartialSignatures (laws : MusigLaws M) (hinv : Inv past state)
    (h : Pending signers hashes nonceOf requestHash channel state session)
    {message : PartialSignaturesMessage W}
    (hpast : .acceptPartialSignatures requestHash sender message ∈ past) :
    Advance signers hashes nonceOf requestHash channel state session
      (.acceptPartialSignatures requestHash sender message)
      ((state.acceptPartialSignatures requestHash sender message).2 = .ok ())
      (state.acceptPartialSignatures requestHash sender message).1 := by
  have hold := hinv.sessions _ _ h.found
  have hout := acceptPartialSignatures_outcome state requestHash sender message
  generalize state.acceptPartialSignatures requestHash sender message = out at hout ⊢
  cases hout with
  | ignored hnot r =>
    refine h.ignored (fun _ _ _ => rfl) fun s hs hd => ?_
    obtain ⟨m, partials, hm, hsigner, hcount, hparsed, hv⟩ := hd.batch
    obtain ⟨rfl, rfl⟩ : sender = s ∧ message = m := by simpa using hm
    cases hslot : (session.contribution sender).partialSignatures with
    | some stored => exact ⟨stored, hslot, hd.unblocked session stored h.found hslot⟩
    | none =>
      refine absurd ⟨session, partials, hsigner, h.found, h.collects.hashes_eq ▸ hcount,
        (hold.keys _).mpr (h.collects.signers_eq ▸ hs), hslot, hparsed, fun hready => ⟨?_, ?_⟩⟩ hnot
      · rw [h.collects.signers_eq]
        exact h.collects.cache_eq
      · exact (h.collects.verify_iff hold hready hs partials).mpr hv
  | stored session₀ partials hs =>
    obtain rfl := Option.some.inj (hs.found.symm.trans h.found)
    have hself := session₀.contribution_modify_self sender
      (fun c => (c.setPartials partials).setVerified session₀.noncesReady) hs.mem
    have hother : ∀ s, sender ≠ s → ((session₀.modify sender fun c =>
        (c.setPartials partials).setVerified session₀.noncesReady).contribution s).partialSignatures =
          (session₀.contribution s).partialSignatures := fun s hne => by
      rw [session₀.contribution_modify_of_ne sender s _ hne]
    have hempty : ¬HoldsGood signers hashes nonceOf session₀ sender := by
      rintro ⟨ps, hp, -⟩
      rw [hs.empty] at hp
      cases hp
    have hround : SameRound session₀ (session₀.modify sender fun c =>
        (c.setPartials partials).setVerified session₀.noncesReady) := SameRound.modify sender _ fun _ => rfl
    have hwaits := h.toWaits.put hround rfl rfl fun hgood => (holdsGood_congr (hother _ fun hne =>
      hempty (hne ▸ hgood))).mpr hgood
    refine hwaits.advance laws (hold.storePartials hs hpast) (fun s _ => ?_) (fun s hsigner _ => ?_)
    · rw [hround.nonces]
      exact Option.or_none.symm
    · by_cases hsender : sender = s
      · subst hsender
        rw [or_iff_right hempty]
        constructor
        · rintro ⟨ps, hp, hv⟩
          rw [hself] at hp
          cases hp
          refine ⟨⟨message, partials, rfl, hs.signer, h.collects.hashes_eq ▸ hs.count, hs.parsed, hv⟩,
            fun session' ps hfound hp => ?_⟩
          obtain rfl := Option.some.inj (hs.found.symm.trans hfound)
          rw [hs.empty] at hp
          cases hp
        · rintro ⟨⟨m, ps, hm, -, -, hparsed, hv⟩, -⟩
          cases hm
          cases hs.parsed.symm.trans hparsed
          exact ⟨partials, by rw [hself]; rfl, hv⟩
      · rw [holdsGood_congr (hother s hsender), or_iff_left]
        rintro ⟨⟨m, ps, hm, -⟩, -⟩
        cases hm
        exact hsender rfl

/-- A message for another session. -/
theorem Pending.frame {requestHash' : W} {action : Action W T}
    {accepted : Prop} (h : Pending signers hashes nonceOf requestHash channel state session)
    (hframe : Frame state state' requestHash') (hne : requestHash ≠ requestHash')
    (hnonces : ∀ s, submittedNonces (M := M) requestHash hashes.length s action = none)
    (hdelivers : ∀ s, ¬Delivers signers hashes nonceOf requestHash state s action) :
    Advance signers hashes nonceOf requestHash channel state session action accepted state' := by
  refine .waits session ⟨⟨?_, h.collects, ?_, h.completion, ?_, ?_⟩, h.lacks⟩ (fun s _ => ?_) (fun s _ _ => ?_)
  · rw [hframe.other requestHash hne, h.found]
  · rw [hframe.localNode, h.requestor]
  · rw [hframe.members]
    exact h.routed
  · rw [hframe.localNode]
    exact h.own
  · rw [hnonces, Option.or_none]
  · rw [or_iff_left (hdelivers s)]

/-- A channel that a session holds has no result yet. -/
theorem Pending.not_hasResult (h : Pending signers hashes nonceOf requestHash channel state session)
    (hinv : Inv past state) : ¬HasResult channel state := by
  rintro ⟨session', result, hmem⟩
  refine hinv.channels.held_unspent requestHash channel ?_
    (List.mem_filterMap.mpr ⟨_, hmem, rfl⟩)
  rw [heldChannels_of_getElem? h.found, h.completion]
  exact List.mem_singleton_self _

/-- With every nonce in, some signer other than the local node still owes a good batch. -/
theorem Pending.lacks_other (h : Pending signers hashes nonceOf requestHash channel state session)
    (hinv : Inv past state)
    (hnonces : ∀ s ∈ signers, (session.contribution s).nonces = some (nonceOf s)) :
    ∃ s ∈ signers, s ≠ state.localNode ∧ ¬HoldsGood signers hashes nonceOf session s := by
  have hkeys := (hinv.sessions _ _ h.found).keys
  have hready : session.noncesReady = true := session.noncesReady_iff.mpr fun s hs => by
    rw [hkeys, h.collects.signers_eq] at hs
    rw [hnonces s hs]
    rfl
  obtain ⟨s, hs, hnot⟩ := h.lacks hready
  refine ⟨s, hs, ?_, hnot⟩
  rintro rfl
  rcases h.own hs with ⟨-, hwait⟩ | ⟨-, hgood⟩
  · rw [hready] at hwait
    cases hwait
  · exact hnot hgood

end Message

end Signing
end PriceOracle
