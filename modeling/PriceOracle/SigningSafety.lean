import PriceOracle.SigningRun

/-!
# Signing session safety

In every run a secret nonce signs at most once and a completion channel ends at
most once. A result that is sent stands on one nonce and one verified share of
every signer for every message, and holds one signature for each of them.
-/

namespace PriceOracle

namespace Signing

variable {W T : Type} [LinearOrder W] {M : Musig W T}

open SigningSession
open TokenLedger (Ledger)

namespace Event

def draw : Event M → Option ℕ
  | signed secret => some secret.draw
  | _ => none

def channel : Event M → Option ℕ
  | signed _ => none
  | completed channel _ _ => some channel
  | expired channel => some channel
  | dropped channel => some channel

end Event

/-- What a result stands on, after the actions `past`. -/
structure Completed (past : List (Action W T)) (localNode : W) (session : SigningSession M)
    (result : SigningResult W M.Signature) : Prop where
  branch : result.signingStormTreeBranch = session.request.signingStormTreeBranch
  contributed : ∀ signer ∈ session.signers, ∃ nonces partials,
    (session.contribution signer).nonces = some nonces ∧
    nonces.length = session.request.messageHashes.length ∧
    (session.contribution signer).partialSignatures = some partials ∧
    partials.length = session.request.messageHashes.length ∧
    (∀ (i : ℕ) share messageHash, partials[i]? = some share →
      session.request.messageHashes[i]? = some messageHash →
        ShareVerifies session (M.keyAggCache session.signers) signer nonces i share messageHash) ∧
    (signer ≠ localNode →
      (∃ message, .acceptNonces result.requestHash signer message ∈ past ∧ message.signer = signer ∧
        SigningState.parseNonces message.nonces = .ok nonces) ∧
      ∃ message, .acceptPartialSignatures result.requestHash signer message ∈ past ∧
        message.signer = signer ∧
        SigningState.parsePartials signer 0 message.partialSignatures = .ok partials)
  signatures_length : result.signatures.length = session.request.messageHashes.length
  signatures : ∀ (i : ℕ) messageHash, session.request.messageHashes[i]? = some messageHash →
    ∃ signing, musigSession session (M.keyAggCache session.signers) i messageHash = .ok signing ∧
      result.signatures[i]? = some (M.partialSigAgg signing (sharesAt session i)) ∧
      M.verify (M.partialSigAgg signing (sharesAt session i))
        (M.aggPk (M.keyAggCache session.signers)) messageHash = true

theorem Completed.mono {past past' : List (Action W T)} {localNode : W} {session : SigningSession M}
    {result : SigningResult W M.Signature} (h : Completed past localNode session result)
    (hsub : past ⊆ past') : Completed past' localNode session result :=
  { h with
    contributed := fun signer hs => by
      obtain ⟨nonces, partials, hn, hnl, hp, hpl, hv, hreceived⟩ := h.contributed signer hs
      refine ⟨nonces, partials, hn, hnl, hp, hpl, hv, fun hne => ?_⟩
      obtain ⟨⟨m, hm, hrest⟩, m', hm', hrest'⟩ := hreceived hne
      exact ⟨⟨m, hsub hm, hrest⟩, m', hsub hm', hrest'⟩ }

theorem SessionInv.completed {past : List (Action W T)} {secretKey : M.SecretKey}
    {localNode requestHash : W} {session session' : SigningSession M}
    (h : SessionInv past secretKey localNode requestHash session)
    (hready : session.noncesReady = true)
    (hj : Judged (M.keyAggCache session.signers) session.signers session session')
    (hpartials : session'.partialsReady = true) {signatures : List M.Signature}
    (hagg : aggregateFrom session' (M.keyAggCache session.signers) 0
      session'.request.messageHashes = .ok signatures) :
    Completed past localNode session'
      ⟨requestHash, session'.request.signingStormTreeBranch, signatures⟩ := by
  have hinv := h.judged hready hj
  have hready' : session'.noncesReady = true := by rw [hj.round.noncesReady, hready]
  rw [← hj.round.signers] at hagg
  obtain ⟨hlength, hall⟩ := aggregateFrom_ok _ _ _ 0 signatures hagg
  refine ⟨rfl, fun signer hs => ?_, hlength, fun i messageHash hi => ?_⟩
  · have hmem := (hinv.keys signer).mpr hs
    have hsome := session'.partialsReady_iff.mp hpartials signer hmem
    have hflag := hj.all_verified signer (hj.round.signers ▸ hs) hsome
    obtain ⟨-, partials, hp, hok⟩ := hinv.verified signer hflag
    obtain ⟨nonces, hn⟩ := Option.isSome_iff_exists.mp (session'.noncesReady_iff.mp hready' signer hmem)
    obtain ⟨-, nonces', hn', hshares⟩ := (verifySignerPartials_ok_iff _ _ _ _).mp hok
    obtain rfl := Option.some.inj (hn.symm.trans hn')
    exact ⟨nonces, partials, hn, hinv.nonces_length signer nonces hn, hp,
      hinv.partials_length signer partials hp, hshares, fun hne =>
        ⟨hinv.nonces_received signer nonces hne hn, hinv.partials_received signer partials hne hp⟩⟩
  · have := hall i messageHash hi
    rwa [Nat.zero_add] at this

namespace SigningState

variable (state : SigningState M)

/-- The draws of the secret nonces a session still holds. -/
def heldDraws (requestHash : W) : List ℕ :=
  ((state.sessions[requestHash]?.bind (·.secretNonces)).getD []).map SecretNonce.draw

def heldChannels (requestHash : W) : List ℕ :=
  (state.sessions[requestHash]?.bind (·.completion)).toList

end SigningState

/-- The invariant of the coordinator after the actions `past`. -/
structure Inv (past : List (Action W T)) (state : SigningState M) : Prop where
  sessions : ∀ requestHash session, state.sessions[requestHash]? = some session →
    SessionInv past state.secretKey state.localNode requestHash session
  completed : ∀ channel session result, .completed channel session result ∈ state.events →
    Completed past state.localNode session result
  draws : Ledger state.heldDraws (state.events.filterMap Event.draw) state.draws
  channels : Ledger state.heldChannels (state.events.filterMap Event.channel) state.channels

/-- A change of one session that logs `events` and creates no token. -/
structure Update (state state' : SigningState M) (requestHash : W) (events : List (Event M)) :
    Prop where
  secretKey : state'.secretKey = state.secretKey
  localNode : state'.localNode = state.localNode
  counters : state'.draws = state.draws ∧ state'.channels = state.channels
  events_eq : state'.events = state.events ++ events
  other : ∀ k, k ≠ requestHash → state'.sessions[k]? = state.sessions[k]?
  draws : (events.filterMap Event.draw ++ state'.heldDraws requestHash).Sublist
    (state.heldDraws requestHash)
  channels : (events.filterMap Event.channel ++ state'.heldChannels requestHash).Sublist
    (state.heldChannels requestHash)

namespace Inv

variable {past : List (Action W T)} {state state' : SigningState M} {requestHash : W}

theorem mono (h : Inv past state) {past' : List (Action W T)} (hsub : past ⊆ past') :
    Inv past' state :=
  { h with
    sessions := fun k session hs => (h.sessions k session hs).mono hsub
    completed := fun channel session result he => (h.completed channel session result he).mono hsub }

/-- The step rule: one session changes, within its invariant and its tokens. -/
theorem update (h : Inv past state) {events : List (Event M)}
    (hu : Update state state' requestHash events)
    (hsession : ∀ session, state'.sessions[requestHash]? = some session →
      SessionInv past state.secretKey state.localNode requestHash session)
    (hcompleted : ∀ channel session result, .completed channel session result ∈ events →
      Completed past state.localNode session result) : Inv past state' where
  sessions k session hs := by
    rw [hu.secretKey, hu.localNode]
    by_cases hk : k = requestHash
    · subst hk
      exact hsession session hs
    · rw [hu.other k hk] at hs
      exact h.sessions k session hs
  completed channel session result he := by
    rw [hu.events_eq, List.mem_append] at he
    rw [hu.localNode]
    rcases he with he | he
    · exact h.completed channel session result he
    · exact hcompleted channel session result he
  draws := by
    rw [hu.events_eq, List.filterMap_append, hu.counters.1]
    refine h.draws.spend requestHash _ (fun k hk => ?_) hu.draws
    rw [SigningState.heldDraws, hu.other k hk, SigningState.heldDraws]
  channels := by
    rw [hu.events_eq, List.filterMap_append, hu.counters.2]
    refine h.channels.spend requestHash _ (fun k hk => ?_) hu.channels
    rw [SigningState.heldChannels, hu.other k hk, SigningState.heldChannels]

end Inv

section Updates

variable {state : SigningState M} {requestHash : W} {session : SigningSession M}

theorem heldDraws_of_getElem? (hs : state.sessions[requestHash]? = some session) :
    state.heldDraws requestHash = (session.secretNonces.getD []).map SecretNonce.draw := by
  rw [SigningState.heldDraws, hs]
  rfl

theorem heldChannels_of_getElem? (hs : state.sessions[requestHash]? = some session) :
    state.heldChannels requestHash = session.completion.toList := by
  rw [SigningState.heldChannels, hs]
  rfl

theorem getElem?_put (state : SigningState M) (requestHash k : W) (session : SigningSession M) :
    (state.put requestHash session).sessions[k]? =
      if requestHash = k then some session else state.sessions[k]? := by
  rw [SigningState.put, Std.ExtTreeMap.getElem?_insert]
  simp only [compare_eq_iff_eq]

theorem getElem?_put_self (state : SigningState M) (requestHash : W) (session : SigningSession M) :
    (state.put requestHash session).sessions[requestHash]? = some session := by
  rw [getElem?_put, if_pos rfl]

/-- Writing a session back, having used up some of its secret nonces. -/
theorem update_put (hs : state.sessions[requestHash]? = some session) (session' : SigningSession M)
    (used : List (SecretNonce W)) (hcompletion : session'.completion = session.completion)
    (hused : (used ++ session'.secretNonces.getD []).Sublist (session.secretNonces.getD [])) :
    Update state ((state.put requestHash session').log (used.map .signed)) requestHash
      (used.map .signed) := by
  have hself : ((state.put requestHash session').log (used.map .signed)).sessions[requestHash]? =
      some session' := by
    exact getElem?_put_self state requestHash session'
  have hdraws : (used.map (Event.signed (M := M))).filterMap Event.draw = used.map SecretNonce.draw := by
    rw [List.filterMap_map]
    exact congrFun (List.filterMap_eq_map (f := SecretNonce.draw)) used
  have hchannels : (used.map (Event.signed (M := M))).filterMap Event.channel = [] := by
    rw [List.filterMap_map]
    exact List.filterMap_eq_nil_iff.mpr fun _ _ => rfl
  refine ⟨rfl, rfl, ⟨rfl, rfl⟩, rfl, fun k hk => ?_, ?_, ?_⟩
  · rw [SigningState.log, getElem?_put, if_neg (Ne.symm hk)]
  · rw [heldDraws_of_getElem? hself, heldDraws_of_getElem? hs, hdraws, ← List.map_append]
    exact hused.map _
  · rw [heldChannels_of_getElem? hself, heldChannels_of_getElem? hs, hchannels, hcompletion]
    exact List.Sublist.refl _

/-- Removing a session and telling its completion channel. -/
theorem update_erase (hs : state.sessions[requestHash]? = some session) (f : ℕ → Event M)
    (hdraw : ∀ channel, (f channel).draw = none) (hchannel : ∀ channel, (f channel).channel = some channel) :
    Update state { state with
      sessions := state.sessions.erase requestHash
      events := state.events ++ (session.completion.map f).toList } requestHash
      (session.completion.map f).toList := by
  have hself : (state.sessions.erase requestHash)[requestHash]? = none :=
    Std.ExtTreeMap.getElem?_erase_self
  refine ⟨rfl, rfl, ⟨rfl, rfl⟩, rfl, fun k hk => ?_, ?_, ?_⟩
  · rw [Std.ExtTreeMap.getElem?_erase, if_neg (by rw [compare_eq_iff_eq]; exact Ne.symm hk)]
  · rw [SigningState.heldDraws, hself]
    cases session.completion with
    | none => exact List.nil_sublist _
    | some channel => simp [hdraw]
  · rw [SigningState.heldChannels, hself, heldChannels_of_getElem? hs]
    cases session.completion with
    | none => exact List.Sublist.refl _
    | some channel => simp [hchannel]

end Updates

section Steps

variable {past : List (Action W T)} {state : SigningState M} {requestHash : W}
  {session session' : SigningSession M}

theorem log_nil (state : SigningState M) : state.log [] = state := by
  rw [SigningState.log, List.append_nil]

theorem Inv.put (h : Inv past state) (hs : state.sessions[requestHash]? = some session)
    (hinv : SessionInv past state.secretKey state.localNode requestHash session')
    (hcompletion : session'.completion = session.completion)
    (hsecrets : session'.secretNonces = session.secretNonces) :
    Inv past (state.put requestHash session') := by
  have hu := update_put hs session' [] hcompletion (by rw [hsecrets]; exact List.Sublist.refl _)
  rw [List.map_nil, log_nil] at hu
  refine h.update hu (fun session'' hs'' => ?_) (fun _ _ _ he => absurd he List.not_mem_nil)
  rw [getElem?_put, if_pos rfl] at hs''
  exact Option.some.inj hs'' ▸ hinv

/-- The secret nonces leave the session; those used are logged. -/
theorem Inv.take (h : Inv past state) (hs : state.sessions[requestHash]? = some session)
    (hinv : SessionInv past state.secretKey state.localNode requestHash session')
    (hcompletion : session'.completion = session.completion) {secrets used : List (SecretNonce W)}
    (hsecrets : session.secretNonces = some secrets) (hnone : session'.secretNonces = none)
    (hused : used.Sublist secrets) :
    Inv past ((state.put requestHash session').log (used.map .signed)) := by
  have hu := update_put hs session' used hcompletion (by
    rw [hsecrets, hnone]
    simpa using hused)
  refine h.update hu (fun session'' hs'' => ?_) (fun _ _ _ he => ?_)
  · rw [SigningState.log, getElem?_put, if_pos rfl] at hs''
    exact Option.some.inj hs'' ▸ hinv
  · simp at he

theorem Inv.completeSession (h : Inv past state) (hs : state.sessions[requestHash]? = some session) :
    Inv past (state.completeSession requestHash).1 := by
  have hinv := h.sessions requestHash session hs
  have hout := completeSession_outcome state requestHash session hs
  generalize state.completeSession requestHash = out at hout ⊢
  cases hout with
  | waiting _ => exact h
  | badKeys e _ _ => exact h
  | cleared session' bad e hready hlocal hkeys hc =>
    exact h.put hs (hinv.cleared hready hc) hc.completion hc.secretNonces
  | unfinished session' hready hlocal hkeys hj hpartials =>
    exact h.put hs (hinv.judged hready hj) hj.completion hj.secretNonces
  | badAggregate session' e hready hlocal hkeys hj hpartials hagg =>
    exact h.put hs (hinv.judged hready hj) hj.completion hj.secretNonces
  | finished session' signatures hready hlocal hkeys hj hpartials hagg =>
    have hu := update_erase hs (fun channel => .completed channel session'
      ⟨requestHash, session'.request.signingStormTreeBranch, signatures⟩) (fun _ => rfl) (fun _ => rfl)
    rw [← hj.completion] at hu
    refine h.update hu (fun session'' hs'' => ?_) (fun channel s r he => ?_)
    · change (state.sessions.erase requestHash)[requestHash]? = some session'' at hs''
      rw [Std.ExtTreeMap.getElem?_erase_self] at hs''
      cases hs''
    · simp only [Option.mem_toList, Option.map_eq_some_iff] at he
      obtain ⟨_, -, he⟩ := he
      cases he
      exact hinv.completed hready hj hpartials hagg

theorem Inv.completeThen {A : Type} {value : A} (h : Inv past state)
    (hs : state.sessions[requestHash]? = some session) :
    Inv past (state.completeThen requestHash value).1 := by
  have hc := h.completeSession hs
  rw [SigningState.completeThen]
  cases hrun : state.completeSession requestHash with
  | mk state' r =>
    rw [hrun] at hc
    cases r <;> exact hc

theorem Inv.signSession (h : Inv past state) (hs : state.sessions[requestHash]? = some session)
    (hinv : SessionInv past state.secretKey state.localNode requestHash session')
    (hcompletion : session'.completion = session.completion) {secrets : List (SecretNonce W)}
    (hsecrets : session.secretNonces = some secrets) (hsecrets' : session'.secretNonces = some secrets)
    (hunverified : ∀ s, (session'.contribution s).partialSignaturesVerified = false) :
    Inv past (state.signSession requestHash session' secrets).1 := by
  have hlength : secrets.length = session'.request.messageHashes.length := by
    rw [← (hinv.own secrets hsecrets').2.1, List.length_map]
  have hpairs : (session'.request.messageHashes.zip secrets).map Prod.snd = secrets := by
    rw [List.map_snd_zip]
    omega
  have hpartials : ∀ partials, (state.signFrom { session' with secretNonces := none }
      (M.keyAggCache session'.signers) 0 (session'.request.messageHashes.zip secrets)).2 =
        .ok partials → partials.length = session'.request.messageHashes.length := by
    intro partials hsign
    rw [(signFrom_ok _ _ _ _ 0 partials hsign).1, List.length_zip]
    omega
  have hsigned : ∀ (used : List (SecretNonce W)) partials, used.Sublist secrets →
      partials.length = session'.request.messageHashes.length →
      Inv past ((state.put requestHash (signedSession state.localNode session' partials)).log
        (used.map .signed)) := fun used partials hused hlen =>
    h.take hs (hinv.signed hunverified hlen) hcompletion hsecrets rfl hused
  have hout := signSession_outcome state requestHash session' secrets
  generalize state.signSession requestHash session' secrets = out at hout ⊢
  cases hout with
  | badKeys e hkeys => exact h.put hs hinv hcompletion (hsecrets'.trans hsecrets.symm)
  | failed used e hused hkeys hsign =>
    rw [hpairs] at hused
    exact h.take hs hinv.takeSecrets hcompletion hsecrets rfl hused
  | unroutable used partials e hused hkeys hsign hrecipients =>
    rw [hpairs] at hused
    exact hsigned used partials hused (hpartials partials hsign)
  | signed used partials value hused hkeys hsign =>
    rw [hpairs] at hused
    apply (hsigned used partials hused (hpartials partials hsign)).completeThen
    exact getElem?_put_self state requestHash (signedSession state.localNode session' partials)

theorem Inv.acceptNonces (h : Inv past state) (sender : W) (message : SigningNoncesMessage W)
    (hpast : .acceptNonces requestHash sender message ∈ past) :
    Inv past (state.acceptNonces requestHash sender message).1 := by
  have hout := acceptNonces_outcome state requestHash sender message
  generalize state.acceptNonces requestHash sender message = out at hout ⊢
  cases hout with
  | ignored _ r => exact h
  | stored session nonces hstores _ =>
    have hinv := (h.sessions _ _ hstores.found).storeNonces hstores hpast
    apply (h.put hstores.found hinv rfl rfl).completeThen
    exact getElem?_put_self state requestHash (session.modify sender (·.setNonces nonces))
  | signs session nonces secrets hstores hsecrets hlocal hready =>
    have hinv := h.sessions _ _ hstores.found
    exact h.signSession hstores.found (hinv.storeNonces hstores hpast) rfl hsecrets hsecrets
      (hinv.unverified_storeNonces hstores)

theorem Inv.acceptPartialSignatures (h : Inv past state) (sender : W)
    (message : PartialSignaturesMessage W)
    (hpast : .acceptPartialSignatures requestHash sender message ∈ past) :
    Inv past (state.acceptPartialSignatures requestHash sender message).1 := by
  have hout := acceptPartialSignatures_outcome state requestHash sender message
  generalize state.acceptPartialSignatures requestHash sender message = out at hout ⊢
  cases hout with
  | ignored _ r => exact h
  | stored session partials hstores =>
    have hinv := (h.sessions _ _ hstores.found).storePartials hstores hpast
    apply (h.put hstores.found hinv rfl rfl).completeSession
    exact getElem?_put_self state requestHash (session.modify sender
      fun c => (c.setPartials partials).setVerified session.noncesReady)

theorem Inv.erase (h : Inv past state) (hs : state.sessions[requestHash]? = some session)
    (f : ℕ → Event M) (hdraw : ∀ channel, (f channel).draw = none)
    (hchannel : ∀ channel, (f channel).channel = some channel)
    (hf : ∀ channel c s r, f channel ≠ .completed c s r) :
    Inv past { state with
      sessions := state.sessions.erase requestHash
      events := state.events ++ (session.completion.map f).toList } := by
  refine h.update (update_erase hs f hdraw hchannel) (fun session' hs' => ?_) (fun channel s r he => ?_)
  · rw [Std.ExtTreeMap.getElem?_erase_self] at hs'
    cases hs'
  · simp only [Option.mem_toList, Option.map_eq_some_iff] at he
    obtain ⟨c, -, he⟩ := he
    exact absurd he (hf c channel s r)

theorem Inv.expireSession (h : Inv past state) (requestHash : W) :
    Inv past (state.expireSession requestHash) := by
  rw [SigningState.expireSession]
  cases hs : state.sessions[requestHash]? with
  | none => exact h
  | some session => exact h.erase hs .expired (fun _ => rfl) (fun _ => rfl) (by simp)

theorem Inv.removeExpiredSessions (h : Inv past state) (now : ℕ) :
    Inv past (state.removeExpiredSessions now) := by
  rw [SigningState.removeExpiredSessions]
  generalize (state.sessions.toList.filter _).map Prod.fst = expired
  induction expired generalizing state with
  | nil => exact h
  | cons k expired ih => exact ih (h.expireSession k)

theorem Inv.removeSession (h : Inv past state) (requestHash : W) :
    Inv past (state.removeSession requestHash) := by
  rw [SigningState.removeSession]
  cases hs : state.sessions[requestHash]? with
  | none => exact h
  | some session => exact h.erase hs .dropped (fun _ => rfl) (fun _ => rfl) (by simp)

/-- A session opens with the draws and the channel that its start created. -/
theorem Inv.open (h : Inv past state) (requestHash : W) (drawCount channelCount : ℕ)
    (hinv : SessionInv past state.secretKey state.localNode requestHash session)
    (hdraws : (session.secretNonces.getD []).map SecretNonce.draw = List.range' state.draws drawCount)
    (hchannels : session.completion.toList = List.range' state.channels channelCount) :
    Inv past { state with
      sessions := state.sessions.insert requestHash session
      draws := state.draws + drawCount
      channels := state.channels + channelCount } := by
  have hself : (state.sessions.insert requestHash session)[requestHash]? = some session :=
    Std.ExtTreeMap.getElem?_insert_self
  have hother : ∀ k, k ≠ requestHash →
      (state.sessions.insert requestHash session)[k]? = state.sessions[k]? := fun k hk => by
    rw [Std.ExtTreeMap.getElem?_insert, if_neg (by rw [compare_eq_iff_eq]; exact Ne.symm hk)]
  refine ⟨fun k session' hs => ?_, h.completed, ?_, ?_⟩
  · by_cases hk : k = requestHash
    · subst hk
      change (state.sessions.insert k session)[k]? = some session' at hs
      rw [hself] at hs
      exact Option.some.inj hs ▸ hinv
    · exact h.sessions k session' ((hother k hk).symm.trans hs)
  · refine h.draws.mint requestHash drawCount (fun k hk => ?_) ?_
    · rw [SigningState.heldDraws, hother k hk, SigningState.heldDraws]
    · rw [SigningState.heldDraws, hself]
      exact hdraws
  · refine h.channels.mint requestHash channelCount (fun k hk => ?_) ?_
    · rw [SigningState.heldChannels, hother k hk, SigningState.heldChannels]
    · rw [SigningState.heldChannels, hself]
      exact hchannels

theorem freshSession_inv (past : List (Action W T)) (secretKey : M.SecretKey) (localNode requestHash : W)
    (now : ℕ) (requestor : W) (request : SigningRequest W) (signers : List W) (completion : Option ℕ) :
    SessionInv past secretKey localNode requestHash
      (freshSession (M := M) now requestor request signers completion) := by
  have hempty := contribution_freshSession (M := M) now requestor request signers completion
  refine ⟨mem_freshSession now requestor request signers completion, fun s nonces hn => ?_,
    fun s partials hp => ?_, fun s hv => ?_, fun s nonces _ hn => ?_, fun s partials _ hp => ?_,
    fun secrets hsec => by cases hsec⟩
  · rw [hempty] at hn
    cases hn
  · rw [hempty] at hp
    cases hp
  · rw [hempty] at hv
    cases hv
  · rw [hempty] at hn
    cases hn
  · rw [hempty] at hp
    cases hp

theorem contribution_signingSession (now : ℕ) (requestor : W) (request : SigningRequest W)
    {signers : List W} (completion : Option ℕ) {localNode : W} (hlocal : localNode ∈ signers)
    (secrets : List (SecretNonce W)) (publics : List M.PublicNonce) (s : W) :
    contribution { (freshSession now requestor request signers completion).modify localNode
        (·.setNonces publics) with secretNonces := some secrets } s =
      if localNode = s then ⟨some publics, none, false⟩ else ⟨none, none, false⟩ := by
  have hempty := contribution_freshSession (M := M) now requestor request signers completion
  change ((freshSession now requestor request signers completion).modify localNode
    (·.setNonces publics)).contribution s = _
  split_ifs with hs
  · rw [← hs, contribution_modify_self _ _ _
      ((mem_freshSession now requestor request signers completion _).mpr hlocal), hempty]
    rfl
  · rw [contribution_modify_of_ne _ _ _ _ hs, hempty]

/-- The local node's own nonces in a session that it signs. -/
theorem signingSession_inv (past : List (Action W T)) (requestHash : W) (now : ℕ) (requestor : W)
    (request : SigningRequest W) (signers : List W) (completion : Option ℕ)
    (hlocal : state.localNode ∈ signers) {secrets : List (SecretNonce W)}
    {publics : List M.PublicNonce}
    (hnonces : SigningState.drawNonces state.secretKey (M.keyAggCache signers) state.draws
      request.messageHashes = (secrets, publics)) :
    SessionInv past state.secretKey state.localNode requestHash
      { (freshSession now requestor request signers completion).modify state.localNode
          (·.setNonces publics) with secretNonces := some secrets } := by
  obtain ⟨-, hhashes, hpublics⟩ := drawNonces_spec _ _ _ _ _ _ hnonces
  have hmem := mem_freshSession (M := M) now requestor request signers completion
  have hcontribution := contribution_signingSession (M := M) now requestor request completion hlocal
    secrets publics
  have hcount : publics.length = request.messageHashes.length := by
    rw [hpublics, List.length_map, ← hhashes, List.length_map]
  refine ⟨fun s => (mem_modify _ _ _ _).trans (hmem s), fun s nonces hn => ?_, fun s partials hp => ?_,
    fun s hv => ?_, fun s nonces hs hn => ?_, fun s partials hs hp => ?_, fun secrets' hsec => ?_⟩
  · rw [hcontribution] at hn
    split_ifs at hn
    cases hn
    exact hcount
  · rw [hcontribution] at hp
    split_ifs at hp
  · rw [hcontribution] at hv
    split_ifs at hv
  · rw [hcontribution, if_neg (Ne.symm hs)] at hn
    cases hn
  · rw [hcontribution] at hp
    split_ifs at hp
  · cases hsec
    refine ⟨hlocal, hhashes, ?_⟩
    rw [hcontribution, if_pos rfl, hpublics]
    rfl

theorem Inv.startSession (h : Inv past state) (now : ℕ) (requestHash requestor : W)
    (request : SigningRequest W) (waited : Bool) :
    Inv past ((state.openChannel waited).1.startSession now requestHash requestor request
      (state.openChannel waited).2).1 := by
  have hout := startSession_outcome (state.openChannel waited).1 now requestHash requestor request
    (state.openChannel waited).2
  generalize (state.openChannel waited).1.startSession now requestHash requestor request
    (state.openChannel waited).2 = out at hout ⊢
  cases hout with
  | dropped r hr =>
    cases waited with
    | false =>
      change Inv past (state.log [])
      rwa [log_nil]
    | true =>
      refine ⟨h.sessions, fun channel session result he => ?_, ?_, ?_⟩
      · refine h.completed channel session result ?_
        change Event.completed channel session result ∈ state.events ++ [Event.dropped state.channels]
          at he
        simpa using he
      · change Ledger state.heldDraws
          ((state.events ++ [Event.dropped state.channels]).filterMap _) state.draws
        rw [List.filterMap_append]
        change Ledger state.heldDraws (_ ++ []) state.draws
        rw [List.append_nil]
        exact h.draws
      · have hchannels := h.channels.mint_spend
        change Ledger state.heldChannels
          ((state.events ++ [Event.dropped state.channels]).filterMap _) (state.channels + 1)
        rw [List.filterMap_append]
        exact hchannels
  | watches signers hnew hsigners hlocal =>
    have hinv := freshSession_inv past state.secretKey state.localNode requestHash now requestor
      request signers (state.openChannel waited).2
    cases waited with
    | false => exact h.open requestHash 0 0 hinv rfl rfl
    | true => exact h.open requestHash 0 1 hinv rfl rfl
  | signs signers secrets publics hnew hsigners hlocal hkeys hnonces =>
    have hlocal' : state.localNode ∈ signers := by cases waited <;> exact hlocal
    have hnonces' : SigningState.drawNonces state.secretKey (M.keyAggCache signers) state.draws
        request.messageHashes = (secrets, publics) := by cases waited <;> exact hnonces
    have hinv := signingSession_inv past requestHash now requestor request signers
      (state.openChannel waited).2 hlocal' hnonces'
    have hdraws := (drawNonces_spec _ _ _ _ _ _ hnonces').1
    cases waited with
    | false => exact h.open requestHash _ 0 hinv hdraws rfl
    | true => exact h.open requestHash _ 1 hinv hdraws rfl

end Steps

section Runs

variable {Sig : Type} [DecidableEq T] (J : Jets W Sig)

theorem refreshMembers_kept (state : SigningState M) (peers : List T) :
    ∃ tree keys, (state.refreshMembers J peers).1 =
      { state with tree := tree, memberTransportKeys := keys } := by
  rw [SigningState.refreshMembers]
  cases SigningState.peerKeys (M := M) peers with
  | error e => exact ⟨_, _, rfl⟩
  | ok keys =>
    simp only
    split_ifs
    · exact ⟨_, _, rfl⟩
    · exact ⟨_, _, rfl⟩
    · cases StormTree.new J M.keyApi keys.keys <;> exact ⟨_, _, rfl⟩

theorem Inv.refreshMembers {past : List (Action W T)} {state : SigningState M} (h : Inv past state)
    (peers : List T) : Inv past (state.refreshMembers J peers).1 := by
  obtain ⟨tree, keys, heq⟩ := refreshMembers_kept J state peers
  rw [heq]
  exact ⟨h.sessions, h.completed, h.draws, h.channels⟩

theorem new_inv (secretKey : M.SecretKey) (peers : List T) :
    Inv ([] : List (Action W T)) (SigningState.new J secretKey peers : SigningState M) := by
  refine Inv.refreshMembers J ⟨fun _ _ hs => ?_, fun _ _ _ he => absurd he List.not_mem_nil, ?_, ?_⟩ peers
  · simp at hs
  · exact Ledger.empty.congr fun _ => by simp [SigningState.heldDraws]
  · exact Ledger.empty.congr fun _ => by simp [SigningState.heldChannels]

/-- Every step keeps the invariant. -/
theorem Inv.step {past : List (Action W T)} {state : SigningState M} (h : Inv past state)
    (action : Action W T) : Inv (past ++ [action]) (Signing.step J state action) := by
  have h' : Inv (past ++ [action]) state := h.mono (List.subset_append_left past [action])
  have hlast : action ∈ past ++ [action] := List.mem_append_right _ (List.mem_singleton_self _)
  cases action with
  | refreshMembers peers => exact h'.refreshMembers J peers
  | startSession now requestHash requestor request waited =>
    exact h'.startSession now requestHash requestor request waited
  | acceptNonces requestHash sender message => exact h'.acceptNonces sender message hlast
  | acceptPartialSignatures requestHash sender message =>
    exact h'.acceptPartialSignatures sender message hlast
  | removeExpiredSessions now => exact h'.removeExpiredSessions now
  | removeSession requestHash => exact h'.removeSession requestHash

theorem run_inv (secretKey : M.SecretKey) (peers : List T) (actions : List (Action W T)) :
    Inv actions (run J (SigningState.new J secretKey peers : SigningState M) actions) :=
  TokenLedger.foldl_induction (Signing.step J) _ Inv (new_inv J secretKey peers)
    (fun _ _ action h => h.step J action) actions

theorem nonces_once_and_results_complete (secretKey : M.SecretKey) (peers : List T)
    (actions : List (Action W T)) :
    let state : SigningState M := run J (SigningState.new J secretKey peers) actions
    (state.events.filterMap Event.draw).Nodup ∧
    (state.events.filterMap Event.channel).Nodup ∧
    ∀ channel session result, .completed channel session result ∈ state.events →
      Completed actions state.localNode session result := by
  have h := run_inv (M := M) J secretKey peers actions
  exact ⟨h.draws.spent_nodup, h.channels.spent_nodup, h.completed⟩

end Runs

end Signing
end PriceOracle
