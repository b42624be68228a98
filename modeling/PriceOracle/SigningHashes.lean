import PriceOracle.SigningChannels

/-!
# The messages of a coordinator

A message hash is touched while a session for it is open and ever after the local node
released a share for it. No step but a start touches a hash that was not touched before.
-/

namespace PriceOracle

namespace Signing

variable {W T : Type} [LinearOrder W] {M : Musig W T}

/-- A session for the message is open. -/
def SigningState.Opened (state : SigningState M) (messageHash : W) : Prop :=
  ∃ (requestHash : W) (session : SigningSession M), state.sessions[requestHash]? = some session ∧
    messageHash ∈ session.request.messageHashes

/-- A share for the message was released. -/
def SigningState.Shared (state : SigningState M) (messageHash : W) : Prop :=
  ∃ secret : SecretNonce W, .signed secret ∈ state.events ∧ secret.messageHash = messageHash

def SigningState.Touched (state : SigningState M) (messageHash : W) : Prop :=
  state.Opened messageHash ∨ state.Shared messageHash

/-- The step touches nothing new. -/
def Within (state state' : SigningState M) : Prop :=
  ∀ messageHash, state'.Touched messageHash → state.Touched messageHash

namespace Within

variable {state state' : SigningState M} {requestHash : W} {session session' : SigningSession M}

theorem refl (state : SigningState M) : Within state state := fun _ h => h

theorem trans {state'' : SigningState M} (h : Within state state') (h' : Within state' state'') :
    Within state state'' := fun messageHash hm => h messageHash (h' messageHash hm)

/-- Sessions may disappear and events other than shares happen. -/
theorem of_origin (hsessions : ∀ (k : W) (s : SigningSession M), state'.sessions[k]? = some s →
      ∃ s' : SigningSession M, state.sessions[k]? = some s' ∧ s.request = s'.request)
    (hevents : ∀ secret : SecretNonce W, .signed secret ∈ state'.events →
      .signed secret ∈ state.events ∨ state.Opened secret.messageHash) : Within state state' := by
  rintro messageHash (⟨k, s, hs, hmem⟩ | ⟨secret, he, rfl⟩)
  · obtain ⟨s', hs', hrequest⟩ := hsessions k s hs
    exact .inl ⟨k, s', hs', hrequest ▸ hmem⟩
  · rcases hevents secret he with hold | hopened
    · exact .inr ⟨secret, hold, rfl⟩
    · exact .inl hopened

theorem put (hs : state.sessions[requestHash]? = some session) (session' : SigningSession M)
    (hrequest : session'.request = session.request) : Within state (state.put requestHash session') := by
  refine of_origin (fun k s hk => ?_) (fun _ he => .inl he)
  rw [getElem?_put] at hk
  split_ifs at hk with hne
  · obtain rfl := Option.some.inj hk
    exact ⟨session, hne ▸ hs, hrequest⟩
  · exact ⟨s, hk, rfl⟩

theorem erase (requestHash : W) (events : List (Event M))
    (hevents : ∀ secret, .signed secret ∉ events) :
    Within state { state with
      sessions := state.sessions.erase requestHash
      events := state.events ++ events } := by
  refine of_origin (fun k s hk => ?_) (fun secret he => ?_)
  · rw [Carries.getElem?_erase] at hk
    split_ifs at hk
    exact ⟨s, hk, rfl⟩
  · rcases List.mem_append.mp he with hold | hnew
    · exact .inl hold
    · exact absurd hnew (hevents secret)

/-- Shares are released for the messages of an open session. -/
theorem log (state : SigningState M) (events : List (Event M))
    (hevents : ∀ secret, .signed secret ∈ events → state.Opened secret.messageHash) :
    Within state (state.log events) := by
  refine of_origin (fun k s hk => ⟨s, hk, rfl⟩) (fun secret he => ?_)
  rcases List.mem_append.mp he with hold | hnew
  · exact .inl hold
  · exact .inr (hevents secret hnew)

theorem completeSession (state : SigningState M) (requestHash : W) :
    Within state (state.completeSession requestHash).1 := by
  cases hs : state.sessions[requestHash]? with
  | none =>
    rw [SigningState.completeSession, hs]
    exact refl state
  | some session =>
    have hout := completeSession_outcome state requestHash session hs
    generalize state.completeSession requestHash = out at hout ⊢
    cases hout with
    | waiting _ => exact refl state
    | badKeys e _ _ => exact refl state
    | cleared session' bad e hready hlocal hkeys hc => exact put hs session' hc.round.request
    | unfinished session' hready hlocal hkeys hj hpartials => exact put hs session' hj.round.request
    | badAggregate session' e hready hlocal hkeys hj hpartials hagg => exact put hs session' hj.round.request
    | finished session' signatures hready hlocal hkeys hj hpartials hagg =>
      apply erase
      intro secret he
      cases hc : session'.completion with
      | none => simp [hc] at he
      | some channel => simp [hc] at he

theorem completeThen {A : Type} (state : SigningState M) (requestHash : W) (value : A) :
    Within state (state.completeThen requestHash value).1 := by
  have hc := completeSession state requestHash
  rw [SigningState.completeThen]
  cases hrun : state.completeSession requestHash with
  | mk state' r =>
    rw [hrun] at hc
    cases r <;> exact hc

theorem signSession (hs : state.sessions[requestHash]? = some session) (session' : SigningSession M)
    (hrequest : session'.request = session.request) (secrets : List (SecretNonce W))
    (hsecrets : ∀ secret ∈ secrets, secret.messageHash ∈ session.request.messageHashes) :
    Within state (state.signSession requestHash session' secrets).1 := by
  -- The secret nonces that are used up are those of the session's messages.
  have hused : ∀ used : List (SecretNonce W),
      used.Sublist ((session'.request.messageHashes.zip secrets).map Prod.snd) →
        ∀ (session₁ : SigningSession M), session₁.request = session.request → ∀ secret,
          Event.signed (M := M) secret ∈ used.map .signed →
            (state.put requestHash session₁).Opened secret.messageHash := by
    intro used hsub session₁ hrequest₁ secret he
    obtain ⟨secret', hmem, heq⟩ := List.mem_map.mp he
    obtain rfl : secret' = secret := by simpa using heq
    obtain ⟨pair, hpair, rfl⟩ := List.mem_map.mp (hsub.subset hmem)
    refine ⟨requestHash, session₁, getElem?_put_self _ _ _, ?_⟩
    rw [hrequest₁]
    exact hsecrets _ (List.of_mem_zip hpair).2
  have hout := signSession_outcome state requestHash session' secrets
  generalize state.signSession requestHash session' secrets = out at hout ⊢
  cases hout with
  | badKeys e hkeys => exact put hs session' hrequest
  | failed used e hsub hkeys hsign =>
    exact (put hs { session' with secretNonces := none } hrequest).trans
      (log _ _ (hused used hsub _ hrequest))
  | unroutable used partials e hsub hkeys hsign hrecipients =>
    exact (put hs (signedSession state.localNode session' partials) hrequest).trans
      (log _ _ (hused used hsub _ hrequest))
  | signed used partials value hsub hkeys hsign =>
    exact ((put hs (signedSession state.localNode session' partials) hrequest).trans
      (log _ _ (hused used hsub _ hrequest))).trans (completeThen _ requestHash value)

theorem acceptNonces {past : List (Action W T)} (hinv : Inv past state) (requestHash sender : W)
    (message : SigningNoncesMessage W) : Within state (state.acceptNonces requestHash sender message).1 := by
  have hout := acceptNonces_outcome state requestHash sender message
  generalize state.acceptNonces requestHash sender message = out at hout ⊢
  cases hout with
  | ignored _ r => exact refl state
  | stored session nonces hstores _ =>
    exact (put hstores.found (session.modify sender (·.setNonces nonces)) rfl).trans
      (completeThen _ requestHash _)
  | signs session nonces secrets hstores hsecrets hlocal hready =>
    obtain ⟨-, hhashes, -⟩ := (hinv.sessions requestHash session hstores.found).own secrets hsecrets
    apply signSession hstores.found (session.modify sender (·.setNonces nonces)) rfl secrets
    intro secret hmem
    rw [← hhashes]
    exact List.mem_map_of_mem hmem

theorem acceptPartialSignatures (state : SigningState M) (requestHash sender : W)
    (message : PartialSignaturesMessage W) :
    Within state (state.acceptPartialSignatures requestHash sender message).1 := by
  have hout := acceptPartialSignatures_outcome state requestHash sender message
  generalize state.acceptPartialSignatures requestHash sender message = out at hout ⊢
  cases hout with
  | ignored _ r => exact refl state
  | stored session partials hstores =>
    exact (put hstores.found (session.modify sender
      fun c => (c.setPartials partials).setVerified session.noncesReady) rfl).trans
      (completeSession _ requestHash)

theorem removeExpiredSessions (state : SigningState M) (now : ℕ) :
    Within state (state.removeExpiredSessions now) := by
  rw [SigningState.removeExpiredSessions]
  generalize (state.sessions.toList.filter _).map Prod.fst = expired
  induction expired generalizing state with
  | nil => exact refl state
  | cons requestHash expired ih =>
    have hone : Within state (state.expireSession requestHash) := by
      unfold SigningState.expireSession
      cases state.sessions[requestHash]? with
      | none => exact refl state
      | some session =>
        apply erase
        intro secret he
        cases hc : session.completion with
        | none => simp [hc] at he
        | some channel => simp [hc] at he
    exact hone.trans (ih (state.expireSession requestHash))

theorem dropCompletion (state : SigningState M) (completion : Option ℕ) :
    Within state (state.dropCompletion completion) := by
  apply log
  intro secret he
  cases completion with
  | none => cases he
  | some channel => simp at he

theorem removeSession (state : SigningState M) (requestHash : W) :
    Within state (state.removeSession requestHash) := by
  unfold SigningState.removeSession
  cases state.sessions[requestHash]? with
  | none => exact refl state
  | some session =>
    apply erase
    intro secret he
    cases hc : session.completion with
    | none => simp [hc] at he
    | some channel => simp [hc] at he

theorem refreshMembers {Sig : Type} [DecidableEq T] (J : Jets W Sig) (state : SigningState M)
    (peers : List T) : Within state (state.refreshMembers J peers).1 := by
  obtain ⟨tree, keys, heq⟩ := refreshMembers_kept J state peers
  rw [heq]
  exact refl state

end Within

/-- A start touches the messages of its request only, and none if it opens nothing. -/
theorem startSession_touched (state : SigningState M) (now : ℕ) (requestHash requestor : W)
    (request : SigningRequest W) (completion : Option ℕ) (messageHash : W)
    (h : (state.startSession now requestHash requestor request completion).1.Touched messageHash) :
    state.Touched messageHash ∨ (messageHash ∈ request.messageHashes ∧
      ∀ e, (state.startSession now requestHash requestor request completion).2 ≠ .error e) := by
  have hput : ∀ (session : SigningSession M) (state' : SigningState M), session.request = request →
      state'.sessions = (state.put requestHash session).sessions → state'.events = state.events →
        state'.Touched messageHash → state.Touched messageHash ∨ messageHash ∈ request.messageHashes := by
    rintro session state' hrequest hsessions hevents (⟨k, s, hs, hmem⟩ | ⟨secret, he, rfl⟩)
    · rw [hsessions, getElem?_put] at hs
      split_ifs at hs
      · obtain rfl := Option.some.inj hs
        exact .inr (hrequest ▸ hmem)
      · exact .inl (.inl ⟨k, s, hs, hmem⟩)
    · exact .inl (.inr ⟨secret, hevents ▸ he, rfl⟩)
  have hout := startSession_outcome state now requestHash requestor request completion
  generalize state.startSession now requestHash requestor request completion = out at hout h ⊢
  cases hout with
  | dropped r hr => exact .inl (Within.dropCompletion state completion messageHash h)
  | watches signers hnew hsigners hlocal =>
    exact (hput _ _ rfl rfl rfl h).imp_right fun hmem => ⟨hmem, nofun⟩
  | signs signers secrets publics hnew hsigners hlocal hkeys hnonces =>
    exact (hput _ _ rfl rfl rfl h).imp_right fun hmem => ⟨hmem, nofun⟩

end Signing
end PriceOracle
