import PriceOracle.SigningSafety

/-!
# Fault isolation in a signing session

A message touches one session, and in it the sender's contribution. Beyond that
the local node may sign, and one stored batch that fails the complete nonces may
be cleared, whoever sent the message that brought this to light.
-/

namespace PriceOracle

namespace Signing

variable {W T : Type} [LinearOrder W] {M : Musig W T}

open SigningSession

section Frame

/-- Everything a message for one session leaves alone. -/
structure Frame (state state' : SigningState M) (requestHash : W) : Prop where
  secretKey : state'.secretKey = state.secretKey
  localNode : state'.localNode = state.localNode
  members : state'.memberTransportKeys = state.memberTransportKeys
  tree : state'.tree = state.tree
  other : ∀ k, k ≠ requestHash → state'.sessions[k]? = state.sessions[k]?
  events : state.events <+: state'.events

namespace Frame

variable {state state' state'' : SigningState M} {requestHash : W}

theorem refl : Frame state state requestHash :=
  ⟨rfl, rfl, rfl, rfl, fun _ _ => rfl, List.prefix_refl _⟩

theorem trans (h : Frame state state' requestHash) (h' : Frame state' state'' requestHash) :
    Frame state state'' requestHash :=
  ⟨h'.secretKey.trans h.secretKey, h'.localNode.trans h.localNode, h'.members.trans h.members,
    h'.tree.trans h.tree, fun k hk => (h'.other k hk).trans (h.other k hk), h.events.trans h'.events⟩

theorem put (state : SigningState M) (requestHash : W) (session : SigningSession M) :
    Frame state (state.put requestHash session) requestHash :=
  ⟨rfl, rfl, rfl, rfl, fun k hk => by rw [getElem?_put, if_neg (Ne.symm hk)], List.prefix_refl _⟩

theorem log (state : SigningState M) (requestHash : W) (events : List (Event M)) :
    Frame state (state.log events) requestHash :=
  ⟨rfl, rfl, rfl, rfl, fun _ _ => rfl, List.prefix_append _ _⟩

theorem completeSession (state : SigningState M) (requestHash : W) :
    Frame state (state.completeSession requestHash).1 requestHash := by
  cases hs : state.sessions[requestHash]? with
  | none =>
    rw [SigningState.completeSession, hs]
    exact refl
  | some session =>
    have hout := completeSession_outcome state requestHash session hs
    generalize state.completeSession requestHash = out at hout ⊢
    cases hout with
    | waiting _ => exact refl
    | badKeys e _ _ => exact refl
    | cleared session' bad e hready hlocal hkeys hc => exact put state requestHash session'
    | unfinished session' hready hlocal hkeys hj hpartials => exact put state requestHash session'
    | badAggregate session' e hready hlocal hkeys hj hpartials hagg =>
      exact put state requestHash session'
    | finished session' signatures hready hlocal hkeys hj hpartials hagg =>
      refine ⟨rfl, rfl, rfl, rfl, fun k hk => ?_, List.prefix_append _ _⟩
      change (state.sessions.erase requestHash)[k]? = _
      rw [Std.ExtTreeMap.getElem?_erase, if_neg (by rw [compare_eq_iff_eq]; exact Ne.symm hk)]

theorem completeThen {A : Type} (state : SigningState M) (requestHash : W) (value : A) :
    Frame state (state.completeThen requestHash value).1 requestHash := by
  have hc := completeSession state requestHash
  rw [SigningState.completeThen]
  cases hrun : state.completeSession requestHash with
  | mk state' r =>
    rw [hrun] at hc
    cases r <;> exact hc

theorem signSession (state : SigningState M) (requestHash : W) (session : SigningSession M)
    (secrets : List (SecretNonce W)) :
    Frame state (state.signSession requestHash session secrets).1 requestHash := by
  have hout := signSession_outcome state requestHash session secrets
  generalize state.signSession requestHash session secrets = out at hout ⊢
  cases hout with
  | badKeys e hkeys => exact put state requestHash session
  | failed used e hused hkeys hsign => exact (put state requestHash _).trans (log _ requestHash _)
  | unroutable used partials e hused hkeys hsign hrecipients =>
    exact (put state requestHash _).trans (log _ requestHash _)
  | signed used partials value hused hkeys hsign =>
    exact ((put state requestHash _).trans (log _ requestHash _)).trans (completeThen _ requestHash _)

theorem acceptNonces (state : SigningState M) (requestHash sender : W)
    (message : SigningNoncesMessage W) :
    Frame state (state.acceptNonces requestHash sender message).1 requestHash := by
  have hout := acceptNonces_outcome state requestHash sender message
  generalize state.acceptNonces requestHash sender message = out at hout ⊢
  cases hout with
  | ignored _ r => exact refl
  | stored session nonces hstores _ =>
    exact (put state requestHash _).trans (completeThen _ requestHash _)
  | signs session nonces secrets hstores hsecrets hlocal hready => exact signSession state _ _ _

theorem acceptPartialSignatures (state : SigningState M) (requestHash sender : W)
    (message : PartialSignaturesMessage W) :
    Frame state (state.acceptPartialSignatures requestHash sender message).1 requestHash := by
  have hout := acceptPartialSignatures_outcome state requestHash sender message
  generalize state.acceptPartialSignatures requestHash sender message = out at hout ⊢
  cases hout with
  | ignored _ r => exact refl
  | stored session partials hstores => exact (put state requestHash _).trans (completeSession _ _)

end Frame

end Frame

section Isolation

/-- The stored batch of `bad` was cleared because it fails under the complete nonces. -/
structure FoundBad (session session' : SigningSession M) (bad : W) : Prop where
  ready : session'.noncesReady = true
  failed : ∃ partials e, (session.contribution bad).partialSignatures = some partials ∧
    verifySignerPartials session' (M.keyAggCache session.signers) bad partials = .error e
  cleared : (session'.contribution bad).partialSignatures = none

/-- At most one signer lost its batch, and that batch was bad. -/
structure ClearsOnlyBad (session session' : SigningSession M) : Prop where
  secretNonces : session'.secretNonces = session.secretNonces
  round : SameRound session session'
  partials : ∃ bad : Option W, (∀ s, bad = some s → FoundBad session session' s) ∧
    ∀ s, bad ≠ some s →
      (session'.contribution s).partialSignatures = (session.contribution s).partialSignatures

theorem ClearsOnlyBad.refl (session : SigningSession M) : ClearsOnlyBad session session :=
  ⟨rfl, SameRound.refl, none, by simp, fun _ _ => rfl⟩

/-- A failing completion leaves the session open and clears only a bad batch. -/
theorem completeSession_isolates {state : SigningState M} {requestHash : W}
    {session : SigningSession M} (hs : state.sessions[requestHash]? = some session) {e : Error M}
    (herr : (state.completeSession requestHash).2 = .error e) :
    session.noncesReady = true ∧
      ∃ session', (state.completeSession requestHash).1.sessions[requestHash]? = some session' ∧
        ClearsOnlyBad session session' := by
  have hout := completeSession_outcome state requestHash session hs
  generalize state.completeSession requestHash = out at hout herr ⊢
  cases hout with
  | waiting _ => cases herr
  | badKeys e hready _ => exact ⟨hready, session, hs, ClearsOnlyBad.refl session⟩
  | cleared session' bad e hready hlocal hkeys hc =>
    refine ⟨hready, session', getElem?_put_self _ _ _, hc.secretNonces, hc.round, some bad, ?_, ?_⟩
    · rintro s hbad
      obtain rfl := Option.some.inj hbad
      obtain ⟨partials, e', hp, hv⟩ := hc.failed
      exact ⟨by rw [hc.round.noncesReady, hready],
        ⟨partials, e', hp, by rw [hc.round.verifySignerPartials, hv]⟩, hc.cleared⟩
    · exact fun s hs => hc.partials s fun h => hs (by rw [h])
  | unfinished session' hready hlocal hkeys hj hpartials => cases herr
  | badAggregate session' e hready hlocal hkeys hj hpartials hagg =>
    exact ⟨hready, session', getElem?_put_self _ _ _, hj.secretNonces, hj.round, none, by simp,
      fun s _ => hj.partials s⟩
  | finished session' signatures hready hlocal hkeys hj hpartials hagg => cases herr

/-- What a rejected message leaves of the other signers: their nonces, and their shares but
for one bad batch. The local node's shares change only when it signs. -/
structure Isolates (localNode sender : W) (session session' : SigningSession M) : Prop where
  nonces : ∀ s, s ≠ sender → (session'.contribution s).nonces = (session.contribution s).nonces
  partials : ∃ bad : Option W, ∀ s, s ≠ sender →
    s ≠ localNode ∨ session'.secretNonces = session.secretNonces →
      (bad = some s → FoundBad session session' s) ∧
      (bad ≠ some s → (session'.contribution s).partialSignatures =
        (session.contribution s).partialSignatures)

theorem Isolates.refl (localNode sender : W) (session : SigningSession M) :
    Isolates localNode sender session session :=
  ⟨fun _ _ => rfl, none, fun _ _ _ => ⟨by simp, fun _ => rfl⟩⟩

theorem Isolates.of_clears {localNode sender : W} {session stored session' : SigningSession M}
    (hsigners : stored.signers = session.signers)
    (hnonces : ∀ s, s ≠ sender → (stored.contribution s).nonces = (session.contribution s).nonces)
    (hpartials : ∀ s, s ≠ sender → s ≠ localNode ∨ stored.secretNonces = session.secretNonces →
      (stored.contribution s).partialSignatures = (session.contribution s).partialSignatures)
    (hc : ClearsOnlyBad stored session') : Isolates localNode sender session session' := by
  obtain ⟨bad, hbad, hother⟩ := hc.partials
  refine ⟨fun s hs => (hc.round.nonces s).trans (hnonces s hs), bad, fun s hs hlocal => ?_⟩
  rw [hc.secretNonces] at hlocal
  have hsame := hpartials s hs hlocal
  constructor
  · intro h
    obtain ⟨hready, ⟨partials, e, hp, hv⟩, hcleared⟩ := hbad s h
    exact ⟨hready, ⟨partials, e, hsame ▸ hp, hsigners ▸ hv⟩, hcleared⟩
  · exact fun h => (hother s h).trans hsame

theorem completeThen_error {A : Type} {value : A} {state : SigningState M} {requestHash : W}
    {e : Error M} (h : (state.completeThen requestHash value).2 = .error e) :
    (state.completeSession requestHash).2 = .error e ∧
      (state.completeThen requestHash value).1 = (state.completeSession requestHash).1 := by
  rw [SigningState.completeThen] at h ⊢
  cases hrun : state.completeSession requestHash with
  | mk state' r =>
    rw [hrun] at h
    cases r with
    | error e' =>
      cases h
      exact ⟨rfl, rfl⟩
    | ok _ => cases h

theorem partials_setNonces (session : SigningSession M) (sender : W) (nonces : List M.PublicNonce)
    (s : W) : ((session.modify sender (·.setNonces nonces)).contribution s).partialSignatures =
      (session.contribution s).partialSignatures := by
  simp only [contribution, getElem?_modify]
  split_ifs
  · cases session.contributions[s]? <;> rfl
  · rfl

theorem partials_signedSession (session : SigningSession M) (localNode : W)
    (partials : List M.PartialSignature) (s : W) (hs : s ≠ localNode) :
    ((signedSession localNode session partials).contribution s).partialSignatures =
      (session.contribution s).partialSignatures := by
  rw [signedSession, contribution_modify_of_ne _ _ _ _ (Ne.symm hs)]
  rfl

/-- A rejected nonce message is forgotten, or its nonces are in and the error is another's. -/
theorem acceptNonces_isolates {state : SigningState M} {requestHash sender : W}
    {message : SigningNoncesMessage W} {session : SigningSession M}
    (hs : state.sessions[requestHash]? = some session) {e : Error M}
    (herr : (state.acceptNonces requestHash sender message).2 = .error e) :
    ∃ session', (state.acceptNonces requestHash sender message).1.sessions[requestHash]? =
        some session' ∧
      Isolates state.localNode sender session session' ∧
      (session' = session ∨ ∃ nonces, SigningState.parseNonces message.nonces = .ok nonces ∧
        (session'.contribution sender).nonces = some nonces) := by
  have hout := acceptNonces_outcome state requestHash sender message
  generalize state.acceptNonces requestHash sender message = out at hout herr ⊢
  -- Whatever the session became on the way, completion clears a bad batch at most.
  have hfinish : ∀ (nonces : List M.PublicNonce) (stored session' : SigningSession M),
      StoresNonces state requestHash sender message session nonces →
      SameRound (session.modify sender (·.setNonces nonces)) stored →
      (∀ s, s ≠ sender → s ≠ state.localNode ∨ stored.secretNonces = session.secretNonces →
        (stored.contribution s).partialSignatures = (session.contribution s).partialSignatures) →
      ClearsOnlyBad stored session' →
      Isolates state.localNode sender session session' ∧
        ∃ nonces, SigningState.parseNonces message.nonces = .ok nonces ∧
          (session'.contribution sender).nonces = some nonces := by
    intro nonces stored session' hstores hround hpartials hc
    refine ⟨Isolates.of_clears hround.signers (fun s hsender => ?_) hpartials hc,
      nonces, hstores.parsed, ?_⟩
    · rw [hround.nonces, session.contribution_modify_of_ne sender s _ (Ne.symm hsender)]
    · rw [hc.round.nonces, hround.nonces, session.contribution_modify_self sender _ hstores.mem]
      rfl
  cases hout with
  | ignored _ r => exact ⟨session, hs, Isolates.refl _ _ _, .inl rfl⟩
  | stored session₀ nonces hstores _ =>
    obtain rfl := Option.some.inj (hs.symm.trans hstores.found)
    obtain ⟨herr', hrun⟩ := completeThen_error herr
    obtain ⟨-, session', hfound, hc⟩ :=
      completeSession_isolates (getElem?_put_self _ _ _) herr'
    obtain ⟨hiso, hin⟩ := hfinish nonces _ session' hstores SameRound.refl
      (fun s _ _ => partials_setNonces session sender nonces s) hc
    exact ⟨session', by rw [hrun, hfound], hiso, .inr hin⟩
  | signs session₀ nonces secrets hstores hsecrets hlocal hready =>
    obtain rfl := Option.some.inj (hs.symm.trans hstores.found)
    have hsigned : ∀ partials s, s ≠ sender → s ≠ state.localNode ∨
        (signedSession state.localNode (session.modify sender (·.setNonces nonces))
          partials).secretNonces = session.secretNonces →
        ((signedSession state.localNode (session.modify sender (·.setNonces nonces))
          partials).contribution s).partialSignatures =
            (session.contribution s).partialSignatures := by
      intro partials s _ h
      have hne : s ≠ state.localNode := h.resolve_right fun hsec => by
        rw [hsecrets] at hsec
        cases hsec
      rw [partials_signedSession _ _ _ _ hne, partials_setNonces]
    have hsign := signSession_outcome state requestHash
      (session.modify sender (·.setNonces nonces)) secrets
    generalize state.signSession requestHash (session.modify sender (·.setNonces nonces)) secrets =
      out at hsign herr ⊢
    cases hsign with
    | badKeys e hkeys =>
      obtain ⟨hiso, hin⟩ := hfinish nonces _ _ hstores SameRound.refl
        (fun s _ _ => partials_setNonces session sender nonces s) (ClearsOnlyBad.refl _)
      exact ⟨_, getElem?_put_self _ _ _, hiso, .inr hin⟩
    | failed used e hused hkeys hsign =>
      obtain ⟨hiso, hin⟩ := hfinish nonces _ _ hstores SessionInv.sameRound_takeSecrets
        (fun s _ _ => partials_setNonces session sender nonces s) (ClearsOnlyBad.refl _)
      exact ⟨_, getElem?_put_self _ _ _, hiso, .inr hin⟩
    | unroutable used partials e hused hkeys hsign hrecipients =>
      obtain ⟨hiso, hin⟩ := hfinish nonces _ _ hstores (SessionInv.sameRound_signedSession partials)
        (hsigned partials) (ClearsOnlyBad.refl _)
      exact ⟨_, getElem?_put_self _ _ _, hiso, .inr hin⟩
    | signed used partials value hused hkeys hsign =>
      obtain ⟨herr', hrun⟩ := completeThen_error herr
      have hstored : ((state.put requestHash (signedSession state.localNode (session.modify sender
          (·.setNonces nonces)) partials)).log (used.map .signed)).sessions[requestHash]? = some _ :=
        getElem?_put_self state requestHash _
      obtain ⟨-, session', hfound, hc⟩ := completeSession_isolates hstored herr'
      obtain ⟨hiso, hin⟩ := hfinish nonces _ session' hstores
        (SessionInv.sameRound_signedSession partials) (hsigned partials) hc
      exact ⟨session', by rw [hrun, hfound], hiso, .inr hin⟩

/-- A rejected batch of shares is forgotten, or it is in, verified, and the error is another's. -/
theorem acceptPartialSignatures_isolates {state : SigningState M} {requestHash sender : W}
    {message : PartialSignaturesMessage W} {session : SigningSession M}
    (hs : state.sessions[requestHash]? = some session) {e : Error M}
    (herr : (state.acceptPartialSignatures requestHash sender message).2 = .error e) :
    ∃ session', (state.acceptPartialSignatures requestHash sender message).1.sessions[requestHash]? =
        some session' ∧
      Isolates state.localNode sender session session' ∧
      (session' = session ∨ ∃ partials,
        SigningState.parsePartials sender 0 message.partialSignatures = .ok partials ∧
        verifySignerPartials session (M.keyAggCache session.signers) sender partials = .ok () ∧
        (session'.contribution sender).partialSignatures = some partials) := by
  have hout := acceptPartialSignatures_outcome state requestHash sender message
  generalize state.acceptPartialSignatures requestHash sender message = out at hout herr ⊢
  cases hout with
  | ignored _ r => exact ⟨session, hs, Isolates.refl _ _ _, .inl rfl⟩
  | stored session₀ partials hstores =>
    obtain rfl := Option.some.inj (hs.symm.trans hstores.found)
    have hfound : (state.put requestHash (session.modify sender fun c =>
        (c.setPartials partials).setVerified session.noncesReady)).sessions[requestHash]? =
        some (session.modify sender fun c =>
          (c.setPartials partials).setVerified session.noncesReady) := by
      exact getElem?_put_self _ _ _
    obtain ⟨hready, session', hfound', hc⟩ := completeSession_isolates hfound herr
    have hother := fun s hs => session.contribution_modify_of_ne sender s
      (fun c => (c.setPartials partials).setVerified session.noncesReady) (Ne.symm hs)
    have hround : SameRound session (session.modify sender fun c =>
        (c.setPartials partials).setVerified session.noncesReady) := SameRound.modify sender _ fun _ => rfl
    -- An error means that the completion was tried, so every nonce was known.
    rw [hround.noncesReady] at hready
    have hvalid := (hstores.valid hready).2
    refine ⟨session', hfound', ?_, .inr ⟨partials, hstores.parsed, hvalid, ?_⟩⟩
    · refine Isolates.of_clears ?_ (fun s hs => ?_) (fun s hs _ => ?_) hc
      · rfl
      · rw [hother s hs]
      · rw [hother s hs]
    · have hself : ((session.modify sender fun c =>
          (c.setPartials partials).setVerified session.noncesReady).contribution
            sender).partialSignatures = some partials := by
        rw [session.contribution_modify_self sender _ hstores.mem]
        rfl
      obtain ⟨bad, hbad, hkept⟩ := hc.partials
      by_cases hb : bad = some sender
      · obtain ⟨-, ⟨partials', e', hp, hv⟩, -⟩ := hbad sender hb
        obtain rfl := Option.some.inj (hself.symm.trans hp)
        rw [(hround.trans hc.round).verifySignerPartials] at hv
        cases hvalid.symm.trans hv
      · rw [hkept sender hb, hself]

end Isolation

end Signing
end PriceOracle
