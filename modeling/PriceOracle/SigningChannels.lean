import PriceOracle.SigningIsolation

/-!
# Completion channels across the steps of the coordinator

A session under a hash keeps its completion channel from step to step until the
channel is answered; only a start opens a session and only a removal by key drops one.
-/

namespace PriceOracle

namespace Signing

variable {W T : Type} [LinearOrder W] {M : Musig W T}

/-- The channel got its message. -/
def Answered (events : List (Event M)) (channel : ℕ) : Prop :=
  (∃ session result, Event.completed channel session result ∈ events) ∨ Event.expired channel ∈ events

/-- Under the given hashes sessions keep their channels, and none opens. -/
structure Carries (hashes : W → Prop) (state state' : SigningState M) : Prop where
  held : ∀ h, hashes h → ∀ session channel, state.sessions[h]? = some session →
    session.completion = some channel →
      (∃ session', state'.sessions[h]? = some session' ∧ session'.completion = some channel) ∨
        Answered state'.events channel
  origin : ∀ h, hashes h → ∀ session', state'.sessions[h]? = some session' →
    ∃ session, state.sessions[h]? = some session ∧ session.completion = session'.completion
  events : state.events ⊆ state'.events
  channels : state.channels ≤ state'.channels

theorem Answered.mono {events events' : List (Event M)} {channel : ℕ} (h : Answered events channel)
    (hsub : events ⊆ events') : Answered events' channel := by
  rcases h with ⟨session, result, he⟩ | he
  · exact .inl ⟨session, result, hsub he⟩
  · exact .inr (hsub he)

namespace Carries

variable {hashes : W → Prop} {state state' state'' : SigningState M} {requestHash : W}
  {session session' : SigningSession M}

theorem refl (hashes : W → Prop) (state : SigningState M) : Carries hashes state state :=
  ⟨fun _ _ session _ hs hc => .inl ⟨session, hs, hc⟩, fun _ _ session hs => ⟨session, hs, rfl⟩,
    List.Subset.refl _, le_rfl⟩

theorem trans (h : Carries hashes state state') (h' : Carries hashes state' state'') :
    Carries hashes state state'' where
  held k hk session channel hs hc := by
    rcases h.held k hk session channel hs hc with ⟨session', hs', hc'⟩ | hanswered
    · exact h'.held k hk session' channel hs' hc'
    · exact .inr (hanswered.mono h'.events)
  origin k hk session'' hs'' := by
    obtain ⟨session', hs', hc'⟩ := h'.origin k hk session'' hs''
    obtain ⟨session, hs, hc⟩ := h.origin k hk session' hs'
    exact ⟨session, hs, hc.trans hc'⟩
  events := List.Subset.trans h.events h'.events
  channels := h.channels.trans h'.channels

theorem of_imp {hashes' : W → Prop} (h : Carries hashes state state')
    (himp : ∀ k, hashes' k → hashes k) : Carries hashes' state state' :=
  ⟨fun k hk => h.held k (himp k hk), fun k hk => h.origin k (himp k hk), h.events, h.channels⟩

/-- A step that leaves the sessions under the hashes alone. -/
theorem of_same (hsame : ∀ k, hashes k → state'.sessions[k]? = state.sessions[k]?)
    (hevents : state.events ⊆ state'.events) (hchannels : state.channels ≤ state'.channels) :
    Carries hashes state state' := by
  refine ⟨fun k hk session channel hs hc => .inl ⟨session, ?_, hc⟩, fun k hk session hs => ⟨session, ?_, rfl⟩,
    hevents, hchannels⟩
  · rw [hsame k hk, hs]
  · rw [← hsame k hk, hs]

theorem put (hs : state.sessions[requestHash]? = some session) (session' : SigningSession M)
    (hcompletion : session'.completion = session.completion) :
    Carries hashes state (state.put requestHash session') := by
  refine ⟨fun k _ s channel hk hc => .inl ?_, fun k _ s hk => ?_, List.Subset.refl _, le_rfl⟩
  · rw [getElem?_put]
    by_cases hne : requestHash = k
    · subst hne
      obtain rfl := Option.some.inj (hs.symm.trans hk)
      exact ⟨session', by rw [if_pos rfl], hcompletion.trans hc⟩
    · exact ⟨s, by rw [if_neg hne, hk], hc⟩
  · rw [getElem?_put] at hk
    by_cases hne : requestHash = k
    · subst hne
      rw [if_pos rfl] at hk
      obtain rfl := Option.some.inj hk
      exact ⟨session, hs, hcompletion.symm⟩
    · rw [if_neg hne] at hk
      exact ⟨s, hk, rfl⟩

theorem log (state : SigningState M) (events : List (Event M)) :
    Carries hashes state (state.log events) :=
  of_same (fun _ _ => rfl) (List.subset_append_left _ _) le_rfl

theorem getElem?_erase (sessions : Std.ExtTreeMap W (SigningSession M)) (requestHash k : W) :
    (sessions.erase requestHash)[k]? = if requestHash = k then none else sessions[k]? := by
  rw [Std.ExtTreeMap.getElem?_erase]
  simp only [compare_eq_iff_eq]

/-- A session that leaves with a message for its channel. -/
theorem erase (hs : state.sessions[requestHash]? = some session) (f : ℕ → Event M)
    (hf : ∀ channel events, f channel ∈ events → Answered events channel) :
    Carries hashes state { state with
      sessions := state.sessions.erase requestHash
      events := state.events ++ (session.completion.map f).toList } := by
  refine ⟨fun k _ s channel hk hc => ?_, fun k _ s hk => ?_, List.subset_append_left _ _, le_rfl⟩
  · by_cases hne : requestHash = k
    · subst hne
      obtain rfl := Option.some.inj (hs.symm.trans hk)
      refine .inr (hf channel _ (List.mem_append_right _ ?_))
      rw [hc]
      exact List.mem_singleton_self _
    · exact .inl ⟨s, by rw [getElem?_erase, if_neg hne, hk], hc⟩
  · rw [getElem?_erase] at hk
    by_cases hne : requestHash = k
    · rw [if_pos hne] at hk
      cases hk
    · rw [if_neg hne] at hk
      exact ⟨s, hk, rfl⟩

theorem completeSession (hashes : W → Prop) (state : SigningState M) (requestHash : W) :
    Carries hashes state (state.completeSession requestHash).1 := by
  cases hs : state.sessions[requestHash]? with
  | none =>
    rw [SigningState.completeSession, hs]
    exact refl hashes state
  | some session =>
    have hout := completeSession_outcome state requestHash session hs
    generalize state.completeSession requestHash = out at hout ⊢
    cases hout with
    | waiting _ => exact refl hashes state
    | badKeys e _ _ => exact refl hashes state
    | cleared session' bad e hready hlocal hkeys hc => exact put hs session' hc.completion
    | unfinished session' hready hlocal hkeys hj hpartials => exact put hs session' hj.completion
    | badAggregate session' e hready hlocal hkeys hj hpartials hagg => exact put hs session' hj.completion
    | finished session' signatures hready hlocal hkeys hj hpartials hagg =>
      have herase : Carries hashes state _ := erase hs (fun channel => .completed channel session'
        ⟨requestHash, session'.request.signingStormTreeBranch, signatures⟩)
        (fun channel events he => .inl ⟨_, _, he⟩)
      rwa [← hj.completion] at herase

theorem completeThen {A : Type} (hashes : W → Prop) (state : SigningState M) (requestHash : W)
    (value : A) : Carries hashes state (state.completeThen requestHash value).1 := by
  have hc := completeSession hashes state requestHash
  rw [SigningState.completeThen]
  cases hrun : state.completeSession requestHash with
  | mk state' r =>
    rw [hrun] at hc
    cases r <;> exact hc

theorem signSession (hs : state.sessions[requestHash]? = some session) (session' : SigningSession M)
    (hcompletion : session'.completion = session.completion) (secrets : List (SecretNonce W)) :
    Carries hashes state (state.signSession requestHash session' secrets).1 := by
  have hout := signSession_outcome state requestHash session' secrets
  generalize state.signSession requestHash session' secrets = out at hout ⊢
  cases hout with
  | badKeys e hkeys => exact put hs session' hcompletion
  | failed used e hused hkeys hsign =>
    exact (put hs { session' with secretNonces := none } hcompletion).trans (log _ _)
  | unroutable used partials e hused hkeys hsign hrecipients =>
    exact (put hs (signedSession state.localNode session' partials) hcompletion).trans (log _ _)
  | signed used partials value hused hkeys hsign =>
    exact ((put hs (signedSession state.localNode session' partials) hcompletion).trans
      (log _ _)).trans (completeThen hashes _ requestHash value)

theorem acceptNonces (hashes : W → Prop) (state : SigningState M) (requestHash sender : W)
    (message : SigningNoncesMessage W) :
    Carries hashes state (state.acceptNonces requestHash sender message).1 := by
  have hout := acceptNonces_outcome state requestHash sender message
  generalize state.acceptNonces requestHash sender message = out at hout ⊢
  cases hout with
  | ignored _ r => exact refl hashes state
  | stored session nonces hstores _ =>
    exact (put hstores.found (session.modify sender (·.setNonces nonces)) rfl).trans
      (completeThen hashes _ requestHash _)
  | signs session nonces secrets hstores hsecrets hlocal hready =>
    exact signSession hstores.found (session.modify sender (·.setNonces nonces)) rfl secrets

theorem acceptPartialSignatures (hashes : W → Prop) (state : SigningState M) (requestHash sender : W)
    (message : PartialSignaturesMessage W) :
    Carries hashes state (state.acceptPartialSignatures requestHash sender message).1 := by
  have hout := acceptPartialSignatures_outcome state requestHash sender message
  generalize state.acceptPartialSignatures requestHash sender message = out at hout ⊢
  cases hout with
  | ignored _ r => exact refl hashes state
  | stored session partials hstores =>
    exact (put hstores.found (session.modify sender
      fun c => (c.setPartials partials).setVerified session.noncesReady) rfl).trans
      (completeSession hashes _ requestHash)

theorem removeExpiredSessions (hashes : W → Prop) (state : SigningState M) (now : ℕ) :
    Carries hashes state (state.removeExpiredSessions now) := by
  rw [SigningState.removeExpiredSessions]
  generalize (state.sessions.toList.filter _).map Prod.fst = expired
  induction expired generalizing state with
  | nil => exact refl hashes state
  | cons requestHash expired ih =>
    have hone : Carries hashes state (state.expireSession requestHash) := by
      unfold SigningState.expireSession
      cases hs : state.sessions[requestHash]? with
      | none => exact refl hashes state
      | some session => exact erase hs .expired fun channel events he => .inr he
    exact hone.trans (ih (state.expireSession requestHash))

theorem startSession (state : SigningState M) (now : ℕ) (requestHash requestor : W)
    (request : SigningRequest W) (completion : Option ℕ) :
    Carries (fun k => k ≠ requestHash ∨ requestHash ∈ state.sessions) state
      (state.startSession now requestHash requestor request completion).1 := by
  have hout := startSession_outcome state now requestHash requestor request completion
  generalize state.startSession now requestHash requestor request completion = out at hout ⊢
  cases hout with
  | dropped r hr => exact log state _
  | watches signers hnew hsigners hlocal =>
    refine of_same (fun k hk => ?_) (List.Subset.refl _) le_rfl
    rw [getElem?_put, if_neg (Ne.symm (hk.resolve_right hnew))]
  | signs signers secrets publics hnew hsigners hlocal hkeys hnonces =>
    refine of_same (fun k hk => ?_) (List.Subset.refl _) le_rfl
    change (state.put requestHash _).sessions[k]? = _
    rw [getElem?_put, if_neg (Ne.symm (hk.resolve_right hnew))]

theorem removeSession (state : SigningState M) (requestHash : W) :
    Carries (· ≠ requestHash) state (state.removeSession requestHash) := by
  unfold SigningState.removeSession
  cases state.sessions[requestHash]? with
  | none => exact refl _ state
  | some session =>
    refine of_same (fun k hk => ?_) (List.subset_append_left _ _) le_rfl
    change (state.sessions.erase requestHash)[k]? = _
    rw [getElem?_erase, if_neg (Ne.symm hk)]

variable {Sig : Type} [DecidableEq T] (J : Jets W Sig)

theorem refreshMembers (hashes : W → Prop) (state : SigningState M) (peers : List T) :
    Carries hashes state (state.refreshMembers J peers).1 := by
  obtain ⟨tree, keys, heq⟩ := refreshMembers_kept J state peers
  rw [heq]
  exact of_same (fun _ _ => rfl) (List.Subset.refl _) le_rfl

end Carries

end Signing
end PriceOracle
