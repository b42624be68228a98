import PriceOracle.SigningCallsSafety
import PriceOracle.SigningLiveness

/-!
# Runs of concurrent signing calls

Each clear step keeps the calls apart. A step of a call never takes away a session
that another running call or a peer opened.
-/

namespace PriceOracle

namespace Signing

variable {W T Sig : Type} [LinearOrder W] [DecidableEq T] {M : Musig W T} (J : Jets W Sig)

section Steps

variable {state : CallsState M} {c : ℕ} {call : Call M}

theorem inv_step (h : ∃ past : List (Action W T), Inv past state.signing) (action : Action W T) :
    ∃ past, Inv past (Signing.step J state.signing action) := by
  obtain ⟨past, hinv⟩ := h
  exact ⟨past ++ [action], hinv.step J action⟩

omit [DecidableEq T] in
theorem CallsInv.apart_of_subset (h : CallsInv state) (hcall : state.calls c = some call)
    {call' : Call M} (hhashes : call'.requestHashes = call.requestHashes)
    (hchannels : call'.channels = call.channels) :
    ∀ c' other, c' ≠ c → state.calls c' = some other → Apart call' other := by
  intro c' other hne hother
  unfold Apart
  rw [hhashes, hchannels]
  exact h.apart c c' call other (Ne.symm hne) hcall hother

/-- What happens outside the calls. -/
theorem CallsInv.signingAction (h : CallsInv state) (action : Action W T)
    (hlocal : ¬action.isLocal = true) (hclear : state.Clear (.signing action)) :
    CallsInv { state with signing := Signing.step J state.signing action } := by
  have hall : ∀ signing', Carries (fun _ => True) state.signing signing' →
      (∃ past : List (Action W T), Inv past signing') → CallsInv { state with signing := signing' } :=
    fun signing' hc hinv => h.signingStep hinv hc.events fun _ _ _ => hc.of_imp fun _ _ => trivial
  have hinv := inv_step J h.signing action
  cases action with
  | refreshMembers peers => exact hall _ (Carries.refreshMembers J _ state.signing peers) hinv
  | startSession now requestHash requestor request waited =>
    cases waited with
    | true => exact absurd rfl hlocal
    | false =>
      have hcarries := Carries.startSession state.signing now requestHash requestor request none
      refine h.signingStep hinv hcarries.events fun c call hcall => hcarries.of_imp fun k hk => ?_
      rcases hclear with hopen | hfree
      · exact .inr hopen
      · refine .inl fun heq => hfree c call hcall (heq ▸ hk)
  | acceptNonces requestHash sender message =>
    exact hall _ (Carries.acceptNonces _ state.signing requestHash sender message) hinv
  | acceptPartialSignatures requestHash sender message =>
    exact hall _ (Carries.acceptPartialSignatures _ state.signing requestHash sender message) hinv
  | removeExpiredSessions now => exact hall _ (Carries.removeExpiredSessions _ state.signing now) hinv
  | removeSession requestHash => exact absurd rfl hlocal

omit [DecidableEq T] in
theorem CallsInv.newCall (h : CallsInv state) (c : ℕ) :
    CallsInv (state.setCall c (some ⟨[], [], none, [], []⟩)) := by
  refine h.setOwn fun call hcall => ?_
  cases hcall
  refine ⟨⟨⟨by simp, by simp⟩, by simp, by simp, List.nodup_nil, by simp, by simp, by simp⟩, ?_⟩
  intro c' other _ _
  exact ⟨by simp, by simp⟩

theorem CallsInv.refreshCall (h : CallsInv state) (hcall : state.calls c = some call) (peers : List T) :
    CallsInv (state.refreshCall J c call peers) := by
  have hcarries := fun hashes => Carries.refreshMembers J hashes state.signing peers
  have hinv := inv_step J h.signing (.refreshMembers peers)
  change ∃ past : List (Action W T), Inv past (state.signing.refreshMembers J peers).1 at hinv
  unfold CallsState.refreshCall
  cases hrun : state.signing.refreshMembers J peers with
  | mk signing r =>
    rw [hrun] at hcarries hinv
    cases r with
    | ok _ =>
      exact h.signingStep hinv (hcarries fun _ => True).events fun c call _ => hcarries _
    | error e =>
      refine h.setCall hinv (hcarries fun _ => True).events (fun c' other _ _ => hcarries _) ?_
      intro call' hcall'
      cases hcall'
      refine ⟨((h.call c call hcall).carry (hcarries _)).setError (by simp), ?_⟩
      exact h.apart_of_subset hcall rfl rfl

omit [DecidableEq T] in
/-- A start that succeeds under a free hash opens a session with its channel. -/
theorem opened_of_ok {signing signing' : SigningState M} {now : ℕ} {requestHash requestor : W}
    {request : SigningRequest W} {completion : Option ℕ} {reply : Option (SigningNoncesMessage W)}
    (hout : StartOutcome signing now requestHash requestor request completion (signing', .ok reply))
    (hnew : requestHash ∉ signing.sessions) :
    ∃ session, signing'.sessions[requestHash]? = some session ∧ session.completion = completion := by
  cases hout with
  | dropped _ hr =>
    rcases hr with ⟨-, hopen⟩ | ⟨⟨e, he⟩, -⟩
    · exact absurd hopen hnew
    · cases he
  | watches signers _ hsigners hlocal => exact ⟨_, getElem?_put_self _ _ _, rfl⟩
  | signs signers secrets publics _ hsigners hlocal hkeys hnonces =>
    exact ⟨_, getElem?_put_self _ _ _, rfl⟩

omit [DecidableEq T] in
/-- The call as it goes on after it started an attempt. -/
theorem CallInv.startOk {signing signing' : SigningState M} (h : CallInv signing call) {requestHash : W}
    (hcarries : Carries (· ≠ requestHash) signing signing') (hlt : signing.channels < signing'.channels)
    (hfree : ∀ attempt ∈ call.pending, attempt.requestHash ≠ requestHash)
    {session : SigningSession M} (hs : signing'.sessions[requestHash]? = some session)
    (hcompletion : session.completion = some signing.channels) :
    CallInv signing' { call with
      requestHashes := call.requestHashes.insert requestHash
      pending := call.pending ++ [⟨requestHash, signing.channels, none⟩]
      channels := call.channels ++ [signing.channels] } := by
  have hsub : call.channels ⊆ call.channels ++ [signing.channels] := List.subset_append_left _ _
  have hlast : signing.channels ∈ call.channels ++ [signing.channels] :=
    List.mem_append_right _ (List.mem_singleton_self _)
  have hcases : ∀ a ∈ call.pending ++ [⟨requestHash, signing.channels, none⟩],
      a ∈ call.pending ∨ a = ⟨requestHash, signing.channels, none⟩ := by simp
  refine ⟨⟨fun e he => (h.ends e he).mono hcarries.events hsub,
    fun r hr => (h.result r hr).mono hcarries.events hsub⟩, fun k hk session' hs' => ?_, fun a ha => ?_, ?_,
    fun a ha hnone => ?_, fun a ha e he => ?_, fun channel hc => ?_⟩
  · by_cases hkeq : k = requestHash
    · subst hkeq
      obtain rfl := Option.some.inj (hs.symm.trans hs')
      exact ⟨signing.channels, hlast, hcompletion⟩
    · obtain ⟨session₀, hs₀, heq⟩ := hcarries.origin k hkeq session' hs'
      obtain ⟨channel, hmem, hch⟩ := h.owned k (((List.mem_insert_iff.mp hk)).resolve_left hkeq) session₀ hs₀
      exact ⟨channel, hsub hmem, heq ▸ hch⟩
  · rcases hcases a ha with hold | rfl
    · exact ⟨List.mem_insert_of_mem (h.pending a hold).1, hsub (h.pending a hold).2⟩
    · exact ⟨List.mem_insert_self, hlast⟩
  · rw [List.map_append, List.nodup_append]
    refine ⟨h.apart, List.nodup_singleton _, fun k hk k' hk' => ?_⟩
    obtain ⟨a, ha, rfl⟩ := List.mem_map.mp hk
    rw [List.mem_singleton.mp hk']
    exact hfree a ha
  · rcases hcases a ha with hold | rfl
    · rcases h.live a hold hnone with ⟨session', hs', hch⟩ | hanswered
      · exact hcarries.held _ (hfree a hold) session' _ hs' hch
      · exact .inr (hanswered.mono hcarries.events)
    · exact .inl ⟨session, hs, hcompletion⟩
  · rcases hcases a ha with hold | rfl
    · exact (h.endings a hold e he).mono hcarries.events hsub
    · cases he
  · rcases List.mem_append.mp hc with hold | hnew
    · exact (h.channels_lt channel hold).trans_le hcarries.channels
    · rw [List.mem_singleton.mp hnew]
      exact hlt

omit [DecidableEq T] in
/-- A call opens a session of its own, or ends in the error of the start. -/
theorem CallsInv.startAttempt (h : CallsInv state) (hcall : state.calls c = some call) (now : ℕ)
    (requestHash : W) (request : SigningRequest W)
    (hclear : state.Clear (.start c now requestHash request : CallAction W T)) :
    CallsInv (state.startAttempt c call now requestHash request) := by
  obtain ⟨hnew, hfree⟩ := hclear
  have hself := hfree c call hcall
  rw [if_pos rfl] at hself
  obtain ⟨past, hp⟩ := h.signing
  have hinv := hp.startSession now requestHash state.signing.localNode request true
  have hopen : ∀ hashes, Carries hashes state.signing (state.signing.openChannel true).1 := fun hashes =>
    Carries.of_same (fun _ _ => rfl) (List.Subset.refl _) (Nat.le_succ _)
  have hstart := Carries.startSession (state.signing.openChannel true).1 now requestHash
    state.signing.localNode request (some state.signing.channels)
  have hout := startSession_outcome (state.signing.openChannel true).1 now requestHash
    state.signing.localNode request (some state.signing.channels)
  have hchannels : state.signing.channels < (state.signing.openChannel true).1.channels := Nat.lt_succ_self _
  unfold CallsState.startAttempt
  cases state.signing.signersForBranch request.signingStormTreeBranch with
  | error e => exact h
  | ok signers =>
    change Inv past ((state.signing.openChannel true).1.startSession now requestHash
      state.signing.localNode request (some state.signing.channels)).1 at hinv
    simp only
    cases hrun : (state.signing.openChannel true).1.startSession now requestHash
        state.signing.localNode request (some state.signing.channels) with
    | mk signing r =>
      rw [hrun] at hinv hstart hout
      have hcarries : Carries (· ≠ requestHash) state.signing signing :=
        (hopen _).trans (hstart.of_imp fun k hk => .inl hk)
      cases r with
      | error e =>
        have hall : ∀ hashes, Carries hashes state.signing signing := by
          intro hashes
          cases hout with
          | dropped _ hr => exact (hopen hashes).trans (Carries.log _ _)
        refine h.setCall ⟨past, hinv⟩ hcarries.events (fun _ _ _ _ => hall _) fun call' hcall' => ?_
        cases hcall'
        exact ⟨((h.call c call hcall).carry (hall _)).setError (by simp),
          h.apart_of_subset hcall rfl rfl⟩
      | ok reply =>
        obtain ⟨session, hs, hcompletion⟩ := opened_of_ok hout hnew
        refine h.setCall ⟨past, hinv⟩ hcarries.events (fun c' other hne hother => ?_) fun call' hcall' => ?_
        · have hother' := hfree c' other hother
          rw [if_neg hne] at hother'
          exact hcarries.of_imp fun k hk heq => hother' (heq ▸ hk)
        · cases hcall'
          refine ⟨(h.call c call hcall).startOk hcarries (hchannels.trans_le hstart.channels) hself hs
            hcompletion, fun c' other hne hother => ?_⟩
          have hother' := hfree c' other hother
          rw [if_neg hne] at hother'
          have hapart := h.apart c c' call other (Ne.symm hne) hcall hother
          refine ⟨fun k hk => ?_, fun channel hc => ?_⟩
          · rcases List.mem_insert_iff.mp hk with rfl | hold
            · exact hother'
            · exact hapart.1 k hold
          · rcases List.mem_append.mp hc with hold | hlast
            · exact hapart.2 channel hold
            · rw [List.mem_singleton.mp hlast]
              exact fun hmem => absurd ((h.call c' other hother).channels_lt _ hmem) (lt_irrefl _)

omit [DecidableEq T] in
theorem CallsInv.joinAttempt (h : CallsInv state) (hcall : state.calls c = some call) {index : ℕ}
    {attempt : Attempt M} (hattempt : call.pending[index]? = some attempt) {ending : AttemptEnd M}
    (hending : attempt.ending = some ending) :
    CallsInv (state.joinAttempt c index call attempt ending) := by
  have hown := h.call c call hcall
  have hhash := (hown.pending attempt (List.mem_of_getElem? hattempt)).1
  -- The removal that every attempt but a completed one ends with.
  have hremove : CallsInv ({ state with
      signing := state.signing.removeSession attempt.requestHash }.setCall c (some { call with
        pending := call.pending.eraseIdx index, ends := call.ends ++ [ending] })) := by
    have hcarries := Carries.removeSession state.signing attempt.requestHash
    obtain ⟨past, hp⟩ := h.signing
    refine h.setCall ⟨past, hp.removeSession attempt.requestHash⟩ hcarries.events
      (fun c' other hne hother => hcarries.of_imp fun k hk heq => ?_) fun call' hcall' => ?_
    · exact (h.apart c c' call other (Ne.symm hne) hcall hother).1 _ hhash (heq ▸ hk)
    · cases hcall'
      exact ⟨hown.joinFailed hattempt hending, h.apart_of_subset hcall rfl rfl⟩
  unfold CallsState.joinAttempt
  cases ending with
  | completed result =>
    refine h.setOwn fun call' hcall' => ?_
    cases hcall'
    exact ⟨hown.joinCompleted hattempt hending, h.apart_of_subset hcall rfl rfl⟩
  | expired => exact hremove
  | timedOut => exact hremove
  | closed => exact hremove
  | failed => exact hremove

omit [DecidableEq T] in
theorem removeAll_inv {past : List (Action W T)} (requestHashes : List W) {signing : SigningState M}
    (h : Inv past signing) :
    Inv past (requestHashes.foldl (fun signing requestHash => signing.removeSession requestHash)
      signing) := by
  induction requestHashes generalizing signing with
  | nil => exact h
  | cons requestHash requestHashes ih => exact ih (h.removeSession requestHash)

omit [DecidableEq T] in
theorem removeAll_carries (requestHashes : List W) (signing : SigningState M) :
    Carries (· ∉ requestHashes) signing (requestHashes.foldl
      (fun signing requestHash => signing.removeSession requestHash) signing) := by
  induction requestHashes generalizing signing with
  | nil => exact Carries.refl _ signing
  | cons requestHash requestHashes ih =>
    have hfirst := (Carries.removeSession signing requestHash).of_imp
      fun k (hk : k ∉ requestHash :: requestHashes) => List.ne_of_not_mem_cons hk
    exact hfirst.trans ((ih _).of_imp fun k hk => List.not_mem_of_not_mem_cons hk)

omit [DecidableEq T] in
theorem CallsInv.finishCall (h : CallsInv state) (hcall : state.calls c = some call) :
    CallsInv (state.finishCall c call) := by
  have hcarries := removeAll_carries call.requestHashes state.signing
  obtain ⟨past, hp⟩ := h.signing
  have hset := @CallsInv.setCall _ _ _ _ state c h _ none ⟨past, removeAll_inv call.requestHashes hp⟩ hcarries.events
    (fun c' other hne hother => hcarries.of_imp fun k hk hmem =>
      (h.apart c c' call other (Ne.symm hne) hcall hother).1 k hmem hk) (by simp)
  refine ⟨hset.signing, hset.call, hset.apart, fun other hother => ?_⟩
  rcases List.mem_append.mp hother with hold | hlast
  · exact hset.returned other hold
  · rw [List.mem_singleton.mp hlast]
    exact (h.call c call hcall).toOwnReturn.mono hcarries.events

theorem CallsInv.callStep (h : CallsInv state) (hcall : state.calls c = some call)
    (action : CallAction W T) (hcaller : action.caller = some c) (hclear : state.Clear action) :
    CallsInv (state.callStep J c call action) := by
  have hown := h.call c call hcall
  cases action with
  | signing action => exact h
  | call _ => exact h
  | refreshMembers _ peers =>
    rw [CallsState.callStep]
    split_ifs
    · exact h
    · exact h.refreshCall J hcall peers
  | start c' now requestHash request =>
    obtain rfl : c' = c := Option.some.inj hcaller
    rw [CallsState.callStep]
    split_ifs
    · exact h
    · exact h.startAttempt hcall now requestHash request hclear
  | wait _ index waitEnd =>
    rw [CallsState.callStep]
    cases hattempt : call.pending[index]? with
    | none => exact h
    | some attempt =>
      have hmem := List.mem_of_getElem? hattempt
      simp only
      split_ifs with hended
      · exact h
      · cases hend : state.waitEnding attempt.channel waitEnd with
        | none => exact h
        | some ending =>
          obtain ⟨past, hp⟩ := h.signing
          have hlive := hown.live attempt hmem (by simpa using hended)
          refine h.setOwn fun call' hcall' => ?_
          cases hcall'
          exact ⟨hown.wait hattempt (hlive.ownEnd hp (hown.pending attempt hmem).2 hend),
            h.apart_of_subset hcall rfl rfl⟩
  | join _ index =>
    rw [CallsState.callStep]
    cases hattempt : call.pending[index]? with
    | none => exact h
    | some attempt =>
      cases hending : attempt.ending with
      | none =>
        simp only [hending]
        exact h
      | some ending =>
        simp only [hending]
        exact h.joinAttempt hcall hattempt hending
  | giveUp _ =>
    rw [CallsState.callStep]
    split_ifs
    · exact h
    · refine h.setOwn fun call' hcall' => ?_
      cases hcall'
      exact ⟨hown.setError (by simp), h.apart_of_subset hcall rfl rfl⟩
  | finish _ =>
    rw [CallsState.callStep]
    split_ifs
    · exact h.finishCall hcall
    · exact h
  | cancel _ =>
    exact h.setOwn fun call' hcall' => by cases hcall'

theorem step_of_caller {action : CallAction W T} (hcaller : action.caller = some c)
    (hcall : state.calls c = some call) : state.step J action = state.callStep J c call action := by
  cases action with
  | signing action => cases hcaller
  | call c' => cases hcaller
  | _ =>
    obtain rfl := Option.some.inj hcaller
    simp only [CallsState.step, CallAction.caller, hcall]

theorem step_of_idle {action : CallAction W T} (hcaller : action.caller = some c) (hcall : state.calls c = none) :
    state.step J action = state := by
  cases action with
  | signing action => cases hcaller
  | call c' => cases hcaller
  | _ =>
    obtain rfl := Option.some.inj hcaller
    simp only [CallsState.step, CallAction.caller, hcall]

/-- Every clear step keeps the calls apart. -/
theorem CallsInv.step (h : CallsInv state) (action : CallAction W T) (hclear : state.Clear action) :
    CallsInv (state.step J action) := by
  have hcallers : ∀ c, action.caller = some c → CallsInv (state.step J action) := by
    intro c hcaller
    cases hcall : state.calls c with
    | none =>
      rw [step_of_idle J hcaller hcall]
      exact h
    | some call =>
      rw [step_of_caller J hcaller hcall]
      exact h.callStep J hcall action hcaller hclear
  cases action with
  | signing action =>
    rw [CallsState.step]
    split_ifs with hlocal
    · exact h
    · exact h.signingAction J action hlocal hclear
  | call c =>
    rw [CallsState.step]
    split_ifs
    · exact h
    · exact h.newCall c
  | refreshMembers c peers => exact hcallers c rfl
  | start c now requestHash request => exact hcallers c rfl
  | wait c index waitEnd => exact hcallers c rfl
  | join c index => exact hcallers c rfl
  | giveUp c => exact hcallers c rfl
  | finish c => exact hcallers c rfl
  | cancel c => exact hcallers c rfl

theorem CallsInv.run (h : CallsInv state) (actions : List (CallAction W T))
    (hclear : CallsState.AllClear J state actions) : CallsInv (state.run J actions) := by
  induction actions generalizing state with
  | nil => exact h
  | cons action actions ih =>
    obtain ⟨hfirst, hrest⟩ := hclear
    exact ih (h.step J action hfirst) hrest

end Steps

section Survival

variable {state : CallsState M} {c : ℕ} {call : Call M} {k : W} {session : SigningSession M}

omit [DecidableEq T] in
theorem getElem?_removeAll (requestHashes : List W) (signing : SigningState M) (hk : k ∉ requestHashes) :
    (requestHashes.foldl (fun signing requestHash => signing.removeSession requestHash)
      signing).sessions[k]? = signing.sessions[k]? := by
  induction requestHashes generalizing signing with
  | nil => rfl
  | cons requestHash requestHashes ih =>
    rw [List.foldl_cons, ih _ (List.not_mem_of_not_mem_cons hk), getElem?_removeSession,
      if_neg (List.ne_of_not_mem_cons hk).symm]

omit [DecidableEq T] in
theorem getElem?_startSession (signing : SigningState M) (now : ℕ) (requestHash requestor : W)
    (request : SigningRequest W) (completion : Option ℕ) (hs : signing.sessions[k]? = some session) :
    (signing.startSession now requestHash requestor request completion).1.sessions[k]? = some session := by
  have hne : requestHash ∉ signing.sessions → requestHash ≠ k := by
    rintro hnew rfl
    apply hnew
    rw [← Std.ExtTreeMap.isSome_getElem?_iff_mem, hs]
    rfl
  have hout := startSession_outcome signing now requestHash requestor request completion
  generalize signing.startSession now requestHash requestor request completion = out at hout ⊢
  cases hout with
  | dropped r hr => exact hs
  | watches signers hnew hsigners hlocal => rw [getElem?_put, if_neg (hne hnew), hs]
  | signs signers secrets publics hnew hsigners hlocal hkeys hnonces =>
    change (signing.put requestHash _).sessions[k]? = _
    rw [getElem?_put, if_neg (hne hnew), hs]

/-- A step of a call leaves every session alone that is not the call's own. -/
theorem CallsInv.survives (h : CallsInv state) (hcall : state.calls c = some call)
    (hs : state.signing.sessions[k]? = some session)
    (hforeign : ∀ channel ∈ call.channels, session.completion ≠ some channel)
    (action : CallAction W T) : (state.callStep J c call action).signing.sessions[k]? = some session := by
  have hown := h.call c call hcall
  have hk : k ∉ call.requestHashes := by
    intro hmem
    obtain ⟨channel, hchannel, hcompletion⟩ := hown.owned k hmem session hs
    exact hforeign channel hchannel hcompletion
  cases action with
  | signing action => exact hs
  | call _ => exact hs
  | refreshMembers _ peers =>
    rw [CallsState.callStep]
    split_ifs
    · exact hs
    · obtain ⟨tree, keys, heq⟩ := refreshMembers_kept J state.signing peers
      have hsame : (state.signing.refreshMembers J peers).1.sessions[k]? = some session := by rw [heq, hs]
      rw [CallsState.refreshCall]
      cases hrun : state.signing.refreshMembers J peers with
      | mk signing r =>
        rw [hrun] at hsame
        cases r <;> exact hsame
  | start _ now requestHash request =>
    rw [CallsState.callStep]
    split_ifs
    · exact hs
    · have hsame := getElem?_startSession (state.signing.openChannel true).1 now requestHash
        state.signing.localNode request (some state.signing.channels) hs
      rw [CallsState.startAttempt]
      cases state.signing.signersForBranch request.signingStormTreeBranch with
      | error e => exact hs
      | ok signers =>
        simp only
        cases hrun : (state.signing.openChannel true).1.startSession now requestHash
            state.signing.localNode request (some state.signing.channels) with
        | mk signing r =>
          rw [hrun] at hsame
          cases r <;> exact hsame
  | wait _ index waitEnd =>
    rw [CallsState.callStep]
    cases call.pending[index]? with
    | none => exact hs
    | some attempt =>
      simp only
      split_ifs
      · exact hs
      · cases state.waitEnding attempt.channel waitEnd <;> exact hs
  | join _ index =>
    rw [CallsState.callStep]
    cases hattempt : call.pending[index]? with
    | none => exact hs
    | some attempt =>
      have hhash := (hown.pending attempt (List.mem_of_getElem? hattempt)).1
      have hremoved : (state.signing.removeSession attempt.requestHash).sessions[k]? = some session := by
        rw [getElem?_removeSession, if_neg (fun heq : attempt.requestHash = k => hk (heq ▸ hhash)), hs]
      cases hending : attempt.ending with
      | none =>
        simp only [hending]
        exact hs
      | some ending =>
        simp only [hending]
        cases ending with
        | completed result => exact hs
        | expired => exact hremoved
        | timedOut => exact hremoved
        | closed => exact hremoved
        | failed => exact hremoved
  | giveUp _ =>
    rw [CallsState.callStep]
    split_ifs <;> exact hs
  | finish _ =>
    rw [CallsState.callStep]
    split_ifs
    · exact (getElem?_removeAll call.requestHashes state.signing hk).trans hs
    · exact hs
  | cancel _ => exact hs

/-- No step of a call takes away a session that a peer or another running call opened, no
channel that a call waits on is dropped, and calls return for reasons of their own. -/
structure KeepsApart (state : CallsState M) : Prop where
  calls : ∀ (action : CallAction W T) c call, action.caller = some c → state.calls c = some call →
    ∀ c' other (k : W) (session : SigningSession M) channel, c' ≠ c → state.calls c' = some other → channel ∈ other.channels →
      state.signing.sessions[k]? = some session → session.completion = some channel →
        (state.step J action).signing.sessions[k]? = some session
  peers : ∀ (action : CallAction W T) c call, action.caller = some c → state.calls c = some call →
    ∀ (k : W) (session : SigningSession M), state.signing.sessions[k]? = some session →
      session.completion = none → (state.step J action).signing.sessions[k]? = some session
  waits : ∀ c call, state.calls c = some call → ∀ attempt ∈ call.pending,
    attempt.ending ≠ some .closed ∧
      (attempt.ending = none → .dropped attempt.channel ∉ state.signing.events)
  returned : ∀ call ∈ state.returned, OwnReturn state.signing.events call

theorem calls_keep_apart (secretKey : M.SecretKey) (peers : List T) (actions : List (CallAction W T))
    (hclear : CallsState.AllClear J (CallsState.new J secretKey peers : CallsState M) actions) :
    KeepsApart J ((CallsState.new J secretKey peers : CallsState M).run J actions) := by
  have hstart : CallsInv (CallsState.new J secretKey peers : CallsState M) :=
    { signing := ⟨[], new_inv J secretKey peers⟩
      call := fun _ _ hcall => by cases hcall
      apart := fun _ _ _ _ _ hcall => by cases hcall
      returned := fun _ hcall => absurd hcall List.not_mem_nil }
  have h := hstart.run J actions hclear
  constructor
  · intro action c call hcaller hcall c' other k session channel hne hother hchannel hs hcompletion
    rw [step_of_caller J hcaller hcall]
    apply h.survives J hcall hs
    intro channel' hchannel' heq
    obtain rfl := Option.some.inj (hcompletion.symm.trans heq)
    exact (h.apart c' c other call hne hother hcall).2 channel hchannel hchannel'
  · intro action c call hcaller hcall k session hs hnone
    rw [step_of_caller J hcaller hcall]
    apply h.survives J hcall hs
    intro channel _ heq
    rw [hnone] at heq
    cases heq
  · intro c call hcall attempt hmem
    have hown := h.call c call hcall
    obtain ⟨past, hp⟩ := h.signing
    exact ⟨fun hclosed => hown.endings attempt hmem .closed hclosed,
      fun hnone => (hown.live attempt hmem hnone).not_dropped hp⟩
  · exact h.returned

end Survival

section Example

def fresh : Call sumMusig := ⟨[], [], none, [], []⟩

/-- The call that opened session 7 and waits on its channel. -/
def opener : Call sumMusig := ⟨[7], [⟨7, 0, none⟩], none, [0], []⟩

/-- The call that asked for the same session and found its channel closed. -/
def follower (ending : Option (AttemptEnd sumMusig)) : Call sumMusig :=
  ⟨[7], [⟨7, 1, ending⟩], none, [1], []⟩

def idle (tree : StormTree ℕ) : CallsState sumMusig := ⟨sumState tree, fun _ => none, []⟩

def twoCalls (tree : StormTree ℕ) : CallsState sumMusig :=
  ((idle tree).setCall 0 (some fresh)).setCall 1 (some fresh)

def firstStarted (tree : StormTree ℕ) : CallsState sumMusig :=
  { twoCalls tree with signing := sumOpened tree }.setCall 0 (some opener)

def secondStarted (tree : StormTree ℕ) : CallsState sumMusig :=
  { firstStarted tree with
    signing := { sumOpened tree with channels := 2, events := [.dropped 1] } }.setCall 1
      (some (follower none))

theorem twoCalls_start {tree : StormTree ℕ}
    (hbranch : StormTree.nodesForBranch (E := sumMusig.KeyError) tree 11 = .ok [1, 2]) :
    (twoCalls tree).step idealJets (.start 0 0 7 ⟨11, [5]⟩) = firstStarted tree := by
  have hsigners : (twoCalls tree).signing.signersForBranch 11 = .ok [1, 2] := by
    simp only [SigningState.signersForBranch, twoCalls, CallsState.setCall, idle, sumState, hbranch]
  have hopened : ((twoCalls tree).signing.openChannel true).1.signersForBranch 11 = .ok [1, 2] := hsigners
  change (twoCalls tree).startAttempt 0 fresh 0 7 ⟨11, [5]⟩ = _
  unfold CallsState.startAttempt SigningState.startSession
  rw [hsigners, hopened]
  with_unfolding_all rfl

theorem firstStarted_start {tree : StormTree ℕ}
    (hbranch : StormTree.nodesForBranch (E := sumMusig.KeyError) tree 11 = .ok [1, 2]) :
    (firstStarted tree).step idealJets (.start 1 0 7 ⟨11, [5]⟩) = secondStarted tree := by
  have hsigners : (firstStarted tree).signing.signersForBranch 11 = .ok [1, 2] := by
    simp only [SigningState.signersForBranch, firstStarted, CallsState.setCall, sumOpened, sumState, hbranch]
  change (firstStarted tree).startAttempt 1 fresh 0 7 ⟨11, [5]⟩ = _
  unfold CallsState.startAttempt SigningState.startSession
  rw [hsigners]
  with_unfolding_all rfl

theorem new_idle : ∃ tree,
    (CallsState.new idealJets (1 : ℕ) [1, 2, 4] : CallsState sumMusig) = idle tree ∧
      StormTree.nodesForBranch (E := sumMusig.KeyError) tree 11 = .ok [1, 2] := by
  obtain ⟨tree, hnew, -, hbranch⟩ := sum_new
  refine ⟨tree, ?_, hbranch⟩
  unfold CallsState.new idle
  rw [hnew]

/-- A call opens session 7 while another one runs. -/
theorem calls_keep_apart_one_start :
    KeepsApart idealJets ((CallsState.new idealJets (1 : ℕ) [1, 2, 4] : CallsState sumMusig).run idealJets
      [.call 0, .call 1, .start 0 0 7 ⟨11, [5]⟩]) := by
  apply calls_keep_apart (M := sumMusig) idealJets (1 : ℕ) [1, 2, 4]
  obtain ⟨tree, hnew, hbranch⟩ := new_idle
  rw [hnew]
  refine ⟨trivial, trivial, ?_, trivial⟩
  change (twoCalls tree).Clear (.start 0 0 7 ⟨11, [5]⟩)
  refine ⟨Std.ExtTreeMap.not_mem_empty, fun c call hcall => ?_⟩
  have hfresh : call = fresh := by
    simp only [twoCalls, setCall_calls] at hcall
    split_ifs at hcall
    · exact (Option.some.inj hcall).symm
    · exact (Option.some.inj hcall).symm
    · cases hcall
  subst hfresh
  split_ifs <;> simp [fresh]

/-- The second of two calls for one request finds its channel closed, and its cleanup takes away the
session that the first one waits on. -/
theorem overlapping_calls_lose_session :
    ¬∀ actions, KeepsApart idealJets ((CallsState.new idealJets (1 : ℕ) [1, 2, 4] :
      CallsState sumMusig).run idealJets actions) := by
  intro hclaim
  obtain ⟨tree, hnew, hbranch⟩ := new_idle
  have h := hclaim ([.call 0, .call 1, .start 0 0 7 ⟨11, [5]⟩, .start 1 0 7 ⟨11, [5]⟩, .wait 1 0 .received] :
    List (CallAction ℕ ℕ))
  rw [hnew] at h
  change KeepsApart idealJets ((((twoCalls tree).step idealJets (.start 0 0 7 ⟨11, [5]⟩)).step idealJets
    (.start 1 0 7 ⟨11, [5]⟩)).step idealJets (.wait 1 0 .received)) at h
  rw [twoCalls_start hbranch, firstStarted_start hbranch] at h
  have hkept := h.calls (.join 1 0) 1 (follower (some .closed)) rfl rfl 0 opener 7 sumSession 0
    (by decide) rfl (by decide) (getElem?_sumOpened tree) rfl
  have hgone : (((secondStarted tree).step idealJets (.wait 1 0 .received)).step idealJets
      (.join 1 0)).signing.sessions[7]? = none := by
    with_unfolding_all rfl
  rw [hgone] at hkept
  cases hkept

end Example

end Signing
end PriceOracle
