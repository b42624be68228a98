import PriceOracle.SigningCalls
import PriceOracle.SigningChannels

/-!
# Concurrent signing calls keep apart

In a run whose starts collide with nobody, running calls hold different request
hashes, every session under a hash of a call is the call's own, and no channel that
a call waits on is ever dropped. So a call cleans up nothing but its own sessions
and returns for reasons of its own.
-/

namespace PriceOracle

namespace Signing

variable {W T : Type} [LinearOrder W] {M : Musig W T}

section Invariant

/-- The attempt's channel is still held by the session under its hash, or was answered. -/
def Live (signing : SigningState M) (attempt : Attempt M) : Prop :=
  (∃ session, signing.sessions[attempt.requestHash]? = some session ∧
    session.completion = some attempt.channel) ∨ Answered signing.events attempt.channel

/-- A result that came through one of the channels. -/
def OwnCompletion (events : List (Event M)) (channels : List ℕ) (result : SigningResult W M.Signature) :
    Prop :=
  ∃ channel ∈ channels, ∃ session, Event.completed channel session result ∈ events

/-- An attempt ends with its own completion, its expiry, its deadline or its own error. -/
def OwnEnd (events : List (Event M)) (channels : List ℕ) : AttemptEnd M → Prop
  | .completed result => OwnCompletion events channels result
  | .expired => ∃ channel ∈ channels, Event.expired channel ∈ events
  | .closed => False
  | .timedOut => True
  | .failed => True

def OwnResult (events : List (Event M)) (channels : List ℕ) : CallResult M → Prop
  | .ok result => OwnCompletion events channels result
  | _ => True

/-- The call's attempts and its result are its own. -/
structure OwnReturn (events : List (Event M)) (call : Call M) : Prop where
  ends : ∀ ending ∈ call.ends, OwnEnd events call.channels ending
  result : ∀ result, call.result = some result → OwnResult events call.channels result

structure CallInv (signing : SigningState M) (call : Call M) : Prop extends
    OwnReturn signing.events call where
  owned : ∀ h ∈ call.requestHashes, ∀ session, signing.sessions[h]? = some session →
    ∃ channel ∈ call.channels, session.completion = some channel
  pending : ∀ attempt ∈ call.pending,
    attempt.requestHash ∈ call.requestHashes ∧ attempt.channel ∈ call.channels
  apart : (call.pending.map Attempt.requestHash).Nodup
  live : ∀ attempt ∈ call.pending, attempt.ending = none → Live signing attempt
  endings : ∀ attempt ∈ call.pending, ∀ ending, attempt.ending = some ending →
    OwnEnd signing.events call.channels ending
  channels_lt : ∀ channel ∈ call.channels, channel < signing.channels

/-- Two calls share neither a request hash nor a channel. -/
def Apart (call call' : Call M) : Prop :=
  (∀ h ∈ call.requestHashes, h ∉ call'.requestHashes) ∧ ∀ channel ∈ call.channels, channel ∉ call'.channels

structure CallsInv (state : CallsState M) : Prop where
  signing : ∃ past : List (Action W T), Inv past state.signing
  call : ∀ c call, state.calls c = some call → CallInv state.signing call
  apart : ∀ c c' call call', c ≠ c' → state.calls c = some call → state.calls c' = some call' →
    Apart call call'
  returned : ∀ call ∈ state.returned, OwnReturn state.signing.events call

omit [LinearOrder W] in
theorem Apart.symm {call call' : Call M} (h : Apart call call') : Apart call' call :=
  ⟨fun k hk hk' => h.1 k hk' hk, fun channel hc hc' => h.2 channel hc' hc⟩

theorem OwnCompletion.mono {events events' : List (Event M)} {channels channels' : List ℕ}
    {result : SigningResult W M.Signature} (h : OwnCompletion events channels result)
    (hevents : events ⊆ events') (hchannels : channels ⊆ channels') :
    OwnCompletion events' channels' result := by
  obtain ⟨channel, hc, session, he⟩ := h
  exact ⟨channel, hchannels hc, session, hevents he⟩

theorem OwnEnd.mono {events events' : List (Event M)} {channels channels' : List ℕ}
    {ending : AttemptEnd M} (h : OwnEnd events channels ending) (hevents : events ⊆ events')
    (hchannels : channels ⊆ channels') : OwnEnd events' channels' ending := by
  cases ending with
  | completed result => exact OwnCompletion.mono h hevents hchannels
  | expired =>
    obtain ⟨channel, hc, he⟩ := h
    exact ⟨channel, hchannels hc, hevents he⟩
  | closed => exact h
  | timedOut => trivial
  | failed => trivial

theorem OwnResult.mono {events events' : List (Event M)} {channels channels' : List ℕ}
    {result : CallResult M} (h : OwnResult events channels result) (hevents : events ⊆ events')
    (hchannels : channels ⊆ channels') : OwnResult events' channels' result := by
  cases result with
  | ok result => exact OwnCompletion.mono h hevents hchannels
  | _ => trivial

theorem OwnReturn.mono {events events' : List (Event M)} {call : Call M} (h : OwnReturn events call)
    (hevents : events ⊆ events') : OwnReturn events' call :=
  ⟨fun ending he => (h.ends ending he).mono hevents (List.Subset.refl _),
    fun result hr => (h.result result hr).mono hevents (List.Subset.refl _)⟩

/-- What the coordinator does elsewhere leaves the invariant of a call alone. -/
theorem CallInv.carry {signing signing' : SigningState M} {call : Call M} (h : CallInv signing call)
    (hc : Carries (· ∈ call.requestHashes) signing signing') : CallInv signing' call where
  toOwnReturn := h.toOwnReturn.mono hc.events
  owned k hk session hs := by
    obtain ⟨session₀, hs₀, heq⟩ := hc.origin k hk session hs
    obtain ⟨channel, hmem, hch⟩ := h.owned k hk session₀ hs₀
    exact ⟨channel, hmem, heq ▸ hch⟩
  pending := h.pending
  apart := h.apart
  live attempt ha hnone := by
    rcases h.live attempt ha hnone with ⟨session, hs, hch⟩ | hanswered
    · exact hc.held _ (h.pending attempt ha).1 session _ hs hch
    · exact .inr (hanswered.mono hc.events)
  endings attempt ha ending he := (h.endings attempt ha ending he).mono hc.events (List.Subset.refl _)
  channels_lt channel hmem := (h.channels_lt channel hmem).trans_le hc.channels

end Invariant

section Update

variable {state : CallsState M} {c : ℕ}

theorem setCall_calls (c : ℕ) (call : Option (Call M)) (k : ℕ) :
    (state.setCall c call).calls k = if k = c then call else state.calls k := by
  unfold CallsState.setCall
  exact Function.update_apply _ _ _ _

/-- A step of the coordinator outside every call. -/
theorem CallsInv.signingStep (h : CallsInv state) {signing : SigningState M}
    (hinv : ∃ past : List (Action W T), Inv past signing) (hevents : state.signing.events ⊆ signing.events)
    (hcarries : ∀ c call, state.calls c = some call →
      Carries (· ∈ call.requestHashes) state.signing signing) :
    CallsInv { state with signing := signing } where
  signing := hinv
  call c call hcall := (h.call c call hcall).carry (hcarries c call hcall)
  apart := h.apart
  returned call hcall := (h.returned call hcall).mono hevents

/-- A step of one call. -/
theorem CallsInv.setCall (h : CallsInv state) {signing : SigningState M} {new : Option (Call M)}
    (hinv : ∃ past : List (Action W T), Inv past signing) (hevents : state.signing.events ⊆ signing.events)
    (hcarries : ∀ c' call, c' ≠ c → state.calls c' = some call →
      Carries (· ∈ call.requestHashes) state.signing signing)
    (hnew : ∀ call, new = some call → CallInv signing call ∧
      ∀ c' call', c' ≠ c → state.calls c' = some call' → Apart call call') :
    CallsInv ({ state with signing := signing }.setCall c new) where
  signing := hinv
  call k call hcall := by
    rw [setCall_calls] at hcall
    split_ifs at hcall with hk
    · exact (hnew call hcall).1
    · exact (h.call k call hcall).carry (hcarries k call hk hcall)
  apart k k' call call' hne hcall hcall' := by
    rw [setCall_calls] at hcall hcall'
    split_ifs at hcall with hk <;> split_ifs at hcall' with hk'
    · exact absurd (hk.trans hk'.symm) hne
    · exact (hnew call hcall).2 k' call' hk' hcall'
    · exact ((hnew call' hcall').2 k call hk hcall).symm
    · exact h.apart k k' call call' hne hcall hcall'
  returned call hcall := (h.returned call hcall).mono hevents

/-- A step of one call that leaves the coordinator alone. -/
theorem CallsInv.setOwn (h : CallsInv state) {new : Option (Call M)}
    (hnew : ∀ call, new = some call → CallInv state.signing call ∧
      ∀ c' call', c' ≠ c → state.calls c' = some call' → Apart call call') :
    CallsInv (state.setCall c new) :=
  h.setCall h.signing (List.Subset.refl _) (fun _ _ _ _ => Carries.refl _ _) hnew

end Update

section Attempts

variable {signing : SigningState M} {call : Call M} {index : ℕ} {attempt : Attempt M}

theorem received_some {events : List (Event M)} {channel : ℕ} {ending : AttemptEnd M}
    (h : received events channel = some ending) :
    (∃ session result, Event.completed channel session result ∈ events ∧ ending = .completed result) ∨
      (Event.expired channel ∈ events ∧ ending = .expired) ∨
        (Event.dropped channel ∈ events ∧ ending = .closed) := by
  unfold received at h
  obtain ⟨event, he, hf⟩ := List.exists_of_findSome?_eq_some h
  cases event with
  | signed nonce => cases hf
  | completed channel' session result =>
    simp only [Option.ite_none_right_eq_some, Option.some.injEq] at hf
    obtain ⟨rfl, rfl⟩ := hf
    exact .inl ⟨session, result, he, rfl⟩
  | expired channel' =>
    simp only [Option.ite_none_right_eq_some, Option.some.injEq] at hf
    obtain ⟨rfl, rfl⟩ := hf
    exact .inr (.inl ⟨he, rfl⟩)
  | dropped channel' =>
    simp only [Option.ite_none_right_eq_some, Option.some.injEq] at hf
    obtain ⟨rfl, rfl⟩ := hf
    exact .inr (.inr ⟨he, rfl⟩)

/-- A channel that is held or answered was not dropped. -/
theorem Live.not_dropped {past : List (Action W T)} (h : Live signing attempt) (hinv : Inv past signing) :
    Event.dropped attempt.channel ∉ signing.events := by
  intro hdropped
  have hspent : attempt.channel ∈ signing.events.filterMap Event.channel :=
    List.mem_filterMap.mpr ⟨_, hdropped, rfl⟩
  rcases h with ⟨session, hs, hch⟩ | ⟨session, result, he⟩ | he
  · apply hinv.channels.held_unspent attempt.requestHash attempt.channel _ hspent
    rw [heldChannels_of_getElem? hs, hch]
    exact List.mem_singleton_self _
  · have := TokenLedger.eq_of_spent Event.channel signing.events hinv.channels.spent_nodup he hdropped
      rfl rfl
    cases this
  · have := TokenLedger.eq_of_spent Event.channel signing.events hinv.channels.spent_nodup he hdropped
      rfl rfl
    cases this

/-- However the wait of a live attempt ends, it ends for a reason of its own. -/
theorem Live.ownEnd {past : List (Action W T)} (h : Live signing attempt) (hinv : Inv past signing)
    {channels : List ℕ} (hmem : attempt.channel ∈ channels) {calls : ℕ → Option (Call M)}
    {returned : List (Call M)} {waitEnd : WaitEnd} {ending : AttemptEnd M}
    (hend : CallsState.waitEnding ⟨signing, calls, returned⟩ attempt.channel waitEnd = some ending) :
    OwnEnd signing.events channels ending := by
  cases waitEnd with
  | received =>
    rcases received_some hend with ⟨session, result, he, rfl⟩ | ⟨he, rfl⟩ | ⟨he, rfl⟩
    · exact ⟨attempt.channel, hmem, session, he⟩
    · exact ⟨attempt.channel, hmem, he⟩
    · exact absurd he (h.not_dropped hinv)
  | timedOut =>
    cases hend
    trivial
  | failed =>
    cases hend
    trivial

omit [LinearOrder W] in
theorem map_set_requestHash (pending : List (Attempt M)) (h : pending[index]? = some attempt)
    (ending : Option (AttemptEnd M)) :
    (pending.set index { attempt with ending := ending }).map Attempt.requestHash =
      pending.map Attempt.requestHash := by
  rw [List.map_set]
  apply List.ext_getElem?
  intro i
  rw [List.getElem?_set]
  split_ifs with hi hlt
  · rw [← hi, List.getElem?_map, h]
    rfl
  · rw [← hi, List.getElem?_eq_none (Nat.not_lt.mp hlt)]
  · rfl

/-- The wait of one attempt is over. -/
theorem CallInv.wait (h : CallInv signing call) (hattempt : call.pending[index]? = some attempt)
    {ending : AttemptEnd M} (hend : OwnEnd signing.events call.channels ending) :
    CallInv signing
      { call with pending := call.pending.set index { attempt with ending := some ending } } := by
  have hmem := List.mem_of_getElem? hattempt
  have hcases : ∀ a ∈ call.pending.set index { attempt with ending := some ending },
      a ∈ call.pending ∨ a = { attempt with ending := some ending } := fun a ha =>
    List.mem_or_eq_of_mem_set ha
  refine { h with
    pending := fun a ha => ?_
    apart := ?_
    live := fun a ha hnone => ?_
    endings := fun a ha e he => ?_ }
  · rcases hcases a ha with hold | rfl
    · exact h.pending a hold
    · exact h.pending attempt hmem
  · change ((call.pending.set index { attempt with ending := some ending }).map
      Attempt.requestHash).Nodup
    rw [map_set_requestHash call.pending hattempt]
    exact h.apart
  · rcases hcases a ha with hold | rfl
    · exact h.live a hold hnone
    · cases hnone
  · rcases hcases a ha with hold | rfl
    · exact h.endings a hold e he
    · cases he
      exact hend

omit [LinearOrder W] in
theorem requestHash_ne_of_eraseIdx (pending : List (Attempt M))
    (hapart : (pending.map Attempt.requestHash).Nodup) (h : pending[index]? = some attempt)
    {other : Attempt M} (hother : other ∈ pending.eraseIdx index) :
    other.requestHash ≠ attempt.requestHash := by
  obtain ⟨j, hne, hj⟩ := List.mem_eraseIdx_iff_getElem?.mp hother
  intro heq
  have hlt : j < (pending.map Attempt.requestHash).length := by
    rw [List.length_map]
    exact (List.getElem?_eq_some_iff.mp hj).1
  apply hne
  apply (List.getElem?_inj hlt hapart).mp
  rw [List.getElem?_map, List.getElem?_map, hj, h, Option.map_some, Option.map_some, heq]

theorem getElem?_removeSession (signing : SigningState M) (requestHash k : W) :
    (signing.removeSession requestHash).sessions[k]? =
      if requestHash = k then none else signing.sessions[k]? := by
  unfold SigningState.removeSession
  cases hs : signing.sessions[requestHash]? with
  | none =>
    split_ifs with hk
    · rw [← hk, hs]
    · rfl
  | some session => exact Carries.getElem?_erase signing.sessions requestHash k

/-- A failed attempt has removed what was under its hash, and no other attempt waits there. -/
theorem CallInv.joinFailed (h : CallInv signing call) (hattempt : call.pending[index]? = some attempt)
    {ending : AttemptEnd M} (hending : attempt.ending = some ending) :
    CallInv (signing.removeSession attempt.requestHash)
      { call with pending := call.pending.eraseIdx index, ends := call.ends ++ [ending] } := by
  have hcarries := Carries.removeSession signing attempt.requestHash
  have hmem := List.mem_of_getElem? hattempt
  have hsub : ∀ a ∈ call.pending.eraseIdx index, a ∈ call.pending := fun a ha =>
    List.mem_of_mem_eraseIdx ha
  have hown := (h.endings attempt hmem ending hending).mono hcarries.events (List.Subset.refl _)
  have hreturn := h.toOwnReturn.mono hcarries.events
  refine ⟨⟨fun e he => ?_, hreturn.result⟩, fun k hk session hs => ?_, fun a ha => h.pending a (hsub a ha),
    ?_, fun a ha hnone => ?_, fun a ha e he => ?_, fun channel hc =>
      (h.channels_lt channel hc).trans_le hcarries.channels⟩
  · rcases List.mem_append.mp he with hold | hlast
    · exact hreturn.ends e hold
    · exact List.mem_singleton.mp hlast ▸ hown
  · rw [getElem?_removeSession] at hs
    split_ifs at hs
    exact h.owned k hk session hs
  · exact h.apart.sublist ((List.eraseIdx_sublist _ _).map _)
  · have hne := requestHash_ne_of_eraseIdx call.pending h.apart hattempt ha
    rcases h.live a (hsub a ha) hnone with ⟨session, hs, hch⟩ | hanswered
    · exact hcarries.held _ hne session _ hs hch
    · exact .inr (hanswered.mono hcarries.events)
  · exact (h.endings a (hsub a ha) e he).mono hcarries.events (List.Subset.refl _)

/-- A completed attempt gives the call its result. -/
theorem CallInv.joinCompleted (h : CallInv signing call) (hattempt : call.pending[index]? = some attempt)
    {result : SigningResult W M.Signature} (hending : attempt.ending = some (.completed result)) :
    CallInv signing { call with
      pending := call.pending.eraseIdx index
      ends := call.ends ++ [.completed result]
      result := call.result.or (some (.ok result)) } := by
  have hmem := List.mem_of_getElem? hattempt
  have hsub : ∀ a ∈ call.pending.eraseIdx index, a ∈ call.pending := fun a ha =>
    List.mem_of_mem_eraseIdx ha
  have hown : OwnCompletion signing.events call.channels result :=
    h.endings attempt hmem (.completed result) hending
  refine ⟨⟨fun e he => ?_, fun r hr => ?_⟩, h.owned, fun a ha => h.pending a (hsub a ha), ?_,
    fun a ha => h.live a (hsub a ha), fun a ha => h.endings a (hsub a ha), h.channels_lt⟩
  · rcases List.mem_append.mp he with hold | hlast
    · exact h.ends e hold
    · rw [List.mem_singleton.mp hlast]
      exact hown
  · change call.result.or (some (.ok result)) = some r at hr
    cases hresult : call.result with
    | none =>
      rw [hresult] at hr
      cases hr
      exact hown
    | some old =>
      rw [hresult] at hr
      cases hr
      exact h.result _ hresult
  · exact h.apart.sublist ((List.eraseIdx_sublist _ _).map _)

/-- A call that has not got a result of its own may end in an error. -/
theorem CallInv.setError (h : CallInv signing call) {result : CallResult M}
    (hresult : ∀ r, result ≠ .ok r) : CallInv signing { call with result := some result } := by
  refine { h with result := fun r hr => ?_ }
  cases hr
  cases result with
  | ok result => exact absurd rfl (hresult result)
  | _ => trivial

end Attempts

end Signing
end PriceOracle
