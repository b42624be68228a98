import PriceOracle.SigningSteps
import PriceOracle.TokenLedger

/-!
# Runs of the signing coordinator

The coordinator under any interleaving of its entry points, and the invariant of
its sessions: contributions have one item for every message, come from their
signer, and are marked verified only when they verify.
-/

namespace PriceOracle

namespace Signing

variable {W T : Type} [LinearOrder W] {M : Musig W T}

open SigningSession
open TokenLedger (Ledger)

inductive Action (W T : Type) where
  | refreshMembers (peers : List T)
  | startSession (now : ℕ) (requestHash requestor : W) (request : SigningRequest W) (waited : Bool)
  | acceptNonces (requestHash sender : W) (message : SigningNoncesMessage W)
  | acceptPartialSignatures (requestHash sender : W) (message : PartialSignaturesMessage W)
  | removeExpiredSessions (now : ℕ)
  | removeSession (requestHash : W)

section Step

variable {Sig : Type} [DecidableEq T] (J : Jets W Sig)

/-- `oneshot::channel()`, when the starter waits for the result. -/
def SigningState.openChannel (state : SigningState M) : Bool → SigningState M × Option ℕ
  | true => ({ state with channels := state.channels + 1 }, some state.channels)
  | false => (state, none)

def step (state : SigningState M) : Action W T → SigningState M
  | .refreshMembers peers => (state.refreshMembers J peers).1
  | .startSession now requestHash requestor request waited =>
    let (state, completion) := state.openChannel waited
    (state.startSession now requestHash requestor request completion).1
  | .acceptNonces requestHash sender message => (state.acceptNonces requestHash sender message).1
  | .acceptPartialSignatures requestHash sender message =>
    (state.acceptPartialSignatures requestHash sender message).1
  | .removeExpiredSessions now => state.removeExpiredSessions now
  | .removeSession requestHash => state.removeSession requestHash

def run (state : SigningState M) (actions : List (Action W T)) : SigningState M :=
  actions.foldl (step J) state

end Step

section SessionInvariant

/-- The invariant of one session after the actions `past`. -/
structure SessionInv (past : List (Action W T)) (secretKey : M.SecretKey) (localNode requestHash : W)
    (session : SigningSession M) : Prop where
  keys : ∀ s, s ∈ session.contributions ↔ s ∈ session.signers
  nonces_length : ∀ s nonces, (session.contribution s).nonces = some nonces →
    nonces.length = session.request.messageHashes.length
  partials_length : ∀ s partials, (session.contribution s).partialSignatures = some partials →
    partials.length = session.request.messageHashes.length
  verified : ∀ s, (session.contribution s).partialSignaturesVerified = true →
    session.noncesReady = true ∧ session.Verifies (M.keyAggCache session.signers) s
  nonces_received : ∀ s nonces, s ≠ localNode → (session.contribution s).nonces = some nonces →
    ∃ message, .acceptNonces requestHash s message ∈ past ∧ message.signer = s ∧
      SigningState.parseNonces message.nonces = .ok nonces
  partials_received : ∀ s partials, s ≠ localNode →
    (session.contribution s).partialSignatures = some partials →
      ∃ message, .acceptPartialSignatures requestHash s message ∈ past ∧ message.signer = s ∧
        SigningState.parsePartials s 0 message.partialSignatures = .ok partials
  own : ∀ secrets, session.secretNonces = some secrets →
    localNode ∈ session.signers ∧
    secrets.map SecretNonce.messageHash = session.request.messageHashes ∧
    (session.contribution localNode).nonces = some (secrets.map fun secret =>
      M.newNoncePair secret.draw (M.keyAggCache session.signers) secretKey secret.messageHash)

namespace SessionInv

variable {past : List (Action W T)} {secretKey : M.SecretKey} {localNode requestHash : W}
  {session session' : SigningSession M}

theorem mono (h : SessionInv past secretKey localNode requestHash session) {past' : List (Action W T)}
    (hsub : past ⊆ past') : SessionInv past' secretKey localNode requestHash session :=
  { h with
    nonces_received := fun s nonces hs hn =>
      have ⟨message, hmem, hrest⟩ := h.nonces_received s nonces hs hn
      ⟨message, hsub hmem, hrest⟩
    partials_received := fun s partials hs hp =>
      have ⟨message, hmem, hrest⟩ := h.partials_received s partials hs hp
      ⟨message, hsub hmem, hrest⟩ }

/-- Shares and flags may change as long as what is stored was stored, and what is marked verifies. -/
theorem of_sameRound (h : SessionInv past secretKey localNode requestHash session)
    (hround : SameRound session session')
    (hsecrets : session'.secretNonces = session.secretNonces ∨ session'.secretNonces = none)
    (hpartials : ∀ s partials, (session'.contribution s).partialSignatures = some partials →
      (session.contribution s).partialSignatures = some partials ∨
        partials.length = session.request.messageHashes.length ∧ (s ≠ localNode →
          ∃ message, .acceptPartialSignatures requestHash s message ∈ past ∧ message.signer = s ∧
            SigningState.parsePartials s 0 message.partialSignatures = .ok partials))
    (hverified : ∀ s, (session'.contribution s).partialSignaturesVerified = true →
      session.noncesReady = true ∧ session'.Verifies (M.keyAggCache session.signers) s) :
    SessionInv past secretKey localNode requestHash session' where
  keys s := by rw [hround.keys, hround.signers, h.keys]
  nonces_length s nonces hn := by
    rw [hround.nonces] at hn
    rw [hround.request]
    exact h.nonces_length s nonces hn
  partials_length s partials hp := by
    rw [hround.request]
    rcases hpartials s partials hp with hold | hnew
    · exact h.partials_length s partials hold
    · exact hnew.1
  verified s hv := by
    rw [hround.noncesReady, hround.signers]
    exact hverified s hv
  nonces_received s nonces hs hn := by
    rw [hround.nonces] at hn
    exact h.nonces_received s nonces hs hn
  partials_received s partials hs hp := by
    rcases hpartials s partials hp with hold | hnew
    · exact h.partials_received s partials hs hold
    · exact hnew.2 hs
  own secrets hsec := by
    rcases hsecrets with hsame | hnone
    · rw [hround.signers, hround.request, hround.nonces]
      exact h.own secrets (hsame ▸ hsec)
    · rw [hnone] at hsec
      cases hsec

theorem judged (h : SessionInv past secretKey localNode requestHash session)
    (hready : session.noncesReady = true)
    (hj : Judged (M.keyAggCache session.signers) session.signers session session') :
    SessionInv past secretKey localNode requestHash session' := by
  refine h.of_sameRound hj.round (.inl hj.secretNonces) (fun s partials hp => ?_) (fun s hv => ?_)
  · rw [hj.partials] at hp
    exact .inl hp
  · rw [hj.round.verifies hj.partials]
    rcases hj.verified s hv with hold | hnew
    · exact h.verified s hold
    · exact ⟨hready, hnew⟩

theorem cleared {bad : W} (h : SessionInv past secretKey localNode requestHash session)
    (hready : session.noncesReady = true)
    (hc : Cleared (M.keyAggCache session.signers) session.signers session session' bad) :
    SessionInv past secretKey localNode requestHash session' := by
  refine h.of_sameRound hc.round (.inl hc.secretNonces) (fun s partials hp => ?_) (fun s hv => ?_)
  · by_cases hs : s = bad
    · rw [hs, hc.cleared] at hp
      cases hp
    · rw [hc.partials s hs] at hp
      exact .inl hp
  · have hs : s ≠ bad := by
      rintro rfl
      rw [hc.cleared_unverified] at hv
      cases hv
    have hverifies : session.Verifies (M.keyAggCache session.signers) s := by
      rcases hc.verified s hv with hold | hnew
      · exact (h.verified s hold).2
      · exact hnew
    obtain ⟨partials, hp, hok⟩ := hverifies
    refine ⟨hready, partials, ?_, ?_⟩
    · rw [hc.partials s hs, hp]
    · rw [hc.round.verifySignerPartials, hok]

/-- While a signer's nonces are missing no batch is marked verified. -/
theorem unverified (h : SessionInv past secretKey localNode requestHash session) {sender : W}
    (hmem : sender ∈ session.contributions) (hempty : (session.contribution sender).nonces = none)
    (s : W) : (session.contribution s).partialSignaturesVerified = false := by
  by_contra hv
  have hready := (h.verified s (by simpa using hv)).1
  have hsome := session.noncesReady_iff.mp hready sender hmem
  rw [hempty] at hsome
  cases hsome

omit [LinearOrder W] in
theorem parseNonces_length {bytes : List (List UInt8)} {nonces : List M.PublicNonce}
    (h : SigningState.parseNonces bytes = .ok nonces) : nonces.length = bytes.length := by
  induction bytes generalizing nonces with
  | nil =>
    cases h
    rfl
  | cons b bytes ih =>
    rw [SigningState.parseNonces, List.mapM_cons] at h
    cases hb : SigningState.parseNonce (M := M) b with
    | error e =>
      rw [hb] at h
      cases h
    | ok nonce =>
      cases hrest : bytes.mapM (SigningState.parseNonce (M := M)) with
      | error e =>
        rw [hb, hrest] at h
        cases h
      | ok rest =>
        rw [hb, hrest] at h
        cases h
        exact congrArg (· + 1) (ih hrest)

omit [LinearOrder W] in
theorem parsePartials_length {sender : W} {bytes : List W} :
    ∀ {index : ℕ} {partials : List M.PartialSignature},
      SigningState.parsePartials sender index bytes = .ok partials → partials.length = bytes.length := by
  induction bytes with
  | nil =>
    intro index partials h
    cases h
    rfl
  | cons b bytes ih =>
    intro index partials h
    rw [SigningState.parsePartials] at h
    cases hb : M.partialFromByteArray b with
    | none =>
      rw [hb] at h
      cases h
    | some share =>
      cases hrest : SigningState.parsePartials (M := M) sender (index + 1) bytes with
      | error e =>
        simp only [hb, hrest] at h
        cases h
      | ok rest =>
        simp only [hb, hrest] at h
        cases h
        exact congrArg (· + 1) (ih hrest)

theorem storeNonces {state : SigningState M} {sender : W} {message : SigningNoncesMessage W}
    {nonces : List M.PublicNonce} (h : SessionInv past secretKey localNode requestHash session)
    (hs : StoresNonces state requestHash sender message session nonces)
    (hpast : .acceptNonces requestHash sender message ∈ past) :
    SessionInv past secretKey localNode requestHash (session.modify sender (·.setNonces nonces)) := by
  have hself := session.contribution_modify_self sender (·.setNonces nonces) hs.mem
  have hother := fun s => session.contribution_modify_of_ne sender s (·.setNonces nonces)
  have hpartials : ∀ s, ((session.modify sender (·.setNonces nonces)).contribution s).partialSignatures =
      (session.contribution s).partialSignatures := by
    intro s
    by_cases hsender : sender = s
    · rw [← hsender, hself]
      rfl
    · rw [hother s hsender]
  have hflag : ∀ s,
      ((session.modify sender (·.setNonces nonces)).contribution s).partialSignaturesVerified =
        (session.contribution s).partialSignaturesVerified := by
    intro s
    by_cases hsender : sender = s
    · rw [← hsender, hself]
      rfl
    · rw [hother s hsender]
  have hlength := (parseNonces_length hs.parsed).trans hs.count
  refine ⟨fun s => (session.mem_modify sender s _).trans (h.keys s), fun s ns hn => ?_, fun s ps hp => ?_,
    fun s hv => ?_, fun s ns hlocal hn => ?_, fun s ps hlocal hp => ?_, fun secrets hsec => ?_⟩
  · by_cases hsender : sender = s
    · rw [← hsender, hself] at hn
      cases hn
      exact hlength
    · rw [hother s hsender] at hn
      exact h.nonces_length s ns hn
  · rw [hpartials] at hp
    exact h.partials_length s ps hp
  · rw [hflag, h.unverified hs.mem hs.empty] at hv
    cases hv
  · by_cases hsender : sender = s
    · rw [← hsender, hself] at hn
      cases hn
      exact ⟨message, hsender ▸ hpast, hsender ▸ hs.signer, hs.parsed⟩
    · rw [hother s hsender] at hn
      exact h.nonces_received s ns hlocal hn
  · rw [hpartials] at hp
    exact h.partials_received s ps hlocal hp
  · have hown := h.own secrets hsec
    have hsender : sender ≠ localNode := by
      rintro rfl
      rw [hs.empty] at hown
      cases hown.2.2
    rw [hother localNode hsender]
    exact hown

/-- Nonces that come in find no batch marked verified, and mark none. -/
theorem unverified_storeNonces {state : SigningState M} {sender : W} {message : SigningNoncesMessage W}
    {nonces : List M.PublicNonce} (h : SessionInv past secretKey localNode requestHash session)
    (hs : StoresNonces state requestHash sender message session nonces) (s : W) :
    ((session.modify sender (·.setNonces nonces)).contribution s).partialSignaturesVerified = false := by
  by_cases hsender : sender = s
  · rw [← hsender, session.contribution_modify_self sender _ hs.mem]
    exact h.unverified hs.mem hs.empty sender
  · rw [session.contribution_modify_of_ne sender s _ hsender]
    exact h.unverified hs.mem hs.empty s

theorem storePartials {state : SigningState M} {sender : W} {message : PartialSignaturesMessage W}
    {partials : List M.PartialSignature}
    (h : SessionInv past secretKey localNode requestHash session)
    (hs : StoresPartials state requestHash sender message session partials)
    (hpast : .acceptPartialSignatures requestHash sender message ∈ past) :
    SessionInv past secretKey localNode requestHash
      (session.modify sender fun c => (c.setPartials partials).setVerified session.noncesReady) := by
  have hself := session.contribution_modify_self sender
    (fun c => (c.setPartials partials).setVerified session.noncesReady) hs.mem
  have hother := fun s => session.contribution_modify_of_ne sender s
    (fun c => (c.setPartials partials).setVerified session.noncesReady)
  have hround : SameRound session
      (session.modify sender fun c => (c.setPartials partials).setVerified session.noncesReady) :=
    SameRound.modify sender _ fun _ => rfl
  refine h.of_sameRound hround (.inl rfl) (fun s ps hp => ?_) (fun s hv => ?_)
  · by_cases hsender : sender = s
    · rw [← hsender, hself] at hp
      cases hp
      exact .inr ⟨(parsePartials_length hs.parsed).trans hs.count,
        fun _ => ⟨message, hsender ▸ hpast, hsender ▸ hs.signer, hsender ▸ hs.parsed⟩⟩
    · rw [hother s hsender] at hp
      exact .inl hp
  · by_cases hsender : sender = s
    · rw [← hsender, hself] at hv
      have hready : session.noncesReady = true := hv
      refine ⟨hready, partials, ?_, ?_⟩
      · rw [← hsender, hself]
        rfl
      · rw [hround.verifySignerPartials, ← hsender]
        exact (hs.valid hready).2
    · rw [hother s hsender] at hv
      obtain ⟨hready, ps, hp, hok⟩ := h.verified s hv
      refine ⟨hready, ps, ?_, ?_⟩
      · rw [hother s hsender, hp]
      · rw [hround.verifySignerPartials, hok]

theorem sameRound_takeSecrets : SameRound session { session with secretNonces := none } :=
  ⟨rfl, rfl, rfl, fun _ => .rfl, fun _ => rfl⟩

theorem sameRound_signedSession (partials : List M.PartialSignature) :
    SameRound session (signedSession localNode session partials) :=
  sameRound_takeSecrets.trans (SameRound.modify localNode _ fun _ => rfl)

theorem takeSecrets (h : SessionInv past secretKey localNode requestHash session) :
    SessionInv past secretKey localNode requestHash { session with secretNonces := none } := by
  refine h.of_sameRound sameRound_takeSecrets (.inr rfl) (fun _ _ hp => .inl hp) (fun s hv => ?_)
  rw [sameRound_takeSecrets.verifies fun _ => rfl]
  exact h.verified s hv

theorem signed (h : SessionInv past secretKey localNode requestHash session)
    (hunverified : ∀ s, (session.contribution s).partialSignaturesVerified = false)
    {partials : List M.PartialSignature}
    (hlength : partials.length = session.request.messageHashes.length) :
    SessionInv past secretKey localNode requestHash (signedSession localNode session partials) := by
  have hother := fun s => contribution_modify_of_ne { session with secretNonces := none } localNode s
    (·.setPartials partials)
  have hself := contribution_modify_self { session with secretNonces := none } localNode
    (·.setPartials partials)
  refine h.of_sameRound (sameRound_signedSession partials) (.inr rfl) (fun s ps hp => ?_) (fun s hv => ?_)
  · by_cases hs : localNode = s
    · refine .inr ⟨?_, fun hne => absurd hs.symm hne⟩
      have hmem := mem_of_partialSignatures hp
      rw [signedSession, mem_modify] at hmem
      rw [← hs, signedSession, hself (hs ▸ hmem)] at hp
      cases hp
      exact hlength
    · rw [signedSession, hother s hs] at hp
      exact .inl hp
  · have hflag : ((signedSession localNode session partials).contribution s).partialSignaturesVerified =
        (session.contribution s).partialSignaturesVerified := by
      by_cases hs : localNode = s
      · by_cases hmem : localNode ∈ session.contributions
        · rw [← hs, signedSession, hself hmem]
          rfl
        · have hmem' : localNode ∉ (signedSession localNode session partials).contributions := by
            rwa [signedSession, mem_modify]
          rw [← hs, contribution, contribution, Std.ExtTreeMap.getElem?_eq_none hmem,
            Std.ExtTreeMap.getElem?_eq_none hmem']
      · rw [signedSession, hother s hs]
        rfl
    rw [hflag, hunverified] at hv
    cases hv

end SessionInv

end SessionInvariant

end Signing
end PriceOracle
