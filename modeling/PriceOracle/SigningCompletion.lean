import PriceOracle.SigningSession

/-!
# Completing a signing session

What a verified batch and an aggregated result consist of, message by message,
and the outcomes of `complete_session`.
-/

namespace PriceOracle

namespace Signing

variable {W T : Type} [LinearOrder W] {M : Musig W T}

open SigningSession

section Batches

/-- Share `index` of a signer verifies under the nonces of the round. -/
def ShareVerifies (session : SigningSession M) (cache : M.Cache) (signer : W)
    (nonces : List M.PublicNonce) (index : ℕ) (share : M.PartialSignature) (messageHash : W) : Prop :=
  ∃ signing nonce, musigSession session cache index messageHash = .ok signing ∧
    nonces[index]? = some nonce ∧ M.partialVerify signing cache share nonce signer = true

theorem verifyFrom_ok_iff (session : SigningSession M) (cache : M.Cache) (signer : W)
    (nonces : List M.PublicNonce) (shares : List (M.PartialSignature × W)) :
    ∀ index, verifyFrom session cache signer nonces index shares = .ok () ↔
      ∀ i share messageHash, shares[i]? = some (share, messageHash) →
        ShareVerifies session cache signer nonces (index + i) share messageHash := by
  induction shares with
  | nil => simp [verifyFrom]
  | cons head shares ih =>
    intro index
    obtain ⟨share, messageHash⟩ := head
    have hhead : (∃ signing, musigSession session cache index messageHash = .ok signing ∧
        (nonces[index]?.any fun nonce => M.partialVerify signing cache share nonce signer) = true) ↔
        ShareVerifies session cache signer nonces (index + 0) share messageHash := by
      simp [ShareVerifies, Option.any_eq_true]
    have hsplit : (∀ i s m, ((share, messageHash) :: shares)[i]? = some (s, m) →
        ShareVerifies session cache signer nonces (index + i) s m) ↔
        ShareVerifies session cache signer nonces (index + 0) share messageHash ∧
        ∀ i s m, shares[i]? = some (s, m) →
          ShareVerifies session cache signer nonces (index + 1 + i) s m := by
      constructor
      · intro h
        refine ⟨h 0 share messageHash rfl, fun i s m hi => ?_⟩
        have := h (i + 1) s m hi
        rwa [Nat.add_right_comm, Nat.add_assoc]
      · rintro ⟨h0, h⟩ i s m hi
        cases i with
        | zero =>
          cases hi
          exact h0
        | succ i =>
          have := h i s m hi
          rwa [Nat.add_right_comm, Nat.add_assoc] at this
    rw [hsplit, ← hhead, ← ih (index + 1), verifyFrom]
    cases hm : musigSession session cache index messageHash with
    | error e => simp
    | ok signing =>
      by_cases hv : (nonces[index]?.any fun nonce =>
          M.partialVerify signing cache share nonce signer) = true
      · simp [hv]
      · simp [hv]

theorem verifySignerPartials_ok_iff (session : SigningSession M) (cache : M.Cache) (signer : W)
    (partials : List M.PartialSignature) :
    verifySignerPartials session cache signer partials = .ok () ↔
      (M.fromByteArray signer).isOk = true ∧ ∃ nonces,
        (session.contribution signer).nonces = some nonces ∧
        ∀ i share messageHash, partials[i]? = some share →
          session.request.messageHashes[i]? = some messageHash →
            ShareVerifies session cache signer nonces i share messageHash := by
  rw [verifySignerPartials]
  by_cases hkey : (M.fromByteArray signer).isOk = true
  · rw [if_pos hkey]
    cases hn : (session.contribution signer).nonces with
    | none => simp
    | some nonces =>
      simp only [verifyFrom_ok_iff, List.getElem?_zip_eq_some, Nat.zero_add, hkey, true_and,
        Option.some.injEq, exists_eq_left', and_imp]
  · rw [if_neg hkey]
    simp [hkey]

theorem aggregateFrom_ok (session : SigningSession M) (cache : M.Cache) (hashes : List W) :
    ∀ index signatures, aggregateFrom session cache index hashes = .ok signatures →
      signatures.length = hashes.length ∧
      ∀ i messageHash, hashes[i]? = some messageHash → ∃ signing,
        musigSession session cache (index + i) messageHash = .ok signing ∧
        signatures[i]? = some (M.partialSigAgg signing (sharesAt session (index + i))) ∧
        M.verify (M.partialSigAgg signing (sharesAt session (index + i))) (M.aggPk cache)
          messageHash = true := by
  induction hashes with
  | nil =>
    intro index signatures h
    cases h
    simp
  | cons hash hashes ih =>
    intro index signatures h
    rw [aggregateFrom] at h
    cases hm : musigSession session cache index hash with
    | error e =>
      rw [hm] at h
      cases h
    | ok signing =>
      simp only [hm] at h
      split_ifs at h with hv
      cases hrest : aggregateFrom session cache (index + 1) hashes with
      | error e =>
        rw [hrest] at h
        cases h
      | ok rest =>
        rw [hrest] at h
        cases h
        obtain ⟨hlen, hall⟩ := ih (index + 1) rest hrest
        refine ⟨congrArg (· + 1) hlen, fun i messageHash hi => ?_⟩
        cases i with
        | zero =>
          cases hi
          exact ⟨signing, hm, rfl, hv⟩
        | succ i =>
          have := hall i messageHash hi
          rwa [Nat.add_right_comm, Nat.add_assoc] at this

end Batches

section Complete

/-- The outcomes of `complete_session` for a session that is open. -/
inductive CompleteOutcome (state : SigningState M) (requestHash : W) (session : SigningSession M) :
    SigningState M × Except (Error M) Unit → Prop
  | waiting (h : session.requestor ≠ state.localNode ∨ session.noncesReady = false) :
    CompleteOutcome state requestHash session (state, .ok ())
  | badKeys (e : Error M) (hready : session.noncesReady = true)
      (hkeys : keyAggCache session.signers = .error e) :
    CompleteOutcome state requestHash session (state, .error e)
  | cleared (session' : SigningSession M) (bad : W) (e : Error M)
      (hready : session.noncesReady = true) (hlocal : session.requestor = state.localNode)
      (hkeys : keyAggCache session.signers = .ok (M.keyAggCache session.signers))
      (hc : Cleared (M.keyAggCache session.signers) session.signers session session' bad) :
    CompleteOutcome state requestHash session (state.put requestHash session', .error e)
  | unfinished (session' : SigningSession M)
      (hready : session.noncesReady = true) (hlocal : session.requestor = state.localNode)
      (hkeys : keyAggCache session.signers = .ok (M.keyAggCache session.signers))
      (hj : Judged (M.keyAggCache session.signers) session.signers session session')
      (hpartials : session'.partialsReady = false) :
    CompleteOutcome state requestHash session (state.put requestHash session', .ok ())
  | badAggregate (session' : SigningSession M) (e : Error M)
      (hready : session.noncesReady = true) (hlocal : session.requestor = state.localNode)
      (hkeys : keyAggCache session.signers = .ok (M.keyAggCache session.signers))
      (hj : Judged (M.keyAggCache session.signers) session.signers session session')
      (hpartials : session'.partialsReady = true)
      (hagg : aggregateFrom session' (M.keyAggCache session.signers) 0
        session'.request.messageHashes = .error e) :
    CompleteOutcome state requestHash session (state.put requestHash session', .error e)
  | finished (session' : SigningSession M) (signatures : List M.Signature)
      (hready : session.noncesReady = true) (hlocal : session.requestor = state.localNode)
      (hkeys : keyAggCache session.signers = .ok (M.keyAggCache session.signers))
      (hj : Judged (M.keyAggCache session.signers) session.signers session session')
      (hpartials : session'.partialsReady = true)
      (hagg : aggregateFrom session' (M.keyAggCache session.signers) 0
        session'.request.messageHashes = .ok signatures) :
    CompleteOutcome state requestHash session
      (state.finish requestHash session' signatures, .ok ())

omit [LinearOrder W] in
theorem keyAggCache_ok {signers : List W} {cache : M.Cache}
    (h : keyAggCache signers = .ok cache) : cache = M.keyAggCache signers := by
  rw [keyAggCache] at h
  split_ifs at h
  exact (Except.ok.inj h).symm

theorem completeSession_outcome (state : SigningState M) (requestHash : W)
    (session : SigningSession M) (hs : state.sessions[requestHash]? = some session) :
    CompleteOutcome state requestHash session (state.completeSession requestHash) := by
  rw [SigningState.completeSession, hs]
  simp only
  split_ifs with hwait
  · exact .waiting (by simpa using hwait)
  · simp only [not_or, not_not] at hwait
    obtain ⟨hlocal, hready⟩ := hwait
    cases hkeys : keyAggCache session.signers with
    | error e => exact .badKeys e hready hkeys
    | ok cache =>
      obtain rfl := keyAggCache_ok hkeys
      rcases judge_cases (M.keyAggCache session.signers) session.signers session with
        ⟨session', hok, hj⟩ | ⟨session', e, bad, herr, hc⟩
      · simp only [hok]
        split_ifs with hpartials
        · cases hagg : aggregateFrom session' (M.keyAggCache session.signers) 0
              session'.request.messageHashes with
          | error e => exact .badAggregate session' e hready hlocal hkeys hj hpartials hagg
          | ok signatures =>
            exact .finished session' signatures hready hlocal hkeys hj hpartials hagg
        · exact .unfinished session' hready hlocal hkeys hj (by simpa using hpartials)
      · simp only [herr]
        exact .cleared session' bad e hready hlocal hkeys hc

end Complete

end Signing
end PriceOracle
