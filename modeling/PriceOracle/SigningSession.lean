import PriceOracle.Signing

/-!
# One signing session

What changing one signer's contribution does to the others, and what the
verification loop of `complete_session` can do: it verifies batches in branch
order and clears the first one that fails.
-/

namespace PriceOracle

namespace Signing

variable {W T : Type} [LinearOrder W] {M : Musig W T}

namespace SigningSession

variable (session : SigningSession M)

theorem getElem?_modify (signer s : W) (f : SignerContribution M → SignerContribution M) :
    (session.modify signer f).contributions[s]? =
      if signer = s then session.contributions[s]?.map f else session.contributions[s]? := by
  rw [modify, Std.ExtTreeMap.getElem?_modify]
  simp only [compare_eq_iff_eq]
  split_ifs with h
  · rw [h]
  · rfl

theorem mem_modify (signer s : W) (f : SignerContribution M → SignerContribution M) :
    s ∈ (session.modify signer f).contributions ↔ s ∈ session.contributions := by
  simp only [← Std.ExtTreeMap.isSome_getElem?_iff_mem, getElem?_modify]
  split_ifs <;> simp

theorem contribution_modify_self (signer : W) (f : SignerContribution M → SignerContribution M)
    (h : signer ∈ session.contributions) :
    (session.modify signer f).contribution signer = f (session.contribution signer) := by
  obtain ⟨c, hc⟩ := Option.isSome_iff_exists.mp (Std.ExtTreeMap.isSome_getElem?_iff_mem.mpr h)
  simp [contribution, getElem?_modify, hc]

theorem contribution_modify_of_ne (signer s : W) (f : SignerContribution M → SignerContribution M)
    (h : signer ≠ s) : (session.modify signer f).contribution s = session.contribution s := by
  rw [contribution, getElem?_modify, if_neg h, contribution]

theorem contribution_eq {s : W} {c : SignerContribution M} (h : session.contributions[s]? = some c) :
    session.contribution s = c := by
  rw [contribution, h]
  rfl

theorem contributions_all_iff (p : SignerContribution M → Bool) :
    (session.contributions.toList.all fun entry => p entry.2) = true ↔
      ∀ s ∈ session.contributions, p (session.contribution s) = true := by
  simp only [List.all_eq_true, Prod.forall, Std.ExtTreeMap.mem_toList_iff_getElem?_eq_some]
  constructor
  · intro h s hs
    obtain ⟨c, hc⟩ := Option.isSome_iff_exists.mp (Std.ExtTreeMap.isSome_getElem?_iff_mem.mpr hs)
    rw [session.contribution_eq hc]
    exact h s c hc
  · intro h s c hc
    have hs := h s (Std.ExtTreeMap.isSome_getElem?_iff_mem.mp (hc ▸ rfl))
    rwa [session.contribution_eq hc] at hs

theorem noncesReady_iff :
    session.noncesReady = true ↔
      ∀ s ∈ session.contributions, (session.contribution s).nonces.isSome = true :=
  session.contributions_all_iff fun c => c.nonces.isSome

theorem partialsReady_iff :
    session.partialsReady = true ↔
      ∀ s ∈ session.contributions, (session.contribution s).partialSignatures.isSome = true :=
  session.contributions_all_iff fun c => c.partialSignatures.isSome

/-- The same round: nothing that a verification reads differs. -/
structure SameRound (session session' : SigningSession M) : Prop where
  requestor : session'.requestor = session.requestor
  request : session'.request = session.request
  signers : session'.signers = session.signers
  keys : ∀ s, s ∈ session'.contributions ↔ s ∈ session.contributions
  nonces : ∀ s, (session'.contribution s).nonces = (session.contribution s).nonces

namespace SameRound

variable {session} {session' session'' : SigningSession M}

theorem refl : SameRound session session := ⟨rfl, rfl, rfl, fun _ => .rfl, fun _ => rfl⟩

theorem trans (h : SameRound session session') (h' : SameRound session' session'') :
    SameRound session session'' :=
  ⟨h'.requestor.trans h.requestor, h'.request.trans h.request, h'.signers.trans h.signers,
    fun s => (h'.keys s).trans (h.keys s), fun s => (h'.nonces s).trans (h.nonces s)⟩

/-- Changing shares and flags only. -/
theorem modify (signer : W) (f : SignerContribution M → SignerContribution M)
    (hf : ∀ c, (f c).nonces = c.nonces) : SameRound session (session.modify signer f) := by
  refine ⟨rfl, rfl, rfl, fun s => session.mem_modify signer s f, fun s => ?_⟩
  by_cases hs : signer = s
  · subst hs
    simp only [contribution, getElem?_modify, if_true]
    cases session.contributions[signer]? with
    | none => rfl
    | some c => exact hf c
  · rw [contribution_modify_of_ne _ _ _ _ hs]

theorem noncesReady (h : SameRound session session') : session'.noncesReady = session.noncesReady := by
  rw [Bool.eq_iff_iff, noncesReady_iff, noncesReady_iff]
  simp only [h.keys, h.nonces]

theorem musigSession (h : SameRound session session') (cache : M.Cache) (index : ℕ) (messageHash : W) :
    Signing.musigSession session' cache index messageHash =
      Signing.musigSession session cache index messageHash := by
  simp only [Signing.musigSession, h.signers, h.nonces]

theorem verifyFrom (h : SameRound session session') (cache : M.Cache) (signer : W)
    (nonces : List M.PublicNonce) (shares : List (M.PartialSignature × W)) :
    ∀ index, Signing.verifyFrom session' cache signer nonces index shares =
      Signing.verifyFrom session cache signer nonces index shares := by
  induction shares with
  | nil => exact fun _ => rfl
  | cons share shares ih =>
    intro index
    obtain ⟨share, messageHash⟩ := share
    simp only [Signing.verifyFrom, h.musigSession, ih]

theorem verifySignerPartials (h : SameRound session session') (cache : M.Cache) (signer : W)
    (partials : List M.PartialSignature) :
    Signing.verifySignerPartials session' cache signer partials =
      Signing.verifySignerPartials session cache signer partials := by
  simp only [Signing.verifySignerPartials, h.nonces, h.request, h.verifyFrom]

end SameRound

/-- A signer's stored batch verifies. -/
def Verifies (cache : M.Cache) (signer : W) : Prop :=
  ∃ partials, (session.contribution signer).partialSignatures = some partials ∧
    verifySignerPartials session cache signer partials = .ok ()

end SigningSession

open SigningSession

section Judge

/-- What the verification loop changes when it reaches its end. -/
structure Judged (cache : M.Cache) (signers : List W) (session session' : SigningSession M) :
    Prop where
  round : SameRound session session'
  secretNonces : session'.secretNonces = session.secretNonces
  completion : session'.completion = session.completion
  partials : ∀ s, (session'.contribution s).partialSignatures =
    (session.contribution s).partialSignatures
  verified : ∀ s, (session'.contribution s).partialSignaturesVerified = true →
    (session.contribution s).partialSignaturesVerified = true ∨ session.Verifies cache s
  kept : ∀ s, (session.contribution s).partialSignaturesVerified = true →
    (session'.contribution s).partialSignaturesVerified = true
  all_verified : ∀ s ∈ signers,
    (session'.contribution s).partialSignatures.isSome = true →
      (session'.contribution s).partialSignaturesVerified = true

/-- What it changes when it meets a batch that fails: only that batch is cleared. -/
structure Cleared (cache : M.Cache) (signers : List W) (session session' : SigningSession M)
    (bad : W) : Prop where
  round : SameRound session session'
  secretNonces : session'.secretNonces = session.secretNonces
  completion : session'.completion = session.completion
  mem : bad ∈ signers
  unverified : (session.contribution bad).partialSignaturesVerified = false
  failed : ∃ partials e, (session.contribution bad).partialSignatures = some partials ∧
    verifySignerPartials session cache bad partials = .error e
  cleared : (session'.contribution bad).partialSignatures = none
  cleared_unverified : (session'.contribution bad).partialSignaturesVerified = false
  partials : ∀ s, s ≠ bad → (session'.contribution s).partialSignatures =
    (session.contribution s).partialSignatures
  verified : ∀ s, (session'.contribution s).partialSignaturesVerified = true →
    (session.contribution s).partialSignaturesVerified = true ∨ session.Verifies cache s

theorem mem_of_partialSignatures {session : SigningSession M} {s : W} {ps : List M.PartialSignature}
    (h : (session.contribution s).partialSignatures = some ps) : s ∈ session.contributions := by
  by_contra hs
  rw [contribution, Std.ExtTreeMap.getElem?_eq_none hs] at h
  cases h

theorem SigningSession.SameRound.verifies {cache : M.Cache} {session session' : SigningSession M}
    (h : SameRound session session')
    (hp : ∀ s, (session'.contribution s).partialSignatures = (session.contribution s).partialSignatures)
    (s : W) : session'.Verifies cache s ↔ session.Verifies cache s := by
  simp only [Verifies, hp, h.verifySignerPartials]

/-- One batch found good. -/
theorem Judged.head {cache : M.Cache} {signer : W} {session : SigningSession M}
    {partials : List M.PartialSignature}
    (hp : (session.contribution signer).partialSignatures = some partials)
    (hv : verifySignerPartials session cache signer partials = .ok ()) :
    Judged cache [signer] session (session.modify signer (·.setVerified true)) := by
  have hmem := mem_of_partialSignatures hp
  have hself := session.contribution_modify_self signer (·.setVerified true) hmem
  refine ⟨SameRound.modify signer _ fun _ => rfl, rfl, rfl, fun s => ?_, fun s hs => ?_,
    fun s hs => ?_, ?_⟩
  · by_cases h : signer = s
    · subst h
      rw [hself]
      rfl
    · rw [contribution_modify_of_ne _ _ _ _ h]
  · by_cases h : signer = s
    · subst h
      exact .inr ⟨partials, hp, hv⟩
    · rw [contribution_modify_of_ne _ _ _ _ h] at hs
      exact .inl hs
  · by_cases h : signer = s
    · subst h
      rw [hself]
      rfl
    · rwa [contribution_modify_of_ne _ _ _ _ h]
  · intro s hs _
    rw [List.mem_singleton.mp hs, hself]
    rfl

theorem Judged.skip {cache : M.Cache} {signer : W} {session : SigningSession M}
    (h : (session.contribution signer).partialSignatures.isSome = true →
      (session.contribution signer).partialSignaturesVerified = true) :
    Judged cache [signer] session session :=
  ⟨SameRound.refl, rfl, rfl, fun _ => rfl, fun _ hs => .inl hs, fun _ hs => hs,
    fun _ hs => List.mem_singleton.mp hs ▸ h⟩

theorem Judged.trans {cache : M.Cache} {signers signers' : List W}
    {session session' session'' : SigningSession M} (h : Judged cache signers session session')
    (h' : Judged cache signers' session' session'') :
    Judged cache (signers ++ signers') session session'' where
  round := h.round.trans h'.round
  secretNonces := h'.secretNonces.trans h.secretNonces
  completion := h'.completion.trans h.completion
  partials s := (h'.partials s).trans (h.partials s)
  verified s hs := by
    rcases h'.verified s hs with hs | hs
    · exact h.verified s hs
    · exact .inr ((h.round.verifies h.partials s).mp hs)
  kept s hs := h'.kept s (h.kept s hs)
  all_verified s hs hsome := by
    rcases List.mem_append.mp hs with hs | hs
    · rw [h'.partials] at hsome
      exact h'.kept s (h.all_verified s hs hsome)
    · exact h'.all_verified s hs hsome

theorem Judged.trans_cleared {cache : M.Cache} {signers signers' : List W} {bad : W}
    {session session' session'' : SigningSession M} (h : Judged cache signers session session')
    (h' : Cleared cache signers' session' session'' bad) :
    Cleared cache (signers ++ signers') session session'' bad where
  round := h.round.trans h'.round
  secretNonces := h'.secretNonces.trans h.secretNonces
  completion := h'.completion.trans h.completion
  mem := List.mem_append_right _ h'.mem
  unverified := by
    by_contra hv
    have := h.kept bad (by simpa using hv)
    rw [h'.unverified] at this
    cases this
  failed := by
    obtain ⟨partials, e, hp, hv⟩ := h'.failed
    rw [h.partials] at hp
    rw [h.round.verifySignerPartials] at hv
    exact ⟨partials, e, hp, hv⟩
  cleared := h'.cleared
  cleared_unverified := h'.cleared_unverified
  partials s hs := (h'.partials s hs).trans (h.partials s)
  verified s hs := by
    rcases h'.verified s hs with hs | hs
    · exact h.verified s hs
    · exact .inr ((h.round.verifies h.partials s).mp hs)

/-- A batch that fails is cleared. -/
theorem Cleared.head {cache : M.Cache} {signer : W} {session : SigningSession M}
    {partials : List M.PartialSignature} {e : Error M}
    (hunverified : (session.contribution signer).partialSignaturesVerified = false)
    (hp : (session.contribution signer).partialSignatures = some partials)
    (hv : verifySignerPartials session cache signer partials = .error e) :
    Cleared cache [signer] session (session.modify signer (·.clearPartials)) signer := by
  have hmem := mem_of_partialSignatures hp
  have hself := session.contribution_modify_self signer (·.clearPartials) hmem
  refine ⟨SameRound.modify signer _ fun _ => rfl, rfl, rfl, List.mem_singleton_self _, hunverified,
    ⟨partials, e, hp, hv⟩, ?_, ?_, fun s hs => ?_, fun s hs => ?_⟩
  · rw [hself]
    rfl
  · rw [hself]
    exact hunverified
  · rw [contribution_modify_of_ne _ _ _ _ (Ne.symm hs)]
  · by_cases h : signer = s
    · subst h
      rw [hself] at hs
      exact .inl hs
    · rw [contribution_modify_of_ne _ _ _ _ h] at hs
      exact .inl hs

theorem judge_cases (cache : M.Cache) (signers : List W) :
    ∀ session, (∃ session', judge cache signers session = (session', .ok ()) ∧
        Judged cache signers session session') ∨
      ∃ session' e bad, judge cache signers session = (session', .error e) ∧
        Cleared cache signers session session' bad := by
  induction signers with
  | nil =>
    intro session
    exact .inl ⟨session, rfl, SameRound.refl, rfl, rfl, fun _ => rfl, fun _ h => .inl h,
      fun _ h => h, by simp⟩
  | cons signer signers ih =>
    intro session
    -- A signer that passes leaves the question to the ones after it.
    have hnext : ∀ session', Judged cache [signer] session session' →
        judge cache (signer :: signers) session = judge cache signers session' →
        (∃ session'', judge cache (signer :: signers) session = (session'', .ok ()) ∧
          Judged cache (signer :: signers) session session'') ∨
        ∃ session'' e bad, judge cache (signer :: signers) session = (session'', .error e) ∧
          Cleared cache (signer :: signers) session session'' bad := by
      intro session' hhead hrun
      rw [hrun]
      rcases ih session' with ⟨session'', hok, hj⟩ | ⟨session'', e, bad, herr, hc⟩
      · exact .inl ⟨session'', hok, hhead.trans hj⟩
      · exact .inr ⟨session'', e, bad, herr, hhead.trans_cleared hc⟩
    cases hflag : (session.contribution signer).partialSignaturesVerified with
    | true => exact hnext session (Judged.skip fun _ => hflag) (by simp [judge, hflag])
    | false =>
      cases hp : (session.contribution signer).partialSignatures with
      | none =>
        exact hnext session (Judged.skip fun h => by simp [hp] at h) (by simp [judge, hflag, hp])
      | some partials =>
        cases hv : verifySignerPartials session cache signer partials with
        | error e =>
          refine .inr ⟨session.modify signer (·.clearPartials), e, signer, ?_, ?_⟩
          · simp [judge, hflag, hp, hv]
          · have hc := Cleared.head hflag hp hv
            exact { hc with mem := List.mem_cons_self }
        | ok _ => exact hnext _ (Judged.head hp hv) (by simp [judge, hflag, hp, hv])

end Judge

end Signing
end PriceOracle
