import PriceOracle.SigningCompletion

/-!
# What each signing message can do

One inversion lemma for each entry point of the coordinator. Either nothing is
stored, or the sender's own contribution is, and then the session is signed or
completed as far as it goes.
-/

namespace PriceOracle

namespace Signing

variable {W T : Type} [LinearOrder W] {M : Musig W T}

open SigningSession

section Sign

theorem signFrom_events (state : SigningState M) (session : SigningSession M) (cache : M.Cache)
    (pairs : List (W × SecretNonce W)) :
    ∀ index, ∃ used : List (SecretNonce W), used.Sublist (pairs.map Prod.snd) ∧
      (state.signFrom session cache index pairs).1 = used.map Event.signed := by
  induction pairs with
  | nil => exact fun _ => ⟨[], List.Sublist.refl _, rfl⟩
  | cons pair pairs ih =>
    intro index
    obtain ⟨messageHash, secret⟩ := pair
    rw [SigningState.signFrom]
    cases musigSession session cache index messageHash with
    | error e => exact ⟨[], List.nil_sublist _, rfl⟩
    | ok signing =>
      obtain ⟨used, hsub, hused⟩ := ih (index + 1)
      refine ⟨secret :: used, hsub.cons_cons secret, ?_⟩
      cases hrest : state.signFrom session cache (index + 1) pairs with
      | mk events r =>
        rw [hrest] at hused
        obtain rfl : events = used.map Event.signed := hused
        cases r <;> rfl

theorem signFrom_ok (state : SigningState M) (session : SigningSession M) (cache : M.Cache)
    (pairs : List (W × SecretNonce W)) :
    ∀ index shares, (state.signFrom session cache index pairs).2 = .ok shares →
      shares.length = pairs.length ∧
      ∀ i messageHash secret, pairs[i]? = some (messageHash, secret) → ∃ signing,
        musigSession session cache (index + i) messageHash = .ok signing ∧
        shares[i]? = some (M.partialSign signing secret state.secretKey cache) := by
  induction pairs with
  | nil =>
    intro index shares h
    cases h
    simp
  | cons pair pairs ih =>
    intro index shares h
    obtain ⟨hash, secret⟩ := pair
    rw [SigningState.signFrom] at h
    cases hm : musigSession session cache index hash with
    | error e =>
      rw [hm] at h
      cases h
    | ok signing =>
      simp only [hm] at h
      cases hrest : state.signFrom session cache (index + 1) pairs with
      | mk events r =>
        cases r with
        | error e =>
          rw [hrest] at h
          cases h
        | ok rest =>
          rw [hrest] at h
          cases h
          obtain ⟨hlen, hall⟩ := ih (index + 1) rest (by rw [hrest])
          refine ⟨congrArg (· + 1) hlen, fun i messageHash secret' hi => ?_⟩
          cases i with
          | zero =>
            cases hi
            exact ⟨signing, hm, rfl⟩
          | succ i =>
            have := hall i messageHash secret' hi
            rwa [Nat.add_right_comm, Nat.add_assoc] at this

/-- The session after the local node used up its nonces and stored its shares. -/
def signedSession (localNode : W) (session : SigningSession M)
    (partials : List M.PartialSignature) : SigningSession M :=
  { session with secretNonces := none }.modify localNode (·.setPartials partials)

/-- The outcomes of signing once the last nonces are in. -/
inductive SignOutcome (state : SigningState M) (requestHash : W) (session : SigningSession M)
    (secrets : List (SecretNonce W)) :
    SigningState M × Except (Error M) (Option (PartialSignaturesMessage W × List T)) → Prop
  | badKeys (e : Error M) (hkeys : keyAggCache session.signers = .error e) :
    SignOutcome state requestHash session secrets (state.put requestHash session, .error e)
  | failed (used : List (SecretNonce W)) (e : Error M)
      (hused : used.Sublist ((session.request.messageHashes.zip secrets).map Prod.snd))
      (hkeys : keyAggCache session.signers = .ok (M.keyAggCache session.signers))
      (hsign : (state.signFrom { session with secretNonces := none } (M.keyAggCache session.signers)
        0 (session.request.messageHashes.zip secrets)).2 = .error e) :
    SignOutcome state requestHash session secrets
      ((state.put requestHash { session with secretNonces := none }).log (used.map .signed), .error e)
  | unroutable (used : List (SecretNonce W)) (partials : List M.PartialSignature) (e : Error M)
      (hused : used.Sublist ((session.request.messageHashes.zip secrets).map Prod.snd))
      (hkeys : keyAggCache session.signers = .ok (M.keyAggCache session.signers))
      (hsign : (state.signFrom { session with secretNonces := none } (M.keyAggCache session.signers)
        0 (session.request.messageHashes.zip secrets)).2 = .ok partials)
      (hrecipients : (state.recipientNodes (signedSession state.localNode session partials)).mapM
        state.transportKey = .error e) :
    SignOutcome state requestHash session secrets
      ((state.put requestHash (signedSession state.localNode session partials)).log
        (used.map .signed), .error e)
  | signed (used : List (SecretNonce W)) (partials : List M.PartialSignature)
      (value : Option (PartialSignaturesMessage W × List T))
      (hused : used.Sublist ((session.request.messageHashes.zip secrets).map Prod.snd))
      (hkeys : keyAggCache session.signers = .ok (M.keyAggCache session.signers))
      (hsign : (state.signFrom { session with secretNonces := none } (M.keyAggCache session.signers)
        0 (session.request.messageHashes.zip secrets)).2 = .ok partials) :
    SignOutcome state requestHash session secrets
      (((state.put requestHash (signedSession state.localNode session partials)).log
        (used.map .signed)).completeThen requestHash value)

theorem signSession_outcome (state : SigningState M) (requestHash : W) (session : SigningSession M)
    (secrets : List (SecretNonce W)) :
    SignOutcome state requestHash session secrets (state.signSession requestHash session secrets) := by
  rw [SigningState.signSession]
  cases hkeys : keyAggCache session.signers with
  | error e => exact .badKeys e hkeys
  | ok cache =>
    obtain rfl := keyAggCache_ok hkeys
    obtain ⟨used, hused, hevents⟩ := signFrom_events state { session with secretNonces := none }
      (M.keyAggCache session.signers) (session.request.messageHashes.zip secrets) 0
    cases hsign : state.signFrom { session with secretNonces := none }
        (M.keyAggCache session.signers) 0 (session.request.messageHashes.zip secrets) with
    | mk events r =>
      rw [hsign] at hevents
      obtain rfl : events = used.map Event.signed := hevents
      cases r with
      | error e =>
        simp only [hsign]
        exact .failed used e hused hkeys (by rw [hsign])
      | ok partials =>
        simp only [hsign]
        split
        · exact .unroutable used partials _ hused hkeys (by rw [hsign]) ‹_›
        · exact .signed used partials _ hused hkeys (by rw [hsign])

end Sign

section Messages

/-- A batch of nonces that is stored. -/
structure StoresNonces (state : SigningState M) (requestHash sender : W)
    (message : SigningNoncesMessage W) (session : SigningSession M) (nonces : List M.PublicNonce) :
    Prop where
  signer : message.signer = sender
  found : state.sessions[requestHash]? = some session
  count : message.nonces.length = session.request.messageHashes.length
  mem : sender ∈ session.contributions
  empty : (session.contribution sender).nonces = none
  parsed : SigningState.parseNonces message.nonces = .ok nonces

/-- The outcomes of `accept_nonces`. -/
inductive NoncesOutcome (state : SigningState M) (requestHash sender : W)
    (message : SigningNoncesMessage W) :
    SigningState M × Except (Error M) (Option (PartialSignaturesMessage W × List T)) → Prop
  | ignored (h : ¬∃ session nonces, StoresNonces state requestHash sender message session nonces)
      (r : Except (Error M) (Option (PartialSignaturesMessage W × List T))) :
    NoncesOutcome state requestHash sender message (state, r)
  | stored (session : SigningSession M) (nonces : List M.PublicNonce)
      (h : StoresNonces state requestHash sender message session nonces)
      (hwait : session.secretNonces = none ∨ state.localNode ∉ session.signers ∨
        (session.modify sender (·.setNonces nonces)).noncesReady = false) :
    NoncesOutcome state requestHash sender message
      ((state.put requestHash (session.modify sender (·.setNonces nonces))).completeThen requestHash none)
  | signs (session : SigningSession M) (nonces : List M.PublicNonce) (secrets : List (SecretNonce W))
      (h : StoresNonces state requestHash sender message session nonces)
      (hsecrets : session.secretNonces = some secrets) (hlocal : state.localNode ∈ session.signers)
      (hready : (session.modify sender (·.setNonces nonces)).noncesReady = true) :
    NoncesOutcome state requestHash sender message
      (state.signSession requestHash (session.modify sender (·.setNonces nonces)) secrets)

theorem acceptNonces_outcome (state : SigningState M) (requestHash sender : W)
    (message : SigningNoncesMessage W) :
    NoncesOutcome state requestHash sender message
      (state.acceptNonces requestHash sender message) := by
  have hignored : ∀ r, (∀ session nonces,
      StoresNonces state requestHash sender message session nonces → False) →
      NoncesOutcome state requestHash sender message (state, r) := fun r h =>
    .ignored (fun ⟨session, nonces, hs⟩ => h session nonces hs) r
  rw [SigningState.acceptNonces]
  split_ifs with hsender
  · exact hignored _ fun _ _ hs => hsender hs.signer.symm
  · simp only [ne_eq, not_not] at hsender
    cases hs : state.sessions[requestHash]? with
    | none => exact hignored _ fun _ _ h => absurd (hs.symm.trans h.found) (by simp)
    | some session =>
      have hfound : ∀ session' nonces,
          StoresNonces state requestHash sender message session' nonces → session' = session :=
        fun _ _ h => (Option.some.inj (hs.symm.trans h.found)).symm
      simp only
      split_ifs with hcount
      · exact hignored _ fun _ _ h => hcount (hfound _ _ h ▸ h.count)
      · simp only [ne_eq, not_not] at hcount
        cases hc : session.contributions[sender]? with
        | none =>
          refine hignored _ fun _ _ h => ?_
          obtain rfl := hfound _ _ h
          exact absurd h.mem (by simp [← Std.ExtTreeMap.isSome_getElem?_iff_mem, hc])
        | some contribution =>
          have hcontribution := session.contribution_eq hc
          simp only
          split_ifs with hsome
          · refine hignored _ fun _ _ h => ?_
            obtain rfl := hfound _ _ h
            have hempty := h.empty
            rw [hcontribution] at hempty
            simp [hempty] at hsome
          · cases hparse : SigningState.parseNonces (M := M) message.nonces with
            | error e =>
              exact hignored _ fun _ _ h => by simp [h.parsed] at hparse
            | ok nonces =>
              have hstores : StoresNonces state requestHash sender message session nonces :=
                ⟨hsender.symm, hs, hcount,
                  Std.ExtTreeMap.isSome_getElem?_iff_mem.mp (by rw [hc]; rfl),
                  by rw [hcontribution]; simpa using hsome, hparse⟩
              have hheld : (session.modify sender fun held => held.setNonces nonces).secretNonces =
                  session.secretNonces := rfl
              dsimp only
              rw [hheld]
              cases hsecrets : session.secretNonces with
              | none => exact .stored session nonces hstores (.inl hsecrets)
              | some secrets =>
                simp only
                split_ifs with hsign
                · exact .signs session nonces secrets hstores hsecrets hsign.1 hsign.2
                · exact .stored session nonces hstores (.inr (by
                    rw [not_and_or, Bool.not_eq_true] at hsign
                    exact hsign))

/-- A batch of shares that is stored, verified when every nonce is known. -/
structure StoresPartials (state : SigningState M) (requestHash sender : W)
    (message : PartialSignaturesMessage W) (session : SigningSession M)
    (partials : List M.PartialSignature) : Prop where
  signer : message.signer = sender
  found : state.sessions[requestHash]? = some session
  count : message.partialSignatures.length = session.request.messageHashes.length
  mem : sender ∈ session.contributions
  empty : (session.contribution sender).partialSignatures = none
  parsed : SigningState.parsePartials sender 0 message.partialSignatures = .ok partials
  valid : session.noncesReady = true →
    keyAggCache session.signers = .ok (M.keyAggCache session.signers) ∧
      verifySignerPartials session (M.keyAggCache session.signers) sender partials = .ok ()

/-- The outcomes of `accept_partial_signatures`. -/
inductive PartialsOutcome (state : SigningState M) (requestHash sender : W)
    (message : PartialSignaturesMessage W) : SigningState M × Except (Error M) Unit → Prop
  | ignored (h : ¬∃ session partials,
        StoresPartials state requestHash sender message session partials)
      (r : Except (Error M) Unit) : PartialsOutcome state requestHash sender message (state, r)
  | stored (session : SigningSession M) (partials : List M.PartialSignature)
      (h : StoresPartials state requestHash sender message session partials) :
    PartialsOutcome state requestHash sender message
      (state.storePartials requestHash sender session partials session.noncesReady)

theorem acceptPartialSignatures_outcome (state : SigningState M) (requestHash sender : W)
    (message : PartialSignaturesMessage W) :
    PartialsOutcome state requestHash sender message
      (state.acceptPartialSignatures requestHash sender message) := by
  have hignored : ∀ r, (∀ session partials,
      StoresPartials state requestHash sender message session partials → False) →
      PartialsOutcome state requestHash sender message (state, r) := fun r h =>
    .ignored (fun ⟨session, partials, hs⟩ => h session partials hs) r
  rw [SigningState.acceptPartialSignatures]
  split_ifs with hsender
  · exact hignored _ fun _ _ hs => hsender hs.signer.symm
  · simp only [ne_eq, not_not] at hsender
    cases hs : state.sessions[requestHash]? with
    | none => exact hignored _ fun _ _ h => absurd (hs.symm.trans h.found) (by simp)
    | some session =>
      have hfound : ∀ session' partials,
          StoresPartials state requestHash sender message session' partials → session' = session :=
        fun _ _ h => (Option.some.inj (hs.symm.trans h.found)).symm
      simp only
      by_cases hcount : message.partialSignatures.length ≠ session.request.messageHashes.length
      · rw [if_pos hcount]
        exact hignored _ fun _ _ h => hcount (hfound _ _ h ▸ h.count)
      · rw [if_neg hcount]
        simp only [ne_eq, not_not] at hcount
        cases hc : session.contributions[sender]? with
        | none =>
          refine hignored _ fun _ _ h => ?_
          obtain rfl := hfound _ _ h
          exact absurd h.mem (by simp [← Std.ExtTreeMap.isSome_getElem?_iff_mem, hc])
        | some contribution =>
          have hcontribution := session.contribution_eq hc
          have hmem : sender ∈ session.contributions :=
            Std.ExtTreeMap.isSome_getElem?_iff_mem.mp (by rw [hc]; rfl)
          simp only
          by_cases hsome : contribution.partialSignatures.isSome = true
          · rw [if_pos hsome]
            refine hignored _ fun _ _ h => ?_
            obtain rfl := hfound _ _ h
            have hempty := h.empty
            rw [hcontribution] at hempty
            simp [hempty] at hsome
          · rw [if_neg hsome]
            have hempty : (session.contribution sender).partialSignatures = none := by
              rw [hcontribution]
              simpa using hsome
            cases hparse : SigningState.parsePartials (M := M) sender 0 message.partialSignatures with
            | error e =>
              exact hignored _ fun _ _ h => by simp [h.parsed] at hparse
            | ok partials =>
              simp only
              have hsame : ∀ session' partials',
                  StoresPartials state requestHash sender message session' partials' →
                    session' = session ∧ partials' = partials := fun _ _ h =>
                ⟨hfound _ _ h, Except.ok.inj (h.parsed.symm.trans hparse)⟩
              have hstores := @StoresPartials.mk W T _ M state requestHash sender message session
                partials hsender.symm hs hcount hmem hempty hparse
              split_ifs with hready
              · cases hkeys : keyAggCache session.signers with
                | error e =>
                  refine hignored _ fun _ _ h => ?_
                  obtain ⟨rfl, rfl⟩ := hsame _ _ h
                  simp [(h.valid hready).1] at hkeys
                | ok cache =>
                  obtain rfl := keyAggCache_ok hkeys
                  simp only
                  cases hv : verifySignerPartials session (M.keyAggCache session.signers) sender
                      partials with
                  | error e =>
                    refine hignored _ fun _ _ h => ?_
                    obtain ⟨rfl, rfl⟩ := hsame _ _ h
                    simp [(h.valid hready).2] at hv
                  | ok _ =>
                    have hout := PartialsOutcome.stored session partials
                      (hstores fun _ => ⟨hkeys, hv⟩)
                    rwa [hready] at hout
              · have hout := PartialsOutcome.stored session partials
                  (hstores fun h => absurd h hready)
                rwa [Bool.not_eq_true _ |>.mp hready] at hout

end Messages

section Start

/-- A session as it is opened, before the local node's nonces. -/
def freshSession (now : ℕ) (requestor : W) (request : SigningRequest W) (signers : List W)
    (completion : Option ℕ) : SigningSession M :=
  ⟨requestor, request, signers, SigningState.emptyContributions signers, none, completion, now⟩

/-- The outcomes of `start_session`. -/
inductive StartOutcome (state : SigningState M) (now : ℕ) (requestHash requestor : W)
    (request : SigningRequest W) (completion : Option ℕ) :
    SigningState M × Except (Error M) (Option (SigningNoncesMessage W)) → Prop
  | dropped (r : Except (Error M) (Option (SigningNoncesMessage W)))
      (hr : r = .ok none ∧ requestHash ∈ state.sessions ∨
        (∃ e, r = .error e) ∧ requestHash ∉ state.sessions) :
    StartOutcome state now requestHash requestor request completion
      (state.dropCompletion completion, r)
  | watches (signers : List W) (hnew : requestHash ∉ state.sessions)
      (hsigners : state.signersForBranch request.signingStormTreeBranch = .ok signers)
      (hlocal : state.localNode ∉ signers) :
    StartOutcome state now requestHash requestor request completion
      (state.put requestHash (freshSession now requestor request signers completion), .ok none)
  | signs (signers : List W) (secrets : List (SecretNonce W)) (publics : List M.PublicNonce)
      (hnew : requestHash ∉ state.sessions)
      (hsigners : state.signersForBranch request.signingStormTreeBranch = .ok signers)
      (hlocal : state.localNode ∈ signers)
      (hkeys : keyAggCache signers = .ok (M.keyAggCache signers))
      (hnonces : SigningState.drawNonces state.secretKey (M.keyAggCache signers) state.draws
        request.messageHashes = (secrets, publics)) :
    StartOutcome state now requestHash requestor request completion
      ({ state.put requestHash
          { (freshSession now requestor request signers completion).modify state.localNode
              (·.setNonces publics) with secretNonces := some secrets } with
          draws := state.draws + request.messageHashes.length },
        .ok (some ⟨state.localNode, publics.map M.nonceSerialize⟩))

theorem startSession_outcome (state : SigningState M) (now : ℕ) (requestHash requestor : W)
    (request : SigningRequest W) (completion : Option ℕ) :
    StartOutcome state now requestHash requestor request completion
      (state.startSession now requestHash requestor request completion) := by
  rw [SigningState.startSession]
  split_ifs with hopen
  · exact .dropped _ (.inl ⟨rfl, hopen⟩)
  · cases hsigners : state.signersForBranch request.signingStormTreeBranch with
    | error e => exact .dropped _ (.inr ⟨⟨e, rfl⟩, hopen⟩)
    | ok signers =>
      simp only
      split_ifs with hlocal
      · cases hkeys : keyAggCache signers with
        | error e => exact .dropped _ (.inr ⟨⟨e, rfl⟩, hopen⟩)
        | ok cache =>
          obtain rfl := keyAggCache_ok hkeys
          exact .signs signers _ _ hopen hsigners hlocal hkeys rfl
      · exact .watches signers hopen hsigners hlocal

omit [LinearOrder W] in
theorem drawNonces_spec (secretKey : M.SecretKey) (cache : M.Cache) (hashes : List W) :
    ∀ draw secrets publics,
      SigningState.drawNonces secretKey cache draw hashes = (secrets, publics) →
      secrets.map SecretNonce.draw = List.range' draw hashes.length ∧
      secrets.map SecretNonce.messageHash = hashes ∧
      publics = secrets.map fun secret =>
        M.newNoncePair secret.draw cache secretKey secret.messageHash := by
  induction hashes with
  | nil =>
    intro draw secrets publics h
    cases h
    simp
  | cons hash hashes ih =>
    intro draw secrets publics h
    cases hrest : SigningState.drawNonces secretKey cache (draw + 1) hashes with
    | mk restSecrets restPublics =>
      rw [SigningState.drawNonces, hrest] at h
      cases h
      obtain ⟨hdraws, hhashes, hpublics⟩ := ih (draw + 1) _ _ hrest
      refine ⟨?_, ?_, ?_⟩
      · rw [List.map_cons, hdraws, List.length_cons, List.range'_succ]
      · rw [List.map_cons, hhashes]
      · rw [List.map_cons, hpublics]

theorem getElem?_emptyContributions (signers : List W) (s : W) :
    (SigningState.emptyContributions (M := M) signers)[s]? =
      if s ∈ signers then some ⟨none, none, false⟩ else none := by
  have hfold : ∀ (signers : List W) (m : Std.ExtTreeMap W (SignerContribution M)),
      (signers.foldl (fun m signer => m.insert signer ⟨none, none, false⟩) m)[s]? =
        if s ∈ signers then some (⟨none, none, false⟩ : SignerContribution M) else m[s]? := by
    intro signers
    induction signers with
    | nil => simp
    | cons signer signers ih =>
      intro m
      rw [List.foldl_cons, ih, Std.ExtTreeMap.getElem?_insert]
      simp only [compare_eq_iff_eq, List.mem_cons]
      by_cases h : s ∈ signers
      · simp [h]
      · simp [h, eq_comm]
  rw [SigningState.emptyContributions, hfold]
  simp

theorem mem_freshSession (now : ℕ) (requestor : W) (request : SigningRequest W) (signers : List W)
    (completion : Option ℕ) (s : W) :
    s ∈ (freshSession (M := M) now requestor request signers completion).contributions ↔
      s ∈ signers := by
  rw [← Std.ExtTreeMap.isSome_getElem?_iff_mem]
  change (SigningState.emptyContributions signers)[s]?.isSome = true ↔ _
  rw [getElem?_emptyContributions]
  split_ifs with h <;> simp [h]

theorem contribution_freshSession (now : ℕ) (requestor : W) (request : SigningRequest W)
    (signers : List W) (completion : Option ℕ) (s : W) :
    (freshSession (M := M) now requestor request signers completion).contribution s =
      ⟨none, none, false⟩ := by
  change (SigningState.emptyContributions signers)[s]?.getD _ = _
  rw [getElem?_emptyContributions]
  split_ifs <;> rfl

end Start

end Signing
end PriceOracle
