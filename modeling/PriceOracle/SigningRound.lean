import PriceOracle.SigningMembers

/-!
# A signing round whose nonces are given

Once every signer's nonces are in, the code's verification of a batch no longer
depends on the session. A batch that verifies is never cleared, and an open
session always lacks the nonces or the good batch of some signer.
-/

namespace PriceOracle

namespace Signing

variable {W T : Type} [LinearOrder W] {M : Musig W T}

open SigningSession

section Options

theorem mapM_some {A B : Type} (f : A → Option B) (as : List A) (h : ∀ a ∈ as, (f a).isSome = true) :
    ∃ bs, as.mapM f = some bs ∧ bs.length = as.length ∧
      ∀ (i : ℕ) a, as[i]? = some a → bs[i]? = f a := by
  induction as with
  | nil => exact ⟨[], rfl, rfl, by simp⟩
  | cons a as ih =>
    rw [List.forall_mem_cons] at h
    obtain ⟨b, hb⟩ := Option.isSome_iff_exists.mp h.1
    obtain ⟨bs, hbs, hlen, hall⟩ := ih h.2
    refine ⟨b :: bs, by rw [List.mapM_cons, hb, hbs]; rfl, congrArg (· + 1) hlen, fun i a' hi => ?_⟩
    cases i with
    | zero =>
      cases hi
      exact hb.symm
    | succ i => exact hall i a' hi

theorem mapM_congr {A B : Type} {f g : A → Option B} {as : List A} (h : ∀ a ∈ as, f a = g a) :
    as.mapM f = as.mapM g := by
  induction as with
  | nil => rfl
  | cons a as ih =>
    rw [List.forall_mem_cons] at h
    rw [List.mapM_cons, List.mapM_cons, h.1, ih h.2]

theorem filterMap_some {A B : Type} (f : A → Option B) (as : List A)
    (h : ∀ a ∈ as, (f a).isSome = true) :
    (as.filterMap f).length = as.length ∧
      ∀ (i : ℕ) a, as[i]? = some a → (as.filterMap f)[i]? = f a := by
  induction as with
  | nil => simp
  | cons a as ih =>
    rw [List.forall_mem_cons] at h
    obtain ⟨b, hb⟩ := Option.isSome_iff_exists.mp h.1
    obtain ⟨hlen, hall⟩ := ih h.2
    rw [List.filterMap_cons_some hb]
    refine ⟨congrArg (· + 1) hlen, fun i a' hi => ?_⟩
    cases i with
    | zero =>
      cases hi
      exact hb.symm
    | succ i => exact hall i a' hi

end Options

/-- MuSig2 correctness: a node's own shares verify, and shares that verify aggregate
to a signature that does. -/
structure MusigLaws (M : Musig W T) : Prop where
  own : ∀ (secretKey : M.SecretKey) signers nonces messageHash draw (j : ℕ),
    nonces.length = signers.length →
    signers[j]? = some (M.xOnlyPublicKey secretKey).1 →
    nonces[j]? = some (M.newNoncePair draw (M.keyAggCache signers) (evenKey M secretKey) messageHash) →
    M.partialVerify (M.newSession (M.keyAggCache signers) nonces messageHash) (M.keyAggCache signers)
      (M.partialSign (M.newSession (M.keyAggCache signers) nonces messageHash) ⟨draw, messageHash⟩
        (evenKey M secretKey) (M.keyAggCache signers))
      (M.newNoncePair draw (M.keyAggCache signers) (evenKey M secretKey) messageHash)
      (M.xOnlyPublicKey secretKey).1 = true
  aggregate : ∀ (signers : List W) (nonces : List M.PublicNonce) (shares : List M.PartialSignature)
    messageHash, nonces.length = signers.length → shares.length = signers.length →
    (∀ (j : ℕ) signer nonce share, signers[j]? = some signer → nonces[j]? = some nonce →
      shares[j]? = some share →
      M.partialVerify (M.newSession (M.keyAggCache signers) nonces messageHash)
        (M.keyAggCache signers) share nonce signer = true) →
    M.verify (M.partialSigAgg (M.newSession (M.keyAggCache signers) nonces messageHash) shares)
      (M.aggPk (M.keyAggCache signers)) messageHash = true

section Round

variable (signers hashes : List W) (nonceOf : W → List M.PublicNonce)

/-- The batch of a signer verifies when every signer's nonces are those of `nonceOf`. -/
def RoundVerifies (signer : W) (partials : List M.PartialSignature) : Prop :=
  ∀ (i : ℕ) share messageHash, partials[i]? = some share → hashes[i]? = some messageHash →
    ∃ nonces nonce, (signers.mapM fun s => (nonceOf s)[i]?) = some nonces ∧
      (nonceOf signer)[i]? = some nonce ∧
      M.partialVerify (M.newSession (M.keyAggCache signers) nonces messageHash)
        (M.keyAggCache signers) share nonce signer = true

/-- The session holds a batch of the signer that verifies. -/
def HoldsGood (session : SigningSession M) (signer : W) : Prop :=
  ∃ partials, (session.contribution signer).partialSignatures = some partials ∧
    RoundVerifies signers hashes nonceOf signer partials

/-- The session collects `nonceOf` for `hashes`, as far as nonces are in. -/
structure Collects (session : SigningSession M) : Prop where
  signers_eq : session.signers = signers
  hashes_eq : session.request.messageHashes = hashes
  cache_eq : keyAggCache signers = .ok (M.keyAggCache signers)
  nonces : ∀ s ∈ signers, ∀ nonces, (session.contribution s).nonces = some nonces →
    nonces = nonceOf s

variable {signers hashes nonceOf} {session session' : SigningSession M}

theorem aggregateFrom_total (session : SigningSession M) (cache : M.Cache) (hashes : List W) :
    ∀ index, (∀ (i : ℕ) messageHash, hashes[i]? = some messageHash →
      ∃ signing, musigSession session cache (index + i) messageHash = .ok signing ∧
        M.verify (M.partialSigAgg signing (sharesAt session (index + i))) (M.aggPk cache)
          messageHash = true) →
      ∃ signatures, aggregateFrom session cache index hashes = .ok signatures := by
  induction hashes with
  | nil => exact fun _ _ => ⟨[], rfl⟩
  | cons hash hashes ih =>
    intro index hall
    obtain ⟨signing, hm, hv⟩ := hall 0 hash rfl
    obtain ⟨rest, hrest⟩ := ih (index + 1) fun i messageHash hi => by
      have := hall (i + 1) messageHash hi
      rwa [Nat.add_right_comm, Nat.add_assoc]
    rw [Nat.add_zero] at hm hv
    refine ⟨M.partialSigAgg signing (sharesAt session index) :: rest, ?_⟩
    rw [aggregateFrom, hm]
    simp only [hv, if_true, hrest]

omit [LinearOrder W] in
theorem fromByteArray_of_keyAggCache (h : keyAggCache signers = .ok (M.keyAggCache signers)) {s : W}
    (hs : s ∈ signers) : (M.fromByteArray s).isOk = true := by
  rw [keyAggCache] at h
  split_ifs at h with hall
  exact List.all_eq_true.mp hall s hs

namespace Collects

theorem of_sameRound (h : Collects signers hashes nonceOf session)
    (hround : SameRound session session') : Collects signers hashes nonceOf session' where
  signers_eq := hround.signers.trans h.signers_eq
  hashes_eq := by rw [hround.request, h.hashes_eq]
  cache_eq := h.cache_eq
  nonces s hs nonces hn := h.nonces s hs nonces (hround.nonces s ▸ hn)

variable {past : List (Action W T)} {secretKey : M.SecretKey} {localNode requestHash : W}
  (h : Collects signers hashes nonceOf session)
  (hinv : SessionInv past secretKey localNode requestHash session)
  (hready : session.noncesReady = true)

include h hinv hready

/-- Every signer's nonces are in. -/
theorem nonces_eq {s : W} (hs : s ∈ signers) :
    (session.contribution s).nonces = some (nonceOf s) := by
  have hmem := (hinv.keys s).mpr (h.signers_eq ▸ hs)
  obtain ⟨nonces, hn⟩ := Option.isSome_iff_exists.mp (session.noncesReady_iff.mp hready s hmem)
  rw [hn, h.nonces s hs nonces hn]

theorem length_nonceOf {s : W} (hs : s ∈ signers) : (nonceOf s).length = hashes.length := by
  rw [← h.hashes_eq]
  exact hinv.nonces_length s _ (h.nonces_eq hinv hready hs)

theorem mapM_nonces (i : ℕ) :
    (session.signers.mapM fun signer => (session.contribution signer).nonces.bind (·[i]?)) =
      signers.mapM fun s => (nonceOf s)[i]? := by
  rw [h.signers_eq]
  refine mapM_congr fun s hs => ?_
  rw [h.nonces_eq hinv hready hs]
  rfl

/-- The nonces of one message, signer by signer. -/
theorem nonces_at {i : ℕ} (hi : i < hashes.length) :
    ∃ nonces, (signers.mapM fun s => (nonceOf s)[i]?) = some nonces ∧
      nonces.length = signers.length ∧
      ∀ (j : ℕ) s, signers[j]? = some s → nonces[j]? = (nonceOf s)[i]? :=
  mapM_some _ _ fun s hs => by
    rw [← h.length_nonceOf hinv hready hs] at hi
    rw [List.getElem?_eq_getElem hi]
    rfl

theorem musigSession (cache : M.Cache) (i : ℕ) (messageHash : W) {nonces : List M.PublicNonce}
    (hnonces : (signers.mapM fun s => (nonceOf s)[i]?) = some nonces) :
    Signing.musigSession session cache i messageHash = .ok (M.newSession cache nonces messageHash) := by
  rw [Signing.musigSession, h.mapM_nonces hinv hready, hnonces]

theorem mapM_of_musigSession {cache : M.Cache} {i : ℕ} {messageHash : W} {signing : M.Session}
    (hm : Signing.musigSession session cache i messageHash = .ok signing) :
    ∃ nonces, (signers.mapM fun s => (nonceOf s)[i]?) = some nonces ∧
      signing = M.newSession cache nonces messageHash := by
  rw [Signing.musigSession, h.mapM_nonces hinv hready] at hm
  cases hmap : signers.mapM fun s => (nonceOf s)[i]? with
  | none =>
    rw [hmap] at hm
    cases hm
  | some nonces =>
    rw [hmap] at hm
    exact ⟨nonces, rfl, (Except.ok.inj hm).symm⟩

/-- With every nonce in, the code's verification is the round's. -/
theorem verify_iff {signer : W} (hs : signer ∈ signers) (partials : List M.PartialSignature) :
    verifySignerPartials session (M.keyAggCache session.signers) signer partials = .ok () ↔
      RoundVerifies signers hashes nonceOf signer partials := by
  rw [verifySignerPartials_ok_iff, h.hashes_eq, h.signers_eq, h.nonces_eq hinv hready hs]
  simp only [fromByteArray_of_keyAggCache h.cache_eq hs, true_and, Option.some.injEq,
    exists_eq_left', RoundVerifies]
  refine forall_congr' fun i => forall_congr' fun share => forall_congr' fun messageHash =>
    imp_congr_right fun _ => imp_congr_right fun _ => ?_
  constructor
  · rintro ⟨signing, nonce, hm, hn, hv⟩
    obtain ⟨nonces, hnonces, rfl⟩ := h.mapM_of_musigSession hinv hready hm
    exact ⟨nonces, nonce, hnonces, hn, hv⟩
  · rintro ⟨nonces, nonce, hnonces, hn, hv⟩
    exact ⟨_, nonce, h.musigSession hinv hready _ i messageHash hnonces, hn, hv⟩

/-- The aggregation of a session whose batches all verify succeeds. -/
theorem aggregateFrom_ok (laws : MusigLaws M)
    (hgood : ∀ s ∈ signers, HoldsGood signers hashes nonceOf session s) :
    ∃ signatures, aggregateFrom session (M.keyAggCache session.signers) 0
      session.request.messageHashes = .ok signatures := by
  rw [h.hashes_eq, h.signers_eq]
  refine aggregateFrom_total _ _ hashes 0 fun i messageHash hi => ?_
  obtain ⟨nonces, hnonces, hlen, hat⟩ :=
    h.nonces_at hinv hready (List.getElem?_eq_some_iff.mp hi).1
  rw [Nat.zero_add]
  refine ⟨_, h.musigSession hinv hready _ i messageHash hnonces, ?_⟩
  have hshares : ∀ s ∈ session.signers,
      ((session.contribution s).partialSignatures.bind (·[i]?)).isSome = true := by
    intro s hs
    obtain ⟨partials, hp, -⟩ := hgood s (h.signers_eq ▸ hs)
    have hpl := hinv.partials_length s partials hp
    rw [h.hashes_eq] at hpl
    have hi' := (List.getElem?_eq_some_iff.mp hi).1
    rw [← hpl] at hi'
    rw [hp, Option.bind_some, List.getElem?_eq_getElem hi']
    rfl
  obtain ⟨hsl, hsat⟩ := filterMap_some _ _ hshares
  rw [h.signers_eq] at hsl hsat
  refine laws.aggregate signers nonces _ messageHash hlen
    (by rw [sharesAt, h.signers_eq, hsl]) fun j s nonce share hs hn hshare => ?_
  have hmem := List.mem_of_getElem? hs
  obtain ⟨partials, hp, hv⟩ := hgood s hmem
  rw [sharesAt, h.signers_eq, hsat j s hs, hp, Option.bind_some] at hshare
  obtain ⟨nonces', nonce', hnonces', hn', hv⟩ := hv i share messageHash hshare hi
  obtain rfl := Option.some.inj (hnonces.symm.trans hnonces')
  rw [hat j s hs, hn'] at hn
  exact Option.some.inj hn ▸ hv

end Collects

theorem holdsGood_congr {s : W} (h : (session'.contribution s).partialSignatures =
    (session.contribution s).partialSignatures) :
    HoldsGood signers hashes nonceOf session' s ↔ HoldsGood signers hashes nonceOf session s := by
  rw [HoldsGood, HoldsGood, h]

end Round

section Complete

variable (signers hashes : List W) (nonceOf : W → List M.PublicNonce) (requestHash : W) (channel : ℕ)

/-- The local node waits on `channel` for the result of its own session. -/
structure Waits (state : SigningState M) (session : SigningSession M) : Prop where
  found : state.sessions[requestHash]? = some session
  collects : Collects signers hashes nonceOf session
  requestor : session.requestor = state.localNode
  completion : session.completion = some channel
  routed : ∀ s ∈ signers, s ∈ state.memberTransportKeys
  own : state.localNode ∈ signers →
    session.secretNonces.isSome = true ∧ session.noncesReady = false ∨
      session.noncesReady = true ∧ HoldsGood signers hashes nonceOf session state.localNode

/-- It waits, and rightly so: nonces or a good batch are missing. -/
structure Pending (state : SigningState M) (session : SigningSession M) : Prop extends
    Waits signers hashes nonceOf requestHash channel state session where
  lacks : session.noncesReady = true → ∃ s ∈ signers, ¬HoldsGood signers hashes nonceOf session s

def HasResult (state : SigningState M) : Prop :=
  ∃ session result, Event.completed channel session result ∈ state.events

variable {signers hashes nonceOf requestHash channel} {state : SigningState M}
  {session : SigningSession M} {past : List (Action W T)}

/-- A session written back in the same round, no signer's good batch lost. -/
theorem Waits.put {session' : SigningSession M}
    (h : Waits signers hashes nonceOf requestHash channel state session)
    (hround : SameRound session session') (hcompletion : session'.completion = session.completion)
    (hsecrets : session'.secretNonces = session.secretNonces)
    (hgood : HoldsGood signers hashes nonceOf session state.localNode →
      HoldsGood signers hashes nonceOf session' state.localNode) :
    Waits signers hashes nonceOf requestHash channel (state.put requestHash session') session' where
  found := getElem?_put_self _ _ _
  collects := h.collects.of_sameRound hround
  requestor := hround.requestor.trans h.requestor
  completion := hcompletion.trans h.completion
  routed := h.routed
  own hlocal := by
    rw [hsecrets, hround.noncesReady]
    exact (h.own hlocal).imp_right fun ⟨hready, hg⟩ => ⟨hready, hgood hg⟩

/-- Batches that are all in and judged are all good. -/
theorem holdsGood_of_judged {session' : SigningSession M} (h : Collects signers hashes nonceOf session)
    {secretKey : M.SecretKey} {localNode : W}
    (hinv : SessionInv past secretKey localNode requestHash session)
    (hready : session.noncesReady = true)
    (hj : Judged (M.keyAggCache session.signers) session.signers session session')
    (hpartials : session'.partialsReady = true) {s : W} (hs : s ∈ signers) :
    HoldsGood signers hashes nonceOf session' s := by
  have hinv' := hinv.judged hready hj
  have hsigners := hj.round.signers.trans h.signers_eq
  have hmem := (hinv'.keys s).mpr (hsigners ▸ hs)
  have hsome := session'.partialsReady_iff.mp hpartials s hmem
  have hflag := hj.all_verified s (h.signers_eq ▸ hs) hsome
  obtain ⟨hready', partials, hp, hv⟩ := hinv'.verified s hflag
  exact ⟨partials, hp, ((h.of_sameRound hj.round).verify_iff hinv' hready' hs partials).mp hv⟩

/-- Completion ends the round when nothing is missing, and keeps every good batch otherwise. -/
theorem Waits.completeSession (laws : MusigLaws M)
    (h : Waits signers hashes nonceOf requestHash channel state session)
    (hinv : SessionInv past state.secretKey state.localNode requestHash session) :
    (state.completeSession requestHash).2 = .ok () ∧
        HasResult channel (state.completeSession requestHash).1 ∧
        (∀ s ∈ signers, HoldsGood signers hashes nonceOf session s) ∨
      ∃ session', Pending signers hashes nonceOf requestHash channel
          (state.completeSession requestHash).1 session' ∧ SameRound session session' ∧
        ∀ s ∈ signers, HoldsGood signers hashes nonceOf session' s ↔
          HoldsGood signers hashes nonceOf session s := by
  have hcache : keyAggCache session.signers = .ok (M.keyAggCache session.signers) := by
    rw [h.collects.signers_eq]
    exact h.collects.cache_eq
  have hout := completeSession_outcome state requestHash session h.found
  generalize state.completeSession requestHash = out at hout ⊢
  cases hout with
  | waiting hwait =>
    have hready := hwait.resolve_left fun hne => hne h.requestor
    exact .inr ⟨session, ⟨h, fun hr => by simp [hready] at hr⟩, SameRound.refl, fun _ _ => .rfl⟩
  | badKeys e hready hkeys => cases hcache.symm.trans hkeys
  | cleared session' bad e hready hlocal hkeys hc =>
    have hbad : bad ∈ signers := h.collects.signers_eq ▸ hc.mem
    have hnot : ¬HoldsGood signers hashes nonceOf session bad := by
      rintro ⟨partials, hp, hv⟩
      obtain ⟨partials', e', hp', hv'⟩ := hc.failed
      obtain rfl := Option.some.inj (hp.symm.trans hp')
      rw [(h.collects.verify_iff hinv hready hbad partials).mpr hv] at hv'
      cases hv'
    have hnot' : ¬HoldsGood signers hashes nonceOf session' bad := by
      rintro ⟨partials, hp, -⟩
      rw [hc.cleared] at hp
      cases hp
    have hiff : ∀ s, HoldsGood signers hashes nonceOf session' s ↔
        HoldsGood signers hashes nonceOf session s := by
      intro s
      by_cases hs : s = bad
      · rw [hs]
        exact iff_of_false hnot' hnot
      · exact holdsGood_congr (hc.partials s hs)
    exact .inr ⟨session', ⟨h.put hc.round hc.completion hc.secretNonces (hiff _).mpr,
      fun _ => ⟨bad, hbad, hnot'⟩⟩, hc.round, fun s _ => hiff s⟩
  | unfinished session' hready hlocal hkeys hj hpartials =>
    refine .inr ⟨session', ⟨h.put hj.round hj.completion hj.secretNonces
      (holdsGood_congr (hj.partials _)).mpr, fun _ => ?_⟩, hj.round,
      fun s _ => holdsGood_congr (hj.partials s)⟩
    by_contra hall
    push Not at hall
    have hinv' := hinv.judged hready hj
    have hsome : session'.partialsReady = true := session'.partialsReady_iff.mpr fun s hs => by
      rw [hinv'.keys, hj.round.signers, h.collects.signers_eq] at hs
      obtain ⟨partials, hp, -⟩ := hall s hs
      rw [hp]
      rfl
    rw [hpartials] at hsome
    cases hsome
  | badAggregate session' e hready hlocal hkeys hj hpartials hagg =>
    have hready' : session'.noncesReady = true := by rw [hj.round.noncesReady, hready]
    obtain ⟨signatures, hok⟩ := (h.collects.of_sameRound hj.round).aggregateFrom_ok
      (hinv.judged hready hj) hready' laws
      fun s hs => holdsGood_of_judged h.collects hinv hready hj hpartials hs
    rw [hj.round.signers, hagg] at hok
    cases hok
  | finished session' signatures hready hlocal hkeys hj hpartials hagg =>
    refine .inl ⟨rfl, ⟨session',
      ⟨requestHash, session'.request.signingStormTreeBranch, signatures⟩, ?_⟩, fun s hs => ?_⟩
    · refine List.mem_append_right _ ?_
      rw [hj.completion, h.completion]
      exact List.mem_singleton_self _
    · exact (holdsGood_congr (hj.partials s)).mp
        (holdsGood_of_judged h.collects hinv hready hj hpartials hs)

end Complete

end Signing
end PriceOracle
