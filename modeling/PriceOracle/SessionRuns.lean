import PriceOracle.OperatorSessions

/-!
# Runs of the operators' sessions

Any number of calls are in progress, each between two of its sections; which of them goes on is
arbitrary, and so is what becomes of the operators meanwhile. Challenges and grants are recorded as
they come about.
-/

namespace PriceOracle

open Runs OperatorSession
open OperatorAuth (cleanup parsePublicKey verifySignature verifyWriteForSchemeAt)

/-- What a party asks for. -/
inductive SessionRequest where
  | challenge (publicKey : String) (scheme : SignatureScheme)
  | exchange (publicKey message signature : String) (scheme : SignatureScheme)
  | use (token : String)

/-- An exchange, with the time it read when it began. -/
structure TokenExchange where
  publicKey : String
  message : String
  signature : String
  scheme : SignatureScheme
  now : ℕ
  deriving DecidableEq

/-- A call between its sections: before the operator table is read, before each locked section, and before a token's
key is looked up. -/
inductive SessionCall where
  | issuing (publicKey : String) (scheme : SignatureScheme) (now : ℕ)
  | issuingAs (publicKey : String) (scheme : SignatureScheme) (now : ℕ)
  | exchanging (exchange : TokenExchange)
  | exchangingAs (exchange : TokenExchange) (key : OperatorPublicKey)
  | exchangingFound (exchange : TokenExchange) (key : OperatorPublicKey)
  | authenticating (token : String) (now : ℕ)
  | authenticatingAs (token publicKey : String) (scheme : SignatureScheme) (now : ℕ)
  deriving DecidableEq

inductive SessionAnswer where
  | challenge (challenge : Challenge)
  | token (token : AccessToken)
  | operator (publicKey : String)
  deriving DecidableEq

/-- A token that was issued, and the exchange that it was issued in. -/
structure Grant where
  token : String
  expiresAt : ℕ
  exchange : TokenExchange
  key : OperatorPublicKey

/-- The operators, the tables, the calls in progress, and what happened: the random values drawn, the challenges
issued and the tokens granted. -/
structure Sessions where
  clock : ℕ
  operators : OperatorPublicKey → Bool
  auth : AuthState
  calls : List SessionCall
  drawn : List (List UInt8)
  issued : List (String × ExpiringOperator)
  granted : List Grant

inductive SessionEvent where
  | clock (now : ℕ)
  | operator (key : OperatorPublicKey) (present : Bool)
  | begin (request : SessionRequest)
  | resume (index : ℕ) (random : List UInt8)
  | drop (index : ℕ)
  | write (call : WriteCall)

def SessionRequest.begun (now : ℕ) : SessionRequest → SessionCall
  | .challenge publicKey scheme => .issuing publicKey scheme now
  | .exchange publicKey message signature scheme => .exchanging ⟨publicKey, message, signature, scheme, now⟩
  | .use token => .authenticating token now

namespace Sessions

def started (now : ℕ) (operators : OperatorPublicKey → Bool) : Sessions :=
  ⟨now, operators, ⟨∅, ∅, ∅⟩, [], [], [], []⟩

variable (libraries : AuthLibraries)

/-- The next section of a call: what it leaves, and how the call goes on or ends. -/
def resume (sessions : Sessions) (random : List UInt8) :
    SessionCall → Sessions × (SessionCall ⊕ Except SessionError SessionAnswer)
  | .issuing publicKey scheme now =>
    match operatorKey libraries sessions.operators publicKey scheme with
    | .error error => (sessions, .inr (.error error))
    | .ok (publicKey, _) => (sessions, .inl (.issuingAs publicKey scheme now))
  | .issuingAs publicKey scheme now =>
    let message := challengeMessage scheme publicKey (OperatorWrite.hexText random)
    let (auth, challenge) := issueChallenge publicKey scheme message now sessions.auth
    let issued := match findChallenge publicKey scheme (cleanup now sessions.auth) with
      | some _ => sessions.issued
      | none => (message, ⟨publicKey, scheme, challenge.expiresAt⟩) :: sessions.issued
    ({ sessions with auth, issued }, .inr (.ok (.challenge challenge)))
  | .exchanging exchange =>
    match operatorKey libraries sessions.operators exchange.publicKey exchange.scheme with
    | .error error => (sessions, .inr (.error error))
    | .ok (publicKey, key) => (sessions, .inl (.exchangingAs { exchange with publicKey } key))
  | .exchangingAs exchange key =>
    match lookUpChallenge exchange.publicKey exchange.scheme exchange.message exchange.now sessions.auth with
    | (auth, .error error) => ({ sessions with auth }, .inr (.error error))
    | (auth, .ok ()) => ({ sessions with auth }, .inl (.exchangingFound exchange key))
  | .exchangingFound exchange key =>
    match verifySignature libraries key exchange.message exchange.signature with
    | .error error => (sessions, .inr (.error (.auth error)))
    | .ok () =>
      match consumeChallenge exchange.publicKey exchange.scheme exchange.message exchange.now
        (OperatorWrite.hexText random) sessions.auth with
      | (auth, .error error) => ({ sessions with auth }, .inr (.error error))
      | (auth, .ok token) =>
        ({ sessions with auth, granted := ⟨token.token, token.expiresAt, exchange, key⟩ :: sessions.granted },
          .inr (.ok (.token token)))
  | .authenticating token now =>
    match lookUpToken now token sessions.auth with
    | (auth, .error error) => ({ sessions with auth }, .inr (.error error))
    | (auth, .ok (publicKey, scheme)) => ({ sessions with auth }, .inl (.authenticatingAs token publicKey scheme now))
  | .authenticatingAs _ publicKey scheme _ =>
    match operatorKey libraries sessions.operators publicKey scheme with
    | .error error => (sessions, .inr (.error error))
    | .ok _ => (sessions, .inr (.ok (.operator publicKey)))

def step (sessions : Sessions) : SessionEvent → Sessions
  | .clock now => { sessions with clock := now }
  | .operator key present => { sessions with operators := Function.update sessions.operators key present }
  | .begin request => { sessions with calls := sessions.calls ++ [request.begun sessions.clock] }
  | .resume index random =>
    match sessions.calls[index]? with
    | none => sessions
    | some call =>
      match sessions.resume libraries random call with
      | (resumed, .inl next) =>
        { resumed with drawn := random :: sessions.drawn, calls := sessions.calls.set index next }
      | (resumed, .inr _) =>
        { resumed with drawn := random :: sessions.drawn, calls := sessions.calls.eraseIdx index }
  | .drop index => { sessions with calls := sessions.calls.eraseIdx index }
  | .write call => { sessions with auth := (verifyWriteForSchemeAt libraries call sessions.auth).1 }

/-- The clock does not run back, and 32 random bytes are never drawn twice. -/
def Allowed (sessions : Sessions) : SessionEvent → Prop
  | .clock now => sessions.clock ≤ now
  | .resume _ random => random.length = 32 ∧ random ∉ sessions.drawn
  | _ => True

instance (sessions : Sessions) (event : SessionEvent) : Decidable (sessions.Allowed event) := by
  cases event <;> unfold Allowed <;> infer_instance

/-- What holds of challenges, grants and tokens. -/
structure Sound (sessions : Sessions) : Prop where
  /-- Every token was granted, with the key, the scheme and the expiry that it is held with. -/
  tokens : ∀ token row, sessions.auth.tokens.lookup token = some row → ∃ grant ∈ sessions.granted,
    grant.token = token ∧ row = ⟨grant.exchange.publicKey, grant.exchange.scheme, grant.expiresAt⟩
  /-- No token was granted twice, no challenge yielded two tokens, and no message was issued twice. -/
  oneGrant : (sessions.granted.map Grant.token).Nodup
  oneToken : (sessions.granted.map fun grant => grant.exchange.message).Nodup
  oneChallenge : (sessions.issued.map Prod.fst).Nodup
  /-- A grant is of a challenge of the same key and scheme, was asked for strictly before the challenge expired, and
  carries a signature of the challenge that verifies under the key. -/
  granted : ∀ grant ∈ sessions.granted, ∃ expiresAt,
    (grant.exchange.message, ⟨grant.exchange.publicKey, grant.exchange.scheme, expiresAt⟩) ∈ sessions.issued ∧
    grant.exchange.now < expiresAt ∧
    (∃ encoded, parsePublicKey libraries encoded grant.exchange.scheme = .ok (grant.exchange.publicKey, grant.key)) ∧
    verifySignature libraries grant.key grant.exchange.message grant.exchange.signature = .ok ()
  /-- At most one challenge is held for a key and a scheme. -/
  oneLive : ∀ message message' challenge challenge', sessions.auth.challenges.lookup message = some challenge →
    sessions.auth.challenges.lookup message' = some challenge' → challenge.publicKey = challenge'.publicKey →
    challenge.signatureScheme = challenge'.signatureScheme → message = message'

section Kept

variable {libraries : AuthLibraries} {sessions next : Sessions} {call : SessionCall} {random : List UInt8}

/-- What a call in progress has established. -/
def CallKept (libraries : AuthLibraries) (granted : List Grant) : SessionCall → Prop
  | .exchangingAs exchange key | .exchangingFound exchange key =>
    ∃ encoded, parsePublicKey libraries encoded exchange.scheme = .ok (exchange.publicKey, key)
  | .authenticatingAs token publicKey scheme now => ∃ grant ∈ granted, grant.token = token ∧
    grant.exchange.publicKey = publicKey ∧ grant.exchange.scheme = scheme ∧ now < grant.expiresAt
  | _ => True

/-- What every section keeps, whichever call it is of. -/
structure Kept (libraries : AuthLibraries) (sessions : Sessions) : Prop extends Sound libraries sessions where
  /-- A challenge that is held was issued, and has not yielded a token. -/
  challenges : ∀ message challenge, sessions.auth.challenges.lookup message = some challenge →
    (message, challenge) ∈ sessions.issued ∧ message ∉ sessions.granted.map fun grant => grant.exchange.message
  messages : ∀ entry ∈ sessions.issued, ∃ random ∈ sessions.drawn, random.length = 32 ∧
    entry.1 = challengeMessage entry.2.signatureScheme entry.2.publicKey (OperatorWrite.hexText random)
  grantedTokens : ∀ grant ∈ sessions.granted, ∃ random ∈ sessions.drawn, grant.token = OperatorWrite.hexText random

theorem CallKept.mono {granted granted' : List Grant} (h : CallKept libraries granted call)
    (hgranted : granted ⊆ granted') : CallKept libraries granted' call := by
  cases call with
  | authenticatingAs token publicKey scheme now =>
    obtain ⟨grant, hgrant, hrest⟩ := h
    exact ⟨grant, hgranted hgrant, hrest⟩
  | _ => exact h

/-- Removing challenges and tokens keeps everything. -/
theorem Kept.fewer (h : Kept libraries sessions) (hfewer : Fewer sessions.auth next.auth)
    (hissued : next.issued = sessions.issued) (hgranted : next.granted = sessions.granted)
    (hdrawn : sessions.drawn ⊆ next.drawn) : Kept libraries next := by
  constructor
  · constructor
    · rw [hgranted]
      exact fun token row hlookup => h.tokens token row (hfewer.tokens token row hlookup)
    · rw [hgranted]
      exact h.oneGrant
    · rw [hgranted]
      exact h.oneToken
    · rw [hissued]
      exact h.oneChallenge
    · rw [hgranted, hissued]
      exact h.granted
    · intro message message' challenge challenge' hlookup hlookup'
      exact h.oneLive message message' challenge challenge' (hfewer.challenges _ _ hlookup)
        (hfewer.challenges _ _ hlookup')
  · rw [hissued, hgranted]
    exact fun message challenge hlookup => h.challenges message challenge (hfewer.challenges _ _ hlookup)
  · rw [hissued]
    intro entry hentry
    obtain ⟨drawn, hmem, hrest⟩ := h.messages entry hentry
    exact ⟨drawn, hdrawn hmem, hrest⟩
  · rw [hgranted]
    intro grant hgrant
    obtain ⟨drawn, hmem, heq⟩ := h.grantedTokens grant hgrant
    exact ⟨drawn, hdrawn hmem, heq⟩

/-- A message of fresh random bytes was not issued before. -/
theorem Kept.fresh (h : Kept libraries sessions) (hlength : random.length = 32) (hfresh : random ∉ sessions.drawn)
    {scheme : SignatureScheme} {publicKey : String} :
    challengeMessage scheme publicKey (OperatorWrite.hexText random) ∉ sessions.issued.map Prod.fst := by
  intro hmem
  obtain ⟨entry, hentry, heq⟩ := List.mem_map.mp hmem
  obtain ⟨drawn, hdrawn, hdrawnLength, hmessage⟩ := h.messages entry hentry
  have hnonce := challengeMessage_nonce (by rw [OperatorWrite.length_hexText, OperatorWrite.length_hexText, hlength,
    hdrawnLength]) (hmessage.symm.trans heq)
  exact hfresh (OperatorWrite.hexText_inj hnonce ▸ hdrawn)

theorem Kept.granted_issued (h : Kept libraries sessions) {message : String}
    (hmem : message ∈ sessions.granted.map fun grant => grant.exchange.message) :
    message ∈ sessions.issued.map Prod.fst := by
  obtain ⟨grant, hgrant, rfl⟩ := List.mem_map.mp hmem
  obtain ⟨expiresAt, hissued, -⟩ := h.granted grant hgrant
  exact List.mem_map_of_mem hissued

/-- A new challenge where there is none for the key and the scheme. -/
theorem Kept.addChallenge (h : Kept libraries sessions) (hlength : random.length = 32)
    (hfresh : random ∉ sessions.drawn) {publicKey : String} {scheme : SignatureScheme}
    (hnone : findChallenge publicKey scheme sessions.auth = none) (expiresAt : ℕ) :
    Kept libraries { sessions with
      auth := { sessions.auth with
        challenges := sessions.auth.challenges.insert
          (challengeMessage scheme publicKey (OperatorWrite.hexText random)) ⟨publicKey, scheme, expiresAt⟩ }
      issued := (challengeMessage scheme publicKey (OperatorWrite.hexText random), ⟨publicKey, scheme, expiresAt⟩) ::
        sessions.issued
      drawn := random :: sessions.drawn } := by
  have hnew := @Kept.fresh libraries sessions random h hlength hfresh scheme publicKey
  constructor
  · refine ⟨h.tokens, h.oneGrant, h.oneToken, List.nodup_cons.mpr ⟨hnew, h.oneChallenge⟩, fun grant hgrant => ?_, ?_⟩
    · obtain ⟨expiry, hissued, hrest⟩ := h.granted grant hgrant
      exact ⟨expiry, List.mem_cons_of_mem _ hissued, hrest⟩
    · intro message message' challenge challenge' hlookup hlookup' hkey hscheme
      dsimp only at hlookup hlookup'
      rw [Table.lookup_insert_eq] at hlookup hlookup'
      split_ifs at hlookup hlookup' with hmessage hmessage' hmessage'
      · exact hmessage.trans hmessage'.symm
      · cases hlookup
        exact absurd ⟨hkey.symm, hscheme.symm⟩ (findChallenge_eq_none hnone hlookup')
      · cases hlookup'
        exact absurd ⟨hkey, hscheme⟩ (findChallenge_eq_none hnone hlookup)
      · exact h.oneLive message message' challenge challenge' hlookup hlookup' hkey hscheme
  · intro message challenge hlookup
    dsimp only at hlookup
    rw [Table.lookup_insert_eq] at hlookup
    split_ifs at hlookup with hmessage
    · cases hlookup
      subst hmessage
      exact ⟨List.mem_cons_self, fun hmem => hnew (h.granted_issued hmem)⟩
    · obtain ⟨hissued, hyielded⟩ := h.challenges message challenge hlookup
      exact ⟨List.mem_cons_of_mem _ hissued, hyielded⟩
  · rintro entry (_ | ⟨_, hentry⟩)
    · exact ⟨random, List.mem_cons_self, hlength, rfl⟩
    · obtain ⟨drawn, hmem, hrest⟩ := h.messages entry hentry
      exact ⟨drawn, List.mem_cons_of_mem _ hmem, hrest⟩
  · intro grant hgrant
    obtain ⟨drawn, hmem, heq⟩ := h.grantedTokens grant hgrant
    exact ⟨drawn, List.mem_cons_of_mem _ hmem, heq⟩

theorem Kept.issue (h : Kept libraries sessions) (hlength : random.length = 32) (hfresh : random ∉ sessions.drawn)
    {publicKey : String} {scheme : SignatureScheme} {now : ℕ} :
    Kept libraries { (sessions.resume libraries random (.issuingAs publicKey scheme now)).1 with
      drawn := random :: sessions.drawn } := by
  unfold resume
  dsimp only
  cases hfind : findChallenge publicKey scheme (cleanup now sessions.auth) with
  | some row => exact h.fewer (issueChallenge_some hfind ▸ fewer_cleanup) rfl rfl (List.subset_cons_self _ _)
  | none =>
    have hclean : Kept libraries { sessions with auth := cleanup now sessions.auth } :=
      h.fewer fewer_cleanup rfl rfl (List.Subset.refl _)
    rw [issueChallenge_none hfind]
    exact hclean.addChallenge hlength hfresh hfind _

/-- A new token for a challenge that is held, whose signature verified before the challenge expired. -/
theorem Kept.addGrant (h : Kept libraries sessions) (hfresh : random ∉ sessions.drawn) {exchange : TokenExchange}
    {key : OperatorPublicKey} {challenge : ExpiringOperator}
    (hparsed : ∃ encoded, parsePublicKey libraries encoded exchange.scheme = .ok (exchange.publicKey, key))
    (hverified : verifySignature libraries key exchange.message exchange.signature = .ok ())
    (hchallenge : sessions.auth.challenges.lookup exchange.message = some challenge)
    (hkey : challenge.publicKey = exchange.publicKey) (hscheme : challenge.signatureScheme = exchange.scheme)
    (hnow : exchange.now < challenge.expiresAt) (expiresAt : ℕ) :
    Kept libraries { sessions with
      auth := { sessions.auth with
        challenges := sessions.auth.challenges.erase exchange.message
        tokens := sessions.auth.tokens.insert (OperatorWrite.hexText random)
          ⟨exchange.publicKey, exchange.scheme, expiresAt⟩ }
      granted := ⟨OperatorWrite.hexText random, expiresAt, exchange, key⟩ :: sessions.granted
      drawn := random :: sessions.drawn } := by
  obtain ⟨hissued, hyielded⟩ := h.challenges exchange.message challenge hchallenge
  have hnew : OperatorWrite.hexText random ∉ sessions.granted.map Grant.token := by
    intro hmem
    obtain ⟨grant, hgrant, heq⟩ := List.mem_map.mp hmem
    obtain ⟨drawn, hdrawn, htoken⟩ := h.grantedTokens grant hgrant
    exact hfresh (OperatorWrite.hexText_inj (htoken.symm.trans heq) ▸ hdrawn)
  have hheld (message : String) (other : ExpiringOperator)
      (hlookup : (sessions.auth.challenges.erase exchange.message).lookup message = some other) :
      message ≠ exchange.message ∧ sessions.auth.challenges.lookup message = some other := by
    rw [Table.lookup_erase_eq] at hlookup
    split_ifs at hlookup with hmessage
    exact ⟨hmessage, hlookup⟩
  constructor
  · refine ⟨fun token row hlookup => ?_, List.nodup_cons.mpr ⟨hnew, h.oneGrant⟩,
      List.nodup_cons.mpr ⟨hyielded, h.oneToken⟩, h.oneChallenge, ?_, ?_⟩
    · dsimp only at hlookup
      rw [Table.lookup_insert_eq] at hlookup
      split_ifs at hlookup with htoken
      · cases hlookup
        exact ⟨_, List.mem_cons_self, htoken.symm, rfl⟩
      · obtain ⟨grant, hgrant, hrest⟩ := h.tokens token row hlookup
        exact ⟨grant, List.mem_cons_of_mem _ hgrant, hrest⟩
    · rintro grant (_ | ⟨_, hgrant⟩)
      · refine ⟨challenge.expiresAt, ?_, hnow, hparsed, hverified⟩
        rw [← hkey, ← hscheme]
        exact hissued
      · exact h.granted grant hgrant
    · intro message message' one other hlookup hlookup'
      exact h.oneLive message message' one other (hheld _ _ hlookup).2 (hheld _ _ hlookup').2
  · intro message other hlookup
    obtain ⟨hne, hlookup⟩ := hheld message other hlookup
    obtain ⟨hissued', hyielded'⟩ := h.challenges message other hlookup
    refine ⟨hissued', fun hmem => ?_⟩
    rcases List.mem_cons.mp hmem with heq | hmem
    · exact hne heq
    · exact hyielded' hmem
  · intro entry hentry
    obtain ⟨drawn, hmem, hrest⟩ := h.messages entry hentry
    exact ⟨drawn, List.mem_cons_of_mem _ hmem, hrest⟩
  · rintro grant (_ | ⟨_, hgrant⟩)
    · exact ⟨random, List.mem_cons_self, rfl⟩
    · obtain ⟨drawn, hmem, heq⟩ := h.grantedTokens grant hgrant
      exact ⟨drawn, List.mem_cons_of_mem _ hmem, heq⟩

theorem Kept.consume (h : Kept libraries sessions) (hfresh : random ∉ sessions.drawn) {exchange : TokenExchange}
    {key : OperatorPublicKey}
    (hparsed : ∃ encoded, parsePublicKey libraries encoded exchange.scheme = .ok (exchange.publicKey, key)) :
    Kept libraries { (sessions.resume libraries random (.exchangingFound exchange key)).1 with
      drawn := random :: sessions.drawn } := by
  unfold resume
  dsimp only
  cases hverified : verifySignature libraries key exchange.message exchange.signature with
  | error error => exact h.fewer (.refl _) rfl rfl (List.subset_cons_self _ _)
  | ok _ =>
    dsimp only
    cases hconsumed : consumeChallenge exchange.publicKey exchange.scheme exchange.message exchange.now
        (OperatorWrite.hexText random) sessions.auth with
    | mk auth result =>
      cases result with
      | error error => exact h.fewer (consumeChallenge_error hconsumed) rfl rfl (List.subset_cons_self _ _)
      | ok access =>
        obtain ⟨challenge, hchallenge, hkey, hscheme, hnow, rfl, rfl⟩ := consumeChallenge_ok hconsumed
        exact h.addGrant hfresh hparsed hverified hchallenge hkey hscheme hnow _

/-- One section of a call. -/
theorem Kept.resume (h : Kept libraries sessions) (hcall : CallKept libraries sessions.granted call)
    (hlength : random.length = 32) (hfresh : random ∉ sessions.drawn) :
    Kept libraries { (sessions.resume libraries random call).1 with drawn := random :: sessions.drawn } ∧
      sessions.granted ⊆ (sessions.resume libraries random call).1.granted ∧
      ∀ next, (sessions.resume libraries random call).2 = .inl next →
        CallKept libraries (sessions.resume libraries random call).1.granted next := by
  have hsame : Kept libraries { sessions with drawn := random :: sessions.drawn } :=
    h.fewer (.refl _) rfl rfl (List.subset_cons_self _ _)
  have hclean (now : ℕ) : Kept libraries { sessions with
      auth := cleanup now sessions.auth, drawn := random :: sessions.drawn } :=
    h.fewer fewer_cleanup rfl rfl (List.subset_cons_self _ _)
  cases call with
  | issuing publicKey scheme now =>
    cases hkey : operatorKey libraries sessions.operators publicKey scheme with
    | error error =>
      simp only [Sessions.resume, hkey]
      exact ⟨hsame, List.Subset.refl _, by rintro next ⟨⟩⟩
    | ok parsed =>
      simp only [Sessions.resume, hkey]
      refine ⟨hsame, List.Subset.refl _, ?_⟩
      rintro next ⟨⟩
      trivial
  | issuingAs publicKey scheme now =>
    exact ⟨h.issue hlength hfresh, List.Subset.refl _, by rintro next ⟨⟩⟩
  | exchanging exchange =>
    cases hkey : operatorKey libraries sessions.operators exchange.publicKey exchange.scheme with
    | error error =>
      simp only [Sessions.resume, hkey]
      exact ⟨hsame, List.Subset.refl _, by rintro next ⟨⟩⟩
    | ok parsed =>
      simp only [Sessions.resume, hkey]
      refine ⟨hsame, List.Subset.refl _, ?_⟩
      rintro next ⟨⟩
      exact ⟨exchange.publicKey, (operatorKey_ok hkey).1⟩
  | exchangingAs exchange key =>
    have hfst := @lookUpChallenge_fst exchange.publicKey exchange.scheme exchange.message exchange.now sessions.auth
    cases hlookup : lookUpChallenge exchange.publicKey exchange.scheme exchange.message exchange.now sessions.auth with
    | mk auth result =>
      rw [hlookup] at hfst
      subst hfst
      cases result with
      | error error =>
        simp only [Sessions.resume, hlookup]
        exact ⟨hclean _, List.Subset.refl _, by rintro next ⟨⟩⟩
      | ok _ =>
        simp only [Sessions.resume, hlookup]
        refine ⟨hclean _, List.Subset.refl _, ?_⟩
        rintro next ⟨⟩
        exact hcall
  | exchangingFound exchange key =>
    have hkept := h.consume hfresh hcall
    cases hverified : verifySignature libraries key exchange.message exchange.signature with
    | error error =>
      refine ⟨hkept, ?_⟩
      simp only [Sessions.resume, hverified]
      exact ⟨List.Subset.refl _, by rintro next ⟨⟩⟩
    | ok _ =>
      refine ⟨hkept, ?_⟩
      cases hconsumed : consumeChallenge exchange.publicKey exchange.scheme exchange.message exchange.now
          (OperatorWrite.hexText random) sessions.auth with
      | mk auth result =>
        cases result with
        | error error =>
          simp only [Sessions.resume, hverified, hconsumed]
          exact ⟨List.Subset.refl _, by rintro next ⟨⟩⟩
        | ok access =>
          simp only [Sessions.resume, hverified, hconsumed]
          exact ⟨List.subset_cons_self _ _, by rintro next ⟨⟩⟩
  | authenticating token now =>
    have hfst := @lookUpToken_fst token now sessions.auth
    cases hlookup : lookUpToken now token sessions.auth with
    | mk auth result =>
      rw [hlookup] at hfst
      subst hfst
      cases result with
      | error error =>
        simp only [Sessions.resume, hlookup]
        exact ⟨hclean _, List.Subset.refl _, by rintro next ⟨⟩⟩
      | ok found =>
        simp only [Sessions.resume, hlookup]
        refine ⟨hclean _, List.Subset.refl _, ?_⟩
        rintro next ⟨⟩
        obtain ⟨row, hrow, hlive, hkey, hscheme⟩ := lookUpToken_ok hlookup
        obtain ⟨grant, hgrant, htoken, rfl⟩ := h.tokens token row hrow
        exact ⟨grant, hgrant, htoken, hkey, hscheme, hlive⟩
  | authenticatingAs token publicKey scheme now =>
    cases hkey : operatorKey libraries sessions.operators publicKey scheme with
    | error error =>
      simp only [Sessions.resume, hkey]
      exact ⟨hsame, List.Subset.refl _, by rintro next ⟨⟩⟩
    | ok parsed =>
      simp only [Sessions.resume, hkey]
      exact ⟨hsame, List.Subset.refl _, by rintro next ⟨⟩⟩

/-- One event. -/
theorem Kept.step (h : Kept libraries sessions) (hcalls : ∀ call ∈ sessions.calls, CallKept libraries sessions.granted call)
    {event : SessionEvent} (hallowed : sessions.Allowed event) :
    Kept libraries (sessions.step libraries event) ∧
      ∀ call ∈ (sessions.step libraries event).calls, CallKept libraries (sessions.step libraries event).granted call := by
  cases event with
  | clock now => exact ⟨h.fewer (.refl _) rfl rfl (List.Subset.refl _), hcalls⟩
  | operator key present => exact ⟨h.fewer (.refl _) rfl rfl (List.Subset.refl _), hcalls⟩
  | begin request =>
    refine ⟨h.fewer (.refl _) rfl rfl (List.Subset.refl _), fun call hcall => ?_⟩
    rcases List.mem_append.mp hcall with hcall | hcall
    · exact hcalls call hcall
    · obtain rfl := List.mem_singleton.mp hcall
      cases request <;> trivial
  | resume index random =>
    unfold Sessions.step
    dsimp only
    cases hindex : sessions.calls[index]? with
    | none => exact ⟨h, hcalls⟩
    | some call =>
      obtain ⟨hkept, hgranted, hnext⟩ := h.resume (hcalls call (List.mem_of_getElem? hindex)) hallowed.1 hallowed.2
      dsimp only
      cases hresumed : sessions.resume libraries random call with
      | mk resumed outcome =>
        rw [hresumed] at hkept hgranted hnext
        cases outcome with
        | inl next =>
          refine ⟨hkept.fewer (.refl _) rfl rfl (List.Subset.refl _), fun other hother => ?_⟩
          rcases List.mem_or_eq_of_mem_set hother with hother | rfl
          · exact (hcalls other hother).mono hgranted
          · exact hnext other rfl
        | inr answer =>
          refine ⟨hkept.fewer (.refl _) rfl rfl (List.Subset.refl _), fun other hother => ?_⟩
          exact (hcalls other (List.mem_of_mem_eraseIdx hother)).mono hgranted
  | drop index =>
    refine ⟨h.fewer (.refl _) rfl rfl (List.Subset.refl _), fun call hcall => ?_⟩
    exact hcalls call (List.mem_of_mem_eraseIdx hcall)
  | write call => exact ⟨h.fewer fewer_write rfl rfl (List.Subset.refl _), hcalls⟩

theorem kept_started (now : ℕ) (operators : OperatorPublicKey → Bool) :
    Kept libraries (started now operators) := by
  constructor
  · constructor <;> simp [started]
  · simp [started]
  · simp [started]
  · simp [started]

theorem kept_of_run {now : ℕ} {operators : OperatorPublicKey → Bool} {events : List SessionEvent}
    (h : EachStep (step libraries) Allowed (started now operators) events) :
    Kept libraries (events.foldl (step libraries) (started now operators)) ∧
      ∀ call ∈ (events.foldl (step libraries) (started now operators)).calls,
        CallKept libraries (events.foldl (step libraries) (started now operators)).granted call := by
  have hstep (sessions : Sessions) (event : SessionEvent) (hkept : Kept libraries sessions ∧
      ∀ call ∈ sessions.calls, CallKept libraries sessions.granted call) (hallowed : sessions.Allowed event) :
      (Kept libraries (sessions.step libraries event) ∧ ∀ call ∈ (sessions.step libraries event).calls,
        CallKept libraries (sessions.step libraries event).granted call) ∧ True :=
    ⟨hkept.1.step hkept.2 hallowed, trivial⟩
  exact (EachStep.run hstep ⟨kept_started now operators, by simp [started]⟩ h).1

end Kept

section Sessions

variable {libraries : AuthLibraries} {sessions : Sessions}

/-- Only a token's last section answers with an operator, once its key is found to be one. -/
theorem answers_operator {call : SessionCall} {random : List UInt8} {publicKey : String}
    (h : (sessions.resume libraries random call).2 = .inr (.ok (.operator publicKey))) :
    ∃ token scheme now parsed, call = .authenticatingAs token publicKey scheme now ∧
      operatorKey libraries sessions.operators publicKey scheme = .ok parsed := by
  cases call with
  | issuing publicKey scheme now =>
    simp only [Sessions.resume] at h
    split at h <;> cases h
  | issuingAs publicKey scheme now =>
    simp only [Sessions.resume] at h
    cases h
  | exchanging exchange =>
    simp only [Sessions.resume] at h
    split at h <;> cases h
  | exchangingAs exchange key =>
    simp only [Sessions.resume] at h
    split at h <;> cases h
  | exchangingFound exchange key =>
    simp only [Sessions.resume] at h
    split at h
    · cases h
    · split at h <;> cases h
  | authenticating token now =>
    simp only [Sessions.resume] at h
    split at h <;> cases h
  | authenticatingAs token key scheme now =>
    cases hkey : operatorKey libraries sessions.operators key scheme with
    | error error =>
      simp only [Sessions.resume, hkey] at h
      cases h
    | ok parsed =>
      simp only [Sessions.resume, hkey] at h
      cases h
      exact ⟨token, scheme, now, parsed, rfl, hkey⟩

/-- In every state of a run: what holds of challenges, grants and tokens; and a call that answers with an operator was
of a token that was granted to that key, read the time before the token expired, and finds the key to be an operator's
when it answers. -/
theorem operator_sessions_sound {now : ℕ} {operators : OperatorPublicKey → Bool} {events : List SessionEvent}
    (hrun : EachStep (step libraries) Allowed (started now operators) events)
    (hsessions : sessions = events.foldl (step libraries) (started now operators)) :
    Sound libraries sessions ∧ ∀ call ∈ sessions.calls, ∀ random publicKey,
      (sessions.resume libraries random call).2 = .inr (.ok (.operator publicKey)) →
      ∃ grant ∈ sessions.granted, ∃ now, call = .authenticatingAs grant.token publicKey grant.exchange.scheme now ∧
        grant.exchange.publicKey = publicKey ∧ now < grant.expiresAt ∧
        ∃ encoded key, parsePublicKey libraries publicKey grant.exchange.scheme = .ok (encoded, key) ∧
          sessions.operators key = true := by
  subst hsessions
  obtain ⟨hkept, hcalls⟩ := kept_of_run hrun
  refine ⟨hkept.toSound, fun call hcall random publicKey hanswer => ?_⟩
  obtain ⟨token, scheme, now, parsed, rfl, hkey⟩ := answers_operator hanswer
  obtain ⟨grant, hgrant, rfl, rfl, rfl, hlive⟩ := hcalls _ hcall
  obtain ⟨hparsed, hoperator⟩ := operatorKey_ok hkey
  exact ⟨grant, hgrant, now, rfl, rfl, hlive, parsed.1, parsed.2, hparsed, hoperator⟩

/-- Two exchanges of one challenge side by side, and the use of the token that the first of them obtains. -/
def twoExchanges : List SessionEvent :=
  let random (byte : UInt8) := List.replicate 32 byte
  let message := challengeMessage .bip322V1 "aa" (OperatorWrite.hexText (random 1))
  [.begin (.challenge "aa" .bip322V1), .resume 0 (random 0), .resume 0 (random 1),
    .begin (.exchange "aa" message "" .bip322V1), .begin (.exchange "aa" message "" .bip322V1),
    .resume 0 (random 2), .resume 1 (random 3), .resume 0 (random 4), .resume 1 (random 5),
    .clock 1010, .resume 0 (random 6), .resume 0 (random 7),
    .begin (.use (OperatorWrite.hexText (random 6))), .resume 0 (random 8)]

theorem operator_sessions_sound_twoExchanges :
    Sound OperatorAuth.exampleLibraries
      (twoExchanges.foldl (step OperatorAuth.exampleLibraries) (started 1000 fun _ => true)) ∧
    ∃ grant ∈ (twoExchanges.foldl (step OperatorAuth.exampleLibraries) (started 1000 fun _ => true)).granted,
      grant.exchange.publicKey = "aa" ∧ 1010 < grant.expiresAt := by
  obtain ⟨hsound, hanswers⟩ := operator_sessions_sound
    (show EachStep (step OperatorAuth.exampleLibraries) Allowed (started 1000 fun _ => true) twoExchanges by
      decide +kernel) rfl
  refine ⟨hsound, ?_⟩
  obtain ⟨grant, hgrant, now, hcall, hkey, hlive, -⟩ := hanswers
    (.authenticatingAs (OperatorWrite.hexText (List.replicate 32 6)) "aa" .bip322V1 1010) (by decide +kernel) [] "aa"
    (by decide +kernel)
  obtain ⟨-, -, -, rfl⟩ := SessionCall.authenticatingAs.inj hcall
  exact ⟨grant, hgrant, hkey, hlive⟩

end Sessions

end Sessions

end PriceOracle
