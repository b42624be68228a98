import PriceOracle.OperatorAuth

/-!
# Operator sessions

`external_api/operators/auth.rs`: an operator asks for a challenge, exchanges its signature for a token
and then uses the token. A call holds the lock of the tables in sections of its own: between them the
operator table is read and other calls run.
-/

namespace PriceOracle

inductive SessionError where
  | auth (error : AuthError)
  | invalidChallenge
  | invalidToken
  deriving DecidableEq

structure Challenge where
  message : String
  expiresAt : ℕ
  signatureScheme : String
  deriving DecidableEq

structure AccessToken where
  token : String
  expiresAt : ℕ
  deriving DecidableEq

namespace OperatorSession

open OperatorAuth

/-- `CHALLENGE_TTL`, in seconds. -/
def challengeTtl : ℕ := 5 * 60

/-- `TOKEN_TTL`, in seconds. -/
def tokenTtl : ℕ := 60 * 60

/-- The sum of two 64-bit numbers, which wraps. -/
def expiry (now ttl : ℕ) : ℕ := (now + ttl) % 2 ^ 64

def challengeMessage (scheme : SignatureScheme) (publicKey nonce : String) : String :=
  match scheme with
  | .bip322V1 => "high-storm:operator-auth:v1\n" ++ publicKey ++ "\n" ++ nonce
  | .humidEcdsaV1 => "high-storm:operator-auth:v2\n" ++ scheme.asStr ++ "\n" ++ publicKey ++ "\n" ++ nonce

/-- `require_operator`, with what the operator table answers. -/
def requireOperator (operators : OperatorPublicKey → Bool) (publicKey : OperatorPublicKey) : Except SessionError Unit :=
  if operators publicKey then .ok () else .error (.auth .unauthorized)

/-- A key that is an operator's, in its one encoding and as bytes. -/
def operatorKey (libraries : AuthLibraries) (operators : OperatorPublicKey → Bool) (encoded : String)
    (scheme : SignatureScheme) : Except SessionError (String × OperatorPublicKey) := do
  let (publicKey, parsedKey) ← (parsePublicKey libraries encoded scheme).mapError .auth
  requireOperator operators parsedKey
  return (publicKey, parsedKey)

section Locked

/-- The challenge that is there for a key and a scheme. -/
def findChallenge (publicKey : String) (scheme : SignatureScheme) (state : AuthState) :
    Option (Sigma fun _ : String => ExpiringOperator) :=
  state.challenges.entries.find? fun row => row.2.publicKey = publicKey ∧ row.2.signatureScheme = scheme

variable (publicKey : String) (scheme : SignatureScheme) (message : String) (now : ℕ)

/-- `issue_challenge_for_scheme_at` under the lock; the new message is the random one of the call. -/
def issueChallenge (state : AuthState) : AuthState × Challenge :=
  let state := cleanup now state
  match findChallenge publicKey scheme state with
  | some row => (state, ⟨row.1, row.2.expiresAt, scheme.asStr⟩)
  | none =>
    let expiresAt := expiry now challengeTtl
    ({ state with challenges := state.challenges.insert message ⟨publicKey, scheme, expiresAt⟩ },
      ⟨message, expiresAt, scheme.asStr⟩)

/-- `exchange_token_for_scheme_at` under the lock for the first time. -/
def lookUpChallenge (state : AuthState) : AuthState × Except SessionError Unit :=
  let state := cleanup now state
  match state.challenges.lookup message with
  | none => (state, .error .invalidChallenge)
  | some challenge =>
    if challenge.publicKey ≠ publicKey ∨ challenge.signatureScheme ≠ scheme then (state, .error .invalidChallenge)
    else (state, .ok ())

/-- And for the second time, when the signature has been verified. -/
def consumeChallenge (token : String) (state : AuthState) : AuthState × Except SessionError AccessToken :=
  match state.challenges.lookup message with
  | none => (state, .error .invalidChallenge)
  | some challenge =>
    let state := { state with challenges := state.challenges.erase message }
    if challenge.publicKey ≠ publicKey ∨ challenge.signatureScheme ≠ scheme ∨ challenge.expiresAt ≤ now then
      (state, .error .invalidChallenge)
    else
      let expiresAt := expiry now tokenTtl
      ({ state with tokens := state.tokens.insert token ⟨publicKey, scheme, expiresAt⟩ }, .ok ⟨token, expiresAt⟩)

/-- `authenticate_token_at` under the lock. -/
def lookUpToken (token : String) (state : AuthState) : AuthState × Except SessionError (String × SignatureScheme) :=
  let state := cleanup now state
  match state.tokens.lookup token with
  | none => (state, .error .invalidToken)
  | some token => (state, .ok (token.publicKey, token.signatureScheme))

end Locked

section Sections

variable {publicKey nonce nonce' : String} {scheme : SignatureScheme} {message token : String} {now : ℕ}
  {state : AuthState}

/-- Nothing was added to the challenges and the tokens. -/
structure Fewer (state next : AuthState) : Prop where
  challenges : ∀ message challenge, next.challenges.lookup message = some challenge →
    state.challenges.lookup message = some challenge
  tokens : ∀ token row, next.tokens.lookup token = some row → state.tokens.lookup token = some row

theorem Fewer.refl (state : AuthState) : Fewer state state := ⟨fun _ _ h => h, fun _ _ h => h⟩

theorem lookup_challenges_cleanup : (cleanup now state).challenges.lookup message =
    (state.challenges.lookup message).filter fun challenge => now < challenge.expiresAt :=
  Table.lookup_filterRows _ _ _

theorem lookup_tokens_cleanup : (cleanup now state).tokens.lookup token =
    (state.tokens.lookup token).filter fun row => now < row.expiresAt :=
  Table.lookup_filterRows _ _ _

theorem fewer_cleanup : Fewer state (cleanup now state) := by
  constructor
  · intro message challenge h
    rw [lookup_challenges_cleanup] at h
    exact (Option.filter_eq_some_iff.mp h).1
  · intro token row h
    rw [lookup_tokens_cleanup] at h
    exact (Option.filter_eq_some_iff.mp h).1

theorem fewer_erase : Fewer state { state with challenges := state.challenges.erase message } := by
  refine ⟨fun other challenge h => ?_, fun _ _ h => h⟩
  rw [Table.lookup_erase_eq] at h
  split_ifs at h
  exact h

/-- A signed write only cleans the challenges and the tokens. -/
theorem fewer_write {libraries : AuthLibraries} {call : WriteCall} :
    Fewer state (verifyWriteForSchemeAt libraries call state).1 := by
  unfold verifyWriteForSchemeAt
  split
  · exact .refl state
  · exact ⟨fewer_cleanup.challenges, fewer_cleanup.tokens⟩

/-- The nonces of equal messages are equal. -/
theorem challengeMessage_nonce {publicKey' : String} {scheme' : SignatureScheme}
    (hlength : nonce.toList.length = nonce'.toList.length)
    (h : challengeMessage scheme publicKey nonce = challengeMessage scheme' publicKey' nonce') : nonce = nonce' := by
  have hends (scheme : SignatureScheme) (publicKey nonce : String) :
      ∃ start : List Char, (challengeMessage scheme publicKey nonce).toList = start ++ nonce.toList := by
    cases scheme <;> exact ⟨_, String.toList_append⟩
  obtain ⟨start, hstart⟩ := hends scheme publicKey nonce
  obtain ⟨start', hstart'⟩ := hends scheme' publicKey' nonce'
  have htext := congrArg String.toList h
  rw [hstart, hstart'] at htext
  exact String.toList_inj.mp (List.append_inj_right' htext hlength)

theorem findChallenge_eq_none (h : findChallenge publicKey scheme state = none) {challenge : ExpiringOperator}
    (hlookup : state.challenges.lookup message = some challenge) :
    ¬(challenge.publicKey = publicKey ∧ challenge.signatureScheme = scheme) := by
  have hrow := List.find?_eq_none.mp h _ (AList.mem_lookup_iff.mp hlookup)
  simpa using hrow

theorem issueChallenge_some {row : Sigma fun _ : String => ExpiringOperator}
    (h : findChallenge publicKey scheme (cleanup now state) = some row) :
    (issueChallenge publicKey scheme message now state).1 = cleanup now state := by
  unfold issueChallenge
  dsimp only
  rw [h]

theorem issueChallenge_none (h : findChallenge publicKey scheme (cleanup now state) = none) :
    issueChallenge publicKey scheme message now state =
      ({ cleanup now state with
          challenges := (cleanup now state).challenges.insert message ⟨publicKey, scheme, expiry now challengeTtl⟩ },
        ⟨message, expiry now challengeTtl, scheme.asStr⟩) := by
  unfold issueChallenge
  dsimp only
  rw [h]

theorem lookUpChallenge_fst : (lookUpChallenge publicKey scheme message now state).1 = cleanup now state := by
  unfold lookUpChallenge
  dsimp only
  split
  · rfl
  · split_ifs <;> rfl

/-- A token is issued for a challenge that is there, of the key and the scheme, and not yet expired. -/
theorem consumeChallenge_ok {next : AuthState} {access : AccessToken}
    (h : consumeChallenge publicKey scheme message now token state = (next, .ok access)) :
    ∃ challenge, state.challenges.lookup message = some challenge ∧ challenge.publicKey = publicKey ∧
      challenge.signatureScheme = scheme ∧ now < challenge.expiresAt ∧ access = ⟨token, expiry now tokenTtl⟩ ∧
      next = { state with
        challenges := state.challenges.erase message
        tokens := state.tokens.insert token ⟨publicKey, scheme, expiry now tokenTtl⟩ } := by
  unfold consumeChallenge at h
  cases hlookup : state.challenges.lookup message with
  | none =>
    rw [hlookup] at h
    cases h
  | some challenge =>
    rw [hlookup] at h
    dsimp only at h
    split_ifs at h with hrefused
    · cases h
    · simp only [not_or, ne_eq, not_not, not_le] at hrefused
      cases h
      exact ⟨challenge, rfl, hrefused.1, hrefused.2.1, hrefused.2.2, rfl, rfl⟩

theorem consumeChallenge_error {next : AuthState} {error : SessionError}
    (h : consumeChallenge publicKey scheme message now token state = (next, .error error)) : Fewer state next := by
  unfold consumeChallenge at h
  split at h
  · cases h
    exact .refl state
  · dsimp only at h
    split_ifs at h
    · cases h
      exact fewer_erase
    · cases h

theorem lookUpToken_fst : (lookUpToken now token state).1 = cleanup now state := by
  unfold lookUpToken
  dsimp only
  split <;> rfl

/-- A token that is found has not expired. -/
theorem lookUpToken_ok {next : AuthState}
    (h : lookUpToken now token state = (next, .ok (publicKey, scheme))) :
    ∃ row, state.tokens.lookup token = some row ∧ now < row.expiresAt ∧ row.publicKey = publicKey ∧
      row.signatureScheme = scheme := by
  unfold lookUpToken at h
  dsimp only at h
  rw [lookup_tokens_cleanup] at h
  cases hlookup : state.tokens.lookup token with
  | none =>
    rw [hlookup] at h
    cases h
  | some row =>
    rw [hlookup, Option.filter_some] at h
    by_cases hlive : now < row.expiresAt
    · rw [if_pos (decide_eq_true hlive)] at h
      cases h
      exact ⟨row, rfl, hlive, rfl, rfl⟩
    · rw [if_neg (by simpa using hlive)] at h
      cases h

/-- The key of an operator was parsed, and is an operator's. -/
theorem operatorKey_ok {libraries : AuthLibraries} {operators : OperatorPublicKey → Bool} {encoded : String}
    {key : OperatorPublicKey} (h : operatorKey libraries operators encoded scheme = .ok (publicKey, key)) :
    parsePublicKey libraries encoded scheme = .ok (publicKey, key) ∧ operators key = true := by
  obtain ⟨⟨parsed, parsedKey⟩, hparsed, h⟩ := Db.except_bind_ok.mp h
  obtain ⟨_, hoperator, h⟩ := Db.except_bind_ok.mp h
  cases h
  refine ⟨?_, ?_⟩
  · cases hresult : parsePublicKey libraries encoded scheme with
    | error error =>
      rw [hresult] at hparsed
      cases hparsed
    | ok result =>
      rw [hresult] at hparsed
      cases hparsed
      rfl
  · unfold requireOperator at hoperator
    split_ifs at hoperator with hmember
    exact hmember

end Sections

end OperatorSession

end PriceOracle
