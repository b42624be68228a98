import PriceOracle.Runs
import PriceOracle.Table
import PriceOracle.WriteMessages

/-!
# Signed operator writes

`external_api/operators/auth.rs`: a signed write is accepted inside a window around the clock, once
for each nonce. The key formats, the signatures and the JSON parser of the libraries are parameters.
-/

namespace PriceOracle

inductive AuthError where
  | invalidPublicKey
  | unauthorized
  | invalidSignature
  | invalidTimestamp
  | invalidNonce
  | replayedNonce
  | store
  /-- The `expect` of `write_message`, a panic. -/
  | payloadNotJson
  deriving DecidableEq

inductive OperatorPublicKey where
  | xOnly (key : List UInt8)
  | compressed (key : List UInt8)
  deriving DecidableEq

/-- What the service uses of `secp256k1`, `bip322`, `bitcoin` and `serde_json`, for its network. -/
structure AuthLibraries where
  /-- `from_slice` and `serialize` of each kind of key. -/
  xOnlyKey : List UInt8 → Option (List UInt8)
  compressedKey : List UInt8 → Option (List UInt8)
  /-- `verify_simple_encoded` for the taproot address of a key. -/
  verifySimpleEncoded : List UInt8 → String → String → Bool
  /-- The serialized key that a compact signature with its recovery id recovers for a signed message. -/
  recoverKey : List UInt8 → UInt8 → String → Option (List UInt8)
  fromSlice : List UInt8 → Option JsonValue

structure ExpiringOperator where
  publicKey : String
  signatureScheme : SignatureScheme
  expiresAt : ℕ
  deriving DecidableEq

/-- Under which a nonce is remembered. -/
abbrev NonceKey := String × SignatureScheme × String

structure AuthState where
  challenges : Table String ExpiringOperator
  tokens : Table String ExpiringOperator
  nonces : Table NonceKey ℕ

/-- One call of `verify_write_for_scheme_at`, with what the operator table answers then. -/
structure WriteCall where
  publicKey : String
  write : OperatorWrite
  signature : String
  now : ℕ
  containsOperator : OperatorPublicKey → Except AuthError Bool

namespace OperatorAuth

/-- `WRITE_WINDOW`, in seconds. -/
def writeWindow : ℕ := 5 * 60

def maxU64 : ℕ := 2 ^ 64 - 1

def saturatingAdd (a b : ℕ) : ℕ := min (a + b) maxU64

def absDiff (a b : ℕ) : ℕ := max a b - min a b

def cleanup (now : ℕ) (state : AuthState) : AuthState where
  challenges := state.challenges.filterRows fun _ value => now < value.expiresAt
  tokens := state.tokens.filterRows fun _ value => now < value.expiresAt
  nonces := state.nonces.filterRows fun _ expiresAt => now < expiresAt

section Verification

variable (libraries : AuthLibraries)

/-- The key in its one encoding, and as bytes. -/
def parsePublicKey (encoded : String) (scheme : SignatureScheme) : Except AuthError (String × OperatorPublicKey) :=
  match UserApi.hexDecode encoded.toList with
  | none => .error .invalidPublicKey
  | some bytes =>
    match scheme with
    | .bip322V1 =>
      match libraries.xOnlyKey bytes with
      | none => .error .invalidPublicKey
      | some bytes => .ok (OperatorWrite.hexText bytes, .xOnly bytes)
    | .humidEcdsaV1 =>
      match libraries.compressedKey bytes with
      | none => .error .invalidPublicKey
      | some bytes => .ok (OperatorWrite.hexText bytes, .compressed bytes)

def requireOperator (call : WriteCall) (publicKey : OperatorPublicKey) : Except AuthError Unit := do
  let authorized ← call.containsOperator publicKey
  if authorized then return () else throw .unauthorized

def verifySignature (publicKey : OperatorPublicKey) (message signature : String) : Except AuthError Unit :=
  match publicKey with
  | .xOnly key =>
    match libraries.xOnlyKey key with
    | none => .error .invalidPublicKey
    | some key => if libraries.verifySimpleEncoded key message signature then .ok () else .error .invalidSignature
  | .compressed expected =>
    match UserApi.hexDecode signature.toList with
    | none => .error .invalidSignature
    | some bytes =>
      if bytes.length ≠ 65 then .error .invalidSignature
      else
        match libraries.recoverKey (bytes.take 64) (bytes.getD 64 0) message with
        | none => .error .invalidSignature
        | some recovered => if recovered = expected then .ok () else .error .invalidSignature

/-- The checks before the nonce: the key in its one encoding. -/
def verifyCall (call : WriteCall) : Except AuthError String :=
  if absDiff call.write.timestamp call.now > writeWindow then .error .invalidTimestamp
  else if call.write.nonce.utf8ByteSize = 0 ∨ call.write.nonce.utf8ByteSize > 128 then .error .invalidNonce
  else do
    let (publicKey, parsedKey) ← parsePublicKey libraries call.publicKey call.write.scheme
    requireOperator call parsedKey
    match call.write.writeMessage libraries.fromSlice with
    | none => throw .payloadNotJson
    | some message => do
      verifySignature libraries parsedKey message call.signature
      return publicKey

def nonceExpiresAt (write : OperatorWrite) : ℕ := saturatingAdd (saturatingAdd write.timestamp writeWindow) 1

def nonceKey (publicKey : String) (write : OperatorWrite) : NonceKey := (publicKey, write.scheme, write.nonce)

/-- The table of nonces, under its lock: the new expiry takes the place of an older one. -/
def useNonce (publicKey : String) (call : WriteCall) (state : AuthState) : AuthState × Except AuthError String :=
  let state := cleanup call.now state
  let key := nonceKey publicKey call.write
  let next := { state with nonces := state.nonces.insert key (nonceExpiresAt call.write) }
  (next, if (state.nonces.lookup key).isSome then .error .replayedNonce else .ok publicKey)

def verifyWriteForSchemeAt (call : WriteCall) (state : AuthState) : AuthState × Except AuthError String :=
  match verifyCall libraries call with
  | .error error => (state, .error error)
  | .ok publicKey => useNonce publicKey call state

end Verification

section Nonces

open Runs

variable (libraries : AuthLibraries)

def step (state : AuthState) (call : WriteCall) : AuthState := (verifyWriteForSchemeAt libraries call state).1

def Accepts (state : AuthState) (call : WriteCall) (publicKey : String) : Prop :=
  (verifyWriteForSchemeAt libraries call state).2 = .ok publicKey

/-- No write of a key is accepted in two calls. -/
def AcceptsOnce (state : AuthState) (calls : List WriteCall) : Prop :=
  ∀ before first middle second after publicKey, calls = before ++ first :: (middle ++ second :: after) →
    Accepts libraries (before.foldl (step libraries) state) first publicKey →
    Accepts libraries ((before ++ first :: middle).foldl (step libraries) state) second publicKey →
    first.write ≠ second.write

/-- A rejected call leaves every nonce that it finds remembered for at least as long. -/
def NeverShortens (state : AuthState) (call : WriteCall) : Prop :=
  ∀ error, (verifyWriteForSchemeAt libraries call state).2 = .error error →
    ∀ key expiresAt, state.nonces.lookup key = some expiresAt → call.now < expiresAt →
      ∃ expiresAt', (step libraries state call).nonces.lookup key = some expiresAt' ∧ expiresAt ≤ expiresAt'

/-- A write that reaches the table does not reuse a nonce that is remembered for longer than its own would be. -/
def Keeps (state : AuthState) (call : WriteCall) : Prop :=
  ∀ publicKey, verifyCall libraries call = .ok publicKey →
    ∀ expiresAt, state.nonces.lookup (nonceKey publicKey call.write) = some expiresAt → call.now < expiresAt →
      expiresAt ≤ nonceExpiresAt call.write

variable {libraries} {state : AuthState} {call : WriteCall} {publicKey : String}

theorem lookup_cleanup (now : ℕ) (state : AuthState) (key : NonceKey) :
    (cleanup now state).nonces.lookup key = (state.nonces.lookup key).filter fun expiresAt => now < expiresAt :=
  Table.lookup_filterRows _ _ _

theorem step_of_rejected {error : AuthError} (h : verifyCall libraries call = .error error) :
    verifyWriteForSchemeAt libraries call state = (state, .error error) := by
  unfold verifyWriteForSchemeAt
  rw [h]

theorem verifyWrite_of_ok (h : verifyCall libraries call = .ok publicKey) :
    verifyWriteForSchemeAt libraries call state = useNonce publicKey call state := by
  unfold verifyWriteForSchemeAt
  rw [h]

theorem lookup_useNonce (key : NonceKey) :
    (useNonce publicKey call state).1.nonces.lookup key = if key = nonceKey publicKey call.write then
      some (nonceExpiresAt call.write) else (state.nonces.lookup key).filter fun expiresAt => call.now < expiresAt := by
  rw [← lookup_cleanup]
  exact Table.lookup_insert_eq _ _ _ _

theorem useNonce_ok {accepted : String} : (useNonce publicKey call state).2 = .ok accepted ↔
    accepted = publicKey ∧ ∀ expiresAt, state.nonces.lookup (nonceKey publicKey call.write) = some expiresAt →
      expiresAt ≤ call.now := by
  unfold useNonce
  dsimp only
  rw [lookup_cleanup]
  cases hlookup : state.nonces.lookup (nonceKey publicKey call.write) with
  | none => simp [eq_comm]
  | some expiresAt =>
    by_cases hlive : call.now < expiresAt
    · simp [hlive]
    · simp [hlive, Nat.le_of_not_lt hlive, eq_comm]

/-- What an accepted call has passed and leaves behind. -/
theorem accepts_iff : Accepts libraries state call publicKey ↔ verifyCall libraries call = .ok publicKey ∧
    ∀ expiresAt, state.nonces.lookup (nonceKey publicKey call.write) = some expiresAt → expiresAt ≤ call.now := by
  unfold Accepts
  cases hcall : verifyCall libraries call with
  | error error =>
    rw [step_of_rejected hcall]
    simp
  | ok parsed =>
    rw [verifyWrite_of_ok hcall, useNonce_ok]
    constructor
    · rintro ⟨rfl, h⟩
      exact ⟨rfl, h⟩
    · rintro ⟨hparsed, h⟩
      cases hparsed
      exact ⟨rfl, h⟩

theorem timestamp_of_ok (h : verifyCall libraries call = .ok publicKey) :
    absDiff call.write.timestamp call.now ≤ writeWindow := by
  unfold verifyCall at h
  by_contra hwindow
  rw [if_pos (Nat.lt_of_not_le hwindow)] at h
  cases h

/-- A rejected call shortens no nonce exactly where it brings no earlier expiry for a live one. -/
theorem neverShortens_iff : NeverShortens libraries state call ↔ Keeps libraries state call := by
  unfold NeverShortens Keeps
  cases hcall : verifyCall libraries call with
  | error error =>
    have hstep : step libraries state call = state := by rw [step, step_of_rejected hcall]
    rw [hstep]
    constructor
    · intro _ publicKey hok
      cases hok
    · exact fun _ _ _ _ expiresAt hlookup _ => ⟨expiresAt, hlookup, le_rfl⟩
  | ok publicKey =>
    have hstep : step libraries state call = (useNonce publicKey call state).1 := by rw [step, verifyWrite_of_ok hcall]
    rw [hstep, verifyWrite_of_ok hcall]
    constructor
    · rintro h _ ⟨⟩ expiresAt hlookup hlive
      have hrejected : (useNonce publicKey call state).2 = .error .replayedNonce := by
        cases houtcome : (useNonce publicKey call state).2 with
        | ok accepted => exact absurd ((useNonce_ok.mp houtcome).2 expiresAt hlookup) (Nat.not_le.mpr hlive)
        | error error =>
          unfold useNonce at houtcome
          dsimp only at houtcome
          split_ifs at houtcome
          exact houtcome.symm
      obtain ⟨expiresAt', hlookup', hle⟩ := h _ hrejected _ expiresAt hlookup hlive
      rw [lookup_useNonce, if_pos rfl] at hlookup'
      cases hlookup'
      exact hle
    · intro h error _ key expiresAt hlookup hlive
      rw [lookup_useNonce]
      by_cases hkey : key = nonceKey publicKey call.write
      · subst hkey
        exact ⟨_, if_pos rfl, h publicKey rfl expiresAt hlookup hlive⟩
      · refine ⟨expiresAt, ?_, le_rfl⟩
        rw [if_neg hkey, hlookup, Option.filter_some, if_pos (decide_eq_true hlive)]

/-- The nonce is remembered at least so long. -/
def Remembers (key : NonceKey) (bound : ℕ) (state : AuthState) : Prop :=
  ∃ expiresAt, state.nonces.lookup key = some expiresAt ∧ bound ≤ expiresAt

theorem remembers_step {key : NonceKey} {bound : ℕ} (h : Remembers key bound state) (hkeeps : Keeps libraries state call)
    (hnow : call.now < bound) : Remembers key bound (step libraries state call) := by
  obtain ⟨expiresAt, hlookup, hle⟩ := h
  have hlive : call.now < expiresAt := Nat.lt_of_lt_of_le hnow hle
  cases hcall : verifyCall libraries call with
  | error error =>
    rw [step, step_of_rejected hcall]
    exact ⟨expiresAt, hlookup, hle⟩
  | ok publicKey =>
    rw [step, verifyWrite_of_ok hcall]
    by_cases hkey : key = nonceKey publicKey call.write
    · subst hkey
      refine ⟨nonceExpiresAt call.write, ?_, hle.trans (hkeeps publicKey hcall expiresAt hlookup hlive)⟩
      rw [lookup_useNonce, if_pos rfl]
    · refine ⟨expiresAt, ?_, hle⟩
      rw [lookup_useNonce, if_neg hkey, hlookup, Option.filter_some, if_pos (decide_eq_true hlive)]

theorem remembers_run {key : NonceKey} {bound : ℕ} {calls : List WriteCall} (h : Remembers key bound state)
    (hkeeps : EachStep (step libraries) (Keeps libraries) state calls) (hnow : ∀ call ∈ calls, call.now < bound) :
    Remembers key bound (calls.foldl (step libraries) state) := by
  have hearly : EachStep (step libraries) (fun _ call => call.now < bound) state calls := EachStep.of_forall hnow
  have hboth := hkeeps.and hearly
  exact (EachStep.run (P := fun _ _ => True) (fun s call hs hc => ⟨remembers_step hs hc.1 hc.2, trivial⟩) h hboth).1

theorem remembers_of_accepts (h : Accepts libraries state call publicKey) :
    Remembers (nonceKey publicKey call.write) (nonceExpiresAt call.write) (step libraries state call) := by
  refine ⟨nonceExpiresAt call.write, ?_, le_rfl⟩
  rw [step, verifyWrite_of_ok (accepts_iff.mp h).1, lookup_useNonce, if_pos rfl]

/-- A write in its window has not expired, before the clock's last second. -/
theorem now_lt_nonceExpiresAt (hwindow : absDiff call.write.timestamp call.now ≤ writeWindow) (hclock : call.now < maxU64) :
    call.now < nonceExpiresAt call.write := by
  unfold nonceExpiresAt saturatingAdd
  unfold absDiff at hwindow
  unfold maxU64 at hclock ⊢
  omega

/-- Nonces that no call shortens admit each write once. -/
theorem acceptsOnce_of_keeps {calls : List WriteCall} (hclock : calls.Pairwise fun call call' => call.now ≤ call'.now)
    (hmax : ∀ call ∈ calls, call.now < maxU64) (hkeeps : EachStep (step libraries) (Keeps libraries) state calls) :
    AcceptsOnce libraries state calls := by
  rintro before first middle second after publicKey rfl hfirst hsecond hsame
  obtain ⟨hverified, hexpired⟩ := accepts_iff.mp hsecond
  have hlive : second.now < nonceExpiresAt second.write :=
    now_lt_nonceExpiresAt (timestamp_of_ok hverified) (hmax second (by simp))
  have hsorted := (List.pairwise_cons.mp (List.pairwise_append.mp hclock).2.1).2
  have hmiddle : ∀ call ∈ middle, call.now < nonceExpiresAt second.write := fun call hcall =>
    Nat.lt_of_le_of_lt ((List.pairwise_append.mp hsorted).2.2 call hcall second List.mem_cons_self) hlive
  obtain ⟨-, hfrom⟩ := EachStep.append.mp hkeeps
  obtain ⟨hrun, -⟩ := EachStep.append.mp hfrom.2
  have hremembers := remembers_of_accepts hfirst
  rw [hsame] at hremembers
  obtain ⟨expiresAt, hlookup, hle⟩ := remembers_run hremembers hrun hmiddle
  rw [List.foldl_append, List.foldl_cons] at hexpired
  have hpast := hexpired expiresAt hlookup
  omega

end Nonces

/-- A method in upper case, and no line break in the method or in the path. -/
structure Plain (write : OperatorWrite) : Prop where
  method : OperatorWrite.toAsciiUppercase write.method = write.method
  methodLine : '\n' ∉ write.method.toList
  pathLine : '\n' ∉ write.path.toList

/-- Only a call that brings a remembered nonce an earlier expiry shortens one; in a run without such a call every
write is accepted once. Plain writes with one message are the same, but for payloads of one digest. -/
theorem signed_writes_accepted_once {libraries : AuthLibraries} {state : AuthState} {calls : List WriteCall}
    (hclock : calls.Pairwise fun call call' => call.now ≤ call'.now) :
    (Runs.EachStep (step libraries) (NeverShortens libraries) state calls ↔
      Runs.EachStep (step libraries) (Keeps libraries) state calls) ∧
    ((∀ call ∈ calls, call.now < maxU64) → Runs.EachStep (step libraries) (Keeps libraries) state calls →
      AcceptsOnce libraries state calls) ∧
    ∀ write write' text, Plain write → Plain write' → write.writeMessage libraries.fromSlice = some text →
      write'.writeMessage libraries.fromSlice = some text →
      (Sha256.digest write.payload = Sha256.digest write'.payload → write.payload = write'.payload) → write = write' := by
  refine ⟨?_, fun hmax hkeeps => acceptsOnce_of_keeps hclock hmax hkeeps, ?_⟩
  · exact Runs.EachStep.iff_of_invariant (I := fun _ => True) (fun _ _ _ => neverShortens_iff) (fun _ _ _ _ => trivial) trivial
  · intro write write' text hplain hplain' htext htext' hcollision
    obtain ⟨hscheme, hmethod, hpath, htimestamp, hnonce, hdigest⟩ := OperatorWrite.writeMessage_inj htext htext'
      hplain.methodLine hplain'.methodLine hplain.pathLine hplain'.pathLine
    rw [hplain.method, hplain'.method] at hmethod
    have hpayload := hcollision hdigest
    cases write
    cases write'
    simp_all

section Examples

/-- Libraries that take any key and any signature, and the empty object. -/
def exampleLibraries : AuthLibraries where
  xOnlyKey := some
  compressedKey := some
  verifySimpleEncoded _ _ _ := true
  recoverKey _ _ _ := none
  fromSlice payload := if payload = [0x7b, 0x7d] then some (.object []) else none

def exampleCall (timestamp now : ℕ) : WriteCall where
  publicKey := "aa"
  write := ⟨.bip322V1, "POST", "/operators/voting", timestamp, "nonce", [0x7b, 0x7d]⟩
  signature := ""
  now := now
  containsOperator _ := .ok true

theorem verifyCall_exampleCall {timestamp now : ℕ} (h : absDiff timestamp now ≤ writeWindow) :
    verifyCall exampleLibraries (exampleCall timestamp now) = .ok "aa" := by
  have hwindow : ¬absDiff (exampleCall timestamp now).write.timestamp (exampleCall timestamp now).now > writeWindow :=
    Nat.not_lt.mpr h
  have hkey : OperatorWrite.hexText [0xaa] = "aa" := by decide
  have hparsed : parsePublicKey exampleLibraries "aa" .bip322V1 = .ok ("aa", .xOnly [0xaa]) := by
    rw [← hkey]
    rfl
  have hnonce : ¬("nonce".utf8ByteSize = 0 ∨ "nonce".utf8ByteSize > 128) := by decide
  unfold verifyCall
  rw [if_neg hwindow, show (exampleCall timestamp now).write.nonce = "nonce" from rfl, if_neg hnonce]
  rw [show (exampleCall timestamp now).publicKey = "aa" from rfl,
    show (exampleCall timestamp now).write.scheme = .bip322V1 from rfl, hparsed]
  rfl

def emptyState : AuthState := ⟨∅, ∅, ∅⟩

theorem accepts_exampleCall (state : AuthState) {timestamp now : ℕ} (h : absDiff timestamp now ≤ writeWindow) :
    Accepts exampleLibraries state (exampleCall timestamp now) "aa" ↔ ∀ expiresAt,
      state.nonces.lookup ("aa", .bip322V1, "nonce") = some expiresAt → expiresAt ≤ now := by
  rw [accepts_iff, verifyCall_exampleCall h]
  exact ⟨fun hboth => hboth.2, fun hexpired => ⟨rfl, hexpired⟩⟩

theorem lookup_exampleCall (state : AuthState) {timestamp now : ℕ} (h : absDiff timestamp now ≤ writeWindow)
    (hmax : timestamp < 2 ^ 32) : (step exampleLibraries state (exampleCall timestamp now)).nonces.lookup
      ("aa", .bip322V1, "nonce") = some (timestamp + 301) := by
  have hexpires : nonceExpiresAt (exampleCall timestamp now).write = timestamp + 301 := by
    have htimestamp : (exampleCall timestamp now).write.timestamp = timestamp := rfl
    unfold nonceExpiresAt saturatingAdd
    rw [htimestamp, show writeWindow = 300 from rfl, show maxU64 = 2 ^ 64 - 1 from rfl]
    omega
  rw [step, verifyWrite_of_ok (verifyCall_exampleCall h), lookup_useNonce, hexpires]
  exact if_pos rfl

theorem signed_writes_accepted_once_example :
    AcceptsOnce exampleLibraries emptyState [exampleCall 1000 1000, exampleCall 1100 1100] := by
  refine (signed_writes_accepted_once (by decide)).2.1 (by decide) ⟨?_, ?_, trivial⟩
  · intro publicKey _ expiresAt hlookup
    cases hlookup
  · intro publicKey hok expiresAt hlookup _
    rw [verifyCall_exampleCall (by decide)] at hok
    cases hok
    have hremembered := lookup_exampleCall emptyState (show absDiff 1000 1000 ≤ writeWindow by decide) (by decide)
    rw [show nonceKey "aa" (exampleCall 1100 1100).write = ("aa", .bip322V1, "nonce") from rfl, hremembered] at hlookup
    cases hlookup
    decide

/-- The second call reuses the nonce with an earlier timestamp: it is rejected, and the first one passes again. -/
theorem replayed_after_rejected_call :
    [exampleCall 1300 1000, exampleCall 700 1000, exampleCall 1300 1001].Pairwise (fun call call' => call.now ≤ call'.now) ∧
      ¬AcceptsOnce exampleLibraries emptyState [exampleCall 1300 1000, exampleCall 700 1000, exampleCall 1300 1001] := by
  refine ⟨by decide, fun h => ?_⟩
  refine h [] (exampleCall 1300 1000) [exampleCall 700 1000] (exampleCall 1300 1001) [] "aa" rfl ?_ ?_ rfl
  · refine (accepts_exampleCall _ (by decide)).mpr fun expiresAt hlookup => ?_
    cases hlookup
  · refine (accepts_exampleCall _ (by decide)).mpr fun expiresAt hlookup => ?_
    rw [List.nil_append, List.foldl_cons, List.foldl_cons, List.foldl_nil, lookup_exampleCall _ (by decide) (by decide)] at hlookup
    cases hlookup
    decide

end Examples

end OperatorAuth

end PriceOracle
