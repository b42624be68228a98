import PriceOracle.Musig

/-!
# The signing coordinator

`signing.rs`: sessions keyed by request hash, each collecting one batch of
nonces and one batch of shares from every signer of its branch. A call that fails
keeps what it changed before the failure. The state also records the random
draws made and what became of every completion channel.
-/

namespace PriceOracle

namespace Signing

variable {W T : Type} [LinearOrder W] (M : Musig W T)

structure SignerContribution where
  nonces : Option (List M.PublicNonce)
  partialSignatures : Option (List M.PartialSignature)
  partialSignaturesVerified : Bool

structure SigningSession where
  requestor : W
  request : SigningRequest W
  signers : List W
  contributions : Std.ExtTreeMap W (SignerContribution M)
  secretNonces : Option (List (SecretNonce W))
  completion : Option ℕ
  createdAt : ℕ

/-- What leaves the state: uses of secret nonces, and the end of a completion channel,
with the session as it stood. -/
inductive Event where
  | signed (nonce : SecretNonce W)
  | completed (channel : ℕ) (session : SigningSession M) (result : SigningResult W M.Signature)
  | expired (channel : ℕ)
  | dropped (channel : ℕ)

structure SigningState where
  secretKey : M.SecretKey
  localNode : W
  memberTransportKeys : Std.ExtTreeMap W T
  tree : Option (StormTree W)
  sessions : Std.ExtTreeMap W (SigningSession M)
  draws : ℕ
  channels : ℕ
  events : List (Event M)

/-- `SIGNING_SESSION_TIMEOUT`, in seconds. -/
def signingSessionTimeout : ℕ := 60

abbrev Error := SigningError W M.KeyError

variable {M}

def invalidPartialSignature (signer : W) (index : ℕ) : Error M :=
  .invalidMessage ("invalid partial signature from signer " ++ M.hexEncode signer ++
    " for message " ++ toString index)

namespace SigningSession

variable (session : SigningSession M)

def contribution (signer : W) : SignerContribution M :=
  session.contributions[signer]?.getD ⟨none, none, false⟩

def modify (signer : W) (f : SignerContribution M → SignerContribution M) : SigningSession M :=
  { session with contributions := session.contributions.modify signer f }

def noncesReady : Bool := session.contributions.toList.all fun entry => entry.2.nonces.isSome

def partialsReady : Bool :=
  session.contributions.toList.all fun entry => entry.2.partialSignatures.isSome

end SigningSession

namespace SignerContribution

variable (contribution : SignerContribution M)

def setNonces (nonces : List M.PublicNonce) : SignerContribution M :=
  { contribution with nonces := some nonces }

def setPartials (partials : List M.PartialSignature) : SignerContribution M :=
  { contribution with partialSignatures := some partials }

def clearPartials : SignerContribution M := { contribution with partialSignatures := none }

def setVerified (verified : Bool) : SignerContribution M :=
  { contribution with partialSignaturesVerified := verified }

end SignerContribution

section Verification

def keyAggCache (signers : List W) : Except (Error M) M.Cache :=
  if signers.all fun signer => (M.fromByteArray signer).isOk then .ok (M.keyAggCache signers)
  else .error (.invalidMessage "invalid signer public key")

def musigSession (session : SigningSession M) (cache : M.Cache) (index : ℕ) (messageHash : W) :
    Except (Error M) M.Session :=
  match session.signers.mapM fun signer => (session.contribution signer).nonces.bind (·[index]?) with
  | none => .error (.invalidMessage "missing signer nonce")
  | some nonces => .ok (M.newSession cache nonces messageHash)

/-- The loop of `verify_signer_partials`. -/
def verifyFrom (session : SigningSession M) (cache : M.Cache) (signer : W)
    (nonces : List M.PublicNonce) : ℕ → List (M.PartialSignature × W) → Except (Error M) Unit
  | _, [] => .ok ()
  | index, (share, messageHash) :: rest =>
    match musigSession session cache index messageHash with
    | .error e => .error e
    | .ok signing =>
      if nonces[index]?.any fun nonce => M.partialVerify signing cache share nonce signer then
        verifyFrom session cache signer nonces (index + 1) rest
      else .error (invalidPartialSignature signer index)

def verifySignerPartials (session : SigningSession M) (cache : M.Cache) (signer : W)
    (partials : List M.PartialSignature) : Except (Error M) Unit :=
  if (M.fromByteArray signer).isOk then
    match (session.contribution signer).nonces with
    | none => .error (.invalidMessage "missing signer nonce")
    | some nonces =>
      verifyFrom session cache signer nonces 0 (partials.zip session.request.messageHashes)
  else .error (.invalidMessage "invalid signer public key")

/-- The verification loop of `complete_session`: the first bad batch is cleared and ends it. -/
def judge (cache : M.Cache) :
    List W → SigningSession M → SigningSession M × Except (Error M) Unit
  | [], session => (session, .ok ())
  | signer :: signers, session =>
    if (session.contribution signer).partialSignaturesVerified then judge cache signers session
    else
      match (session.contribution signer).partialSignatures with
      | none => judge cache signers session
      | some partials =>
        match verifySignerPartials session cache signer partials with
        | .error e => (session.modify signer (·.clearPartials), .error e)
        | .ok _ => judge cache signers (session.modify signer (·.setVerified true))

/-- The shares of every signer for one message, in branch order. -/
def sharesAt (session : SigningSession M) (index : ℕ) : List M.PartialSignature :=
  session.signers.filterMap fun signer =>
    (session.contribution signer).partialSignatures.bind (·[index]?)

/-- The aggregation loop of `complete_session`. -/
def aggregateFrom (session : SigningSession M) (cache : M.Cache) :
    ℕ → List W → Except (Error M) (List M.Signature)
  | _, [] => .ok []
  | index, messageHash :: rest =>
    match musigSession session cache index messageHash with
    | .error e => .error e
    | .ok signing =>
      let signature := M.partialSigAgg signing (sharesAt session index)
      if M.verify signature (M.aggPk cache) messageHash then
        match aggregateFrom session cache (index + 1) rest with
        | .error e => .error e
        | .ok signatures => .ok (signature :: signatures)
      else .error (.invalidMessage "aggregate signature failed verification")

end Verification

namespace SigningState

variable (state : SigningState M)

def put (requestHash : W) (session : SigningSession M) : SigningState M :=
  { state with sessions := state.sessions.insert requestHash session }

def log (events : List (Event M)) : SigningState M := { state with events := state.events ++ events }

/-- Sends the result, if anyone waits for it, and removes the session. -/
def finish (requestHash : W) (session : SigningSession M) (signatures : List M.Signature) :
    SigningState M :=
  let result := ⟨requestHash, session.request.signingStormTreeBranch, signatures⟩
  { state with
    sessions := state.sessions.erase requestHash
    events := state.events ++
      (session.completion.map fun channel => Event.completed channel session result).toList }

def completeSession (requestHash : W) : SigningState M × Except (Error M) Unit :=
  match state.sessions[requestHash]? with
  | none => (state, .ok ())
  | some session =>
    if session.requestor ≠ state.localNode ∨ ¬session.noncesReady then (state, .ok ())
    else
      match keyAggCache session.signers with
      | .error e => (state, .error e)
      | .ok cache =>
        match judge cache session.signers session with
        | (session, .error e) => (state.put requestHash session, .error e)
        | (session, .ok _) =>
          if ¬session.partialsReady then (state.put requestHash session, .ok ())
          else
            match aggregateFrom session cache 0 session.request.messageHashes with
            | .error e => (state.put requestHash session, .error e)
            | .ok signatures => (state.finish requestHash session signatures, .ok ())

/-- The nonce loop of `start_session`: one draw for every message. -/
def drawNonces (secretKey : M.SecretKey) (cache : M.Cache) (draw : ℕ) :
    List W → List (SecretNonce W) × List M.PublicNonce
  | [] => ([], [])
  | messageHash :: rest =>
    let (secrets, publics) := drawNonces secretKey cache (draw + 1) rest
    (⟨draw, messageHash⟩ :: secrets, M.newNoncePair draw cache secretKey messageHash :: publics)

def dropCompletion (completion : Option ℕ) : SigningState M :=
  state.log (completion.map Event.dropped).toList

/-- The signers of a branch of the current tree. -/
def signersForBranch (branch : W) : Except (Error M) (List W) :=
  match state.tree with
  | none => .error .tooFewMembers
  | some tree =>
    match tree.nodesForBranch branch with
    | .error e => .error (.stormTree e)
    | .ok signers => .ok signers

def emptyContributions (signers : List W) : Std.ExtTreeMap W (SignerContribution M) :=
  signers.foldl (fun contributions signer => contributions.insert signer ⟨none, none, false⟩) ∅

def startSession (now : ℕ) (requestHash requestor : W) (request : SigningRequest W)
    (completion : Option ℕ) :
    SigningState M × Except (Error M) (Option (SigningNoncesMessage W)) :=
  if requestHash ∈ state.sessions then (state.dropCompletion completion, .ok none)
  else
    match state.signersForBranch request.signingStormTreeBranch with
    | .error e => (state.dropCompletion completion, .error e)
    | .ok signers =>
      let session : SigningSession M :=
        ⟨requestor, request, signers, emptyContributions signers, none, completion, now⟩
      if state.localNode ∈ signers then
        match keyAggCache signers with
        | .error e => (state.dropCompletion completion, .error e)
        | .ok cache =>
          let (secrets, publics) := drawNonces state.secretKey cache state.draws request.messageHashes
          let session :=
            { session.modify state.localNode (·.setNonces publics) with secretNonces := some secrets }
          ({ state.put requestHash session with draws := state.draws + request.messageHashes.length },
            .ok (some ⟨state.localNode, publics.map M.nonceSerialize⟩))
      else (state.put requestHash session, .ok none)

def parseNonce (bytes : List UInt8) : Except (Error M) M.PublicNonce :=
  if bytes.length ≠ 66 then .error (.invalidMessage "invalid public nonce size")
  else
    match M.nonceFromByteArray bytes with
    | none => .error (.invalidMessage "invalid public nonce")
    | some nonce => .ok nonce

def parseNonces (nonces : List (List UInt8)) : Except (Error M) (List M.PublicNonce) :=
  nonces.mapM parseNonce

/-- The signing loop of `accept_nonces`, with the secret nonces it used up. -/
def signFrom (session : SigningSession M) (cache : M.Cache) :
    ℕ → List (W × SecretNonce W) → List (Event M) × Except (Error M) (List M.PartialSignature)
  | _, [] => ([], .ok [])
  | index, (messageHash, secret) :: rest =>
    match musigSession session cache index messageHash with
    | .error e => ([], .error e)
    | .ok signing =>
      let share := M.partialSign signing secret state.secretKey cache
      match signFrom session cache (index + 1) rest with
      | (events, .error e) => (.signed secret :: events, .error e)
      | (events, .ok shares) => (.signed secret :: events, .ok (share :: shares))

def transportKey (node : W) : Except (Error M) T :=
  match state.memberTransportKeys[node]? with
  | none => .error (.invalidMessage "signer is not a configured member")
  | some key => .ok key

/-- Every signer and the requestor, less the local node, in key order. -/
def recipientNodes (session : SigningSession M) : List W :=
  ((insert session.requestor session.signers.toFinset).erase state.localNode).sort (· ≤ ·)

/-- `complete_session(request_hash)?` followed by `Ok(value)`. -/
def completeThen {A : Type} (requestHash : W) (value : A) : SigningState M × Except (Error M) A :=
  match state.completeSession requestHash with
  | (state, .error e) => (state, .error e)
  | (state, .ok _) => (state, .ok value)

/-- The rest of `accept_nonces` once the last nonces are in: sign, then try to complete. -/
def signSession (requestHash : W) (session : SigningSession M) (secrets : List (SecretNonce W)) :
    SigningState M × Except (Error M) (Option (PartialSignaturesMessage W × List T)) :=
  match keyAggCache session.signers with
  | .error e => (state.put requestHash session, .error e)
  | .ok cache =>
    let session := { session with secretNonces := none }
    match state.signFrom session cache 0 (session.request.messageHashes.zip secrets) with
    | (events, .error e) => ((state.put requestHash session).log events, .error e)
    | (events, .ok partials) =>
      let session := session.modify state.localNode (·.setPartials partials)
      let state := (state.put requestHash session).log events
      match (state.recipientNodes session).mapM state.transportKey with
      | .error e => (state, .error e)
      | .ok recipients =>
        state.completeThen requestHash
          (some (⟨state.localNode, partials.map M.partialSerialize⟩, recipients))

def acceptNonces (requestHash sender : W) (message : SigningNoncesMessage W) :
    SigningState M × Except (Error M) (Option (PartialSignaturesMessage W × List T)) :=
  if sender ≠ message.signer then
    (state, .error (.invalidMessage "nonce contributor does not match authenticated sender"))
  else
    match state.sessions[requestHash]? with
    | none => (state, .ok none)
    | some session =>
      if message.nonces.length ≠ session.request.messageHashes.length then
        (state, .error (.invalidMessage "wrong nonce count"))
      else
        match session.contributions[sender]? with
        | none => (state, .error (.invalidMessage "nonce from a non-signer"))
        | some contribution =>
          if contribution.nonces.isSome then (state, .ok none)
          else
            match parseNonces message.nonces with
            | .error e => (state, .error e)
            | .ok nonces =>
              let session := session.modify sender (·.setNonces nonces)
              match session.secretNonces with
              | some secrets =>
                if state.localNode ∈ session.signers ∧ session.noncesReady then
                  state.signSession requestHash session secrets
                else (state.put requestHash session).completeThen requestHash none
              | none => (state.put requestHash session).completeThen requestHash none

def parsePartials (sender : W) : ℕ → List W → Except (Error M) (List M.PartialSignature)
  | _, [] => .ok []
  | index, bytes :: rest =>
    match M.partialFromByteArray bytes with
    | none => .error (invalidPartialSignature sender index)
    | some share =>
      match parsePartials sender (index + 1) rest with
      | .error e => .error e
      | .ok shares => .ok (share :: shares)

/-- Stores a batch and tries to complete. -/
def storePartials (requestHash sender : W) (session : SigningSession M)
    (partials : List M.PartialSignature) (verified : Bool) : SigningState M × Except (Error M) Unit :=
  (state.put requestHash
    (session.modify sender fun c => (c.setPartials partials).setVerified verified)).completeSession
      requestHash

def acceptPartialSignatures (requestHash sender : W) (message : PartialSignaturesMessage W) :
    SigningState M × Except (Error M) Unit :=
  if sender ≠ message.signer then
    (state, .error
      (.invalidMessage "partial-signature contributor does not match authenticated sender"))
  else
    match state.sessions[requestHash]? with
    | none => (state, .ok ())
    | some session =>
      if message.partialSignatures.length ≠ session.request.messageHashes.length then
        (state, .error (.invalidMessage "wrong partial signature count"))
      else
        match session.contributions[sender]? with
        | none => (state, .error (.invalidMessage "signature from a non-signer"))
        | some contribution =>
          if contribution.partialSignatures.isSome then (state, .ok ())
          else
            match parsePartials sender 0 message.partialSignatures with
            | .error e => (state, .error e)
            | .ok partials =>
              if session.noncesReady then
                match keyAggCache session.signers with
                | .error e => (state, .error e)
                | .ok cache =>
                  match verifySignerPartials session cache sender partials with
                  | .error e => (state, .error e)
                  | .ok _ => state.storePartials requestHash sender session partials true
              else state.storePartials requestHash sender session partials false

/-- Removes one expired session and tells its waiting attempt. -/
def expireSession (requestHash : W) : SigningState M :=
  match state.sessions[requestHash]? with
  | none => state
  | some session =>
    { state with
      sessions := state.sessions.erase requestHash
      events := state.events ++ (session.completion.map Event.expired).toList }

def removeExpiredSessions (now : ℕ) : SigningState M :=
  let expired := state.sessions.toList.filter fun entry =>
    decide (signingSessionTimeout ≤ now - entry.2.createdAt)
  (expired.map Prod.fst).foldl (fun state requestHash => state.expireSession requestHash) state

/-- `sessions.remove`, dropping the completion sender with the session. -/
def removeSession (requestHash : W) : SigningState M :=
  match state.sessions[requestHash]? with
  | none => state
  | some session =>
    { state with sessions := state.sessions.erase requestHash }.dropCompletion session.completion

def peerKeys (peers : List T) : Except (Error M) (Std.ExtTreeMap W T) :=
  peers.foldlM (fun keys peer =>
    match M.nodeKey peer with
    | none => .error (.invalidMessage "invalid member public key")
    | some node => .ok (keys.insert node peer)) ∅

variable {Sig : Type} (J : Jets W Sig)

def refreshMembers [DecidableEq T] (peers : List T) : SigningState M × Except (Error M) Unit :=
  match peerKeys peers with
  | .error e => (state, .error e)
  | .ok keys =>
    if keys.toList = state.memberTransportKeys.toList then (state, .ok ())
    else if keys.size < 3 then ({ state with tree := none, memberTransportKeys := keys }, .ok ())
    else
      match StormTree.new J M.keyApi keys.keys with
      | .error e => (state, .error (.stormTree e))
      | .ok tree => ({ state with tree := some tree, memberTransportKeys := keys }, .ok ())

/-- `SigningState::new` -/
def new [DecidableEq T] (secretKey : M.SecretKey) (peers : List T) : SigningState M :=
  let (localNode, isOdd) := M.xOnlyPublicKey secretKey
  let state : SigningState M :=
    { secretKey := if isOdd then M.negate secretKey else secretKey
      localNode, memberTransportKeys := ∅, tree := none, sessions := ∅
      draws := 0, channels := 0, events := [] }
  (state.refreshMembers J peers).1

end SigningState

end Signing
end PriceOracle
