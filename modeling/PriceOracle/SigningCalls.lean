import PriceOracle.SigningRun

/-!
# Concurrent signing calls

`sign_per_branch`: a call races up to two attempts, each with a session and a
completion channel of its own, and cleans up by request hash. Calls interleave with
each other, with peers' requests and with everything else the coordinator does.
-/

namespace PriceOracle

namespace Signing

variable {W T : Type} [LinearOrder W] (M : Musig W T)

/-- How the task of an attempt comes out of its wait; `closed` is a channel dropped unused. -/
inductive AttemptEnd where
  | completed (result : SigningResult W M.Signature)
  | expired
  | timedOut
  | closed
  | failed

/-- A spawned task; with an `ending`, it has yet to clean up and be joined. -/
structure Attempt where
  requestHash : W
  channel : ℕ
  ending : Option (AttemptEnd M)

inductive CallResult where
  | ok (result : SigningResult W M.Signature)
  | signingFailed
  | error (error : Error M)

/-- The variables of one call, with the channels it opened and the ends of the tasks it joined. -/
structure Call where
  requestHashes : List W
  pending : List (Attempt M)
  result : Option (CallResult M)
  channels : List ℕ
  ends : List (AttemptEnd M)

structure CallsState where
  signing : SigningState M
  calls : ℕ → Option (Call M)
  returned : List (Call M)

/-- What ends a wait: a message or a closed channel, the attempt's deadline, a transport error. -/
inductive WaitEnd where
  | received
  | timedOut
  | failed

inductive CallAction (W T : Type) where
  | signing (action : Action W T)
  | call (c : ℕ)
  | refreshMembers (c : ℕ) (peers : List T)
  | start (c now : ℕ) (requestHash : W) (request : SigningRequest W)
  | wait (c index : ℕ) (waitEnd : WaitEnd)
  | join (c index : ℕ)
  | giveUp (c : ℕ)
  | finish (c : ℕ)
  | cancel (c : ℕ)

/-- The call that takes the step. -/
def CallAction.caller : CallAction W T → Option ℕ
  | .signing _ => none
  | .call _ => none
  | .refreshMembers c _ => some c
  | .start c _ _ _ => some c
  | .wait c _ _ => some c
  | .join c _ => some c
  | .giveUp c => some c
  | .finish c => some c
  | .cancel c => some c

/-- The actions of a call: a start that waits for its result, and a removal by key. -/
def Action.isLocal : Action W T → Bool
  | .startSession _ _ _ _ waited => waited
  | .removeSession _ => true
  | _ => false

variable {M}

/-- What a receiver gets out of its channel. -/
def received (events : List (Event M)) (channel : ℕ) : Option (AttemptEnd M) :=
  events.findSome? fun
    | .signed _ => none
    | .completed channel' _ result => if channel' = channel then some (.completed result) else none
    | .expired channel' => if channel' = channel then some .expired else none
    | .dropped channel' => if channel' = channel then some .closed else none

namespace CallsState

variable (state : CallsState M)

def setCall (c : ℕ) (call : Option (Call M)) : CallsState M :=
  { state with calls := Function.update state.calls c call }

def waitEnding (channel : ℕ) : WaitEnd → Option (AttemptEnd M)
  | .received => received state.signing.events channel
  | .timedOut => some .timedOut
  | .failed => some .failed

/-- The task of an attempt ends: a failed one removes the session under its hash. -/
def joinAttempt (c index : ℕ) (call : Call M) (attempt : Attempt M) (ending : AttemptEnd M) :
    CallsState M :=
  let joined := { call with pending := call.pending.eraseIdx index, ends := call.ends ++ [ending] }
  match ending with
  | .completed result => state.setCall c (some { joined with result := call.result.or (some (.ok result)) })
  | _ =>
    { state with signing := state.signing.removeSession attempt.requestHash }.setCall c (some joined)

variable {Sig : Type} [DecidableEq T] (J : Jets W Sig)

/-- One turn of the loop that starts attempts. -/
def startAttempt (c : ℕ) (call : Call M) (now : ℕ) (requestHash : W) (request : SigningRequest W) :
    CallsState M :=
  let attempt : Attempt M := ⟨requestHash, state.signing.channels, none⟩
  match state.signing.signersForBranch request.signingStormTreeBranch with
  | .error _ => state
  | .ok _ =>
    match (state.signing.openChannel true).1.startSession now requestHash state.signing.localNode
      request (some attempt.channel) with
    | (signing, .error e) =>
      { state with signing := signing }.setCall c (some { call with result := some (.error e) })
    | (signing, .ok _) =>
      { state with signing := signing }.setCall c (some { call with
        requestHashes := call.requestHashes.insert requestHash
        pending := call.pending ++ [attempt]
        channels := call.channels ++ [attempt.channel] })

def refreshCall (c : ℕ) (call : Call M) (peers : List T) : CallsState M :=
  match state.signing.refreshMembers J peers with
  | (signing, .error e) =>
    { state with signing := signing }.setCall c (some { call with result := some (.error e) })
  | (signing, .ok _) => { state with signing := signing }

/-- The cleanup that every call that is not cancelled ends with. -/
def finishCall (c : ℕ) (call : Call M) : CallsState M :=
  { state with
    signing := call.requestHashes.foldl (fun signing requestHash => signing.removeSession requestHash)
      state.signing
    returned := state.returned ++ [call] }.setCall c none

/-- A step of a running call. -/
def callStep (c : ℕ) (call : Call M) : CallAction W T → CallsState M
  | .refreshMembers _ peers =>
    if call.result.isSome then state else state.refreshCall J c call peers
  | .start _ now requestHash request =>
    if call.result.isSome ∨ 2 ≤ call.pending.length then state
    else state.startAttempt c call now requestHash request
  | .wait _ index waitEnd =>
    match call.pending[index]? with
    | none => state
    | some attempt =>
      if attempt.ending.isSome then state
      else
        match state.waitEnding attempt.channel waitEnd with
        | none => state
        | some ending => state.setCall c (some
          { call with pending := call.pending.set index { attempt with ending := some ending } })
  | .join _ index =>
    match call.pending[index]? with
    | none => state
    | some attempt =>
      match attempt.ending with
      | none => state
      | some ending => state.joinAttempt c index call attempt ending
  | .giveUp _ =>
    if call.result.isSome ∨ call.pending ≠ [] then state
    else state.setCall c (some { call with result := some .signingFailed })
  | .finish _ => if call.result.isSome then state.finishCall c call else state
  | .cancel _ => state.setCall c none
  | _ => state

/-- No call is running yet. -/
def new (secretKey : M.SecretKey) (peers : List T) : CallsState M :=
  ⟨SigningState.new J secretKey peers, fun _ => none, []⟩

def step (action : CallAction W T) : CallsState M :=
  match action with
  | .signing action =>
    if action.isLocal then state else { state with signing := Signing.step J state.signing action }
  | .call c =>
    if (state.calls c).isSome then state else state.setCall c (some ⟨[], [], none, [], []⟩)
  | action =>
    match action.caller with
    | none => state
    | some c =>
      match state.calls c with
      | none => state
      | some call => state.callStep J c call action

def run (actions : List (CallAction W T)) : CallsState M := actions.foldl (fun state => state.step J) state

/-- A start that collides with nobody: a call finds no session under its hash and no other
running call, nor a task of its own, that cleans up under it; a peer's request opens a session
only under a hash that no running call cleans up. -/
def Clear : CallAction W T → Prop
  | .start c _ requestHash _ => requestHash ∉ state.signing.sessions ∧
      ∀ c' call, state.calls c' = some call → if c' = c
        then ∀ attempt ∈ call.pending, attempt.requestHash ≠ requestHash
        else requestHash ∉ call.requestHashes
  | .signing (.startSession _ requestHash _ _ _) => requestHash ∈ state.signing.sessions ∨
      ∀ c call, state.calls c = some call → requestHash ∉ call.requestHashes
  | _ => True

/-- Every step of a run is clear. -/
def AllClear : CallsState M → List (CallAction W T) → Prop
  | _, [] => True
  | state, action :: actions => state.Clear action ∧ AllClear (state.step J action) actions

end CallsState

end Signing
end PriceOracle
