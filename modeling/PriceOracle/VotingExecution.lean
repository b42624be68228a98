import PriceOracle.LockProtection
import PriceOracle.VotingStatements

/-!
# Executing voting requests

`voting_execution.rs`: `begin`, `cancel` and `observe_broadcast`, each a task that runs one
statement after the other while other tasks, exchanges and blocks run in between. The fee
of an execution is locked in the Droplets of its proposer.
-/

namespace PriceOracle

structure ExecuteVotingRequest (W B : Type) where
  tx : B
  finalTx : Option B
  proposerPublicKey : W

/-- A local attempt, a request of another member, or the notice of a broadcast. -/
inductive ExecutionKind where
  | attempt
  | request
  | notice
  deriving DecidableEq

/-- The statement that a task runs next; `cancelLock` remembers whether the vote was updated, and for
which transaction. An attempt to lock that fails with an error is `stuck`. -/
inductive ExecutionStage (B : Type) where
  | validate
  | cancelVote
  | cancelLock (updated : Bool) (transaction : Option B)
  | start
  | lock (started : Bool)
  | undo
  | stuck
  | finalize
  | record
  | done

structure ExecutionTask (W B : Type) where
  kind : ExecutionKind
  requestHash : W
  request : ExecuteVotingRequest W B
  blockHeight : ℕ
  /-- The vote as the task first read it. -/
  stored : StoredVotingRequest W B
  stage : ExecutionStage B

/-- The tables, the tasks, and the transactions that have confirmed or can no longer confirm. -/
structure ExecutionNode (W B : Type) where
  votes : VotingStore W B
  store : DropletStore W B
  tasks : List (ExecutionTask W B)
  settled : List W

inductive ExecutionAction (W B : Type) where
  | begin (kind : ExecutionKind) (requestHash : W) (request : ExecuteVotingRequest W B) (blockHeight : ℕ)
  /-- A task goes on; `valid` is what its checks against the chain say. -/
  | advance (index : ℕ) (valid : Bool)
  /-- The signing round of an attempt ends, with the signed transaction if it succeeded. -/
  | finalize (index : ℕ) (finalTx : Option B)
  | voting (action : VotingAction W B)
  | lockExchange (member : W) (amount height : ℕ) (transaction : B)
  | unlockExchange (member : W) (height : ℕ)
  | observeExchange (member : W) (tx finalTx : B)
  | applyBlock (height : ℕ) (treasuryTransactions : List (TreasuryTransaction W)) (members : List W)
  | conflicted (member : W) (height : ℕ)

/-- The parameters of the node: its fee, the identifier of a transaction in its bytes, and how a request
is stored. -/
structure ExecutionRules (W B : Type) where
  transactionFeeSats : ℕ
  txid : B → W
  encode : ExecuteVotingRequest W B → B

namespace ExecutionNode

variable {W B : Type} [LinearOrder W] [DecidableEq B] (R : ExecutionRules W B) (node : ExecutionNode W B)

def new : ExecutionNode W B := ⟨VotingStore.empty, DropletStore.empty, [], []⟩

def requireRetryable (stored : StoredVotingRequest W B) : Bool :=
  !stored.executionConfirmed && stored.executionTxid.isNone && stored.approvedAtBlockHeight.isSome

def requireApprovedOrExecuting (stored : StoredVotingRequest W B) (transaction : B) : Bool :=
  requireRetryable stored &&
    (!stored.executionStarted || decide (stored.executionTransaction = some transaction))

/-- The execution that the vote has started is another one. -/
def replaces (stored : StoredVotingRequest W B) (request : ExecuteVotingRequest W B) : Bool :=
  stored.executionStarted && decide (stored.executionTransaction ≠ some request.tx)

def setStage (index : ℕ) (stage : ExecutionStage B) : ExecutionNode W B :=
  { node with tasks := node.tasks.modify index fun task => { task with stage := stage } }

/-- What `begin` and `observe_broadcast` ask of the request and of the vote as they first read it; the
notice of a vote that is broadcast already changes nothing. -/
def admits (kind : ExecutionKind) (request : ExecuteVotingRequest W B) (stored : StoredVotingRequest W B) : Bool :=
  match kind with
  | .notice =>
    request.finalTx.any (fun finalTx => decide (R.txid finalTx = R.txid request.tx)) && stored.executionTxid.isNone
  | .attempt | .request => request.finalTx.isNone && requireRetryable stored

def accept (kind : ExecutionKind) (requestHash : W) (request : ExecuteVotingRequest W B) (blockHeight : ℕ) :
    ExecutionNode W B :=
  match node.votes.requests.lookup requestHash with
  | none => node
  | some stored =>
    if admits R kind request stored then
      { node with tasks := node.tasks ++ [⟨kind, requestHash, request, blockHeight, stored, .validate⟩] }
    else node

/-- `validate_transaction`, which reads the vote again. -/
def validate (index : ℕ) (task : ExecutionTask W B) (valid : Bool) : ExecutionNode W B :=
  match node.votes.requests.lookup task.requestHash with
  | none => node.setStage index .done
  | some stored =>
    let proposer := decide (stored.proposerPublicKey = some task.request.proposerPublicKey) ||
      (decide (task.kind = .notice) && stored.proposerPublicKey.isNone)
    if valid && requireRetryable stored && proposer then
      if replaces task.stored task.request then node.setStage index .cancelVote
      else node.setStage index (if task.kind = .notice then .record else .start)
    else node.setStage index .done

/-- `cancel` runs both statements whatever the first one says. -/
def cancelVote (index : ℕ) (task : ExecutionTask W B) : ExecutionNode W B :=
  let transaction := (node.votes.requests.lookup task.requestHash).bind fun row => row.executionTransaction
  match (VotingStore.cancelExecution task.requestHash).atomic.exec node.votes with
  | (.ok _, votes) => { node with votes := votes }.setStage index (.cancelLock true transaction)
  | (.error _, votes) => { node with votes := votes }.setStage index (.cancelLock false none)

def cancelLock (index : ℕ) (task : ExecutionTask W B) (updated : Bool) : ExecutionNode W B :=
  match (DropletStore.unlockExchange task.request.proposerPublicKey task.blockHeight).atomic.exec node.store with
  | (.ok _, store) =>
    { node with store := store }.setStage index
      (if updated then if task.kind = ExecutionKind.notice then .record else .start else .done)
  | (.error _, store) => { node with store := store }.setStage index .done

def startExecution (index : ℕ) (task : ExecutionTask W B) : ExecutionNode W B :=
  match (VotingStore.startExecution task.requestHash task.request.tx).atomic.exec node.votes with
  | (.ok started, votes) =>
    { node with votes := votes }.setStage index
      (if started || decide (task.stored.executionTransaction = some task.request.tx) then .lock started else .done)
  | (.error _, votes) => { node with votes := votes }.setStage index .done

def lockFee (index : ℕ) (task : ExecutionTask W B) (started : Bool) : ExecutionNode W B :=
  match (DropletStore.lockExchange task.request.proposerPublicKey R.transactionFeeSats task.blockHeight
    task.request.tx).atomic.exec node.store with
  | (.ok true, store) =>
    { node with store := store }.setStage index (if task.kind = ExecutionKind.attempt then .finalize else .done)
  | (.ok false, store) => { node with store := store }.setStage index (if started then .undo else .done)
  | (.error _, store) => { node with store := store }.setStage index .stuck

/-- `prepare_finalization` and `finalize` after the signing round. -/
def finalize (index : ℕ) (task : ExecutionTask W B) (finalTx : Option B) : ExecutionNode W B :=
  match node.votes.requests.lookup task.requestHash, finalTx with
  | some stored, some finalTx =>
    if requireApprovedOrExecuting stored task.request.tx && decide (R.txid finalTx = R.txid task.request.tx) then
      { node with tasks := node.tasks.modify index fun task =>
        { task with request := { task.request with finalTx := some finalTx }, stage := .record } }
    else node.setStage index .done
  | _, _ => node.setStage index .done

def record (index : ℕ) (task : ExecutionTask W B) : ExecutionNode W B :=
  { node with
    votes := node.votes.step (.recordBroadcast task.requestHash task.request.proposerPublicKey task.request.tx
      (R.encode task.request) (R.txid task.request.tx)) }.setStage index .done

def advance (index : ℕ) (task : ExecutionTask W B) (valid : Bool) : ExecutionNode W B :=
  match task.stage with
  | .validate => node.validate index task valid
  | .cancelVote => node.cancelVote index task
  | .cancelLock updated _ => node.cancelLock index task updated
  | .start => node.startExecution index task
  | .lock started => node.lockFee R index task started
  | .undo => { node with votes := node.votes.step (.cancelExecution task.requestHash) }.setStage index .done
  | .record => node.record R index task
  | .finalize | .stuck | .done => node

/-- The statements on a vote that belong to no task. -/
def isOutside : VotingAction W B → Bool
  | .startExecution _ _ | .cancelExecution _ | .recordBroadcast _ _ _ _ _ => false
  | .deleteExpired _ _ | .applyMemberMigration _ _ => false
  | _ => true

def step : ExecutionAction W B → ExecutionNode W B
  | .begin kind requestHash request blockHeight => node.accept R kind requestHash request blockHeight
  | .advance index valid =>
    match node.tasks[index]? with
    | some task => node.advance R index task valid
    | none => node
  | .finalize index finalTx =>
    match node.tasks[index]? with
    | some task =>
      match task.stage with
      | .finalize => node.finalize R index task finalTx
      | _ => node
    | none => node
  | .voting action => if isOutside action then { node with votes := node.votes.step action } else node
  | .lockExchange member amount height transaction =>
    { node with store := node.store.step (.lockExchange member amount height transaction) }
  | .unlockExchange member height => { node with store := node.store.step (.unlockExchange member height) }
  | .observeExchange member tx finalTx =>
    if R.txid finalTx = R.txid tx then
      { node with store := node.store.step (.updateLockedTransaction member tx finalTx) }
    else node
  | .applyBlock height treasuryTransactions members =>
    match (DropletStore.applyBlockIn height treasuryTransactions members).exec node.store with
    | (.ok _, store) =>
      { node with
        store := store
        settled := node.settled ++ treasuryTransactions.map TreasuryTransaction.txid }
    | (.error _, _) => node
  | .conflicted member height =>
    { node with
      store := node.store.step (.unlockExchange member height)
      settled := node.settled ++ ((lockedFor node.store.droplets member).map R.txid).toList }

def run (actions : List (ExecutionAction W B)) : ExecutionNode W B :=
  actions.foldl (fun node action => node.step R action) node

end ExecutionNode

end PriceOracle
