import PriceOracle.Database
import PriceOracle.Table

/-!
# The voting tables

`db/voting.rs`: the voting requests with the state of their execution, and the approvals.
Hashes and keys are of type `W`, encoded messages and transactions of type `B`. Each
statement guards itself by the columns that it finds.
-/

namespace PriceOracle

inductive VotingStoreError where
  | sqlx
  | executionStateNotUpdated

/-- A row of `voting_requests`. -/
structure StoredVotingRequest (W B : Type) where
  message : B
  proposerPublicKey : Option W
  blockHeight : ℕ
  approvedAtBlockHeight : Option ℕ
  executionStarted : Bool
  executionTransaction : Option B
  executionRequest : Option B
  executionTxid : Option W
  executionConfirmed : Bool
  executionIncludedAtBlock : Option ℕ
  executionIncludedBlockHash : Option W

/-- A row of `voting_approvals`. -/
structure StoredApproval (B : Type) where
  message : B
  blockHeight : ℕ

/-- The tables; an approval is stored under its request and its member. -/
structure VotingStore (W B : Type) where
  requests : Table W (StoredVotingRequest W B)
  approvals : Table (W × W) (StoredApproval B)

namespace VotingStore

variable {W B : Type}

def empty : VotingStore W B := ⟨∅, ∅⟩

def heightToI64 (height : ℕ) : Db (VotingStore W B) VotingStoreError ℕ :=
  if height < 2 ^ 63 then pure height else throw .sqlx

/-- A row as `INSERT` leaves it. -/
def newRequest (message : B) (proposerPublicKey : Option W) (blockHeight : ℕ) : StoredVotingRequest W B :=
  ⟨message, proposerPublicKey, blockHeight, none, false, none, none, none, false, none, none⟩

variable [DecidableEq W]

def insertSynchronizedRequest (messageHash : W) (message : B) (proposerPublicKey : Option W)
    (blockHeight : ℕ) : Db (VotingStore W B) VotingStoreError Bool := do
  let blockHeight ← heightToI64 blockHeight
  let store ← get
  if messageHash ∈ store.requests then pure false
  else do
    set { store with requests :=
      store.requests.insert messageHash (newRequest message proposerPublicKey blockHeight) }
    pure true

def insertRequest (messageHash : W) (message : B) (proposerPublicKey : W) (blockHeight : ℕ) :
    Db (VotingStore W B) VotingStoreError Bool :=
  insertSynchronizedRequest messageHash message (some proposerPublicKey) blockHeight

/-- An `UPDATE` of one request, and whether its condition held. -/
def updateRequest (messageHash : W) (p : StoredVotingRequest W B → Bool)
    (f : StoredVotingRequest W B → StoredVotingRequest W B) : Db (VotingStore W B) VotingStoreError Bool := do
  let store ← get
  match store.requests.lookup messageHash with
  | none => pure false
  | some row =>
    if p row then do
      set { store with requests := store.requests.insert messageHash (f row) }
      pure true
    else pure false

/-- An `UPDATE` that has to affect its row. -/
def updateExecution (messageHash : W) (p : StoredVotingRequest W B → Bool)
    (f : StoredVotingRequest W B → StoredVotingRequest W B) : Db (VotingStore W B) VotingStoreError PUnit := do
  let updated ← updateRequest messageHash p f
  if updated then pure ⟨⟩ else throw .executionStateNotUpdated

def approvalCount (approvals : Table (W × W) (StoredApproval B)) (requestHash : W) : ℕ :=
  approvals.keys.countP fun key => decide (key.1 = requestHash)

def insertApproval (requestHash publicKey : W) (message : B) (blockHeight requiredApprovals : ℕ) :
    Db (VotingStore W B) VotingStoreError Bool := do
  let blockHeight ← heightToI64 blockHeight
  let store ← get
  -- The foreign key of `voting_approvals`.
  if requestHash ∉ store.requests then throw .sqlx
  else if (requestHash, publicKey) ∈ store.approvals then pure false
  else do
    let approvals := store.approvals.insert (requestHash, publicKey) ⟨message, blockHeight⟩
    set { store with approvals := approvals }
    if requiredApprovals ≤ approvalCount approvals requestHash then do
      let _ ← updateRequest requestHash (fun row => row.approvedAtBlockHeight.isNone)
        fun row => { row with approvedAtBlockHeight := some blockHeight }
      pure true
    else pure true

section Executions

variable [DecidableEq B]

def startExecution (messageHash : W) (transaction : B) : Db (VotingStore W B) VotingStoreError Bool :=
  updateRequest messageHash
    (fun row => row.approvedAtBlockHeight.isSome && !row.executionStarted && row.executionTxid.isNone)
    fun row => { row with executionStarted := true, executionTransaction := some transaction }

def cancelExecution (messageHash : W) : Db (VotingStore W B) VotingStoreError PUnit :=
  updateExecution messageHash (fun row => row.executionTxid.isNone)
    fun row => { row with executionStarted := false, executionTransaction := none }

def recordBroadcast (messageHash proposerPublicKey : W) (transaction executionRequest : B) (txid : W) :
    Db (VotingStore W B) VotingStoreError PUnit :=
  updateExecution messageHash
    (fun row => row.approvedAtBlockHeight.isSome && !row.executionConfirmed &&
      decide (row.executionTransaction.getD transaction = transaction) &&
        decide (row.proposerPublicKey.getD proposerPublicKey = proposerPublicKey) &&
          decide (row.executionTxid.getD txid = txid))
    fun row =>
      { row with
        executionStarted := true
        executionTransaction := some (row.executionTransaction.getD transaction)
        executionRequest := some executionRequest
        proposerPublicKey := some (row.proposerPublicKey.getD proposerPublicKey)
        executionTxid := some txid }

def confirmExecution (messageHash txid : W) : Db (VotingStore W B) VotingStoreError PUnit :=
  updateExecution messageHash
    (fun row => row.approvedAtBlockHeight.isSome && row.executionRequest.isSome &&
      decide (row.executionTxid = some txid) && row.executionIncludedBlockHash.isSome &&
        !row.executionConfirmed)
    fun row => { row with executionStarted := false, executionConfirmed := true }

def markExecutionIncluded (messageHash txid : W) (blockHeight : ℕ) (blockHash : W) :
    Db (VotingStore W B) VotingStoreError PUnit := do
  let blockHeight ← heightToI64 blockHeight
  updateExecution messageHash (fun row => decide (row.executionTxid = some txid) && !row.executionConfirmed)
    fun row =>
      { row with
        executionIncludedAtBlock := some blockHeight
        executionIncludedBlockHash := some blockHash }

def orphanedRow (row : StoredVotingRequest W B) : StoredVotingRequest W B :=
  { row with executionIncludedAtBlock := none, executionIncludedBlockHash := none }

def markExecutionOrphaned (messageHash txid : W) : Db (VotingStore W B) VotingStoreError PUnit := do
  let _ ← updateRequest messageHash
    (fun row => decide (row.executionTxid = some txid) && !row.executionConfirmed) orphanedRow

/-- What `reset_projections` does to the voting requests. -/
def resetExecutions : Db (VotingStore W B) VotingStoreError PUnit :=
  modify fun store =>
    let requests := Table.mapRows (fun _ row => if row.executionConfirmed then row else orphanedRow row)
      store.requests
    { store with requests := requests }

end Executions

section Expiry

/-- An execution is in flight from its start until it is confirmed or cancelled. -/
def inFlight (row : StoredVotingRequest W B) : Bool :=
  !row.executionConfirmed && (row.executionStarted || row.executionTxid.isSome)

def isExpired (currentBlockHeight timeoutBlocks : ℕ) (row : StoredVotingRequest W B) : Bool :=
  (row.executionConfirmed || (!row.executionStarted && row.executionTxid.isNone)) &&
    match row.approvedAtBlockHeight with
    | none => decide (row.blockHeight + timeoutBlocks ≤ currentBlockHeight)
    | some approvedAt => decide (approvedAt + timeoutBlocks ≤ currentBlockHeight)

/-- Two `DELETE` statements: the expired requests, then the approvals that have lost theirs. -/
def deleteExpired (currentBlockHeight timeoutBlocks : ℕ) : Db (VotingStore W B) VotingStoreError ℕ := do
  let current ← heightToI64 currentBlockHeight
  let timeout ← heightToI64 timeoutBlocks
  let store ← get
  let requests := Table.filterRows (fun _ row => !isExpired current timeout row) store.requests
  let approvals := Table.filterRows (fun key _ => decide (key.1 ∈ requests)) store.approvals
  set { store with requests := requests, approvals := approvals }
  pure (store.requests.entries.length - requests.entries.length)

end Expiry

/-- The voting tables in `apply_member_migration`: the execution is confirmed, and every request that
is not confirmed goes with its approvals. -/
def applyMemberMigration (requestHash txid : W) : Db (VotingStore W B) VotingStoreError PUnit := do
  updateExecution requestHash
    (fun row => decide (row.executionTxid = some txid) && row.executionRequest.isSome && !row.executionConfirmed)
    fun row => { row with executionStarted := false, executionConfirmed := true }
  modify fun store =>
    let confirmed := Table.filterRows (fun _ row => row.executionConfirmed) store.requests
    let approvals := Table.filterRows (fun key _ => decide (key.1 ∈ confirmed)) store.approvals
    { store with requests := confirmed, approvals := approvals }

end VotingStore

/-- The statements that the node runs on the voting tables, each in a transaction of its own. -/
inductive VotingAction (W B : Type) where
  | insertRequest (messageHash : W) (message : B) (proposerPublicKey : Option W) (blockHeight : ℕ)
  | insertApproval (requestHash publicKey : W) (message : B) (blockHeight requiredApprovals : ℕ)
  | startExecution (messageHash : W) (transaction : B)
  | cancelExecution (messageHash : W)
  | recordBroadcast (messageHash proposerPublicKey : W) (transaction executionRequest : B) (txid : W)
  | confirmExecution (messageHash txid : W)
  | markExecutionIncluded (messageHash txid : W) (blockHeight : ℕ) (blockHash : W)
  | markExecutionOrphaned (messageHash txid : W)
  | resetExecutions
  | deleteExpired (currentBlockHeight timeoutBlocks : ℕ)
  | applyMemberMigration (requestHash txid : W)

namespace VotingStore

variable {W B : Type} [DecidableEq W] [DecidableEq B]

def program : VotingAction W B → Db (VotingStore W B) VotingStoreError PUnit
  | .insertRequest messageHash message proposerPublicKey blockHeight => do
    let _ ← insertSynchronizedRequest messageHash message proposerPublicKey blockHeight
  | .insertApproval requestHash publicKey message blockHeight requiredApprovals => do
    let _ ← insertApproval requestHash publicKey message blockHeight requiredApprovals
  | .startExecution messageHash transaction => do
    let _ ← startExecution messageHash transaction
  | .cancelExecution messageHash => cancelExecution messageHash
  | .recordBroadcast messageHash proposerPublicKey transaction executionRequest txid =>
    recordBroadcast messageHash proposerPublicKey transaction executionRequest txid
  | .confirmExecution messageHash txid => confirmExecution messageHash txid
  | .markExecutionIncluded messageHash txid blockHeight blockHash =>
    markExecutionIncluded messageHash txid blockHeight blockHash
  | .markExecutionOrphaned messageHash txid => markExecutionOrphaned messageHash txid
  | .resetExecutions => resetExecutions
  | .deleteExpired currentBlockHeight timeoutBlocks => do
    let _ ← deleteExpired currentBlockHeight timeoutBlocks
  | .applyMemberMigration requestHash txid => applyMemberMigration requestHash txid

def step (store : VotingStore W B) (action : VotingAction W B) : VotingStore W B :=
  ((program action).atomic.exec store).2

def run (store : VotingStore W B) (actions : List (VotingAction W B)) : VotingStore W B :=
  actions.foldl step store

end VotingStore

end PriceOracle
