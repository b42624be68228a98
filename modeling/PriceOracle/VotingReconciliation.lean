import PriceOracle.MemberUpdates
import PriceOracle.UserReconciliation
import PriceOracle.VotingExecution

/-!
# Confirmations of executed votes

`mod.rs`: `reconcile_voting_executions` asks the node about the transaction of each vote whose
execution is broadcast and not confirmed, in the order of the table, and sends a transaction
that is in no block once more. A member update that is final migrates the tables. The answers
of the node are parameters, one for each vote and each call. The attempts that the function
starts again behind the loop are left out.
-/

namespace PriceOracle

namespace VotingReconciliation

open Voting (Store storedRequest)

abbrev Row := StoredVotingRequest Bytes32 Bytes

inductive ReconcileError where
  | store (error : VotingStoreError)
  | unknownRequest (requestHash : Bytes32)
  | execution (error : VotingExecutionError)

structure TransactionConfirmation where
  confirmations : ℕ
  blockHeight : ℕ
  blockHash : Bytes32

/-- The node's answers and what is parsed of them. -/
structure VotingChain where
  getRawTransaction : Bytes32 → Except String RawTransactionInfo
  getBlockHeader : Bytes32 → Bytes32 → Except String ℕ
  getBlockHash : Bytes32 → ℕ → Except String String
  sendRawTransaction : Bytes32 → Bytes → Except String String
  getRawMempool : Bytes32 → Except String (List String)
  /-- The answer after a transaction has been refused. -/
  getRawTransactionAgain : Bytes32 → Except String RawTransactionInfo
  /-- The indexer's `hash_at` of the block of a final member update. -/
  hashAt : Bytes32 → ℕ → Except String Bytes32
  parseBlockHash : String → Except String Bytes32
  txidText : Bytes32 → String
  decodeExecution : Bytes → Option (ExecuteVotingRequest Bytes32 Bytes)
  /-- Whether the migrated Storm Eye can be built under the members, and the staged peers are complete and stored. -/
  migrationReady : Bytes32 → List Bytes32 → Except String Unit
  /-- The members after `finish_member_migration_state`. -/
  finishMemberMigration : Except String (List Bytes32)
  finalityConfirmations : ℕ

structure ReconcilingNode where
  votes : Store
  members : List Bytes32
  memberMigrationRequest : Option Bytes32
  spendingPaused : Bool

/-- The node under the members of a finished migration. -/
def ReconcilingNode.migrated (node : ReconcilingNode) (members : List Bytes32) : ReconcilingNode :=
  { node with members := members, memberMigrationRequest := none, spendingPaused := false }

/-- A broadcast execution that waits for its confirmation. -/
structure PendingBroadcast where
  requestHash : Bytes32
  txid : Bytes32
  request : ExecuteVotingRequest Bytes32 Bytes

variable (chain : VotingChain)

section Answers

def canonicalConfirmation (confirmations blockHeight : ℕ) (blockHash canonicalHash : Bytes32) :
    Option TransactionConfirmation :=
  if blockHash = canonicalHash then some ⟨confirmations, blockHeight, blockHash⟩ else none

def transactionConfirmation (requestHash : Bytes32) : Except VotingExecutionError (Option TransactionConfirmation) :=
  match chain.getRawTransaction requestHash with
  | .error _ => .ok none
  | .ok transaction =>
    if transaction.confirmations = 0 then .ok none
    else
      match transaction.blockHash with
      | none => .error (.invalid "confirmed voting transaction has no block hash")
      | some text => do
        let blockHash ← (chain.parseBlockHash text).mapError .invalid
        let height ← (chain.getBlockHeader requestHash blockHash).mapError .rpc
        let canonical ← (chain.getBlockHash requestHash height).mapError .rpc
        let canonicalHash ← (chain.parseBlockHash canonical).mapError .invalid
        return canonicalConfirmation transaction.confirmations height blockHash canonicalHash

def isConfirmed (transaction : Except String RawTransactionInfo) : Bool :=
  match transaction with
  | .ok transaction => 0 < transaction.confirmations
  | .error _ => false

def broadcast (item : PendingBroadcast) : Except VotingExecutionError Unit :=
  match item.request.finalTx with
  | none => .error (.invalid "final transaction is missing")
  | some finalTx =>
    match chain.sendRawTransaction item.requestHash finalTx with
    | .ok text =>
      if text = chain.txidText item.txid then .ok () else .error (.invalid "broadcast transaction id mismatch")
    | .error error => do
      let mempool ← (chain.getRawMempool item.requestHash).mapError .rpc
      if chain.txidText item.txid ∈ mempool ∨ isConfirmed (chain.getRawTransactionAgain item.requestHash) then .ok ()
      else .error (.rpc error)

def isFinal (inclusion : TransactionConfirmation) : Prop := chain.finalityConfirmations ≤ inclusion.confirmations

instance (inclusion : TransactionConfirmation) : Decidable (isFinal chain inclusion) :=
  inferInstanceAs (Decidable (_ ≤ _))

end Answers

section Statements

def onVotes {A : Type} (prog : Db Store VotingStoreError A) : Db ReconcilingNode ReconcileError A :=
  Db.zoom ReconcilingNode.votes (fun votes node => { node with votes := votes }) .store prog.atomic

def setSpendingPaused (paused : Bool) : Db ReconcilingNode ReconcileError Unit :=
  modify fun node => { node with spendingPaused := paused }

def setPausedFor (isMemberMigration paused : Bool) : Db ReconcilingNode ReconcileError Unit :=
  if isMemberMigration then setSpendingPaused paused else pure ()

def execution {A : Type} (result : Except VotingExecutionError A) : Db ReconcilingNode ReconcileError A :=
  Db.check (result.mapError .execution)

/-- `finish_member_migration_state` -/
def finishMemberMigration : Db ReconcilingNode ReconcileError Unit := do
  let members ← execution (chain.finishMemberMigration.mapError .invalid)
  modify fun node => node.migrated members

def activateMemberMigration (item : PendingBroadcast) (currentMembers : List Bytes32) :
    Db ReconcilingNode ReconcileError Unit := do
  execution ((chain.migrationReady item.requestHash currentMembers).mapError .invalid)
  onVotes (VotingStore.applyMemberMigration item.requestHash item.txid)
  finishMemberMigration chain

/-- What a final confirmation leads to. -/
def execute (item : PendingBroadcast) (inclusion : TransactionConfirmation) (currentMembers : List Bytes32)
    (isMemberMigration : Bool) : Db ReconcilingNode ReconcileError ℕ :=
  if isMemberMigration then do
    let canonicalHash ← execution ((chain.hashAt item.requestHash inclusion.blockHeight).mapError .invalid)
    if canonicalHash ≠ inclusion.blockHash then do
      setSpendingPaused false
      onVotes (VotingStore.markExecutionOrphaned item.requestHash item.txid)
      return 0
    else do
      activateMemberMigration chain item currentMembers
      return 1
  else do
    onVotes (VotingStore.confirmExecution item.requestHash item.txid)
    return 1

/-- `voting().get` of a vote that has to be there. -/
def currentVote (votes : Store) (requestHash : Bytes32) : Except ReconcileError NetworkVoteRequest :=
  match votes.requests.lookup requestHash with
  | none => .error (.unknownRequest requestHash)
  | some row =>
    match storedRequest row.message with
    | none => .error (.execution (.invalid "stored vote"))
    | some request => .ok request

/-- The transaction is in no block. -/
def rebroadcast (item : PendingBroadcast) (isMemberMigration : Bool) : Db ReconcilingNode ReconcileError ℕ := do
  setPausedFor isMemberMigration false
  onVotes (VotingStore.markExecutionOrphaned item.requestHash item.txid)
  execution (broadcast chain item)
  return 0

/-- The transaction is in a block. -/
def includeVote (item : PendingBroadcast) (inclusion : TransactionConfirmation) (currentMembers : List Bytes32)
    (isMemberMigration : Bool) : Db ReconcilingNode ReconcileError ℕ := do
  setPausedFor isMemberMigration true
  onVotes (VotingStore.markExecutionIncluded item.requestHash item.txid inclusion.blockHeight inclusion.blockHash)
  if isFinal chain inclusion then execute chain item inclusion currentMembers isMemberMigration else return 0

/-- One turn of the loop. -/
def reconcileVote (item : PendingBroadcast) : Db ReconcilingNode ReconcileError ℕ := do
  let node ← get
  let vote ← Db.check (currentVote node.votes item.requestHash)
  let target ← execution (MemberUpdate.memberMigrationTarget vote node.members)
  let confirmation ← execution (transactionConfirmation chain item.requestHash)
  match confirmation with
  | none => rebroadcast chain item target.isSome
  | some inclusion => includeVote chain item inclusion node.members target.isSome

/-- The votes whose execution is broadcast and not confirmed, in the order of the table. -/
def broadcastVotes (votes : Store) : List (Bytes32 × Row) :=
  let waiting := (votes.requests.entries.map fun row => (row.1, row.2)).filter fun row =>
    row.2.executionTxid.isSome && !row.2.executionConfirmed
  waiting.insertionSort fun a b =>
    a.2.blockHeight < b.2.blockHeight ∨ (a.2.blockHeight = b.2.blockHeight ∧ a.1.toList ≤ b.1.toList)

def pendingBroadcast (entry : Bytes32 × Row) : Except ReconcileError PendingBroadcast :=
  match entry.2.executionTxid, entry.2.executionRequest with
  | none, _ => .error (.execution (.invalid "broadcast voting txid is missing"))
  | some _, none => .error (.execution (.invalid "broadcast voting execution request is missing"))
  | some txid, some encoded =>
    match chain.decodeExecution encoded with
    | none => .error (.execution .encoding)
    | some request => .ok ⟨entry.1, txid, request⟩

def pendingBroadcasts (votes : Store) : Except ReconcileError (List PendingBroadcast) :=
  (broadcastVotes votes).mapM (pendingBroadcast chain)

/-- Whether the vote of the migration that the node is in has been executed. -/
def migrationExecuted (node : ReconcilingNode) : Except ReconcileError Bool :=
  match node.memberMigrationRequest.bind fun requestHash => node.votes.requests.lookup requestHash with
  | none => .ok false
  | some row =>
    match storedRequest row.message with
    | none => .error (.execution (.invalid "stored vote"))
    | some _ => .ok row.executionConfirmed

/-- A migration whose vote has been executed is finished first. -/
def finishExecuted : Db ReconcilingNode ReconcileError Unit := do
  let node ← get
  let executed ← Db.check (migrationExecuted node)
  if executed then finishMemberMigration chain else pure ()

def reconcileVotingExecutions : Db ReconcilingNode ReconcileError ℕ := do
  finishExecuted chain
  let node ← get
  let pending ← Db.check (pendingBroadcasts chain node.votes)
  Db.pass (reconcileVote chain) pending

end Statements

section Rows

variable {s t : ReconcilingNode} {h txid : Bytes32} {row : Row}

/-- Nothing but the row of one vote differs in what the loop reads. -/
structure Frame (s t : ReconcilingNode) (h : Bytes32) : Prop where
  votes : ∀ k, k ≠ h → t.votes.requests.lookup k = s.votes.requests.lookup k
  members : t.members = s.members

theorem Frame.refl (s : ReconcilingNode) (h : Bytes32) : Frame s s h := ⟨fun _ _ => rfl, rfl⟩

theorem Frame.trans {u : ReconcilingNode} (hst : Frame s t h) (htu : Frame t u h) : Frame s u h :=
  ⟨fun k hk => (htu.votes k hk).trans (hst.votes k hk), htu.members.trans hst.members⟩

theorem frame_insert (s : ReconcilingNode) (h : Bytes32) (row : Row) :
    Frame s { s with votes := { s.votes with requests := s.votes.requests.insert h row } } h := by
  refine ⟨fun k hk => ?_, rfl⟩
  rw [Table.lookup_insert_eq, if_neg hk]

theorem onVotes_ok {A : Type} {prog : Db Store VotingStoreError A} {a : A} {votes : Store}
    (hrun : prog.Returns s.votes a votes) : (onVotes prog).Returns s a { s with votes := votes } :=
  Db.returns_zoom.mpr ⟨votes, Db.returns_atomic.mpr hrun, rfl⟩

theorem onVotes_error {A : Type} {prog : Db Store VotingStoreError A} {e : VotingStoreError} (votes : Store)
    (hrun : prog.exec s.votes = (.error e, votes)) : (onVotes prog).exec s = (.error (.store e), s) := by
  unfold onVotes
  rw [Db.exec_zoom, Db.exec_atomic, hrun]

theorem setPausedFor_returns (isMemberMigration paused : Bool) (s : ReconcilingNode) :
    ∃ t, (setPausedFor isMemberMigration paused).Returns s () t ∧ t.votes = s.votes ∧ t.members = s.members := by
  unfold setPausedFor
  split_ifs
  · exact ⟨_, Db.returns_modify.mpr rfl, rfl, rfl⟩
  · exact ⟨s, Db.returns_pure.mpr ⟨rfl, rfl⟩, rfl, rfl⟩

theorem updateRequest_listed {p : Row → Bool} {f : Row → Row} {votes : Store} (hrow : votes.requests.lookup h = some row)
    (hp : p row = true) : (VotingStore.updateRequest h p f).Returns votes true
      { votes with requests := votes.requests.insert h (f row) } := by
  unfold VotingStore.updateRequest
  rw [Db.returns_get_bind, hrow]
  dsimp only
  rw [if_pos hp]
  exact Db.returns_bind.mpr ⟨⟨⟩, _, Db.returns_set.mpr rfl, Db.returns_pure.mpr ⟨rfl, rfl⟩⟩

theorem updateRequest_refused {p : Row → Bool} {f : Row → Row} {votes : Store} (hrow : votes.requests.lookup h = some row)
    (hp : ¬p row = true) : (VotingStore.updateRequest h p f).Returns votes false votes := by
  unfold VotingStore.updateRequest
  rw [Db.returns_get_bind, hrow]
  dsimp only
  rw [if_neg hp]
  exact Db.returns_pure.mpr ⟨rfl, rfl⟩

theorem updateExecution_listed {p : Row → Bool} {f : Row → Row} {votes : Store}
    (hrow : votes.requests.lookup h = some row) (hp : p row = true) :
    (VotingStore.updateExecution h p f).Returns votes ⟨⟩ { votes with requests := votes.requests.insert h (f row) } :=
  Db.returns_bind.mpr ⟨true, _, updateRequest_listed hrow hp, Db.returns_pure.mpr ⟨rfl, rfl⟩⟩

theorem updateExecution_refused {p : Row → Bool} {f : Row → Row} {votes : Store}
    (hrow : votes.requests.lookup h = some row) (hp : ¬p row = true) :
    (VotingStore.updateExecution h p f).exec votes = (.error .executionStateNotUpdated, votes) := by
  have hupdate := updateRequest_refused (f := f) hrow hp
  unfold VotingStore.updateExecution
  rw [Db.exec_bind, hupdate]
  rfl

theorem orphan_listed (txid : Bytes32) (hrow : s.votes.requests.lookup h = some row) :
    ∃ t, (onVotes (VotingStore.markExecutionOrphaned h txid)).Returns s ⟨⟩ t ∧ Frame s t h := by
  by_cases hp : (decide (row.executionTxid = some txid) && !row.executionConfirmed) = true
  · have hupdate := updateRequest_listed (f := VotingStore.orphanedRow)
      (p := fun row => decide (row.executionTxid = some txid) && !row.executionConfirmed) hrow hp
    exact ⟨_, onVotes_ok (Db.returns_bind.mpr ⟨true, _, hupdate, Db.returns_pure.mpr ⟨rfl, rfl⟩⟩), frame_insert s h _⟩
  · have hupdate := updateRequest_refused (f := VotingStore.orphanedRow)
      (p := fun row => decide (row.executionTxid = some txid) && !row.executionConfirmed) hrow hp
    exact ⟨_, onVotes_ok (Db.returns_bind.mpr ⟨false, _, hupdate, Db.returns_pure.mpr ⟨rfl, rfl⟩⟩), Frame.refl s h⟩

def includedRow (row : Row) (height : ℕ) (blockHash : Bytes32) : Row :=
  { row with executionIncludedAtBlock := some height, executionIncludedBlockHash := some blockHash }

theorem include_listed {height : ℕ} (txid blockHash : Bytes32) (hrow : s.votes.requests.lookup h = some row)
    (htxid : row.executionTxid = some txid) (hopen : row.executionConfirmed = false) (hheight : height < 2 ^ 63) :
    (onVotes (VotingStore.markExecutionIncluded h txid height blockHash)).Returns s ⟨⟩
      { s with votes := { s.votes with requests := s.votes.requests.insert h (includedRow row height blockHash) } } := by
  refine onVotes_ok (Db.returns_bind.mpr ⟨height, s.votes, ?_, updateExecution_listed hrow ?_⟩)
  · rw [VotingStore.heightToI64, if_pos hheight]
    exact Db.returns_pure.mpr ⟨rfl, rfl⟩
  · rw [htxid, hopen]
    simp

theorem include_tooHigh {height : ℕ} {blockHash : Bytes32} (hheight : ¬height < 2 ^ 63) :
    (onVotes (VotingStore.markExecutionIncluded h txid height blockHash)).exec s = (.error (.store .sqlx), s) := by
  refine onVotes_error s.votes ?_
  unfold VotingStore.markExecutionIncluded VotingStore.heightToI64
  rw [Db.exec_bind, if_neg hheight]
  rfl

/-- What `confirm_execution` asks of the row. -/
def confirmable (txid : Bytes32) (row : Row) : Bool :=
  row.approvedAtBlockHeight.isSome && row.executionRequest.isSome && decide (row.executionTxid = some txid) &&
    row.executionIncludedBlockHash.isSome && !row.executionConfirmed

def executedRow (row : Row) : Row := { row with executionStarted := false, executionConfirmed := true }

theorem confirm_listed (txid : Bytes32) (hrow : s.votes.requests.lookup h = some row) (hconfirm : confirmable txid row = true) :
    (onVotes (VotingStore.confirmExecution h txid)).Returns s ⟨⟩
      { s with votes := { s.votes with requests := s.votes.requests.insert h (executedRow row) } } :=
  onVotes_ok (updateExecution_listed hrow hconfirm)

theorem confirm_refused (txid : Bytes32) (hrow : s.votes.requests.lookup h = some row) (hconfirm : ¬confirmable txid row = true) :
    (onVotes (VotingStore.confirmExecution h txid)).exec s = (.error (.store .executionStateNotUpdated), s) :=
  onVotes_error _ (updateExecution_refused hrow hconfirm)

/-- The migration keeps the confirmed votes, its own among them. -/
theorem apply_listed (txid : Bytes32) (hrow : s.votes.requests.lookup h = some row) (htxid : row.executionTxid = some txid)
    (hrequest : row.executionRequest.isSome = true) (hopen : row.executionConfirmed = false) :
    ∃ t, (onVotes (VotingStore.applyMemberMigration h txid)).Returns s ⟨⟩ t ∧
      t.votes.requests.lookup h = some (executedRow row) ∧
      (∀ k, k ≠ h → t.votes.requests.lookup k = (s.votes.requests.lookup k).filter fun row => row.executionConfirmed) ∧
      t.members = s.members := by
  have hupdate := updateExecution_listed (f := executedRow)
    (p := fun row => decide (row.executionTxid = some txid) && row.executionRequest.isSome && !row.executionConfirmed)
    hrow (by rw [htxid, hrequest, hopen]; simp)
  refine ⟨_, onVotes_ok (Db.returns_bind.mpr ⟨⟨⟩, _, hupdate, Db.returns_modify.mpr rfl⟩), ?_, fun k hk => ?_, rfl⟩
  · rw [Table.lookup_filterRows, Table.lookup_insert_eq, if_pos rfl]
    rfl
  · rw [Table.lookup_filterRows, Table.lookup_insert_eq, if_neg hk]

end Rows

section Turns

def isMemberMigration (row : Row) : Bool :=
  (storedRequest row.message).any fun request => NetworkVoteKind.fromId request.kind = some .updateNetworkMembers

variable (members : List Bytes32) (entry : Bytes32 × Row)

/-- The node answers that the transaction of the vote is in a block of the chain, also when a final member
update asks for the block once more. -/
def Confirmed (inclusion : TransactionConfirmation) : Prop :=
  transactionConfirmation chain entry.1 = .ok (some inclusion) ∧
    (isFinal chain inclusion → isMemberMigration entry.2 = true →
      ∀ blockHash, chain.hashAt entry.1 inclusion.blockHeight = .ok blockHash → blockHash = inclusion.blockHash)

/-- The vote is included in the block of the answer, and executed if that is final. -/
def Marked (inclusion : TransactionConfirmation) (row : Row) : Prop :=
  row.executionIncludedAtBlock = some inclusion.blockHeight ∧
    row.executionIncludedBlockHash = some inclusion.blockHash ∧
    (isFinal chain inclusion → row.executionConfirmed = true)

/-- What ends the pass at a vote: it cannot be read, the node does not answer about its transaction, that
is missing and cannot be sent again, or its confirmation cannot be stored or carried out. -/
inductive Stops : Prop
  | vote (h : storedRequest entry.2.message = none)
  | update (request : NetworkVoteRequest) (error : VotingExecutionError) (h : storedRequest entry.2.message = some request)
      (herror : MemberUpdate.memberMigrationTarget request members = .error error)
  | confirmation (error : VotingExecutionError) (h : transactionConfirmation chain entry.1 = .error error)
  | missing (item : PendingBroadcast) (error : VotingExecutionError) (hitem : pendingBroadcast chain entry = .ok item)
      (h : transactionConfirmation chain entry.1 = .ok none) (herror : broadcast chain item = .error error)
  | tooHigh (inclusion : TransactionConfirmation) (h : transactionConfirmation chain entry.1 = .ok (some inclusion))
      (hheight : ¬inclusion.blockHeight < 2 ^ 63)
  | hashAt (inclusion : TransactionConfirmation) (error : String)
      (h : transactionConfirmation chain entry.1 = .ok (some inclusion)) (hfinal : isFinal chain inclusion)
      (hmigration : isMemberMigration entry.2 = true)
      (herror : chain.hashAt entry.1 inclusion.blockHeight = .error error)
  | notReady (inclusion : TransactionConfirmation) (error : String)
      (h : transactionConfirmation chain entry.1 = .ok (some inclusion)) (hfinal : isFinal chain inclusion)
      (hmigration : isMemberMigration entry.2 = true)
      (hhash : chain.hashAt entry.1 inclusion.blockHeight = .ok inclusion.blockHash)
      (herror : chain.migrationReady entry.1 members = .error error)
  | notApproved (inclusion : TransactionConfirmation)
      (h : transactionConfirmation chain entry.1 = .ok (some inclusion)) (hfinal : isFinal chain inclusion)
      (hmigration : isMemberMigration entry.2 = false) (happroved : entry.2.approvedAtBlockHeight = none)

/-- The vote is a member update whose transaction is final, and its migration is carried out. -/
structure Activates (inclusion : TransactionConfirmation) : Prop where
  confirmation : transactionConfirmation chain entry.1 = .ok (some inclusion)
  height : inclusion.blockHeight < 2 ^ 63
  final : isFinal chain inclusion
  update : ∃ request target, storedRequest entry.2.message = some request ∧
    MemberUpdate.memberMigrationTarget request members = .ok (some target)
  canonical : chain.hashAt entry.1 inclusion.blockHeight = .ok inclusion.blockHash
  ready : chain.migrationReady entry.1 members = .ok ()

variable {chain members entry} {item : PendingBroadcast} {s : ReconcilingNode}

/-- One turn: how it goes on, what it marks and what it leaves alone. -/
inductive Turn (chain : VotingChain) (members : List Bytes32) (entry : Bytes32 × Row) (item : PendingBroadcast)
    (s : ReconcilingNode) : Prop
  | goes (n : ℕ) (t : ReconcilingNode) (hstop : ¬Stops chain members entry)
      (hactivates : ∀ inclusion, ¬Activates chain members entry inclusion)
      (hrun : (reconcileVote chain item).Returns s n t) (hframe : Frame s t entry.1)
      (hmarked : ∀ inclusion, Confirmed chain entry inclusion → ∃ row, t.votes.requests.lookup entry.1 = some row ∧
        Marked chain inclusion row ∧ (row.executionConfirmed = true → isFinal chain inclusion))
  | stopped (e : ReconcileError) (t : ReconcilingNode) (hstop : Stops chain members entry)
      (hactivates : ∀ inclusion, ¬Activates chain members entry inclusion)
      (hrun : (reconcileVote chain item).exec s = (.error e, t)) (hframe : Frame s t entry.1)
      (hmarked : ∀ inclusion, Confirmed chain entry inclusion →
        ∃ row, t.votes.requests.lookup entry.1 = some row ∧ (Marked chain inclusion row ↔ Marked chain inclusion entry.2))
  | activated (inclusion : TransactionConfirmation) (result : Except ReconcileError ℕ) (t : ReconcilingNode)
      (hstop : ¬Stops chain members entry) (hactivates : Activates chain members entry inclusion)
      (hrun : (reconcileVote chain item).exec s = (result, t))
      (hmarked : ∃ row, t.votes.requests.lookup entry.1 = some row ∧ Marked chain inclusion row)
      (hothers : ∀ k, k ≠ entry.1 →
        t.votes.requests.lookup k = (s.votes.requests.lookup k).filter fun row => row.executionConfirmed)

theorem pendingBroadcast_ok (h : pendingBroadcast chain entry = .ok item) :
    item.requestHash = entry.1 ∧ entry.2.executionTxid = some item.txid ∧ entry.2.executionRequest.isSome = true := by
  unfold pendingBroadcast at h
  cases htxid : entry.2.executionTxid with
  | none =>
    rw [htxid] at h
    cases h
  | some txid =>
    cases hrequest : entry.2.executionRequest with
    | none =>
      rw [htxid, hrequest] at h
      cases h
    | some encoded =>
      rw [htxid, hrequest] at h
      dsimp only at h
      cases hdecoded : chain.decodeExecution encoded with
      | none =>
        rw [hdecoded] at h
        cases h
      | some request =>
        rw [hdecoded] at h
        cases h
        exact ⟨rfl, rfl, rfl⟩

theorem target_isSome {request : NetworkVoteRequest} {target : Option (List Bytes32)}
    (h : MemberUpdate.memberMigrationTarget request members = .ok target) :
    target.isSome = decide (NetworkVoteKind.fromId request.kind = some .updateNetworkMembers) := by
  unfold MemberUpdate.memberMigrationTarget at h
  by_cases hkind : NetworkVoteKind.fromId request.kind = some .updateNetworkMembers
  · rw [if_neg (not_not.mpr hkind)] at h
    obtain ⟨update, -, h⟩ := Db.except_bind_ok.mp h
    rw [← Except.ok.inj h, decide_eq_true hkind]
    rfl
  · rw [if_pos hkind] at h
    rw [← Except.ok.inj h, decide_eq_false hkind]
    rfl

/-- A turn whose vote can be read goes on by the confirmation of its transaction. -/
theorem reconcileVote_exec (chain : VotingChain) {row : Row} {request : NetworkVoteRequest} {target : Option (List Bytes32)}
    {confirmation : Option TransactionConfirmation} (hrow : s.votes.requests.lookup item.requestHash = some row)
    (hrequest : storedRequest row.message = some request)
    (htarget : MemberUpdate.memberMigrationTarget request s.members = .ok target)
    (hconfirmation : transactionConfirmation chain item.requestHash = .ok confirmation) :
    (reconcileVote chain item).exec s = (match confirmation with
      | none => rebroadcast chain item target.isSome
      | some inclusion => includeVote chain item inclusion s.members target.isSome).exec s := by
  have hvote : currentVote s.votes item.requestHash = .ok request := by
    unfold currentVote
    rw [hrow]
    dsimp only
    rw [hrequest]
  have hread : ∀ f : NetworkVoteRequest → Db ReconcilingNode ReconcileError ℕ,
      (Db.check (Except.ok request) >>= f) = f request := fun f => rfl
  unfold reconcileVote
  rw [Db.exec_get_bind, hvote, hread, htarget, hconfirmation]
  cases confirmation <;> rfl

theorem confirmed_inclusion {inclusion other : TransactionConfirmation} (h : Confirmed chain entry other)
    (hconfirmation : transactionConfirmation chain entry.1 = .ok (some inclusion)) : other = inclusion :=
  Option.some.inj (Except.ok.inj (h.1.symm.trans hconfirmation))

/-- The turn of a vote whose transaction is in no block. -/
theorem turn_missing {isMigration : Bool} (hitem : pendingBroadcast chain entry = .ok item)
    (hrow : s.votes.requests.lookup entry.1 = some entry.2)
    (hread : ∀ request, storedRequest entry.2.message = some request →
      ∃ target, MemberUpdate.memberMigrationTarget request members = .ok target)
    (hvote : storedRequest entry.2.message ≠ none)
    (hconfirmation : transactionConfirmation chain entry.1 = .ok none)
    (hrun : (reconcileVote chain item).exec s = (rebroadcast chain item isMigration).exec s) :
    Turn chain members entry item s := by
  obtain ⟨hhash, htxid, hrequest⟩ := pendingBroadcast_ok hitem
  obtain ⟨u, hpause, hvotes, hmembers⟩ := setPausedFor_returns isMigration false s
  obtain ⟨t, horphan, hframe⟩ := orphan_listed (s := u) item.txid
    (by rw [hvotes]; exact hrow)
  have hframe' : Frame s t entry.1 :=
    ⟨fun k hk => (hframe.votes k hk).trans (by rw [hvotes]), hframe.members.trans hmembers⟩
  have hunconfirmed : ∀ inclusion, ¬Confirmed chain entry inclusion := fun inclusion h => by
    have hsome := hconfirmation.symm.trans h.1
    cases hsome
  have hactivates : ∀ inclusion, ¬Activates chain members entry inclusion := fun inclusion h => by
    have hsome := hconfirmation.symm.trans h.confirmation
    cases hsome
  rw [← hhash] at horphan
  cases hsend : broadcast chain item with
  | error error =>
    refine .stopped (.execution error) t (.missing item error hitem hconfirmation hsend) hactivates ?_ hframe'
      fun inclusion h => absurd h (hunconfirmed inclusion)
    rw [hrun, rebroadcast, Db.exec_bind, hpause]
    dsimp only
    rw [Db.exec_bind, horphan]
    dsimp only
    rw [hsend]
    rfl
  | ok sent =>
    refine .goes 0 t (fun hstop => ?_) hactivates ?_ hframe' fun inclusion h => absurd h (hunconfirmed inclusion)
    · cases hstop with
      | vote h => exact hvote h
      | update request error h herror =>
        obtain ⟨target, htarget⟩ := hread request h
        rw [htarget] at herror
        cases herror
      | confirmation error h =>
        rw [hconfirmation] at h
        cases h
      | missing other error hother h herror =>
        have heq : other = item := Except.ok.inj (hother.symm.trans hitem)
        rw [heq, hsend] at herror
        cases herror
      | tooHigh inclusion h => rw [hconfirmation] at h; cases h
      | hashAt inclusion error h => rw [hconfirmation] at h; cases h
      | notReady inclusion error h => rw [hconfirmation] at h; cases h
      | notApproved inclusion h => rw [hconfirmation] at h; cases h
    · change (reconcileVote chain item).exec s = _
      rw [hrun]
      refine Db.returns_bind.mpr ⟨(), u, hpause, Db.returns_bind.mpr ⟨⟨⟩, t, horphan, Db.returns_bind.mpr ⟨(), t, ?_, ?_⟩⟩⟩
      · rw [hsend]
        exact Db.returns_check.mpr ⟨rfl, rfl⟩
      · exact Db.returns_pure.mpr ⟨rfl, rfl⟩

section Inclusions

variable {inclusion : TransactionConfirmation} {request : NetworkVoteRequest} {target : Option (List Bytes32)}

/-- What ends the pass at a vote that can be read and whose transaction is in a block. -/
theorem stops_of_inclusion (hrequest : storedRequest entry.2.message = some request)
    (htarget : MemberUpdate.memberMigrationTarget request members = .ok target)
    (hconfirmation : transactionConfirmation chain entry.1 = .ok (some inclusion)) (h : Stops chain members entry) :
    ¬inclusion.blockHeight < 2 ^ 63 ∨ isFinal chain inclusion ∧
      (isMemberMigration entry.2 = true ∧ ((∃ error, chain.hashAt entry.1 inclusion.blockHeight = .error error) ∨
          chain.hashAt entry.1 inclusion.blockHeight = .ok inclusion.blockHash ∧
            ∃ error, chain.migrationReady entry.1 members = .error error) ∨
        isMemberMigration entry.2 = false ∧ entry.2.approvedAtBlockHeight = none) := by
  have hsame : ∀ other, transactionConfirmation chain entry.1 = .ok (some other) → other = inclusion := fun other h =>
    Option.some.inj (Except.ok.inj (h.symm.trans hconfirmation))
  cases h with
  | vote h =>
    rw [hrequest] at h
    cases h
  | update other error h herror =>
    rw [hrequest, Option.some_inj] at h
    rw [← h, htarget] at herror
    cases herror
  | confirmation error h =>
    rw [hconfirmation] at h
    cases h
  | missing item error hitem h =>
    rw [hconfirmation] at h
    cases h
  | tooHigh other h hheight => exact .inl (hsame other h ▸ hheight)
  | hashAt other error h hfinal hmigration herror =>
    rw [hsame other h] at hfinal herror
    exact .inr ⟨hfinal, .inl ⟨hmigration, .inl ⟨error, herror⟩⟩⟩
  | notReady other error h hfinal hmigration hhash herror =>
    rw [hsame other h] at hfinal hhash
    exact .inr ⟨hfinal, .inl ⟨hmigration, .inr ⟨hhash, error, herror⟩⟩⟩
  | notApproved other h hfinal hmigration happroved =>
    exact .inr ⟨hsame other h ▸ hfinal, .inr ⟨hmigration, happroved⟩⟩

theorem isMemberMigration_eq (hrequest : storedRequest entry.2.message = some request)
    (htarget : MemberUpdate.memberMigrationTarget request members = .ok target) :
    isMemberMigration entry.2 = target.isSome := by
  rw [isMemberMigration, hrequest, target_isSome htarget]
  rfl

theorem marked_included (row : Row) (hfinal : isFinal chain inclusion → row.executionConfirmed = true) :
    Marked chain inclusion (includedRow row inclusion.blockHeight inclusion.blockHash) := ⟨rfl, rfl, hfinal⟩

/-- The row of an execution that is not final, as the turn leaves it. -/
theorem includeVote_exec (chain : VotingChain) (members : List Bytes32) (isMigration : Bool) (hrow : s.votes.requests.lookup item.requestHash = some entry.2)
    (htxid : entry.2.executionTxid = some item.txid) (hopen : entry.2.executionConfirmed = false)
    (hheight : inclusion.blockHeight < 2 ^ 63) :
    ∃ v, (includeVote chain item inclusion members isMigration).exec s =
        (if isFinal chain inclusion then execute chain item inclusion members isMigration else pure 0).exec v ∧
      v.votes.requests.lookup item.requestHash =
        some (includedRow entry.2 inclusion.blockHeight inclusion.blockHash) ∧ Frame s v item.requestHash := by
  obtain ⟨u, hpause, hvotes, hmembers⟩ := setPausedFor_returns isMigration true s
  have hinclude := include_listed (s := u) (h := item.requestHash) item.txid
    inclusion.blockHash (by rw [hvotes]; exact hrow) htxid hopen hheight
  have hframe := frame_insert u item.requestHash (includedRow entry.2 inclusion.blockHeight inclusion.blockHash)
  refine ⟨_, ?_, ?_, fun k hk => (hframe.votes k hk).trans (by rw [hvotes]), hframe.members.trans hmembers⟩
  · unfold includeVote
    rw [Db.exec_bind, hpause]
    dsimp only
    rw [Db.exec_bind, hinclude]
  · rw [Table.lookup_insert_eq, if_pos rfl]

theorem includeVote_tooHigh (chain : VotingChain) (members : List Bytes32) (item : PendingBroadcast) (isMigration : Bool) (hheight : ¬inclusion.blockHeight < 2 ^ 63) :
    ∃ e u, (includeVote chain item inclusion members isMigration).exec s = (.error e, u) ∧
      u.votes = s.votes ∧ u.members = s.members := by
  obtain ⟨u, hpause, hvotes, hmembers⟩ := setPausedFor_returns isMigration true s
  refine ⟨.store .sqlx, u, ?_, hvotes, hmembers⟩
  unfold includeVote
  rw [Db.exec_bind, hpause]
  dsimp only
  rw [Db.exec_bind, include_tooHigh hheight]

theorem exec_execution {A B : Type} {result : Except String A} {a : A} (h : result = .ok a)
    {f : A → Db ReconcilingNode ReconcileError B} :
    (execution (result.mapError .invalid) >>= f).exec s = (f a).exec s := by
  rw [h]
  rfl

theorem finish_exec (chain : VotingChain) (s : ReconcilingNode) :
    ∃ result t, (do
      finishMemberMigration chain
      return 1 : Db ReconcilingNode ReconcileError ℕ).exec s = (result, t) ∧ t.votes = s.votes := by
  unfold finishMemberMigration
  cases chain.finishMemberMigration with
  | error error => exact ⟨_, s, rfl, rfl⟩
  | ok members =>
    exact ⟨.ok 1, s.migrated members, rfl, rfl⟩

/-- The turn of a final execution that is no member update. -/
theorem turn_confirm {v : ReconcilingNode} (hitem : pendingBroadcast chain entry = .ok item)
    (hrequest : storedRequest entry.2.message = some request)
    (htarget : MemberUpdate.memberMigrationTarget request members = .ok target)
    (hconfirmation : transactionConfirmation chain entry.1 = .ok (some inclusion))
    (hopen : entry.2.executionConfirmed = false) (hheight : inclusion.blockHeight < 2 ^ 63)
    (hfinal : isFinal chain inclusion) (hmigration : isMemberMigration entry.2 = false)
    (hrow : v.votes.requests.lookup entry.1 = some (includedRow entry.2 inclusion.blockHeight inclusion.blockHash))
    (hframe : Frame s v entry.1)
    (hrun : (reconcileVote chain item).exec s = (execute chain item inclusion members false).exec v) :
    Turn chain members entry item s := by
  obtain ⟨hhash, htxid, hstored⟩ := pendingBroadcast_ok hitem
  have hactivates : ∀ other, ¬Activates chain members entry other := by
    rintro other ⟨-, -, -, ⟨request', target', hrequest', htarget'⟩, -, -⟩
    have hkind := isMemberMigration_eq hrequest' htarget'
    rw [hmigration] at hkind
    cases hkind
  have hexecute : execute chain item inclusion members false = (do
      onVotes (VotingStore.confirmExecution item.requestHash item.txid)
      return 1) := rfl
  have hconfirmable : confirmable item.txid (includedRow entry.2 inclusion.blockHeight inclusion.blockHash) =
      entry.2.approvedAtBlockHeight.isSome := by
    unfold confirmable includedRow
    rw [htxid, hstored, hopen]
    simp
  rw [hexecute, hhash] at hrun
  cases happroved : entry.2.approvedAtBlockHeight with
  | none =>
    have hrefused := confirm_refused item.txid hrow (by rw [hconfirmable, happroved]; decide)
    refine .stopped (.store .executionStateNotUpdated) v (.notApproved inclusion hconfirmation hfinal hmigration happroved)
      hactivates ?_ hframe fun other hother => ⟨_, hrow, fun h => ?_, fun h => ?_⟩
    · rw [hrun, Db.exec_bind, hrefused]
    · have hdone := h.2.2 (confirmed_inclusion hother hconfirmation ▸ hfinal)
      rw [includedRow, hopen] at hdone
      cases hdone
    · have hdone := h.2.2 (confirmed_inclusion hother hconfirmation ▸ hfinal)
      rw [hopen] at hdone
      cases hdone
  | some height =>
    have hconfirm := confirm_listed item.txid hrow (by rw [hconfirmable, happroved]; rfl)
    have hframe' := frame_insert v entry.1
      (executedRow (includedRow entry.2 inclusion.blockHeight inclusion.blockHash))
    refine .goes 1 _ (fun hstop => ?_) hactivates ?_ (hframe.trans hframe') fun other hother =>
      ⟨executedRow (includedRow entry.2 inclusion.blockHeight inclusion.blockHash), ?_, ?_⟩
    · rcases stops_of_inclusion hrequest htarget hconfirmation hstop with hhigh | ⟨-, ⟨hupdate, -⟩ | ⟨-, hnone⟩⟩
      · exact hhigh hheight
      · rw [hmigration] at hupdate
        cases hupdate
      · rw [happroved] at hnone
        cases hnone
    · change (reconcileVote chain item).exec s = _
      rw [hrun]
      exact Db.returns_bind.mpr ⟨⟨⟩, _, hconfirm, Db.returns_pure.mpr ⟨rfl, rfl⟩⟩
    · exact (Table.lookup_insert_eq _ _ _ _).trans (if_pos rfl)
    · rw [confirmed_inclusion hother hconfirmation]
      exact ⟨⟨rfl, rfl, fun _ => rfl⟩, fun _ => hfinal⟩

/-- The turn of a final member update. -/
theorem turn_migration {v : ReconcilingNode} {members' : List Bytes32}
    (hitem : pendingBroadcast chain entry = .ok item)
    (hrequest : storedRequest entry.2.message = some request)
    (htarget : MemberUpdate.memberMigrationTarget request members = .ok (some members'))
    (hconfirmation : transactionConfirmation chain entry.1 = .ok (some inclusion))
    (hopen : entry.2.executionConfirmed = false) (hheight : inclusion.blockHeight < 2 ^ 63)
    (hfinal : isFinal chain inclusion)
    (hrow : v.votes.requests.lookup entry.1 = some (includedRow entry.2 inclusion.blockHeight inclusion.blockHash))
    (hframe : Frame s v entry.1)
    (hrun : (reconcileVote chain item).exec s = (execute chain item inclusion members true).exec v) :
    Turn chain members entry item s := by
  obtain ⟨hhash, htxid, hstored⟩ := pendingBroadcast_ok hitem
  have hmigration : isMemberMigration entry.2 = true := isMemberMigration_eq hrequest htarget
  have hsame : ∀ {other}, Activates chain members entry other → other = inclusion := fun h =>
    Option.some.inj (Except.ok.inj (h.confirmation.symm.trans hconfirmation))
  -- Neither the listed row nor the included one counts as executed.
  have hunmarked : ∀ other, Confirmed chain entry other →
      ∃ row, v.votes.requests.lookup entry.1 = some row ∧ (Marked chain other row ↔ Marked chain other entry.2) := by
    intro other hother
    have hfinal' : isFinal chain other := confirmed_inclusion hother hconfirmation ▸ hfinal
    refine ⟨_, hrow, fun h => ?_, fun h => ?_⟩
    · have hdone := h.2.2 hfinal'
      rw [includedRow, hopen] at hdone
      cases hdone
    · have hdone := h.2.2 hfinal'
      rw [hopen] at hdone
      cases hdone
  rw [← hhash] at hrow
  cases hat : chain.hashAt entry.1 inclusion.blockHeight with
  | error error =>
    refine .stopped (.execution (.invalid error)) v (.hashAt inclusion error hconfirmation hfinal hmigration hat)
      (fun other h => ?_) ?_ hframe hunmarked
    · have hcanonical := h.canonical
      rw [hsame h, hat] at hcanonical
      cases hcanonical
    · rw [hrun, execute, if_pos rfl, hhash, hat]
      rfl
  | ok canonicalHash =>
    by_cases hcanonical : canonicalHash = inclusion.blockHash
    · have hexecute : (execute chain item inclusion members true).exec v = (do
          activateMemberMigration chain item members
          return 1 : Db ReconcilingNode ReconcileError ℕ).exec v := by
        rw [execute, if_pos rfl, hhash, exec_execution hat, if_neg (not_not.mpr hcanonical)]
      rw [hcanonical] at hat
      rw [hexecute] at hrun
      cases hready : chain.migrationReady entry.1 members with
      | error error =>
        refine .stopped (.execution (.invalid error)) v
          (.notReady inclusion error hconfirmation hfinal hmigration hat hready) (fun other h => ?_) ?_ hframe hunmarked
        · have hok := h.ready
          rw [hready] at hok
          cases hok
        · rw [hrun, Db.exec_bind, activateMemberMigration, hhash, hready]
          rfl
      | ok ready =>
        obtain ⟨w, happly, hdone, hothers, hmembers⟩ := apply_listed item.txid hrow htxid hstored hopen
        have hactivate : (activateMemberMigration chain item members).exec v = (finishMemberMigration chain).exec w := by
          rw [activateMemberMigration, hhash, exec_execution hready, Db.exec_bind]
          rw [hhash] at happly
          rw [happly]
        obtain ⟨result, t, hfinish, hvotes⟩ := finish_exec chain w
        refine .activated inclusion result t (fun hstop => ?_)
          ⟨hconfirmation, hheight, hfinal, ⟨request, members', hrequest, htarget⟩, hat, hready⟩ ?_
            ⟨executedRow (includedRow entry.2 inclusion.blockHeight inclusion.blockHash), ?_, ?_⟩
            fun k hk => ?_
        · rcases stops_of_inclusion hrequest htarget hconfirmation hstop with
            hhigh | ⟨-, ⟨-, ⟨error, herror⟩ | ⟨-, error, herror⟩⟩ | ⟨hupdate, -⟩⟩
          · exact hhigh hheight
          · rw [hat] at herror
            cases herror
          · rw [hready] at herror
            cases herror
          · rw [hmigration] at hupdate
            cases hupdate
        · rw [hrun, Db.exec_bind, hactivate, ← Db.exec_bind, hfinish]
        · rw [hvotes, ← hhash]
          exact hdone
        · exact ⟨rfl, rfl, fun _ => rfl⟩
        · rw [hvotes, hothers k (hhash ▸ hk), hframe.votes k hk]
    · have hother : ∀ other, ¬Confirmed chain entry other := fun other h => by
        have heq := confirmed_inclusion h hconfirmation
        exact hcanonical ((h.2 (heq ▸ hfinal) hmigration canonicalHash (heq ▸ hat)).trans (by rw [heq]))
      obtain ⟨t, horphan, hframe'⟩ := orphan_listed (s := { v with spendingPaused := false }) item.txid hrow
      rw [hhash] at hframe'
      refine .goes 0 t (fun hstop => ?_) (fun other h => ?_) ?_ (hframe.trans ⟨hframe'.votes, hframe'.members⟩)
        fun other h => absurd h (hother other)
      · rcases stops_of_inclusion hrequest htarget hconfirmation hstop with
          hhigh | ⟨-, ⟨-, ⟨error, herror⟩ | ⟨hhash', -⟩⟩ | ⟨hupdate, -⟩⟩
        · exact hhigh hheight
        · rw [hat] at herror
          cases herror
        · rw [hat] at hhash'
          exact hcanonical (Except.ok.inj hhash')
        · rw [hmigration] at hupdate
          cases hupdate
      · have hok := h.canonical
        rw [hsame h, hat] at hok
        exact hcanonical (Except.ok.inj hok)
      · change (reconcileVote chain item).exec s = _
        rw [hrun, execute, if_pos rfl, hhash, exec_execution hat, if_pos hcanonical]
        rw [hhash] at horphan
        exact Db.returns_bind.mpr ⟨(), { v with spendingPaused := false }, Db.returns_modify.mpr rfl,
          Db.returns_bind.mpr ⟨⟨⟩, t, horphan, Db.returns_pure.mpr ⟨rfl, rfl⟩⟩⟩

end Inclusions

/-- A turn that ends before it has touched the row. -/
theorem turn_untouched {e : ReconcileError} {u : ReconcilingNode} (hstop : Stops chain members entry)
    (hactivates : ∀ inclusion, ¬Activates chain members entry inclusion)
    (hrow : s.votes.requests.lookup entry.1 = some entry.2)
    (hrun : (reconcileVote chain item).exec s = (.error e, u)) (hvotes : u.votes = s.votes)
    (hmembers : u.members = s.members) : Turn chain members entry item s :=
  .stopped e u hstop hactivates hrun ⟨fun k _ => by rw [hvotes], hmembers⟩ fun _ _ =>
    ⟨entry.2, by rw [hvotes]; exact hrow, Iff.rfl⟩

theorem turn (hitem : pendingBroadcast chain entry = .ok item) (hrow : s.votes.requests.lookup entry.1 = some entry.2)
    (hmembers : s.members = members) (hopen : entry.2.executionConfirmed = false) :
    Turn chain members entry item s := by
  obtain ⟨hhash, htxid, -⟩ := pendingBroadcast_ok hitem
  have hrow' : s.votes.requests.lookup item.requestHash = some entry.2 := by
    rw [hhash]
    exact hrow
  cases hrequest : storedRequest entry.2.message with
  | none =>
    have hvote : currentVote s.votes item.requestHash = .error (.execution (.invalid "stored vote")) := by
      unfold currentVote
      rw [hrow']
      dsimp only
      rw [hrequest]
    refine turn_untouched (e := .execution (.invalid "stored vote")) (.vote hrequest) (fun inclusion h => ?_) hrow ?_ rfl rfl
    · obtain ⟨request, target, hsome, -⟩ := h.update
      rw [hrequest] at hsome
      cases hsome
    · unfold reconcileVote
      rw [Db.exec_get_bind, hvote]
      rfl
  | some request =>
    have hvote : currentVote s.votes item.requestHash = .ok request := by
      unfold currentVote
      rw [hrow']
      dsimp only
      rw [hrequest]
    have hread : ∀ f : NetworkVoteRequest → Db ReconcilingNode ReconcileError ℕ,
        (Db.check (Except.ok request) >>= f) = f request := fun f => rfl
    cases htarget : MemberUpdate.memberMigrationTarget request members with
    | error error =>
      refine turn_untouched (e := .execution error) (.update request error hrequest htarget)
        (fun inclusion h => ?_) hrow ?_ rfl rfl
      · obtain ⟨other, target, hsome, hok⟩ := h.update
        rw [hrequest, Option.some_inj] at hsome
        rw [← hsome, htarget] at hok
        cases hok
      · unfold reconcileVote
        rw [Db.exec_get_bind, hvote, hread, hmembers, htarget]
        rfl
    | ok target =>
      cases hconfirmation : transactionConfirmation chain entry.1 with
      | error error =>
        refine turn_untouched (e := .execution error) (.confirmation error hconfirmation)
          (fun inclusion h => ?_) hrow ?_ rfl rfl
        · have hok := hconfirmation.symm.trans h.confirmation
          cases hok
        · unfold reconcileVote
          rw [Db.exec_get_bind, hvote, hread, hmembers, htarget, hhash, hconfirmation]
          rfl
      | ok confirmation =>
        have hrun := reconcileVote_exec chain hrow' hrequest (hmembers ▸ htarget) (hhash ▸ hconfirmation)
        cases confirmation with
        | none =>
          refine turn_missing hitem hrow (fun other h => ?_) (by rw [hrequest]; nofun) hconfirmation hrun
          rw [hrequest, Option.some_inj] at h
          exact ⟨target, h ▸ htarget⟩
        | some inclusion =>
          rw [hmembers] at hrun
          have hsame : ∀ {other}, Activates chain members entry other → other = inclusion := fun h =>
            Option.some.inj (Except.ok.inj (h.confirmation.symm.trans hconfirmation))
          by_cases hheight : inclusion.blockHeight < 2 ^ 63
          · obtain ⟨v, hincluded, hlookup, hframe⟩ := includeVote_exec chain members
              target.isSome hrow' htxid hopen hheight
            rw [hhash] at hlookup hframe
            have hrun' := hrun.trans hincluded
            by_cases hfinal : isFinal chain inclusion
            · rw [if_pos hfinal] at hrun'
              cases htargetCase : target with
              | none =>
                rw [htargetCase] at hrun'
                refine turn_confirm hitem hrequest htarget hconfirmation hopen hheight hfinal ?_ hlookup hframe hrun'
                rw [isMemberMigration_eq hrequest htarget, htargetCase]
                rfl
              | some members' =>
                rw [htargetCase] at hrun' htarget
                exact turn_migration hitem hrequest htarget hconfirmation hopen hheight hfinal hlookup hframe hrun'
            · rw [if_neg hfinal] at hrun'
              refine .goes 0 v (fun hstop => ?_) (fun other h => hfinal (hsame h ▸ h.final)) hrun' hframe
                fun other h => ⟨_, hlookup, ?_⟩
              · rcases stops_of_inclusion hrequest htarget hconfirmation hstop with hhigh | ⟨h, -⟩
                · exact hhigh hheight
                · exact hfinal h
              · rw [confirmed_inclusion h hconfirmation]
                refine ⟨marked_included entry.2 fun h => absurd h hfinal, fun hdone => ?_⟩
                rw [includedRow, hopen] at hdone
                cases hdone
          · obtain ⟨e, u, herror, hvotes, hmembers'⟩ := includeVote_tooHigh chain members
              item (s := s) target.isSome hheight
            exact turn_untouched (.tooHigh inclusion hconfirmation hheight) (fun other h => hheight (hsame h ▸ h.height))
              hrow (hrun.trans herror) hvotes hmembers'

end Turns

section Passes

variable (members : List Bytes32)

/-- An entry that the pass goes through. -/
def Proceeds (entry : Bytes32 × Row) : Prop :=
  ¬Stops chain members entry ∧ ∀ inclusion, ¬Activates chain members entry inclusion

def Done (entry : Bytes32 × Row) (row : Option Row) : Prop :=
  ∀ inclusion, Confirmed chain entry inclusion → ∃ stored, row = some stored ∧ Marked chain inclusion stored ∧
    (stored.executionConfirmed = true → isFinal chain inclusion)

/-- The turn of an entry of the table. -/
def reconcileEntry (entry : Bytes32 × Row) : Db ReconcilingNode ReconcileError ℕ :=
  Db.check (pendingBroadcast chain entry) >>= reconcileVote chain

/-- What the pass starts from. -/
structure Listing (entries : List (Bytes32 × Row)) (s : ReconcilingNode) : Prop where
  nodup : (entries.map Prod.fst).Nodup
  rows : ∀ entry ∈ entries, s.votes.requests.lookup entry.1 = some entry.2
  unconfirmed : ∀ entry ∈ entries, entry.2.executionConfirmed = false
  readable : ∀ entry ∈ entries, ∃ item, pendingBroadcast chain entry = .ok item
  members : ∀ entry ∈ entries, s.members = members

variable {chain members} {s : ReconcilingNode}

theorem turn_entry {entry : Bytes32 × Row} (hrow : s.votes.requests.lookup entry.1 = some entry.2)
    (hmembers : s.members = members) (hopen : entry.2.executionConfirmed = false)
    (hreadable : ∃ item, pendingBroadcast chain entry = .ok item) :
    ∃ item, Turn chain members entry item s ∧ reconcileEntry chain entry = reconcileVote chain item := by
  obtain ⟨item, hitem⟩ := hreadable
  refine ⟨item, turn hitem hrow hmembers hopen, ?_⟩
  unfold reconcileEntry
  rw [hitem]
  rfl

theorem voteRows (chain : VotingChain) (members : List Bytes32) : Db.Rows (reconcileEntry chain) Prod.fst
    (fun k s => (s.votes.requests.lookup k, s.members)) (fun entry => (some entry.2, members))
    (fun entry => entry.2.executionConfirmed = false ∧ (∃ item, pendingBroadcast chain entry = .ok item) ∧
      ∀ inclusion, ¬Activates chain members entry inclusion) (Stops chain members)
    (fun entry row => Done chain entry row.1) where
  frame entry s k hrow hquiet hk := by
    obtain ⟨hlookup, hmembers⟩ := Prod.mk.inj hrow
    obtain ⟨item, hturn, hstep⟩ := turn_entry hlookup hmembers hquiet.1 hquiet.2.1
    rw [hstep]
    cases hturn with
    | goes n t hstop hactivates hrun hframe => rw [hrun, hframe.votes k hk, hframe.members]
    | stopped e t hstop hactivates hrun hframe => rw [hrun, hframe.votes k hk, hframe.members]
    | activated inclusion result t hstop hactivates => exact absurd hactivates (hquiet.2.2 inclusion)
  goes entry s hrow hquiet hgo := by
    obtain ⟨hlookup, hmembers⟩ := Prod.mk.inj hrow
    obtain ⟨item, hturn, hstep⟩ := turn_entry hlookup hmembers hquiet.1 hquiet.2.1
    rw [hstep]
    cases hturn with
    | goes n t hstop hactivates hrun hframe hmarked => exact ⟨n, t, hrun, hmarked⟩
    | stopped e t hstop => exact absurd hstop hgo
    | activated inclusion result t hstop hactivates => exact absurd hactivates (hquiet.2.2 inclusion)
  ends entry s hrow hquiet hstop := by
    obtain ⟨hlookup, hmembers⟩ := Prod.mk.inj hrow
    obtain ⟨item, hturn, hstep⟩ := turn_entry hlookup hmembers hquiet.1 hquiet.2.1
    rw [hstep]
    cases hturn with
    | goes n t hgo => exact absurd hstop hgo
    | stopped e t hstop hactivates hrun => exact ⟨e, t, hrun⟩
    | activated inclusion result t hgo => exact absurd hstop hgo

/-- The pass goes through what proceeds, marks it, and leaves the rest as it was. -/
theorem Listing.reaches {front back : List (Bytes32 × Row)} (h : Listing chain members (front ++ back) s)
    (hfront : ∀ entry ∈ front, Proceeds chain members entry) :
    ∃ t, ((Db.pass (reconcileEntry chain) (front ++ back)).exec s).2 =
        ((Db.pass (reconcileEntry chain) back).exec t).2 ∧
      Listing chain members back t ∧ ∀ entry ∈ front, Done chain entry (t.votes.requests.lookup entry.1) := by
  have hlisted : ∀ entry ∈ front ++ back, (s.votes.requests.lookup entry.1, s.members) = (some entry.2, members) :=
    fun entry hentry => by rw [h.rows entry hentry, h.members entry hentry]
  obtain ⟨t, hpass, hrows, hdone⟩ := (voteRows chain members).reaches h.nodup hlisted fun entry hentry =>
    ⟨⟨h.unconfirmed entry (List.mem_append_left _ hentry), h.readable entry (List.mem_append_left _ hentry),
      (hfront entry hentry).2⟩, (hfront entry hentry).1⟩
  have hnodup := h.nodup
  rw [List.map_append] at hnodup
  obtain ⟨-, hback, hkeys⟩ := List.nodup_append.mp hnodup
  have hback' : ∀ entry ∈ back, (t.votes.requests.lookup entry.1, t.members) = (some entry.2, members) := by
    intro entry hentry
    rw [hrows entry.1 fun other hother heq =>
      hkeys other.1 (List.mem_map_of_mem hother) entry.1 (List.mem_map_of_mem hentry) heq.symm]
    exact hlisted entry (List.mem_append_right _ hentry)
  refine ⟨t, hpass, ⟨hback, fun entry hentry => (Prod.mk.inj (hback' entry hentry)).1,
    fun entry hentry => h.unconfirmed entry (List.mem_append_right _ hentry),
    fun entry hentry => h.readable entry (List.mem_append_right _ hentry),
    fun entry hentry => (Prod.mk.inj (hback' entry hentry)).2⟩, hdone⟩

theorem Listing.turn {entry : Bytes32 × Row} {back : List (Bytes32 × Row)} (h : Listing chain members (entry :: back) s) :
    ∃ item, Turn chain members entry item s ∧ reconcileEntry chain entry = reconcileVote chain item :=
  turn_entry (h.rows entry List.mem_cons_self) (h.members entry List.mem_cons_self)
    (h.unconfirmed entry List.mem_cons_self) (h.readable entry List.mem_cons_self)

/-- What the pass leaves of the votes when an entry ends it. -/
theorem Listing.stopped {front back : List (Bytes32 × Row)} {entry : Bytes32 × Row}
    (h : Listing chain members (front ++ entry :: back) s) (hfront : ∀ other ∈ front, Proceeds chain members other)
    (hstop : Stops chain members entry) :
    let votes := ((Db.pass (reconcileEntry chain) (front ++ entry :: back)).exec s).2.votes
    (∀ other ∈ front, Done chain other (votes.requests.lookup other.1)) ∧
      ∀ other ∈ entry :: back, ∀ inclusion, Confirmed chain other inclusion →
        ∃ row, votes.requests.lookup other.1 = some row ∧ (Marked chain inclusion row ↔ Marked chain inclusion other.2) := by
  obtain ⟨t, hpass, hlisting, hdone⟩ := h.reaches hfront
  obtain ⟨item, hturn, hstep⟩ := hlisting.turn
  have hkeys := h.nodup
  rw [List.map_append, List.map_cons] at hkeys
  obtain ⟨-, hback, hfrontKeys⟩ := List.nodup_append.mp hkeys
  obtain ⟨hfresh, -⟩ := List.nodup_cons.mp hback
  cases hturn with
  | goes n u hgo => exact absurd hstop hgo
  | activated inclusion result u hgo => exact absurd hstop hgo
  | stopped e u hstops hactivates hrun hframe hmarked =>
    have hfinal : ((Db.pass (reconcileEntry chain) (front ++ entry :: back)).exec s).2 = u := by
      rw [hpass, Db.pass_cons_error (hstep ▸ hrun)]
    dsimp only
    rw [hfinal]
    refine ⟨fun other hother => ?_, List.forall_mem_cons.mpr ⟨hmarked, fun other hother inclusion hconfirmed => ?_⟩⟩
    · rw [hframe.votes other.1 fun heq =>
        hfrontKeys other.1 (List.mem_map_of_mem hother) entry.1 List.mem_cons_self heq]
      exact hdone other hother
    · refine ⟨other.2, ?_, Iff.rfl⟩
      rw [hframe.votes other.1 fun heq => hfresh (heq ▸ List.mem_map_of_mem hother)]
      exact hlisting.rows other (.tail _ hother)

/-- A vote that is gone ends the pass where it stands. -/
theorem pass_gone {entries : List (Bytes32 × Row)} (hreadable : ∀ entry ∈ entries, ∃ item, pendingBroadcast chain entry = .ok item)
    (hgone : ∀ entry ∈ entries, s.votes.requests.lookup entry.1 = none) :
    ((Db.pass (reconcileEntry chain) entries).exec s).2 = s := by
  cases entries with
  | nil => rfl
  | cons entry entries =>
    obtain ⟨item, hitem⟩ := hreadable entry List.mem_cons_self
    have hlookup := hgone entry List.mem_cons_self
    rw [← (pendingBroadcast_ok hitem).1] at hlookup
    have hvote : currentVote s.votes item.requestHash = .error (.unknownRequest item.requestHash) := by
      unfold currentVote
      rw [hlookup]
    have hstep : (reconcileEntry chain entry).exec s = (.error (.unknownRequest item.requestHash), s) := by
      unfold reconcileEntry
      rw [hitem]
      change (reconcileVote chain item).exec s = _
      unfold reconcileVote
      rw [Db.exec_get_bind, hvote]
      rfl
    exact Db.pass_cons_error hstep

/-- What the pass leaves of the votes when an entry migrates the tables: only what is executed. -/
theorem Listing.activated {front back : List (Bytes32 × Row)} {entry : Bytes32 × Row} {inclusion : TransactionConfirmation}
    (h : Listing chain members (front ++ entry :: back) s) (hfront : ∀ other ∈ front, Proceeds chain members other)
    (hactivates : Activates chain members entry inclusion) :
    let votes := ((Db.pass (reconcileEntry chain) (front ++ entry :: back)).exec s).2.votes
    (∀ other ∈ front, ∃ row, Done chain other row ∧
        votes.requests.lookup other.1 = row.filter fun row => row.executionConfirmed) ∧
      (∃ row, votes.requests.lookup entry.1 = some row ∧ Marked chain inclusion row) ∧
      ∀ other ∈ back, votes.requests.lookup other.1 = none := by
  obtain ⟨t, hpass, hlisting, hdone⟩ := h.reaches hfront
  obtain ⟨item, hturn, hstep⟩ := hlisting.turn
  have hkeys := h.nodup
  rw [List.map_append, List.map_cons] at hkeys
  obtain ⟨-, hback, hfrontKeys⟩ := List.nodup_append.mp hkeys
  obtain ⟨hfresh, -⟩ := List.nodup_cons.mp hback
  cases hturn with
  | goes n u hgo hno => exact absurd hactivates (hno inclusion)
  | stopped e u hstops hno => exact absurd hactivates (hno inclusion)
  | activated other result u hgo hactivates' hrun hmarked hothers =>
    have hsame : other = inclusion :=
      Option.some.inj (Except.ok.inj (hactivates'.confirmation.symm.trans hactivates.confirmation))
    have hgone : ∀ next ∈ back, u.votes.requests.lookup next.1 = none := by
      intro next hnext
      rw [hothers next.1 fun heq => hfresh (heq ▸ List.mem_map_of_mem hnext), hlisting.rows next (.tail _ hnext),
        Option.filter_some, hlisting.unconfirmed next (.tail _ hnext)]
      rfl
    have hfinal : ((Db.pass (reconcileEntry chain) (front ++ entry :: back)).exec s).2 = u := by
      rw [hpass]
      cases result with
      | ok n =>
        have hreturns : (reconcileEntry chain entry).Returns t n u := hstep ▸ hrun
        rw [Db.pass_cons_ok hreturns]
        exact pass_gone (fun next hnext => hlisting.readable next (.tail _ hnext)) hgone
      | error e => exact Db.pass_cons_error (hstep ▸ hrun)
    dsimp only
    rw [hfinal]
    refine ⟨fun next hnext => ⟨_, hdone next hnext, ?_⟩, hsame ▸ hmarked, hgone⟩
    exact hothers next.1 fun heq => hfrontKeys next.1 (List.mem_map_of_mem hnext) entry.1 List.mem_cons_self heq

end Passes

section Isolation

variable (node : ReconcilingNode)

def after : ReconcilingNode := ((reconcileVotingExecutions chain).exec node).2

/-- The loop is reached, under these members: a migration that has been executed is finished, and the
request of every broadcast execution can be read. -/
def Started (members : List Bytes32) : Prop :=
  (∃ executed, migrationExecuted node = .ok executed ∧
    if executed then chain.finishMemberMigration = .ok members else members = node.members) ∧
  ∀ entry ∈ broadcastVotes node.votes, ∃ item, pendingBroadcast chain entry = .ok item

/-- Every vote whose transaction is confirmed is marked by the pass. -/
def Isolated : Prop :=
  ∀ entry inclusion, entry ∈ broadcastVotes node.votes → Confirmed chain entry inclusion →
    ∃ row, (after chain node).votes.requests.lookup entry.1 = some row ∧ Marked chain inclusion row

/-- For every confirmed vote: it is marked already, or the loop is reached and goes through all votes in
front of it and does not end at it; and the tables are migrated by no vote but itself, unless it is final
and stands in front of that one. -/
def NothingInFront : Prop :=
  ∀ front entry back inclusion, broadcastVotes node.votes = front ++ entry :: back → Confirmed chain entry inclusion →
    (Marked chain inclusion entry.2 ∨ ∃ members, Started chain node members ∧
      (∀ other ∈ front, Proceeds chain members other) ∧ ¬Stops chain members entry) ∧
    ∀ members, Started chain node members → ∀ front' other back' inclusion',
      broadcastVotes node.votes = front' ++ other :: back' → (∀ next ∈ front', Proceeds chain members next) →
      Activates chain members other inclusion' → other = entry ∨ entry ∈ front' ∧ isFinal chain inclusion

variable {chain node}

theorem Started.unique {members members' : List Bytes32} (h : Started chain node members)
    (h' : Started chain node members') : members = members' := by
  obtain ⟨⟨executed, hexecuted, hmembers⟩, -⟩ := h
  obtain ⟨⟨executed', hexecuted', hmembers'⟩, -⟩ := h'
  have hsame : executed = executed' := Except.ok.inj (hexecuted.symm.trans hexecuted')
  subst hsame
  cases executed with
  | false => exact hmembers.trans hmembers'.symm
  | true => exact Except.ok.inj (hmembers.symm.trans hmembers')

theorem mem_broadcastVotes {votes : Store} {entry : Bytes32 × Row} (h : entry ∈ broadcastVotes votes) :
    votes.requests.lookup entry.1 = some entry.2 ∧ entry.2.executionConfirmed = false := by
  unfold broadcastVotes at h
  rw [List.mem_insertionSort, List.mem_filter] at h
  obtain ⟨hmem, hopen⟩ := h
  obtain ⟨⟨hash, row⟩, hentry, rfl⟩ := List.mem_map.mp hmem
  rw [Bool.and_eq_true, Bool.not_eq_true'] at hopen
  exact ⟨List.mem_dlookup votes.requests.nodupKeys hentry, hopen.2⟩

theorem nodup_broadcastVotes (votes : Store) : ((broadcastVotes votes).map Prod.fst).Nodup := by
  unfold broadcastVotes
  rw [((List.perm_insertionSort _ _).map Prod.fst).nodup_iff]
  refine List.Nodup.sublist (List.filter_sublist.map Prod.fst) ?_
  rw [List.map_map]
  exact votes.requests.nodupKeys

theorem mapM_error_of_not {E A B : Type} {f : A → Except E B} {items : List A} (h : ¬∀ item ∈ items, ∃ b, f item = .ok b) :
    ∃ e, items.mapM f = .error e := by
  cases hall : items.mapM f with
  | error e => exact ⟨e, rfl⟩
  | ok bs =>
    refine absurd (fun item hitem => ?_) h
    obtain ⟨i, hi⟩ := List.mem_iff_getElem?.mp hitem
    obtain ⟨b, -, hb⟩ := (mapM_ok hall).2 i item hi
    exact ⟨b, hb⟩

theorem finishExecuted_skips (h : migrationExecuted node = .ok false) : (finishExecuted chain).Returns node () node :=
  Db.returns_get_bind.mpr (Db.returns_bind.mpr ⟨false, node, Db.returns_check.mpr ⟨h, rfl⟩, Db.returns_pure.mpr ⟨rfl, rfl⟩⟩)

theorem finishExecuted_finishes {members : List Bytes32} (h : migrationExecuted node = .ok true)
    (hfinish : chain.finishMemberMigration = .ok members) :
    (finishExecuted chain).Returns node () (node.migrated members) := by
  refine Db.returns_get_bind.mpr (Db.returns_bind.mpr ⟨true, node, Db.returns_check.mpr ⟨h, rfl⟩, ?_⟩)
  rw [if_pos rfl, finishMemberMigration]
  refine Db.returns_bind.mpr ⟨members, node, Db.returns_check.mpr ⟨?_, rfl⟩, Db.returns_modify.mpr rfl⟩
  rw [hfinish]
  rfl

theorem finishExecuted_fails {error : String} (h : migrationExecuted node = .ok true)
    (hfinish : chain.finishMemberMigration = .error error) :
    (finishExecuted chain).exec node = (.error (.execution (.invalid error)), node) := by
  unfold finishExecuted
  rw [Db.exec_get_bind, h]
  have hread : ∀ f : Bool → Db ReconcilingNode ReconcileError Unit, (Db.check (Except.ok true) >>= f) = f true :=
    fun f => rfl
  rw [hread, if_pos rfl, finishMemberMigration, hfinish]
  rfl

/-- A loop that is reached starts from the votes of the node. -/
theorem after_started {members : List Bytes32} (h : Started chain node members) :
    ∃ s, (after chain node) = ((Db.pass (reconcileEntry chain) (broadcastVotes node.votes)).exec s).2 ∧
      Listing chain members (broadcastVotes node.votes) s := by
  obtain ⟨⟨executed, hexecuted, hmembers⟩, hreadable⟩ := h
  obtain ⟨pending, hpending⟩ := mapM_ok_of_forall hreadable
  have hstart : ∃ s, (finishExecuted chain).Returns node () s ∧ s.votes = node.votes ∧ s.members = members := by
    cases executed with
    | false => exact ⟨node, finishExecuted_skips hexecuted, rfl, hmembers.symm⟩
    | true => exact ⟨node.migrated members, finishExecuted_finishes hexecuted hmembers, rfl, rfl⟩
  obtain ⟨s, hrun, hvotes, hmembers'⟩ := hstart
  refine ⟨s, ?_, nodup_broadcastVotes node.votes, fun entry hentry => ?_, fun entry hentry => (mem_broadcastVotes hentry).2,
    hreadable, fun _ _ => hmembers'⟩
  · unfold after reconcileVotingExecutions
    rw [Db.exec_bind, hrun]
    dsimp only
    rw [Db.exec_get_bind, pendingBroadcasts, hvotes, hpending]
    exact congrArg (fun prog => (Db.exec prog s).2) (Db.pass_of_mapM hpending).symm
  · rw [hvotes]
    exact (mem_broadcastVotes hentry).1

/-- Otherwise the pass leaves the votes alone. -/
theorem after_not_started (h : ∀ members, ¬Started chain node members) : (after chain node).votes = node.votes := by
  have hpending : ∀ s : ReconcilingNode, s.votes = node.votes → (finishExecuted chain).Returns node () s →
      (¬∀ entry ∈ broadcastVotes node.votes, ∃ item, pendingBroadcast chain entry = .ok item) →
      (after chain node).votes = node.votes := by
    intro s hvotes hrun hunreadable
    obtain ⟨e, he⟩ := mapM_error_of_not hunreadable
    unfold after reconcileVotingExecutions
    rw [Db.exec_bind, hrun]
    dsimp only
    rw [Db.exec_get_bind, hvotes, pendingBroadcasts, he]
    exact hvotes
  cases hexecuted : migrationExecuted node with
  | error e =>
    unfold after reconcileVotingExecutions finishExecuted
    rw [Db.exec_bind, Db.exec_get_bind, hexecuted]
    rfl
  | ok executed =>
    cases executed with
    | false =>
      exact hpending node rfl (finishExecuted_skips hexecuted) fun hreadable =>
        h node.members ⟨⟨false, hexecuted, rfl⟩, hreadable⟩
    | true =>
      cases hfinish : chain.finishMemberMigration with
      | error error =>
        unfold after reconcileVotingExecutions
        rw [Db.exec_bind, finishExecuted_fails hexecuted hfinish]
      | ok members =>
        exact hpending (node.migrated members) rfl (finishExecuted_finishes hexecuted hfinish) fun hreadable =>
          h members ⟨⟨true, hexecuted, hfinish⟩, hreadable⟩

/-- An entry up to the end of a front part stands behind nothing but that part. -/
theorem front_subset {X : Type} {front back front' back' : List X} {entry other : X}
    (hlist : front ++ entry :: back = front' ++ other :: back') (hnodup : (front ++ entry :: back).Nodup)
    (hmem : entry ∈ front' ++ [other]) : ∀ next ∈ front, next ∈ front' := by
  have hfresh : entry ∉ front := fun h => (List.nodup_append.mp hnodup).2.2 entry h entry List.mem_cons_self rfl
  rcases List.append_eq_append_iff.mp hlist with ⟨rest, rfl, -⟩ | ⟨rest, rfl, hrest⟩
  · exact fun next hnext => List.mem_append_left _ hnext
  · cases rest with
    | nil => exact fun next hnext => by rwa [List.append_nil] at hnext
    | cons next rest =>
      rw [← (List.cons.inj hrest).1, List.append_cons] at hfresh
      exact absurd (List.mem_append_left _ hmem) hfresh

/-- In a list with a first entry that does not proceed, what is not in front of it has it in front, or is it. -/
theorem front_mem {X : Type} {front back front' back' : List X} {entry other : X}
    (hlist : front ++ entry :: back = front' ++ other :: back') (hmem : entry ∉ front') :
    other = entry ∨ other ∈ front := by
  rcases List.append_eq_append_iff.mp hlist with ⟨rest, rfl, hrest⟩ | ⟨rest, rfl, hrest⟩
  · cases rest with
    | nil => exact .inl (List.cons.inj hrest).1.symm
    | cons next rest =>
      rw [(List.cons.inj hrest).1] at hmem
      exact absurd (List.mem_append_right _ List.mem_cons_self) hmem
  · cases rest with
    | nil => exact .inl (List.cons.inj hrest).1
    | cons next rest =>
      rw [(List.cons.inj hrest).1]
      exact .inr (List.mem_append_right _ List.mem_cons_self)

theorem marked_iff {front back : List (Bytes32 × Row)} {entry : Bytes32 × Row} {inclusion : TransactionConfirmation}
    (hlist : broadcastVotes node.votes = front ++ entry :: back) (hconfirmed : Confirmed chain entry inclusion) :
    (∃ row, (after chain node).votes.requests.lookup entry.1 = some row ∧ Marked chain inclusion row) ↔
      (Marked chain inclusion entry.2 ∨ ∃ members, Started chain node members ∧
        (∀ other ∈ front, Proceeds chain members other) ∧ ¬Stops chain members entry) ∧
      ∀ members, Started chain node members → ∀ front' other back' inclusion',
        broadcastVotes node.votes = front' ++ other :: back' → (∀ next ∈ front', Proceeds chain members next) →
        Activates chain members other inclusion' → other = entry ∨ entry ∈ front' ∧ isFinal chain inclusion := by
  have hmem : entry ∈ broadcastVotes node.votes := hlist ▸ List.mem_append_right _ List.mem_cons_self
  by_cases hstarted : ∃ members, Started chain node members
  swap
  · push Not at hstarted
    rw [after_not_started hstarted, (mem_broadcastVotes hmem).1]
    constructor
    · rintro ⟨row, hrow, hmarked⟩
      exact ⟨.inl (Option.some.inj hrow ▸ hmarked), fun members h => absurd h (hstarted members)⟩
    · rintro ⟨hmarked | ⟨members, h, -⟩, -⟩
      · exact ⟨entry.2, rfl, hmarked⟩
      · exact absurd h (hstarted members)
  obtain ⟨members, hstarted⟩ := hstarted
  obtain ⟨s, hafter, hlisting⟩ := after_started hstarted
  have hnodup : (broadcastVotes node.votes).Nodup := (nodup_broadcastVotes node.votes).of_map
  rw [hafter]
  by_cases hall : ∀ other ∈ broadcastVotes node.votes, Proceeds chain members other
  · -- The pass goes through all votes.
    have hwhole : Listing chain members (broadcastVotes node.votes ++ []) s := by rwa [List.append_nil]
    obtain ⟨t, hpass, -, hdone⟩ := hwhole.reaches hall
    rw [List.append_nil] at hpass
    rw [hpass, Db.pass_nil]
    refine iff_of_true ?_ ⟨.inr ⟨members, hstarted, fun other hother => hall other ?_, (hall entry hmem).1⟩, ?_⟩
    · obtain ⟨row, hrow, hmarked, -⟩ := hdone entry hmem inclusion hconfirmed
      exact ⟨row, hrow, hmarked⟩
    · rw [hlist]
      exact List.mem_append_left _ hother
    · intro members' h' front' other back' inclusion' hlist' hfront' hactivates
      have hother : other ∈ broadcastVotes node.votes := hlist' ▸ List.mem_append_right _ List.mem_cons_self
      rw [← hstarted.unique h'] at hactivates
      exact absurd hactivates ((hall other hother).2 inclusion')
  obtain ⟨first, other, rest, hsplit, hfirst, hother⟩ := Db.exists_first hall
  have hreached : (∃ members, Started chain node members ∧ (∀ next ∈ front, Proceeds chain members next) ∧
      ¬Stops chain members entry) ↔ (entry ∈ first ∨ entry = other ∧ ¬Stops chain members other) := by
    constructor
    · rintro ⟨members', h', hfront, hgo⟩
      rw [← hstarted.unique h'] at hfront hgo
      by_cases hin : entry ∈ first
      · exact .inl hin
      · rcases front_mem (hlist.symm.trans hsplit) hin with heq | hin'
        · exact .inr ⟨heq.symm, heq ▸ hgo⟩
        · exact absurd (hfront other hin') hother
    · rintro (hin | ⟨rfl, hgo⟩)
      · refine ⟨members, hstarted, fun next hnext => hfirst next ?_, (hfirst entry hin).1⟩
        exact front_subset (hlist.symm.trans hsplit) (hlist ▸ hnodup) (List.mem_append_left _ hin) next hnext
      · refine ⟨members, hstarted, fun next hnext => hfirst next ?_, hgo⟩
        exact front_subset (hlist.symm.trans hsplit) (hlist ▸ hnodup)
          (List.mem_append_right _ (List.mem_singleton.mpr rfl)) next hnext
  have hmigrates : (∀ members, Started chain node members → ∀ front' other' back' inclusion',
        broadcastVotes node.votes = front' ++ other' :: back' → (∀ next ∈ front', Proceeds chain members next) →
        Activates chain members other' inclusion' → other' = entry ∨ entry ∈ front' ∧ isFinal chain inclusion) ↔
      ∀ inclusion', Activates chain members other inclusion' → other = entry ∨ entry ∈ first ∧ isFinal chain inclusion := by
    constructor
    · exact fun h inclusion' => h members hstarted first other rest inclusion' hsplit hfirst
    · intro h members' h' front' other' back' inclusion' hlist' hfront' hactivates
      rw [← hstarted.unique h'] at hfront' hactivates
      have hfresh : other' ∉ first := fun hin => (hfirst other' hin).2 inclusion' hactivates
      have heq : other = other' := by
        rcases front_mem (hlist'.symm.trans hsplit) hfresh with heq | hin
        · exact heq
        · exact absurd (hfront' other hin) hother
      subst heq
      refine (h inclusion' hactivates).imp_right fun ⟨hin, hfinal⟩ => ⟨?_, hfinal⟩
      exact front_subset (hsplit.symm.trans hlist') (hsplit ▸ hnodup)
        (List.mem_append_right _ (List.mem_singleton.mpr rfl)) entry hin
  rw [hreached, hmigrates]
  rw [hsplit] at hlisting hnodup hmem
  rw [hsplit]
  have hunlisted : other ∉ first := fun hin => (List.nodup_append.mp hnodup).2.2 other hin other List.mem_cons_self rfl
  obtain ⟨t, -, hlisting', -⟩ := hlisting.reaches hfirst
  obtain ⟨item, hturn, -⟩ := hlisting'.turn
  cases hturn with
  | goes n u hgo hno => exact absurd ⟨hgo, hno⟩ hother
  | stopped e u hstop hno =>
    obtain ⟨hdone, hrest⟩ := hlisting.stopped hfirst hstop
    rw [and_iff_left fun inclusion' h => absurd h (hno inclusion')]
    by_cases hin : entry ∈ first
    · obtain ⟨row, hrow, hmarked, -⟩ := hdone entry hin inclusion hconfirmed
      exact iff_of_true ⟨row, hrow, hmarked⟩ (.inr (.inl hin))
    · obtain ⟨row, hrow, hmarked⟩ := hrest entry ((List.mem_append.mp hmem).resolve_left hin) inclusion hconfirmed
      rw [hrow]
      constructor
      · rintro ⟨row', hsame, h⟩
        exact .inl (hmarked.mp (Option.some.inj hsame ▸ h))
      · rintro (h | h | ⟨-, hgo⟩)
        · exact ⟨row, rfl, hmarked.mpr h⟩
        · exact absurd h hin
        · exact absurd hstop hgo
  | activated inclusion' result u hgo hactivates =>
    obtain ⟨hdone, ⟨row, hrow, hmarked⟩, hgone⟩ := hlisting.activated hfirst hactivates
    by_cases hin : entry ∈ first
    · have hne : other ≠ entry := fun heq => hunlisted (heq ▸ hin)
      obtain ⟨row', hdone', hrow'⟩ := hdone entry hin
      obtain ⟨stored, rfl, hmark, hfinal⟩ := hdone' inclusion hconfirmed
      rw [hrow', Option.filter_some]
      constructor
      · rintro ⟨last, hlast, -⟩
        refine ⟨.inr (.inl hin), fun _ _ => .inr ⟨hin, hfinal ?_⟩⟩
        by_contra hopen
        rw [if_neg hopen] at hlast
        cases hlast
      · rintro ⟨-, h⟩
        have hconfirmed' := hmark.2.2 ((h inclusion' hactivates).resolve_left hne).2
        exact ⟨stored, if_pos hconfirmed', hmark⟩
    · rcases List.mem_cons.mp ((List.mem_append.mp hmem).resolve_left hin) with heq | hback
      · have hsame : inclusion' = inclusion :=
          Option.some.inj (Except.ok.inj (hactivates.confirmation.symm.trans (heq ▸ hconfirmed.1)))
        refine iff_of_true ⟨row, heq ▸ hrow, hsame ▸ hmarked⟩ ⟨.inr (.inr ⟨heq, hgo⟩), fun _ _ => .inl heq.symm⟩
      · rw [hgone entry hback]
        refine iff_of_false (fun ⟨_, h, _⟩ => by cases h) fun ⟨_, h⟩ => ?_
        rcases h inclusion' hactivates with heq | ⟨h, -⟩
        · exact (List.nodup_cons.mp (List.nodup_append.mp hnodup).2.1).1 (heq ▸ hback)
        · exact hin h

theorem isolated_iff (chain : VotingChain) (node : ReconcilingNode) : Isolated chain node ↔ NothingInFront chain node := by
  constructor
  · intro h front entry back inclusion hlist hconfirmed
    have hmem : entry ∈ broadcastVotes node.votes := hlist ▸ List.mem_append_right _ List.mem_cons_self
    exact (marked_iff hlist hconfirmed).mp (h entry inclusion hmem hconfirmed)
  · intro h entry inclusion hmem hconfirmed
    obtain ⟨front, back, hlist⟩ := List.append_of_mem hmem
    exact (marked_iff hlist hconfirmed).mpr (h front entry back inclusion hlist hconfirmed)

end Isolation

/-- A pass over the user requests, and one over the broadcast votes, marks every item whose transaction is
confirmed if and only if nothing in front of such an item ends the pass. -/
theorem reconciliation_isolated {W : Type} [LinearOrder W] (userChain : UserReconciliation.UserChain W)
    (store : UserRequestStore W) (chain : VotingChain) (node : ReconcilingNode) :
    (UserReconciliation.Isolated userChain store ↔ UserReconciliation.NothingInFront userChain store) ∧
      (Isolated chain node ↔ NothingInFront chain node) :=
  ⟨UserReconciliation.isolated_iff userChain store, isolated_iff chain node⟩

section Example

/-- The transaction of the first item is missing and refused, that of the second is in a block. -/
def lostFirst : UserReconciliation.UserChain ℕ where
  getBlockCount := .ok 100
  getRawTransaction requestHash _ :=
    if requestHash = 1 then .error "no such transaction" else .ok ⟨3, some "block"⟩
  sendRawTransaction _ _ := .error "bad-txns-inputs-missingorspent"
  resultTxid _ := .ok "txid"
  parseBlockHash _ := .ok 7
  finalityConfirmations := 2

def issuedRow (height : ℕ) : StoredUserRequest ℕ := ⟨[], height, .processing, some [0], some [0], none, none⟩

def twoIssued : UserRequestStore ℕ := ⟨(AList.insert 1 (issuedRow 10) ∅).insert 2 (issuedRow 11), ∅⟩

def lostFirstVote : VotingChain where
  getRawTransaction requestHash :=
    if requestHash = VotingNode.key 1 then .error "no such transaction" else .ok ⟨3, some "block"⟩
  getBlockHeader _ _ := .ok 98
  getBlockHash _ _ := .ok "block"
  sendRawTransaction _ _ := .error "bad-txns-inputs-missingorspent"
  getRawMempool _ := .ok []
  getRawTransactionAgain _ := .error "no such transaction"
  hashAt _ _ := .ok (VotingNode.key 7)
  parseBlockHash _ := .ok (VotingNode.key 7)
  txidText _ := "txid"
  decodeExecution _ := some ⟨[], some [], VotingNode.key 1⟩
  migrationReady _ _ := .ok ()
  finishMemberMigration := .ok []
  finalityConfirmations := 2

def broadcastRow (height : ℕ) : Row :=
  ⟨NodeMessage.codec.encode (NodeMessage.newVotingRequest
    (VotingInstruction.splitStormEye ⟨⟨VotingNode.key 9, 0⟩, 2⟩).request 100), some (VotingNode.key 1), height,
    some height, true, some [], some [], some (VotingNode.key 8), false, none, none⟩

def twoBroadcast : ReconcilingNode :=
  ⟨⟨(AList.insert (VotingNode.key 1) (broadcastRow 10) ∅).insert (VotingNode.key 2) (broadcastRow 11), ∅⟩,
    [VotingNode.key 1, VotingNode.key 2, VotingNode.key 3], none, false⟩

/-- A transaction that can never be sent again keeps the confirmed one behind it from being marked. -/
theorem lost_item_blocks :
    (¬∀ (chain : UserReconciliation.UserChain ℕ) (store : UserRequestStore ℕ),
      UserReconciliation.Isolated chain store) ∧
      ¬∀ (chain : VotingChain) (node : ReconcilingNode), Isolated chain node := by
  constructor
  · intro hclaim
    obtain ⟨tip, htip, hmarked | hgo⟩ := (UserReconciliation.isolated_iff lostFirst twoIssued).mp
      (hclaim lostFirst twoIssued) [(1, issuedRow 10)] (2, issuedRow 11) [] ⟨3, some "block"⟩ rfl ⟨rfl, by decide⟩
    · obtain ⟨blockHash, -, hheight, -⟩ := hmarked
      cases hheight
    · exact hgo (1, issuedRow 10) List.mem_cons_self (.missing "no such transaction" [0] "bad-txns-inputs-missingorspent" rfl rfl rfl)
  · intro hclaim
    obtain ⟨hmarked | ⟨members, -, hgo, -⟩, -⟩ := (isolated_iff lostFirstVote twoBroadcast).mp
      (hclaim lostFirstVote twoBroadcast) [(VotingNode.key 1, broadcastRow 10)] (VotingNode.key 2, broadcastRow 11) []
      ⟨3, 98, VotingNode.key 7⟩ rfl ⟨rfl, fun _ _ blockHash h => (Except.ok.inj h).symm⟩
    · cases hmarked.1
    · refine (hgo (VotingNode.key 1, broadcastRow 10) List.mem_cons_self).1
        (.missing ⟨VotingNode.key 1, VotingNode.key 8, ⟨[], some [], VotingNode.key 1⟩⟩
          (.rpc "bad-txns-inputs-missingorspent") rfl rfl rfl)

end Example

end VotingReconciliation

end PriceOracle
