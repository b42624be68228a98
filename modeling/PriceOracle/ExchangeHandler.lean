import PriceOracle.LockProtection
import PriceOracle.SigningHashes

/-!
# Handling exchange requests

The `ExchangeRewards` handler of a node: each request is a task that takes the lock of its
member, asks the coordinator to sign, sends what it got, and unlocks if any of that failed.
Tasks interleave with each other, with the rest of the coordinator and with the ledger.
-/

namespace PriceOracle

open Signing

structure ExchangeRewards (W Tx : Type) where
  tx : Tx
  signingHash : W
  signingStormTreeBranch : W
  blockHeight : ℕ

/-- What is read off the bytes of an exchange transaction, unsigned or final. Both hashes commit to
the transaction, its member marker included, and other kinds of requests sign other hashes. -/
structure ExchangeRules (W Tx : Type) where
  txid : Tx → W
  signingHash : Tx → W
  member : Tx → W
  amount : Tx → ℕ
  messageHash : ExchangeRewards W Tx → W
  isExchangeHash : W → Bool
  isExchangeHash_signingHash : ∀ tx, isExchangeHash (signingHash tx) = true
  txid_of_signingHash : ∀ {tx tx'}, signingHash tx = signingHash tx' → txid tx = txid tx'
  member_of_txid : ∀ {tx tx'}, txid tx = txid tx' → member tx = member tx'

/-- Where the task of a request stands. -/
inductive HandlerStage where
  | locked
  | sending
  | failed
  | done
  deriving DecidableEq

structure HandlerTask (W Tx : Type) where
  request : ExchangeRewards W Tx
  stage : HandlerStage

/-- The node, the messages of its completed sessions, and the transactions that can no longer
confirm. -/
structure ExchangeNode {W T : Type} [LinearOrder W] (M : Musig W T) (Tx : Type) where
  signing : SigningState M
  store : DropletStore W Tx
  tasks : List (HandlerTask W Tx)
  completed : List W
  settled : List W

inductive HandlerAction (W T Tx : Type) where
  | receive (request : ExchangeRewards W Tx)
  | sign (index now : ℕ) (sender : Option W) (peers : List T)
  | send (index : ℕ) (sent : Bool)
  | unlock (index : ℕ)
  | observeBroadcast (tx finalTx : Tx)
  | signing (action : Action W T)
  | applyBlock (height : ℕ) (treasuryTransactions : List (TreasuryTransaction W)) (members : List W)
  | conflicted (member : W) (height : ℕ)

namespace ExchangeNode

variable {W T Tx Sig : Type} [LinearOrder W] [DecidableEq T] [DecidableEq Tx] {M : Musig W T}
  (J : Jets W Sig) (R : ExchangeRules W Tx) (node : ExchangeNode M Tx)

def new (secretKey : M.SecretKey) (peers : List T) : ExchangeNode M Tx :=
  ⟨SigningState.new J secretKey peers, DropletStore.empty, [], [], []⟩

def setStage (index : ℕ) (stage : HandlerStage) : ExchangeNode M Tx :=
  { node with tasks := node.tasks.modify index fun task => { task with stage := stage } }

/-- `validate_request` and `lock_exchange`: a task goes on once it has the lock. -/
def receive (request : ExchangeRewards W Tx) : ExchangeNode M Tx :=
  if request.signingHash = R.signingHash request.tx then
    match (DropletStore.lockExchange (R.member request.tx) (R.amount request.tx) request.blockHeight
      request.tx).atomic.exec node.store with
    | (.ok true, store) => { node with store := store, tasks := node.tasks ++ [⟨request, .locked⟩] }
    | _ => node
  else node

/-- `handle_exchange_rewards` up to the messages it sends; without a `sender` it fails before it
reaches the coordinator. -/
def sign (index now : ℕ) (request : ExchangeRewards W Tx) (sender : Option W) (peers : List T) :
    ExchangeNode M Tx :=
  match sender with
  | none => node.setStage index .failed
  | some sender =>
    match node.signing.refreshMembers J peers with
    | (signing, .error _) => { node with signing := signing }.setStage index .failed
    | (signing, .ok _) =>
      match (signing.removeExpiredSessions now).startSession now (R.messageHash request) sender
        ⟨request.signingStormTreeBranch, [request.signingHash]⟩ none with
      | (signing, .error _) => { node with signing := signing }.setStage index .failed
      | (signing, .ok none) => { node with signing := signing }.setStage index .done
      | (signing, .ok (some _)) => { node with signing := signing }.setStage index .sending

/-- The coordinator's other work: requests of other kinds sign other hashes. -/
def isForeign : Action W T → Bool
  | .startSession _ _ _ request _ => request.messageHashes.all fun messageHash => !R.isExchangeHash messageHash
  | _ => true

def closedMessages (signing signing' : SigningState M) (requestHash : W) : List W :=
  match signing.sessions[requestHash]?, signing'.sessions[requestHash]? with
  | some session, none => session.request.messageHashes
  | _, _ => []

/-- The messages of the session that an incoming message completed. -/
def completedBy (signing signing' : SigningState M) : Action W T → List W
  | .acceptNonces requestHash _ _ => closedMessages signing signing' requestHash
  | .acceptPartialSignatures requestHash _ _ => closedMessages signing signing' requestHash
  | _ => []

/-- The node's step; a task acts only at the stage it has reached. -/
def step : HandlerAction W T Tx → ExchangeNode M Tx
  | .receive request => node.receive R request
  | .sign index now sender peers =>
    match node.tasks[index]? with
    | some ⟨request, .locked⟩ => node.sign J R index now request sender peers
    | _ => node
  | .send index sent =>
    match node.tasks[index]? with
    | some ⟨_, .sending⟩ => node.setStage index (if sent then .done else .failed)
    | _ => node
  | .unlock index =>
    match node.tasks[index]? with
    | some ⟨request, .failed⟩ =>
      let store := node.store.step (.unlockExchange (R.member request.tx) request.blockHeight)
      { node with store := store }.setStage index .done
    | _ => node
  | .observeBroadcast tx finalTx =>
    if R.txid finalTx = R.txid tx then
      { node with store := node.store.step (.updateLockedTransaction (R.member tx) tx finalTx) }
    else node
  | .signing action =>
    if isForeign R action then
      let signing := Signing.step J node.signing action
      { node with
        signing := signing
        completed := node.completed ++ completedBy node.signing signing action }
    else node
  | .applyBlock height treasuryTransactions members =>
    match (DropletStore.applyBlockIn height treasuryTransactions members).exec node.store with
    | (.ok _, store) =>
      { node with
        store := store
        settled := node.settled ++ treasuryTransactions.map TreasuryTransaction.txid }
    | (.error _, _) => node
  -- `recover_droplet_exchanges` found the locked transaction conflicted.
  | .conflicted member height =>
    { node with
      store := node.store.step (.unlockExchange member height)
      settled := node.settled ++ ((lockedFor node.store.droplets member).map R.txid).toList }

def run (actions : List (HandlerAction W T Tx)) : ExchangeNode M Tx :=
  actions.foldl (fun node action => node.step J R action) node

section Properties

/-- A session for the message is open or completed, or the node released a share for it. -/
def Signable (messageHash : W) : Prop :=
  node.signing.Touched messageHash ∨ messageHash ∈ node.completed

/-- The transaction may have a signature and can still confirm. -/
def Live (tx : Tx) : Prop := node.Signable (R.signingHash tx) ∧ R.txid tx ∉ node.settled

/-- The member's row is locked for the transaction, unsigned or final. -/
def LockedFor (tx : Tx) : Prop :=
  ∃ last, lockedFor node.store.droplets (R.member tx) = some last ∧ R.txid last = R.txid tx

/-- A live session relies on the lock, and so does a task that has yet to sign. -/
def Relied (tx : Tx) : Prop :=
  node.Live R tx ∨ ((∃ task ∈ node.tasks, task.stage = .locked ∧ task.request.tx = tx) ∧
    R.txid tx ∉ node.settled)

/-- A lock that is given up is one that nothing relies on: a failed task's member has neither a
live session nor a task about to sign, and a charge settles what relied on its member's lock. -/
def Clear : HandlerAction W T Tx → Prop
  | .unlock index => ∀ task, node.tasks[index]? = some task → task.stage = .failed →
      ∀ tx, R.member tx = R.member task.request.tx → ¬node.Relied R tx
  | .applyBlock height treasuryTransactions members =>
    SpendState.EachConfirm (fun state treasuryTransaction => ∀ member amount,
      state.store.chargeOf treasuryTransaction = some (member, amount) →
        ∀ tx, R.member tx = member → node.Relied R tx →
          R.txid tx ∈ treasuryTransactions.map TreasuryTransaction.txid)
      height (DropletStore.sortedMembers members) ⟨node.store, []⟩ treasuryTransactions
  | _ => True

/-- Every step of a run is clear. -/
def AllClear : ExchangeNode M Tx → List (HandlerAction W T Tx) → Prop
  | _, [] => True
  | node, action :: actions => node.Clear R action ∧ AllClear (node.step J R action) actions

end Properties

end ExchangeNode

end PriceOracle
