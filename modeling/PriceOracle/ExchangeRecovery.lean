import PriceOracle.DropletLocks
import PriceOracle.MapKeys

/-!
# Recovery of locked exchanges

`recover_droplet_exchanges` of `indexer/mod.rs` asks the chain about the transaction of every lock, one call after the
other, and releases the locks whose transactions it takes for conflicted. An output that is not in the UTXO set was spent,
or was never confirmed, or is no longer confirmed; the calls do not tell these apart.
-/

namespace PriceOracle

/-- How a transaction is read. -/
structure TxRules (W T : Type) where
  txid : T → W
  inputs : T → List (W × ℕ)
  outputs : T → ℕ
  /-- The id commits to all but the witnesses. -/
  inputs_of_txid : ∀ {tx tx' : T}, txid tx = txid tx' → inputs tx = inputs tx'

/-- What a node of the chain has at one moment; what a reorganisation disconnected may be in the mempool again or not. -/
structure ChainState {W T : Type} (rules : TxRules W T) where
  confirmed : List T
  mempool : List T
  disconnected : List T
  /-- An output is spent once. -/
  spentOnce : ∀ tx ∈ confirmed, ∀ tx' ∈ confirmed, ∀ outpoint ∈ rules.inputs tx, outpoint ∈ rules.inputs tx' →
    rules.txid tx = rules.txid tx'
  /-- The mempool spends nothing that the chain has spent. -/
  mempoolUnspent : ∀ tx ∈ mempool, ∀ tx' ∈ confirmed, ∀ outpoint ∈ rules.inputs tx, outpoint ∉ rules.inputs tx'

namespace ChainState

variable {W T : Type} [DecidableEq W] {rules : TxRules W T} (state : ChainState rules)

def creates (rules : TxRules W T) (tx : T) (outpoint : W × ℕ) : Bool :=
  rules.txid tx = outpoint.1 && decide (outpoint.2 < rules.outputs tx)

/-- The output is in the UTXO set of the current chain. -/
def unspent (outpoint : W × ℕ) : Bool :=
  (state.confirmed.any fun tx => creates rules tx outpoint) &&
    !state.confirmed.any fun tx => decide (outpoint ∈ rules.inputs tx)

def isConfirmed (tx : T) : Bool := state.confirmed.any fun tx' => rules.txid tx' = rules.txid tx

def inMempool (tx : T) : Bool := state.mempool.any fun tx' => rules.txid tx' = rules.txid tx

/-- Every input is an unspent output, or one that another transaction creates that confirms first. -/
def ConfirmsWithin : ℕ → T → Prop
  | 0, tx => ∀ outpoint ∈ rules.inputs tx, state.unspent outpoint = true
  | depth + 1, tx => ∀ outpoint ∈ rules.inputs tx, state.unspent outpoint = true ∨
      ∃ parent ∈ state.mempool ++ state.disconnected, creates rules parent outpoint = true ∧
        (∀ tx' ∈ state.confirmed, outpoint ∉ rules.inputs tx') ∧ ConfirmsWithin depth parent

/-- The transaction is confirmed on the current chain or can still be. -/
def Live (tx : T) : Prop := state.isConfirmed tx = true ∨ ∃ depth, state.ConfirmsWithin depth tx

/-- Another confirmed transaction spends an output that the transaction spends. -/
def Conflicts (tx : T) (outpoint : W × ℕ) : Prop :=
  ∃ other ∈ state.confirmed, rules.txid other ≠ rules.txid tx ∧ outpoint ∈ rules.inputs other

end ChainState

/-- The calls about one lock: the chain as each of them finds it, and whether it is answered. -/
structure RpcCalls {W T : Type} (rules : TxRules W T) where
  state : ℕ → ChainState rules
  answered : ℕ → Bool

/-- The calls of one pass. -/
structure RecoveryCalls {W T : Type} (rules : TxRules W T) where
  /-- `getrawmempool` -/
  mempoolState : ChainState rules
  mempoolAnswered : Bool
  about : W → RpcCalls rules

inductive ExchangeChainState where
  | known
  | conflicted
  | pending
  deriving DecidableEq

inductive ExchangeRecovery (W Tx : Type) where
  | keep
  | unlock
  | rebroadcast (transaction : Tx) (txid : W)
  deriving DecidableEq

inductive RecoveryError where
  | rpc
  | droplets (error : DropletError)

/-- What a pass leaves, also when it ends in an error. -/
structure RecoveryOutcome (W Tx : Type) where
  store : DropletStore W Tx
  broadcasts : List Tx
  result : Except RecoveryError Unit

namespace Indexer

variable {W T Tx : Type} {rules : TxRules W T}

section Calls

variable [DecidableEq W] (calls : RpcCalls rules)

/-- `gettxout` without the mempool for every input, from the call `k` on. -/
def missingInput : ℕ → List (W × ℕ) → Bool → Option Bool
  | _, [], conflicted => some conflicted
  | k, outpoint :: inputs, conflicted =>
    if calls.answered k then missingInput (k + 1) inputs (conflicted || !(calls.state k).unspent outpoint) else none

/-- `getrawtransaction` is the call after the inputs; it finds no transaction or one without confirmations alike. -/
def exchangeChainState (transaction : T) (mempool : List W) : Option ExchangeChainState := do
  let conflicted ← missingInput calls 0 (rules.inputs transaction) false
  if rules.txid transaction ∈ mempool then return .known
  else
    let last := (rules.inputs transaction).length
    if calls.answered last = false then none
    else if (calls.state last).isConfirmed transaction then return .known
    else return if conflicted then .conflicted else .pending

def exchangeRecovery (rules : TxRules W T) (balance : Droplet Tx) (blockHeight : ℕ) (isLeader : Bool)
    (exchange : Option (T × Bool)) (chain : ExchangeChainState) : ExchangeRecovery W Tx :=
  match balance.lastTx with
  | none => .unlock
  | some lastTx =>
    match exchange with
    | none => if balance.blockHeight < blockHeight then .unlock else .keep
    | some (transaction, isFinal) =>
      match chain with
      | .known => .keep
      | .conflicted => .unlock
      | .pending => if isFinal && isLeader then .rebroadcast lastTx (rules.txid transaction) else .keep

end Calls

section Pass

variable [LinearOrder W] (lockedExchange : Tx → Option (T × Bool)) (calls : RecoveryCalls rules)
  (blockHeight : ℕ) (isLeader : Bool)

/-- What becomes of one lock; without an answer of the chain it is left alone. -/
def recovery (member : W) (balance : Droplet Tx) : Option (ExchangeRecovery W Tx) := do
  let exchange := balance.lastTx.bind lockedExchange
  let chain ← match exchange with
    | some (transaction, _) =>
      exchangeChainState (calls.about member) transaction (calls.mempoolState.mempool.map rules.txid)
    | none => some .pending
  return exchangeRecovery rules balance blockHeight isLeader exchange chain

def recoverRows : List (Sigma fun _ : W => Droplet Tx) → DropletStore W Tx → RecoveryOutcome W Tx
  | [], store => ⟨store, [], .ok ()⟩
  | ⟨member, balance⟩ :: rows, store =>
    match recovery lockedExchange calls blockHeight isLeader member balance with
    | none | some .keep => recoverRows rows store
    | some .unlock =>
      match (DropletStore.unlockExchange member blockHeight).atomic.exec store with
      | (.ok _, store) => recoverRows rows store
      | (.error error, store) => ⟨store, [], .error (.droplets error)⟩
    | some (.rebroadcast transaction _) =>
      let outcome := recoverRows rows store
      { outcome with broadcasts := transaction :: outcome.broadcasts }

/-- `locked`, in the order of the members. -/
def lockedRows (store : DropletStore W Tx) : List (Sigma fun _ : W => Droplet Tx) :=
  (store.droplets.entries.filter fun row => row.2.exchangeLocked).insertionSort fun row row' => row.1 ≤ row'.1

def recoverDropletExchanges (store : DropletStore W Tx) : RecoveryOutcome W Tx :=
  if calls.mempoolAnswered = false then ⟨store, [], .error .rpc⟩
  else recoverRows lockedExchange calls blockHeight isLeader (lockedRows store) store

end Pass

end Indexer

end PriceOracle
