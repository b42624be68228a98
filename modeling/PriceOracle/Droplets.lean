import Mathlib.Data.List.Dedup
import Mathlib.Data.List.Sort
import PriceOracle.Database
import PriceOracle.Table

/-!
# The Droplets ledger

`db/droplet.rs`: balances of the members, unspent Treasury outputs, and the exchange
lock of each member. Hashes and keys are of type `W`, transaction bytes of type `Tx`;
a `bigint` that overflows fails its statement.
-/

namespace PriceOracle

structure TreasuryTransaction (W : Type) where
  txid : W
  inputs : List (W × ℕ)
  outputs : List (ℕ × ℕ)
  depositMember : Option W
  exchangeMember : Option W

inductive DropletError where
  | database
  | invalid (reason : String)
  deriving DecidableEq

/-- A row of `droplets`. -/
structure Droplet (Tx : Type) where
  amount : ℕ
  deficit : ℕ
  blockHeight : ℕ
  exchangeLocked : Bool
  lastTx : Option Tx
  exchangeAmount : ℕ

/-- A row of `treasury_utxos`. -/
structure TreasuryUtxo where
  amount : ℕ
  blockHeight : ℕ

structure DropletStore (W Tx : Type) where
  droplets : Table W (Droplet Tx)
  treasuryUtxos : Table (W × ℕ) TreasuryUtxo

namespace DropletStore

variable {W Tx : Type}

def empty : DropletStore W Tx := ⟨∅, ∅⟩

/-- `encode_u64`, and the range check of a computed column. -/
def encodeU64 (value : ℕ) : Db (DropletStore W Tx) DropletError ℕ :=
  if value < 2 ^ 63 then pure value else throw .database

/-- What a credit adds to the balance after it has repaid the deficit. -/
def surplus (amount deficit : ℕ) : ℕ := if amount > deficit then amount - deficit else 0

/-- The row that `CREDIT_SQL` leaves. -/
def creditedRow (row : Option (Droplet Tx)) (amount height : ℕ) : Droplet Tx :=
  match row with
  | none => ⟨amount, 0, height, false, none, 0⟩
  | some row =>
    { row with
      amount := row.amount + surplus amount row.deficit
      deficit := if amount > row.deficit then 0 else row.deficit - amount
      blockHeight := height }

/-- The row that a confirmed spend leaves: what the balance does not cover is a deficit. -/
def debitedRow (row : Option (Droplet Tx)) (exchanged height : ℕ) : Droplet Tx :=
  let amount := (row.map Droplet.amount).getD 0
  ⟨amount - exchanged, (row.map Droplet.deficit).getD 0 + (exchanged - amount), height, false, none, 0⟩

def lockedRow (row : Droplet Tx) (amount height : ℕ) (transaction : Tx) : Droplet Tx :=
  { row with
    blockHeight := height
    exchangeLocked := true
    lastTx := some transaction
    exchangeAmount := amount }

def unlockedRow (row : Droplet Tx) (height : ℕ) : Droplet Tx :=
  { row with blockHeight := height, exchangeLocked := false, lastTx := none, exchangeAmount := 0 }

/-- Who gets how much of a deposit: the tagged member, or every member an equal share. -/
def allocations [DecidableEq W] (members : List W) (taggedMember : Option W) (amount : ℕ) :
    List (W × ℕ) :=
  match taggedMember.filter fun member => decide (member ∈ members) with
  | some member => [(member, amount)]
  | none =>
    members.zipIdx.map fun entry =>
      (entry.1, amount / members.length + if entry.2 < amount % members.length then 1 else 0)

section Statements

variable [DecidableEq W]

def credit (member : W) (amount height : ℕ) : Db (DropletStore W Tx) DropletError PUnit := do
  let amount ← encodeU64 amount
  let height ← encodeU64 height
  let store ← get
  let row := creditedRow (store.droplets.lookup member) amount height
  let _ ← encodeU64 row.amount
  set { store with droplets := store.droplets.insert member row }

def creditDeposit (members : List W) (taggedMember : Option W) (amount height : ℕ) :
    Db (DropletStore W Tx) DropletError PUnit :=
  if amount = 0 then pure ⟨⟩
  else (allocations members taggedMember amount).forM fun entry => credit entry.1 entry.2 height

/-- One turn of the input loop, with the amount spent so far. -/
def spendInput (spentAmount : ℕ) (input : W × ℕ) : Db (DropletStore W Tx) DropletError ℕ := do
  let store ← get
  match store.treasuryUtxos.lookup input with
  | none => pure spentAmount
  | some row =>
    if spentAmount + row.amount < 2 ^ 64 then do
      set { store with treasuryUtxos := store.treasuryUtxos.erase input }
      pure (spentAmount + row.amount)
    else throw (.invalid "Treasury input overflow")

def outputAmount (outputs : List (ℕ × ℕ)) : Option ℕ :=
  outputs.foldlM (fun total output => if total + output.2 < 2 ^ 64 then some (total + output.2) else none) 0

def insertOutput (txid : W) (height : ℕ) (output : ℕ × ℕ) :
    Db (DropletStore W Tx) DropletError PUnit := do
  let amount ← encodeU64 output.2
  let height ← encodeU64 height
  let store ← get
  -- The primary key of `treasury_utxos`.
  if (txid, output.1) ∈ store.treasuryUtxos then throw .database
  else set { store with treasuryUtxos := store.treasuryUtxos.insert (txid, output.1) ⟨amount, height⟩ }

/-- Charges a Treasury spend to the member it names. -/
def debit (members : List W) (exchangeMember : Option W) (spentAmount outputAmount height : ℕ) :
    Db (DropletStore W Tx) DropletError PUnit :=
  match exchangeMember with
  | none => throw (.invalid "Treasury spend has no member marker")
  | some member =>
    if member ∉ members then throw (.invalid "Treasury spend identifies a non-member")
    else if spentAmount < outputAmount then throw (.invalid "Treasury spend increases Treasury value")
    else do
      let store ← get
      let row := debitedRow (store.droplets.lookup member) (spentAmount - outputAmount) height
      if row.deficit < 2 ^ 64 then do
        let _ ← encodeU64 row.amount
        let _ ← encodeU64 height
        let _ ← encodeU64 row.deficit
        set { store with droplets := store.droplets.insert member row }
      else throw (.invalid "Droplets deficit overflow")

/-- One turn of the loop of `apply_block_in`. -/
def applyTransaction (height : ℕ) (members : List W) (treasuryTransaction : TreasuryTransaction W) :
    Db (DropletStore W Tx) DropletError PUnit := do
  let spentAmount ← treasuryTransaction.inputs.foldlM spendInput 0
  match outputAmount treasuryTransaction.outputs with
  | none => throw (.invalid "Treasury output overflow")
  | some outputAmount => do
    treasuryTransaction.outputs.forM (insertOutput treasuryTransaction.txid height)
    if spentAmount = 0 then
      creditDeposit members treasuryTransaction.depositMember outputAmount height
    else debit members treasuryTransaction.exchangeMember spentAmount outputAmount height

variable [DecidableEq Tx]

def lockExchange (member : W) (amount height : ℕ) (transaction : Tx) :
    Db (DropletStore W Tx) DropletError Bool := do
  let height ← encodeU64 height
  let amount ← encodeU64 amount
  let store ← get
  match store.droplets.lookup member with
  | none => pure false
  | some row =>
    if amount ≤ row.amount ∧
        (row.exchangeLocked = false ∨ (row.lastTx = some transaction ∧ row.exchangeAmount = amount)) then do
      set { store with droplets := store.droplets.insert member (lockedRow row amount height transaction) }
      pure true
    else pure false

def unlockExchange (member : W) (height : ℕ) : Db (DropletStore W Tx) DropletError PUnit := do
  let height ← encodeU64 height
  let store ← get
  match store.droplets.lookup member with
  | none => pure ⟨⟩
  | some row =>
    set { store with droplets := store.droplets.insert member (unlockedRow row height) }

def updateLockedTransaction (member : W) (expectedTransaction transaction : Tx) :
    Db (DropletStore W Tx) DropletError Bool := do
  let store ← get
  match store.droplets.lookup member with
  | none => pure false
  | some row =>
    if row.exchangeLocked = true ∧ row.lastTx = some expectedTransaction then do
      set { store with droplets := store.droplets.insert member { row with lastTx := some transaction } }
      pure true
    else pure false

end Statements

variable [LinearOrder W]

/-- `sort_unstable` and `dedup` of the member list. -/
def sortedMembers (members : List W) : List W := (members.insertionSort (· ≤ ·)).dedup

def applyBlockIn (height : ℕ) (treasuryTransactions : List (TreasuryTransaction W)) (members : List W) :
    Db (DropletStore W Tx) DropletError PUnit :=
  if members = [] then throw (.invalid "network has no members")
  else treasuryTransactions.forM (applyTransaction height (sortedMembers members))

end DropletStore

/-- The statements that the node runs on the ledger, each in a transaction of its own. -/
inductive DropletAction (W Tx : Type) where
  | applyBlock (height : ℕ) (treasuryTransactions : List (TreasuryTransaction W)) (members : List W)
  | lockExchange (member : W) (amount height : ℕ) (transaction : Tx)
  | unlockExchange (member : W) (height : ℕ)
  | updateLockedTransaction (member : W) (expectedTransaction transaction : Tx)

namespace DropletStore

variable {W Tx : Type} [LinearOrder W] [DecidableEq Tx]

def program : DropletAction W Tx → Db (DropletStore W Tx) DropletError PUnit
  | .applyBlock height treasuryTransactions members => applyBlockIn height treasuryTransactions members
  | .lockExchange member amount height transaction => do
    let _ ← lockExchange member amount height transaction
  | .unlockExchange member height => unlockExchange member height
  | .updateLockedTransaction member expectedTransaction transaction => do
    let _ ← updateLockedTransaction member expectedTransaction transaction

def step (store : DropletStore W Tx) (action : DropletAction W Tx) : DropletStore W Tx :=
  ((program action).atomic.exec store).2

def run (store : DropletStore W Tx) (actions : List (DropletAction W Tx)) : DropletStore W Tx :=
  actions.foldl step store

end DropletStore

end PriceOracle
